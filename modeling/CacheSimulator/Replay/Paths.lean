import CacheSimulator.Replay.Evictions
import CacheSimulator.Refinement.Write

/-!
# The acts of reads and writes

Each path of `cpu_read` and `cpu_write` counts one hit, in an event and in a
counter. What a path asks of a permit is that it lets the state of the accessed L2
way change silently if the path changes it, the state of the way that the eviction
from L1 promotes if it promotes one, and the bytes of a way that a store hits.
-/

namespace CacheSimulator

open Mesi

namespace Sim

variable {p : Permit} {s t : Sim} {c : CoreId} {physicalAddress : Addr}

/-- A call that returns `true` and counts one hit of core `c`. -/
structure CountsHit (p : Permit) (s : Sim) (c : CoreId) (r : Sim × Option (List Byte)) : Prop where
  returned : r.2.isSome = true
  hit : ∃ k ≠ HitKind.l1i, ∃ ls : List Label, ls.Perm [.event c k, .bump c k] ∧ s.Traces p ls r.1

theorem CountsHit.event_bump {k : HitKind} {r : Sim × Option (List Byte)}
    (hr : r.2.isSome = true) (hk : k ≠ .l1i) (h : s.Traces p [.event c k, .bump c k] r.1) :
    s.CountsHit p c r :=
  ⟨hr, k, hk, _, .refl _, h⟩

theorem CountsHit.bump_event {k : HitKind} {r : Sim × Option (List Byte)}
    (hr : r.2.isSome = true) (hk : k ≠ .l1i) (h : s.Traces p [.bump c k, .event c k] r.1) :
    s.CountsHit p c r :=
  ⟨hr, k, hk, _, .swap _ _ _, h⟩

/-! ## Hits and fills -/

theorem Traces.hitL1 {i : Fin 64} {v : Fin 8} (addr : Addr)
    (hvalid : (s.l1 .data c i).state v ≠ .invalid) :
    s.Traces p [.event c .l1d] (s.emit .l1dHit c 1 i v addr ((s.l1 .data c i).state v)
      ((s.l1 .data c i).state v) (some ((s.l1 .data c i).data v))) := by
  refine .of_hit (by simp) (currentSeq_emit ..) fun h => ?_
  rw [grid_emit_level1 s h]
  have hself : s.grid.setL1 (c, i, v) (s.grid.l1d (c, i, v)) = s.grid := by
    rw [Grid.setL1, Function.update_eq_self]
  have hhit : Hit s.currentSeq p c s.grid .l1d ((s.grid.setL1 (c, i, v) (s.grid.l1d (c, i, v))).emit
      (level1Event s.currentSeq .l1dHit (c, i, v) addr (s.grid.l1d (c, i, v)).state
        (s.grid.l1d (c, i, v)).state (some (s.grid.l1d (c, i, v)).data))) :=
    .l1d rfl hvalid rfl hvalid (.inl rfl)
  rwa [hself] at hhit

theorem Traces.storeL1 {i : Fin 64} {v : Fin 8} {set : L1Set} {oldState : MESIState} (addr : Addr)
    (hold : (s.l1 .data c i).state v = oldState) (hvalid : oldState ≠ .invalid)
    (hoff : ∀ u, u ≠ v → set.tag u = (s.l1 .data c i).tag u ∧
      set.state u = (s.l1 .data c i).state u ∧ set.data u = (s.l1 .data c i).data u)
    (htag : set.tag v = (s.l1 .data c i).tag v) (hstate : set.state v = .modified)
    (hstores : set.data v = (s.l1 .data c i).data v ∨ MayStore p s) :
    s.Traces p [.event c .l1d] ((s.setL1 .data c i set).emit .l1dHit c 1 i v addr oldState
      .modified (some (set.data v))) := by
  subst hold
  refine .of_hit (by simp) (currentSeq_emit ..) fun h => ?_
  have hcell : (⟨set.tag v, set.state v, set.data v⟩ : L1Cell) =
      ⟨set.tag v, .modified, set.data v⟩ := by rw [hstate]
  rw [grid_setL1_emit _ hoff hcell h]
  exact .l1d rfl hvalid htag (by simp) (hstores.imp_right fun hmay => hmay.stores h)

/-- The event of a hit in L2, before anything changes. -/
def reportL2Hit (s : Sim) (c : CoreId) (physicalAddress : Addr) (w : Fin 16) : Sim :=
  s.emit .l2Hit c 2 (l2ToIndex physicalAddress) w physicalAddress
    ((s.l2 (l2ToIndex physicalAddress)).state w) ((s.l2 (l2ToIndex physicalAddress)).state w) none

theorem SameCaches.reportL2Hit (s : Sim) (c : CoreId) (physicalAddress : Addr) (w : Fin 16) :
    SameCaches s (s.reportL2Hit c physicalAddress w) :=
  .emit ..

theorem Traces.hitL2 {w : Fin 16} (hvalid : (s.l2 (l2ToIndex physicalAddress)).state w ≠ .invalid) :
    s.Traces p [.event c .l2] (s.reportL2Hit c physicalAddress w) := by
  refine .of_hit (by simp [reportL2Hit]) (currentSeq_emit ..) fun h => ?_
  rw [reportL2Hit, grid_emit_level2 s h]
  exact .l2 hvalid

theorem Traces.memFetch (addr : Addr) (data : Option Line) :
    s.Traces p [.event c .mem] (s.emit .memFetch c 3 0 0 addr .invalid .invalid data) := by
  refine .of_hit (by simp) (currentSeq_emit ..) fun h => ?_
  rw [grid_emit_memFetch s h]
  exact .mem

theorem Traces.fillL1 {i : Fin 64} {v : Fin 8} (tag addr : Addr) (line : Line)
    (state : MESIState) (hfills : p.fills) (hsets : p.sets c i)
    (hfree : (s.l1 .data c i).state v = .invalid) (hstate : state ≠ .invalid)
    (haddr : toLineBase addr = l1ToAddr tag i) :
    s.Traces p [] ((s.setL1 .data c i (l1CacheFill (s.l1 .data c i) tag v line state)).emit .l1dFill
      c 1 i v addr .invalid state (some line)) := by
  refine Traces.setL1_emit ⟨tag, state, line⟩ (fun u hu => ?_) ?_ hfree
    (.fill hfills hfree hstate haddr) hsets
  · simp [l1CacheFill, hu]
  · simp [l1CacheFill]

/-! ## Reads -/

theorem l1CacheReadWay_same (set : L1Set) (v : Fin 8) (offset size : ℕ) :
    (l1CacheReadWay set v offset size).Sat
      (fun r => r.2.tag = set.tag ∧ r.2.state = set.state ∧ r.2.data = set.data)
      fun _ => True := by
  unfold l1CacheReadWay
  split
  · exact ⟨rfl, rfl, rfl⟩
  · trivial

theorem readL1Hit_traces {v : Fin 8} (size : ℕ)
    (hfind : findL1Way (s.l1 .data c (l1ToIndex physicalAddress)) (l1ToTag physicalAddress) =
      some v) :
    (readL1Hit s c physicalAddress v size).Sat (s.CountsHit p c)
      fun _ => True := by
  obtain ⟨-, hvalid⟩ := findL1Way_found hfind
  unfold readL1Hit
  dsimp only
  refine (l1CacheReadWay_same _ _ _ _).bind fun r hr => ?_
  obtain ⟨htag, hstate, hdata⟩ := hr
  have hhit := (Traces.hitL1 (p := p) physicalAddress hvalid).trans (.modifyPmc p _ c .l1d)
  refine .event_bump rfl (by decide) (hhit.same (.setL1_data ?_ ?_ ?_))
  · rw [htag, (SameCaches.modifyPmc _ _ _).l1, l1_emit]
  · rw [hstate, (SameCaches.modifyPmc _ _ _).l1, l1_emit]
  · rw [hdata, (SameCaches.modifyPmc _ _ _).l1, l1_emit]

theorem copyOut_sat (line : Line) (offset size : ℕ) :
    (line.copyOut offset size).Sat (fun _ => True) fun _ => True := by
  cases line.copyOut offset size with
  | ok data => trivial
  | error e => trivial

theorem evictL1_room {i : Fin 64} (hs : s.Inv) (hsets : p.sets c i)
    (hsilent : ∀ l, s.PromotesL1At .data c i l → MayHide p s l) :
    (evictL1 .data s i c).Sat (fun r => s.Traces p [] r.1 ∧
      (r.1.l1 .data c i).state r.2 = .invalid ∧ FreesL1 s .data c r.1) fun _ => True :=
  ((evictL1_data_traces hs.placed hs.dirtyInclusion hsets hsilent).both
    (evictL1_spec hs.placed fun b _ => hs.lineOk b)).imp fun _ hr => ⟨hr.1.1, hr.2.1, hr.2.2⟩

/-- The way of a line is found again after an eviction from L1. -/
theorem FreesL1.way_eq {a : LineNo} {w : Fin 16} {e : L2Entry} (hs : s.Inv)
    (h : FreesL1 s .data c t) (hc : (s.rep a).l1 .data c = none)
    (hw : (s.l2 (l2Geometry.index a)).slots w = some (l2Geometry.tag a, e)) :
    (t.l2 (l2Geometry.index a)).slots w = some (l2Geometry.tag a, e) :=
  h.tags.slots (h.background hs).inv.placed hw (by rw [h.rep_eq hc, hs.placed.l2_of_slots hw])

theorem readL2Hit_traces {w : Fin 16} (size : ℕ) (hs : s.Inv) (hopen : p.Open)
    (hmiss : findL1Way (s.l1 .data c (l1ToIndex physicalAddress)) (l1ToTag physicalAddress) = none)
    (hfind : l2FindWay (s.l2 (l2ToIndex physicalAddress)) (l2ToTag physicalAddress) = some w)
    (hpromotes : ∀ l, s.PromotesL1At .data c (l1ToIndex physicalAddress) l →
      MayHide p (s.reportL2Hit c physicalAddress w) l)
    (hshared : ((s.l2 (l2ToIndex physicalAddress)).coreValidD w &&& ~~~coreBit c) |||
        ((s.l2 (l2ToIndex physicalAddress)).coreValidI w &&& ~~~coreBit c) ≠ 0 →
      .shared = (s.l2 (l2ToIndex physicalAddress)).state w ∨
        MayHide p (s.reportL2Hit c physicalAddress w) (l2ToIndex physicalAddress, w)) :
    (readL2Hit s c physicalAddress w size).Sat (s.CountsHit p c)
      fun _ => True := by
  have hvalid := (l2FindWay_found hfind).2
  have hhit := Traces.hitL2 (p := p) (c := c) hvalid
  have hsame := SameCaches.reportL2Hit s c physicalAddress w
  have hs₀ := hs.congr hsame
  unfold readL2Hit
  change Except.Sat (evictL1 .data (s.reportL2Hit c physicalAddress w) _ _ >>= _) _ _
  rw [← hsame.l1] at hmiss
  rw [← hsame.l2] at hfind hvalid hshared
  have hevict := fun l hl => hpromotes l ((PromotesL1At.congr hsame).mp hl)
  generalize s.reportL2Hit c physicalAddress w = s₀ at *
  obtain ⟨e, hw⟩ := l2FindWay_eq_some hfind
  simp only [← l1Geometry_index_lineNo physicalAddress, ← l1Geometry_tag_lineNo physicalAddress,
    ← l2Geometry_index_lineNo physicalAddress, ← l2Geometry_tag_lineNo physicalAddress]
    at hw hmiss hvalid hshared hevict ⊢
  have hc := l1_eq_none_of_find hmiss
  refine (evictL1_room (p := p.level1) hs₀ (hopen.sets _ _) hevict).bind fun r hr => ?_
  obtain ⟨s₁, v⟩ := r
  obtain ⟨htraces, hv, hfrees⟩ := hr
  dsimp only at hv hfrees htraces ⊢
  have hinv₁ := (hfrees.background hs₀).inv
  have hw₁ := hfrees.way_eq hs₀ hc hw
  -- the entry is the one before the eviction
  have hstate := (l2ClearCoreValidWay_masks hw₁ hw .data c).2.2
  refine ((busRead_traces (k := .data) (p := p) (fun b _ => hopen.sets b _) ?_ ?_).both
    (busRead_spec hinv₁.placed (hinv₁.exact _) hw₁)).bind fun r hr => ?_
  · rw [← l2Geometry_index_lineNo, hstate]
    exact hvalid
  · rw [← l2Geometry_index_lineNo, L2Set.coreValidD_of_slots hw₁, L2Set.coreValidI_of_slots hw₁,
      hstate, ← L2Set.coreValidD_of_slots hw, ← L2Set.coreValidI_of_slots hw]
    exact fun h => (hshared h).imp_right fun hmay => hmay.traces htraces id
  · obtain ⟨s₂, line, other⟩ := r
    obtain ⟨htraces₂, hl1, -, -⟩ := hr
    dsimp only at htraces₂ hl1 ⊢
    refine (copyOut_sat _ _ _).bind fun data _ => ?_
    have hpmc := SameCaches.modifyPmc s₂ c fun pmc => { pmc with l2Hits := pmc.l2Hits + 1 }
    have hbump : s.Traces p [.event c .l2, .bump c .l2] _ :=
      ((hhit.then (htraces.mono Permit.level1_le)).then htraces₂).trans (.modifyPmc p s₂ c .l2)
    refine .event_bump rfl (by decide)
      (hbump.then (Traces.fillL1 _ _ _ _ hopen.fills (hopen.sets _ _) ?_ ?_ ?_))
    · change (((s₂.modifyPmc c fun pmc => { pmc with l2Hits := pmc.l2Hits + 1 }).l1 .data c)
        _).state v = .invalid
      rw [hpmc.l1, hl1]
      exact hv
    · split
      · simp
      · simp
    · rw [l1ToAddr_geometry, lineAddr_lineNo]

/-! ## Misses -/

theorem l2CacheFill_sat (set : L2Set) (c : CoreId) (tag : Addr) (w : Fin 16) (data : Line)
    (state : MESIState) (k : L1Kind) :
    (l2CacheFill set c tag w data state k).Sat
      (fun set' => set'.tag = Function.update set.tag w tag ∧
        set'.state = Function.update set.state w state) fun _ => True := by
  unfold l2CacheFill
  split
  · trivial
  · cases k with
    | data => exact ⟨rfl, rfl⟩
    | instr => exact ⟨rfl, rfl⟩

theorem Traces.fillBoth {a : LineNo} {v : Fin 8} {w : Fin 16} {l2Set : L2Set} {state : MESIState}
    (line : Line) (hopen : p.Open) (hw : (s.l2 (l2Geometry.index a)).state w = .invalid)
    (hv : (s.l1 .data c (l1Geometry.index a)).state v = .invalid) (hstate : state ≠ .invalid)
    (hset : l2Set.tag = Function.update (s.l2 (l2Geometry.index a)).tag w (l2Geometry.tag a) ∧
      l2Set.state = Function.update (s.l2 (l2Geometry.index a)).state w state)
    (hl2 : t = (s.setL2 (l2Geometry.index a) l2Set).emit .l2Fill c 2 (l2Geometry.index a) w
      (lineAddr a) .invalid state (some line)) :
    s.Traces p [.event c .mem] (((t.setL1 .data c (l1Geometry.index a)
      (l1CacheFill (t.l1 .data c (l1Geometry.index a)) (l1Geometry.tag a) v line state)).emit
        .l1dFill c 1 (l1Geometry.index a) v (lineAddr a) .invalid state (some line)).emit
          .memFetch c 3 0 0 (lineAddr a) .invalid .invalid (some line)) := by
  subst hl2
  have hrule : L2Rule p (l2Geometry.index a, w) (s.grid.l2 (l2Geometry.index a, w)) .l2Fill
      (lineAddr a) ⟨l2Geometry.tag a, state⟩ := by
    rw [← l2ToAddr_geometry a]
    exact @L2Rule.fill p (_, w) _ ⟨l2Geometry.tag a, state⟩ hopen.fills hw hstate
  have hbase : toLineBase (lineAddr a) = l1ToAddr (l1Geometry.tag a) (l1Geometry.index a) := by
    rw [l1ToAddr_geometry, ← lineAddr_lineNo, lineNo_lineAddr]
  refine ((Traces.fillL2 hset.1 hset.2 (hopen.ways _) hrule hw).then
    (Traces.fillL1 _ _ _ _ hopen.fills (hopen.sets _ _) ?_ hstate hbase)).trans (.memFetch _ _)
  rw [l1_emit, l1_setL2]
  exact hv

theorem memoryRead_sat (m : Memory) (address size : ℕ) :
    (m.read address size).Sat (fun _ => True) fun _ => True := by
  cases m.read address size with
  | ok data => trivial
  | error e => trivial

theorem pfStream_traces_after_move {a : LineNo} {α : Action CoreId Store} (hs : s.Inv)
    (hm : LineMove s a α t) (hin : 64 * (a : ℕ) + 64 ≤ s.mem.size.toNat) (hopen : p.Open) :
    (pfStreamOnMiss t c (lineAddr a)).Sat (fun u => t.Traces p [] u) fun _ => True :=
  pfStreamOnMiss_traces (hm.evolves hs).inv (by rw [hm.size]; exact hin) hopen

theorem readMiss_traces (size : ℕ) (hs : s.Inv) (hopen : p.Open)
    (hmiss : l2FindWay (s.l2 (l2ToIndex physicalAddress)) (l2ToTag physicalAddress) = none)
    (hpromotes : ∀ r, evictL2 s (l2ToIndex physicalAddress) = .ok r →
      ∀ l, r.1.PromotesL1At .data c (l1ToIndex physicalAddress) l → MayHide p r.1 l) :
    (readMiss s c physicalAddress size).Sat (s.CountsHit p c)
      fun _ => True := by
  unfold readMiss
  dsimp only
  simp only [← l1Geometry_index_lineNo physicalAddress, ← l1Geometry_tag_lineNo physicalAddress,
    ← l2Geometry_index_lineNo physicalAddress, ← l2Geometry_tag_lineNo physicalAddress,
    lineBase_eq] at hmiss hpromotes ⊢
  have ha := l2_eq_none_of_find hmiss
  split
  · trivial
  refine (((evictL2_traces hs fun c => hopen.sets c _).both (evictL2_spec hs)).both
    (Except.sat_returned _)).bind fun r hr => ?_
  obtain ⟨s₁, w⟩ := r
  obtain ⟨⟨hevicts, hw, hfrees₁⟩, hr⟩ := hr
  have htraces₁ := hevicts.traces hopen.ways
  have hinv₁ := (hfrees₁.background hs).inv
  dsimp only at hw htraces₁ ⊢
  refine (evictL1_room hinv₁ (hopen.sets _ _) (hpromotes _ hr)).bind fun r hr => ?_
  obtain ⟨s₂, v⟩ := r
  obtain ⟨htraces₂, hv, hfrees₂⟩ := hr
  obtain ⟨hbg, hrep, hw₂⟩ := room_of_frees hs ha hfrees₁ hw hfrees₂
  dsimp only at hv htraces₂ ⊢
  by_cases hin : 64 * (lineNo physicalAddress : ℕ) + 64 ≤ s₂.mem.size.toNat
  · rw [readLine_lineAddr hin]
    obtain ⟨l2Set, hl2Set, hset⟩ := L2Set.fill_spec (hbg.inv.placed.free _) hw₂ c
      (l2Geometry.tag (lineNo physicalAddress)) (s₂.rep (lineNo physicalAddress)).mem
      (MESIState.mode?_eq_exclusive.mpr rfl) .data
    have hfilled := (l2CacheFill_sat ..).of_eq_ok hl2Set
    change Except.Sat (l2CacheFill _ _ _ _ _ _ _ >>= _) _ _
    rw [hl2Set]
    change Except.Sat (pfStreamOnMiss _ _ _ >>= _) _ _
    have hfill := Traces.fillBoth (p := p) (c := c)
      (s := s₂.record (.fill (lineAddr (lineNo physicalAddress))
        (s₂.rep (lineNo physicalAddress)).mem))
      (s₂.rep (lineNo physicalAddress)).mem hopen hw₂ hv (by simp) hfilled rfl
    refine (pfStream_traces_after_move (α := .loadD c) hbg.inv
      (lineMove_fill (k := .data) hbg.inv hin hw₂ hv (by rw [hrep, ha]) hset
        (MESIState.mode?_eq_exclusive.mpr rfl) (by simp)
        ((SameCaches.emit _ _ _ _ _ _ _ _ _ _).trans (.emit _ _ _ _ _ _ _ _ _ _))
        (by rw [sole_data_view]; exact .loadD c (by rw [LineRep.view_l2, hrep, ha]; rfl))
        (by simpa using Records.load (.loadD c) trivial rfl)) hin hopen).bind
      fun s₅ hs₅ => ?_
    refine (memoryRead_sat _ _ _).bind fun data _ => ?_
    exact .event_bump rfl (by decide)
      (((((htraces₁.then htraces₂).same (.record s₂ _)).trans hfill).then hs₅).trans
        (.modifyPmc p s₅ c .mem))
  · rw [readLine_error hin]
    trivial

/-! ## Writes -/

section Keeps

variable {l1Index : Fin 64} {l1Tag : Addr} {l2Index : Fin 4096} {w : Fin 16} {sharers : BitVec 8}

/-- The snoop of the other cores leaves the core's own L1D and the L2 states
alone. -/
theorem snoopInvalidatePeers_keeps (hothers : ∀ b : CoreId, sharers.getLsbD b = true → b ≠ c)
    (lineOut : Option Line) :
    (snoopInvalidatePeers s sharers l1Index l1Tag lineOut l2Index w).Sat
      (fun r => r.1.l1 .data c = s.l1 .data c ∧ ∀ i, (r.1.l2 i).state = (s.l2 i).state)
      fun _ => True := by
  refine forEachSharer_keeps trivial (fun b r hb hr => ?_) 8 ⟨rfl, fun _ => rfl⟩
  obtain ⟨t, out⟩ := r
  obtain ⟨hl1, hl2⟩ := hr
  have hset : ∀ (u : Sim) (k : L1Kind) (mask : BitVec 8) (i : Fin 4096),
      ((u.setL2 l2Index ((u.l2 l2Index).setCoreValid k w mask)).l2 i).state = (u.l2 i).state := by
    intro u k mask i
    rw [l2_setL2]
    split
    · rename_i hi
      rw [hi, L2Set.setCoreValid_state]
    · rfl
  unfold snoopInvalidatePeer
  dsimp only
  cases findL1Way (t.l1 .data b l1Index) l1Tag with
  | none => exact ⟨hl1, fun i => (hset _ _ _ i).trans (hl2 i)⟩
  | some v =>
      refine ⟨?_, fun i => ?_⟩
      · rw [l1_setL2, ← hl1]
        funext i
        rw [l1_setL1, if_neg fun h => hothers b hb h.2.1.symm, l1_emit]
      · dsimp only
        rw [l2ClearCoreValidWay, hset, l2_setL1, l2_emit]
        exact hl2 i

theorem snoopInvalidatePeersI_keeps (iSharers : BitVec 8) :
    (snoopInvalidatePeersI s iSharers l1Index l1Tag).Sat
      (fun t => t.l1 .data = s.l1 .data ∧ t.l2 = s.l2) fun _ => True := by
  refine forEachSharer_keeps trivial (fun b t _ ht => ?_) 8 ⟨rfl, rfl⟩
  unfold snoopInvalidatePeerI
  dsimp only
  cases findL1Way (t.l1 .instr b l1Index) l1Tag with
  | none => exact ht
  | some v =>
      refine ⟨?_, ?_⟩
      · rw [← ht.1]
        funext b' i
        rw [l1_setL1, if_neg (by simp), l1_emit]
      · rw [l2_setL1, l2_emit, ht.2]

end Keeps

theorem Traces.claimForStore {i : Fin 4096} {w : Fin 16}
    (hvalid : (s.l2 i).state w ≠ .invalid)
    (hsilent : .modified = (s.l2 i).state w ∨ MayHide p s (i, w)) :
    s.Traces p [] (s.setL2 i (claimForStore (s.l2 i) w c)) :=
  Traces.silentL2 (w := w) .modified rfl rfl hvalid (by simp) hsilent

theorem upgradeShared_traces {w : Fin 16} {oldL1 : MESIState} (hsets : ∀ c i, p.sets c i) :
    (upgradeShared s c physicalAddress oldL1 w).Sat
      (fun t => s.Traces p [] t ∧ t.l1 .data c = s.l1 .data c ∧
        ∀ i, (t.l2 i).state = (s.l2 i).state) fun _ => True := by
  unfold upgradeShared
  split
  · refine ((snoopInvalidatePeers_traces (fun c _ => hsets c _) none).both
      (snoopInvalidatePeers_keeps (c := c) (fun b hb => ne_of_getLsbD_others hb) none)).bind
        fun r hr => ?_
    obtain ⟨htraces, hl1, hl2⟩ := hr
    refine ⟨htraces.same (.touch _ _ _), hl1, fun i => ?_⟩
    rw [← hl2, l2_setL2]
    split
    · rename_i hi
      rw [hi]
      rfl
    · rfl
  · exact ⟨.refl p s, rfl, fun _ => rfl⟩

theorem l1CacheWriteWay_sat (set : L1Set) (v : Fin 8) (offset : ℕ) (data : List Byte) :
    (l1CacheWriteWay set v offset data).Sat
      (fun set' => set'.tag = set.tag ∧ set'.state = Function.update set.state v .modified ∧
        set'.data = Function.update set.data v ((set.data v).overlay offset data))
      fun _ => True := by
  unfold l1CacheWriteWay
  split
  · exact ⟨rfl, rfl, rfl⟩
  · trivial

theorem writeL1Hit_traces {v : Fin 8} (data : List Byte) (hopen : p.Open)
    (hfind : findL1Way (s.l1 .data c (l1ToIndex physicalAddress)) (l1ToTag physicalAddress) =
      some v)
    (hclaims : ∀ w, l2FindWay (s.l2 (l2ToIndex physicalAddress)) (l2ToTag physicalAddress) =
      some w → .modified = (s.l2 (l2ToIndex physicalAddress)).state w ∨
        MayHide p s (l2ToIndex physicalAddress, w))
    (hstores : ((s.l1 .data c (l1ToIndex physicalAddress)).data v).overlay
        (l1ToOffset physicalAddress) data =
      (s.l1 .data c (l1ToIndex physicalAddress)).data v ∨ MayStore p s) :
    (writeL1Hit s c physicalAddress v data).Sat (s.CountsHit p c)
      fun _ => True := by
  obtain ⟨-, hvalid⟩ := findL1Way_found hfind
  unfold writeL1Hit
  dsimp only
  cases hfind2 : l2FindWay (s.l2 (l2ToIndex physicalAddress)) (l2ToTag physicalAddress) with
  | none => trivial
  | some w =>
      have hvalid2 := (l2FindWay_found hfind2).2
      refine (upgradeShared_traces (p := p.level1) hopen.sets).bind fun s₁ h₁ => ?_
      obtain ⟨htraces₁, hl1₁, hl2₁⟩ := h₁
      refine ((snoopInvalidatePeersI_traces (p := p.level1) _).both
        (snoopInvalidatePeersI_keeps _)).bind fun s₂ h₂ => ?_
      obtain ⟨htraces₂, hl1₂, hl2₂⟩ := h₂
      have hsnoops := htraces₁.then htraces₂
      have hstate₂ : (s₂.l2 (l2ToIndex physicalAddress)).state =
          (s.l2 (l2ToIndex physicalAddress)).state := by rw [hl2₂, hl2₁]
      have hclaim := Traces.claimForStore (p := p) (s := s₂) (c := c)
        (i := l2ToIndex physicalAddress) (w := w) (by rwa [hstate₂]) (by
          rw [hstate₂]
          exact (hclaims w hfind2).imp_right fun hmay => hmay.traces hsnoops id)
      refine (l1CacheWriteWay_sat _ _ _ _).bind fun set hset => ?_
      obtain ⟨htag, hstate, hdata⟩ := hset
      -- the way is as it was when its old state was read
      have hl1 : ((s₂.setL2 (l2ToIndex physicalAddress) (CacheSimulator.claimForStore
          (s₂.l2 (l2ToIndex physicalAddress)) w c)).modifyPmc c
            fun pmc => { pmc with l1dHits := pmc.l1dHits + 1 }).l1 .data c = s.l1 .data c := by
        rw [(SameCaches.modifyPmc _ _ _).l1, l1_setL2, hl1₂, hl1₁]
      rw [hl1] at htag hstate hdata
      have hquiet := (hsnoops.mono Permit.level1_le).then hclaim
      have hbump := hquiet.trans (.modifyPmc p _ c .l1d)
      have hrecord := fun t : Sim => SameGrid.record t (.store physicalAddress data)
      refine .bump_event rfl (by decide) ((hbump.same (hrecord _)).trans
        (Traces.storeL1 physicalAddress ?_ hvalid ?_ ?_ ?_ ?_))
      · rw [l1_record]
        exact congrFun (congrArg L1Set.state (congrFun hl1 _)) v
      · intro u hu
        rw [l1_record]
        rw [htag, hstate, hdata, Function.update_of_ne hu, Function.update_of_ne hu]
        exact ⟨congrFun (congrArg L1Set.tag (congrFun hl1 _).symm) u,
          congrFun (congrArg L1Set.state (congrFun hl1 _).symm) u,
          congrFun (congrArg L1Set.data (congrFun hl1 _).symm) u⟩
      · rw [htag, l1_record]
        exact congrFun (congrArg L1Set.tag (congrFun hl1 _).symm) v
      · rw [hstate, Function.update_self]
      · refine hstores.imp (fun hsame => ?_) fun hmay => ?_
        · rw [hdata, Function.update_self, hsame, l1_record]
          exact congrFun (congrArg L1Set.data (congrFun hl1 _).symm) v
        · have hclaimed := hmay.traces hquiet
          exact fun hc => hclaimed hc

theorem copyIn_sat (line : Line) (offset : ℕ) (data : List Byte) :
    (line.copyIn offset data).Sat (fun _ => True) fun _ => True := by
  cases line.copyIn offset data with
  | ok line' => trivial
  | error e => trivial

section Snooped

variable {a : LineNo} {x : LineRep}

theorem Rewrites.dirtyInclusion (hs : s.Inv) (h : Rewrites s a x t)
    (hx : ∀ d, x.l1 .data d = none) : t.DirtyInclusion := by
  intro b d u hu
  by_cases hb : b = a
  · subst hb
    rw [h.rep_self, hx] at hu
    cases hu
  · rw [h.rep, Function.update_of_ne hb] at hu ⊢
    exact hs.dirtyInclusion b d u hu

/-- The promotion after the snoop of a store is foretold by the state before it. -/
theorem Rewrites.promotesL1At {i : Fin 64} {l : L2Loc} (hs : s.Inv) (h : Rewrites s a x t)
    (hx : x.l1 .data c = none) (hl1 : t.l1 .data c = s.l1 .data c)
    (hway : t.grid.l2 l = s.grid.l2 l) (hpromotes : t.PromotesL1At .data c i l) :
    s.PromotesL1At .data c i l := by
  refine hpromotes.transfer hs.placed h.placed (by rw [hl1]) (fun b hb => ?_) hway
  have hba : b ≠ a := by
    rintro rfl
    rw [h.rep_self] at hb
    exact hb hx
  rw [h.rep, Function.update_of_ne hba]

end Snooped

/-- The acts of the first half of a write that hits L2: the other copies are
invalidated, and the L1D set has a free way. -/
theorem snoopForStore_traces {w : Fin 16} {e : L2Entry} {line : Line} (hs : s.Inv)
    (hopen : p.Open) (hc : (s.rep (lineNo physicalAddress)).l1 .data c = none)
    (hw : (s.l2 (l2Geometry.index (lineNo physicalAddress))).slots w =
      some (l2Geometry.tag (lineNo physicalAddress), e))
    (hpromotes : ∀ l, s.PromotesL1At .data c (l1Geometry.index (lineNo physicalAddress)) l →
      MayHide p s l) :
    (snoopInvalidatePeers s (e.validD &&& ~~~coreBit c)
        (l1Geometry.index (lineNo physicalAddress)) (l1Geometry.tag (lineNo physicalAddress))
        (some line) (l2Geometry.index (lineNo physicalAddress)) w).Sat
      (fun r => (evictL1 .data r.1 (l1Geometry.index (lineNo physicalAddress)) c).Sat
        (fun r => s.Traces p.level1 [] r.1 ∧
          (r.1.l1 .data c (l1Geometry.index (lineNo physicalAddress))).state r.2 = .invalid ∧
            (r.1.l2 (l2Geometry.index (lineNo physicalAddress))).state w =
              (s.l2 (l2Geometry.index (lineNo physicalAddress))).state w) fun _ => True)
      fun _ => True := by
  let q := p.only fun _ => False
  refine (((snoopInvalidatePeers_traces (p := q) (fun b _ => hopen.sets b _) (some line)).both
    (snoopInvalidatePeers_keeps (fun b hb => ne_of_getLsbD_others hb) (some line))).both
      (snoopForStore_spec hs hc hw line)).imp fun r hr => ?_
  obtain ⟨s₁, lineOut⟩ := r
  obtain ⟨⟨htraces, hl1, hl2⟩, -, y, e₁, hcleared, hrw⟩ := hr
  dsimp only at htraces hl1 hl2 hrw ⊢
  have hevict : ∀ l, s₁.PromotesL1At .data c (l1Geometry.index (lineNo physicalAddress)) l →
      MayHide p.level1 s₁ l := by
    intro l hl hcallback
    have hacts := htraces.acts (htraces.callback.symm.trans hcallback)
    have hway := hacts.l2_frame (l := l) id fun _ => id
    have hbefore := hrw.promotesL1At hs (hcleared.l1 c) hl1 hway hl
    exact (hpromotes l hbefore).traces htraces id hcallback
  refine ((evictL1_data_traces (p := p.level1) hrw.placed (hrw.dirtyInclusion hs hcleared.l1)
    (hopen.sets _ _) hevict).both
      (evictL1_spec hrw.placed (hrw.lineOk hs (hcleared.l1 c)))).imp fun r hr => ?_
  obtain ⟨⟨htraces₂, hv⟩, -, hfrees⟩ := hr
  refine ⟨(htraces.mono ?_).then htraces₂, hv, ?_⟩
  · exact ⟨id, fun _ _ => id, fun _ => id, fun _ _ => False.elim, fun _ => id⟩
  · -- the way of L2 is in the state in which the search found it
    have hw₁ := hrw.slot hw hcleared.l2
    have hw₂ := hfrees.tags.slots (hfrees.placed hrw.placed) hw₁ (by
      rw [hfrees.rep_eq (by rw [hrw.rep_self, hcleared.l1]), hrw.rep_self, hcleared.l2])
    rw [(l2ClearCoreValidWay_masks hw₂ hw₁ .data c).2.2, hl2]

theorem writeL2Hit_traces {w : Fin 16} (data : List Byte) (hs : s.Inv) (hopen : p.Open)
    (hmiss : findL1Way (s.l1 .data c (l1ToIndex physicalAddress)) (l1ToTag physicalAddress) = none)
    (hfind : l2FindWay (s.l2 (l2ToIndex physicalAddress)) (l2ToTag physicalAddress) = some w)
    (hpromotes : ∀ l, s.PromotesL1At .data c (l1ToIndex physicalAddress) l →
      MayHide p (s.reportL2Hit c physicalAddress w) l)
    (hclaims : .modified = (s.l2 (l2ToIndex physicalAddress)).state w ∨
      MayHide p (s.reportL2Hit c physicalAddress w) (l2ToIndex physicalAddress, w)) :
    (writeL2Hit s c physicalAddress w data).Sat (s.CountsHit p c)
      fun _ => True := by
  have hvalid := (l2FindWay_found hfind).2
  have hhit := Traces.hitL2 (p := p) (c := c) hvalid
  have hsame := SameCaches.reportL2Hit s c physicalAddress w
  have hs₀ := hs.congr hsame
  unfold writeL2Hit
  dsimp only
  rw [show s.emit .l2Hit c 2 (l2ToIndex physicalAddress) w physicalAddress _ _ none =
    s.reportL2Hit c physicalAddress w from rfl]
  rw [← hsame.l1] at hmiss
  rw [← hsame.l2] at hfind hvalid hclaims
  have hevict := fun l hl => hpromotes l ((PromotesL1At.congr hsame).mp hl)
  generalize s.reportL2Hit c physicalAddress w = s₀ at *
  obtain ⟨e, hw⟩ := l2FindWay_eq_some hfind
  simp only [← l1Geometry_index_lineNo physicalAddress, ← l1Geometry_tag_lineNo physicalAddress,
    ← l2Geometry_index_lineNo physicalAddress, ← l2Geometry_tag_lineNo physicalAddress]
    at hw hmiss hvalid hclaims hevict ⊢
  rw [L2Set.coreValidD_of_slots hw]
  refine (snoopForStore_traces hs₀ hopen (l1_eq_none_of_find hmiss) hw hevict).bind fun r hr => ?_
  obtain ⟨s₁, lineOut⟩ := r
  dsimp only at hr ⊢
  refine (copyIn_sat _ _ _).bind fun line _ => ?_
  refine hr.bind fun r hr => ?_
  obtain ⟨s₂, v⟩ := r
  obtain ⟨htraces, hv, hstate⟩ := hr
  dsimp only at htraces hv hstate ⊢
  have hrecord : (s₂.setL1 .data c (l1Geometry.index (lineNo physicalAddress))
      (l1CacheFill (s₂.l1 .data c (l1Geometry.index (lineNo physicalAddress)))
        (l1Geometry.tag (lineNo physicalAddress)) v line .modified)).record
          (.store physicalAddress data) =
      (s₂.record (.store physicalAddress data)).setL1 .data c
        (l1Geometry.index (lineNo physicalAddress))
        (l1CacheFill ((s₂.record (.store physicalAddress data)).l1 .data c
          (l1Geometry.index (lineNo physicalAddress)))
          (l1Geometry.tag (lineNo physicalAddress)) v line .modified) := rfl
  rw [hrecord]
  have hfill := Traces.fillL1 (p := p.level1) (s := s₂.record (.store physicalAddress data))
    (l1Geometry.tag (lineNo physicalAddress)) physicalAddress line .modified hopen.fills
    (hopen.sets c _) hv (by simp) (by rw [l1ToAddr_geometry, lineAddr_lineNo])
  refine ((snoopInvalidatePeersI_traces (p := p.level1) _).both
    (snoopInvalidatePeersI_keeps _)).bind fun s₃ h₃ => ?_
  obtain ⟨htraces₃, -, hl2₃⟩ := h₃
  rw [l2_emit, l2_setL1, l2_record] at hl2₃
  have hchain := ((htraces.same (.record s₂ _)).then hfill).then htraces₃
  have hclaim : s₃.Traces p [] (s₃.setL2 (l2Geometry.index (lineNo physicalAddress))
      ((claimForStore (s₃.l2 (l2Geometry.index (lineNo physicalAddress))) w c).touch w)) := by
    refine Traces.silentL2 (w := w) .modified rfl rfl ?_ (by simp) ?_
    · rwa [hl2₃, hstate]
    · rw [hl2₃, hstate]
      exact hclaims.imp_right fun hmay => hmay.traces hchain id
  exact .event_bump rfl (by decide)
    (((hhit.then (hchain.mono Permit.level1_le)).then hclaim).trans (.modifyPmc p _ c .l2))

theorem writeMiss_traces (data : List Byte) (hs : s.Inv) (hopen : p.Open)
    (hmiss : l2FindWay (s.l2 (l2ToIndex physicalAddress)) (l2ToTag physicalAddress) = none)
    (hpromotes : ∀ r, evictL2 s (l2ToIndex physicalAddress) = .ok r →
      ∀ l, r.1.PromotesL1At .data c (l1ToIndex physicalAddress) l → MayHide p r.1 l) :
    (writeMiss s c physicalAddress data).Sat (s.CountsHit p c)
      fun _ => True := by
  unfold writeMiss
  dsimp only
  simp only [← l1Geometry_index_lineNo physicalAddress, ← l1Geometry_tag_lineNo physicalAddress,
    ← l2Geometry_index_lineNo physicalAddress, ← l2Geometry_tag_lineNo physicalAddress,
    lineBase_eq] at hmiss hpromotes ⊢
  have ha := l2_eq_none_of_find hmiss
  split
  · trivial
  by_cases hin : 64 * (lineNo physicalAddress : ℕ) + 64 ≤ s.mem.size.toNat
  swap
  · rw [readLine_error hin]
    trivial
  rw [readLine_lineAddr hin]
  change Except.Sat (Line.copyIn _ _ _ >>= _) _ _
  unfold Line.copyIn
  split
  swap
  · trivial
  rename_i hfits
  change Except.Sat (evictL2 _ _ >>= _) _ _
  refine (((evictL2_traces hs fun c => hopen.sets c _).both (evictL2_spec hs)).both
    (Except.sat_returned _)).bind fun r hr => ?_
  obtain ⟨s₁, w⟩ := r
  obtain ⟨⟨hevicts, hw, hfrees₁⟩, hr⟩ := hr
  have htraces₁ := hevicts.traces hopen.ways
  have hinv₁ := (hfrees₁.background hs).inv
  dsimp only at hw htraces₁ ⊢
  refine (evictL1_room hinv₁ (hopen.sets _ _) (hpromotes _ hr)).bind fun r hr => ?_
  obtain ⟨s₂, v⟩ := r
  obtain ⟨htraces₂, hv, hfrees₂⟩ := hr
  obtain ⟨hbg, hrep, hw₂⟩ := room_of_frees hs ha hfrees₁ hw hfrees₂
  dsimp only at hv htraces₂ ⊢
  rw [← hbg.size] at hin
  rw [← hrep]
  have hrecords : Records s₂.history (lineNo physicalAddress)
      (s₂.rep (lineNo physicalAddress)).mem
      (.loadStore c (l1ToOffset physicalAddress, data)) _ :=
    .loadStore _ physicalAddress data rfl hfits trivial rfl
  obtain ⟨l2Set, hl2Set, hset⟩ := L2Set.fill_spec (hbg.inv.placed.free _) hw₂ c
    (l2Geometry.tag (lineNo physicalAddress))
    (Line.overlay (s₂.rep (lineNo physicalAddress)).mem (l1ToOffset physicalAddress) data)
    (MESIState.mode?_eq_modified.mpr rfl) .data
  have hfilled := (l2CacheFill_sat ..).of_eq_ok hl2Set
  rw [hl2Set]
  change Except.Sat (pfStreamOnMiss _ _ _ >>= _) _ _
  have hfill := Traces.fillBoth (p := p) (c := c)
    (s := (s₂.record (.fill (lineAddr (lineNo physicalAddress))
      (s₂.rep (lineNo physicalAddress)).mem)).record (.store physicalAddress data))
    (Line.overlay (s₂.rep (lineNo physicalAddress)).mem (l1ToOffset physicalAddress) data)
    hopen hw₂ hv (by simp) hfilled rfl
  refine (pfStream_traces_after_move (α := .loadStore c (l1ToOffset physicalAddress, data)) hbg.inv
    (lineMove_fill (k := .data) hbg.inv hin hw₂ hv (by rw [hrep, ha]) hset
      (MESIState.mode?_eq_modified.mpr rfl) (by simp)
      ((SameCaches.emit _ _ _ _ _ _ _ _ _ _).trans (.emit _ _ _ _ _ _ _ _ _ _))
      (by
        rw [sole_data_view]
        exact .loadStore c _ (by rw [LineRep.view_l2, hrep, ha]; rfl))
      (by simpa using hrecords)) hin hopen).bind fun s₅ hs₅ => ?_
  exact .event_bump rfl (by decide)
    ((((((htraces₁.then htraces₂).same (.record s₂ _)).same (.record _ _)).trans hfill).then
      hs₅).trans (.modifyPmc p s₅ c .mem))

end Sim

end CacheSimulator
