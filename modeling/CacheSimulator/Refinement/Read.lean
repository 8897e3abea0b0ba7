import CacheSimulator.Refinement.Access

/-!
# Reads and fetches

The paths of `cpu_read` and `cpu_fetch`. A hit in L1 moves nothing, a hit in L2
moves the line to where another core may share it, and a miss brings the line in
from memory.
-/

namespace CacheSimulator

open Mesi

theorem l1CacheReadWay_spec (set : L1Set) (w : Fin 8) (offset size : ℕ) :
    (l1CacheReadWay set w offset size).Sat
      (fun r => offset + size ≤ 64 ∧ r.1 = (set.data w).slice offset size ∧ r.2.slots = set.slots)
      fun _ => ¬offset + size ≤ 64 := by
  unfold l1CacheReadWay
  split
  · rename_i h
    exact ⟨h, rfl, rfl⟩
  · rename_i h
    exact h

theorem copyOut_spec (line : Line) (offset size : ℕ) :
    (line.copyOut offset size).Sat
      (fun data => offset + size ≤ 64 ∧ data = line.slice offset size)
      fun _ => ¬offset + size ≤ 64 := by
  unfold Line.copyOut
  split
  · rename_i h
    exact ⟨h, rfl⟩
  · rename_i h
    exact h

namespace Sim

variable {s s' s₁ s₂ : Sim} {a : LineNo} {c : CoreId} {k : L1Kind} {physicalAddress : Addr}
  {size : ℕ}

/-! ## Hits in L1 -/

/-- A read of an L1 way changes replacement bits alone. -/
theorem Background.readWay {w : Fin 8} {x : Mode × Line} {set : L1Set} (hs : s.Inv)
    (hsame : SameCaches s s₁)
    (hw : (s.l1 k c (l1Geometry.index a)).slots w = some (l1Geometry.tag a, x))
    (hset : set.slots = (s.l1 k c (l1Geometry.index a)).slots) :
    Background s (s₁.setL1 k c (l1Geometry.index a) set) ∧
      (s₁.setL1 k c (l1Geometry.index a) set).rep = s.rep := by
  have hs₁ := hs.congr hsame
  rw [← hsame.l1] at hw hset
  have hslots : set.slots = Function.update (s₁.l1 k c (l1Geometry.index a)).slots w
      ((some x).map fun v => (l1Geometry.tag a, v)) := by
    rw [hset, Option.map_some, ← hw, Function.update_eq_self]
  have hwrites := Rewrites.setL1 hs₁.placed hw hslots
  have hx := hs₁.placed.l1_of_slots hw
  rw [LineRep.setL1_eq_self hx] at hwrites
  have hrep : (s₁.setL1 k c (l1Geometry.index a) set).rep = s.rep := by
    rw [hwrites.rep, Function.update_eq_self, hsame.rep]
  refine ⟨⟨[], by simp, .of_rep hs hwrites.placed hrep ?_ ?_ ?_⟩, hrep⟩
  · rw [hwrites.mem, hsame.mem]
  · rw [hwrites.history, hsame.history]
  · exact hs₁.streams.of_eq hwrites.streams (by rw [hwrites.mem])

theorem Inv.value_of_l1 (hs : s.Inv) {m : Mode} {u : Line} (hx : (s.rep a).l1 k c = some (m, u)) :
    (s.rep a).view.Value u := by
  refine .inl ?_
  cases k with
  | data => exact LineState.authoritative_of_d (hs.coherent a).toSound hx
  | instr =>
      refine LineState.authoritative_of_i (hs.coherent a).toSound (c := c) ?_
      rw [LineRep.view_i, hx]
      rfl

theorem readL1Hit_spec (hs : s.Inv) {w : Fin 8}
    (hfind : findL1Way (s.l1 .data c (l1ToIndex physicalAddress)) (l1ToTag physicalAddress) =
      some w)
    (forgets : Prop) :
    (readL1Hit s c physicalAddress w size).Sat (s.Reads physicalAddress size forgets)
      (s.AccessFault physicalAddress size) := by
  obtain ⟨m, hw⟩ := findL1Way_eq_some hfind
  unfold readL1Hit
  dsimp only
  refine ((l1CacheReadWay_spec _ _ _ _).mono (fun r hr => hr) fun f hf =>
    accessFault_of_crossing hf).bind fun r hr => ?_
  obtain ⟨hfits, hdata, hslots⟩ := hr
  simp only [← l1Geometry_index_lineNo physicalAddress, ← l1Geometry_tag_lineNo physicalAddress]
    at hw hslots hdata ⊢
  obtain ⟨hbg, hrep⟩ := Background.readWay hs
    ((SameCaches.emit s .l1dHit c 1 _ w _ _ _ _).trans (.modifyPmc _ c _)) hw hslots
  refine ⟨hbg.performs forgets, fun _ => ⟨_, ?_, by rw [hdata]⟩, fun h => absurd hfits h⟩
  rw [hrep]
  exact hs.value_of_l1 (hs.placed.l1_of_slots hw)

theorem fetchL1Hit_spec (hs : s.Inv) {w : Fin 8}
    (hfind : findL1Way (s.l1 .instr c (l1ToIndex physicalAddress)) (l1ToTag physicalAddress) =
      some w) :
    (fetchL1Hit s c physicalAddress w size).Sat (s.Reads physicalAddress size False)
      (s.AccessFault physicalAddress size) := by
  obtain ⟨m, hw⟩ := findL1Way_eq_some hfind
  unfold fetchL1Hit
  dsimp only
  refine ((l1CacheReadWay_spec _ _ _ _).mono (fun r hr => hr) fun f hf =>
    accessFault_of_crossing hf).bind fun r hr => ?_
  obtain ⟨hfits, hdata, hslots⟩ := hr
  have hsame := SameCaches.modifyPmc s c fun pmc => { pmc with l1iHits := pmc.l1iHits + 1 }
  simp only [← l1Geometry_index_lineNo physicalAddress, ← l1Geometry_tag_lineNo physicalAddress]
    at hw hslots hdata ⊢
  rw [hsame.l1] at hdata hslots
  obtain ⟨hbg, hrep⟩ := Background.readWay hs hsame hw hslots
  refine ⟨hbg.performs False, fun _ => ⟨_, ?_, by rw [hdata]⟩, fun h => absurd hfits h⟩
  rw [hrep]
  exact hs.value_of_l1 (hs.placed.l1_of_slots hw)

end Sim

/-! ## Hits in L2 -/

namespace LineRep

variable {x : LineRep} {e : L2Entry} {c : CoreId} {k : L1Kind}

theorem not_holds_of_hasPeer (h : x.hasPeer c = false) (b : CoreId) (hb : b ≠ c) :
    ¬x.view.Holds b := by
  rw [CoreId.ne_iff_eq_peer.mp hb, ← hasPeer_iff, h]
  simp

theorem Exact.add (hx : x.Exact) (he : x.l2 = some e) (y : Mode × Line) :
    ((x.setL2 (some (L2Set.addEntry e k c))).setL1 k c (some y)).Exact := by
  obtain ⟨hd, hi⟩ := hx e he
  refine (exact_some rfl).mpr ?_
  rw [holders_setL1, holders_setL1, holders_setL2]
  cases k with
  | data => simp [L2Set.addEntry, hd, hi, maskOf_or_coreBit]
  | instr => simp [L2Set.addEntry, hd, hi, maskOf_or_coreBit]

/-- A downgrade leaves every holder its copy. -/
theorem sharedRep_holders : (Sim.sharedRep x e k c).holders = x.holders := by
  have hpeer : ((x.l1 .data (CoreId.peer c)).map fun z => (Mode.shared, z.2)).isSome =
      x.holders .data (CoreId.peer c) := by
    rw [Option.isSome_map]
    rfl
  funext k'
  unfold Sim.sharedRep
  rw [holders_setL1, holders_setL2, hpeer]
  split
  · rename_i hk
    rw [hk, Function.update_eq_self]
  · rfl

theorem Exact.share (hx : x.Exact) (he : x.l2 = some e) (y : Mode × Line) :
    ((Sim.sharedRep x e k c).setL1 k c (some y)).Exact := by
  have hadd := hx.add (k := k) (c := c) he y
  rw [exact_some rfl, holders_setL1, holders_setL1, holders_setL2] at hadd
  refine (exact_some rfl).mpr ?_
  rw [holders_setL1, holders_setL1, sharedRep_holders]
  exact hadd

theorem sharedRep_view {v : Line} (hv : x.peerData (CoreId.peer c) e.data = v) :
    (Sim.sharedRep x e k c).view =
      ⟨downgradeOthers x.view.d c, x.view.i, some (.shared, v), x.mem⟩ := by
  refine LineState.ext ?_ ?_ ?_ rfl
  · funext b
    rw [view_d]
    unfold Sim.sharedRep downgradeOthers
    rw [setL1_l1]
    by_cases hb : b = c
    · subst hb
      simp [view_d]
    · rw [CoreId.ne_iff_eq_peer.mp hb]
      simp [view_d]
  · funext b
    rw [view_i]
    unfold Sim.sharedRep
    rw [setL1_l1, if_neg (by simp), setL2_l1]
    rfl
  · rw [← hv]
    rfl

theorem step_readAlone (he : x.l2 = some e) (hc : x.l1 .data c = none)
    (hpeer : x.hasPeer c = false) :
    Mesi.Step Store.act x.view (.readAlone c)
      ((x.setL2 (some (L2Set.addEntry e .data c))).setL1 .data c
        (some (.exclusive, e.data))).view := by
  have hl2 : x.view.l2 = some (e.mode, e.data) := by rw [view_l2, he]; rfl
  rw [view_setL1_data, view_setL2]
  have hstep : Mesi.Step Store.act x.view (.readAlone c) _ :=
    .readAlone c e.mode e.data hc hl2 (not_holds_of_hasPeer hpeer)
  simpa [L2Set.addEntry, L2Entry.copy, ← hl2] using hstep

theorem step_fetchAlone (he : x.l2 = some e) (hm : e.mode ≠ .modified)
    (hc : x.l1 .instr c = none) (hpeer : x.hasPeer c = false) :
    Mesi.Step Store.act x.view (.fetchAlone c)
      ((x.setL2 (some (L2Set.addEntry e .instr c))).setL1 .instr c
        (some (.shared, e.data))).view := by
  have hl2 : x.view.l2 = some (e.mode, e.data) := by rw [view_l2, he]; rfl
  have hi : x.view.i c = none := by rw [view_i, hc]; rfl
  rw [view_setL1_instr, view_setL2]
  have hstep : Mesi.Step Store.act x.view (.fetchAlone c) _ :=
    .fetchAlone c e.mode e.data hi hl2 hm (not_holds_of_hasPeer hpeer)
  simpa [L2Set.addEntry, L2Entry.copy, ← hl2] using hstep

theorem step_fetchShare (he : x.l2 = some e) (hm : e.mode ≠ .modified) {v : Line}
    (hv : x.peerData (CoreId.peer c) e.data = v) (hev : v = e.data)
    (hc : x.l1 .instr c = none) (hpeer : x.hasPeer c = true) :
    Mesi.Step Store.act x.view (.fetchShare c)
      ((Sim.sharedRep x e .instr c).setL1 .instr c (some (.shared, v))).view := by
  have hl2 : x.view.l2 = some (e.mode, v) := by rw [view_l2, he, hev]; rfl
  have hi : x.view.i c = none := by rw [view_i, hc]; rfl
  rw [view_setL1_instr, sharedRep_view hv]
  exact .fetchShare c (CoreId.peer c) e.mode v hi hl2 hm (CoreId.peer_ne c) (hasPeer_iff.mp hpeer)

/-- A read of a line that another core holds forgets that the line is dirty, if
it is. -/
theorem step_share (he : x.l2 = some e) {v : Line}
    (hv : x.peerData (CoreId.peer c) e.data = v) (hc : x.l1 .data c = none)
    (hpeer : x.hasPeer c = true) :
    ∃ α : Action CoreId Store, α.stored = none ∧ ¬α.Enters ∧ (α.Forgets → x.view.Dirty) ∧
      Mesi.Step Store.act x.view α
        ((Sim.sharedRep x e .data c).setL1 .data c (some (.shared, v))).view := by
  have hvalue : x.view.Authoritative v := by
    rw [← hv]
    exact authoritative_peerData he (by simp [hc])
  rw [view_setL1_data, sharedRep_view hv]
  by_cases hd : x.view.Dirty
  · exact ⟨.readDirty c, rfl, id, fun _ => hd, .readDirty c (CoreId.peer c) v hc hvalue
      (CoreId.peer_ne c) (hasPeer_iff.mp hpeer) hd⟩
  · exact ⟨.readShare c, rfl, id, fun h => h.elim, .readShare c (CoreId.peer c) v hc hvalue
      (CoreId.peer_ne c) (hasPeer_iff.mp hpeer) hd⟩

end LineRep

namespace Sim

variable {s s' s₁ s₂ s₃ : Sim} {a : LineNo} {c : CoreId} {k : L1Kind} {physicalAddress : Addr}
  {size : ℕ} {w : Fin 16}

/-- The fill of a free L1 way with a line whose copies have been rewritten. -/
theorem Rewrites.lineMove_fill {x : LineRep} {v : Fin 8} {st : MESIState} {m : Mode} {line : Line}
    {α : Action CoreId Store} (h : Rewrites s a x s₁)
    (hin : 64 * (a : ℕ) + 64 ≤ s.mem.size.toNat) (hl1 : s₁.l1 k c = s.l1 k c)
    (hfree : (s.l1 k c (l1Geometry.index a)).state v = .invalid) (hx : x.l1 k c = none)
    (hst : st.mode? = some m) (h₂ : SameCaches s₁ s₂)
    (h₃ : SameCaches (s₂.setL1 k c (l1Geometry.index a)
      (l1CacheFill (s₂.l1 k c (l1Geometry.index a)) (l1Geometry.tag a) v line st)) s₃)
    (hexact : (x.setL1 k c (some (m, line))).Exact)
    (hstep : Mesi.Step Store.act (s.rep a).view α (x.setL1 k c (some (m, line))).view)
    (henters : ¬α.Enters) (hstored : α.stored = none) :
    LineMove s a α s₃ ∧ (s₃.rep a).l1 k c = some (m, line) := by
  have h' := h.congr h₂
  rw [← hl1, ← h₂.l1] at hfree
  obtain ⟨hp, hrep⟩ := h'.placed.fillL1 hfree (by rw [h'.rep_self, hx]) hst line
  rw [h'.rep_self, h'.rep, Function.update_idem, ← h₃.rep] at hrep
  refine ⟨lineMove_of_rep hin (h₃.placed hp) hrep ?_ ?_ hexact hstep ?_,
    by rw [hrep, Function.update_self, LineRep.setL1_l1_self]⟩
  · rw [h₃.mem, mem_setL1, h'.mem]
  · rw [h₃.streams, streams_setL1, h'.streams]
  · rw [h₃.history, history_setL1, h'.history]
    exact .quiet _ henters hstored

theorem sharedRep_l1 {x : LineRep} {e : L2Entry} (k' : L1Kind) (h : x.l1 k' c = none) :
    (sharedRep x e k c).l1 k' c = none := by
  unfold sharedRep
  rw [LineRep.setL1_l1, if_neg fun hc => CoreId.ne_peer c hc.2, LineRep.setL2_l1, h]

def fillState (k : L1Kind) (otherSharers : Bool) : MESIState :=
  match k with
  | .data => if otherSharers then .shared else .exclusive
  | .instr => .shared

/-- The part of an L2 hit after the eviction: the line moves once, and the core
has a copy. -/
theorem busFill_spec {e : L2Entry} {v : Fin 8} {r : Sim × Line × Bool} (hs : s.Inv)
    (hw : (s.l2 (l2Geometry.index (lineNo physicalAddress))).slots w =
      some (l2Geometry.tag (lineNo physicalAddress), e))
    (hc : (s.rep (lineNo physicalAddress)).l1 k c = none)
    (hclean : k = .instr → e.mode ≠ .modified)
    (hv : (s.l1 k c (l1Geometry.index (lineNo physicalAddress))).state v = .invalid)
    (hr : busRead k s c physicalAddress w = .ok r) (h₂ : SameCaches r.1 s₂)
    (h₃ : SameCaches (s₂.setL1 k c (l1Geometry.index (lineNo physicalAddress))
      (l1CacheFill (s₂.l1 k c (l1Geometry.index (lineNo physicalAddress)))
        (l1Geometry.tag (lineNo physicalAddress)) v r.2.1 (fillState k r.2.2))) s₃) :
    ∃ (α : Action CoreId Store) (m : Mode), α.stored = none ∧
      (α.Forgets → (s.rep (lineNo physicalAddress)).view.Dirty ∧
        (s.rep (lineNo physicalAddress)).hasPeer c = true) ∧
      LineMove s (lineNo physicalAddress) α s₃ ∧
      (s₃.rep (lineNo physicalAddress)).l1 k c = some (m, r.2.1) := by
  have he := hs.placed.l2_of_slots hw
  have hin := hs.inRange _ (by rw [he]; simp)
  have hexact := hs.exact (lineNo physicalAddress)
  obtain ⟨s₁, line, other⟩ := r
  obtain ⟨hl1, hother, hcase⟩ := (busRead_spec hs.placed hexact hw).of_eq_ok hr
  dsimp only at hl1 hother hcase h₂ h₃ ⊢
  subst hother
  cases hpeer : (s.rep (lineNo physicalAddress)).hasPeer c with
  | false =>
      rw [hpeer, if_neg (by simp)] at hcase
      rw [hpeer] at h₃
      obtain ⟨rfl, hrewrites⟩ := hcase
      cases k with
      | data =>
          obtain ⟨hmove, hcopy⟩ := hrewrites.lineMove_fill hin hl1 hv hc
            (MESIState.mode?_eq_exclusive.mpr rfl) h₂ h₃ (hexact.add he _)
            (LineRep.step_readAlone he hc hpeer) id rfl
          exact ⟨.readAlone c, _, rfl, fun h => h.elim, hmove, hcopy⟩
      | instr =>
          obtain ⟨hmove, hcopy⟩ := hrewrites.lineMove_fill hin hl1 hv hc
            (MESIState.mode?_eq_shared.mpr rfl) h₂ h₃ (hexact.add he _)
            (LineRep.step_fetchAlone he (hclean rfl) hc hpeer) id rfl
          exact ⟨.fetchAlone c, _, rfl, fun h => h.elim, hmove, hcopy⟩
  | true =>
      rw [hpeer, if_pos rfl] at hcase
      rw [hpeer] at h₃
      obtain ⟨hline, hrewrites⟩ := hcase
      cases k with
      | data =>
          obtain ⟨α, hstored, henters, hforgets, hstep⟩ :=
            LineRep.step_share he hline.symm hc hpeer
          obtain ⟨hmove, hcopy⟩ := hrewrites.lineMove_fill hin hl1 hv (sharedRep_l1 _ hc)
            (MESIState.mode?_eq_shared.mpr rfl) h₂ h₃ (hexact.share he _) hstep henters hstored
          exact ⟨α, _, hstored, fun h => ⟨hforgets h, rfl⟩, hmove, hcopy⟩
      | instr =>
          -- L2 is not modified, so no core is
          have hl2 : (s.rep (lineNo physicalAddress)).view.l2 = some (e.mode, e.data) := by
            rw [LineRep.view_l2, he]
            rfl
          have hne : ∀ u, (s.rep (lineNo physicalAddress)).l1 .data (CoreId.peer c) ≠
              some (.modified, u) := by
            intro u hu
            obtain ⟨u', hu'⟩ := (hs.coherent _).modified _ u hu
            rw [hl2, Option.some.injEq] at hu'
            exact hclean rfl (Prod.mk.inj hu').1
          have hvalue := LineRep.peerData_of_ne e.data hne
          obtain ⟨hmove, hcopy⟩ := hrewrites.lineMove_fill hin hl1 hv (sharedRep_l1 _ hc)
            (MESIState.mode?_eq_shared.mpr rfl) h₂ h₃ (hexact.share he _)
            (LineRep.step_fetchShare he (hclean rfl) hline.symm (hline.trans hvalue) hc hpeer)
            id rfl
          exact ⟨.fetchShare c, _, rfl, fun h => h.elim, hmove, hcopy⟩

/-- A hit in L2 that has filled L1 reads the value of the line. -/
theorem reads_of_move {α : Action CoreId Store} {m : Mode} {line : Line} {forgets : Prop}
    {data : List Byte} (hbg : Background s s₁) (hstored : α.stored = none)
    (hforgets : α.Forgets → forgets) (hm : LineMove s₁ (lineNo physicalAddress) α s₂)
    (hcopy : (s₂.rep (lineNo physicalAddress)).l1 k c = some (m, line))
    (hdata : l1ToOffset physicalAddress + size ≤ 64 ∧
      data = line.slice (l1ToOffset physicalAddress) size) :
    s.Reads physicalAddress size forgets (s₂, some data) := by
  have hinv := (hm.evolves hbg.inv).inv
  have hperforms := Performs.of_move hbg hm (.refl hinv)
  rw [hstored] at hperforms
  refine ⟨hperforms.mono hforgets, fun _ => ?_, fun h => absurd hdata.1 h⟩
  exact ⟨line, hinv.value_of_l1 hcopy, by rw [hdata.2]⟩

/-- `evict_l1` has made room for line `a`, after an event at most. -/
def MakesL1Room (k : L1Kind) (c : CoreId) (a : LineNo) (s s₁ : Sim) : Prop :=
  ∃ t v, SameCaches s t ∧ evictL1 k t (l1Geometry.index a) c = .ok (s₁, v)

theorem MakesL1Room.background (h : MakesL1Room k c a s s₁) (hs : s.Inv) : Background s s₁ := by
  obtain ⟨t, v, hsame, hevict⟩ := h
  have ht := hs.congr hsame
  obtain ⟨-, hfrees⟩ := (evictL1_spec ht.placed fun b _ => ht.lineOk b).of_eq_ok hevict
  exact (Background.of_sameCaches hs hsame).trans (hfrees.background ht)

/-- What a read or a fetch that hits in L2 does: it makes room, moves the line once,
and reads the copy the core then has. -/
structure ReadsL2 (k : L1Kind) (c : CoreId) (physicalAddress : Addr) (size : ℕ) (s : Sim)
    (α : Action CoreId Store) (r : Sim × Option (List Byte)) : Prop where
  fits : l1ToOffset physicalAddress + size ≤ 64
  stored : α.stored = none
  forgets : α.Forgets → (s.rep (lineNo physicalAddress)).view.Dirty ∧
    (s.rep (lineNo physicalAddress)).hasPeer c = true
  absent : (s.rep (lineNo physicalAddress)).l1 k c = none
  move : ∃ s₁, MakesL1Room k c (lineNo physicalAddress) s s₁ ∧
    s₁.rep (lineNo physicalAddress) = s.rep (lineNo physicalAddress) ∧
      LineMove s₁ (lineNo physicalAddress) α r.1
  copy : ∃ m line, (r.1.rep (lineNo physicalAddress)).l1 k c = some (m, line) ∧
    r.2 = some (line.slice (l1ToOffset physicalAddress) size)

theorem readL2Hit_readsL2 (hs : s.Inv)
    (hmiss : findL1Way (s.l1 .data c (l1ToIndex physicalAddress)) (l1ToTag physicalAddress) = none)
    (hfind : l2FindWay (s.l2 (l2ToIndex physicalAddress)) (l2ToTag physicalAddress) = some w) :
    (readL2Hit s c physicalAddress w size).Sat
      (fun r => ∃ α, ReadsL2 .data c physicalAddress size s α r)
      (s.AccessFault physicalAddress size) := by
  obtain ⟨e, hw⟩ := l2FindWay_eq_some hfind
  unfold readL2Hit
  dsimp only
  simp only [← l1Geometry_index_lineNo physicalAddress, ← l1Geometry_tag_lineNo physicalAddress,
    ← l2Geometry_index_lineNo physicalAddress, ← l2Geometry_tag_lineNo physicalAddress]
    at hw hmiss ⊢
  have hc := l1_eq_none_of_find hmiss
  have he := hs.placed.l2_of_slots hw
  have hsame := SameCaches.emit s .l2Hit c 2 (l2Geometry.index (lineNo physicalAddress)) w
    physicalAddress ((s.l2 (l2Geometry.index (lineNo physicalAddress))).state w)
    ((s.l2 (l2Geometry.index (lineNo physicalAddress))).state w) none
  have hs₀ := hs.congr hsame
  refine (((Except.sat_returned _).and (evictL1_spec hs₀.placed fun b _ => hs₀.lineOk b)).mono
    (fun r hr => hr) fun _ hf => hf.2.elim).bind fun r hr => ?_
  obtain ⟨s₁, v⟩ := r
  obtain ⟨hevict, hv, hfrees⟩ := hr
  have hbg := (Background.of_sameCaches hs hsame).trans (hfrees.background hs₀)
  have hrep₁ : s₁.rep (lineNo physicalAddress) = s.rep (lineNo physicalAddress) := by
    rw [hfrees.rep_eq (by rw [hsame.rep, hc]), hsame.rep]
  rw [← hsame.l2] at hw
  have hw₁ := hfrees.tags.slots hbg.inv.placed hw (hrep₁ ▸ he)
  have hc₁ : (s₁.rep (lineNo physicalAddress)).l1 .data c = none := by rw [hrep₁, hc]
  refine Except.Sat.bind (Q := fun r => busRead .data s₁ c physicalAddress w = .ok r) ?_
    fun r hr => ?_
  · refine Except.sat_iff.mpr ⟨fun r hr => hr, fun f hf => ?_⟩
    exact ((busRead_spec hbg.inv.placed (hbg.inv.exact _) hw₁).of_eq_error hf).elim
  · dsimp only
    obtain ⟨α, m, hstored, hforgets, hmove, hcopy⟩ := busFill_spec (k := .data) hbg.inv hw₁ hc₁
      (fun h => by cases h) hv hr (.modifyPmc r.1 c _) (.emit _ _ _ _ _ _ _ _ _ _)
    rw [hrep₁] at hforgets
    refine ((copyOut_spec _ _ _).mono (fun _ h => h) fun f hf => accessFault_of_crossing hf).bind
      fun data hdata => ?_
    exact ⟨α, hdata.1, hstored, hforgets, hc, ⟨s₁, ⟨_, v, hsame, hevict⟩, hrep₁, hmove⟩, m, _,
      hcopy, by rw [hdata.2]⟩

theorem ReadsL2.reads {α : Action CoreId Store} {r : Sim × Option (List Byte)} {forgets : Prop}
    (hs : s.Inv) (h : ReadsL2 k c physicalAddress size s α r) (hforgets : α.Forgets → forgets) :
    s.Reads physicalAddress size forgets r := by
  obtain ⟨s₁, hroom, -, hmove⟩ := h.move
  obtain ⟨m, line, hcopy, hr⟩ := h.copy
  obtain ⟨s₂, result⟩ := r
  subst hr
  exact reads_of_move (hroom.background hs) h.stored hforgets hmove hcopy ⟨h.fits, rfl⟩

theorem readL2Hit_spec (hs : s.Inv)
    (hmiss : findL1Way (s.l1 .data c (l1ToIndex physicalAddress)) (l1ToTag physicalAddress) = none)
    (hfind : l2FindWay (s.l2 (l2ToIndex physicalAddress)) (l2ToTag physicalAddress) = some w) :
    (readL2Hit s c physicalAddress w size).Sat
      (s.Reads physicalAddress size ((s.rep (lineNo physicalAddress)).view.Dirty ∧
        (s.rep (lineNo physicalAddress)).hasPeer c = true))
      (s.AccessFault physicalAddress size) :=
  (readL2Hit_readsL2 hs hmiss hfind).imp fun _ ⟨_, h⟩ => h.reads hs h.forgets

theorem fetchL2Hit_readsL2 (hs : s.Inv)
    (hmiss : findL1Way (s.l1 .instr c (l1ToIndex physicalAddress)) (l1ToTag physicalAddress) = none)
    (hfind : l2FindWay (s.l2 (l2ToIndex physicalAddress)) (l2ToTag physicalAddress) = some w) :
    (fetchL2Hit s c physicalAddress w size).Sat
      (fun r => ∃ α, ¬α.Forgets ∧ ReadsL2 .instr c physicalAddress size s α r)
      (s.AccessFault physicalAddress size) := by
  obtain ⟨e, hw⟩ := l2FindWay_eq_some hfind
  unfold fetchL2Hit
  dsimp only
  simp only [← l1Geometry_index_lineNo physicalAddress, ← l1Geometry_tag_lineNo physicalAddress,
    ← l2Geometry_index_lineNo physicalAddress, ← l2Geometry_tag_lineNo physicalAddress]
    at hw hmiss ⊢
  split
  · exact fun _ _ _ => rfl
  rename_i hclean
  have hmode : e.mode ≠ .modified := fun hm => by
    have hst := L2Set.state_of_slots hw
    rw [hm] at hst
    exact hclean (MESIState.mode?_eq_modified.mp hst)
  have hc := l1_eq_none_of_find hmiss
  have he := hs.placed.l2_of_slots hw
  refine (((Except.sat_returned _).and (evictL1_spec hs.placed fun b _ => hs.lineOk b)).mono
    (fun r hr => hr) fun _ hf => hf.2.elim).bind fun r hr => ?_
  obtain ⟨s₁, v⟩ := r
  obtain ⟨hevict, hv, hfrees⟩ := hr
  have hbg := hfrees.background hs
  have hrep₁ : s₁.rep (lineNo physicalAddress) = s.rep (lineNo physicalAddress) :=
    hfrees.rep_eq hc
  have hw₁ := hfrees.tags.slots hbg.inv.placed hw (hrep₁ ▸ he)
  have hc₁ : (s₁.rep (lineNo physicalAddress)).l1 .instr c = none := by rw [hrep₁, hc]
  refine Except.Sat.bind (Q := fun r => busRead .instr s₁ c physicalAddress w = .ok r) ?_
    fun r hr => ?_
  · refine Except.sat_iff.mpr ⟨fun r hr => hr, fun f hf => ?_⟩
    exact ((busRead_spec hbg.inv.placed (hbg.inv.exact _) hw₁).of_eq_error hf).elim
  · dsimp only
    obtain ⟨α, m, hstored, hforgets, hmove, hcopy⟩ := busFill_spec (k := .instr) hbg.inv hw₁ hc₁
      (fun _ => hmode) hv hr (.refl r.1)
      (.modifyPmc _ c fun pmc => { pmc with l2Hits := pmc.l2Hits + 1 })
    rw [hrep₁] at hforgets
    refine ((copyOut_spec _ _ _).mono (fun _ h => h) fun f hf => accessFault_of_crossing hf).bind
      fun data hdata => ?_
    refine ⟨α, fun h => ?_, hdata.1, hstored, hforgets, hc,
      ⟨s₁, ⟨s, v, .refl s, hevict⟩, hrep₁, hmove⟩, m, _, hcopy, by rw [hdata.2]⟩
    -- a clean line has nothing to forget
    obtain ⟨u, hu⟩ := (hforgets h).1
    rw [LineRep.view_l2, he, Option.map_some, Option.some.injEq] at hu
    exact hmode (Prod.mk.inj hu).1

theorem fetchL2Hit_spec (hs : s.Inv)
    (hmiss : findL1Way (s.l1 .instr c (l1ToIndex physicalAddress)) (l1ToTag physicalAddress) = none)
    (hfind : l2FindWay (s.l2 (l2ToIndex physicalAddress)) (l2ToTag physicalAddress) = some w) :
    (fetchL2Hit s c physicalAddress w size).Sat (s.Reads physicalAddress size False)
      (s.AccessFault physicalAddress size) :=
  (fetchL2Hit_readsL2 hs hmiss hfind).imp fun _ ⟨_, hforgets, h⟩ =>
    h.reads hs fun hf => absurd hf hforgets

end Sim

end CacheSimulator
