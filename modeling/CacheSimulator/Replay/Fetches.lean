import CacheSimulator.Replay.Mirror
import CacheSimulator.Replay.Calls

/-!
# What a fetch shows of the L1D states

`evict_l1` reports the eviction of an L1I line as one of the L1D line in the same
way, so the replay of a fetch frees that L1D way. The rest of a fetch shows the
L1D states as they are, and evictions from L2 are the only part of it that
changes those of the core's own set.
-/

namespace CacheSimulator

open Mesi

/-! ## Playing the events of a fetch -/

/-- The shadow state shows the L1D states, but for a way that it shows free. -/
def Grid.ShownL1 (stray : Option L1Loc) (g : Grid) (s : ShadowState) : Prop :=
  ∀ l, (s.l1Cell l).state =
    if stray = some l then MESIState.invalid.toByte else (g.l1d l).state.toByte

/-- The events added lead from shadow states that show `g` to ones that show `g'`. -/
def Grid.PlaysL1 (stray stray' : Option L1Loc) (g g' : Grid) : Prop :=
  ∃ added, g'.events = g.events ++ added ∧ ∀ s, g.ShownL1 stray s →
    ∃ s', added.foldlM applyEventForward s = .ok s' ∧ g'.ShownL1 stray' s'

namespace Grid.PlaysL1

variable {stray stray' stray'' : Option L1Loc} {seq : BitVec 32} {p : Permit} {g g' g'' : Grid}

theorem of_eq (hl1d : g'.l1d = g.l1d) (hevents : g'.events = g.events) :
    g.PlaysL1 stray stray g' := by
  refine ⟨[], by rw [hevents, List.append_nil], fun s hs => ⟨s, rfl, fun l => ?_⟩⟩
  rw [hl1d]
  exact hs l

theorem trans (h : g.PlaysL1 stray stray' g') (h' : g'.PlaysL1 stray' stray'' g'') :
    g.PlaysL1 stray stray'' g'' := by
  obtain ⟨added, hadded, hplay⟩ := h
  obtain ⟨added', hadded', hplay'⟩ := h'
  refine ⟨added ++ added', by rw [hadded', hadded, List.append_assoc], fun s hs => ?_⟩
  obtain ⟨s', hs', hshown⟩ := hplay s hs
  obtain ⟨s'', hs'', hshown'⟩ := hplay' s' hshown
  exact ⟨s'', by rw [List.foldlM_append, hs', Except.ok_bind, hs''], hshown'⟩

theorem of_event {e : Event} (hevents : g'.events = g.events ++ [e])
    (h : ∀ s, g.ShownL1 stray s →
      ∃ s', applyEventForward s e = .ok s' ∧ g'.ShownL1 stray' s') : g.PlaysL1 stray stray' g' := by
  refine ⟨[e], hevents, fun s hs => ?_⟩
  obtain ⟨s', hs', hshown⟩ := h s hs
  exact ⟨s', by rw [List.foldlM_cons, hs']; rfl, hshown⟩

theorem of_level1 {l : L1Loc} {cell : L1Cell} {e : Event} (hat : e.AtL1 l)
    (hl : stray ≠ some l) (hstate : ∀ x : ShadowCell, x.state = (g.l1d l).state.toByte →
      (forwardL1Cell x e).state = cell.state.toByte) :
    g.PlaysL1 stray stray ((g.setL1 l cell).emit e) := by
  refine of_event rfl fun s hs => ?_
  obtain ⟨s', hs', hchange⟩ := s.applyEventForward_l1 hat
  refine ⟨s', hs', fun l' => ?_⟩
  rw [hchange.l1]
  simp only [Grid.emit, Grid.setL1, Function.update_apply]
  have hl' := hs l'
  split
  · rename_i heq
    subst heq
    rw [if_neg hl] at hl' ⊢
    exact hstate _ hl'
  · exact hl'

/-- An event for a way that has not changed makes the way stray. -/
theorem of_stray {l : L1Loc}
    {address : Addr} {oldState : MESIState} {data : Line} (hl1d : g'.l1d = g.l1d)
    (hevents : g'.events =
      g.events ++ [level1Event seq .l1dEvict l address oldState .invalid (some data)]) :
    g.PlaysL1 none (some l) g' := by
  refine .of_event hevents fun s hs => ?_
  obtain ⟨s', hs', hchange⟩ := s.applyEventForward_l1 (atL1_level1Event seq .l1dEvict l address
    oldState .invalid (some data))
  refine ⟨s', hs', fun l' => ?_⟩
  rw [hchange.l1, Function.update_apply, hl1d]
  by_cases heq : l' = l
  · subst heq
    rw [if_pos rfl, if_pos rfl]
    rfl
  · rw [if_neg heq, if_neg fun h => heq (Option.some.inj h).symm, hs l', if_neg nofun]

theorem of_act (hstray : ∀ l ∈ stray, ¬ p.sets l.1 l.2.1) (h : Act seq p g g') :
    g.PlaysL1 stray stray g' := by
  cases h with
  | @level1 type l address cell hsets hrule =>
      refine of_level1 (atL1_level1Event ..) (fun heq => hstray l heq hsets) fun x _ => ?_
      cases hrule with
      | fill => rfl
      | evict => rfl
      | snoopInvalidate => rfl
      | snoopDowngrade => rfl
  | @level2 type c l address cell data _ _ =>
      refine of_event rfl fun s hs => ?_
      obtain ⟨s', hs', hchange⟩ := s.applyEventForward_l2 (atL2_level2Event seq type c l address
        (g.l2 l).state cell.state (some data))
      refine ⟨s', hs', fun l' => ?_⟩
      rw [hchange.l1]
      exact hs l'
  | @l1iSnoop l address oldState =>
      refine of_event rfl fun s hs => ?_
      have hat := atL1_level1Event seq .l1iSnoopInvalidate l address oldState .invalid none
      obtain ⟨s', hs', hchange⟩ := s.applyEventForward_l1 hat
      refine ⟨s', hs', fun l' => ?_⟩
      rw [hchange.l1, show forwardL1Cell (s.l1Cell l) _ = s.l1Cell l from rfl,
        Function.update_eq_self]
      exact hs l'
  | silentL2 _ _ _ => exact of_eq rfl rfl

theorem of_acts (hstray : ∀ l ∈ stray, ¬ p.sets l.1 l.2.1) (h : Acts seq p g [] g') :
    g.PlaysL1 stray stray g' := by
  generalize hls : ([] : List Label) = ls at h
  induction h with
  | refl => exact of_eq rfl rfl
  | act _ hact ih => exact (ih hls).trans (of_act hstray hact)
  | hit _ _ _ => simp at hls
  | bump c k _ _ => simp at hls

end Grid.PlaysL1

theorem Acts.l1d_frame {seq : BitVec 32} {p : Permit} {g g' : Grid} (h : Acts seq p g [] g')
    {l : L1Loc} (hl : ¬ p.sets l.1 l.2.1) : g'.l1d l = g.l1d l := by
  generalize hls : ([] : List Label) = ls at h
  induction h with
  | refl => rfl
  | act _ hact ih =>
      rw [← ih hls]
      cases hact with
      | @level1 _ l' _ _ hsets _ =>
          refine Function.update_of_ne ?_ _ _
          rintro rfl
          exact hl hsets
      | level2 _ _ => rfl
      | l1iSnoop => rfl
      | silentL2 _ _ _ => rfl
  | hit _ _ _ => simp at hls
  | bump c k _ _ => simp at hls

/-! ## The paths of a fetch -/

namespace Sim

/-- The L1D way that the event of `evict_l1` names when the L1I set is full. -/
def strayWay (s : Sim) (c : CoreId) (i : Fin 64) : Option L1Loc :=
  if ∀ w, (s.l1 .instr c i).state w ≠ .invalid then
    some (c, i, plruVictimWay 8 (s.l1 .instr c i).plruBits)
  else none

structure PlaysL1 (stray stray' : Option L1Loc) (s s' : Sim) : Prop where
  callback : s'.callback = s.callback
  plays : s.callback = true → s.grid.PlaysL1 stray stray' s'.grid

/-- The fetch goes from `s` to `s'`, and `t` is its state before `evict_l1`. -/
structure FetchPlays (s t s' : Sim) (c : CoreId) (i : Fin 64) : Prop where
  callback : s'.callback = s.callback
  plays : s.callback = true → s.grid.PlaysL1 none (t.strayWay c i) s'.grid
  frame : s.callback = true → ∀ l ∈ t.strayWay c i, s'.grid.l1d l = t.grid.l1d l

variable {p : Permit} {s t u : Sim} {c : CoreId} {physicalAddress : Addr}
  {stray stray' stray'' : Option L1Loc}

theorem PlaysL1.trans (h : PlaysL1 stray stray' s t) (h' : PlaysL1 stray' stray'' t u) :
    PlaysL1 stray stray'' s u :=
  ⟨h'.callback.trans h.callback, fun hc => (h.plays hc).trans (h'.plays (h.callback.trans hc))⟩

theorem Traces.playsL1 (h : s.Traces p [] t) (hstray : ∀ l ∈ stray, ¬ p.sets l.1 l.2.1) :
    PlaysL1 stray stray s t :=
  ⟨h.callback, fun hc => .of_acts hstray (h.acts hc)⟩

/-- Fills of L2 and of L1I show nothing. -/
theorem PlaysL1.of_eq (hcallback : t.callback = s.callback) (hl1d : t.grid.l1d = s.grid.l1d)
    (hevents : t.events = s.events) : PlaysL1 stray stray s t :=
  ⟨hcallback, fun _ => .of_eq hl1d hevents⟩

theorem strayWay_mem {l : L1Loc} {i : Fin 64} (h : l ∈ s.strayWay c i) : l.1 = c ∧ l.2.1 = i := by
  unfold strayWay at h
  split at h
  · obtain rfl := Option.some.inj h
    exact ⟨rfl, rfl⟩
  · cases h

theorem strayWay_eq_none {i : Fin 64} {w : Fin 8} (h : (s.l1 .instr c i).state w = .invalid) :
    s.strayWay c i = none :=
  if_neg fun hfull => hfull w h

theorem grid_l1d_congr (h : ∀ c i, t.l1 .data c i = s.l1 .data c i) : t.grid.l1d = s.grid.l1d := by
  funext l
  rw [grid_l1d, grid_l1d, h]

theorem l1d_modifyPmc (s : Sim) (c : CoreId) (f : PerfCounters → PerfCounters) :
    (s.modifyPmc c f).grid.l1d = s.grid.l1d :=
  grid_l1d_congr fun c' i => by rw [(SameCaches.modifyPmc _ _ _).l1]

theorem l1_data_setL1_instr (i : Fin 64) (set : L1Set) (c' : CoreId) (j : Fin 64) :
    (s.setL1 .instr c i set).l1 .data c' j = s.l1 .data c' j := by
  rw [l1_setL1, if_neg fun h => L1Kind.noConfusion h.1]

/-- `evict_l1` of `cpu_fetch` emits an event for an L1D way. -/
theorem evictL1_instr_plays {i : Fin 64} :
    (evictL1 .instr s i c).Sat
      (fun r => PlaysL1 none (s.strayWay c i) s r.1 ∧ r.1.grid.l1d = s.grid.l1d)
      fun _ => True := by
  unfold evictL1
  dsimp only
  cases hfree : (List.finRange 8).find? fun w => (s.l1 .instr c i).state w == .invalid with
  | some w =>
      have hw := List.find?_some hfree
      rw [beq_iff_eq] at hw
      rw [strayWay_eq_none hw]
      exact ⟨.of_eq rfl rfl rfl, rfl⟩
  | none =>
      have hfull := not_invalid_of_find_none hfree
      rw [strayWay, if_pos hfull]
      dsimp only
      split
      · trivial
      · rename_i w hfind
        have hl1d : ∀ (set : L2Set) (j : Fin 4096) (v : Fin 8) (addr : Addr) (old : MESIState)
            (data : Option Line) (set' : L1Set),
            (((s.setL2 j set).emit .l1dEvict c 1 i v addr old .invalid data).setL1 .instr c i
              set').grid.l1d = s.grid.l1d := by
          intro set j v addr old data set'
          refine grid_l1d_congr fun c' i' => ?_
          rw [l1_data_setL1_instr, l1_emit, l1_setL2]
        have hevents : s.callback = true → ∀ (set : L2Set) (j : Fin 4096) (v : Fin 8) (addr : Addr)
            (old : MESIState) (data : Line) (set' : L1Set),
            (((s.setL2 j set).emit .l1dEvict c 1 i v addr old .invalid (some data)).setL1 .instr c i
              set').grid.events = s.grid.events ++
                [level1Event s.currentSeq .l1dEvict (c, i, v) addr old .invalid (some data)] :=
          fun h set j v addr old data _ => congrArg Grid.events
            (grid_emit_level1 (s.setL2 j set) h .l1dEvict c i v addr old .invalid (some data))
        exact ⟨⟨by simp, fun h => .of_stray (hl1d ..) (hevents h ..)⟩, hl1d ..⟩

theorem fetchL2Hit_plays {w : Fin 16} {size : ℕ} (hs : s.Inv)
    (hfind : l2FindWay (s.l2 (l2ToIndex physicalAddress)) (l2ToTag physicalAddress) = some w) :
    (fetchL2Hit s c physicalAddress w size).Sat
      (fun r => s.FetchPlays s r.1 c (l1ToIndex physicalAddress)) fun _ => True := by
  have hvalid := (l2FindWay_found hfind).2
  unfold fetchL2Hit
  dsimp only
  split
  · trivial
  refine (evictL1_instr_plays.both
    (evictL1_spec hs.placed fun b _ => hs.lineOk b)).bind fun r hr => ?_
  obtain ⟨s₁, v⟩ := r
  obtain ⟨⟨hplays, hl1d⟩, -, hfrees⟩ := hr
  dsimp only at hplays hl1d hfrees ⊢
  -- the snoop of the other cores
  let p : Permit := { dataPermit True with sets := fun b _ => b ≠ c }
  refine (busRead_traces (p := p) (k := .instr) (fun b hb => hb) ?_
    fun _ => .inr fun _ _ _ => trivial).bind fun r htraces => ?_
  · exact mt (hfrees.tags.state_eq_invalid _ _).mp hvalid
  · obtain ⟨s₂, line, other⟩ := r
    dsimp only at htraces ⊢
    refine (copyOut_sat _ _ _).bind fun data _ => ?_
    have hstray : ∀ l ∈ s.strayWay c (l1ToIndex physicalAddress), ¬ p.sets l.1 l.2.1 :=
      fun l hl hne => hne (strayWay_mem hl).1
    have hfill : ∀ set : L1Set, ((s₂.setL1 .instr c (l1ToIndex physicalAddress) set).modifyPmc c
        fun pmc => { pmc with l2Hits := pmc.l2Hits + 1 }).grid.l1d = s₂.grid.l1d := by
      intro set
      rw [l1d_modifyPmc]
      exact grid_l1d_congr fun c' i' => l1_data_setL1_instr ..
    have hquiet : ∀ set : L1Set, PlaysL1 (s.strayWay c (l1ToIndex physicalAddress))
        (s.strayWay c (l1ToIndex physicalAddress)) s₂ ((s₂.setL1 .instr c
          (l1ToIndex physicalAddress) set).modifyPmc c
            fun pmc => { pmc with l2Hits := pmc.l2Hits + 1 }) := fun set =>
      .of_eq rfl (hfill set) rfl
    refine ⟨?_, fun hc => ?_, fun hc l hl => ?_⟩
    · exact htraces.callback.trans hplays.callback
    · exact ((hplays.trans (htraces.playsL1 hstray)).trans (hquiet _)).plays hc
    · have hacts := htraces.acts (hplays.callback.trans hc)
      change (Sim.grid _).l1d l = _
      rw [hfill, hacts.l1d_frame (hstray l hl), hl1d]

theorem l1Index_next {a b : LineNo} (h : lineAddr a + 64#64 = lineAddr b) :
    l1Geometry.index b ≠ l1Geometry.index a := by
  intro heq
  have hval := congrArg Fin.val heq
  have hb := congrArg BitVec.toNat h
  rw [BitVec.toNat_add, lineAddr_toNat, lineAddr_toNat] at hb
  rw [← l1ToIndex_lineAddr, ← l1ToIndex_lineAddr, l1ToIndex_val, l1ToIndex_val, lineAddr_toNat,
    lineAddr_toNat] at hval
  simp only [BitVec.toNat_ofNat] at hb
  have ha := a.isLt
  omega

theorem fetchMiss_plays {size : ℕ} (hs : s.Inv)
    (hmiss : l2FindWay (s.l2 (l2ToIndex physicalAddress)) (l2ToTag physicalAddress) = none) :
    (fetchMiss s c physicalAddress size).Sat
      (fun r => ∃ x, evictL2 s (l2ToIndex physicalAddress) = .ok x ∧
        s.FetchPlays x.1 r.1 c (l1ToIndex physicalAddress)) fun _ => True := by
  unfold fetchMiss
  dsimp only
  simp only [← l1Geometry_index_lineNo physicalAddress, ← l1Geometry_tag_lineNo physicalAddress,
    ← l2Geometry_index_lineNo physicalAddress, ← l2Geometry_tag_lineNo physicalAddress,
    lineBase_eq] at hmiss ⊢
  have ha := l2_eq_none_of_find hmiss
  split
  · trivial
  refine (((evictL2_traces (p := dataPermit True) hs fun _ => trivial).both (evictL2_spec hs)).both
    (Except.sat_returned _)).bind fun r hr => ?_
  obtain ⟨s₁, w⟩ := r
  obtain ⟨⟨hevicts, hw, hfrees₁⟩, hr⟩ := hr
  have hplays₁ : PlaysL1 none none s s₁ := (hevicts.traces fun _ => trivial).playsL1 nofun
  have hinv₁ := (hfrees₁.background hs).inv
  dsimp only at hw ⊢
  refine (evictL1_instr_plays.both (evictL1_spec hinv₁.placed fun b _ => hinv₁.lineOk b)).bind
    fun r hr => ?_
  obtain ⟨s₂, v⟩ := r
  obtain ⟨⟨hplays₂, hl1d⟩, hv, hfrees₂⟩ := hr
  obtain ⟨hbg, hrep, hw₂⟩ := room_of_frees hs ha hfrees₁ hw hfrees₂
  dsimp only at hplays₂ hl1d hv ⊢
  by_cases hin : 64 * (lineNo physicalAddress : ℕ) + 64 ≤ s₂.mem.size.toNat
  · rw [readLine_lineAddr hin]
    obtain ⟨l2Set, hl2Set, hset⟩ := L2Set.fill_spec (hbg.inv.placed.free _) hw₂ c
      (l2Geometry.tag (lineNo physicalAddress)) (s₂.rep (lineNo physicalAddress)).mem
      (MESIState.mode?_eq_exclusive.mpr rfl) .instr
    change Except.Sat (l2CacheFill _ _ _ _ _ _ _ >>= _) _ _
    rw [hl2Set]
    change Except.Sat (pfNextlineOnMiss _ _ >>= _) _ _
    let s₃ := (s₂.setL2 (l2Geometry.index (lineNo physicalAddress)) l2Set).record
      (.fill (lineAddr (lineNo physicalAddress)) (s₂.rep (lineNo physicalAddress)).mem)
    have hsame₃ : s₃.l1 = s₂.l1 ∧
        s₃.l2 = (s₂.setL2 (l2Geometry.index (lineNo physicalAddress)) l2Set).l2 ∧
          s₃.mem = s₂.mem ∧ s₃.streams = s₂.streams := by simp [s₃]
    have hmove := lineMove_fill (k := .instr) (c := c) hbg.inv hin hw₂ hv (by rw [hrep, ha]) hset
      (MESIState.mode?_eq_shared.mpr rfl) hsame₃ (.refl _)
      (by rw [sole_instr_view]; exact .loadI c (by rw [LineRep.view_l2, hrep, ha]; rfl))
      (by simpa [s₃] using Records.load (.loadI c) trivial rfl)
    -- the prefetch touches another set
    let others : Permit :=
      { dataPermit True with sets := fun _ j => j ≠ l1Geometry.index (lineNo physicalAddress) }
    refine (pfNextlineOnMiss_traces (p := others) (hmove.evolves hbg.inv).inv trivial
      (fun _ => trivial) fun b _ hb => l1Index_next hb).bind fun s₅ htraces => ?_
    refine (memoryRead_sat _ _ _).bind fun data _ => ?_
    have hstray : ∀ l ∈ s₁.strayWay c (l1Geometry.index (lineNo physicalAddress)),
        ¬ others.sets l.1 l.2.1 := fun l hl hne => hne (strayWay_mem hl).2
    have hfill : ∀ set : L1Set, (s₃.setL1 .instr c (l1Geometry.index (lineNo physicalAddress))
        set).grid.l1d = s₂.grid.l1d := fun set =>
      grid_l1d_congr fun c' i' => by rw [l1_data_setL1_instr, hsame₃.1]
    have hquiet : ∀ set : L1Set, PlaysL1 (s₁.strayWay c (l1Geometry.index (lineNo physicalAddress)))
        (s₁.strayWay c (l1Geometry.index (lineNo physicalAddress))) s₂
          (s₃.setL1 .instr c (l1Geometry.index (lineNo physicalAddress)) set) := fun set =>
      .of_eq rfl (hfill set) rfl
    have hend : PlaysL1 (s₁.strayWay c (l1Geometry.index (lineNo physicalAddress)))
        (s₁.strayWay c (l1Geometry.index (lineNo physicalAddress))) s₅
          (s₅.modifyPmc c fun pmc => { pmc with memFetches := pmc.memFetches + 1 }) :=
      .of_eq rfl (l1d_modifyPmc _ _ _) rfl
    have hplays := ((((hplays₁.trans hplays₂).trans (hquiet _)).trans
      (htraces.playsL1 hstray)).trans hend)
    refine ⟨_, hr, hplays.callback, hplays.plays, fun hc l hl => ?_⟩
    have hacts := htraces.acts (hplays₂.callback.trans (hplays₁.callback.trans hc))
    have hframe := hacts.l1d_frame (hstray l hl)
    rw [hfill] at hframe
    change (Sim.grid _).l1d l = _
    rw [l1d_modifyPmc, hframe, hl1d]
  · rw [readLine_error hin]
    trivial

/-! ## The ways that stay in use -/

/-- An access that misses in L2 displaces the line of the L1 tag: no way of the L2
set is free, and the line is in the one that `plru_victim_way` names. -/
def Displaces (s : Sim) (physicalAddress tag : Addr) : Prop :=
  let l2Set := s.l2 (l2ToIndex physicalAddress)
  l2FindWay l2Set (l2ToTag physicalAddress) = none ∧ (∀ w, l2Set.state w ≠ .invalid) ∧
    tag = l1ToTag (l2ToAddr (l2Set.tag (plruVictimWay 16 l2Set.plruBits))
      (l2ToIndex physicalAddress))

/-- The way of the L1 set is in use, and its line is not displaced. -/
def Stays (s : Sim) (k : L1Kind) (c : CoreId) (physicalAddress : Addr) (v : Fin 8) : Prop :=
  (s.l1 k c (l1ToIndex physicalAddress)).state v ≠ .invalid ∧
    ¬ s.Displaces physicalAddress ((s.l1 k c (l1ToIndex physicalAddress)).tag v)

theorem Displaces.congr {tag : Addr} (h : SameCaches s t) :
    t.Displaces physicalAddress tag ↔ s.Displaces physicalAddress tag := by
  unfold Displaces
  rw [h.l2]

theorem Stays.congr {k : L1Kind} {v : Fin 8} (h : SameCaches s t) :
    t.Stays k c physicalAddress v ↔ s.Stays k c physicalAddress v := by
  unfold Stays
  rw [Displaces.congr h, h.l1]

theorem exists_l1_slot {k : L1Kind} {i : Fin 64} {v : Fin 8}
    (h : (s.l1 k c i).state v ≠ .invalid) :
    ∃ x, (s.l1 k c i).slots v = some ((s.l1 k c i).tag v, x) := by
  obtain ⟨m, hm⟩ := Option.ne_none_iff_exists'.mp (mt MESIState.mode?_eq_none.mp h)
  exact ⟨_, L1Set.slots_eq_some.mpr ⟨rfl, hm, rfl⟩⟩

theorem Evicts.state_ne_iff {b : LineNo} {r : Sim × Fin 16} (hs : s.Inv) (ht : r.1.Inv)
    (hfrees : s.FreesL2 r.1) (h : s.Evicts p (l2Geometry.index b) r)
    (htag : (s.l2 (l2Geometry.index b)).tag r.2 = l2Geometry.tag b)
    (hvalid : (s.l2 (l2Geometry.index b)).state r.2 ≠ .invalid) (k : L1Kind) (c : CoreId)
    (v : Fin 8) :
    (r.1.l1 k c (l1Geometry.index b)).state v ≠ .invalid ↔
      (s.l1 k c (l1Geometry.index b)).state v ≠ .invalid ∧
        (s.l1 k c (l1Geometry.index b)).tag v ≠ l1Geometry.tag b := by
  obtain ⟨htags, -, -, hstates⟩ := h.l1 k c (l1Geometry.index b)
  have hgone := h.l2_eq_none hs.placed ht.placed htag hvalid
  constructor
  · intro hv
    refine ⟨?_, fun hb => ?_⟩
    · rw [← (hstates v).resolve_right hv]
      exact hv
    · obtain ⟨x, hx⟩ := exists_l1_slot hv
      rw [htags, hb] at hx
      have hcopy := ht.placed.l1_of_slots hx
      rw [ht.l1_eq_none hgone k c] at hcopy
      cases hcopy
  · rintro ⟨hv, hne⟩
    obtain ⟨x, hx⟩ := exists_l1_slot hv
    obtain ⟨a, hindex, ha⟩ := hs.placed.l1_line hx
    rw [← ha] at hx
    have hcopy := hs.placed.l1_of_slots (hindex ▸ hx)
    have hab : a ≠ b := by
      rintro rfl
      exact hne ha.symm
    -- the line of the way is not the one evicted
    have hkeep : (r.1.rep a).l1 k c = some x := by
      rcases hfrees.cases with hsame | ⟨b', -, hmove⟩
      · rwa [hsame.rep]
      · have hb' : b' = b := by
          by_contra hne'
          have hl2 := hmove.frame b (Ne.symm hne')
          obtain ⟨e, he⟩ := Option.ne_none_iff_exists'.mp
            (mt MESIState.mode?_eq_none.mp hvalid)
          have hslot := hs.placed.l2_of_slots
            (L2Set.slots_eq_some (e := ⟨e, _, _, _⟩).mpr ⟨htag, he, rfl, rfl, rfl⟩)
          rw [← hl2, hgone] at hslot
          cases hslot
        rwa [hmove.frame a (hb' ▸ hab)]
    obtain ⟨v', -, hv'⟩ := ht.placed.find_l1 hkeep
    obtain ⟨htag', hstate', -⟩ := L1Set.slots_eq_some.mp hv'
    rw [hindex] at hv' htag' hstate'
    have hvalid' : (r.1.l1 k c (l1Geometry.index b)).state v' ≠ .invalid :=
      fun hst => by rw [hst] at hstate'; cases hstate'
    -- and it is in the way it was in
    have hsame : v' = v := by
      have hst := (hstates v').resolve_right hvalid'
      obtain ⟨y, hy⟩ := exists_l1_slot (s := s) (hst ▸ hvalid')
      rw [← htags, htag'] at hy
      exact (hs.placed.l1 k c).unique _ _ _ _ _ _ hy hx
    exact hsame ▸ hvalid'

theorem evictL2_of_free {i : Fin 4096} {r : Sim × Fin 16} {w : Fin 16}
    (hw : (s.l2 i).state w = .invalid) (hr : evictL2 s i = .ok r) : r.1 = s := by
  unfold evictL2 at hr
  dsimp only at hr
  cases hfree : (List.finRange 16).find? fun w => (s.l2 i).state w == .invalid with
  | some w' =>
      rw [hfree] at hr
      cases hr
      rfl
  | none =>
      have hnot := List.find?_eq_none.mp hfree w (List.mem_finRange w)
      rw [hw] at hnot
      exact absurd rfl hnot

theorem evictL2_stays {r : Sim × Fin 16} (hs : s.Inv)
    (hmiss : l2FindWay (s.l2 (l2ToIndex physicalAddress)) (l2ToTag physicalAddress) = none)
    (hr : evictL2 s (l2ToIndex physicalAddress) = .ok r) (k : L1Kind) (c : CoreId) (v : Fin 8) :
    (r.1.l1 k c (l1ToIndex physicalAddress)).state v ≠ .invalid ↔
      s.Stays k c physicalAddress v := by
  by_cases hfull : ∀ w, (s.l2 (l2ToIndex physicalAddress)).state w ≠ .invalid
  · have hevicts := (evictL2_traces (p := dataPermit True) hs fun _ => trivial).of_eq_ok hr
    have hfrees := ((evictL2_spec hs).of_eq_ok hr).2
    obtain ⟨b, hindex, htag, hset⟩ := exists_victim_line hs (hfull r.2)
    rw [Stays, Displaces, hset, ← hevicts.victim hfull, htag]
    rw [hindex] at hevicts htag hfull hmiss ⊢
    rw [l2ToAddr_geometry, l1ToTag_lineAddr, hevicts.state_ne_iff hs (hfrees.background hs).inv
      hfrees htag (hfull r.2)]
    simp [hmiss, hfull]
  · obtain ⟨w, hw⟩ := not_forall.mp hfull
    rw [evictL2_of_free (not_not.mp hw) hr]
    exact (and_iff_left fun h => hfull h.2.1).symm

/-- What the stray event of a fetch has left wrong. -/
theorem FetchPlays.stray_iff {i : Fin 64} (h : s.FetchPlays t u c i) (hc : s.callback = true) :
    (∃ l ∈ t.strayWay c i, (u.grid.l1d l).state ≠ .invalid) ↔
      (∀ w, (t.l1 .instr c i).state w ≠ .invalid) ∧
        (t.l1 .data c i).state (plruVictimWay 8 (t.l1 .instr c i).plruBits) ≠ .invalid := by
  have hframe := h.frame hc
  unfold strayWay at hframe ⊢
  split
  · rename_i hfull
    rw [if_pos hfull] at hframe
    simp only [Option.mem_def, Option.some.injEq, exists_eq_left']
    rw [hframe _ rfl]
    exact (and_iff_right hfull).symm
  · rename_i hfull
    exact iff_of_false nofun fun h => hfull h.1

/-- The fetch evicts an L1I line while the L1D way with the same number is in use,
and both stay in use when L2 makes room. -/
def ClobbersL1D (s : Sim) (c : CoreId) (physicalAddress : Addr) : Prop :=
  findL1Way (s.l1 .instr c (l1ToIndex physicalAddress)) (l1ToTag physicalAddress) = none ∧
    (∀ w, s.Stays .instr c physicalAddress w) ∧
      s.Stays .data c physicalAddress
        (plruVictimWay 8 (s.l1 .instr c (l1ToIndex physicalAddress)).plruBits)

theorem ClobbersL1D.congr (h : SameCaches s t) :
    t.ClobbersL1D c physicalAddress ↔ s.ClobbersL1D c physicalAddress := by
  unfold ClobbersL1D
  simp only [Stays.congr h, h.l1]

structure FetchShows (s : Sim) (clobbers : Prop) (u : Sim) : Prop where
  callback : u.callback = s.callback
  shows : s.callback = true → ∃ stray, s.grid.PlaysL1 none stray u.grid ∧
    ((∃ l ∈ stray, (u.grid.l1d l).state ≠ .invalid) ↔ clobbers)

theorem fetch_plays {size : ℕ} (hs : s.Inv) :
    (match findL1Way (s.l1 .instr c (l1ToIndex physicalAddress)) (l1ToTag physicalAddress) with
    | some l1HitWay => fetchL1Hit s c physicalAddress l1HitWay size
    | none =>
        match l2FindWay (s.l2 (l2ToIndex physicalAddress)) (l2ToTag physicalAddress) with
        | some l2HitWay => fetchL2Hit s c physicalAddress l2HitWay size
        | none => fetchMiss s c physicalAddress size).Sat
      (fun r => s.FetchShows (s.ClobbersL1D c physicalAddress) r.1) fun _ => True := by
  cases hl1 : findL1Way (s.l1 .instr c (l1ToIndex physicalAddress)) (l1ToTag physicalAddress) with
  | some v =>
      unfold fetchL1Hit
      dsimp only
      refine (Except.sat_returned _).bind fun x _ => ?_
      refine ⟨rfl, fun _ => ⟨none, .of_eq ?_ rfl, iff_of_false nofun fun h => ?_⟩⟩
      · rw [grid_l1d_congr fun c' i' => l1_data_setL1_instr .., l1d_modifyPmc]
      · rw [ClobbersL1D, hl1] at h
        cases h.1
  | none =>
      dsimp only
      cases hl2 : l2FindWay (s.l2 (l2ToIndex physicalAddress)) (l2ToTag physicalAddress) with
      | some w =>
          refine (fetchL2Hit_plays hs hl2).imp fun r hr => ⟨hr.callback, fun hc =>
            ⟨_, hr.plays hc, (hr.stray_iff hc).trans ?_⟩⟩
          have hstays : ∀ k v, s.Stays k c physicalAddress v ↔
              (s.l1 k c (l1ToIndex physicalAddress)).state v ≠ .invalid := fun k v =>
            and_iff_left fun h => by rw [Displaces, hl2] at h; cases h.1
          simp only [ClobbersL1D, hstays, hl1, true_and]
      | none =>
          refine (fetchMiss_plays hs hl2).imp fun r ⟨x, hx, hr⟩ => ⟨hr.callback, fun hc =>
            ⟨_, hr.plays hc, (hr.stray_iff hc).trans ?_⟩⟩
          have hevicts := (evictL2_traces (p := dataPermit True) hs fun _ => trivial).of_eq_ok hx
          have hplru := (hevicts.l1 .instr c (l1ToIndex physicalAddress)).2.2.1
          simp only [ClobbersL1D, evictL2_stays hs hl2 hx, hplru, hl1, true_and]

end Sim

end CacheSimulator
