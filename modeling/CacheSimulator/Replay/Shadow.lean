import CacheSimulator.Renderer
import CacheSimulator.Replay.Grid

/-!
# Events in the shadow state, way by way

An event the simulator emits changes at most the way it names. The functions on
cells say how, and the lemmas carry them over to `apply_event_forward` and
`apply_event_backward`.
-/

namespace CacheSimulator

structure ShadowCell where
  tag : Addr
  state : Byte
  data : Line

namespace ShadowState

def l1Cell (s : ShadowState) (l : L1Loc) : ShadowCell :=
  ⟨(s.l1d l.1 l.2.1).tag l.2.2, (s.l1d l.1 l.2.1).state l.2.2, (s.l1d l.1 l.2.1).data l.2.2⟩

def l2Cell (s : ShadowState) (l : L2Loc) : ShadowCell :=
  ⟨(s.l2 l.1).tag l.2, (s.l2 l.1).state l.2, (s.l2 l.1).data l.2⟩

end ShadowState

/-! ## Cells -/

/-- A way at level 1 after its event. -/
def forwardL1Cell (x : ShadowCell) (e : Event) : ShadowCell :=
  match e.type with
  | .l1dFill => ⟨e.address, e.newState, e.data.getD x.data⟩
  | .l1dEvict | .snoopInvalidate => { x with state := MESIState.invalid.toByte }
  | .l1dHit | .snoopDowngrade => { x with state := e.newState, data := e.data.getD x.data }
  | _ => x

/-- A way at level 1 before its event, as far as the event tells. -/
def backwardL1Cell (x : ShadowCell) (e : Event) : ShadowCell :=
  match e.type with
  | .l1dFill => { x with state := MESIState.invalid.toByte }
  | .l1dEvict =>
      match e.data with
      | some line => ⟨e.address, e.oldState, line⟩
      | none => { x with state := e.oldState }
  | .snoopInvalidate | .snoopDowngrade | .l1dHit => { x with state := e.oldState }
  | _ => x

def forwardL2Cell (x : ShadowCell) (e : Event) : ShadowCell :=
  match e.type with
  | .l2Fill | .prefetchL2 => ⟨e.address, e.newState, e.data.getD x.data⟩
  | .l2Evict => { x with state := MESIState.invalid.toByte }
  | .l2Hit => { x with state := e.newState }
  | _ => x

def backwardL2Cell (x : ShadowCell) (e : Event) : ShadowCell :=
  match e.type with
  | .l2Fill | .prefetchL2 => { x with state := MESIState.invalid.toByte }
  | .l2Evict =>
      match e.data with
      | some line => ⟨e.address, e.oldState, line⟩
      | none => { x with state := e.oldState }
  | .l2Hit => { x with state := e.oldState }
  | _ => x

/-! ## Sets -/

section Sets

variable {ways : ℕ}

def ShadowSet.cell (set : ShadowSet ways) (v : Fin ways) : ShadowCell :=
  ⟨set.tag v, set.state v, set.data v⟩

variable (set : ShadowSet ways) (w : Fin ways)

theorem ShadowSet.cell_setState (state : Byte) :
    (set.setState w state).cell =
      Function.update set.cell w { set.cell w with state := state } := by
  funext v
  by_cases hv : v = w
  · subst hv
    simp [cell, setState]
  · simp [cell, setState, hv]

theorem ShadowSet.cell_setTag (tag : Addr) :
    (set.setTag w tag).cell = Function.update set.cell w { set.cell w with tag := tag } := by
  funext v
  by_cases hv : v = w
  · subst hv
    simp [cell, setTag]
  · simp [cell, setTag, hv]

theorem ShadowSet.cell_setData (data : Option Line) :
    (set.setData w data).cell =
      Function.update set.cell w { set.cell w with data := data.getD (set.cell w).data } := by
  funext v
  cases data with
  | none =>
      by_cases hv : v = w
      · subst hv
        simp [cell, setData]
      · simp [cell, setData, hv]
  | some line =>
      by_cases hv : v = w
      · subst hv
        simp [cell, setData]
      · simp [cell, setData, hv]

end Sets

theorem index_ofNat {n k : ℕ} (i : Fin n) (h : n ≤ 2 ^ k) :
    index n (BitVec.ofNat k i).toNat = .ok i := by
  have hi : (BitVec.ofNat k i).toNat = i := by
    rw [BitVec.toNat_ofNat, Nat.mod_eq_of_lt (Nat.lt_of_lt_of_le i.isLt h)]
  rw [hi, index, dif_pos i.isLt]

section Switches

variable {e : Event}

theorem forwardL1_cell (set : ShadowL1) (w : Fin 8) (hw : index 8 e.way.toNat = .ok w) :
    ∃ set', forwardL1 set e = .ok set' ∧
      set'.cell = Function.update set.cell w (forwardL1Cell (set.cell w) e) := by
  unfold forwardL1 forwardL1Cell
  cases e.type <;> simp only [hw, Except.ok_bind]
  case l1dFill =>
    refine ⟨_, rfl, ?_⟩
    simp [ShadowSet.cell_setData, ShadowSet.cell_setState, ShadowSet.cell_setTag]
  case l1dEvict => exact ⟨_, rfl, ShadowSet.cell_setState ..⟩
  case snoopInvalidate => exact ⟨_, rfl, ShadowSet.cell_setState ..⟩
  case l1dHit =>
    refine ⟨_, rfl, ?_⟩
    simp [ShadowSet.cell_setData, ShadowSet.cell_setState]
  case snoopDowngrade =>
    refine ⟨_, rfl, ?_⟩
    simp [ShadowSet.cell_setData, ShadowSet.cell_setState]
  all_goals exact ⟨_, rfl, (Function.update_eq_self ..).symm⟩

theorem backwardL1_cell (set : ShadowL1) (w : Fin 8) (hw : index 8 e.way.toNat = .ok w) :
    ∃ set', backwardL1 set e = .ok set' ∧
      set'.cell = Function.update set.cell w (backwardL1Cell (set.cell w) e) := by
  unfold backwardL1 backwardL1Cell
  cases e.type <;> simp only [hw, Except.ok_bind]
  case l1dFill => exact ⟨_, rfl, ShadowSet.cell_setState ..⟩
  case l1dEvict =>
    refine ⟨_, rfl, ?_⟩
    cases e.data with
    | none => exact ShadowSet.cell_setState ..
    | some line =>
        simp [ShadowSet.cell_setData, ShadowSet.cell_setState, ShadowSet.cell_setTag]
  case snoopInvalidate => exact ⟨_, rfl, ShadowSet.cell_setState ..⟩
  case snoopDowngrade => exact ⟨_, rfl, ShadowSet.cell_setState ..⟩
  case l1dHit => exact ⟨_, rfl, ShadowSet.cell_setState ..⟩
  all_goals exact ⟨_, rfl, (Function.update_eq_self ..).symm⟩

theorem forwardL2_cell (set : ShadowL2) (w : Fin 16) (hw : index 16 e.way.toNat = .ok w) :
    ∃ set', forwardL2 set e = .ok set' ∧
      set'.cell = Function.update set.cell w (forwardL2Cell (set.cell w) e) := by
  unfold forwardL2 forwardL2Cell
  cases e.type <;> simp only [hw, Except.ok_bind]
  case l2Fill =>
    refine ⟨_, rfl, ?_⟩
    simp [ShadowSet.cell_setData, ShadowSet.cell_setState, ShadowSet.cell_setTag]
  case prefetchL2 =>
    refine ⟨_, rfl, ?_⟩
    simp [ShadowSet.cell_setData, ShadowSet.cell_setState, ShadowSet.cell_setTag]
  case l2Evict => exact ⟨_, rfl, ShadowSet.cell_setState ..⟩
  case l2Hit => exact ⟨_, rfl, ShadowSet.cell_setState ..⟩
  all_goals exact ⟨_, rfl, (Function.update_eq_self ..).symm⟩

theorem backwardL2_cell (set : ShadowL2) (w : Fin 16) (hw : index 16 e.way.toNat = .ok w) :
    ∃ set', backwardL2 set e = .ok set' ∧
      set'.cell = Function.update set.cell w (backwardL2Cell (set.cell w) e) := by
  unfold backwardL2 backwardL2Cell
  cases e.type <;> simp only [hw, Except.ok_bind]
  case l2Fill => exact ⟨_, rfl, ShadowSet.cell_setState ..⟩
  case prefetchL2 => exact ⟨_, rfl, ShadowSet.cell_setState ..⟩
  case l2Evict =>
    refine ⟨_, rfl, ?_⟩
    cases e.data with
    | none => exact ShadowSet.cell_setState ..
    | some line =>
        simp [ShadowSet.cell_setData, ShadowSet.cell_setState, ShadowSet.cell_setTag]
  case l2Hit => exact ⟨_, rfl, ShadowSet.cell_setState ..⟩
  all_goals exact ⟨_, rfl, (Function.update_eq_self ..).symm⟩

end Switches

/-! ## Events -/

namespace ShadowState

variable {s s' : ShadowState} {e : Event} {counted : ShadowState}

/-- One way at level 1 has changed, and the counters are those of `counted`. -/
structure ChangesL1 (s : ShadowState) (l : L1Loc) (x : ShadowCell) (counted s' : ShadowState) :
    Prop where
  l1 : s'.l1Cell = Function.update s.l1Cell l x
  l2 : s'.l2 = s.l2
  dominant : s'.l2Dominant = s.l2Dominant
  counters : s'.counters = counted.counters

/-- One way at level 2 has changed, and the dominant state of its set is the
dominant one again. -/
structure ChangesL2 (s : ShadowState) (l : L2Loc) (x : ShadowCell) (counted s' : ShadowState) :
    Prop where
  l1 : s'.l1Cell = s.l1Cell
  l2 : s'.l2Cell = Function.update s.l2Cell l x
  dominant : s'.l2Dominant = Function.update s.l2Dominant l.1 (dominantState (s'.l2 l.1))
  counters : s'.counters = counted.counters

theorem updateCounters_l1Cell (s : ShadowState) (e : Event) (f : ℕ → ℕ) :
    (updateCounters s e f).l1Cell = s.l1Cell ∧ (updateCounters s e f).l1d = s.l1d ∧
      (updateCounters s e f).l2 = s.l2 ∧ (updateCounters s e f).l2Cell = s.l2Cell ∧
      (updateCounters s e f).l2Dominant = s.l2Dominant := by
  unfold updateCounters
  split
  · exact ⟨rfl, rfl, rfl, rfl, rfl⟩
  · exact ⟨rfl, rfl, rfl, rfl, rfl⟩

theorem l1Cell_setL1d {l : L1Loc} {set : ShadowL1} {x : ShadowCell}
    (h : set.cell = Function.update (s.l1d l.1 l.2.1).cell l.2.2 x) :
    (s.setL1d l.1 l.2.1 set).l1Cell = Function.update s.l1Cell l x := by
  obtain ⟨c, i, w⟩ := l
  funext ⟨c', i', w'⟩
  have hget : (s.setL1d c i set).l1Cell (c', i', w') =
      (if c' = c ∧ i' = i then set else s.l1d c' i').cell w' := by
    change ((s.setL1d c i set).l1d c' i').cell w' = _
    congr 1
    by_cases hc : c' = c
    · subst hc
      simp [setL1d, Function.update_apply]
    · simp [setL1d, hc]
  rw [hget, Function.update_apply]
  by_cases hci : c' = c ∧ i' = i
  · obtain ⟨rfl, rfl⟩ := hci
    rw [if_pos ⟨rfl, rfl⟩, h, Function.update_apply]
    by_cases hw : w' = w
    · simp [hw]
    · rw [if_neg hw, if_neg (by simp [hw])]
      rfl
  · rw [if_neg hci, if_neg fun heq => hci (by simp_all)]
    rfl

theorem l2Cell_setL2 {l : L2Loc} {set : ShadowL2} {x : ShadowCell}
    (h : set.cell = Function.update (s.l2 l.1).cell l.2 x) :
    (s.setL2 l.1 set).l2Cell = Function.update s.l2Cell l x := by
  obtain ⟨i, w⟩ := l
  funext ⟨i', w'⟩
  have hget : (s.setL2 i set).l2Cell (i', w') = (if i' = i then set else s.l2 i').cell w' := by
    change ((s.setL2 i set).l2 i').cell w' = _
    simp only [setL2, Function.update_apply]
  rw [hget, Function.update_apply]
  by_cases hi : i' = i
  · subst hi
    rw [if_pos rfl, h, Function.update_apply]
    by_cases hw : w' = w
    · simp [hw]
    · rw [if_neg hw, if_neg (by simp [hw])]
      rfl
  · rw [if_neg hi, if_neg fun heq => hi (by simp_all)]
    rfl

section Apply

variable (s)

theorem applyEventForward_l1 {l : L1Loc} (he : e.AtL1 l) :
    ∃ s', applyEventForward s e = .ok s' ∧
      s.ChangesL1 l (forwardL1Cell (s.l1Cell l) e) (updateCountersForward s e) s' := by
  obtain ⟨hcells, hl1d, hl2, -, hdominant⟩ := updateCounters_l1Cell s e (· + 1)
  obtain ⟨set, hset, hcell⟩ := forwardL1_cell (e := e) ((updateCountersForward s e).l1d l.1 l.2.1)
    l.2.2 (by rw [he.way]; exact index_ofNat _ (by decide))
  rw [applyEventForward, if_pos he.level, he.core, he.set, index_ofNat _ (by decide),
    index_ofNat _ (by decide)]
  simp only [Except.ok_bind, hset]
  refine ⟨_, rfl, ?_, hl2, hdominant, rfl⟩
  rw [l1Cell_setL1d hcell, ← hcells]
  rfl

theorem applyEventBackward_l1 {l : L1Loc} (he : e.AtL1 l) :
    ∃ s', applyEventBackward s e = .ok s' ∧
      s.ChangesL1 l (backwardL1Cell (s.l1Cell l) e) (updateCountersBackward s e) s' := by
  obtain ⟨hcells, hl1d, hl2, -, hdominant⟩ := updateCounters_l1Cell s e (· - 1)
  obtain ⟨set, hset, hcell⟩ := backwardL1_cell (e := e) ((updateCountersBackward s e).l1d l.1 l.2.1)
    l.2.2 (by rw [he.way]; exact index_ofNat _ (by decide))
  rw [applyEventBackward, if_pos he.level, he.core, he.set, index_ofNat _ (by decide),
    index_ofNat _ (by decide)]
  simp only [Except.ok_bind, hset]
  refine ⟨_, rfl, ?_, hl2, hdominant, rfl⟩
  rw [l1Cell_setL1d hcell, ← hcells]
  rfl

theorem recompute_changesL2 (u : ShadowState) {l : L2Loc} {set : ShadowL2} {x : ShadowCell}
    (hcell : set.cell = Function.update (s.l2 l.1).cell l.2 x) (hl1 : u.l1d = s.l1d)
    (hl2 : u.l2 = Function.update s.l2 l.1 set) (hdominant : u.l2Dominant = s.l2Dominant) :
    s.ChangesL2 l x u (recomputeL2Dominant u l.1) where
  l1 := by
    unfold recomputeL2Dominant l1Cell
    rw [hl1]
  l2 := by
    rw [← l2Cell_setL2 hcell]
    unfold recomputeL2Dominant l2Cell setL2
    rw [hl2]
  dominant := by
    unfold recomputeL2Dominant
    rw [hdominant]
  counters := rfl

theorem applyEventForward_l2 {l : L2Loc} (he : e.AtL2 l) :
    ∃ s', applyEventForward s e = .ok s' ∧
      s.ChangesL2 l (forwardL2Cell (s.l2Cell l) e) (updateCountersForward s e) s' := by
  obtain ⟨-, hl1d, hl2, -, hdominant⟩ := updateCounters_l1Cell s e (· + 1)
  have hway : index 16 e.way.toNat = .ok l.2 := by rw [he.way]; exact index_ofNat _ (by decide)
  obtain ⟨set, hset, hcell⟩ := forwardL2_cell (e := e) ((updateCountersForward s e).l2 l.1) l.2 hway
  have hlevel : ¬ e.cacheLevel = 1 := by
    rw [he.level]
    decide
  rw [applyEventForward, if_neg hlevel, if_pos he.level, he.set, index_ofNat _ (by decide)]
  simp only [Except.ok_bind, hset]
  rw [updateCountersForward, hl2] at hcell
  -- the flash is set in a part of the state that is not looked at
  by_cases htype : e.type = .prefetchL2
  · rw [if_pos htype, hway]
    refine ⟨_, rfl, ?_⟩
    obtain ⟨h1, h2, h3, -⟩ := recompute_changesL2 s
      (((updateCountersForward s e).setL2 l.1 set).setFlash l.1 l.2 10) hcell hl1d
      (by rw [← hl2]; rfl) hdominant
    exact ⟨h1, h2, h3, rfl⟩
  · rw [if_neg htype]
    refine ⟨_, rfl, ?_⟩
    obtain ⟨h1, h2, h3, -⟩ := recompute_changesL2 s
      ((updateCountersForward s e).setL2 l.1 set) hcell hl1d (by rw [← hl2]; rfl) hdominant
    exact ⟨h1, h2, h3, rfl⟩

theorem applyEventBackward_l2 {l : L2Loc} (he : e.AtL2 l) :
    ∃ s', applyEventBackward s e = .ok s' ∧
      s.ChangesL2 l (backwardL2Cell (s.l2Cell l) e) (updateCountersBackward s e) s' := by
  obtain ⟨-, hl1d, hl2, -, hdominant⟩ := updateCounters_l1Cell s e (· - 1)
  obtain ⟨set, hset, hcell⟩ := backwardL2_cell (e := e) ((updateCountersBackward s e).l2 l.1) l.2
    (by rw [he.way]; exact index_ofNat _ (by decide))
  have hlevel : ¬ e.cacheLevel = 1 := by
    rw [he.level]
    decide
  rw [applyEventBackward, if_neg hlevel, if_pos he.level, he.set, index_ofNat _ (by decide)]
  simp only [Except.ok_bind, hset]
  rw [updateCountersBackward, hl2] at hcell
  refine ⟨_, rfl, ?_⟩
  obtain ⟨h1, h2, h3, -⟩ := recompute_changesL2 s
    ((updateCountersBackward s e).setL2 l.1 set) hcell hl1d (by rw [← hl2]; rfl) hdominant
  exact ⟨h1, h2, h3, rfl⟩

/-- An event of neither level changes the counters alone. -/
theorem applyEvent_other (h1 : ¬ e.cacheLevel = 1) (h2 : ¬ e.cacheLevel = 2) :
    applyEventForward s e = .ok (updateCountersForward s e) ∧
      applyEventBackward s e = .ok (updateCountersBackward s e) := by
  rw [applyEventForward, applyEventBackward, if_neg h1, if_neg h2, if_neg h1, if_neg h2]
  exact ⟨rfl, rfl⟩

end Apply

end ShadowState

end CacheSimulator
