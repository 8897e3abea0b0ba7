import CacheSimulator.Replay.Shadow
import CacheSimulator.Refinement.Address

/-!
# The replay mirrors the grid

`Mirrors p s g` relates a shadow state to a grid: the validity of the ways of L2
agrees, and their states do but where `p` has let one change since the last event
about the way. Every act without the acts of `cpu_fetch` keeps the relation, the
shadow state moving by the event of the act. What the event says about the way
before it fits the shadow state.
-/

namespace CacheSimulator

structure ShowsL1 (l : L1Loc) (x : ShadowCell) (cell : L1Cell) : Prop where
  state : x.state = cell.state.toByte
  address : cell.state ≠ .invalid → toLineBase x.tag = l1ToAddr cell.tag l.2.1
  data : cell.state ≠ .invalid → x.data = cell.data

/-- The state of the L2 way may have changed since the last event about it. -/
def Permit.Stale (p : Permit) (l : L2Loc) (events : List Event) : Prop :=
  ∃ before added, events = before ++ added ∧ p.silent l before ∧ ∀ e ∈ added, ¬e.AtL2 l

theorem Permit.Stale.concat {p : Permit} {l : L2Loc} {events : List Event} {e : Event}
    (h : p.Stale l events) (he : ¬e.AtL2 l) : p.Stale l (events ++ [e]) := by
  obtain ⟨before, added, rfl, hsilent, hadded⟩ := h
  refine ⟨before, added ++ [e], List.append_assoc _ _ _, hsilent, fun x hx => ?_⟩
  rcases List.mem_append.mp hx with hx | hx
  · exact hadded x hx
  · rwa [List.mem_singleton.mp hx]

/-- The shadow way shows the way of L2, but perhaps for a stale state. -/
structure ShowsL2 (stale : Prop) (l : L2Loc) (x : ShadowCell) (cell : L2Cell) : Prop where
  valid : x.state = MESIState.invalid.toByte ↔ cell.state = .invalid
  address : cell.state ≠ .invalid → x.tag = l2ToAddr cell.tag l.1
  state : x.state = cell.state.toByte ∨ stale

structure Mirrors (p : Permit) (s : ShadowState) (g : Grid) : Prop where
  l1 : ∀ l, ShowsL1 l (s.l1Cell l) (g.l1d l)
  l2 : ∀ l, ShowsL2 (p.Stale l g.events) l (s.l2Cell l) (g.l2 l)
  dominant : ∀ i, s.l2Dominant i = dominantState (s.l2 i)

/-! ## What an event says about the way before it -/

/-- The event fits the way as it is before the event. -/
structure FitsL1 (stores : Prop) (x : ShadowCell) (e : Event) : Prop where
  state : ∀ y : ShadowCell, y.state = (forwardL1Cell x e).state →
    (backwardL1Cell y e).state = x.state
  payload : e.type ≠ .l1iSnoopInvalidate → e.data.isSome = true
  valid : e.type = .l1dFill ∨ e.type = .l1dHit ∨ e.type = .snoopDowngrade →
    e.newState ≠ MESIState.invalid.toByte
  snapshot : e.type = .l1dEvict ∨ e.type = .snoopInvalidate ∨ e.type = .snoopDowngrade →
    e.data = some x.data
  hit : e.type = .l1dHit → e.data = some x.data ∨ stores

/-- A fill fits a free way, and another event tells the state of the way. -/
structure FitsL2 (stale : Prop) (x : ShadowCell) (e : Event) : Prop where
  fill : e.type = .l2Fill ∨ e.type = .prefetchL2 → x.state = MESIState.invalid.toByte
  told : e.type = .l2Hit ∨ e.type = .l2Evict → e.oldState = x.state ∨ stale

/-- The event fits the state that the events before it have led to. -/
inductive Fits (p : Permit) (pre : List Event) (s : ShadowState) (e : Event) : Prop
  | level1 {l : L1Loc} : e.AtL1 l → FitsL1 (p.stores pre) (s.l1Cell l) e → Fits p pre s e
  | level2 {l : L2Loc} : e.AtL2 l → FitsL2 (p.Stale l pre) (s.l2Cell l) e → Fits p pre s e
  | other : ¬ e.cacheLevel = 1 → ¬ e.cacheLevel = 2 → Fits p pre s e

/-! ## Dominant states -/

theorem dominantState_congr {set set' : ShadowL2} (h : set.state = set'.state) :
    dominantState set = dominantState set' := by
  unfold dominantState
  rw [h]

section Cells

variable {p : Permit} {s s' counted : ShadowState} {g : Grid}

theorem Mirrors.changeL1 {l : L1Loc} {x : ShadowCell} {cell : L1Cell} {e : Event}
    (h : Mirrors p s g) (he : e.AtL1 l) (hs' : s.ChangesL1 l x counted s')
    (hx : ShowsL1 l x cell) : Mirrors p s' ((g.setL1 l cell).emit e) where
  l1 l' := by
    rw [hs'.l1]
    simp only [Grid.emit, Grid.setL1, Function.update_apply]
    split
    · rename_i heq
      rw [heq]
      exact hx
    · exact h.l1 l'
  l2 l' := by
    have hl' := h.l2 l'
    unfold ShadowState.l2Cell
    rw [hs'.l2]
    exact ⟨hl'.valid, hl'.address, hl'.state.imp_right fun hstale => hstale.concat he.not_atL2⟩
  dominant i := by
    rw [hs'.dominant, hs'.l2]
    exact h.dominant i

theorem Mirrors.changeL2 {l : L2Loc} {x : ShadowCell} {cell : L2Cell} {e : Event}
    (h : Mirrors p s g) (he : e.AtL2 l) (hs' : s.ChangesL2 l x counted s')
    (hx : ShowsL2 False l x cell) : Mirrors p s' ((g.setL2 l cell).emit e) where
  l1 l' := by
    rw [hs'.l1]
    exact h.l1 l'
  l2 l' := by
    rw [hs'.l2]
    simp only [Grid.emit, Grid.setL2, Function.update_apply]
    split
    · rename_i heq
      rw [heq]
      exact ⟨hx.valid, hx.address, .inl (hx.state.resolve_right id)⟩
    · rename_i hne
      have hl' := h.l2 l'
      exact ⟨hl'.valid, hl'.address, hl'.state.imp_right fun hstale =>
        hstale.concat fun hat => hne (hat.unique he)⟩
  dominant i := by
    rw [hs'.dominant, Function.update_apply]
    split
    · rename_i heq
      rw [heq]
    · rename_i hne
      rw [h.dominant]
      refine dominantState_congr (funext fun w => ?_)
      have hcell := congrFun hs'.l2 (i, w)
      rw [Function.update_of_ne fun heq => hne (congrArg Prod.fst heq)] at hcell
      exact (congrArg ShadowCell.state hcell).symm

end Cells

/-! ## Acts and hits -/

/-- The grid has moved by one event, and the shadow state with it. -/
def Follows (p : Permit) (s : ShadowState) (g g' : Grid) : Prop :=
  ∃ e s', g'.events = g.events ++ [e] ∧ Fits p g.events s e ∧ applyEventForward s e = .ok s' ∧
    Mirrors p s' g'

section Steps

variable {s : ShadowState} {seq : BitVec 32} {p : Permit} {g g' : Grid}

theorem follows_level1 {l : L1Loc} {cell : L1Cell} {type : CacheEventType} {address : Addr}
    (hm : Mirrors p s g) {oldState newState : MESIState} {data : Option Line}
    (hfits : FitsL1 (p.stores g.events) (s.l1Cell l)
      (level1Event seq type l address oldState newState data))
    (hx : ShowsL1 l (forwardL1Cell (s.l1Cell l)
      (level1Event seq type l address oldState newState data)) cell) :
    Follows p s g ((g.setL1 l cell).emit
      (level1Event seq type l address oldState newState data)) := by
  have hat := atL1_level1Event seq type l address oldState newState data
  obtain ⟨s', hs', hchange⟩ := s.applyEventForward_l1 hat
  exact ⟨_, s', rfl, .level1 hat hfits, hs', hm.changeL1 hat hchange hx⟩

theorem follows_level2 {c : CoreId} {l : L2Loc} {cell : L2Cell} {type : CacheEventType}
    {address : Addr} (hm : Mirrors p s g) {oldState newState : MESIState} {data : Option Line}
    (hfits : FitsL2 (p.Stale l g.events) (s.l2Cell l)
      (level2Event seq type c l address oldState newState data))
    (hx : ShowsL2 False l (forwardL2Cell (s.l2Cell l)
      (level2Event seq type c l address oldState newState data)) cell) :
    Follows p s g ((g.setL2 l cell).emit
      (level2Event seq type c l address oldState newState data)) := by
  have hat := atL2_level2Event seq type c l address oldState newState data
  obtain ⟨s', hs', hchange⟩ := s.applyEventForward_l2 hat
  exact ⟨_, s', rfl, .level2 hat hfits, hs', hm.changeL2 hat hchange hx⟩

theorem toByte_eq_invalid {state : MESIState} :
    state.toByte = MESIState.invalid.toByte ↔ state = .invalid := MESIState.toByte_inj

theorem L1Rule.follows {l : L1Loc} {cell : L1Cell} {type : CacheEventType} {address : Addr}
    (hm : Mirrors p s g) (h : L1Rule p l (g.l1d l) type address cell) :
    Follows p s g ((g.setL1 l cell).emit
      (level1Event seq type l address (g.l1d l).state cell.state (some cell.data))) := by
  have hl := hm.l1 l
  cases h with
  | fill _ hfree hstate haddress =>
      refine follows_level1 hm ⟨fun y _ => ?_, fun _ => rfl,
        fun _ => mt toByte_eq_invalid.mp hstate, by simp [level1Event], by simp [level1Event]⟩
        ⟨rfl, fun _ => haddress, fun _ => rfl⟩
      rw [hl.state, hfree]
      rfl
  | evict hstate =>
      refine follows_level1 hm ⟨fun y _ => ?_, fun _ => rfl, by simp [level1Event], fun _ => ?_,
        by simp [level1Event]⟩
        ⟨rfl, fun h => absurd rfl h, fun h => absurd rfl h⟩
      · rw [hl.state]
        rfl
      · rw [hl.data hstate]
        rfl
  | snoopInvalidate hstate =>
      refine follows_level1 hm ⟨fun y _ => ?_, fun _ => rfl, by simp [level1Event], fun _ => ?_,
        by simp [level1Event]⟩
        ⟨rfl, fun h => absurd rfl h, fun h => absurd rfl h⟩
      · rw [hl.state]
        rfl
      · rw [hl.data hstate]
        rfl
  | snoopDowngrade hstate =>
      have hshared : MESIState.shared.toByte ≠ MESIState.invalid.toByte := by decide
      refine follows_level1 hm ⟨fun y _ => ?_, fun _ => rfl, fun _ => hshared, fun _ => ?_,
        by simp [level1Event]⟩
        ⟨rfl, fun _ => hl.address hstate, fun _ => rfl⟩
      · rw [hl.state]
        rfl
      · rw [hl.data hstate]
        rfl

theorem L2Rule.follows {c : CoreId} {l : L2Loc} {cell : L2Cell} {type : CacheEventType}
    {address : Addr} {data : Line} (hm : Mirrors p s g)
    (h : L2Rule p l (g.l2 l) type address cell) :
    Follows p s g ((g.setL2 l cell).emit
      (level2Event seq type c l address (g.l2 l).state cell.state (some data))) := by
  have hl := hm.l2 l
  cases h with
  | fill _ hfree hstate =>
      exact follows_level2 hm ⟨fun _ => hl.valid.mpr hfree, by simp [level2Event]⟩
        ⟨toByte_eq_invalid, fun _ => rfl, .inl rfl⟩
  | prefetch _ hfree hstate =>
      exact follows_level2 hm ⟨fun _ => hl.valid.mpr hfree, by simp [level2Event]⟩
        ⟨toByte_eq_invalid, fun _ => rfl, .inl rfl⟩
  | evict hstate =>
      exact follows_level2 hm ⟨by simp [level2Event], fun _ => hl.state.imp_left Eq.symm⟩
        ⟨iff_of_true rfl rfl, fun h => absurd rfl h, .inl rfl⟩

/-- An act moves the shadow state along, or changes an L2 state silently. -/
theorem Act.follows (hm : Mirrors p s g) (h : Act seq p g g') :
    Follows p s g g' ∨ g'.events = g.events ∧ Mirrors p s g' := by
  cases h with
  | level1 _ hrule => exact .inl (hrule.follows hm)
  | level2 _ hrule => exact .inl (hrule.follows hm)
  | @l1iSnoop l address oldState =>
      left
      have hself : g.setL1 l (g.l1d l) = g := by rw [Grid.setL1, Function.update_eq_self]
      conv => arg 4; rw [← hself]
      exact follows_level1 hm ⟨fun y hy => hy, fun h => absurd rfl h, by simp [level1Event],
        by simp [level1Event], by simp [level1Event]⟩ (hm.l1 l)
  | @silentL2 l state hsilent hstate hstate' =>
      refine .inr ⟨rfl, hm.l1, fun l' => ?_, hm.dominant⟩
      simp only [Grid.setL2, Function.update_apply]
      split
      · rename_i heq
        have hl := hm.l2 l
        rw [heq]
        exact ⟨iff_of_false (fun h => hstate (hl.valid.mp h)) hstate', fun _ => hl.address hstate,
          .inr ⟨g.events, [], (List.append_nil _).symm, hsilent, by simp⟩⟩
      · exact hm.l2 l'

theorem Hit.follows {c : CoreId} {k : HitKind} (hm : Mirrors p s g) (h : Hit seq p c g k g') :
    Follows p s g g' := by
  cases h with
  | @l1d l address cell _ hstate htag hstate' hdata =>
      have hl := hm.l1 l
      refine follows_level1 hm ⟨fun y _ => ?_, fun _ => rfl,
        fun _ => mt toByte_eq_invalid.mp hstate', by simp [level1Event], fun _ => ?_⟩
        ⟨rfl, fun _ => ?_, fun _ => rfl⟩
      · rw [hl.state]
        rfl
      · rw [hl.data hstate]
        exact hdata.imp_left (congrArg some)
      · rw [htag]
        exact hl.address hstate
  | @l2 l address hstate =>
      have hl := hm.l2 l
      have hself : g.setL2 l (g.l2 l) = g := by rw [Grid.setL2, Function.update_eq_self]
      have hfollows : Follows p s g ((g.setL2 l (g.l2 l)).emit
          (level2Event seq .l2Hit c l address (g.l2 l).state (g.l2 l).state none)) :=
        follows_level2 hm ⟨by simp [level2Event], fun _ => hl.state.imp_left Eq.symm⟩
          ⟨toByte_eq_invalid, fun _ => hl.address hstate, .inl rfl⟩
      rwa [hself] at hfollows
  | mem =>
      have hlevel : ¬ (3 : BitVec 8) = 1 ∧ ¬ (3 : BitVec 8) = 2 := by decide
      refine ⟨_, _, rfl, .other hlevel.1 hlevel.2,
        (ShadowState.applyEvent_other s hlevel.1 hlevel.2).1, ?_⟩
      obtain ⟨hcells, -, hl2, hl2cells, hdominant⟩ := ShadowState.updateCounters_l1Cell s
        (memFetchEvent seq c _ _) (· + 1)
      refine ⟨fun l => ?_, fun l => ?_, fun i => ?_⟩
      · rw [updateCountersForward, hcells]
        exact hm.l1 l
      · have hl := hm.l2 l
        rw [updateCountersForward, hl2cells]
        exact ⟨hl.valid, hl.address, hl.state.imp_right fun hstale =>
          hstale.concat fun hat => absurd hat.level hlevel.2⟩
      · rw [updateCountersForward, hdominant, hl2]
        exact hm.dominant i

end Steps

end CacheSimulator
