import CacheSimulator.Contract.Statistics
import CacheSimulator.Contract.TraceRange

/-!
# Navigation

Wherever the viewer has gone, and whichever way it came, the cursor is at the end
of a step, the counters count the events up to the cursor, and the dominant state
of a set is the highest one among its ways. A step back undoes a step forwards.
-/

namespace CacheSimulator

open Rewind (Player)

/-! ## What the counters count -/

inductive ShadowCounter where
  | l1dHits
  | l2Hits
  | memFetches
  | snoops
  | prefetches
  deriving DecidableEq, Repr

def ShadowCounters.field (c : ShadowCounters) : ShadowCounter → ℕ
  | .l1dHits => c.l1dHits
  | .l2Hits => c.l2Hits
  | .memFetches => c.memFetches
  | .snoops => c.snoops
  | .prefetches => c.prefetches

def ShadowCounter.counts (k : ShadowCounter) (type : CacheEventType) : Bool :=
  match k with
  | .l1dHits => type == .l1dHit
  | .l2Hits => type == .l2Hit
  | .memFetches => type == .memFetch
  | .snoops => type == .snoopDowngrade || type == .snoopInvalidate
  | .prefetches => type == .prefetchL2

def Event.countedBy (e : Event) (c : CoreId) (k : ShadowCounter) : Bool :=
  e.coreId.toNat == c && k.counts e.type

theorem field_modify (counters : ShadowCounters) (type : CacheEventType) (f : ℕ → ℕ)
    (k : ShadowCounter) : (counters.modify type f).field k =
      if k.counts type then f (counters.field k) else counters.field k := by
  cases k <;> cases type <;> rfl

theorem field_updateCounters (s : ShadowState) (e : Event) (f : ℕ → ℕ) (c : CoreId)
    (k : ShadowCounter) : ((updateCounters s e f).counters c).field k =
      if e.countedBy c k then f ((s.counters c).field k) else (s.counters c).field k := by
  unfold updateCounters Event.countedBy
  split
  · rename_i hcore
    by_cases hc : c = ⟨e.coreId.toNat, hcore⟩
    · subst hc
      simp only [Function.update_self, field_modify, beq_self_eq_true, Bool.true_and]
    · have hval : ¬ e.coreId.toNat = c := fun h => hc (Fin.ext h.symm)
      simp only [Function.update_of_ne hc, beq_false_of_ne hval, Bool.false_and, Bool.false_eq_true,
        if_false]
  · rename_i hcore
    have hval : ¬ e.coreId.toNat = c := fun h => hcore (h ▸ c.isLt)
    simp only [beq_false_of_ne hval, Bool.false_and, Bool.false_eq_true, if_false]

theorem applyEventBackward_counters (s : ShadowState) (e : Event) :
    (applyEventBackward s e).Sat (fun s' => s'.counters = (updateCountersBackward s e).counters)
      fun _ => True := by
  unfold applyEventBackward
  split
  · exact (Except.sat_returned _).bind fun _ _ => (Except.sat_returned _).bind fun _ _ =>
      (Except.sat_returned _).bind fun _ _ => rfl
  · split
    · exact (Except.sat_returned _).bind fun _ _ => (Except.sat_returned _).bind fun _ _ => rfl
    · exact rfl

/-! ## Dominant states -/

def IsMesi (state : Byte) : Prop := state.toNat < 4

instance (state : Byte) : Decidable (IsMesi state) := inferInstanceAs (Decidable (_ < _))

theorem isMesi_toByte (state : MESIState) : IsMesi state.toByte := by
  cases state <;> decide

theorem eq_invalid_of_priority {state : Byte} (h : IsMesi state) (hp : mesiPriority state = 0) :
    state = MESIState.invalid.toByte := by
  have hcases : ∀ b : Byte, b.toNat < 4 → mesiPriority b = 0 → b = MESIState.invalid.toByte := by
    decide
  exact hcases state h hp

/-- The loop keeps the highest priority it has seen, with a state that has it. -/
theorem foldl_dominant (set : ShadowL2) (ways : List (Fin 16)) (best : ℕ × Byte)
    (hbest : best.1 = mesiPriority best.2) :
    let last := ways.foldl (fun (best : ℕ × Byte) w =>
      let p := mesiPriority (set.state w)
      if p > best.1 then (p, set.state w) else best) best
    last.1 = mesiPriority last.2 ∧ best.1 ≤ last.1 ∧
      (∀ w ∈ ways, mesiPriority (set.state w) ≤ last.1) ∧
        (last.2 = best.2 ∨ ∃ w, set.state w = last.2) := by
  induction ways generalizing best with
  | nil => exact ⟨hbest, Nat.le_refl _, by simp, .inl rfl⟩
  | cons w ways ih =>
      dsimp only [List.foldl_cons] at ih ⊢
      split
      · rename_i hgt
        obtain ⟨hlast, hle, hall, hfrom⟩ := ih (mesiPriority (set.state w), set.state w) rfl
        refine ⟨hlast, Nat.le_trans (Nat.le_of_lt hgt) hle,
          List.forall_mem_cons.mpr ⟨hle, hall⟩, .inr ?_⟩
        rcases hfrom with hfrom | hfrom
        · exact ⟨w, hfrom.symm⟩
        · exact hfrom
      · rename_i hle'
        obtain ⟨hlast, hle, hall, hfrom⟩ := ih best hbest
        exact ⟨hlast, hle,
          List.forall_mem_cons.mpr ⟨Nat.le_trans (Nat.not_lt.mp hle') hle, hall⟩, hfrom⟩

/-- The dominant state is the one of a way, and no way has a higher one. -/
theorem dominantState_highest (set : ShadowL2) (h : ∀ w, IsMesi (set.state w)) :
    (∃ w, set.state w = dominantState set) ∧
      ∀ w, mesiPriority (set.state w) ≤ mesiPriority (dominantState set) := by
  obtain ⟨hlast, -, hall, hfrom⟩ := foldl_dominant set (List.finRange 16)
    (0, MESIState.invalid.toByte) rfl
  have hle : ∀ w, mesiPriority (set.state w) ≤ mesiPriority (dominantState set) := fun w => by
    unfold dominantState
    rw [← hlast]
    exact hall w (List.mem_finRange w)
  refine ⟨?_, hle⟩
  rcases hfrom with hinvalid | hway
  · have hzero : dominantState set = MESIState.invalid.toByte := hinvalid
    refine ⟨0, ?_⟩
    rw [hzero]
    refine eq_invalid_of_priority (h 0) (Nat.eq_zero_of_le_zero ?_)
    have hzero' := hle 0
    rwa [hzero] at hzero'
  · exact hway

structure Event.HasStates (e : Event) : Prop where
  old : IsMesi e.oldState
  new : IsMesi e.newState

structure ShadowState.L2Shown (s : ShadowState) : Prop where
  states : ∀ i w, IsMesi ((s.l2 i).state w)
  dominant : ∀ i, s.l2Dominant i = dominantState (s.l2 i)

namespace ShadowState.L2Shown

variable {s s' : ShadowState} {e : Event}

theorem of_eq (h : s.L2Shown) (hl2 : s'.l2 = s.l2) (hdominant : s'.l2Dominant = s.l2Dominant) :
    s'.L2Shown := by
  refine ⟨fun i w => ?_, fun i => ?_⟩
  · rw [hl2]
    exact h.states i w
  · rw [hl2, hdominant]
    exact h.dominant i

theorem recompute {i : Fin 4096} {set : ShadowL2} (h : s.L2Shown)
    (hl2 : s'.l2 = Function.update s.l2 i set) (hdominant : s'.l2Dominant = s.l2Dominant)
    (hset : ∀ w, IsMesi (set.state w)) : (recomputeL2Dominant s' i).L2Shown := by
  refine ⟨fun j w => ?_, fun j => ?_⟩
  · change IsMesi ((s'.l2 j).state w)
    rw [hl2, Function.update_apply]
    split
    · exact hset w
    · exact h.states j w
  · change Function.update s'.l2Dominant i (dominantState (s'.l2 i)) j = dominantState (s'.l2 j)
    by_cases hj : j = i
    · rw [hj, Function.update_self]
    · rw [Function.update_of_ne hj, hdominant, hl2, Function.update_of_ne hj]
      exact h.dominant j

end ShadowState.L2Shown

theorem isMesi_setState {ways : ℕ} {set : ShadowSet ways} {way : Fin ways} {state : Byte}
    (h : ∀ w, IsMesi (set.state w)) (hstate : IsMesi state) :
    ∀ w, IsMesi ((set.setState way state).state w) := by
  intro w
  change IsMesi (Function.update set.state way state w)
  rw [Function.update_apply]
  split
  · exact hstate
  · exact h w

theorem state_setData {ways : ℕ} (set : ShadowSet ways) (way : Fin ways) (data : Option Line) :
    (set.setData way data).state = set.state := by
  cases data <;> rfl

theorem forwardL2_states {set : ShadowL2} {e : Event} (h : ∀ w, IsMesi (set.state w))
    (he : e.HasStates) :
    (forwardL2 set e).Sat (fun set' => ∀ w, IsMesi (set'.state w)) fun _ => True := by
  unfold forwardL2
  cases e.type
  case l2Fill | prefetchL2 =>
    refine (Except.sat_returned _).bind fun way _ => ?_
    rw [Except.sat_ok, state_setData]
    exact isMesi_setState h he.new
  case l2Evict =>
    exact (Except.sat_returned _).bind fun way _ => isMesi_setState h (isMesi_toByte .invalid)
  case l2Hit => exact (Except.sat_returned _).bind fun way _ => isMesi_setState h he.new
  all_goals exact h

theorem backwardL2_states {set : ShadowL2} {e : Event} (h : ∀ w, IsMesi (set.state w))
    (he : e.HasStates) :
    (backwardL2 set e).Sat (fun set' => ∀ w, IsMesi (set'.state w)) fun _ => True := by
  unfold backwardL2
  cases e.type
  case l2Fill | prefetchL2 =>
    exact (Except.sat_returned _).bind fun way _ => isMesi_setState h (isMesi_toByte .invalid)
  case l2Evict =>
    refine (Except.sat_returned _).bind fun way _ => ?_
    rw [Except.sat_ok]
    split
    · rw [state_setData]
      exact isMesi_setState h he.old
    · exact isMesi_setState h he.old
  case l2Hit => exact (Except.sat_returned _).bind fun way _ => isMesi_setState h he.old
  all_goals exact h

theorem applyEventForward_l2Shown {s : ShadowState} {e : Event} (h : s.L2Shown) (he : e.HasStates) :
    (applyEventForward s e).Sat ShadowState.L2Shown fun _ => True := by
  have hcount : (updateCountersForward s e).l2 = s.l2 ∧
      (updateCountersForward s e).l2Dominant = s.l2Dominant :=
    ⟨(s.updateCounters_l1Cell e _).2.2.1, (s.updateCounters_l1Cell e _).2.2.2.2⟩
  have hcounted := h.of_eq hcount.1 hcount.2
  unfold applyEventForward
  split
  · refine (Except.sat_returned _).bind fun _ _ => (Except.sat_returned _).bind fun _ _ =>
      (Except.sat_returned _).bind fun _ _ => hcounted.of_eq rfl rfl
  · split
    · refine (Except.sat_returned _).bind fun i _ =>
        (forwardL2_states (hcounted.states i) he).bind fun set hset => ?_
      split
      · exact (Except.sat_returned _).bind fun _ _ => hcounted.recompute rfl rfl hset
      · exact hcounted.recompute rfl rfl hset
    · exact hcounted

theorem applyEventBackward_l2Shown {s : ShadowState} {e : Event} (h : s.L2Shown)
    (he : e.HasStates) :
    (applyEventBackward s e).Sat ShadowState.L2Shown fun _ => True := by
  have hcount : (updateCountersBackward s e).l2 = s.l2 ∧
      (updateCountersBackward s e).l2Dominant = s.l2Dominant :=
    ⟨(s.updateCounters_l1Cell e _).2.2.1, (s.updateCounters_l1Cell e _).2.2.2.2⟩
  have hcounted := h.of_eq hcount.1 hcount.2
  unfold applyEventBackward
  split
  · refine (Except.sat_returned _).bind fun _ _ => (Except.sat_returned _).bind fun _ _ =>
      (Except.sat_returned _).bind fun _ _ => hcounted.of_eq rfl rfl
  · split
    · exact (Except.sat_returned _).bind fun i _ =>
        (backwardL2_states (hcounted.states i) he).bind fun set hset =>
          hcounted.recompute rfl rfl hset
    · exact hcounted

/-! ## One event -/

structure Shown (past : List Event) (s : ShadowState) : Prop where
  counters : ∀ c k, (s.counters c).field k = past.countP (·.countedBy c k)
  l2 : s.L2Shown

theorem shown_zero : Shown [] .zero := by
  refine ⟨fun c k => ?_, fun _ _ => isMesi_toByte .invalid, fun _ => rfl⟩
  cases k <;> rfl

theorem Shown.forward {past : List Event} {s : ShadowState} {e : Event} (h : Shown past s)
    (hrange : e.InRange) (hstates : e.HasStates) :
    (applyEventForward s e).Sat (Shown (past ++ [e])) fun _ => False := by
  refine (((applyEventForward_sat s e).and (applyEventForward_counters s e)).and
    (applyEventForward_l2Shown h.l2 hstates)).mono (fun s' hs' => ⟨fun c k => ?_, hs'.2⟩)
      fun _ hf => hf.1.1 hrange
  rw [hs'.1.2, updateCountersForward, field_updateCounters, h.counters, List.countP_append,
    List.countP_singleton]
  split <;> rfl

theorem Shown.backward {past : List Event} {s : ShadowState} {e : Event} (h : Shown (past ++ [e]) s)
    (hrange : e.InRange) (hstates : e.HasStates) :
    (applyEventBackward s e).Sat (Shown past) fun _ => False := by
  refine (((applyEventBackward_sat s e).and (applyEventBackward_counters s e)).and
    (applyEventBackward_l2Shown h.l2 hstates)).mono (fun s' hs' => ⟨fun c k => ?_, hs'.2⟩)
      fun _ hf => hf.1.1 hrange
  rw [hs'.1.2, updateCountersBackward, field_updateCounters, h.counters, List.countP_append,
    List.countP_singleton]
  split
  · exact Nat.add_sub_cancel _ _
  · rfl

/-! ## The sequence number -/

/-- `current_seq` is the number of the event at the cursor, or 0. -/
def Renderer.SeqShown (r : Renderer) : Prop :=
  match r.cursor with
  | none => r.currentSeq = 0
  | some n => ∃ node, r.queue.node n = .ok node ∧ r.currentSeq = node.event.seq

theorem forwardWhile_seq (queue : EventQueue) (seq : BitVec 32) (fuel cursor : ℕ)
    (shadow : ShadowState) :
    (forwardWhile queue seq fuel cursor shadow).Sat
      (fun r => r.1 = cursor ∨ ∃ node, queue.node r.1 = .ok node ∧ seq = node.event.seq)
      fun _ => True := by
  induction fuel generalizing cursor shadow with
  | zero => exact .inl rfl
  | succ fuel ih =>
      refine (Except.sat_returned _).bind fun node _ => ?_
      split
      · exact .inl rfl
      · rename_i next _
        refine (Except.sat_returned _).bind fun nextNode hnext => ?_
        split
        · rename_i hseq
          refine (Except.sat_returned _).bind fun shadow' _ =>
            (ih next shadow').imp fun r hr => .inr ?_
          rcases hr with hr | hr
          · exact ⟨nextNode, hr ▸ hnext, hseq.symm⟩
          · exact hr
        · exact .inl rfl

theorem forwardWhile_seq_next {queue : EventQueue} {fuel cursor next : ℕ}
    {node nextNode : EventNode}
    (hfuel : 0 < fuel) (hnode : queue.node cursor = .ok node) (hnext : node.next = some next)
    (hnextNode : queue.node next = .ok nextNode) (shadow : ShadowState) :
    (forwardWhile queue nextNode.event.seq fuel cursor shadow).Sat
      (fun r => ∃ node, queue.node r.1 = .ok node ∧ nextNode.event.seq = node.event.seq)
      fun _ => True := by
  obtain ⟨fuel, rfl⟩ : ∃ m, fuel = m + 1 := ⟨fuel - 1, by omega⟩
  rw [forwardWhile, hnode]
  simp only [Except.ok_bind, hnext, hnextNode, if_true]
  refine (Except.sat_returned _).bind fun shadow' _ =>
    (forwardWhile_seq queue _ fuel next shadow').imp fun r hr => ?_
  rcases hr with hr | hr
  · exact ⟨nextNode, hr ▸ hnextNode, rfl⟩
  · exact hr

theorem EventQueue.node_lt {queue : EventQueue} {n : ℕ} {node : EventNode}
    (h : queue.node n = .ok node) : n < queue.nodes.length := by
  unfold EventQueue.node at h
  split at h
  · rename_i hget
    exact (List.getElem?_eq_some_iff.mp hget).1
  · cases h

theorem stepForward_seqShown {r : Renderer} (h : r.SeqShown) :
    (stepForward r).Sat Renderer.SeqShown fun _ => True := by
  unfold stepForward
  split
  · split
    · exact h
    · rename_i first _
      refine (Except.sat_returned _).bind fun node hnode =>
        (Except.sat_returned _).bind fun shadow _ =>
        (forwardWhile_seq r.queue _ _ first shadow).bind fun last hlast => ?_
      rcases hlast with hlast | hlast
      · exact ⟨node, hlast ▸ hnode, rfl⟩
      · exact hlast
  · rename_i cursor _
    refine (Except.sat_returned _).bind fun node hnode => ?_
    split
    · exact h
    · rename_i next hnext
      refine (Except.sat_returned _).bind fun nextNode hnextNode => ?_
      have hfuel : 0 < r.queue.nodes.length := Nat.zero_lt_of_lt (EventQueue.node_lt hnode)
      have hloop := forwardWhile_seq_next hfuel hnode hnext hnextNode r.shadow
      exact hloop.bind fun last hlast => hlast

theorem stepBackward_seqShown {r : Renderer} (h : r.SeqShown) :
    (stepBackward r).Sat Renderer.SeqShown fun _ => True := by
  unfold stepBackward
  split
  · exact h
  · refine (Except.sat_returned _).bind fun node _ => (Except.sat_returned _).bind fun last _ => ?_
    obtain ⟨cursor, shadow⟩ := last
    cases cursor with
    | some n =>
        refine (Except.sat_returned (r.queue.node n)).bind fun node hnode => ?_
        exact ⟨node, hnode, rfl⟩
    | none => exact rfl

/-! ## Every sequence of moves -/

section Moves

variable {queue : EventQueue} {events : List Event} {r : Renderer}

/-- The invariant of the moves: the renderer is a player between two steps. -/
def Renderer.Navigates (events : List Event) (r : Renderer) : Prop :=
  r.SeqShown ∧ ∃ p : Player Event ShadowState, r.Represents events p ∧
    p.AtBoundary Event.seq ∧ Shown p.past p.state

theorem Renderer.navigates_init (h : queue.Linked events) :
    (Renderer.init queue).Navigates events := by
  refine ⟨rfl, ⟨[], events, .zero⟩, Renderer.represents_init h, ?_, shown_zero⟩
  intro x hx
  cases hx

/-- One move, as a step of the player. -/
theorem Renderer.Represents.move_sat {p : Player Event ShadowState} (h : r.Represents events p)
    (hseq : r.SeqShown) (hshown : Shown p.past p.state) (hrange : ∀ e ∈ events, e.InRange)
    (hstates : ∀ e ∈ events, e.HasStates) (m : Move) :
    (r.move m).Sat (fun r' => r'.SeqShown ∧ ∃ p', r'.Represents events p' ∧
      (match m with
        | .stepForward => p.forward Event.seq applyEventForward
        | .stepBackward => p.backward Event.seq applyEventBackward) = .ok p' ∧
        p'.AtBoundary Event.seq ∧ Shown p'.past p'.state) fun _ => False := by
  have hmem : ∀ (pre : List Event) e, pre ++ [e] <+: events → e ∈ events := fun pre e hpre =>
    hpre.subset (by simp)
  cases m with
  | stepForward =>
      have hplay := Player.forward_sat Event.seq applyEventForward (F := fun _ => False)
        ⟨h.events, hshown⟩ fun pre e s hpre hs => hs.forward (hrange e (hmem pre e hpre))
          (hstates e (hmem pre e hpre))
      have hsat := h.stepForward.sat (Except.sat_iff.mpr
        ⟨fun p' hp' => And.intro hp' (hplay.of_eq_ok hp'), fun _ he => hplay.of_eq_error he⟩)
      refine (hsat.and (stepForward_seqShown hseq)).mono (fun r' hr' => ⟨hr'.2, ?_⟩)
        fun _ he => he.1
      obtain ⟨p', hp', hstep, hat⟩ := hr'.1
      exact ⟨p', hp', hstep, Player.atBoundary_forward hstep, hat.good⟩
  | stepBackward =>
      have hplay := Player.backward_sat Event.seq applyEventBackward (F := fun _ => False)
        ⟨h.events, hshown⟩ fun pre e s hpre _ hs => hs.backward (hrange e (hmem pre e hpre))
          (hstates e (hmem pre e hpre))
      have hsat := h.stepBackward.sat (Except.sat_iff.mpr
        ⟨fun p' hp' => And.intro hp' (hplay.of_eq_ok hp'), fun _ he => hplay.of_eq_error he⟩)
      refine (hsat.and (stepBackward_seqShown hseq)).mono (fun r' hr' => ⟨hr'.2, ?_⟩)
        fun _ he => he.1
      obtain ⟨p', hp', hstep, hat⟩ := hr'.1
      exact ⟨p', hp', hstep, Player.atBoundary_backward hstep, hat.good⟩

theorem Renderer.Navigates.move_sat (h : r.Navigates events) (hrange : ∀ e ∈ events, e.InRange)
    (hstates : ∀ e ∈ events, e.HasStates) (m : Move) :
    (r.move m).Sat (Renderer.Navigates events) fun _ => False := by
  obtain ⟨hseq, p, hp, -, hshown⟩ := h
  refine (hp.move_sat hseq hshown hrange hstates m).imp fun r' hr' => ?_
  obtain ⟨hseq', p', hp', -, hboundary, hshown'⟩ := hr'
  exact ⟨hseq', p', hp', hboundary, hshown'⟩

theorem Renderer.Navigates.moves_sat (h : r.Navigates events) (hrange : ∀ e ∈ events, e.InRange)
    (hstates : ∀ e ∈ events, e.HasStates) (moves : List Move) :
    (moves.foldlM Renderer.move r).Sat (Renderer.Navigates events) fun _ => False := by
  induction moves generalizing r with
  | nil => exact h
  | cons m moves ih =>
      rw [List.foldlM_cons]
      exact (h.move_sat hrange hstates m).bind fun r' hr' => ih hr'

/-- A move that has moved the cursor is undone by the opposite one. -/
theorem Renderer.Navigates.move_back (h : r.Navigates events) (hrange : ∀ e ∈ events, e.InRange)
    (hstates : ∀ e ∈ events, e.HasStates) {r' : Renderer} {m m' : Move} (hm : m ≠ m')
    (hmove : r.move m = .ok r') (hmoved : r'.cursor ≠ r.cursor) :
    ∃ r'', r'.move m' = .ok r'' ∧ r''.cursor = r.cursor := by
  obtain ⟨hseq, p, hp, hboundary, hshown⟩ := h
  obtain ⟨hseq', p', hp', hstep, -, hshown'⟩ :=
    (hp.move_sat hseq hshown hrange hstates m).of_eq_ok hmove
  obtain ⟨r'', hr'', -, p'', hp'', hstep', -⟩ :=
    (hp'.move_sat hseq' hshown' hrange hstates m').exists_ok
  refine ⟨r'', hr'', ?_⟩
  rw [hp'.cursor, hp.cursor] at hmoved
  rw [hp''.cursor, hp.cursor]
  cases m with
  | stepForward =>
      cases m' with
      | stepForward => exact absurd rfl hm
      | stepBackward =>
          have hfuture : p.future ≠ [] := by
            intro hnil
            have hpast := (Player.past_forward Event.seq hstep).1
            rw [hnil] at hpast
            exact hmoved (by rw [hpast]; simp [Rewind.firstStep])
          rw [hboundary.backward_forward hstep hfuture hstep']
  | stepBackward =>
      cases m' with
      | stepForward =>
          have hpast : p.past ≠ [] := by
            intro hnil
            have hpast := (Player.past_backward Event.seq hstep).1
            rw [hnil] at hpast
            exact hmoved (by rw [hpast, hnil, List.take_nil])
          rw [hboundary.forward_backward hstep hpast hstep']
      | stepBackward => exact absurd rfl hm

/-- What the viewer shows at any time. -/
structure Renderer.Consistent (r : Renderer) (events : List Event) : Prop where
  /-- The cursor is at the last event of a step, and `current_seq` is its number. -/
  cursor : match r.cursor with
    | none => r.currentSeq = 0
    | some n => ∃ e, events[n]? = some e ∧ r.currentSeq = e.seq ∧
        ∀ next, events[n + 1]? = some next → next.seq ≠ e.seq
  counters : ∀ c k, (r.shadow.counters c).field k = (events.take r.played).countP (·.countedBy c k)
  dominant : ∀ i, (∃ w, (r.shadow.l2 i).state w = r.shadow.l2Dominant i) ∧
    ∀ w, mesiPriority ((r.shadow.l2 i).state w) ≤ mesiPriority (r.shadow.l2Dominant i)

theorem Renderer.Navigates.consistent (h : r.Navigates events) : r.Consistent events := by
  obtain ⟨hseq, p, hp, hboundary, hshown⟩ := h
  have hevents := hp.events
  refine ⟨?_, fun c k => ?_, fun i => ?_⟩
  · unfold Renderer.SeqShown at hseq
    rw [hp.cursor] at hseq ⊢
    rcases List.eq_nil_or_concat' p.past with hnil | ⟨past, e, hpast⟩
    · rw [hnil] at hseq ⊢
      exact hseq
    · have hlinked := hp.linked
      have hlength : p.past.length = past.length + 1 := by simp [hpast]
      rw [hpast, List.append_assoc, List.singleton_append] at hevents
      rw [← hevents] at hlinked
      rw [hlength, cursorAt] at hseq ⊢
      obtain ⟨node, hnode, hcurrent⟩ := hseq
      rw [hlinked.node, Except.ok.injEq] at hnode
      subst hnode
      refine ⟨e, ?_, hcurrent, fun next hnext heq => ?_⟩
      · rw [← hevents, List.getElem?_append_right (Nat.le_refl _), Nat.sub_self]
        rfl
      · have hhead : p.future.head? = some next := by
          rw [← hevents, List.getElem?_append_right (Nat.le_succ _), Nat.succ_sub (Nat.le_refl _),
            Nat.sub_self, List.getElem?_cons_succ] at hnext
          rwa [List.head?_eq_getElem?]
        exact hboundary e (by simp [hpast]) next hhead heq.symm
  · rw [hp.shadow, hp.played, ← hevents, List.take_left]
    exact hshown.counters c k
  · rw [hp.shadow, hshown.l2.dominant i]
    exact dominantState_highest _ (hshown.l2.states i)

/-- Whatever the moves, the viewer is consistent with its place in the queue, and
the opposite move takes it back. -/
theorem navigation_pathIndependent (hqueue : queue.Linked events) (hrange : ∀ e ∈ events, e.InRange)
    (hstates : ∀ e ∈ events, e.HasStates) (moves : List Move) :
    ∃ r, moves.foldlM Renderer.move (Renderer.init queue) = .ok r ∧ r.Consistent events ∧
      ∀ m m', m ≠ m' → ∃ r', r.move m = .ok r' ∧
        (r'.cursor ≠ r.cursor → ∃ r'', r'.move m' = .ok r'' ∧ r''.cursor = r.cursor) := by
  obtain ⟨r, hr, hnavigates⟩ :=
    ((Renderer.navigates_init hqueue).moves_sat hrange hstates moves).exists_ok
  refine ⟨r, hr, hnavigates.consistent, fun m m' hm => ?_⟩
  obtain ⟨r', hr', -⟩ := (hnavigates.move_sat hrange hstates m).exists_ok
  exact ⟨r', hr', hnavigates.move_back hrange hstates hm hr'⟩

end Moves

/-- A fill in a queue whose sequence numbers go down and repeat. -/
def zigzagEvents : List Event :=
  [⟨0x1000#64, 7, 64, 0, 0, .l2Fill, 0, 2, 2, none⟩,
    ⟨0x1000#64, 3, 0, 0, 0, .l1dFill, 0, 2, 1, none⟩,
    ⟨0x1000#64, 7, 64, 0, 1, .l2Hit, 2, 3, 2, none⟩]

theorem navigation_pathIndependent_zigzag :
    ∃ r, [Move.stepForward, .stepForward, .stepBackward, .stepForward].foldlM Renderer.move
        (Renderer.init (zigzagEvents.foldl EventQueue.push EventQueue.empty)) = .ok r ∧
      r.Consistent zigzagEvents := by
  have hqueue := EventQueue.linked_empty.foldl_push zigzagEvents
  rw [List.nil_append] at hqueue
  have hstates : ∀ e ∈ zigzagEvents, IsMesi e.oldState ∧ IsMesi e.newState := by decide
  obtain ⟨r, hr, hconsistent, -⟩ := navigation_pathIndependent hqueue (by decide)
    (fun e he => ⟨(hstates e he).1, (hstates e he).2⟩)
    [.stepForward, .stepForward, .stepBackward, .stepForward]
  exact ⟨r, hr, hconsistent⟩

end CacheSimulator
