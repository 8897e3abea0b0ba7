import CacheSimulator.Contract.Steps
import CacheSimulator.Contract.Picture
import CacheSimulator.Replay.Agreement

/-!
# Rewinding

`step_backward` undoes an event as far as the event tells. The L1D states always
come back. Bytes come back unless it takes back a hit that has changed them, or an
invalidation after which the way has been filled with other ones. L2 states come
back unless it takes back the next event about a way whose state a call has changed
without one.
-/

namespace CacheSimulator

open Sim
open Rewind (nextFrom nextFrom_of_isPrefix nextFrom_append nextFrom_congr exists_of_nextFrom)

variable {s₀ : Sim} {trace : List CallRecord}

/-! ## The L1D states -/

theorem forwardL1Cell_state (x y : ShadowCell) (h : x.state = y.state) (e : Event) :
    (forwardL1Cell x e).state = (forwardL1Cell y e).state := by
  unfold forwardL1Cell
  split
  · rfl
  · rfl
  · rfl
  · rfl
  · rfl
  · exact h

def SameL1States (s t : ShadowState) : Prop :=
  ∀ c i w, (s.l1d c i).state w = (t.l1d c i).state w

/-- Wherever the viewer goes, it shows the L1D states of the replay. -/
theorem Run.rewind_l1States {s : Sim} {queue : EventQueue} (h₀ : s₀.EmptyCaches)
    (hr : s₀.Recording) (h : Run (fun call _ => call.IsData) s₀ trace s)
    (hqueue : queue.Linked s.events) (moves : List Move) :
    (moves.foldlM Renderer.move (.init queue)).Sat (Renderer.AgreesOn SameL1States s.events)
      fun _ => False := by
  refine ((h.replays_data h₀ hr).rewind
    (R := fun _ _ => AgreeL1 fun _ x y => x.state = y.state) hqueue (fun _ => rfl)
    (fun top pre s t t' e _ hfits ht' hs => ?_)
    fun top pre s t t' e _ hfits ht' _ _ _ hs => ?_).imp fun r hr => ?_
  · exact hs.redo hfits ht' (fun l x y _ _ hxy => forwardL1Cell_state x y hxy e)
      fun _ _ _ _ hxy => hxy
  · exact hs.undo hfits ht' (fun l x _ hfit hx => hfit.state x hx) fun _ _ _ _ hxy => hxy
  · obtain ⟨top, hr⟩ := hr
    exact hr.imp fun s t hagree c i w => hagree (c, i, w)

theorem rewind_l1States_conflict : ∃ calls s queue r,
    Run (fun call _ => call.IsData) (conflictMachine true) calls s ∧ queue.Linked s.events ∧
      [Move.stepForward, .stepForward, .stepForward, .stepBackward, .stepBackward].foldlM
        Renderer.move (.init queue) = .ok r ∧ r.AgreesOn SameL1States s.events := by
  have hexec : (runTurns (Turn.each sharedStoreCalls) (.start (conflictMachine true))).isSome := by
    decide +kernel
  obtain ⟨⟨trace, sys⟩, hturns⟩ := Option.isSome_iff_exists.mp hexec
  obtain ⟨⟨calls, hrun⟩, hqueue⟩ :=
    recorded_of_runTurns (Sim.initial_emptyCaches _ _ _) ⟨rfl, rfl⟩ hturns
  obtain ⟨r, hr⟩ := (hrun.rewind_l1States (Sim.initial_emptyCaches _ _ _) ⟨rfl, rfl⟩ hqueue
    [.stepForward, .stepForward, .stepForward, .stepBackward, .stepBackward]).exists_ok
  exact ⟨calls, sys.sim, sys.queue, r, hrun, hqueue, hr⟩

/-! ## The next event taken back -/

/-- The moves do not take back the next event that satisfies `P`, from number `n` on. -/
def KeepsNext (P : Event → Prop) [DecidablePred P] (events : List Event) (moves : List Move)
    (n : ℕ) : Prop :=
  ∀ x ∈ takenBack events moves 0 0, nextFrom P events n ≠ some x.1

instance (P : Event → Prop) [DecidablePred P] (events : List Event) (moves : List Move) (n : ℕ) :
    Decidable (KeepsNext P events moves n) :=
  inferInstanceAs (Decidable (∀ x ∈ takenBack events moves 0 0, _))

namespace KeepsNext

variable {P : Event → Prop} [DecidablePred P] {events pre added : List Event} {moves : List Move}
  {e : Event} {n top : ℕ}

theorem append (h : KeepsNext P events moves pre.length) (hpre : pre ++ added <+: events)
    (hadded : ∀ x ∈ added, ¬P x) : KeepsNext P events moves (pre ++ added).length := by
  unfold KeepsNext
  rwa [nextFrom_append hpre hadded]

theorem not_takenBack (h : KeepsNext P events moves pre.length) (hpre : pre ++ [e] <+: events)
    (he : P e) : (pre.length, top) ∉ takenBack events moves 0 0 := by
  intro hmem
  refine h _ hmem ?_
  rw [nextFrom_of_isPrefix hpre, if_pos he]

/-- The next event stays when no event like it from number `n` on is taken back. -/
theorem of_forall (h : ∀ x ∈ takenBack events moves 0 0, n ≤ x.1 → ∀ e, events[x.1]? = some e →
    ¬P e) : KeepsNext P events moves n := by
  intro x hx hnext
  obtain ⟨hle, e, he, hP⟩ := exists_of_nextFrom hnext
  exact h x hx hle e he hP

end KeepsNext

/-! ## The L1D bytes -/

/-- The two events are about the same way. -/
def Event.SameWay (e e' : Event) : Prop :=
  e'.cacheLevel = e.cacheLevel ∧ e'.coreId = e.coreId ∧ e'.setIndex = e.setIndex ∧ e'.way = e.way

instance (e e' : Event) : Decidable (e.SameWay e') := inferInstanceAs (Decidable (_ ∧ _ ∧ _ ∧ _))

theorem Event.AtL1.sameWay {e : Event} {l : L1Loc} (h : e.AtL1 l) (e' : Event) :
    e.SameWay e' ↔ e'.AtL1 l :=
  ⟨fun hsame => ⟨hsame.1.trans h.level, hsame.2.1.trans h.core, hsame.2.2.1.trans h.set,
    hsame.2.2.2.trans h.way⟩,
    fun h' => ⟨h'.level.trans h.level.symm, h'.core.trans h.core.symm, h'.set.trans h.set.symm,
      h'.way.trans h.way.symm⟩⟩

/-- Event `j` invalidates a way, and of the first `top` events one fills the way next
with other bytes than it had. -/
def Refilled (events : List Event) (j top : ℕ) : Prop :=
  ∃ e ∈ events[j]?, e.type = .snoopInvalidate ∧
    ∃ k ∈ nextFrom (fun x => x.type = .l1dFill ∧ e.SameWay x) events (j + 1),
      k < top ∧ ∃ x ∈ events[k]?, x.data ≠ e.data

instance (events : List Event) (j top : ℕ) : Decidable (Refilled events j top) :=
  @Call.decidableExistsMem _ _ (fun _ => @instDecidableAnd _ _ inferInstance
    (@Call.decidableExistsMem _ _ (fun _ => @instDecidableAnd _ _ inferInstance
      (Call.decidableExistsMem _)) _)) _

def Event.Fills (e : Event) (l : L1Loc) : Prop := e.type = .l1dFill ∧ e.AtL1 l

instance (e : Event) (l : L1Loc) : Decidable (e.Fills l) := inferInstanceAs (Decidable (_ ∧ _))

/-- The ways have one state. They have one content too, but when the way is free and
one of the first `top` events has filled it after event `n`: then it shows what the
first one did. -/
structure SameL1Cell (events : List Event) (top n : ℕ) (l : L1Loc) (x y : ShadowCell) : Prop where
  state : x.state = y.state
  data : x.data = y.data ∨ x.state = MESIState.invalid.toByte ∧
    ∃ k ∈ nextFrom (fun e => e.Fills l) events n, k < top ∧
      ∃ e ∈ events[k]?, e.data = some x.data

theorem getD_eq_getD {data : Option Line} (h : data.isSome = true) (a b : Line) :
    data.getD a = data.getD b := by
  obtain ⟨line, rfl⟩ := Option.isSome_iff_exists.mp h
  rfl

section Bytes

variable {stores : Prop} {events pre : List Event} {top : ℕ} {l : L1Loc} {x y : ShadowCell}
  {e : Event}

theorem nextFrom_fills (hpre : pre ++ [e] <+: events) (he : ¬e.Fills l) :
    nextFrom (fun e => e.Fills l) events pre.length =
      nextFrom (fun e => e.Fills l) events (pre.length + 1) := by
  rw [nextFrom_of_isPrefix hpre, if_neg he]

theorem getElem?_of_isPrefix (hpre : pre ++ [e] <+: events) : events[pre.length]? = some e := by
  obtain ⟨rest, rfl⟩ := hpre
  simp

theorem SameL1Cell.frame_forward (hpre : pre ++ [e] <+: events) (he : ¬e.Fills l)
    (h : SameL1Cell events top pre.length l x y) :
    SameL1Cell events (max top (pre.length + 1)) (pre.length + 1) l x y := by
  refine ⟨h.state, h.data.imp_right fun ⟨hinvalid, k, hk, hlt, hdata⟩ => ⟨hinvalid, k, ?_, ?_⟩⟩
  · rwa [← nextFrom_fills hpre he]
  · exact ⟨Nat.lt_of_lt_of_le hlt (Nat.le_max_left _ _), hdata⟩

theorem SameL1Cell.frame_backward (hpre : pre ++ [e] <+: events) (he : ¬e.Fills l)
    (h : SameL1Cell events top (pre.length + 1) l x y) :
    SameL1Cell events top pre.length l x y := by
  refine ⟨h.state, h.data.imp_right fun ⟨hinvalid, k, hk, hrest⟩ => ⟨hinvalid, k, ?_, hrest⟩⟩
  rwa [nextFrom_fills hpre he]

theorem SameL1Cell.forward (hpre : pre ++ [e] <+: events) (hfits : FitsL1 stores y e)
    (h : SameL1Cell events top pre.length l x y) :
    SameL1Cell events (max top (pre.length + 1)) (pre.length + 1) l (forwardL1Cell x e)
      (forwardL1Cell y e) := by
  refine ⟨forwardL1Cell_state x y h.state e, ?_⟩
  have hpayload := hfits.payload
  have hframe := fun htype : e.type ≠ .l1dFill =>
    (h.frame_forward hpre fun hfills => htype hfills.1).data
  unfold forwardL1Cell
  cases htype : e.type <;> simp only [htype] at hpayload hframe ⊢
  case l1dFill => exact .inl (getD_eq_getD (hpayload (by decide)) _ _)
  case l1dHit => exact .inl (getD_eq_getD (hpayload (by decide)) _ _)
  case snoopDowngrade => exact .inl (getD_eq_getD (hpayload (by decide)) _ _)
  case l1dEvict => exact (hframe (by decide)).imp_right fun hdata => ⟨trivial, hdata.2⟩
  case snoopInvalidate => exact (hframe (by decide)).imp_right fun hdata => ⟨trivial, hdata.2⟩
  all_goals exact hframe (by simp)

theorem SameL1Cell.data_of_not_refilled (hpre : pre ++ [e] <+: events) (he : e.AtL1 l)
    (htype : e.type = .snoopInvalidate) (hold : e.data = some y.data)
    (hrefilled : ¬Refilled events pre.length top)
    (h : SameL1Cell events top (pre.length + 1) l x (forwardL1Cell y e)) : x.data = y.data := by
  rcases h.data with hdata | ⟨-, k, hk, hlt, z, hz, hdata⟩
  · rw [hdata, forwardL1Cell, htype]
  · have hnext : nextFrom (fun x => x.type = .l1dFill ∧ e.SameWay x) events (pre.length + 1) =
        nextFrom (fun e => e.Fills l) events (pre.length + 1) :=
      nextFrom_congr fun x => and_congr_right fun _ => he.sameWay x
    have hsame : z.data = e.data := by
      by_contra hne
      exact hrefilled ⟨e, getElem?_of_isPrefix hpre, htype, k, hnext ▸ hk, hlt, z, hz, hne⟩
    exact Option.some.inj (hdata.symm.trans (hsame.trans hold))

theorem SameL1Cell.backward (hpre : pre ++ [e] <+: events) (he : e.AtL1 l)
    (hfits : FitsL1 stores y e) (hstores : e.type = .l1dHit → ¬stores)
    (hrefilled : ¬Refilled events pre.length top) (hlt : pre.length < top)
    (h : SameL1Cell events top (pre.length + 1) l x (forwardL1Cell y e)) :
    SameL1Cell events top pre.length l (backwardL1Cell x e) y := by
  refine ⟨hfits.state x h.state, ?_⟩
  have hpayload := hfits.payload
  have hsnapshot := hfits.snapshot
  have hvalid := hfits.valid
  have hhit := hfits.hit
  have hframe := fun htype : e.type ≠ .l1dFill =>
    (h.frame_backward hpre fun hfills => htype hfills.1).data
  have hstate := h.state
  have hdata := h.data
  have hinvalidate : e.type = .snoopInvalidate → x.data = y.data := fun htype =>
    h.data_of_not_refilled hpre he htype (hsnapshot (.inr (.inl htype))) hrefilled
  have hfill : e.type = .l1dFill → nextFrom (fun e => e.Fills l) events pre.length =
      some pre.length := fun htype => by
    rw [nextFrom_of_isPrefix hpre, if_pos ⟨htype, he⟩]
  unfold forwardL1Cell at hstate hdata hframe
  unfold backwardL1Cell
  cases htype : e.type <;> simp only [htype] at *
  case l1dFill =>
    -- the fill taken back is the next one
    obtain ⟨line, hline⟩ := Option.isSome_iff_exists.mp (hpayload (by decide))
    have hx := hdata.resolve_right fun hfree => hvalid (.inl trivial) (hstate ▸ hfree.1)
    refine .inr ⟨trivial, _, hfill trivial, hlt, e, getElem?_of_isPrefix hpre, ?_⟩
    rw [hx, hline, Option.getD_some]
  case l1dEvict =>
    rw [hsnapshot (.inl trivial)]
    exact .inl rfl
  case snoopInvalidate => exact .inl (hinvalidate trivial)
  case snoopDowngrade =>
    have hx := hdata.resolve_right fun hfree => hvalid (.inr (.inr trivial)) (hstate ▸ hfree.1)
    rw [hsnapshot (.inr (.inr trivial))] at hx
    exact .inl hx
  case l1dHit =>
    have hx := hdata.resolve_right fun hfree => hvalid (.inr (.inl trivial)) (hstate ▸ hfree.1)
    rw [(hhit trivial).resolve_right (hstores trivial)] at hx
    exact .inl hx
  all_goals exact hframe (by simp)

end Bytes

def SameL1Bytes (s t : ShadowState) : Prop :=
  ∀ c i w, (s.l1d c i).state w ≠ MESIState.invalid.toByte →
    (s.l1d c i).data w = (t.l1d c i).data w

/-- The call does not change the bytes of its line in L1D, or the moves do not take its
hit back. -/
def Call.KeepsBytes (events : List Event) (moves : List Move) (call : Call) (s : Sim) : Prop :=
  call.ChangesL1Line s → KeepsNext (fun e => e.type = .l1dHit) events moves s.events.length

instance (events : List Event) (moves : List Move) (call : Call) (s : Sim) :
    Decidable (call.KeepsBytes events moves s) :=
  inferInstanceAs (Decidable (_ → _))

/-- Hits may change bytes when the moves do not take them back. -/
def bytesPermit (events : List Event) (moves : List Move) : Permit :=
  { dataPermit True with
    stores := fun pre => pre <+: events →
      KeepsNext (fun e => e.type = .l1dHit) events moves pre.length }

theorem bytesPermit_allows {events : List Event} {moves : List Move} {call : Call} {s : Sim}
    (h : call.KeepsBytes events moves s) : (bytesPermit events moves).Allows call s where
  isOpen := ⟨trivial, fun _ _ => trivial, fun _ => trivial⟩
  silent _ _ _ _ _ _ := trivial
  stores hchanges _ hadded hpre := (h hchanges).append hpre hadded

/-- The bytes come back when no call changes the bytes of a line by a hit that is taken
back, and no invalidation taken back is of a way that has been filled with others. -/
theorem Run.rewind_l1Bytes {s : Sim} {queue : EventQueue} {moves : List Move}
    (h₀ : s₀.EmptyCaches) (hr : s₀.Recording)
    (h : Run (fun call t => call.IsData ∧ call.KeepsBytes s.events moves t) s₀ trace s)
    (hqueue : queue.Linked s.events)
    (hmoves : ∀ x ∈ takenBack s.events moves 0 0, ¬Refilled s.events x.1 x.2) :
    (moves.foldlM Renderer.move (.init queue)).Sat (Renderer.AgreesOn SameL1Bytes s.events)
      fun _ => False := by
  have hreplays : s.grid.Replays (bytesPermit s.events moves) :=
    h.replays h₀ hr fun call t hcall => ⟨hcall.1, bytesPermit_allows hcall.2⟩
  refine (hreplays.rewind
    (R := fun top pre => AgreeL1 (SameL1Cell s.events top pre.length)) hqueue
    (fun _ => ⟨rfl, .inl rfl⟩) (fun top pre u t t' e hpre hfits ht' hu => ?_)
    fun top pre u t t' e hpre hfits ht' _ htaken hlt hu => ?_).imp fun r hr => ?_
  · rw [List.length_append, List.length_singleton]
    exact hu.redo hfits ht' (fun l x y _ hfit hxy => hxy.forward hpre hfit)
      fun l x y hat hxy => hxy.frame_forward hpre fun hfills => hat hfills.2
  · rw [List.length_append, List.length_singleton] at hu
    have hstores : e.type = .l1dHit → ¬(bytesPermit s.events moves).stores pre :=
      fun htype hkeeps => (hkeeps ((List.prefix_append _ _).trans hpre)).not_takenBack hpre htype
        htaken
    exact hu.undo hfits ht'
      (fun l x hat hfit hx => hx.backward hpre hat hfit hstores (hmoves _ htaken) hlt)
      fun l x y hat hxy => hxy.frame_backward hpre fun hfills => hat hfills.2
  · obtain ⟨top, hr⟩ := hr
    refine hr.imp fun u t hagree c i w hvalid => ?_
    exact (hagree (c, i, w)).data.resolve_right fun hfree => hvalid hfree.1

/-- Core 0 reads a line, stores to it and reads it again, and core 1 stores to it. -/
def readStoreCalls : List Call :=
  [.read 0 0x0 1, .write 0 0x0 [1], .read 0 0x0 1, .write 1 0x0 [2]]

/-- Four steps forward and two back. -/
def thereAndBack : List Move :=
  [.stepForward, .stepForward, .stepForward, .stepForward, .stepBackward, .stepBackward]

theorem rewind_l1Bytes_conflict : ∃ calls s queue r,
    Run (fun call t => call.IsData ∧ call.KeepsBytes s.events thereAndBack t)
      (conflictMachine true) calls s ∧ queue.Linked s.events ∧
        thereAndBack.foldlM Renderer.move (.init queue) = .ok r ∧
          r.AgreesOn SameL1Bytes s.events := by
  have hexec : (runSteps (fun call _ => call.IsData) readStoreCalls 0 (conflictMachine true)).any
      fun s : Sim => (runSteps (fun call t => call.IsData ∧
          call.KeepsBytes s.events thereAndBack t) readStoreCalls 0
          (conflictMachine true)).isSome &&
        (takenBack s.events thereAndBack 0 0).all fun x => !Refilled s.events x.1 x.2 := by
    decide +kernel
  obtain ⟨s, hs, hchecked⟩ := (Option.any_eq_true _ _).mp hexec
  rw [Bool.and_eq_true] at hchecked
  obtain ⟨s', hs'⟩ := Option.isSome_iff_exists.mp hchecked.1
  obtain rfl := runSteps_unique hs hs'
  obtain ⟨calls, hrun⟩ := Run.start.of_runSteps hs'
  have hqueue := EventQueue.linked_empty.foldl_push s.events
  rw [List.nil_append] at hqueue
  have hmoves : ∀ x ∈ takenBack s.events thereAndBack 0 0, ¬Refilled s.events x.1 x.2 :=
    fun x hx => by simpa using List.all_eq_true.mp hchecked.2 x hx
  obtain ⟨r, hr⟩ := (hrun.rewind_l1Bytes (Sim.initial_emptyCaches _ _ _) ⟨rfl, rfl⟩ hqueue
    hmoves).exists_ok
  exact ⟨calls, s, _, r, hrun, hqueue, hr⟩

/-- A store that hits the line in L1D is not undone: the bytes stay. -/
theorem rewind_l1Bytes_store : ∃ calls s queue r,
    (conflictMachine true).EmptyCaches ∧ (conflictMachine true).Recording ∧
      Run (fun call _ => call.IsData) (conflictMachine true) calls s ∧ queue.Linked s.events ∧
        [Move.stepForward, .stepForward, .stepBackward].foldlM Renderer.move (.init queue) = .ok r ∧
          ¬ r.AgreesOn SameL1Bytes s.events := by
  have hexec : (runTurns (Turn.each [.read 0 0x0 1, .write 0 0x0 [1]])
      (.start (conflictMachine true))).any fun r =>
        (([Move.stepForward, .stepForward, .stepBackward].foldlM Renderer.move
          (.init r.2.queue)).toOption).any fun v =>
            (replay (r.2.sim.events.take v.played)).toOption.any fun t =>
              (v.shadow.l1d 0 0).state 0 != MESIState.invalid.toByte &&
                (v.shadow.l1d 0 0).data 0 0 != (t.l1d 0 0).data 0 0 := by
    decide +kernel
  obtain ⟨⟨trace, sys⟩, hturns, hviewer⟩ := (Option.any_eq_true _ _).mp hexec
  obtain ⟨r, hmoves, hreplay⟩ := (Option.any_eq_true _ _).mp hviewer
  obtain ⟨t, ht, hdiffer⟩ := (Option.any_eq_true _ _).mp hreplay
  obtain ⟨⟨calls, hrun⟩, hqueue⟩ :=
    recorded_of_runTurns (Sim.initial_emptyCaches _ _ _) ⟨rfl, rfl⟩ hturns
  rw [Bool.and_eq_true, bne_iff_ne, bne_iff_ne] at hdiffer
  refine ⟨calls, sys.sim, sys.queue, r, Sim.initial_emptyCaches _ _ _, ⟨rfl, rfl⟩, hrun, hqueue,
    Except.eq_ok_of_toOption hmoves, fun ⟨t', ht', hsame⟩ => ?_⟩
  obtain rfl : t = t' := Except.ok.inj ((Except.eq_ok_of_toOption ht).symm.trans ht')
  exact hdiffer.2 (congrFun (hsame 0 0 0 hdiffer.1) 0)

/-! ## The L2 states -/

structure SameL2States (s t : ShadowState) : Prop where
  state : ∀ i w, (s.l2 i).state w = (t.l2 i).state w
  dominant : ∀ i, s.l2Dominant i = t.l2Dominant i

/-- When the call changes the state of an L2 way without an event, the moves do not take
back the next event about the way, the call's own hit in L2 apart. -/
def Call.KeepsL2States (events : List Event) (moves : List Move) (call : Call) (s : Sim) : Prop :=
  ∀ l, call.HidesL2ChangeOf s l →
    KeepsNext (fun e => e.AtL2 l) events moves (s.events.length + call.l2HitEvents s)

/-- The state of a way may change without an event when the moves do not take back the
next event about it. -/
def l2StatesPermit (events : List Event) (moves : List Move) : Permit :=
  { dataPermit True with
    silent := fun l pre => pre <+: events →
      KeepsNext (fun e => e.AtL2 l) events moves pre.length }

theorem l2StatesPermit_allows {events : List Event} {moves : List Move} {call : Call} {s : Sim}
    (h : call.KeepsL2States events moves s) : (l2StatesPermit events moves).Allows call s where
  isOpen := ⟨trivial, fun _ _ => trivial, fun _ => trivial⟩
  silent l hl own _ hown hadded hpre := by
    have hkeeps := h l hl
    rw [← hown, ← List.length_append] at hkeeps
    exact hkeeps.append hpre hadded
  stores _ _ _ := trivial

/-- The L2 states come back when no call changes one without an event before an event
about the way that is taken back. -/
theorem Run.rewind_l2States {s : Sim} {queue : EventQueue} {moves : List Move}
    (h₀ : s₀.EmptyCaches) (hr : s₀.Recording)
    (h : Run (fun call t => call.IsData ∧ call.KeepsL2States s.events moves t) s₀ trace s)
    (hqueue : queue.Linked s.events) :
    (moves.foldlM Renderer.move (.init queue)).Sat (Renderer.AgreesOn SameL2States s.events)
      fun _ => False := by
  have hreplays : s.grid.Replays (l2StatesPermit s.events moves) :=
    h.replays h₀ hr fun call t hcall => ⟨hcall.1, l2StatesPermit_allows hcall.2⟩
  refine (hreplays.rewind (R := fun _ _ => AgreeL2) hqueue ⟨fun _ => rfl, fun _ => rfl⟩
    (fun top pre u t t' e _ hfits ht' hu => hu.redo hfits ht')
    fun top pre u t t' e hpre hfits ht' hdominant htaken _ hu => ?_).imp fun r hr => ?_
  · refine hu.undo hfits ht' hdominant fun l hat hstale => ?_
    obtain ⟨before, added, rfl, hsilent, hadded⟩ := hstale
    have hbefore : before ++ added <+: s.events := (List.prefix_append _ _).trans hpre
    have hkeeps := hsilent ((List.prefix_append _ _).trans hbefore)
    exact (hkeeps.append hbefore hadded).not_takenBack hpre hat htaken
  · obtain ⟨top, hr⟩ := hr
    exact hr.imp fun u t hagree => ⟨fun i w => hagree.state (i, w), hagree.dominant⟩

/-- The condition for every way at once: no event of level 2 after the change is taken
back. -/
theorem Call.keepsL2States_of_level {events : List Event} {moves : List Move} {call : Call}
    {s : Sim} (h : call.HidesL2Change s → ∀ x ∈ takenBack events moves 0 0,
      s.events.length + call.l2HitEvents s ≤ x.1 →
        (events[x.1]?).all fun e => e.cacheLevel != 2) : call.KeepsL2States events moves s := by
  refine fun l hl => KeepsNext.of_forall fun x hx hle e he hat => ?_
  have hlevel := h hl.hides x hx hle
  rw [he, Option.all_some, bne_iff_ne] at hlevel
  exact hlevel hat.level

theorem rewind_l2States_conflict : ∃ calls s queue r,
    Run (fun call t => call.IsData ∧ call.KeepsL2States s.events
      [.stepForward, .stepForward, .stepBackward] t) (conflictMachine true) calls s ∧
      queue.Linked s.events ∧
        [Move.stepForward, .stepForward, .stepBackward].foldlM Renderer.move (.init queue) =
          .ok r ∧ r.AgreesOn SameL2States s.events := by
  have hexec : (runSteps (fun call _ => call.IsData) [.read 0 0x0 1, .read 1 0x0 1] 0
      (conflictMachine true)).any fun s =>
        (runSteps (fun call t => call.IsData ∧ (call.HidesL2Change t →
          ∀ x ∈ takenBack s.events [.stepForward, .stepForward, .stepBackward] 0 0,
            t.events.length + call.l2HitEvents t ≤ x.1 →
              (s.events[x.1]?).all fun e => e.cacheLevel != 2)) [.read 0 0x0 1, .read 1 0x0 1] 0
          (conflictMachine true)).isSome := by
    decide +kernel
  obtain ⟨s, hs, hchecked⟩ := (Option.any_eq_true _ _).mp hexec
  obtain ⟨s', hs'⟩ := Option.isSome_iff_exists.mp hchecked
  obtain rfl := runSteps_unique hs hs'
  obtain ⟨calls, hrun⟩ := Run.start.of_runSteps hs'
  have hkeeps : Run (fun call t => call.IsData ∧ call.KeepsL2States s.events
      [.stepForward, .stepForward, .stepBackward] t) (conflictMachine true) calls s :=
    hrun.mono fun call t hcall => ⟨hcall.1, Call.keepsL2States_of_level hcall.2⟩
  have hqueue := EventQueue.linked_empty.foldl_push s.events
  rw [List.nil_append] at hqueue
  obtain ⟨r, hr⟩ := (hkeeps.rewind_l2States (Sim.initial_emptyCaches _ _ _) ⟨rfl, rfl⟩
    hqueue).exists_ok
  exact ⟨calls, s, _, r, hkeeps, hqueue, hr⟩

/-- A store has made the line MODIFIED without an event: undoing the hit of the
other core shows it MODIFIED, and the replay has it EXCLUSIVE. -/
theorem rewind_l2States_store : ∃ calls s queue r,
    (conflictMachine true).EmptyCaches ∧ (conflictMachine true).Recording ∧
      Run (fun call _ => call.IsData) (conflictMachine true) calls s ∧ queue.Linked s.events ∧
        [Move.stepForward, .stepForward, .stepForward, .stepBackward].foldlM Renderer.move
          (.init queue) = .ok r ∧ ¬ r.AgreesOn SameL2States s.events := by
  have hexec : (runTurns (Turn.each [.read 0 0x0 1, .write 0 0x0 [1], .read 1 0x0 1])
      (.start (conflictMachine true))).any fun r =>
        (([Move.stepForward, .stepForward, .stepForward, .stepBackward].foldlM Renderer.move
          (.init r.2.queue)).toOption).any fun v =>
            (replay (r.2.sim.events.take v.played)).toOption.any fun t =>
              (v.shadow.l2 0).state 0 != (t.l2 0).state 0 := by
    decide +kernel
  obtain ⟨⟨trace, sys⟩, hturns, hviewer⟩ := (Option.any_eq_true _ _).mp hexec
  obtain ⟨r, hmoves, hreplay⟩ := (Option.any_eq_true _ _).mp hviewer
  obtain ⟨t, ht, hdiffer⟩ := (Option.any_eq_true _ _).mp hreplay
  obtain ⟨⟨calls, hrun⟩, hqueue⟩ :=
    recorded_of_runTurns (Sim.initial_emptyCaches _ _ _) ⟨rfl, rfl⟩ hturns
  rw [bne_iff_ne] at hdiffer
  refine ⟨calls, sys.sim, sys.queue, r, Sim.initial_emptyCaches _ _ _, ⟨rfl, rfl⟩, hrun, hqueue,
    Except.eq_ok_of_toOption hmoves, fun ⟨t', ht', hsame⟩ => ?_⟩
  obtain rfl : t = t' := Except.ok.inj ((Except.eq_ok_of_toOption ht).symm.trans ht')
  exact hdiffer (hsame.state 0 0)

end CacheSimulator
