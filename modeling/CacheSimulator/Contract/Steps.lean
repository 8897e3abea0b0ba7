import CacheSimulator.Threads
import CacheSimulator.Replay.Recorded
import CacheSimulator.Refinement.Player

/-!
# One visible step for each call

Two threads draw sequence numbers in one order and use them in another, so the
numbers are not in order in the queue. But no two calls use one number, and the
events of a call are pushed together: `step_forward` applies one call at a time.
-/

namespace CacheSimulator

variable {s₀ : Sim} {trace : List CallEvents} {steps : ℕ} {sys sys' : System}

/-! ## The numbers -/

/-- Every number drawn is below the next one, and none is used twice. -/
structure Numbered (trace : List CallEvents) (steps : ℕ) (sys : System) : Prop where
  nextSeq : sys.queue.nextSeq.toNat = steps
  drawn : ∀ r ∈ trace, r.seq.toNat < steps
  distinct : trace.Pairwise fun r r' => r.seq ≠ r'.seq
  pending : ∀ c, sys.begun c = true → (sys.currentSeq c).toNat < steps
  unused : ∀ c, sys.begun c = true → ∀ r ∈ trace, r.seq ≠ sys.currentSeq c
  apart : ∀ c c', c ≠ c' → sys.begun c = true → sys.begun c' = true →
    sys.currentSeq c ≠ sys.currentSeq c'

theorem numbered_start (s₀ : Sim) : Numbered [] 0 (.start s₀) where
  nextSeq := rfl
  drawn _ h := absurd h List.not_mem_nil
  distinct := .nil
  pending _ h := absurd h Bool.false_ne_true
  unused _ h := absurd h Bool.false_ne_true
  apart _ _ _ h := absurd h Bool.false_ne_true

theorem Numbered.beginStep (h : Numbered trace steps sys) (hsteps : steps + 1 < 2 ^ 32)
    (c : CoreId) : Numbered trace (steps + 1) (sys.beginStep c) := by
  have hnext : (sys.queue.nextSeq + 1).toNat = steps + 1 := by
    rw [BitVec.toNat_add, h.nextSeq]
    exact Nat.mod_eq_of_lt hsteps
  have hnew : ∀ seq : BitVec 32, seq.toNat < steps → seq ≠ sys.queue.nextSeq := by
    rintro seq hlt rfl
    exact absurd h.nextSeq (Nat.ne_of_lt hlt)
  have hseq : ∀ c', (sys.beginStep c).currentSeq c' =
      if c' = c then sys.queue.nextSeq else sys.currentSeq c' := fun c' => by
    rw [System.beginStep_currentSeq, Function.update_apply]
  have hbegun : ∀ c', c' ≠ c → (sys.beginStep c).begun c' = true → sys.begun c' = true := by
    intro c' hc' hb
    rwa [System.beginStep_begun, Function.update_of_ne hc'] at hb
  refine ⟨hnext, fun r hr => Nat.lt_succ_of_lt (h.drawn r hr), h.distinct, fun c' hb => ?_,
    fun c' hb r hr => ?_, fun c₁ c₂ hne h₁ h₂ => ?_⟩
  · rw [hseq]
    split
    · rw [h.nextSeq]
      exact Nat.lt_succ_self _
    · rename_i hc'
      exact Nat.lt_succ_of_lt (h.pending c' (hbegun c' hc' hb))
  · rw [hseq]
    split
    · exact hnew _ (h.drawn r hr)
    · rename_i hc'
      exact h.unused c' (hbegun c' hc' hb) r hr
  · rw [hseq, hseq]
    split
    · rename_i hc₁
      subst hc₁
      rw [if_neg hne.symm]
      exact (hnew _ (h.pending c₂ (hbegun c₂ hne.symm h₂))).symm
    · rename_i hc₁
      split
      · exact hnew _ (h.pending c₁ (hbegun c₁ hc₁ h₁))
      · rename_i hc₂
        exact h.apart c₁ c₂ hne (hbegun c₁ hc₁ h₁) (hbegun c₂ hc₂ h₂)

/-! ## What a call leaves behind -/

theorem System.exec_eq_ok {call : Call} {r : CallEvents} (h : sys.exec call = .ok (sys', r)) :
    ∃ result, call.exec { sys.sim with currentSeq := sys.currentSeq call.coreId } =
        .ok (sys'.sim, result) ∧
      r = ⟨call, sys.currentSeq call.coreId, sys'.sim.events.drop sys.sim.events.length⟩ ∧
        sys'.queue = r.events.foldl EventQueue.push sys.queue ∧
          sys'.currentSeq = sys.currentSeq ∧
            sys'.begun = Function.update sys.begun call.coreId false := by
  rw [System.exec] at h
  cases hexec : call.exec { sys.sim with currentSeq := sys.currentSeq call.coreId } with
  | error f =>
      rw [hexec] at h
      cases h
  | ok x =>
      obtain ⟨sim, result⟩ := x
      rw [hexec] at h
      cases h
      exact ⟨result, rfl, rfl, rfl, rfl, rfl⟩

theorem nextSeq_foldl_push (events : List Event) (queue : EventQueue) :
    (events.foldl EventQueue.push queue).nextSeq = queue.nextSeq := by
  induction events generalizing queue with
  | nil => rfl
  | cons e events ih => exact ih (queue.push e)

theorem Numbered.exec (h : Numbered trace steps sys) {call : Call} {r : CallEvents}
    (hbegun : sys.begun call.coreId = true) (hexec : sys.exec call = .ok (sys', r)) :
    Numbered (trace ++ [r]) steps sys' := by
  obtain ⟨result, -, hr, hqueue, hcurrent, hbegun'⟩ := System.exec_eq_ok hexec
  have hseq : r.seq = sys.currentSeq call.coreId := by rw [hr]
  have hkeeps : ∀ c, sys'.begun c = true → c ≠ call.coreId ∧ sys.begun c = true := by
    intro c hc
    rw [hbegun', Function.update_apply] at hc
    split at hc
    · exact absurd hc Bool.false_ne_true
    · rename_i hne
      exact ⟨hne, hc⟩
  have hmem : ∀ {x}, x ∈ trace ++ [r] → x ∈ trace ∨ x = r := by simp
  refine ⟨?_, fun x hx => ?_, ?_, fun c hc => ?_, fun c hc x hx => ?_, fun c c' hne hc hc' => ?_⟩
  · rw [hqueue, nextSeq_foldl_push]
    exact h.nextSeq
  · rcases hmem hx with hx | rfl
    · exact h.drawn x hx
    · rw [hseq]
      exact h.pending _ hbegun
  · refine List.pairwise_append.mpr ⟨h.distinct, List.pairwise_singleton _ _, fun x hx y hy => ?_⟩
    rw [List.mem_singleton.mp hy, hseq]
    exact h.unused _ hbegun x hx
  · rw [hcurrent]
    exact h.pending c (hkeeps c hc).2
  · rw [hcurrent]
    rcases hmem hx with hx | rfl
    · exact h.unused c (hkeeps c hc).2 x hx
    · rw [hseq]
      exact h.apart _ _ (hkeeps c hc).1.symm hbegun (hkeeps c hc).2
  · rw [hcurrent]
    exact h.apart c c' hne (hkeeps c hc).2 (hkeeps c' hc').2

/-! ## The events -/

/-- The queue holds the events of the calls in bus order, each with the number of
its call. -/
structure Queued (trace : List CallEvents) (sys : System) : Prop where
  events : sys.sim.events = trace.flatMap CallEvents.events
  linked : sys.queue.Linked sys.sim.events
  seq : ∀ r ∈ trace, ∀ e ∈ r.events, e.seq = r.seq

theorem Interleaving.run (h : Interleaving s₀ trace steps sys) :
    ∃ calls, Run (fun call _ => call.IsData) s₀ calls sys.sim := by
  induction h with
  | start => exact ⟨[], .start⟩
  | beginStep c _ _ ih => exact ih
  | @call _ _ sys _ _ call _ hdata _ hexec ih =>
      obtain ⟨calls, hrun⟩ := ih
      obtain ⟨result, hcall, -⟩ := System.exec_eq_ok hexec
      exact ⟨_, (hrun.beginStep (sys.currentSeq call.coreId)).call call hdata hcall⟩

/-- The events a recorded call adds carry the number of its thread. -/
theorem Run.exec_events {ok : Call → Sim → Prop} {calls : List CallRecord} {s s' : Sim}
    {call : Call} {result : Option (List Byte)} (hrun : Run ok s₀ calls s) (h₀ : s₀.EmptyCaches)
    (hcallback : s.callback = true) (hdata : call.IsData)
    (hexec : call.exec s = .ok (s', result)) :
    s'.callback = true ∧
      ∃ added, s'.events = s.events ++ added ∧ ∀ e ∈ added, e.seq = s.currentSeq := by
  have hallows : (dataPermit True).Allows call s := dataPermit_allows (.inl trivial)
  obtain ⟨ls, htraces⟩ := ((Sim.exec_traces (hrun.inv h₀) hdata hallows).of_eq_ok hexec).traces
  exact ⟨htraces.callback.trans hcallback, (htraces.acts hcallback).events⟩

theorem Interleaving.queued (h₀ : s₀.EmptyCaches) (hr : s₀.Recording)
    (h : Interleaving s₀ trace steps sys) : sys.sim.callback = true ∧ Queued trace sys := by
  induction h with
  | start =>
      refine ⟨hr.callback, hr.events, ?_, fun _ h => absurd h List.not_mem_nil⟩
      rw [System.start, hr.events]
      exact EventQueue.linked_empty
  | beginStep c _ _ ih => exact ⟨ih.1, ih.2.events, ih.2.linked.beginStep, ih.2.seq⟩
  | @call trace _ sys sys' r call hprev hdata _ hexec ih =>
      obtain ⟨hcallback, hqueued⟩ := ih
      obtain ⟨calls, hrun⟩ := hprev.run
      obtain ⟨result, hcall, hrecord, hqueue, -⟩ := System.exec_eq_ok hexec
      obtain ⟨hcallback', added, hadded, hseq⟩ :=
        (hrun.beginStep (sys.currentSeq call.coreId)).exec_events h₀ hcallback hdata hcall
      have hevents : r.events = added := by rw [hrecord, hadded, List.drop_left]
      refine ⟨hcallback', ?_, ?_, fun x hx e he => ?_⟩
      · rw [hadded, List.flatMap_append, List.flatMap_singleton, hevents]
        exact congrArg (· ++ added) hqueued.events
      · rw [hqueue, hadded, hevents]
        exact hqueued.linked.foldl_push added
      · rcases List.mem_append.mp hx with hx | hx
        · exact hqueued.seq x hx e he
        · obtain rfl := List.mem_singleton.mp hx
          rw [hevents] at he
          rw [hseq e he, hrecord]

/-- Turns that can be executed record a run. -/
theorem recorded_of_runTurns {turns : List Turn} (h₀ : s₀.EmptyCaches) (hr : s₀.Recording)
    (h : runTurns turns (.start s₀) = some (trace, sys)) :
    (∃ calls, Run (fun call _ => call.IsData) s₀ calls sys.sim) ∧
      sys.queue.Linked sys.sim.events := by
  have hrun := Interleaving.start.of_runTurns h
  exact ⟨hrun.run, (hrun.queued h₀ hr).2.linked⟩

/-! ## Moving forward -/

def stepsForward (n : ℕ) (r : Renderer) : Except Fault Renderer :=
  (List.replicate n Move.stepForward).foldlM Renderer.move r

theorem stepsForward_succ (n : ℕ) (r : Renderer) :
    stepsForward (n + 1) r = stepsForward n r >>= stepForward := by
  rw [stepsForward, List.replicate_succ', List.foldlM_append]
  refine bind_congr fun r' => ?_
  rw [List.foldlM_cons]
  exact bind_pure _

theorem replay_group {events group rest : List Event} {s last : ShadowState}
    (h : replay (events ++ (group ++ rest)) = .ok last) (hs : replay events = .ok s) :
    ∃ s', group.foldlM applyEventForward s = .ok s' ∧ replay (events ++ group) = .ok s' := by
  rw [replay] at h hs
  rw [List.foldlM_append, hs, Except.ok_bind, List.foldlM_append] at h
  cases hgroup : group.foldlM applyEventForward s with
  | ok s' => exact ⟨s', rfl, by rw [replay, List.foldlM_append, hs, Except.ok_bind, hgroup]⟩
  | error f =>
      rw [hgroup] at h
      cases h

/-- The calls that have emitted events, each with its own number. -/
structure Emitting (calls : List CallEvents) : Prop where
  events : ∀ r ∈ calls, r.events ≠ []
  seq : ∀ r ∈ calls, ∀ e ∈ r.events, e.seq = r.seq
  distinct : calls.Pairwise fun r r' => r.seq ≠ r'.seq

theorem Emitting.head_seq {pre post : List CallEvents} {r : CallEvents}
    (h : Emitting (pre ++ r :: post)) :
    ∀ e ∈ (post.flatMap CallEvents.events).head?, e.seq ≠ r.seq := by
  intro e he
  obtain ⟨r', hr', he'⟩ := List.mem_flatMap.mp (List.mem_of_head? he)
  have hmem : r' ∈ pre ++ r :: post :=
    List.mem_append_right _ (List.mem_cons_of_mem _ hr')
  rw [h.seq r' hmem e he']
  exact (List.rel_of_pairwise_cons (List.pairwise_append.mp h.distinct).2.1 hr').symm

theorem Emitting.stepForward {pre post : List CallEvents} {r : CallEvents} {events : List Event}
    {before : Renderer} {s s' : ShadowState} (h : Emitting (pre ++ r :: post))
    (hbefore : before.Represents events
      ⟨pre.flatMap CallEvents.events, (r :: post).flatMap CallEvents.events, s⟩)
    (hplay : r.events.foldlM applyEventForward s = .ok s') :
    ∃ after, CacheSimulator.stepForward before = .ok after ∧ after.Represents events
      ⟨(pre ++ [r]).flatMap CallEvents.events, post.flatMap CallEvents.events, s'⟩ := by
  have hr : r ∈ pre ++ r :: post := List.mem_append_right _ List.mem_cons_self
  rw [List.flatMap_cons] at hbefore
  rw [List.flatMap_append, List.flatMap_singleton]
  exact hbefore.stepForward_group (h.events r hr) (h.seq r hr) h.head_seq hplay

/-- After `n` steps the renderer is behind the first `n` calls. -/
theorem Emitting.stepsForward {calls : List CallEvents} (h : Emitting calls) {queue : EventQueue}
    (hlinked : queue.Linked (calls.flatMap CallEvents.events)) {last : ShadowState}
    (hplay : replay (calls.flatMap CallEvents.events) = .ok last) (pre post : List CallEvents)
    (hsplit : calls = pre ++ post) :
    ∃ r s, CacheSimulator.stepsForward pre.length (.init queue) = .ok r ∧
      replay (pre.flatMap CallEvents.events) = .ok s ∧
        r.Represents (calls.flatMap CallEvents.events)
          ⟨pre.flatMap CallEvents.events, post.flatMap CallEvents.events, s⟩ := by
  induction pre using List.reverseRecOn generalizing post with
  | nil =>
      rw [List.nil_append] at hsplit
      subst hsplit
      exact ⟨_, _, rfl, rfl, Renderer.represents_init hlinked⟩
  | append_singleton pre call ih =>
      rw [List.append_assoc, List.singleton_append] at hsplit
      obtain ⟨before, s, hsteps, hs, hbefore⟩ := ih _ hsplit
      have hreplay := hplay
      rw [hsplit, List.flatMap_append, List.flatMap_cons] at hreplay
      obtain ⟨s', hcall, hs'⟩ := replay_group hreplay hs
      obtain ⟨after, hafter, hrep⟩ := (hsplit ▸ h).stepForward hbefore hcall
      refine ⟨after, s', ?_, ?_, hrep⟩
      · rw [List.length_append, List.length_singleton, stepsForward_succ, hsteps]
        exact hafter
      · rwa [List.flatMap_append, List.flatMap_singleton]

/-! ## The queue of an interleaving -/

/-- The queue holds the events of the calls one call after the other, the events of
a call share a number with no other call, and the `n`-th `step_forward` applies
the events of the `n`-th call that has emitted any. -/
structure OneStepEach (trace : List CallEvents) (queue : EventQueue) : Prop where
  contiguous : queue.Linked (trace.flatMap CallEvents.events)
  seq : ∀ r ∈ trace, ∀ e ∈ r.events, e.seq = r.seq
  distinct : trace.Pairwise fun r r' => r.seq ≠ r'.seq
  step : ∀ pre r post, (trace.filter fun r => !r.events.isEmpty) = pre ++ r :: post →
    ∃ before after, stepsForward pre.length (.init queue) = .ok before ∧
      stepForward before = .ok after ∧
        before.cursor = cursorAt (pre.flatMap CallEvents.events).length ∧
          after.cursor = cursorAt ((pre ++ [r]).flatMap CallEvents.events).length ∧
            r.events.foldlM applyEventForward before.shadow = .ok after.shadow

theorem flatMap_filter_events (trace : List CallEvents) :
    (trace.filter fun r => !r.events.isEmpty).flatMap CallEvents.events =
      trace.flatMap CallEvents.events := by
  induction trace with
  | nil => rfl
  | cons r trace ih =>
      by_cases hr : r.events = []
      · rw [List.filter_cons_of_neg (by simp [hr]), ih, List.flatMap_cons, hr, List.nil_append]
      · rw [List.filter_cons_of_pos (by simp [hr]), List.flatMap_cons, List.flatMap_cons, ih]

theorem Queued.oneStepEach {last : ShadowState} (h : Queued trace sys)
    (hdistinct : trace.Pairwise fun r r' => r.seq ≠ r'.seq)
    (hplay : replay sys.sim.events = .ok last) : OneStepEach trace sys.queue := by
  have hlinked := h.linked
  rw [h.events] at hlinked hplay
  refine ⟨hlinked, h.seq, hdistinct, fun pre r post hsplit => ?_⟩
  rw [← flatMap_filter_events] at hlinked hplay
  have hcalls : Emitting (trace.filter fun r => !r.events.isEmpty) := by
    refine ⟨fun r hr => ?_, fun r hr => h.seq r (List.mem_of_mem_filter hr), hdistinct.filter _⟩
    simpa using (List.mem_filter.mp hr).2
  obtain ⟨before, s, hsteps, hs, hbefore⟩ :=
    hcalls.stepsForward hlinked hplay pre (r :: post) hsplit
  rw [hsplit, List.flatMap_append, List.flatMap_cons] at hplay
  obtain ⟨s', hcall, -⟩ := replay_group hplay hs
  obtain ⟨after, hafter, hrep⟩ := (hsplit ▸ hcalls).stepForward hbefore hcall
  refine ⟨before, after, hsteps, hafter, hbefore.cursor, hrep.cursor, ?_⟩
  rwa [hbefore.shadow, hrep.shadow]

theorem Interleaving.numbered (h : Interleaving s₀ trace steps sys) (hsteps : steps < 2 ^ 32) :
    Numbered trace steps sys := by
  induction h with
  | start => exact numbered_start s₀
  | beginStep c _ _ ih => exact (ih (Nat.lt_of_succ_lt hsteps)).beginStep hsteps c
  | call call _ _ hbegun hexec ih => exact (ih hsteps).exec hbegun hexec

/-- Under every interleaving of two threads a step of the viewer is one call. -/
theorem Interleaving.one_step_per_call (h₀ : s₀.EmptyCaches) (hr : s₀.Recording)
    (h : Interleaving s₀ trace steps sys) (hsteps : steps < 2 ^ 32) :
    OneStepEach trace sys.queue := by
  obtain ⟨calls, hrun⟩ := h.run
  obtain ⟨last, hlast, -⟩ := (hrun.replays_data h₀ hr).mirrors
  exact (h.queued h₀ hr).2.oneStepEach (h.numbered hsteps).distinct hlast

/-- Both threads draw a number, and core 1 is the first to use its own. -/
def crossedTurns : List Turn :=
  [.beginStep 0, .beginStep 1, .call (.write 1 0x0 [1]), .beginStep 1, .call (.read 0 0x0 1),
    .call (.read 1 0x0 1)]

theorem one_step_per_call_crossed : ∃ trace steps sys,
    Interleaving (conflictMachine true) trace steps sys ∧ steps < 2 ^ 32 ∧
      trace.map CallEvents.seq = [1, 0, 2] ∧ OneStepEach trace sys.queue := by
  have hexec : (runTurns crossedTurns (.start (conflictMachine true))).any fun r =>
      r.1.map CallEvents.seq = [1, 0, 2] := by decide +kernel
  obtain ⟨⟨trace, sys⟩, hturns, hseq⟩ := (Option.any_eq_true _ _).mp hexec
  have hrun := Interleaving.start.of_runTurns hturns
  have hsteps : 0 + (crossedTurns.map Turn.draws).sum < 2 ^ 32 := by decide
  exact ⟨_, _, sys, hrun, hsteps, of_decide_eq_true hseq,
    hrun.one_step_per_call (Sim.initial_emptyCaches _ _ _) ⟨rfl, rfl⟩ hsteps⟩

end CacheSimulator
