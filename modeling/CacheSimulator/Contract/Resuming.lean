import CacheSimulator.Contract.Steps
import CacheSimulator.Contract.TraceFile

/-!
# Resuming a recording

`read_trace` takes the next sequence number from the last record. It is above all
numbers of the file exactly when the last call that has pushed events is also the
last one of these to have begun.
-/

namespace CacheSimulator

variable {queue : EventQueue} {events : List Event}

theorem readTrace_writeTrace (h : queue.Linked events) :
    readTrace (writeTrace queue) = some (events.foldl EventQueue.push .empty).resumeSeq := by
  have hlength : (events.flatMap fun e => (TraceRecord.ofEvent e).encode).length =
      traceRecordSize * events.length := by
    rw [List.length_flatMap]
    simp [Nat.mul_comm]
  have hread := readRecords_take events (traceRecordSize * events.length) _ .empty (Nat.le_refl _)
  rw [List.take_of_length_le (Nat.le_of_eq hlength), Nat.mul_div_cancel_left _ (by decide),
    List.take_length] at hread
  rw [writeTrace_eq h, readTrace_header_append, hread]

theorem nextSeq_resumeSeq {e : Event} (h : queue.Linked (events ++ [e])) :
    queue.resumeSeq.nextSeq = e.seq + 1 := by
  have hlast : queue.last = some events.length := by simp [h.last]
  have hnode : queue.nodes[events.length]? = some ⟨if events.length = 0 then none else
      some (events.length - 1), none, e⟩ := by
    rw [h.nodes, List.getElem?_mapIdx]
    simp
  simp only [EventQueue.resumeSeq, hlast, Option.bind_some, hnode]

/-- Of the calls that have pushed events, the last one has begun last. -/
def LastBegunLast (trace : List CallEvents) : Prop :=
  ∀ pre r, (trace.filter fun r => !r.events.isEmpty) = pre ++ [r] → ∀ r' ∈ pre, r'.seq < r.seq

section Interleavings

variable {s₀ : Sim} {trace : List CallEvents} {steps : ℕ} {sys : System}

theorem Emitting.lt_succ_iff {pre : List CallEvents} {r : CallEvents} (h : Emitting (pre ++ [r]))
    (hseq : r.seq.toNat + 1 < 2 ^ 32) :
    (∀ e ∈ (pre ++ [r]).flatMap CallEvents.events, e.seq < r.seq + 1) ↔
      ∀ r' ∈ pre, r'.seq < r.seq := by
  have hsucc : (r.seq + 1).toNat = r.seq.toNat + 1 := by
    rw [BitVec.toNat_add]
    exact Nat.mod_eq_of_lt hseq
  have hne : ∀ r' ∈ pre, r'.seq.toNat ≠ r.seq.toNat := fun r' hr' heq =>
    (List.pairwise_append.mp h.distinct).2.2 r' hr' r (List.mem_singleton_self r)
      (BitVec.eq_of_toNat_eq heq)
  constructor
  · intro hall r' hr'
    obtain ⟨e, he⟩ := List.exists_mem_of_ne_nil _ (h.events r' (List.mem_append_left _ hr'))
    have hlt := hall e (List.mem_flatMap.mpr ⟨r', List.mem_append_left _ hr', he⟩)
    rw [h.seq r' (List.mem_append_left _ hr') e he, BitVec.lt_def, hsucc] at hlt
    have := hne r' hr'
    rw [BitVec.lt_def]
    omega
  · intro hall e he
    obtain ⟨r', hr', he'⟩ := List.mem_flatMap.mp he
    rw [h.seq r' hr' e he', BitVec.lt_def, hsucc]
    rcases List.mem_append.mp hr' with hpre | hlast
    · have hlt := hall r' hpre
      rw [BitVec.lt_def] at hlt
      omega
    · rw [List.mem_singleton.mp hlast]
      exact Nat.lt_succ_self _

theorem Interleaving.emitting (h₀ : s₀.EmptyCaches) (hr : s₀.Recording)
    (h : Interleaving s₀ trace steps sys) (hsteps : steps < 2 ^ 32) :
    Emitting (trace.filter fun r => !r.events.isEmpty) := by
  refine ⟨fun r hr' => ?_, fun r hr' => (h.queued h₀ hr).2.seq r (List.mem_of_mem_filter hr'),
    (h.numbered hsteps).distinct.filter _⟩
  simpa using (List.mem_filter.mp hr').2

/-- The number a reloaded queue goes on with is above those of its events exactly
when the last call that has pushed events has begun last. -/
theorem Interleaving.reloaded_nextSeq (h₀ : s₀.EmptyCaches) (hr : s₀.Recording)
    (h : Interleaving s₀ trace steps sys) (hsteps : steps < 2 ^ 32 - 1) :
    ∃ restored, readTrace (writeTrace sys.queue) = some restored ∧ restored.Linked sys.sim.events ∧
      ((∀ e ∈ sys.sim.events, e.seq < restored.nextSeq) ↔ LastBegunLast trace) := by
  have hqueued := (h.queued h₀ hr).2
  have hemitting := h.emitting h₀ hr (by omega)
  have hlinked := EventQueue.linked_empty.foldl_push sys.sim.events
  rw [List.nil_append] at hlinked
  refine ⟨_, readTrace_writeTrace hqueued.linked, hlinked.resumeSeq, ?_⟩
  have hevents := hqueued.events
  rw [← flatMap_filter_events] at hevents
  unfold LastBegunLast
  rcases List.eq_nil_or_concat' (trace.filter fun r => !r.events.isEmpty) with
    hnil | ⟨pre, r, hlast⟩
  · rw [hnil, List.flatMap_nil] at hevents
    rw [hevents, hnil]
    simp
  · rw [hlast] at hemitting hevents ⊢
    have hr : r ∈ pre ++ [r] := by simp
    have hseq : r.seq.toNat < steps :=
      (h.numbered (by omega)).drawn r (List.mem_of_mem_filter (hlast ▸ hr))
    obtain ⟨init, e, hinit⟩ :=
      (List.eq_nil_or_concat' r.events).resolve_left (hemitting.events r hr)
    have hsplit : sys.sim.events = (pre.flatMap CallEvents.events ++ init) ++ [e] := by
      rw [hevents, List.flatMap_append, List.flatMap_singleton, hinit, List.append_assoc]
    have hnext : (sys.sim.events.foldl EventQueue.push .empty).resumeSeq.nextSeq = r.seq + 1 := by
      rw [hsplit] at hlinked ⊢
      rw [nextSeq_resumeSeq hlinked, hemitting.seq r hr e (by simp [hinit])]
    rw [hnext, hevents, hemitting.lt_succ_iff (by omega)]
    constructor
    · intro hall pre' r' heq
      obtain ⟨rfl, hr'⟩ := List.append_inj' heq rfl
      rwa [← List.singleton_inj.mp hr']
    · exact fun hall => hall pre r rfl

end Interleavings

/-- The numbers of the calls increase along the trace. -/
theorem lastBegunLast_of_pairwise {trace : List CallEvents}
    (h : (trace.map CallEvents.seq).Pairwise (· < ·)) : LastBegunLast trace := by
  intro pre r hfilter r' hr'
  have hlt := (List.pairwise_map.mp h).filter fun r => !r.events.isEmpty
  rw [hfilter] at hlt
  exact (List.pairwise_append.mp hlt).2.2 r' hr' r (List.mem_singleton_self r)

/-- The threads use their numbers in the order in which they have drawn them. -/
theorem reloaded_nextSeq_each : ∃ trace steps sys restored,
    Interleaving (conflictMachine true) trace steps sys ∧ steps < 2 ^ 32 - 1 ∧
      readTrace (writeTrace sys.queue) = some restored ∧ LastBegunLast trace ∧
        ∀ e ∈ sys.sim.events, e.seq < restored.nextSeq := by
  have hexec : (runTurns (Turn.each [.read 0 0x0 1, .read 1 0x0 1])
      (.start (conflictMachine true))).any fun r =>
        (r.1.map CallEvents.seq).Pairwise (· < ·) := by decide +kernel
  obtain ⟨⟨trace, sys⟩, hturns, hseqs⟩ := (Option.any_eq_true _ _).mp hexec
  have hlast := lastBegunLast_of_pairwise (of_decide_eq_true hseqs)
  have hrun := Interleaving.start.of_runTurns hturns
  have hsteps : 0 + ((Turn.each [.read 0 0x0 1, .read 1 0x0 1]).map Turn.draws).sum <
      2 ^ 32 - 1 := by decide
  obtain ⟨restored, hread, -, hiff⟩ :=
    hrun.reloaded_nextSeq (Sim.initial_emptyCaches _ _ _) ⟨rfl, rfl⟩ hsteps
  exact ⟨_, _, sys, restored, hrun, hsteps, hread, hlast, hiff.mpr hlast⟩

/-- Both threads draw a number, and core 1 is the first to use its own: the number 1
is in the file, and the reloaded queue goes on with it. -/
theorem reloaded_nextSeq_crossed : ∃ trace steps sys restored,
    Interleaving (conflictMachine true) trace steps sys ∧ steps < 2 ^ 32 - 1 ∧
      (conflictMachine true).EmptyCaches ∧ (conflictMachine true).Recording ∧
        readTrace (writeTrace sys.queue) = some restored ∧
          ¬ ∀ e ∈ sys.sim.events, e.seq < restored.nextSeq := by
  have hexec : (runTurns [.beginStep 0, .beginStep 1, .call (.read 1 0x0 1), .call (.read 0 0x0 1)]
      (.start (conflictMachine true))).any fun r =>
        (r.2.sim.events.getLast?.any fun e => e.seq = 0) &&
          r.2.sim.events.any fun e => e.seq = 1 := by
    decide +kernel
  obtain ⟨⟨trace, sys⟩, hturns, hseqs⟩ := (Option.any_eq_true _ _).mp hexec
  obtain ⟨hlast, hone⟩ := Bool.and_eq_true_iff.mp hseqs
  obtain ⟨e, he, hzero⟩ := (Option.any_eq_true _ _).mp hlast
  obtain ⟨e', he', hseq⟩ := List.any_eq_true.mp hone
  have hrun := Interleaving.start.of_runTurns hturns
  have hqueued := (hrun.queued (Sim.initial_emptyCaches _ _ _) ⟨rfl, rfl⟩).2
  obtain ⟨init, hinit⟩ := List.getLast?_eq_some_iff.mp he
  have hlinked := EventQueue.linked_empty.foldl_push sys.sim.events
  rw [List.nil_append] at hlinked
  have hnext : (sys.sim.events.foldl EventQueue.push .empty).resumeSeq.nextSeq = 1 := by
    dsimp only at hinit
    rw [hinit] at hlinked ⊢
    rw [nextSeq_resumeSeq hlinked, of_decide_eq_true hzero]
    rfl
  refine ⟨_, _, sys, _, hrun, by decide, Sim.initial_emptyCaches _ _ _, ⟨rfl, rfl⟩,
    readTrace_writeTrace hqueued.linked, fun hall => ?_⟩
  have hlt := hall e' he'
  rw [hnext, of_decide_eq_true hseq] at hlt
  exact absurd hlt (by decide)

end CacheSimulator
