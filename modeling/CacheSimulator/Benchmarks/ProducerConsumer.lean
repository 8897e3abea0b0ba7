import CacheSimulator.Benchmarks.Setup
import CacheSimulator.Benchmarks.Queue.Progress

/-!
# Producer and consumer

`producer_consumer.cpp`: core 0 sends the numbers below `ITEMS` to core 1 through a ring
queue in the simulated memory, whose head and tail lie in one line.
-/

namespace CacheSimulator

open SharedMemory

/-! ## The queue in memory -/

def queueBase : Addr := 0x600000#64

/-- `HEAD_VA`, `TAIL_VA` and `BUF_VA`. -/
def headAddress : Addr := queueBase

def tailAddress : Addr := queueBase + 4#64

def bufAddress : Addr := queueBase + 64#64

def queueAddress : QueueCell → Addr
  | .head => headAddress
  | .tail => tailAddress
  | .slot i => bufAddress + BitVec.ofNat 64 i * 4#64

def queuePages : List Addr :=
  let endAddress := bufAddress + BitVec.ofNat 64 bufSize * 4#64
  let count := (endAddress - queueBase + pageSize - 1) / pageSize
  (List.range count.toNat).map fun i => queueBase + BitVec.ofNat 64 i * pageSize

def queueMachine : Except Fault Sim := do
  let s ← setUp queuePages
  let (s, _) ← cpuWrite s 0 headAddress (LittleEndian.encode 4 (0 : BitVec 32))
  let (s, _) ← cpuWrite s 0 tailAddress (LittleEndian.encode 4 (0 : BitVec 32))
  .ok { s with callback := true }

/-- The first page of the queue is in the first frame, and the second one follows the
tables. -/
def queuePhysical : QueueCell → Addr
  | .head => 0x1000#64
  | .tail => 0x1004#64
  | .slot i => if (i : ℕ) < 1008 then 0x1040#64 + BitVec.ofNat 64 i * 4#64
      else 0x5000#64 + BitVec.ofNat 64 (i - 1008) * 4#64

theorem queuePhysical_slot : ∀ i : Fin bufSize, (queuePhysical (.slot i)).toNat =
    if (i : ℕ) < 1008 then 0x1040 + 4 * (i : ℕ) else 0x5000 + 4 * ((i : ℕ) - 1008) := by
  decide +kernel

theorem queuePhysical_apart {cell cell' : QueueCell} (h : cell ≠ cell') :
    Apart (queuePhysical cell) (queuePhysical cell') := by
  have hhead : (queuePhysical .head).toNat = 0x1000 := by decide
  have htail : (queuePhysical .tail).toNat = 0x1004 := by decide
  unfold Apart
  cases cell with
  | head =>
      cases cell' with
      | head => exact absurd rfl h
      | tail => omega
      | slot j =>
          rw [queuePhysical_slot]
          split <;> omega
  | tail =>
      cases cell' with
      | head => omega
      | tail => exact absurd rfl h
      | slot j =>
          rw [queuePhysical_slot]
          split <;> omega
  | slot i =>
      rw [queuePhysical_slot]
      cases cell' with
      | head => split <;> omega
      | tail => split <;> omega
      | slot j =>
          have hij : (i : ℕ) ≠ j := fun heq => h (congrArg QueueCell.slot (Fin.ext heq))
          rw [queuePhysical_slot]
          split <;> split <;> omega

theorem queueAddress_frame : ∀ i : Fin bufSize,
    if (i : ℕ) < 1008 then toFrame (queueAddress (.slot i)) = toFrame queueBase ∧
      0x1000#64 ||| (queueAddress (.slot i) &&& 0xFFF#64) = queuePhysical (.slot i)
    else toFrame (queueAddress (.slot i)) = toFrame (queueBase + pageSize) ∧
      0x5000#64 ||| (queueAddress (.slot i) &&& 0xFFF#64) = queuePhysical (.slot i) := by
  decide +kernel

theorem queuePhysical_line : ∀ i : Fin bufSize, l1ToOffset (queuePhysical (.slot i)) + 4 ≤ 64 ∧
    (toLineBase (queuePhysical (.slot i))).toNat + 64 ≤ physSize.toNat ∧
      pageOf (lineNo (queuePhysical (.slot i))) ∈ ({1, 5} : Finset ℕ) := by
  decide +kernel

theorem queue_laidOut {s : Sim} (hsize : s.mem.size = physSize)
    (hroot : ∀ p, s.pml4s p = s.pml4s 0)
    (hfirst : walkLeaf (s.pml4s 0) s.mem queueBase = some 0x1000#64)
    (hsecond : walkLeaf (s.pml4s 0) s.mem (queueBase + pageSize) = some 0x5000#64) :
    LaidOut {1, 5} s queueAddress queuePhysical := by
  refine ⟨fun c cell => ?_, fun cell => ?_, fun cell => ?_, fun cell => ?_, fun _ _ =>
    queuePhysical_apart⟩
  · cases cell with
    | head => exact setUp_walk hroot hfirst (by decide) c
    | tail => exact setUp_walk hroot hfirst (by decide) c
    | slot i =>
        have hframe := queueAddress_frame i
        split at hframe
        · rw [← hframe.2]
          exact setUp_walk hroot hfirst hframe.1 c
        · rw [← hframe.2]
          exact setUp_walk hroot hsecond hframe.1 c
  · cases cell with
    | head => decide
    | tail => decide
    | slot i => exact (queuePhysical_line i).1
  · rw [hsize]
    cases cell with
    | head => decide
    | tail => decide
    | slot i => exact (queuePhysical_line i).2.1
  · cases cell with
    | head => decide
    | tail => decide
    | slot i => exact (queuePhysical_line i).2.2

/-- The threads start with an empty queue on a machine that has not evicted a line since
`s₀`. -/
structure QueueStart (s₀ s₁ : Sim) : Prop where
  coldTlbs : s₀.ColdTlbs
  size : s₀.mem.size.toNat < 2 ^ 63
  laidOut : LaidOut {1, 5} s₀ queueAddress queuePhysical
  words : ∃ memory, memory .head = 0 ∧ memory .tail = 0 ∧
    s₁.HoldsWords {1, 5} s₀ queuePhysical memory

theorem queuePages_fit : RoomInL2 {1, 5} := RoomInL1.roomInL2 (by decide)

theorem queueMachine_sat : queueMachine.Sat (fun s₁ => ∃ s₀, QueueStart s₀ s₁) fun _ => False := by
  have hfacts : ∃ s, setUp queuePages = .ok s ∧ s.mem.size = physSize ∧
      walkLeaf (s.pml4s 0) s.mem queueBase = some 0x1000#64 ∧
      walkLeaf (s.pml4s 0) s.mem (queueBase + pageSize) = some 0x5000#64 := by
    decide +kernel
  obtain ⟨s₀, hsetUp, hsize, hfirst, hsecond⟩ := hfacts
  obtain ⟨hempty, hcold, -, hroot⟩ := (setUp_sat queuePages).of_eq_ok hsetUp
  have hlaid := queue_laidOut hsize hroot hfirst hsecond
  have hlt : s₀.mem.size.toNat < 2 ^ 63 := by
    rw [hsize]
    decide
  have hwords₀ : s₀.HoldsWords {1, 5} s₀ queuePhysical _ := .start hempty hcold
  obtain ⟨s', bytes, hhead⟩ := hwords₀.returns hcold hlt hlaid 0 (.store .head 0)
  have hwords' := (hwords₀.step queuePages_fit hcold hlaid hhead).2
  obtain ⟨s'', bytes', htail⟩ := hwords'.returns hcold hlt hlaid 0 (.store .tail 0)
  have hwords'' := (hwords'.step queuePages_fit hcold hlaid htail).2
  have hhead' : cpuWrite s₀ 0 headAddress (LittleEndian.encode 4 (0 : BitVec 32)) =
    .ok (s', some bytes) := hhead
  have htail' : cpuWrite s' 0 tailAddress (LittleEndian.encode 4 (0 : BitVec 32)) =
    .ok (s'', some bytes') := htail
  unfold queueMachine
  rw [hsetUp, Except.ok_bind, hhead', Except.ok_bind]
  dsimp only
  rw [htail', Except.ok_bind, Except.sat_ok]
  refine ⟨s₀, hcold, hlt, hlaid, _, ?_, ?_, hwords''.setCallback true⟩
  · simp [Op.apply]
  · simp [Op.apply]

/-! ## The program -/

variable {headFirst : Bool} {trace : List (Access CoreId QueueCell (BitVec 32))} {s₁ t : Sim}
  {threads : CoreId → Producer ⊕ Consumer}

/-- What holds of the threads over a shared memory holds on the simulator. -/
theorem ProgramRun.queueing (h₁ : queueMachine = .ok s₁)
    (h : ProgramRun queueAddress (fun _ => queueThread headFirst) queueStart s₁ trace threads t) :
    ∃ s₀ memory k p st₀ st₁, QueueStart s₀ s₁ ∧ t.HoldsWords {1, 5} s₀ queuePhysical memory ∧
      Queueing headFirst trace ⟨memory, threads⟩ k p st₀ st₁ := by
  obtain ⟨s₀, hstart⟩ := queueMachine_sat.of_eq_ok h₁
  obtain ⟨memory, hhead, htail, hwords₁⟩ := hstart.words
  obtain ⟨⟨memory', _⟩, rfl, hwords, hrun⟩ :=
    h.shared_memory queuePages_fit hstart.coldTlbs hstart.laidOut hwords₁
  obtain ⟨k, p, st₀, st₁, hqueue⟩ := Queueing.of_run hhead htail hrun
  exact ⟨s₀, memory', k, p, st₀, st₁, hstart, hwords, hqueue⟩

theorem ProgramRun.exists_done (h₁ : queueMachine = .ok s₁)
    (h : ProgramRun queueAddress (fun _ => queueThread headFirst) queueStart s₁ trace threads t) :
    ∃ more threads' t', ProgramRun queueAddress (fun _ => queueThread headFirst) queueStart s₁
      (trace ++ more) threads' t' ∧ ∀ c, (queueThread headFirst).next (threads' c) = none := by
  obtain ⟨s₀, memory, k, p, st₀, st₁, hstart, hwords, hqueue⟩ := h.queueing h₁
  obtain ⟨more, state, hmore, hdone⟩ := hqueue.finishes
  obtain ⟨t', h', -⟩ := h.continues queuePages_fit hstart.coldTlbs hstart.size hstart.laidOut
    hwords hmore
  exact ⟨more, state.threads, t', h', hdone⟩

/-- The consumer takes the items that the producer has sent, in order, each of them once; when
a thread is done it has handled all of them. -/
theorem ProgramRun.queue_fifo (h₁ : queueMachine = .ok s₁)
    (h : ProgramRun queueAddress (fun _ => queueThread headFirst) queueStart s₁ trace threads t) :
    (∃ n m, trace.filterMap loadedItem = queueItems n ∧ trace.filterMap storedItem = queueItems m ∧
      n ≤ m ∧ m < n + bufSize) ∧
    ((queueThread headFirst).next (threads 0) = none →
      trace.filterMap storedItem = queueItems itemCount) ∧
    ((queueThread headFirst).next (threads 1) = none →
      trace.filterMap loadedItem = queueItems itemCount) ∧
    CanCall queueAddress (fun _ => queueThread headFirst) threads t := by
  obtain ⟨s₀, memory, k, p, st₀, st₁, hstart, hwords, hqueue⟩ := h.queueing h₁
  have hstored := hqueue.producerAt.stored_bounds hqueue.holds.slots.room
  have hloaded := hqueue.consumerAt.loaded_bounds hqueue.holds.slots.le
  exact ⟨⟨st₁.loaded, st₀.stored, hqueue.loaded, hqueue.stored, by omega, by omega⟩,
    hqueue.stored_of_done, hqueue.loaded_of_done,
    hwords.canCall hstart.coldTlbs hstart.size hstart.laidOut⟩

/-- When both threads are done, every item has been sent and has arrived. -/
theorem queue_fifo_done : ∃ s₁ trace threads t, queueMachine = .ok s₁ ∧
    ProgramRun queueAddress (fun _ => queueThread false) queueStart s₁ trace threads t ∧
    trace.filterMap storedItem = queueItems 2000 ∧
    trace.filterMap loadedItem = queueItems 2000 ∧
    ∃ n m, trace.filterMap loadedItem = queueItems n ∧ trace.filterMap storedItem = queueItems m ∧
      n ≤ m ∧ m < n + bufSize := by
  obtain ⟨s₁, h₁, -⟩ := queueMachine_sat.exists_ok
  have hstart : ProgramRun queueAddress (fun _ => queueThread false) queueStart s₁ [] _ _ := .start
  obtain ⟨trace, threads, t, hrun, hdone⟩ := hstart.exists_done h₁
  obtain ⟨hitems, hstored, hloaded, -⟩ := hrun.queue_fifo h₁
  exact ⟨s₁, _, threads, t, h₁, hrun, hstored (hdone 0), hloaded (hdone 1), hitems⟩

/-- Whatever the threads have done, they can go on and finish, and all items arrive. -/
theorem ProgramRun.queue_finishes (h₁ : queueMachine = .ok s₁)
    (h : ProgramRun queueAddress (fun _ => queueThread headFirst) queueStart s₁ trace threads t) :
    ∃ more threads' t', ProgramRun queueAddress (fun _ => queueThread headFirst) queueStart s₁
        (trace ++ more) threads' t' ∧
      (∀ c, (queueThread headFirst).next (threads' c) = none) ∧
      (trace ++ more).filterMap loadedItem = queueItems itemCount := by
  obtain ⟨more, threads', t', h', hdone⟩ := h.exists_done h₁
  obtain ⟨_, _, _, _, _, _, -, -, hqueue⟩ := h'.queueing h₁
  exact ⟨more, threads', t', h', hdone, hqueue.loaded_of_done (hdone 1)⟩

/-- The program has a run in which both threads finish. -/
theorem queue_finishes_start : ∃ s₁ trace threads t, queueMachine = .ok s₁ ∧
    ProgramRun queueAddress (fun _ => queueThread true) queueStart s₁ trace threads t ∧
    (∀ c, (queueThread true).next (threads c) = none) ∧
    trace.filterMap loadedItem = queueItems 2000 := by
  obtain ⟨s₁, h₁, -⟩ := queueMachine_sat.exists_ok
  have hrun : ProgramRun queueAddress (fun _ => queueThread true) queueStart s₁ [] _ _ := .start
  obtain ⟨more, threads, t, hrun', hdone, hitems⟩ := hrun.queue_finishes h₁
  exact ⟨s₁, _, threads, t, h₁, hrun', hdone, hitems⟩

end CacheSimulator
