import CacheSimulator.Benchmarks.Setup

/-!
# False sharing

`false_sharing.cpp` and `false_sharing_padded.cpp`: each core increments a counter of its
own, a load and a store at a time. The counters lie in one line in the first program and
in two lines in the second.
-/

namespace CacheSimulator

open SharedMemory

def counterBase : Addr := 0x600000#64

def iters : ℕ := 5000

/-- The distance of the two counters: `LINE_SIZE` in `false_sharing_padded.cpp`, and
`sizeof(uint32_t)` in `false_sharing.cpp`. -/
def counterStride (padded : Bool) : Addr := if padded then 64#64 else 4#64

def counterAddress (padded : Bool) (c : CoreId) : Addr :=
  counterBase + BitVec.ofNat 64 c * counterStride padded

/-! ## The threads -/

/-- Where `counter_rmw` stands in its loop: before the `cpu_read` of iteration `i`, or
before its `cpu_write` of `val`. -/
inductive CounterRmw where
  | read (i : ℕ)
  | write (i : ℕ) (val : BitVec 32)

namespace CounterRmw

def accesses : CounterRmw → ℕ
  | read i => 2 * i
  | write i _ => 2 * i + 1

end CounterRmw

def counterRmw (c : CoreId) : Thread CoreId (BitVec 32) CounterRmw where
  next
    | .read i => if i < iters then some (.load c) else none
    | .write _ val => some (.store c val)
  resume
    | .read i, val => .write i (val + 1)
    | .write i _, _ => .read (i + 1)

/-! ## Over a plain memory -/

/-- The `n`-th access of a thread loads `n / 2` or stores one more. -/
def counts (n : ℕ) : List (BitVec 32) := (List.range n).map fun j => BitVec.ofNat 32 ((j + 1) / 2)

theorem counts_succ (n : ℕ) : counts (n + 1) = counts n ++ [BitVec.ofNat 32 ((n + 1) / 2)] := by
  simp [counts, List.range_succ]

def CounterRmw.Counts (counter : BitVec 32) : CounterRmw → Prop
  | .read i => counter = BitVec.ofNat 32 i ∧ i ≤ iters
  | .write i val => counter = BitVec.ofNat 32 i ∧ val = BitVec.ofNat 32 (i + 1) ∧ i < iters

/-- An access of a thread is to its own counter. -/
theorem CounterRmw.Counts.step {memory : CoreId → BitVec 32} {thread : CounterRmw} {c : CoreId}
    {op : Op CoreId (BitVec 32)} (h : thread.Counts (memory c))
    (hnext : (counterRmw c).next thread = some op) :
    op.cell = c ∧ op.value memory = BitVec.ofNat 32 ((thread.accesses + 1) / 2) ∧
      ((counterRmw c).resume thread (op.value memory)).accesses = thread.accesses + 1 ∧
      ((counterRmw c).resume thread (op.value memory)).Counts (op.apply memory c) := by
  cases thread with
  | read i =>
      simp only [counterRmw, Option.ite_none_right_eq_some, Option.some.injEq] at hnext
      obtain ⟨hlt, rfl⟩ := hnext
      obtain ⟨hcounter, -⟩ := h
      have hhalf : (2 * i + 1) / 2 = i := by omega
      refine ⟨rfl, ?_, rfl, hcounter, ?_, hlt⟩
      · rw [accesses, hhalf]
        exact hcounter
      · rw [Op.value, hcounter, BitVec.ofNat_add]
        rfl
  | write i val =>
      obtain rfl := Option.some.inj hnext
      obtain ⟨-, rfl, hlt⟩ := h
      have hhalf : (2 * i + 1 + 1) / 2 = i + 1 := by omega
      refine ⟨rfl, ?_, rfl, Function.update_self _ _ _, hlt⟩
      rw [accesses, hhalf]
      rfl

structure Counting (trace : List (Access CoreId CoreId (BitVec 32)))
    (s : State CoreId CoreId (BitVec 32) CounterRmw) : Prop where
  counter : ∀ c, (s.threads c).Counts (s.memory c)
  values : ∀ c, valuesOf c trace = counts (s.threads c).accesses
  own : ∀ access ∈ trace, access.op.cell = access.thread

variable {trace : List (Access CoreId CoreId (BitVec 32))}
  {s : State CoreId CoreId (BitVec 32) CounterRmw}

/-- The step lemma. A thread leaves the counter of the other one alone. -/
theorem Counting.step {op : Op CoreId (BitVec 32)} {c : CoreId} (h : Counting trace s)
    (hnext : (counterRmw c).next (s.threads c) = some op) :
    Counting (trace ++ [⟨c, op, op.value s.memory⟩]) (s.step counterRmw c op) := by
  obtain ⟨hcell, hvalue, haccesses, hcounts⟩ := (h.counter c).step hnext
  refine ⟨fun b => ?_, fun b => ?_, fun access haccess => ?_⟩
  · by_cases hb : b = c
    · subst hb
      rw [State.step_memory, State.step_threads_self]
      exact hcounts
    · rw [State.step_memory, s.step_threads_of_ne _ _ _ hb, op.apply_of_ne s.memory (hcell ▸ hb)]
      exact h.counter b
  · rw [valuesOf_concat]
    by_cases hb : b = c
    · subst hb
      rw [if_pos rfl, State.step_threads_self, haccesses, counts_succ, h.values, hvalue]
    · rw [if_neg (Ne.symm hb), s.step_threads_of_ne _ _ _ hb]
      exact h.values b
  · rcases List.mem_append.mp haccess with hold | hnew
    · exact h.own access hold
    · obtain rfl := List.mem_singleton.mp hnew
      exact hcell

theorem Counting.start : Counting [] ⟨fun _ => 0, fun _ => .read 0⟩ := by
  refine ⟨fun c => ?_, fun c => rfl, fun access haccess => absurd haccess List.not_mem_nil⟩
  exact ⟨rfl, Nat.zero_le iters⟩

theorem Counting.of_run
    (h : SharedMemory.Run counterRmw ⟨fun _ => 0, fun _ => .read 0⟩ trace s) : Counting trace s :=
  h.invariant .start fun _ _ _ _ hs hnext => hs.step hnext

theorem CounterRmw.Counts.done_iff {thread : CounterRmw} {counter : BitVec 32} {c : CoreId}
    (h : thread.Counts counter) : thread.accesses ≤ 2 * iters ∧
      ((counterRmw c).next thread = none ↔ thread.accesses = 2 * iters) := by
  cases thread with
  | read i =>
      have hle := h.2
      refine ⟨by rw [accesses]; omega, ?_⟩
      simp only [counterRmw, accesses, ite_eq_right_iff, reduceCtorEq, imp_false]
      omega
  | write i val =>
      have hlt := h.2.2
      refine ⟨by rw [accesses]; omega, ?_⟩
      simp only [counterRmw, accesses, reduceCtorEq, false_iff]
      omega

/-! ## On the simulator -/

def counterStart : Except Fault Sim := do
  let s ← setUp [counterBase]
  .ok { s with callback := true }

/-- The counters are in the first frame, which follows the reserved one. -/
def counterPhysical (padded : Bool) (c : CoreId) : Addr :=
  0x1000#64 + BitVec.ofNat 64 c * counterStride padded

/-- What the first state of the program looks like. -/
structure CounterStart (s₀ : Sim) : Prop where
  emptyCaches : s₀.EmptyCaches
  coldTlbs : s₀.ColdTlbs
  size : s₀.mem.size = physSize
  laidOut : ∀ padded, LaidOut {1} s₀ (counterAddress padded) (counterPhysical padded)
  zero : ∀ padded c, wordAt s₀.mem.data (counterPhysical padded c) = 0
  pmc : ∀ c, (s₀.cpu.cores c).pmc = ⟨0, 0, 0, 0⟩

theorem counterStart_sat : counterStart.Sat CounterStart fun _ => False := by
  have hfacts : ∃ s, setUp [counterBase] = .ok s ∧ s.mem.size = physSize ∧
      walkLeaf (s.pml4s 0) s.mem counterBase = some 0x1000#64 ∧
      ∀ padded c, wordAt s.mem.data (counterPhysical padded c) = 0 := by
    decide +kernel
  obtain ⟨s, hsetUp, hsize, hleaf, hzero⟩ := hfacts
  obtain ⟨hempty, hcold, hcpu, hroot⟩ := (setUp_sat [counterBase]).of_eq_ok hsetUp
  unfold counterStart
  rw [hsetUp, Except.ok_bind, Except.sat_ok]
  refine ⟨?_, ⟨hcold.l1Dtlb, hcold.l2Dtlb, hcold.aligned⟩, hsize, fun padded => ?_, hzero,
    fun c => ?_⟩
  · exact ⟨hempty.l1, hempty.l2, hempty.masks, hempty.streams, hempty.history⟩
  · have hpage : ∀ c, toFrame (counterAddress padded c) = toFrame counterBase := by
      revert padded
      decide
    have hphysical : ∀ c, 0x1000#64 ||| (counterAddress padded c &&& 0xFFF#64) =
        counterPhysical padded c := by
      revert padded
      decide
    refine ⟨fun c c' => ?_, ?_, ?_, ?_, ?_⟩
    · have hwalk := setUp_walk hroot hleaf (hpage c') c
      rw [hphysical] at hwalk
      exact hwalk
    · revert padded
      decide
    · rw [show Sim.mem _ = s.mem from rfl, hsize]
      revert padded
      decide
    · revert padded
      decide
    · revert padded
      decide
  · exact congrArg (fun cpu : CPU => (cpu.cores c).pmc) hcpu

variable {padded : Bool} {s₀ s : Sim} {threads : CoreId → CounterRmw}

theorem ProgramRun.counting (h₀ : CounterStart s₀)
    (h : ProgramRun (counterAddress padded) counterRmw (fun _ => .read 0) s₀ trace threads s) :
    (∃ memory, Counting trace ⟨memory, threads⟩) ∧
      CanCall (counterAddress padded) counterRmw threads s := by
  obtain ⟨⟨memory, _⟩, rfl, hwords, hrun⟩ := h.shared_memory (RoomInL1.roomInL2 (by decide))
    h₀.coldTlbs (h₀.laidOut padded) (.start h₀.emptyCaches h₀.coldTlbs)
  have hzero : (fun c => wordAt s₀.mem.data (counterPhysical padded c)) = fun _ => 0 :=
    funext (h₀.zero padded)
  rw [hzero] at hrun
  exact ⟨⟨memory, .of_run hrun⟩,
    hwords.canCall h₀.coldTlbs (by rw [h₀.size]; decide) (h₀.laidOut padded)⟩

/-- No increment is lost, whether or not the counters share a line, and both threads finish. -/
theorem ProgramRun.counters_exact (h₀ : counterStart = .ok s₀)
    (h : ProgramRun (counterAddress padded) counterRmw (fun _ => .read 0) s₀ trace threads s) :
    (∀ c, valuesOf c trace = counts (threads c).accesses) ∧
      (∀ c, (threads c).accesses ≤ 2 * iters ∧
        ((counterRmw c).next (threads c) = none ↔ (threads c).accesses = 2 * iters)) ∧
      CanCall (counterAddress padded) counterRmw threads s := by
  obtain ⟨⟨memory, hcounting⟩, hcan⟩ := h.counting (counterStart_sat.of_eq_ok h₀)
  exact ⟨hcounting.values, fun c => (hcounting.counter c).done_iff, hcan⟩

/-- Both counters have been incremented once. -/
theorem counters_exact_interleaved : ∃ s₀ trace threads s, counterStart = .ok s₀ ∧
    ProgramRun (counterAddress false) counterRmw (fun _ => .read 0) s₀ trace threads s ∧
    trace.map Access.thread = [0, 1, 1, 0] ∧ ∀ c, valuesOf c trace = [0, 1] := by
  obtain ⟨s₀, h₀, -⟩ := counterStart_sat.exists_ok
  have hrun₀ : ProgramRun (counterAddress false) counterRmw (fun _ => .read 0) s₀ [] _ _ := .start
  obtain ⟨-, -, hcan₀⟩ := hrun₀.counters_exact h₀
  obtain ⟨s₁, bytes₁, hexec₁⟩ := hcan₀ 0 _ rfl
  have hrun₁ := hrun₀.call 0 rfl hexec₁
  obtain ⟨-, -, hcan₁⟩ := hrun₁.counters_exact h₀
  obtain ⟨s₂, bytes₂, hexec₂⟩ := hcan₁ 1 _ rfl
  have hrun₂ := hrun₁.call 1 rfl hexec₂
  obtain ⟨-, -, hcan₂⟩ := hrun₂.counters_exact h₀
  obtain ⟨s₃, bytes₃, hexec₃⟩ := hcan₂ 1 _ rfl
  have hrun₃ := hrun₂.call 1 rfl hexec₃
  obtain ⟨-, -, hcan₃⟩ := hrun₃.counters_exact h₀
  obtain ⟨s₄, bytes₄, hexec₄⟩ := hcan₃ 0 _ rfl
  have hrun₄ := hrun₃.call 0 rfl hexec₄
  obtain ⟨hvalues, -, -⟩ := hrun₄.counters_exact h₀
  exact ⟨s₀, _, _, s₄, h₀, hrun₄, rfl,
    Fin.forall_fin_two.mpr ⟨(hvalues 0).trans rfl, (hvalues 1).trans rfl⟩⟩

/-! ## The lines of the counters -/

/-- Core `c` holds the line of its own counter from its first access on, and every later
access finds it there. -/
theorem UnboundedCaches.afterAccesses_own {line : CoreId → LineNo} (hline : Function.Injective line)
    {trace : List (Access CoreId CoreId (BitVec 32))}
    (hown : ∀ access ∈ trace, access.op.cell = access.thread) (c : CoreId) :
    ((afterAccesses line trace).holds (line c) c = true ↔ valuesOf c trace ≠ []) ∧
      (afterAccesses line trace).hits c = (valuesOf c trace).length - 1 := by
  induction trace using List.reverseRecOn with
  | nil => simp [afterAccesses, empty, valuesOf]
  | append_singleton trace access ih =>
      obtain ⟨hholds, hhits⟩ := ih fun a ha => hown a (List.mem_append_left _ ha)
      have hcell := hown access (by simp)
      have hstep : afterAccesses line (trace ++ [access]) = (afterAccesses line trace).access
          access.thread (line access.thread) access.op.isStore := by
        rw [afterAccesses, List.foldl_append, List.foldl_cons, List.foldl_nil, hcell]
        rfl
      rw [hstep, valuesOf_concat]
      by_cases hc : access.thread = c
      · subst hc
        simp only [UnboundedCaches.access, Function.update_self, hhits, if_true]
        refine ⟨by simp, ?_⟩
        by_cases hnil : valuesOf access.thread trace = []
        · simp [hnil, hholds]
        · have hpos := List.length_pos_iff.mpr hnil
          rw [if_pos (hholds.mpr hnil), List.length_append, List.length_singleton]
          omega
      · have hne : line c ≠ line access.thread := fun h => hc (hline h).symm
        simp only [UnboundedCaches.access, Function.update_of_ne hne,
          Function.update_of_ne (Ne.symm hc), if_neg hc]
        exact ⟨hholds, hhits⟩

theorem counterPhysical_lines : ∀ padded, (Finset.univ.image fun c : CoreId =>
    lineNo (counterPhysical padded c)).card = if padded then 2 else 1 := by decide

/-- The lines of the counters are fetched from memory once, and with the padding no access
but the first one of a core misses in its L1 cache. -/
theorem ProgramRun.counters_cost (h₀ : counterStart = .ok s₀)
    (h : ProgramRun (counterAddress padded) counterRmw (fun _ => .read 0) s₀ trace threads s) :
    s.memFetches ≤ (if padded then 2 else 1) ∧
      (padded = true → ∀ c, (s.cpu.cores c).pmc.l1dHits = (valuesOf c trace).length - 1) := by
  have hstart := counterStart_sat.of_eq_ok h₀
  have hfit : RoomInL1 {1} := by decide
  obtain ⟨⟨memory, hcounting⟩, -⟩ := h.counting hstart
  refine ⟨?_, fun hpadded c => ?_⟩
  · have hcost := h.memFetches_le hfit.roomInL2 hstart.emptyCaches hstart.coldTlbs
      (hstart.laidOut padded)
    have hzero : s₀.memFetches = 0 := by
      unfold Sim.memFetches
      simp [hstart.pmc]
    have hlines : (trace.map fun access =>
        lineNo (counterPhysical padded access.op.cell)).toFinset ⊆
        Finset.univ.image fun c => lineNo (counterPhysical padded c) := by
      intro a ha
      obtain ⟨access, -, rfl⟩ := List.mem_map.mp (List.mem_toFinset.mp ha)
      exact Finset.mem_image_of_mem _ (Finset.mem_univ _)
    have hcard := counterPhysical_lines padded
    have hle := Finset.card_le_card hlines
    omega
  · subst hpadded
    have hmirrors := h.mirrors hfit hstart.emptyCaches hstart.coldTlbs (hstart.laidOut true)
    have hinjective : Function.Injective fun c => lineNo (counterPhysical true c) := by decide
    rw [hmirrors.hits, hstart.pmc, Nat.zero_add]
    exact (UnboundedCaches.afterAccesses_own hinjective hcounting.own c).2

/-- Both cores have read and written their counters: the stores are hits. -/
theorem counters_cost_padded : ∃ s₀ trace threads s, counterStart = .ok s₀ ∧
    ProgramRun (counterAddress true) counterRmw (fun _ => .read 0) s₀ trace threads s ∧
    trace.map Access.thread = [0, 1, 1, 0] ∧ s.memFetches ≤ 2 ∧
      ∀ c, (s.cpu.cores c).pmc.l1dHits = 1 := by
  obtain ⟨s₀, h₀, hstart⟩ := counterStart_sat.exists_ok
  have hrun₀ : ProgramRun (counterAddress true) counterRmw (fun _ => .read 0) s₀ [] _ _ := .start
  obtain ⟨s₁, bytes₁, hexec₁⟩ := (hrun₀.counting hstart).2 0 _ rfl
  have hrun₁ := hrun₀.call 0 rfl hexec₁
  obtain ⟨s₂, bytes₂, hexec₂⟩ := (hrun₁.counting hstart).2 1 _ rfl
  have hrun₂ := hrun₁.call 1 rfl hexec₂
  obtain ⟨s₃, bytes₃, hexec₃⟩ := (hrun₂.counting hstart).2 1 _ rfl
  have hrun₃ := hrun₂.call 1 rfl hexec₃
  obtain ⟨s₄, bytes₄, hexec₄⟩ := (hrun₃.counting hstart).2 0 _ rfl
  have hrun₄ := hrun₃.call 0 rfl hexec₄
  obtain ⟨hfetches, hhits⟩ := hrun₄.counters_cost h₀
  exact ⟨s₀, _, _, s₄, h₀, hrun₄, rfl, hfetches,
    Fin.forall_fin_two.mpr ⟨(hhits rfl 0).trans rfl, (hhits rfl 1).trans rfl⟩⟩

end CacheSimulator
