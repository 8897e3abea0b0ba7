import CacheSimulator.Cpu

/-!
# Runs

A run is a sequence of calls by the two cores, in any interleaving, none of
which aborts. It starts from empty caches, and the threads may begin a new
sequence number between two calls.
-/

namespace CacheSimulator

/-- No way of any cache is in use, no stream is, and nothing has been recorded.
Tags, data, replacement bits and TLBs are arbitrary. -/
structure Sim.EmptyCaches (s : Sim) : Prop where
  l1 : ∀ k c i w, (s.l1 k c i).state w = .invalid
  l2 : ∀ i w, (s.l2 i).state w = .invalid
  masks : ∀ i w, (s.l2 i).coreValidD w = 0 ∧ (s.l2 i).coreValidI w = 0
  streams : ∀ c i, ((s.cpu.cores c).prefetcher.streams i).confidence = .invalid
  history : s.history = []

/-- A call that has returned, the physical address it accessed, and its result;
the address is `none` when it page-faulted. -/
structure CallRecord where
  call : Call
  physicalAddress : Option Addr
  result : Option (List Byte)

/-- The calls of `trace`, made one after the other from `s₀`, each in a state that
satisfies `ok`, lead to the state `s`. -/
inductive Run (ok : Call → Sim → Prop) (s₀ : Sim) : List CallRecord → Sim → Prop
  | start : Run ok s₀ [] s₀
  | call {trace : List CallRecord} {s s' : Sim} {result : Option (List Byte)} (call : Call) :
      Run ok s₀ trace s → ok call s → call.exec s = .ok (s', result) →
        Run ok s₀ (trace ++ [⟨call, call.physicalAddress s, result⟩]) s'
  | beginStep {trace : List CallRecord} {s : Sim} (seq : BitVec 32) :
      Run ok s₀ trace s → Run ok s₀ trace { s with currentSeq := seq }

theorem Run.mono {ok ok' : Call → Sim → Prop} {s₀ s : Sim} {trace : List CallRecord}
    (hok : ∀ call s, ok call s → ok' call s) (h : Run ok s₀ trace s) : Run ok' s₀ trace s := by
  induction h with
  | start => exact .start
  | call call _ hcall hexec ih => exact .call call ih (hok _ _ hcall) hexec
  | beginStep seq _ ih => exact .beginStep seq ih

/-! ## Conditions on calls -/

def L2Set.ModifiedWithSharers (set : L2Set) (w : Fin 16) (c : CoreId) : Prop :=
  set.state w = .modified ∧
    (set.coreValidD w &&& ~~~coreBit c) ||| (set.coreValidI w &&& ~~~coreBit c) ≠ 0

namespace Call

def coreId : Call → CoreId
  | read c _ _ => c
  | write c _ _ => c
  | fetch c _ _ => c

def IsData : Call → Prop
  | read _ _ _ => True
  | write _ _ _ => True
  | fetch _ _ _ => False

def Any (_ : Call) (_ : Sim) : Prop := True

/-- The bytes a call covers lie in one line, and that line is inside memory. A
call that page-faults covers none. -/
def InOneLine (call : Call) (s : Sim) : Prop :=
  ∀ physicalAddress ∈ call.physicalAddress s,
    l1ToOffset physicalAddress + call.dataSize ≤ 64 ∧
      (toLineBase physicalAddress).toNat + 64 ≤ s.mem.size.toNat

/-- The way of L2 that a call of core `c` hits after it has missed in the core's
`k` cache. -/
def l2Hit (k : L1Kind) (c : CoreId) (physicalAddress : Addr) (s : Sim) : Option (Fin 16) :=
  match findL1Way (s.l1 k c (l1ToIndex physicalAddress)) (l1ToTag physicalAddress) with
  | some _ => none
  | none => l2FindWay (s.l2 (l2ToIndex physicalAddress)) (l2ToTag physicalAddress)

/-- The call is a read that misses in its own L1D, hits a MODIFIED line in L2,
and finds that another core holds the line. -/
def DowngradesModified (call : Call) (s : Sim) : Prop :=
  match call with
  | read c virtualAddress dataSize =>
      ∃ physicalAddress ∈ (read c virtualAddress dataSize).physicalAddress s,
        ∃ w ∈ l2Hit .data c physicalAddress s,
          (s.l2 (l2ToIndex physicalAddress)).ModifiedWithSharers w c
  | _ => False

section Decidability

/- The library's instances for these two quantifiers split on `p x` once more,
which the kernel does not evaluate in reasonable time. -/
variable {α : Type*} {p : α → Prop} [DecidablePred p]

def decidableForallMem : (o : Option α) → Decidable (∀ x ∈ o, p x)
  | none => .isTrue (by simp)
  | some x => decidable_of_iff (p x) (by simp)

def decidableExistsMem : (o : Option α) → Decidable (∃ x ∈ o, p x)
  | none => .isFalse (by simp)
  | some x => decidable_of_iff (p x) (by simp)

end Decidability

instance (call : Call) : Decidable call.IsData :=
  match call with
  | read _ _ _ => inferInstanceAs (Decidable True)
  | write _ _ _ => inferInstanceAs (Decidable True)
  | fetch _ _ _ => inferInstanceAs (Decidable False)

instance (call : Call) (s : Sim) : Decidable (call.Any s) := inferInstanceAs (Decidable True)

instance (call : Call) (s : Sim) : Decidable (call.InOneLine s) := decidableForallMem _

instance (set : L2Set) (w : Fin 16) (c : CoreId) : Decidable (set.ModifiedWithSharers w c) :=
  inferInstanceAs (Decidable (_ ∧ _))

instance (c : CoreId) (physicalAddress : Addr) (s : Sim) :
    Decidable (∃ w ∈ l2Hit .data c physicalAddress s,
      (s.l2 (l2ToIndex physicalAddress)).ModifiedWithSharers w c) :=
  decidableExistsMem _

instance (call : Call) (s : Sim) : Decidable (call.DowngradesModified s) :=
  match call with
  | read _ _ _ => decidableExistsMem _
  | write _ _ _ => inferInstanceAs (Decidable False)
  | fetch _ _ _ => inferInstanceAs (Decidable False)

end Call

/-! ## Executable runs -/

section Execution

variable (ok : Call → Sim → Prop) [∀ call s, Decidable (ok call s)]

/-- The calls in order, or `none` when one of them aborts or is not `ok`. -/
def runCalls : List Call → Sim → Option (List CallRecord × Sim)
  | [], s => some ([], s)
  | call :: calls, s =>
      if ok call s then
        match call.exec s with
        | .ok (s', result) =>
            (runCalls calls s').map fun (trace, s'') =>
              (⟨call, call.physicalAddress s, result⟩ :: trace, s'')
        | .error _ => none
      else none

variable {ok}

theorem Run.of_runCalls {s₀ : Sim} {calls : List Call} :
    ∀ {trace trace' : List CallRecord} {s s' : Sim}, Run ok s₀ trace s →
      runCalls ok calls s = some (trace', s') → Run ok s₀ (trace ++ trace') s' := by
  induction calls with
  | nil =>
      intro trace trace' s s' hrun h
      obtain ⟨rfl, rfl⟩ := Prod.mk.inj (Option.some.inj h)
      rwa [List.append_nil]
  | cons call calls ih =>
      intro trace trace' s s' hrun h
      rw [runCalls] at h
      split at h
      · rename_i hok
        split at h
        · rename_i s₁ result hexec
          obtain ⟨⟨rest, s₂⟩, hrest, heq⟩ := Option.map_eq_some_iff.mp h
          obtain ⟨rfl, rfl⟩ := Prod.mk.inj heq
          have hnext := ih (hrun.call call hok hexec) hrest
          rwa [List.append_assoc, List.singleton_append] at hnext
        · cases h
      · cases h

theorem runCalls_calls {calls : List Call} :
    ∀ {trace : List CallRecord} {s s' : Sim}, runCalls ok calls s = some (trace, s') →
      trace.map CallRecord.call = calls := by
  induction calls with
  | nil =>
      intro trace s s' h
      obtain ⟨rfl, -⟩ := Prod.mk.inj (Option.some.inj h)
      rfl
  | cons call calls ih =>
      intro trace s s' h
      rw [runCalls] at h
      split at h
      · split at h
        · obtain ⟨⟨rest, s₂⟩, hrest, heq⟩ := Option.map_eq_some_iff.mp h
          obtain ⟨rfl, -⟩ := Prod.mk.inj heq
          rw [List.map_cons, ih hrest]
        · cases h
      · cases h

theorem exists_run {calls : List Call} {s : Sim} (h : (runCalls ok calls s).isSome) :
    ∃ trace s', Run ok s trace s' ∧ trace.map CallRecord.call = calls := by
  obtain ⟨⟨trace, s'⟩, htrace⟩ := Option.isSome_iff_exists.mp h
  exact ⟨trace, s', .of_runCalls .start htrace, runCalls_calls htrace⟩

variable (ok) in
/-- The calls in order, each as a step with a number of its own. -/
def runSteps : List Call → BitVec 32 → Sim → Option Sim
  | [], _, s => some s
  | call :: calls, seq, s =>
      (runCalls ok [call] { s with currentSeq := seq }).bind fun r => runSteps calls (seq + 1) r.2

theorem Run.of_runSteps {s₀ : Sim} {calls : List Call} :
    ∀ {trace : List CallRecord} {seq : BitVec 32} {s s' : Sim}, Run ok s₀ trace s →
      runSteps ok calls seq s = some s' → ∃ trace', Run ok s₀ trace' s' := by
  induction calls with
  | nil =>
      intro trace seq s s' hrun h
      obtain rfl := Option.some.inj h
      exact ⟨trace, hrun⟩
  | cons call calls ih =>
      intro trace seq s s' hrun h
      rw [runSteps] at h
      obtain ⟨⟨trace₁, s₁⟩, hcall, hrest⟩ := Option.bind_eq_some_iff.mp h
      exact ih (.of_runCalls (hrun.beginStep seq) hcall) hrest

/-- The state after a call does not depend on what is asked of it. -/
theorem runCalls_unique {ok' : Call → Sim → Prop} [∀ call s, Decidable (ok' call s)]
    {calls : List Call} : ∀ {s : Sim} {r r' : List CallRecord × Sim},
      runCalls ok calls s = some r → runCalls ok' calls s = some r' → r = r' := by
  induction calls with
  | nil =>
      intro s r r' h h'
      exact Option.some.inj (h.symm.trans h')
  | cons call calls ih =>
      intro s r r' h h'
      rw [runCalls] at h h'
      split at h
      · split at h'
        · cases hexec : call.exec s with
          | error f =>
              rw [hexec] at h
              cases h
          | ok next =>
              rw [hexec] at h h'
              obtain ⟨rest, hrest, rfl⟩ := Option.map_eq_some_iff.mp h
              obtain ⟨rest', hrest', rfl⟩ := Option.map_eq_some_iff.mp h'
              rw [ih hrest hrest']
        · cases h'
      · cases h

theorem runSteps_unique {ok' : Call → Sim → Prop} [∀ call s, Decidable (ok' call s)]
    {calls : List Call} : ∀ {seq : BitVec 32} {s t t' : Sim},
      runSteps ok calls seq s = some t → runSteps ok' calls seq s = some t' → t = t' := by
  induction calls with
  | nil =>
      intro seq s t t' h h'
      exact Option.some.inj (h.symm.trans h')
  | cons call calls ih =>
      intro seq s t t' h h'
      rw [runSteps] at h h'
      obtain ⟨r, hr, hrest⟩ := Option.bind_eq_some_iff.mp h
      obtain ⟨r', hr', hrest'⟩ := Option.bind_eq_some_iff.mp h'
      obtain rfl := runCalls_unique hr hr'
      exact ih hrest hrest'

end Execution

/-! ## The machine at the start of a program -/

/-- A `static CPU`: everything zero, and the initial ages of the streams. The
`active_pml4` pointers reach table 0. -/
def CPU.initial : CPU where
  cores _ :=
    { l1d := fun _ => ⟨fun _ => 0, fun _ => .invalid, 0, fun _ _ => 0⟩
      l1i := fun _ => ⟨fun _ => 0, fun _ => .invalid, 0, fun _ _ => 0⟩
      l1Dtlb := fun _ => ⟨fun _ => 0, fun _ => 0, 0, fun _ => false⟩
      l2Dtlb := fun _ => ⟨fun _ => 0, fun _ => 0, 0, fun _ => false⟩
      itlb := fun _ => ⟨fun _ => 0, fun _ => 0, 0, fun _ => false⟩
      activePml4 := 0
      prefetcher := ⟨fun _ => ⟨0, 0, .unknown, .invalid⟩, fun i => 7 - i⟩
      pmc := ⟨0, 0, 0, 0⟩ }
  l2Sets _ := ⟨fun _ => 0, fun _ => .invalid, fun _ => 0, fun _ => 0, 0, fun _ _ => 0⟩

def Sim.initial (mem : Memory) (pml4 : PageTable) (callback : Bool) : Sim where
  cpu := .initial
  mem := mem
  pml4s _ := pml4
  callback := callback
  currentSeq := 0
  events := []
  history := []

theorem Sim.initial_emptyCaches (mem : Memory) (pml4 : PageTable) (callback : Bool) :
    (Sim.initial mem pml4 callback).EmptyCaches := by
  refine ⟨fun k _ _ _ => ?_, fun _ _ => rfl, fun _ _ => ⟨rfl, rfl⟩, fun _ _ => rfl, rfl⟩
  cases k <;> rfl

/-! ## A small machine -/

/-- A memory with one page table of each level, at 0x10000, 0x12000 and 0x14000.
Page `i < 17` is at 0x100000 + 0x40000 i, so the first lines of these pages share
a set of L1 and a set of L2. -/
def conflictMemory : Memory where
  size := 0x540000#64
  data n :=
    if n = 0x10001 then 0x20 else if n = 0x10002 then 1 else if n = 0x10008 then 1
    else if n = 0x12001 then 0x40 else if n = 0x12002 then 1 else if n = 0x12008 then 1
    else if 0x14000 ≤ n ∧ n < 0x14000 + 16 * 17 then
      if n % 16 = 2 then BitVec.ofNat 8 (0x10 + 4 * ((n - 0x14000) / 16))
      else if n % 16 = 8 then 1 else 0
    else 0

def conflictPml4 : PageTable := fun i =>
  if i = 0 then ⟨0x10000#64, true, true, true⟩ else ⟨0, false, false, false⟩

def conflictMachine (callback : Bool) : Sim := .initial conflictMemory conflictPml4 callback

/-- A store, a read of the line by the other core, a fetch and a store that
takes the line back. -/
def conflictCalls : List Call :=
  [.write 0 0x0 [1], .read 1 0x0 1, .fetch 1 0x1000 4, .write 1 0x0 [2]]

end CacheSimulator
