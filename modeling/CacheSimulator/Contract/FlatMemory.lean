import CacheSimulator.Refinement.Call

/-!
# A memory without caches

`FlatRefinement` compares the results of a sequence of calls with a memory that
the stores change at once. A run refines the flat memory as long as no read
downgrades a line that is MODIFIED in L2: `snoop_downgrade_peers` then sets the
L2 state to SHARED, and the bytes of the line are dropped when L2 evicts it.
-/

namespace CacheSimulator

open Mesi

/-! ## The flat memory -/

namespace CallRecord

def stored (r : CallRecord) : List MemOp :=
  match r.call, r.physicalAddress, r.result with
  | .write _ _ data, some physicalAddress, some _ => [.store physicalAddress data]
  | _, _, _ => []

def loaded (r : CallRecord) : Option (Addr × List Byte) :=
  match r.call, r.physicalAddress, r.result with
  | .write _ _ _, _, _ => none
  | _, some physicalAddress, some bytes => some (physicalAddress, bytes)
  | _, _, _ => none

/-- A load delivers the bytes of `memory`. -/
def Delivers (r : CallRecord) (memory : ℕ → Byte) : Prop :=
  ∀ load ∈ r.loaded,
    load.2 = (List.range r.call.dataSize).map fun j => memory (load.1.toNat + j)

instance (r : CallRecord) (memory : ℕ → Byte) : Decidable (r.Delivers memory) :=
  Call.decidableForallMem _

end CallRecord

/-- The memory after the calls of a trace: every byte has the value of the last
store that covers it, or else its value in `memory`. -/
def flatAfter (memory : ℕ → Byte) (trace : List CallRecord) : ℕ → Byte :=
  flatMemory memory (trace.flatMap CallRecord.stored)

/-- Every load of the trace delivers what the calls before it have stored. -/
def FlatRefinement (memory : ℕ → Byte) (trace : List CallRecord) : Prop :=
  ∀ n : Fin trace.length, (trace.get n).Delivers (flatAfter memory (trace.take n))

theorem FlatRefinement.concat {memory : ℕ → Byte} {trace : List CallRecord} {r : CallRecord}
    (h : FlatRefinement memory trace) (hr : r.Delivers (flatAfter memory trace)) :
    FlatRefinement memory (trace ++ [r]) := by
  rintro ⟨n, hn⟩
  have hn' : n < trace.length + 1 := by simpa using hn
  by_cases hlt : n < trace.length
  · simp only [List.get_eq_getElem, List.getElem_append_left hlt]
    rw [List.take_append_of_le_length (by omega)]
    exact h ⟨n, hlt⟩
  · have heq : n = trace.length := by omega
    subst heq
    simpa using hr

variable {s₀ s s' : Sim} {trace : List CallRecord} {call : Call} {result : Option (List Byte)}
  {memory : ℕ → Byte} {physicalAddress : Addr}

/-! ## The invariant of a run -/

/-- The lines have the values of the flat memory of the calls made so far. -/
structure Sim.Refines (s : Sim) (memory : ℕ → Byte) (trace : List CallRecord) : Prop where
  inv : s.Inv
  faithful : System.Faithful (s.system memory)
  flat : flatLines memory s.history = flatLines memory (trace.flatMap CallRecord.stored)

theorem slice_flatLines (memory : ℕ → Byte) (h : List MemOp) {size : ℕ}
    (hsize : l1ToOffset physicalAddress + size ≤ 64) :
    Line.slice (flatLines memory h (lineNo physicalAddress)) (l1ToOffset physicalAddress) size =
      (List.range size).map fun j => flatMemory memory h (physicalAddress.toNat + j) := by
  have haddress := toNat_eq_line_add_offset physicalAddress
  apply List.ext_getElem
  · simp only [Line.slice, List.length_map, List.length_range, List.length_take,
      List.length_drop, List.length_ofFn]
    omega
  · intro j h₁ h₂
    simp only [Line.slice, List.getElem_map, List.getElem_range, List.getElem_take,
      List.getElem_drop, List.getElem_ofFn, flatLines]
    rw [haddress, Nat.add_assoc]

theorem Sim.EmptyCaches.refines (h : s.EmptyCaches) : s.Refines s.mem.data [] := by
  have hs := h.inv
  refine ⟨hs, fun a => ⟨fun u hu => ?_, fun _ => ?_⟩, ?_⟩
  · exact absurd hu (LineState.authoritative_of_l2_none (hs.coherent a).toSound
      (by rw [system_lines, LineRep.view_l2, h.l2_eq_none]; rfl))
  · rw [system_flat, h.history]
    rfl
  · rw [h.history]
    rfl

theorem Sim.Refines.of_sameCaches {trace' : List CallRecord} (h : s.Refines memory trace)
    (hsame : Sim.SameCaches s s')
    (htrace : trace'.flatMap CallRecord.stored = trace.flatMap CallRecord.stored) :
    s'.Refines memory trace' := by
  refine ⟨h.inv.congr hsame, ?_, ?_⟩
  · rw [Sim.system, hsame.rep, hsame.history]
    exact h.faithful
  · rw [htrace, hsame.history]
    exact h.flat

theorem Sim.Performs.faithful {a : LineNo} {stored : Option Store} {forgets : Prop}
    (hs : s.Inv) (hf : System.Faithful (s.system memory)) (h : s.Performs a stored forgets s')
    (hforgets : ¬forgets) : System.Faithful (s'.system memory) := by
  obtain ⟨es, hes, hfs⟩ := h.evolves
  exact (hes.run memory).faithful (hs.system memory) hf fun e he h => hforgets (hfs e he h)

theorem Sim.Refines.delivers {size : ℕ} {forgets : Prop} (h : s.Refines memory trace)
    (hreads : s.Reads physicalAddress size forgets (s', result))
    (hf' : System.Faithful (s'.system memory)) (hsize : l1ToOffset physicalAddress + size ≤ 64) :
    ∃ bytes, result = some bytes ∧
      bytes = (List.range size).map fun j =>
        flatAfter memory trace (physicalAddress.toNat + j) := by
  obtain ⟨v, hv, hr⟩ := hreads.result hsize
  have hvalue := (hf' (lineNo physicalAddress)).eq_of_value hv
  rw [system_flat, hreads.performs.flat, h.flat] at hvalue
  refine ⟨_, hr, ?_⟩
  rw [hvalue, slice_flatLines memory _ hsize]
  rfl

theorem Sim.Refines.step (h : s.Refines memory trace) (hline : call.InOneLine s)
    (hclean : ¬call.DowngradesModified s) (hexec : call.exec s = .ok (s', result)) :
    s'.Refines memory (trace ++ [⟨call, call.physicalAddress s, result⟩]) ∧
      CallRecord.Delivers ⟨call, call.physicalAddress s, result⟩ (flatAfter memory trace) := by
  cases hpa : call.physicalAddress s with
  | none =>
      obtain ⟨s₁, hok, hsame⟩ := Call.exec_pageFault hpa
      rw [hok] at hexec
      obtain ⟨rfl, rfl⟩ := Prod.mk.inj (Except.ok.inj hexec)
      refine ⟨h.of_sameCaches hsame ?_, ?_⟩
      · cases call <;> simp [CallRecord.stored]
      · cases call <;> simp [CallRecord.Delivers, CallRecord.loaded]
  | some pa =>
      have hfits := (hline pa hpa).1
      have hensures := (Call.exec_spec h.inv hpa).of_eq_ok hexec
      obtain ⟨stored, hperforms⟩ := hensures.performs
      have hf' := hperforms.faithful h.inv h.faithful hclean
      obtain ⟨es, hes, -⟩ := hperforms.evolves
      cases call with
      | read c virtualAddress size =>
          have hreads : s.Reads pa size _ (s', result) := hensures
          obtain ⟨bytes, rfl, hbytes⟩ := h.delivers hreads hf' hfits
          refine ⟨⟨hes.inv, hf', ?_⟩, ?_⟩
          · rw [hreads.performs.flat]
            simpa [CallRecord.stored] using h.flat
          · simpa [CallRecord.Delivers, CallRecord.loaded, Call.dataSize] using hbytes
      | fetch c virtualAddress size =>
          have hreads : s.Reads pa size _ (s', result) := hensures
          obtain ⟨bytes, rfl, hbytes⟩ := h.delivers hreads hf' hfits
          refine ⟨⟨hes.inv, hf', ?_⟩, ?_⟩
          · rw [hreads.performs.flat]
            simpa [CallRecord.stored] using h.flat
          · simpa [CallRecord.Delivers, CallRecord.loaded, Call.dataSize] using hbytes
      | write c virtualAddress data =>
          have hwrites : s.Writes pa data (s', result) := hensures
          have hresult : result = some [] := hwrites.result
          subst hresult
          refine ⟨⟨hes.inv, hf', ?_⟩, ?_⟩
          · rw [hwrites.performs.flat, List.flatMap_append]
            simp only [CallRecord.stored, List.flatMap_cons, List.flatMap_nil, List.append_nil]
            rw [flatLines_store memory _ hwrites.fits, h.flat]
          · simp [CallRecord.Delivers, CallRecord.loaded]

/-- The condition under which no call loses a store. -/
def Call.KeepsStores (call : Call) (s : Sim) : Prop :=
  call.InOneLine s ∧ ¬call.DowngradesModified s

instance (call : Call) (s : Sim) : Decidable (call.KeepsStores s) :=
  inferInstanceAs (Decidable (_ ∧ ¬_))

theorem Run.refines (h₀ : s₀.EmptyCaches) (h : Run Call.KeepsStores s₀ trace s) :
    s.Refines s₀.mem.data trace ∧ FlatRefinement s₀.mem.data trace := by
  induction h with
  | start => exact ⟨h₀.refines, fun n => n.elim0⟩
  | call call hrun hok hexec ih =>
      obtain ⟨hrefines, hflat⟩ := ih
      obtain ⟨hnext, hdelivers⟩ := hrefines.step hok.1 hok.2 hexec
      exact ⟨hnext, hflat.concat hdelivers⟩
  | @beginStep trace s seq hrun ih =>
      exact ⟨ih.1.of_sameCaches (Sim.SameCaches.beginStep s seq) rfl, ih.2⟩

theorem Run.flat_refinement (h₀ : s₀.EmptyCaches) (h : Run Call.KeepsStores s₀ trace s) :
    FlatRefinement s₀.mem.data trace :=
  (h.refines h₀).2

theorem flat_refinement_conflict : ∃ trace s,
    Run Call.KeepsStores (conflictMachine false) trace s ∧
      trace.map CallRecord.call = [.write 0 0x0 [1], .write 1 0x0 [2], .read 1 0x0 1] ∧
        FlatRefinement conflictMemory.data trace := by
  have hexec : (runCalls Call.KeepsStores [.write 0 0x0 [1], .write 1 0x0 [2], .read 1 0x0 1]
      (conflictMachine false)).isSome := by decide +kernel
  obtain ⟨trace, s, hrun, hcalls⟩ := exists_run hexec
  exact ⟨trace, s, hrun, hcalls, hrun.flat_refinement (Sim.initial_emptyCaches _ _ _)⟩

/-! ## The lost store -/

/-- `address` is the address of a table that a walk from `pml4` can reach, whose
entries are looked up at `level`. -/
inductive Memory.TableAt (mem : Memory) (pml4 : PageTable) : ℕ → Addr → Prop
  | root (i : Fin 512) : (pml4 i).present = true →
      TableAt mem pml4 2 (pml4 i).physicalAddress
  | next {level : ℕ} {table : Addr} (i : Fin 512) : TableAt mem pml4 (level + 1) table →
      (mem.pageTableAt table i).present = true →
        TableAt mem pml4 level (mem.pageTableAt table i).physicalAddress

/-- The line a call accesses holds no part of the page tables of the state
`s₀`. -/
def Call.OffTables (s₀ : Sim) (call : Call) (s : Sim) : Prop :=
  ∀ physicalAddress ∈ call.physicalAddress s, ∀ c level table,
    s₀.mem.TableAt (s₀.pml4s (s₀.cpu.cores c).activePml4) level table →
      (toLineBase physicalAddress).toNat + 64 ≤ table.toNat ∨
        table.toNat + pageTableSize ≤ (toLineBase physicalAddress).toNat

/-- The tables of the small machine end at 0x16000. -/
theorem conflictMemory_tableAt {level : ℕ} {table : Addr}
    (h : conflictMemory.TableAt conflictPml4 level table) :
    level = 2 ∧ table = 0x10000#64 ∨ level = 1 ∧ table = 0x12000#64 ∨
      level = 0 ∧ table = 0x14000#64 := by
  have hroot : ∀ i : Fin 512, (conflictPml4 i).present = true →
      (conflictPml4 i).physicalAddress = 0x10000#64 := by decide +kernel
  have hmiddle : ∀ i : Fin 512, (conflictMemory.pageTableAt 0x10000#64 i).present = true →
      (conflictMemory.pageTableAt 0x10000#64 i).physicalAddress = 0x12000#64 := by decide +kernel
  have hlast : ∀ i : Fin 512, (conflictMemory.pageTableAt 0x12000#64 i).present = true →
      (conflictMemory.pageTableAt 0x12000#64 i).physicalAddress = 0x14000#64 := by decide +kernel
  induction h with
  | root i hi => exact .inl ⟨rfl, hroot i hi⟩
  | next i _ hi ih =>
      rcases ih with ⟨hlevel, rfl⟩ | ⟨hlevel, rfl⟩ | ⟨hlevel, rfl⟩
      · exact .inr (.inl ⟨by omega, hmiddle i hi⟩)
      · exact .inr (.inr ⟨by omega, hlast i hi⟩)
      · omega

/-- A store by core 0, a read of the line by core 1, reads by core 0 that evict
the line from L2, and the read that should find the store. -/
def lostStoreCalls : List Call :=
  [.write 0 0x0 [1], .read 1 0x0 1] ++
    (List.range 16).map (fun i => .read 0 (BitVec.ofNat 64 (0x1000 * (i + 1))) 1) ++ [.read 0 0x0 1]

def Call.Above (bound : ℕ) (call : Call) (s : Sim) : Prop :=
  ∀ physicalAddress ∈ call.physicalAddress s, bound ≤ (toLineBase physicalAddress).toNat

instance (bound : ℕ) (call : Call) (s : Sim) : Decidable (call.Above bound s) :=
  Call.decidableForallMem _

theorem Call.Above.offTables {callback : Bool} (h : call.Above 0x16000 s) :
    call.OffTables (conflictMachine callback) s := by
  intro pa hpa c level table htable
  have habove := h pa hpa
  right
  rcases conflictMemory_tableAt htable with ⟨-, rfl⟩ | ⟨-, rfl⟩ | ⟨-, rfl⟩
  · exact Nat.le_trans (by decide) habove
  · exact Nat.le_trans (by decide) habove
  · exact Nat.le_trans (by decide) habove

/-- The last read returns the initial byte of memory instead of the one stored. -/
theorem flat_refinement_lost_store : ∃ trace s, (conflictMachine false).EmptyCaches ∧
    Run (fun call s => call.InOneLine s ∧ call.OffTables (conflictMachine false) s)
      (conflictMachine false) trace s ∧
    trace.map CallRecord.call = lostStoreCalls ∧ ¬FlatRefinement conflictMemory.data trace := by
  have hexec : (runCalls (fun call s => call.InOneLine s ∧ call.Above 0x16000 s) lostStoreCalls
      (conflictMachine false)).any fun r => (r.1[18]?).any fun last =>
        !decide (last.Delivers (flatAfter conflictMemory.data (r.1.take 18))) := by decide +kernel
  obtain ⟨⟨trace, s⟩, hcalls, hlost⟩ := (Option.any_eq_true _ _).mp hexec
  obtain ⟨last, hlast, hnot⟩ := (Option.any_eq_true _ _).mp hlost
  refine ⟨trace, s, Sim.initial_emptyCaches _ _ _, ?_, runCalls_calls hcalls, fun hflat => ?_⟩
  · exact (Run.of_runCalls .start hcalls).mono fun call s h => ⟨h.1, h.2.offTables⟩
  · obtain ⟨hn, rfl⟩ := List.getElem?_eq_some_iff.mp hlast
    rw [Bool.not_eq_true', decide_eq_false_iff_not] at hnot
    exact hnot (hflat ⟨18, hn⟩)

end CacheSimulator
