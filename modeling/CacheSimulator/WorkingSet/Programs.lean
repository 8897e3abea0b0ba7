import CacheSimulator.Contract.Translation
import CacheSimulator.Library.LittleEndian
import CacheSimulator.Library.SharedMemory
import CacheSimulator.Refinement.DataFaults
import CacheSimulator.WorkingSet.Translation

/-!
# Programs of words

Two threads, one on each core, that load and store 32-bit words of the simulated memory.
When their words lie in pages that fit in L2, the caches and the TLBs are not seen: every
interleaving of the calls is one of the same threads over a plain memory of words.
-/

namespace CacheSimulator

open SharedMemory

variable {Cell σ : Type*} {op : Op Cell (BitVec 32)} {c : CoreId}

/-! ## Words -/

/-- `read32` and `write32` of the benchmarks: the call on core `c` for an access to a
word. -/
def wordCall (virtualAddress : Cell → Addr) (c : CoreId) : Op Cell (BitVec 32) → Call
  | .load cell => .read c (virtualAddress cell) 4
  | .store cell value => .write c (virtualAddress cell) (LittleEndian.encode 4 value)

/-- The value of an access, from the bytes its call returns. -/
def wordValue : Op Cell (BitVec 32) → List Byte → BitVec 32
  | .load _, bytes => LittleEndian.decode 32 bytes
  | .store _ value, _ => value

def wordAt (memory : ℕ → Byte) (address : Addr) : BitVec 32 :=
  LittleEndian.decode 32 ((List.range 4).map fun j => memory (address.toNat + j))

theorem wordCall_dataSize (virtualAddress : Cell → Addr) (c : CoreId) (op : Op Cell (BitVec 32)) :
    (wordCall virtualAddress c op).dataSize = 4 := by
  cases op with
  | load => rfl
  | store cell value => exact LittleEndian.encode_length 4 value

theorem wordCall_isData (virtualAddress : Cell → Addr) (c : CoreId) (op : Op Cell (BitVec 32)) :
    (wordCall virtualAddress c op).IsData := by
  cases op <;> trivial

def Apart (a b : Addr) : Prop := a.toNat + 4 ≤ b.toNat ∨ b.toNat + 4 ≤ a.toNat

instance (a b : Addr) : Decidable (Apart a b) := inferInstanceAs (Decidable (_ ∨ _))

theorem wordAt_congr {memory memory' : ℕ → Byte} {a : Addr}
    (h : ∀ j < 4, memory' (a.toNat + j) = memory (a.toNat + j)) :
    wordAt memory' a = wordAt memory a := by
  unfold wordAt
  congr 1
  exact List.map_congr_left fun j hj => h j (List.mem_range.mp hj)

theorem flatAfter_write {memory : ℕ → Byte} {trace : List CallRecord} {virtualAddress a : Addr}
    {data bytes : List Byte} (n : ℕ) :
    flatAfter memory (trace ++ [⟨.write c virtualAddress data, some a, some bytes⟩]) n =
      if a.toNat ≤ n then (data[n - a.toNat]?).getD (flatAfter memory trace n)
      else flatAfter memory trace n := by
  simp [flatAfter, flatMemory, CallRecord.stored]

theorem flatAfter_read {memory : ℕ → Byte} {trace : List CallRecord} {virtualAddress a : Addr}
    {size : ℕ} {bytes : List Byte} :
    flatAfter memory (trace ++ [⟨.read c virtualAddress size, some a, some bytes⟩]) =
      flatAfter memory trace := by
  simp [flatAfter, CallRecord.stored]

/-- A store writes its word and no word apart from it. -/
theorem wordAt_write {memory : ℕ → Byte} {trace : List CallRecord} {virtualAddress a b : Addr}
    {value : BitVec 32} {bytes : List Byte} (hb : b = a ∨ Apart a b) :
    wordAt (flatAfter memory (trace ++
      [⟨.write c virtualAddress (LittleEndian.encode 4 value), some a, some bytes⟩])) b =
        if b = a then value else wordAt (flatAfter memory trace) b := by
  split
  · rename_i heq
    subst heq
    unfold wordAt
    rw [← LittleEndian.decode_encode 4 value (by simpa using value.isLt)]
    congr 1
    rw [LittleEndian.decode_encode 4 value (by simpa using value.isLt),
      LittleEndian.encode_eq_map]
    refine List.map_congr_left fun j hj => ?_
    rw [flatAfter_write, if_pos (Nat.le_add_right _ _), Nat.add_sub_cancel_left]
    simp [List.getElem?_range (List.mem_range.mp hj)]
  · rename_i hne
    have hapart := hb.resolve_left hne
    refine wordAt_congr fun j hj => ?_
    rw [flatAfter_write]
    split
    · rename_i hle
      rw [List.getElem?_eq_none, Option.getD_none]
      rw [LittleEndian.encode_length]
      rcases hapart with h | h <;> omega
    · rfl

/-! ## Layouts -/

/-- The words of a program lie in pages of memory that the tables of `s₀` map, each in
one line and apart from the others. -/
structure LaidOut (pages : Finset ℕ) (s₀ : Sim) (virtualAddress physical : Cell → Addr) : Prop where
  walk : ∀ c cell, s₀.walk c (virtualAddress cell) = some (physical cell)
  line : ∀ cell, l1ToOffset (physical cell) + 4 ≤ 64
  inside : ∀ cell, (toLineBase (physical cell)).toNat + 64 ≤ s₀.mem.size.toNat
  page : ∀ cell, pageOf (lineNo (physical cell)) ∈ pages
  apart : ∀ cell cell', cell ≠ cell' → Apart (physical cell) (physical cell')

variable {pages : Finset ℕ} {s₀ s₁ s s' : Sim} {virtualAddress physical : Cell → Addr}
  {memory : Cell → BitVec 32} {result : Option (List Byte)}

theorem LaidOut.injective (h : LaidOut pages s₀ virtualAddress physical) :
    Function.Injective physical := by
  intro cell cell' heq
  by_contra hne
  have hapart := h.apart cell cell' hne
  rw [heq] at hapart
  rcases hapart with hlt | hlt <;> omega

/-- The words of the simulated memory, through the caches, are those of `memory`. -/
structure Sim.HoldsWords (s : Sim) (pages : Finset ℕ) (s₀ : Sim) (physical : Cell → Addr)
    (memory : Cell → BitVec 32) : Prop where
  fits : s.Fits pages s₀
  translates : s.TranslatesAs s₀
  size : s.mem.size = s₀.mem.size
  words : ∃ trace, s.Follows s₀ trace ∧
    ∀ cell, wordAt (flatAfter s₀.mem.data trace) (physical cell) = memory cell

namespace Sim.HoldsWords

theorem start (h₀ : s₀.EmptyCaches) (hcold : s₀.ColdTlbs) :
    s₀.HoldsWords pages s₀ physical fun cell => wordAt s₀.mem.data (physical cell) := by
  refine ⟨h₀.fits, hcold.translatesAs, rfl, [], ?_, fun cell => rfl⟩
  rw [Sim.Follows, h₀.history]
  rfl

theorem beginStep (h : s.HoldsWords pages s₀ physical memory) (seq : BitVec 32) :
    { s with currentSeq := seq }.HoldsWords pages s₀ physical memory := by
  obtain ⟨trace, hfollows, hwords⟩ := h.words
  exact ⟨h.fits.of_sameCaches (Sim.SameCaches.beginStep s seq),
    ⟨h.translates.pml4s, h.translates.cores⟩, h.size, trace, hfollows, hwords⟩

theorem setCallback (h : s.HoldsWords pages s₀ physical memory) (callback : Bool) :
    { s with callback := callback }.HoldsWords pages s₀ physical memory := by
  obtain ⟨trace, hfollows, hwords⟩ := h.words
  exact ⟨h.fits.of_sameCaches ⟨rfl, rfl, rfl, rfl, rfl⟩,
    ⟨h.translates.pml4s, h.translates.cores⟩, h.size, trace, hfollows, hwords⟩

theorem physicalAddress (h : s.HoldsWords pages s₀ physical memory) (hcold : s₀.ColdTlbs)
    (hlaid : LaidOut pages s₀ virtualAddress physical) (c : CoreId) (op : Op Cell (BitVec 32)) :
    (wordCall virtualAddress c op).physicalAddress s = some (physical op.cell) := by
  have hwalk := (Call.exec_translatesAs hcold h.translates (h.fits.keepsMemory h.size)
    (wordCall_isData virtualAddress c op)).1
  cases op with
  | load cell => exact hwalk.trans (hlaid.walk c cell)
  | store cell value => exact hwalk.trans (hlaid.walk c cell)

theorem fitsIn (h : s.HoldsWords pages s₀ physical memory) (hcold : s₀.ColdTlbs)
    (hlaid : LaidOut pages s₀ virtualAddress physical) (c : CoreId) (op : Op Cell (BitVec 32)) :
    (wordCall virtualAddress c op).FitsIn pages s := by
  have hpa := h.physicalAddress hcold hlaid c op
  refine ⟨fun pa hmem => ?_, fun pa hmem => ?_⟩
  · obtain rfl := Option.some.inj (hpa.symm.trans hmem)
    rw [wordCall_dataSize, h.size]
    exact ⟨hlaid.line _, hlaid.inside _⟩
  · obtain rfl := Option.some.inj (hpa.symm.trans hmem)
    exact hlaid.page _

theorem returns (h : s.HoldsWords pages s₀ physical memory) (hcold : s₀.ColdTlbs)
    (hsize : s₀.mem.size.toNat < 2 ^ 63) (hlaid : LaidOut pages s₀ virtualAddress physical)
    (c : CoreId) (op : Op Cell (BitVec 32)) :
    ∃ s' bytes, (wordCall virtualAddress c op).exec s = .ok (s', some bytes) := by
  have hdata := wordCall_isData virtualAddress c op
  have hline := (h.fitsIn hcold hlaid c op).1
  obtain ⟨⟨s', result⟩, hexec⟩ := h.fits.inv.exec_returns hdata hline (by rw [h.size]; exact hsize)
  cases result with
  | some bytes => exact ⟨s', bytes, hexec⟩
  | none =>
      have hnone := (h.fits.inv.faults_iff hdata hline hexec).mp rfl
      rw [h.physicalAddress hcold hlaid c op] at hnone
      cases hnone

theorem step [DecidableEq Cell] {bytes : List Byte} (h : s.HoldsWords pages s₀ physical memory)
    (hfit : RoomInL2 pages) (hcold : s₀.ColdTlbs) (hlaid : LaidOut pages s₀ virtualAddress physical)
    (hexec : (wordCall virtualAddress c op).exec s = .ok (s', some bytes)) :
    wordValue op bytes = op.value memory ∧
      s'.HoldsWords pages s₀ physical (op.apply memory) := by
  have hpa := h.physicalAddress hcold hlaid c op
  have hfitsIn := h.fitsIn hcold hlaid c op
  obtain ⟨trace, hfollows, hwords⟩ := h.words
  obtain ⟨hfollows', hdelivers⟩ := h.fits.step_refines hfit hfollows hfitsIn hexec
  rw [hpa] at hfollows' hdelivers
  have hfits' := h.fits.step hfit hfitsIn.2 hexec
  have htranslates' := (Call.exec_translatesAs hcold h.translates (h.fits.keepsMemory h.size)
    (wordCall_isData virtualAddress c op)).2.of_eq_ok hexec
  obtain ⟨es, hes, -⟩ := Call.exec_evolves h.fits.inv hexec
  have hsize' := hes.size.trans h.size
  cases op with
  | load cell =>
      refine ⟨?_, hfits', htranslates', hsize', _, hfollows', fun cell' => ?_⟩
      · have hbytes := hdelivers (physical cell, bytes) rfl
        rw [wordValue, Op.value, ← hwords cell, wordAt]
        exact congrArg _ hbytes
      · exact (congrArg (wordAt · _) flatAfter_read).trans (hwords cell')
  | store cell value =>
      refine ⟨rfl, hfits', htranslates', hsize', _, hfollows', fun cell' => ?_⟩
      have hapart : physical cell' = physical cell ∨ Apart (physical cell) (physical cell') := by
        by_cases heq : cell' = cell
        · exact .inl (congrArg physical heq)
        · exact .inr (hlaid.apart cell cell' (Ne.symm heq))
      refine (wordAt_write hapart).trans ?_
      simp only [Op.apply, Function.update_apply, hlaid.injective.eq_iff, hwords]

end Sim.HoldsWords

/-! ## Programs -/

/-- The threads make their calls in any interleaving from `s₁`, and begin a step between
two of them; a thread goes on with what its call has returned. -/
inductive ProgramRun (virtualAddress : Cell → Addr) (prog : CoreId → Thread Cell (BitVec 32) σ)
    (threads₀ : CoreId → σ) (s₁ : Sim) :
    List (Access CoreId Cell (BitVec 32)) → (CoreId → σ) → Sim → Prop
  | start : ProgramRun virtualAddress prog threads₀ s₁ [] threads₀ s₁
  | beginStep {trace : List (Access CoreId Cell (BitVec 32))} {threads : CoreId → σ} {s : Sim}
      (seq : BitVec 32) : ProgramRun virtualAddress prog threads₀ s₁ trace threads s →
        ProgramRun virtualAddress prog threads₀ s₁ trace threads { s with currentSeq := seq }
  | call {trace : List (Access CoreId Cell (BitVec 32))} {threads : CoreId → σ} {s s' : Sim}
      {op : Op Cell (BitVec 32)} {bytes : List Byte} (c : CoreId) :
      ProgramRun virtualAddress prog threads₀ s₁ trace threads s →
        (prog c).next (threads c) = some op →
        (wordCall virtualAddress c op).exec s = .ok (s', some bytes) →
          ProgramRun virtualAddress prog threads₀ s₁ (trace ++ [⟨c, op, wordValue op bytes⟩])
            (Function.update threads c ((prog c).resume (threads c) (wordValue op bytes))) s'

variable {trace : List (Access CoreId Cell (BitVec 32))}

/-- What a call does to caches without bounds depends on the call and on the line. -/
theorem UnboundedCaches.serve_wordCall (u : UnboundedCaches) {a : Addr} {r : CallRecord}
    (hcall : (r.call, r.physicalAddress) = (wordCall virtualAddress c op, some a)) :
    u.serve r = u.access c (lineNo a) op.isStore := by
  obtain ⟨hcall, hpa⟩ := Prod.mk.inj hcall
  unfold serve
  rw [hcall, hpa]
  cases op <;> rfl

/-- Caches without bounds after the accesses of a program. -/
def UnboundedCaches.afterAccesses (line : Cell → LineNo)
    (trace : List (Access CoreId Cell (BitVec 32))) : UnboundedCaches :=
  trace.foldl (fun u access => u.access access.thread (line access.op.cell) access.op.isStore)
    .empty

theorem UnboundedCaches.after_records {records : List CallRecord}
    (h : records.map (fun r => (r.call, r.physicalAddress)) = trace.map fun access =>
      (wordCall virtualAddress access.thread access.op, some (physical access.op.cell))) :
    after records = afterAccesses (fun cell => lineNo (physical cell)) trace := by
  unfold after afterAccesses
  generalize UnboundedCaches.empty = u
  induction records generalizing u trace with
  | nil =>
      obtain rfl := List.map_eq_nil_iff.mp h.symm
      rfl
  | cons r records ih =>
      cases trace with
      | nil => cases h
      | cons access trace =>
          obtain ⟨hcall, hrest⟩ := List.cons.inj h
          rw [List.foldl_cons, List.foldl_cons, serve_wordCall u hcall]
          exact ih hrest _

variable [DecidableEq Cell] {prog : CoreId → Thread Cell (BitVec 32) σ}
  {threads₀ threads : CoreId → σ}

/-- A thread that is not done can make its next call. -/
def CanCall (virtualAddress : Cell → Addr) (prog : CoreId → Thread Cell (BitVec 32) σ)
    (threads : CoreId → σ) (s : Sim) : Prop :=
  ∀ c op, (prog c).next (threads c) = some op →
    ∃ s' bytes, (wordCall virtualAddress c op).exec s = .ok (s', some bytes)

/-- Every interleaving of the calls is one of the same threads over a memory of words. -/
theorem ProgramRun.shared_memory (hfit : RoomInL2 pages) (hcold : s₀.ColdTlbs)
    (hlaid : LaidOut pages s₀ virtualAddress physical)
    (h₁ : s₁.HoldsWords pages s₀ physical memory)
    (h : ProgramRun virtualAddress prog threads₀ s₁ trace threads s) :
    ∃ state : State CoreId Cell (BitVec 32) σ, state.threads = threads ∧
      s.HoldsWords pages s₀ physical state.memory ∧
        SharedMemory.Run prog ⟨memory, threads₀⟩ trace state := by
  induction h with
  | start => exact ⟨⟨memory, threads₀⟩, rfl, h₁, .start⟩
  | beginStep seq _ ih =>
      obtain ⟨state, hthreads, hwords, hrun⟩ := ih
      exact ⟨state, hthreads, hwords.beginStep seq, hrun⟩
  | call c _ hnext hexec ih =>
      obtain ⟨state, rfl, hwords, hrun⟩ := ih
      obtain ⟨hvalue, hwords'⟩ := hwords.step hfit hcold hlaid hexec
      rw [hvalue]
      exact ⟨_, rfl, hwords', hrun.step c hnext⟩

omit [DecidableEq Cell] in
theorem Sim.HoldsWords.canCall {threads : CoreId → σ} (h : s.HoldsWords pages s₀ physical memory)
    (hcold : s₀.ColdTlbs) (hsize : s₀.mem.size.toNat < 2 ^ 63)
    (hlaid : LaidOut pages s₀ virtualAddress physical) : CanCall virtualAddress prog threads s :=
  fun c op _ => h.returns hcold hsize hlaid c op

/-- What the threads can go on to do over a memory of words they can do on the simulator. -/
theorem ProgramRun.continues {trace' : List (Access CoreId Cell (BitVec 32))}
    {state : State CoreId Cell (BitVec 32) σ} {memory : Cell → BitVec 32} (hfit : RoomInL2 pages)
    (hcold : s₀.ColdTlbs) (hsize : s₀.mem.size.toNat < 2 ^ 63)
    (hlaid : LaidOut pages s₀ virtualAddress physical)
    (h : ProgramRun virtualAddress prog threads₀ s₁ trace threads s)
    (hwords : s.HoldsWords pages s₀ physical memory)
    (hrun : SharedMemory.Run prog ⟨memory, threads⟩ trace' state) :
    ∃ s', ProgramRun virtualAddress prog threads₀ s₁ (trace ++ trace') state.threads s' ∧
      s'.HoldsWords pages s₀ physical state.memory := by
  induction hrun with
  | start => exact ⟨s, by rwa [List.append_nil], hwords⟩
  | @step trace' state op c _ hnext ih =>
      obtain ⟨s', hprog, hwords'⟩ := ih
      obtain ⟨s'', bytes, hexec⟩ := hwords'.returns hcold hsize hlaid c op
      obtain ⟨hvalue, hwords''⟩ := hwords'.step hfit hcold hlaid hexec
      refine ⟨s'', ?_, hwords''⟩
      have hcall := hprog.call c hnext hexec
      rw [hvalue, List.append_assoc] at hcall
      exact hcall

/-- The calls of a program are a run of the simulator that fits in L2. -/
theorem ProgramRun.records (hfit : RoomInL2 pages) (h₀ : s₀.EmptyCaches) (hcold : s₀.ColdTlbs)
    (hlaid : LaidOut pages s₀ virtualAddress physical)
    (h : ProgramRun virtualAddress prog threads₀ s₀ trace threads s) :
    ∃ records, Run (Call.FitsIn pages) s₀ records s ∧
      records.map (fun r => (r.call, r.physicalAddress)) = trace.map fun access =>
        (wordCall virtualAddress access.thread access.op, some (physical access.op.cell)) := by
  induction h with
  | start => exact ⟨[], .start, rfl⟩
  | beginStep seq _ ih =>
      obtain ⟨records, hrun, hcalls⟩ := ih
      exact ⟨records, hrun.beginStep seq, hcalls⟩
  | @call _ _ _ _ op _ c hprog _ hexec ih =>
      obtain ⟨records, hrun, hcalls⟩ := ih
      obtain ⟨state, -, hwords, -⟩ := hprog.shared_memory hfit hcold hlaid (.start h₀ hcold)
      refine ⟨_, hrun.call _ (hwords.fitsIn hcold hlaid c op) hexec, ?_⟩
      rw [List.map_append, List.map_append, hcalls, hwords.physicalAddress hcold hlaid c op]
      rfl

/-- When L1 has room for the pages, a program hits as in caches without bounds. -/
theorem ProgramRun.mirrors (hfit : RoomInL1 pages) (h₀ : s₀.EmptyCaches) (hcold : s₀.ColdTlbs)
    (hlaid : LaidOut pages s₀ virtualAddress physical)
    (h : ProgramRun virtualAddress prog threads₀ s₀ trace threads s) :
    s.Mirrors s₀ (.afterAccesses (fun cell => lineNo (physical cell)) trace) := by
  obtain ⟨records, hrun, hcalls⟩ := h.records hfit.roomInL2 h₀ hcold hlaid
  rw [← UnboundedCaches.after_records hcalls]
  exact hrun.inPages.mirrors hfit h₀

/-- A program fetches no more lines from memory than it accesses. -/
theorem ProgramRun.memFetches_le (hfit : RoomInL2 pages) (h₀ : s₀.EmptyCaches) (hcold : s₀.ColdTlbs)
    (hlaid : LaidOut pages s₀ virtualAddress physical)
    (h : ProgramRun virtualAddress prog threads₀ s₀ trace threads s) :
    s.memFetches ≤ s₀.memFetches +
      (trace.map fun access => lineNo (physical access.op.cell)).toFinset.card := by
  obtain ⟨records, hrun, hcalls⟩ := h.records hfit h₀ hcold hlaid
  have hpays := hrun.inPages.pays hfit h₀
  have hpas : records.filterMap CallRecord.physicalAddress =
      trace.map fun access => physical access.op.cell := by
    have hsnd := congrArg (List.filterMap Prod.snd) hcalls
    rw [List.filterMap_map, List.filterMap_map] at hsnd
    exact hsnd.trans (List.filterMap_eq_map ▸ rfl)
  have hcost := hpays.cost
  rwa [accessedLines, hpas, List.map_map] at hcost

end CacheSimulator
