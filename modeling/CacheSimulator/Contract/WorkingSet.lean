import CacheSimulator.Contract.FlatMemory
import CacheSimulator.WorkingSet.Calls
import CacheSimulator.WorkingSet.Counters
import Mathlib.Algebra.BigOperators.Group.Finset.Piecewise
import Mathlib.Data.Finset.Prod

/-!
# Programs that fit in the caches

Every call accesses a line of a given set of pages. When L2 has room for the pages, a
run refines a memory without caches, whatever it downgrades, memory keeps its bytes,
and no line is fetched from memory twice. When an L1 cache has room for them too, the
copies of the L1 data caches and the counter of their hits are those of caches without
bounds, which lose a line only when another core stores to it.
-/

namespace CacheSimulator

open Mesi

variable {pages : Finset ℕ} {s₀ s s' : Sim} {trace : List CallRecord} {call : Call}
  {result : Option (List Byte)} {physicalAddress : Addr}

/-! ## The values of the lines -/

/-- The caches hold lines of the pages only, none of them has been evicted from L2
since `s₀`, and memory is that of `s₀`. -/
structure Sim.Fits (s : Sim) (pages : Finset ℕ) (s₀ : Sim) : Prop where
  inv : s.Inv
  within : s.Within pages
  settled : System.Settled (s.system s₀.mem.data)
  mem : ∀ a, (s.rep a).mem = (s₀.rep a).mem

theorem Sim.EmptyCaches.fits (h₀ : s₀.EmptyCaches) : s₀.Fits pages s₀ := by
  refine ⟨h₀.inv, ⟨fun a ha => absurd (h₀.l2_eq_none a) ha, fun c i hconf => ?_⟩,
    ⟨fun a _ => ?_, fun a ha => ?_⟩, fun a => rfl⟩
  · exact absurd (h₀.streams c i) hconf
  · rw [system_flat, h₀.history]
    rfl
  · rw [system_lines, LineRep.view_l2, h₀.l2_eq_none] at ha
    exact absurd rfl ha

namespace Sim.Fits

theorem of_sameCaches (h : s.Fits pages s₀) (hsame : SameCaches s s') : s'.Fits pages s₀ := by
  refine ⟨h.inv.congr hsame, h.within.of_sameCaches hsame, ?_, fun a => ?_⟩
  · rw [Sim.system, hsame.rep, hsame.history]
    exact h.settled
  · rw [hsame.rep]
    exact h.mem a

theorem serves {a : LineNo} {demand : Option (Action CoreId Store)} (h : s.Fits pages s₀)
    (hserves : s.Serves pages a demand s') : s'.Fits pages s₀ := by
  obtain ⟨es, hevict, hes⟩ := hserves.exists_run
  have hc := h.inv.system s₀.mem.data
  have hrun := hes.run s₀.mem.data
  refine ⟨hserves.inv, hserves.within, hrun.settled hc h.settled hevict, fun b => ?_⟩
  rw [← h.mem b]
  exact (hrun.stays hc hevict b).2

theorem data_eq (h : s.Fits pages s₀) (address : Addr) :
    s.mem.data address.toNat = s₀.mem.data address.toNat := by
  have hmem := congrFun (h.mem (lineNo address)) ⟨l1ToOffset address, l1ToOffset_lt address⟩
  change s.mem.data (64 * lineNo address + l1ToOffset address) =
    s₀.mem.data (64 * lineNo address + l1ToOffset address) at hmem
  rwa [← toNat_eq_line_add_offset] at hmem

/-- A load delivers the flat value of its line: a line that is in L2 has it in the
caches, and a line that is not has it in memory. -/
theorem delivers {k : L1Kind} {c : CoreId} {size : ℕ} {forgets : Prop}
    {r : Sim × Option (List Byte)} (h : s.Fits pages s₀)
    (hloads : Loads pages k c physicalAddress size s r)
    (hreads : s.Reads physicalAddress size forgets r)
    (hsize : l1ToOffset physicalAddress + size ≤ 64) :
    r.2 = some (Line.slice (flatLines s₀.mem.data s.history (lineNo physicalAddress))
      (l1ToOffset physicalAddress) size) := by
  obtain ⟨demand, hserves⟩ := hloads.serves
  have hfits := h.serves hserves
  have hflat : flatLines s₀.mem.data r.1.history = flatLines s₀.mem.data s.history :=
    hreads.performs.flat s₀.mem.data
  have hcached : ∀ v, (r.1.rep (lineNo physicalAddress)).view.Authoritative v →
      v = flatLines s₀.mem.data s.history (lineNo physicalAddress) := by
    intro v hv
    rw [← hflat]
    exact LineState.authoritative_unique (hfits.inv.coherent _).toSound hv
      (hfits.settled.authoritative (hfits.inv.system _) (view_l2_ne_none.mpr hloads.present))
  by_cases hres : (s.rep (lineNo physicalAddress)).l2 = none
  · obtain ⟨v, hv, hr⟩ := hreads.result hsize
    rw [hr]
    rcases hv with hv | ⟨-, hv⟩
    · rw [hcached v hv]
    · -- the line has been copied from memory, which no call has changed
      have hmem := h.settled.absent (lineNo physicalAddress) (by
        rw [system_lines, LineRep.view_l2, hres]
        rfl)
      have hkept : (r.1.rep (lineNo physicalAddress)).mem = (s.rep (lineNo physicalAddress)).mem :=
        (hfits.mem _).trans (h.mem _).symm
      rw [← hv, ← system_flat, ← hmem]
      exact congrArg (fun line => some (Line.slice line _ size)) hkept
  · obtain ⟨v, hv, hr⟩ := hloads.value hres
    rw [hr, hcached v hv]

end Sim.Fits

def Call.FitsIn (pages : Finset ℕ) (call : Call) (s : Sim) : Prop :=
  call.InOneLine s ∧ call.InPages pages s

instance (pages : Finset ℕ) (call : Call) (s : Sim) : Decidable (call.FitsIn pages s) :=
  inferInstanceAs (Decidable (_ ∧ _))

theorem Sim.Fits.step (hfit : RoomInL2 pages) (h : s.Fits pages s₀) (hcall : call.InPages pages s)
    (hexec : call.exec s = .ok (s', result)) : s'.Fits pages s₀ := by
  cases hpa : call.physicalAddress s with
  | none =>
      obtain ⟨t, hok, hsame⟩ := Call.exec_pageFault hpa
      rw [hok] at hexec
      obtain ⟨rfl, -⟩ := Prod.mk.inj (Except.ok.inj hexec)
      exact h.of_sameCaches hsame
  | some pa =>
      obtain ⟨demand, hserves⟩ :=
        ((Call.exec_fits h.inv h.within hfit hpa (hcall pa hpa)).of_eq_ok hexec).serves
      exact h.serves hserves

def Sim.Follows (s : Sim) (s₀ : Sim) (trace : List CallRecord) : Prop :=
  flatLines s₀.mem.data s.history = flatLines s₀.mem.data (trace.flatMap CallRecord.stored)

theorem Sim.Fits.loaded {k : L1Kind} {c : CoreId} {size : ℕ} {forgets : Prop}
    {r : Sim × Option (List Byte)} (h : s.Fits pages s₀) (hfollows : s.Follows s₀ trace)
    (hloads : Loads pages k c physicalAddress size s r)
    (hreads : s.Reads physicalAddress size forgets r)
    (hsize : l1ToOffset physicalAddress + size ≤ 64) :
    r.1.Follows s₀ trace ∧ r.2 = some ((List.range size).map fun j =>
      flatAfter s₀.mem.data trace (physicalAddress.toNat + j)) := by
  refine ⟨(hreads.performs.flat _).trans hfollows, ?_⟩
  rw [h.delivers hloads hreads hsize, hfollows, slice_flatLines _ _ hsize]
  rfl

theorem Sim.Fits.step_refines (hfit : RoomInL2 pages) (h : s.Fits pages s₀)
    (hfollows : s.Follows s₀ trace) (hcall : call.FitsIn pages s)
    (hexec : call.exec s = .ok (s', result)) :
    s'.Follows s₀ (trace ++ [⟨call, call.physicalAddress s, result⟩]) ∧
      CallRecord.Delivers ⟨call, call.physicalAddress s, result⟩
        (flatAfter s₀.mem.data trace) := by
  cases hpa : call.physicalAddress s with
  | none =>
      obtain ⟨t, hok, hsame⟩ := Call.exec_pageFault hpa
      rw [hok] at hexec
      obtain ⟨rfl, rfl⟩ := Prod.mk.inj (Except.ok.inj hexec)
      have ht : t.Follows s₀ trace := by rwa [Sim.Follows, hsame.history]
      cases call <;>
        simpa [Sim.Follows, CallRecord.stored, CallRecord.Delivers, CallRecord.loaded] using ht
  | some pa =>
      have hline := (hcall.1 pa hpa).1
      have hensures := (Call.exec_spec h.inv hpa).of_eq_ok hexec
      have hfits := (Call.exec_fits h.inv h.within hfit hpa (hcall.2 pa hpa)).of_eq_ok hexec
      cases call with
      | read c virtualAddress size =>
          obtain ⟨hs', hresult⟩ := h.loaded hfollows hfits hensures hline
          obtain rfl : result = _ := hresult
          simpa [Sim.Follows, CallRecord.stored, CallRecord.Delivers, CallRecord.loaded,
            Call.dataSize] using hs'
      | fetch c virtualAddress size =>
          obtain ⟨hs', hresult⟩ := h.loaded hfollows hfits hensures hline
          obtain rfl : result = _ := hresult
          simpa [Sim.Follows, CallRecord.stored, CallRecord.Delivers, CallRecord.loaded,
            Call.dataSize] using hs'
      | write c virtualAddress data =>
          have hwrites : s.Writes pa data (s', result) := hensures
          obtain rfl : result = some [] := hwrites.result
          refine ⟨?_, by simp [CallRecord.Delivers, CallRecord.loaded]⟩
          rw [Sim.Follows, hwrites.performs.flat, hfollows, List.flatMap_append]
          simp only [CallRecord.stored, List.flatMap_cons, List.flatMap_nil, List.append_nil]
          rw [flatLines_store _ _ hwrites.fits]

theorem Run.fits (hfit : RoomInL2 pages) (h₀ : s₀.EmptyCaches)
    (h : Run (fun call s => call.InPages pages s) s₀ trace s) : s.Fits pages s₀ := by
  induction h with
  | start => exact h₀.fits
  | call call _ hcall hexec ih => exact ih.step hfit hcall hexec
  | @beginStep trace s seq _ ih => exact ih.of_sameCaches (Sim.SameCaches.beginStep s seq)

theorem Run.inPages (h : Run (Call.FitsIn pages) s₀ trace s) :
    Run (fun call s => call.InPages pages s) s₀ trace s :=
  h.mono fun _ _ hcall => hcall.2

/-- No store is lost, and no byte of memory changes. -/
theorem Run.working_set_refinement (hfit : RoomInL2 pages) (h₀ : s₀.EmptyCaches)
    (h : Run (Call.FitsIn pages) s₀ trace s) :
    FlatRefinement s₀.mem.data trace ∧
      ∀ address : Addr, s.mem.data address.toNat = s₀.mem.data address.toNat := by
  constructor
  · suffices hrun : s.Follows s₀ trace ∧ FlatRefinement s₀.mem.data trace from hrun.2
    induction h with
    | start =>
        refine ⟨?_, fun n => n.elim0⟩
        rw [Sim.Follows, h₀.history]
        rfl
    | call call hrun hcall hexec ih =>
        have hfits := hrun.inPages.fits hfit h₀
        obtain ⟨hfollows, hdelivers⟩ := hfits.step_refines hfit ih.1 hcall hexec
        exact ⟨hfollows, ih.2.concat hdelivers⟩
    | beginStep seq hrun ih => exact ih
  · exact (h.inPages.fits hfit h₀).data_eq

/-- A line that two cores store to, load and fetch, which is downgraded while it is
MODIFIED. -/
def sharedPageCalls : List Call :=
  [.write 0 0x0 [1], .read 1 0x0 1, .write 1 0x1 [2], .read 0 0x0 2, .fetch 0 0x0 2, .read 1 0x40 1]

theorem working_set_refinement_shared : ∃ trace s,
    Run (Call.FitsIn {256}) (conflictMachine false) trace s ∧
      trace.map CallRecord.call = sharedPageCalls ∧
        FlatRefinement conflictMemory.data trace ∧
          ∀ address : Addr, s.mem.data address.toNat = conflictMemory.data address.toNat := by
  have hexec : (runCalls (Call.FitsIn {256}) sharedPageCalls (conflictMachine false)).isSome := by
    decide +kernel
  obtain ⟨trace, s, hrun, hcalls⟩ := exists_run hexec
  exact ⟨trace, s, hrun, hcalls, hrun.working_set_refinement (RoomInL1.roomInL2 (by decide))
    (Sim.initial_emptyCaches _ _ _)⟩

/-! ## The cost of misses -/

/-- The lines that the calls of a trace have accessed. -/
def accessedLines (trace : List CallRecord) : Finset LineNo :=
  ((trace.filterMap CallRecord.physicalAddress).map lineNo).toFinset

theorem accessedLines_concat (trace : List CallRecord) (r : CallRecord) :
    accessedLines (trace ++ [r]) = match r.physicalAddress with
      | some physicalAddress => insert (lineNo physicalAddress) (accessedLines trace)
      | none => accessedLines trace := by
  unfold accessedLines
  rw [List.filterMap_append]
  cases hpa : r.physicalAddress with
  | none => simp [hpa]
  | some pa =>
      ext a
      simp [hpa]

def Sim.memFetches (s : Sim) : ℕ := ∑ c, (s.cpu.cores c).pmc.memFetches

theorem Sim.CountsOne.memFetches {kind : HitKind} {c : CoreId} (h : CountsOne kind c s s') :
    s'.memFetches = s.memFetches + if kind = .mem then 1 else 0 := by
  unfold Sim.memFetches
  have hcore : ∀ b, (s'.cpu.cores b).pmc.memFetches =
      (s.cpu.cores b).pmc.memFetches + if b = c then (if kind = .mem then 1 else 0) else 0 := by
    intro b
    rw [h.pmc b]
    by_cases hb : b = c
    · cases kind <;> simp [hb, PerfCounters.bump]
    · simp [hb]
  simp only [hcore, Finset.sum_add_distrib, Finset.sum_ite_eq', Finset.mem_univ, if_true]

theorem Sim.SamePmc.memFetches (h : SamePmc s s') : s'.memFetches = s.memFetches := by
  unfold Sim.memFetches
  simp only [h.pmc]

/-- The lines accessed so far are in L2, and no more lines than these have been fetched
from memory. -/
structure Sim.Pays (s : Sim) (s₀ : Sim) (trace : List CallRecord) : Prop where
  resident : ∀ a ∈ accessedLines trace, s.Resident a
  cost : s.memFetches ≤ s₀.memFetches + (accessedLines trace).card

/-- What is in L2 stays there, and a line fetched from memory was not there before. -/
theorem Sim.Pays.step (hfit : RoomInL2 pages) (h : s.Pays s₀ trace) (hfits : s.Fits pages s₀)
    (hcall : call.InPages pages s) (hexec : call.exec s = .ok (s', result)) :
    s'.Pays s₀ (trace ++ [⟨call, call.physicalAddress s, result⟩]) := by
  have hinv' := (hfits.step hfit hcall hexec).inv
  cases hpa : call.physicalAddress s with
  | none =>
      have hsame := (Call.exec_pageFault_samePmc hpa).of_eq_ok hexec
      obtain ⟨t, hok, hcaches⟩ := Call.exec_pageFault hpa
      rw [hok] at hexec
      obtain ⟨rfl, -⟩ := Prod.mk.inj (Except.ok.inj hexec)
      refine ⟨fun a ha => ?_, ?_⟩
      · rw [accessedLines_concat] at ha
        have hres := h.resident a ha
        rw [resident_iff] at hres ⊢
        rwa [hcaches.l2]
      · rw [hsame.memFetches, accessedLines_concat]
        exact h.cost
  | some pa =>
      have hcounts := (Call.exec_counts hpa).of_eq_ok hexec
      have hensures :=
        (Call.exec_fits hfits.inv hfits.within hfit hpa (hcall pa hpa)).of_eq_ok hexec
      obtain ⟨demand, hserves⟩ := hensures.serves
      obtain ⟨es, hevict, hes⟩ := hserves.exists_run
      refine ⟨fun a ha => ?_, ?_⟩
      · rw [hinv'.placed.resident_iff]
        rw [accessedLines_concat] at ha
        rcases Finset.mem_insert.mp ha with rfl | ha
        · exact hensures.present hinv'
        · have hres := hfits.inv.placed.resident_iff.mp (h.resident a ha)
          rw [← view_l2_ne_none] at hres ⊢
          exact ((hes.run s.mem.data).stays (hfits.inv.system _) hevict a).1 hres
      · rw [hcounts.memFetches, accessedLines_concat]
        dsimp only
        have hcost := h.cost
        split
        · rename_i hmem
          have hnew : lineNo pa ∉ accessedLines trace := fun ha =>
            Call.hitKind_ne_mem (h.resident _ ha) hmem
          rw [Finset.card_insert_of_notMem hnew]
          omega
        · have hcard := Finset.card_le_card (Finset.subset_insert (lineNo pa) (accessedLines trace))
          omega

theorem Run.pays (hfit : RoomInL2 pages) (h₀ : s₀.EmptyCaches)
    (h : Run (fun call s => call.InPages pages s) s₀ trace s) : s.Pays s₀ trace := by
  induction h with
  | start => exact ⟨by simp [accessedLines], Nat.le_add_right _ _⟩
  | call call hrun hcall hexec ih => exact ih.step hfit (hrun.fits hfit h₀) hcall hexec
  | beginStep seq hrun ih => exact ⟨ih.resident, ih.cost⟩

/-- No line is fetched from memory twice, by whichever cores and through whichever
caches. -/
theorem Run.working_set_fetches (hfit : RoomInL2 pages) (h₀ : s₀.EmptyCaches)
    (h : Run (fun call s => call.InPages pages s) s₀ trace s) :
    (∀ a ∈ accessedLines trace, s.Resident a) ∧
      s.memFetches ≤ s₀.memFetches + (accessedLines trace).card :=
  ⟨(h.pays hfit h₀).resident, (h.pays hfit h₀).cost⟩

theorem working_set_fetches_shared : ∃ trace s,
    Run (fun call s => call.InPages {256} s) (conflictMachine false) trace s ∧
      trace.map CallRecord.call = sharedPageCalls ∧ (∀ a ∈ accessedLines trace, s.Resident a) ∧
        s.memFetches ≤ (conflictMachine false).memFetches + (accessedLines trace).card := by
  have hexec : (runCalls (fun call s => call.InPages {256} s) sharedPageCalls
      (conflictMachine false)).isSome := by decide +kernel
  obtain ⟨trace, s, hrun, hcalls⟩ := exists_run hexec
  exact ⟨trace, s, hrun, hcalls, hrun.working_set_fetches (RoomInL1.roomInL2 (by decide))
    (Sim.initial_emptyCaches _ _ _)⟩

/-! ## Caches without bounds -/

/-- L1 data caches with room for every line: the cores that hold a line, and the number
of accesses of each core that have found their line. -/
structure UnboundedCaches where
  holds : LineNo → CoreId → Bool
  hits : CoreId → ℕ

namespace UnboundedCaches

def empty : UnboundedCaches := ⟨fun _ _ => false, fun _ => 0⟩

def access (u : UnboundedCaches) (c : CoreId) (a : LineNo) (stores : Bool) : UnboundedCaches where
  holds := Function.update u.holds a fun b => decide (b = c) || !stores && u.holds a b
  hits := Function.update u.hits c (u.hits c + if u.holds a c then 1 else 0)

/-- Fetches go to the instruction caches, and a call that page-faults to none. -/
def serve (u : UnboundedCaches) (r : CallRecord) : UnboundedCaches :=
  match r.call, r.physicalAddress with
  | .read c _ _, some physicalAddress => u.access c (lineNo physicalAddress) false
  | .write c _ _, some physicalAddress => u.access c (lineNo physicalAddress) true
  | _, _ => u

/-- The caches after the calls of a trace. -/
def after (trace : List CallRecord) : UnboundedCaches := trace.foldl serve empty

theorem after_concat (trace : List CallRecord) (r : CallRecord) :
    after (trace ++ [r]) = (after trace).serve r := by
  rw [after, List.foldl_append]
  rfl

end UnboundedCaches

/-- The L1 data caches hold the lines of `u`, and their counters have grown by its
hits. -/
structure Sim.Mirrors (s : Sim) (s₀ : Sim) (u : UnboundedCaches) : Prop where
  holds : ∀ a c, s.HasCopy .data c a ↔ u.holds a c = true
  hits : ∀ c, (s.cpu.cores c).pmc.l1dHits = (s₀.cpu.cores c).pmc.l1dHits + u.hits c

/-- A hit in an L1 data cache is counted where the line was held. -/
theorem Sim.CountsOne.l1dHits {a : LineNo} (h : CountsOne (call.hitKind a s) call.coreId s s')
    (c : CoreId) : (s'.cpu.cores c).pmc.l1dHits = (s.cpu.cores c).pmc.l1dHits +
      if c = call.coreId ∧ call.IsData ∧ s.HasCopy .data call.coreId a then 1 else 0 := by
  have hget : ∀ pmc : PerfCounters, pmc.l1dHits = pmc.get .l1d := fun _ => rfl
  simp only [h.pmc c, ← Call.hitKind_eq_l1d, hget]
  by_cases hc : c = call.coreId
  · rw [if_pos hc, PerfCounters.get_bump]
    split
    · rename_i hkind
      rw [if_pos ⟨hc, hkind.symm⟩]
    · rename_i hkind
      rw [if_neg fun h => hkind h.2.symm, Nat.add_zero]
  · rw [if_neg hc, if_neg fun h => hc h.1, Nat.add_zero]

theorem Sim.Mirrors.access {u : UnboundedCaches} {a : LineNo} (h : s.Mirrors s₀ u) (c : CoreId)
    (stores : Bool) (hself : ∀ b, s'.HasCopy .data b a ↔
      b = c ∨ stores = false ∧ s.HasCopy .data b a)
    (hother : ∀ l, l ≠ a → ∀ b, s'.HasCopy .data b l ↔ s.HasCopy .data b l)
    (hhits : ∀ b, (s'.cpu.cores b).pmc.l1dHits = (s.cpu.cores b).pmc.l1dHits +
      if b = c ∧ s.HasCopy .data c a then 1 else 0) : s'.Mirrors s₀ (u.access c a stores) := by
  refine ⟨fun l b => ?_, fun b => ?_⟩
  · by_cases hl : l = a
    · subst hl
      rw [hself, h.holds]
      simp [UnboundedCaches.access]
    · rw [hother l hl, h.holds]
      simp [UnboundedCaches.access, hl]
  · rw [hhits, h.hits]
    by_cases hb : b = c
    · subst hb
      simp [UnboundedCaches.access, h.holds, Nat.add_assoc]
    · simp [UnboundedCaches.access, hb]

theorem Sim.Mirrors.step {u : UnboundedCaches} (hfit : RoomInL1 pages) (h : s.Mirrors s₀ u)
    (hfits : s.Fits pages s₀) (hcall : call.InPages pages s)
    (hexec : call.exec s = .ok (s', result)) :
    s'.Mirrors s₀ (u.serve ⟨call, call.physicalAddress s, result⟩) := by
  have hinv' := (hfits.step hfit.roomInL2 hcall hexec).inv
  cases hpa : call.physicalAddress s with
  | none =>
      have hsame := (Call.exec_pageFault_samePmc hpa).of_eq_ok hexec
      obtain ⟨t, hok, hcaches⟩ := Call.exec_pageFault hpa
      rw [hok] at hexec
      obtain ⟨rfl, -⟩ := Prod.mk.inj (Except.ok.inj hexec)
      have hserve : u.serve ⟨call, none, result⟩ = u := by cases call <;> rfl
      rw [hserve]
      refine ⟨fun a c => ?_, fun c => by rw [hsame.pmc, h.hits]⟩
      rw [hasCopy_congr hfits.inv.placed hinv'.placed (by rw [hcaches.rep]), h.holds]
  | some pa =>
      have hcounts := ((Call.exec_counts hpa).of_eq_ok hexec).l1dHits
      have hensures := (Call.exec_fits hfits.inv hfits.within hfit.roomInL2 hpa
        (hcall pa hpa)).of_eq_ok hexec
      obtain ⟨demand, hserves⟩ := hensures.serves
      have hother : ∀ l, l ≠ lineNo pa → ∀ b, s'.HasCopy .data b l ↔ s.HasCopy .data b l := by
        intro l hl b
        rw [hinv'.placed.hasCopy_iff, hfits.inv.placed.hasCopy_iff]
        exact not_congr (by rw [hserves.holders_other hfits.inv hfit hl])
      cases call with
      | read c virtualAddress size =>
          refine h.access c false (fun b => ?_) hother fun b => ?_
          · rw [hinv'.placed.hasCopy_iff, hfits.inv.placed.hasCopy_iff]
            exact (hensures.holders b).trans (by tauto)
          · simpa [Call.coreId, Call.IsData] using hcounts b
      | write c virtualAddress data =>
          refine h.access c true (fun b => ?_) hother fun b => ?_
          · rw [hinv'.placed.hasCopy_iff]
            exact (hensures.holders b).trans (by tauto)
          · simpa [Call.coreId, Call.IsData] using hcounts b
      | fetch c virtualAddress size =>
          refine ⟨fun l b => Iff.trans ?_ (h.holds l b), fun b => ?_⟩
          · by_cases hl : l = lineNo pa
            · rw [hl, hinv'.placed.hasCopy_iff, hfits.inv.placed.hasCopy_iff]
              exact (hensures.holders b).trans (by simp)
            · exact hother l hl b
          · rw [hcounts b, h.hits]
            simp [Call.IsData, UnboundedCaches.serve]

theorem Run.mirrors (hfit : RoomInL1 pages) (h₀ : s₀.EmptyCaches)
    (h : Run (fun call s => call.InPages pages s) s₀ trace s) :
    s.Mirrors s₀ (UnboundedCaches.after trace) := by
  induction h with
  | start =>
      refine ⟨fun a c => ?_, fun c => rfl⟩
      rw [h₀.inv.placed.hasCopy_iff, h₀.l1_eq_none]
      simp [UnboundedCaches.after, UnboundedCaches.empty]
  | call call hrun hcall hexec ih =>
      rw [UnboundedCaches.after_concat]
      exact ih.step hfit (hrun.fits hfit.roomInL2 h₀) hcall hexec
  | beginStep seq hrun ih => exact ⟨ih.holds, ih.hits⟩

/-- When L1 has room for the pages, its data caches are those without bounds. -/
theorem Run.unbounded_caches (hfit : RoomInL1 pages) (h₀ : s₀.EmptyCaches)
    (h : Run (fun call s => call.InPages pages s) s₀ trace s) :
    (∀ a c, s.HasCopy .data c a ↔ (UnboundedCaches.after trace).holds a c = true) ∧
      ∀ c, (s.cpu.cores c).pmc.l1dHits =
        (s₀.cpu.cores c).pmc.l1dHits + (UnboundedCaches.after trace).hits c :=
  ⟨(h.mirrors hfit h₀).holds, (h.mirrors hfit h₀).hits⟩

theorem unbounded_caches_shared : ∃ trace s,
    Run (fun call s => call.InPages {256} s) (conflictMachine false) trace s ∧
      trace.map CallRecord.call = sharedPageCalls ∧
        (∀ a c, s.HasCopy .data c a ↔ (UnboundedCaches.after trace).holds a c = true) ∧
        ∀ c, (s.cpu.cores c).pmc.l1dHits =
          ((conflictMachine false).cpu.cores c).pmc.l1dHits +
            (UnboundedCaches.after trace).hits c := by
  have hexec : (runCalls (fun call s => call.InPages {256} s) sharedPageCalls
      (conflictMachine false)).isSome := by decide +kernel
  obtain ⟨trace, s, hrun, hcalls⟩ := exists_run hexec
  exact ⟨trace, s, hrun, hcalls, hrun.unbounded_caches (by decide)
    (Sim.initial_emptyCaches _ _ _)⟩

end CacheSimulator
