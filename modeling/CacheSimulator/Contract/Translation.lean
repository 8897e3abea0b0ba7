import CacheSimulator.Paging.Translation
import CacheSimulator.Run

/-!
# Translation through the TLBs

The cores translate addresses, are switched to other processes and flush their
TLBs, and the page tables grow, in any order. As long as the tables only grow,
by page-aligned frames, every translation is what the page walk finds at that
moment.
-/

namespace CacheSimulator

/-! ## Runs -/

/-- An update of the page tables that neither changes nor removes a translation,
and whose new leaves hold page-aligned frames. -/
structure Sim.TablesGrow (s s' : Sim) : Prop where
  keeps : ∀ p virtualAddress physicalAddress,
    pageWalk (s.pml4s p) s.mem virtualAddress = some physicalAddress →
      pageWalk (s'.pml4s p) s'.mem virtualAddress = some physicalAddress
  aligned : ∀ p virtualAddress frame,
    walkLeaf (s'.pml4s p) s'.mem virtualAddress = some frame →
      walkLeaf (s.pml4s p) s.mem virtualAddress = some frame ∨ PageAligned frame

/-- Translations on the data side and on the instruction side by any core,
`process_switch` and `tlb_flush`, and updates of the page tables, in any order. -/
inductive TranslationRun (s₀ : Sim) : Sim → Prop
  | start : TranslationRun s₀ s₀
  | data {s : Sim} (c : CoreId) (virtualAddress : Addr) :
      TranslationRun s₀ s → TranslationRun s₀ (translateData s c virtualAddress).2
  | instr {s : Sim} (c : CoreId) (virtualAddress : Addr) :
      TranslationRun s₀ s → TranslationRun s₀ (translateInstr s c virtualAddress).2
  | processSwitch {s : Sim} (p : ℕ) :
      TranslationRun s₀ s → TranslationRun s₀ { s with cpu := processSwitch s.cpu p }
  | tlbFlush {s : Sim} (c : CoreId) :
      TranslationRun s₀ s → TranslationRun s₀ (s.modifyCore c tlbFlush)
  | updateTables {s : Sim} (mem : Memory) (pml4s : ℕ → PageTable) :
      TranslationRun s₀ s → s.TablesGrow { s with mem := mem, pml4s := pml4s } →
        TranslationRun s₀ { s with mem := mem, pml4s := pml4s }

/-- The TLBs of all cores have been flushed, and the leaves of the page tables
hold page-aligned frames. -/
structure Sim.Flushed (s : Sim) : Prop where
  tlbs : ∀ c, ∃ core, s.cpu.cores c = tlbFlush core
  aligned : ∀ p, AlignedLeaves (s.pml4s p) s.mem

/-! ## The invariant -/

structure Core.Coherent (core : Core) (f : Addr → Option Addr) : Prop where
  l1Dtlb : TLBCaches f core.l1Dtlb
  l2Dtlb : TLBCaches f core.l2Dtlb
  itlb : TLBCaches f core.itlb

/-- The TLBs of every core agree with the tables of the process it runs. -/
structure Sim.Translates (s : Sim) : Prop where
  coherent : ∀ c, (s.cpu.cores c).Coherent (frameOf (s.pml4s (s.cpu.cores c).activePml4) s.mem)
  aligned : ∀ p, AlignedLeaves (s.pml4s p) s.mem

variable {s₀ s s' : Sim} {c : CoreId} {f : Addr → Option Addr}

theorem Core.coherent_tlbFlush (core : Core) : (tlbFlush core).Coherent f :=
  ⟨tlbCaches_flush _, tlbCaches_flush _, tlbCaches_flush _⟩

namespace Sim

theorem Flushed.translates (h : s.Flushed) : s.Translates := by
  refine ⟨fun c => ?_, h.aligned⟩
  obtain ⟨core, hcore⟩ := h.tlbs c
  rw [hcore]
  exact core.coherent_tlbFlush

theorem Translates.modifyCore {g : Core → Core} (h : s.Translates)
    (hpml4 : (g (s.cpu.cores c)).activePml4 = (s.cpu.cores c).activePml4)
    (hcore : (g (s.cpu.cores c)).Coherent
      (frameOf (s.pml4s (s.cpu.cores c).activePml4) s.mem)) :
    (s.modifyCore c g).Translates := by
  refine ⟨fun c' => ?_, h.aligned⟩
  unfold Sim.modifyCore
  dsimp only
  by_cases hc' : c' = c
  · subst hc'
    rw [Function.update_self, hpml4]
    exact hcore
  · rw [Function.update_of_ne hc']
    exact h.coherent c'

theorem Translates.data (h : s.Translates) (c : CoreId) (virtualAddress : Addr) :
    (translateData s c virtualAddress).2.Translates := by
  have hcore := h.coherent c
  obtain ⟨-, hl1, hl2, -⟩ :=
    TLBCaches.translate2 hcore.l1Dtlb hcore.l2Dtlb ((h.aligned _).walkFinds virtualAddress)
  rw [translateData_snd]
  exact h.modifyCore rfl ⟨hl1, hl2, hcore.itlb⟩

theorem Translates.instr (h : s.Translates) (c : CoreId) (virtualAddress : Addr) :
    (translateInstr s c virtualAddress).2.Translates := by
  have hcore := h.coherent c
  obtain ⟨-, hitlb, -⟩ := TLBCaches.translate hcore.itlb ((h.aligned _).walkFinds virtualAddress)
  rw [translateInstr_snd]
  exact h.modifyCore rfl ⟨hcore.l1Dtlb, hcore.l2Dtlb, hitlb⟩

theorem Translates.processSwitch (h : s.Translates) (p : ℕ) :
    Translates { s with cpu := CacheSimulator.processSwitch s.cpu p } :=
  ⟨fun _ => Core.coherent_tlbFlush _, h.aligned⟩

theorem Translates.tlbFlush (h : s.Translates) (c : CoreId) :
    (s.modifyCore c CacheSimulator.tlbFlush).Translates :=
  h.modifyCore rfl (Core.coherent_tlbFlush _)

theorem TablesGrow.frameOf (h : s.TablesGrow s') (p : ℕ) {virtualPageNum physicalFrame : Addr}
    (hframe : frameOf (s.pml4s p) s.mem virtualPageNum = some physicalFrame) :
    CacheSimulator.frameOf (s'.pml4s p) s'.mem virtualPageNum = some physicalFrame := by
  obtain ⟨frame, hleaf, rfl⟩ := Option.map_eq_some_iff.mp hframe
  have hwalk := pageWalk_eq_map.trans (congrArg _ hleaf)
  have hframe' := frameOf_of_pageWalk (h.keeps p _ _ hwalk)
  rw [toFrame_or_offset, frameOf_toFrame] at hframe'
  exact hframe'

theorem Translates.updateTables (h : s.Translates) (hcpu : s'.cpu = s.cpu)
    (hgrow : s.TablesGrow s') :
    s'.Translates := by
  refine ⟨fun c => ?_, fun p virtualAddress frame hframe => ?_⟩
  · rw [hcpu]
    have hcore := h.coherent c
    refine ⟨fun i => (hcore.l1Dtlb i).mono ?_, fun i => (hcore.l2Dtlb i).mono ?_,
      fun i => (hcore.itlb i).mono ?_⟩ <;>
      exact fun _ _ _ _ => hgrow.frameOf (s.cpu.cores c).activePml4
  · rcases hgrow.aligned p virtualAddress frame hframe with hold | haligned
    · exact h.aligned p virtualAddress frame hold
    · exact haligned

end Sim

theorem TranslationRun.translates (h₀ : s₀.Flushed) (h : TranslationRun s₀ s) : s.Translates := by
  induction h with
  | start => exact h₀.translates
  | data c virtualAddress _ ih => exact ih.data c virtualAddress
  | instr c virtualAddress _ ih => exact ih.instr c virtualAddress
  | processSwitch p _ ih => exact ih.processSwitch p
  | tlbFlush c _ ih => exact ih.tlbFlush c
  | updateTables mem pml4s _ hgrow ih => exact ih.updateTables rfl hgrow

/-! ## Transparency -/

/-- No set of the TLB holds two valid entries for one virtual page. -/
def NoDuplicates {sets : ℕ} (tlb : Fin sets → TLBSet) : Prop :=
  ∀ i way way', (tlb i).valid way = true → (tlb i).valid way' = true →
    (tlb i).virtualPageNum way = (tlb i).virtualPageNum way' → way = way'

theorem TLBCaches.noDuplicates {sets : ℕ} {tlb : Fin sets → TLBSet} (h : TLBCaches f tlb) :
    NoDuplicates tlb := by
  intro i way way' hvalid hvalid' hpage
  exact (h i).unique way way' _ _ _ (TLBSet.slots_eq_some.mpr ⟨hvalid, rfl, rfl⟩)
    (TLBSet.slots_eq_some.mpr ⟨hvalid', hpage.symm, rfl⟩)

theorem Sim.modifyCore_self {g : Core → Core} (h : g (s.cpu.cores c) = s.cpu.cores c) :
    s.modifyCore c g = s := by
  unfold Sim.modifyCore
  rw [h, Function.update_eq_self]

/-- In every state of a run a translation is what the page walk finds, a page
fault leaves the state as it is, and no set of a TLB holds a page twice. -/
theorem TranslationRun.tlbs_transparent (h₀ : s₀.Flushed) (h : TranslationRun s₀ s) :
    (∀ c virtualAddress,
      (translateData s c virtualAddress).1 =
        pageWalk (s.pml4s (s.cpu.cores c).activePml4) s.mem virtualAddress ∧
      (translateInstr s c virtualAddress).1 =
        pageWalk (s.pml4s (s.cpu.cores c).activePml4) s.mem virtualAddress ∧
      ((translateData s c virtualAddress).1 = none → (translateData s c virtualAddress).2 = s) ∧
      ((translateInstr s c virtualAddress).1 = none → (translateInstr s c virtualAddress).2 = s)) ∧
    ∀ c, NoDuplicates (s.cpu.cores c).l1Dtlb ∧ NoDuplicates (s.cpu.cores c).l2Dtlb ∧
      NoDuplicates (s.cpu.cores c).itlb := by
  have htranslates := h.translates h₀
  refine ⟨fun c virtualAddress => ?_, fun c => ?_⟩
  · have hcore := htranslates.coherent c
    have hwalk := (htranslates.aligned (s.cpu.cores c).activePml4).walkFinds virtualAddress
    obtain ⟨hdata, -, -, hdataFault⟩ :=
      TLBCaches.translate2 hcore.l1Dtlb hcore.l2Dtlb hwalk
    obtain ⟨hinstr, -, hinstrFault⟩ := TLBCaches.translate hcore.itlb hwalk
    refine ⟨hdata, hinstr, fun hnone => ?_, fun hnone => ?_⟩
    · rw [Sim.translateData_snd, hdataFault (hdata.symm.trans hnone)]
      exact Sim.modifyCore_self rfl
    · rw [Sim.translateInstr_snd, hinstrFault (hinstr.symm.trans hnone)]
      exact Sim.modifyCore_self rfl
  · have hcore := htranslates.coherent c
    exact ⟨hcore.l1Dtlb.noDuplicates, hcore.l2Dtlb.noDuplicates, hcore.itlb.noDuplicates⟩

/-- The tables of the small machine map pages to page-aligned frames. -/
theorem conflict_alignedLeaves : AlignedLeaves conflictPml4 conflictMemory := by
  have hroot : ∀ i, (conflictPml4 i).present = true →
      (conflictPml4 i).physicalAddress = 0x10000#64 := by
    decide +kernel
  have hdirectory : ∀ i, (conflictMemory.pageTableAt 0x10000#64 i).present = true →
      (conflictMemory.pageTableAt 0x10000#64 i).physicalAddress = 0x12000#64 := by
    decide +kernel
  have hmiddle : ∀ i, (conflictMemory.pageTableAt 0x12000#64 i).present = true →
      (conflictMemory.pageTableAt 0x12000#64 i).physicalAddress = 0x14000#64 := by
    decide +kernel
  have hleaves : ∀ i, (conflictMemory.pageTableAt 0x14000#64 i).present = true →
      (conflictMemory.pageTableAt 0x14000#64 i).physicalAddress &&& 0xFFF#64 = 0#64 := by
    decide +kernel
  intro virtualAddress frame h
  obtain ⟨i₃, hi₃, h⟩ := walkLeafFrom_succ_eq_some h
  rw [hroot i₃ hi₃] at h
  obtain ⟨i₂, hi₂, h⟩ := walkLeafFrom_succ_eq_some h
  rw [hdirectory i₂ hi₂] at h
  obtain ⟨i₁, hi₁, h⟩ := walkLeafFrom_succ_eq_some h
  rw [hmiddle i₁ hi₁] at h
  obtain ⟨i₀, hi₀, rfl⟩ := walkLeafFrom_zero_eq_some h
  exact hleaves i₀ hi₀

def unmappedMachine : Sim :=
  .initial ⟨fun _ => 0, 0x540000#64⟩ (fun _ => ⟨0, false, false, false⟩) false

theorem unmappedMachine_walkLeaf (p : ℕ) (virtualAddress : Addr) :
    walkLeaf (unmappedMachine.pml4s p) unmappedMachine.mem virtualAddress = none := rfl

theorem unmappedMachine_flushed : unmappedMachine.Flushed := by
  refine ⟨fun c => ⟨unmappedMachine.cpu.cores c, rfl⟩, fun p virtualAddress frame h => ?_⟩
  rw [unmappedMachine_walkLeaf] at h
  cases h

/-- A translation faults before the tables are there; afterwards the two cores
fill their TLBs, are switched, and one TLB is flushed. -/
theorem tlbs_transparent_tables : ∃ s, TranslationRun unmappedMachine s ∧
    (translateData unmappedMachine 0 0x1040).2 = unmappedMachine ∧
    (translateData s 0 0x1040).1 = some 0x140040 ∧ (translateInstr s 1 0x1FFF).1 = some 0x140FFF ∧
    (translateData s 1 0x11000).2 = s ∧ NoDuplicates (s.cpu.cores 1).l2Dtlb := by
  have hgrow : unmappedMachine.TablesGrow
      { unmappedMachine with mem := conflictMemory, pml4s := fun _ => conflictPml4 } := by
    refine ⟨fun p virtualAddress physicalAddress h => ?_, fun p virtualAddress frame h => ?_⟩
    · rw [pageWalk_eq_map, unmappedMachine_walkLeaf] at h
      cases h
    · exact .inr (conflict_alignedLeaves virtualAddress frame h)
  have hstart := TranslationRun.start.tlbs_transparent unmappedMachine_flushed
  obtain ⟨-, -, hfault, -⟩ := hstart.1 0 0x1040
  have hsame := hfault (by decide +kernel)
  have hfaulted : TranslationRun unmappedMachine _ := .data 0 0x1040 .start
  rw [hsame] at hfaulted
  have hfilled := ((TranslationRun.updateTables _ _ hfaulted hgrow).instr 1 0x1040).data 0 0x0
  have hrun := ((hfilled.processSwitch 1).data 1 0x1000).tlbFlush 0
  obtain ⟨hresults, hdistinct⟩ := hrun.tlbs_transparent unmappedMachine_flushed
  refine ⟨_, hrun, hsame, ?_, ?_, (hresults 1 0x11000).2.2.1 ?_, (hdistinct 1).2.1⟩
  · decide +kernel
  · decide +kernel
  · decide +kernel

end CacheSimulator
