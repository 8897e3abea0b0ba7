import CacheSimulator.Paging.Accesses
import CacheSimulator.Refinement.Call

/-!
# Calls, seen from the pages

A data call changes the translation state of its core as its translation does, and
no further. A line it does not store to keeps its values, and when the line is
clean, memory keeps its bytes.
-/

namespace CacheSimulator

open Mesi

namespace Sim

variable {s s' : Sim} {c : CoreId}

/-- The root tables, the processes the cores run, and their data TLBs are the
same. -/
structure SameTranslation (s s' : Sim) : Prop where
  pml4s : s'.pml4s = s.pml4s
  activePml4 : ∀ c, (s'.cpu.cores c).activePml4 = (s.cpu.cores c).activePml4
  l1Dtlb : ∀ c, (s'.cpu.cores c).l1Dtlb = (s.cpu.cores c).l1Dtlb
  l2Dtlb : ∀ c, (s'.cpu.cores c).l2Dtlb = (s.cpu.cores c).l2Dtlb

theorem SameTranslation.modifyCore {f : Core → Core} (h : SameTranslation s s')
    (hf : ∀ core, (f core).activePml4 = core.activePml4 ∧ (f core).l1Dtlb = core.l1Dtlb ∧
      (f core).l2Dtlb = core.l2Dtlb) : SameTranslation s (s'.modifyCore c f) := by
  have hcore : ∀ b, ((s'.modifyCore c f).cpu.cores b).activePml4 = (s'.cpu.cores b).activePml4 ∧
      ((s'.modifyCore c f).cpu.cores b).l1Dtlb = (s'.cpu.cores b).l1Dtlb ∧
        ((s'.modifyCore c f).cpu.cores b).l2Dtlb = (s'.cpu.cores b).l2Dtlb := by
    intro b
    unfold Sim.modifyCore
    dsimp only
    by_cases hb : b = c
    · subst hb
      rw [Function.update_self]
      exact hf _
    · rw [Function.update_of_ne hb]
      exact ⟨rfl, rfl, rfl⟩
  exact ⟨h.pml4s, fun b => (hcore b).1.trans (h.activePml4 b),
    fun b => (hcore b).2.1.trans (h.l1Dtlb b), fun b => (hcore b).2.2.trans (h.l2Dtlb b)⟩

theorem updateClosed_sameTranslation (s : Sim) : UpdateClosed (SameTranslation s) where
  setL1 k _ _ _ h := h.modifyCore fun _ => by cases k <;> exact ⟨rfl, rfl, rfl⟩
  setL2 _ _ h := ⟨h.pml4s, h.activePml4, h.l1Dtlb, h.l2Dtlb⟩
  emit _ _ _ _ _ _ _ _ _ h := by
    unfold Sim.emit
    split
    · exact ⟨h.pml4s, h.activePml4, h.l1Dtlb, h.l2Dtlb⟩
    · exact h
  record _ h := ⟨h.pml4s, h.activePml4, h.l1Dtlb, h.l2Dtlb⟩
  setMem _ h := ⟨h.pml4s, h.activePml4, h.l1Dtlb, h.l2Dtlb⟩
  modifyPmc _ _ h := h.modifyCore fun _ => ⟨rfl, rfl, rfl⟩
  setStream _ _ _ h := h.modifyCore fun _ => ⟨rfl, rfl, rfl⟩

end Sim

namespace Call

def virtualAddress : Call → Addr
  | read _ va _ => va
  | write _ va _ => va
  | fetch _ va _ => va

def StoresTo (call : Call) (s : Sim) (a : LineNo) : Prop :=
  match call with
  | write c va data => ∃ pa ∈ (write c va data).physicalAddress s, lineNo pa = a
  | _ => False

variable {call : Call} {s s' : Sim} {result : Option (List Byte)} {a : LineNo} {pa : Addr}

theorem exec_sameTranslation (hdata : call.IsData) (h : call.exec s = .ok (s', result)) :
    Sim.SameTranslation (translateData s call.coreId call.virtualAddress).2 s' := by
  have hclosed := Sim.updateClosed_sameTranslation
    (translateData s call.coreId call.virtualAddress).2
  cases call with
  | read c va size =>
      exact (hclosed.cpuRead ⟨rfl, fun _ => rfl, fun _ => rfl, fun _ => rfl⟩).of_eq_ok h
  | write c va data =>
      exact (hclosed.cpuWrite ⟨rfl, fun _ => rfl, fun _ => rfl, fun _ => rfl⟩).of_eq_ok h
  | fetch c va size => exact hdata.elim

theorem exec_moves (hs : s.Inv) (h : call.exec s = .ok (s', result)) (ha : ¬call.StoresTo s a) :
    ∃ es, Sim.Evolves s es s' ∧ ∀ e ∈ es, e.1 = a → e.2.stored = none := by
  cases hpa : call.physicalAddress s with
  | none =>
      obtain ⟨s₁, hexec, hsame⟩ := exec_pageFault hpa
      rw [hexec] at h
      obtain ⟨rfl, -⟩ := Prod.mk.inj (Except.ok.inj h)
      exact ⟨[], .of_sameCaches hs hsame, fun e he => by cases he⟩
  | some pa =>
      have hensures := (exec_spec hs hpa).of_eq_ok h
      have hnone : ∀ {stored forgets}, Sim.Performs s (lineNo pa) stored forgets s' →
          (∀ w, stored = some w → lineNo pa ≠ a) →
            ∃ es, Sim.Evolves s es s' ∧ ∀ e ∈ es, e.1 = a → e.2.stored = none := by
        intro stored forgets hperforms hline
        obtain ⟨es, hes, hstores⟩ := hperforms.stores
        refine ⟨es, hes, fun e he hea => ?_⟩
        by_contra hne
        obtain ⟨w, hw⟩ := Option.ne_none_iff_exists'.mp hne
        have hmem := System.mem_storesTo he hw
        rw [hstores] at hmem
        split at hmem
        · rename_i hline'
          exact hline w (Option.mem_toList.mp hmem) (hline'.symm.trans hea)
        · cases hmem
      cases call with
      | read c va size => exact hnone (Sim.Reads.performs hensures) (by simp)
      | write c va data =>
          exact hnone (Sim.Writes.performs hensures) fun _ _ hline => ha ⟨pa, hpa, hline⟩
      | fetch c va size => exact hnone (Sim.Reads.performs hensures) (by simp)

/-- A line the call does not store to has no value it did not have before. -/
theorem exec_allIn {P : Line → Prop} (hs : s.Inv) (h : call.exec s = .ok (s', result))
    (ha : ¬call.StoresTo s a) (hP : (s.rep a).view.AllIn P) : (s'.rep a).view.AllIn P := by
  obtain ⟨es, hes, hstores⟩ := exec_moves hs h ha
  exact (hes.run s.mem.data).allIn (hs.system _) hstores hP

/-- A clean line the call does not store to stays clean, and memory keeps it. -/
theorem exec_clean (hs : s.Inv) (h : call.exec s = .ok (s', result)) (ha : ¬call.StoresTo s a)
    (hclean : ¬(s.rep a).view.Dirty) :
    ¬(s'.rep a).view.Dirty ∧ s'.memLine a = s.memLine a := by
  obtain ⟨es, hes, hstores⟩ := exec_moves hs h ha
  exact ⟨(hes.run s.mem.data).not_dirty (hs.system _) hstores hclean,
    (hes.run s.mem.data).mem_eq (hs.system _) hstores hclean⟩

end Call

end CacheSimulator
