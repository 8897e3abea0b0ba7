import CacheSimulator.Refinement.Call

/-!
# Aborts

The aborts for broken internal invariants are unreachable. A call that stays in
a line of a memory below 2^63 can only be stopped by the check of `cpu_fetch`
that its line is not MODIFIED in L2.
-/

namespace CacheSimulator

variable {s₀ s : Sim} {trace : List CallRecord} {call : Call} {f : Fault}

theorem Sim.Inv.exec_error (hs : s.Inv) (hcall : call.InOneLine s)
    (hsize : s.mem.size.toNat < 2 ^ 63) (hexec : call.exec s = .error f) : f = .fetchModified := by
  cases hpa : call.physicalAddress s with
  | none =>
      obtain ⟨s', hok, -⟩ := Call.exec_pageFault hpa
      rw [hok] at hexec
      cases hexec
  | some pa =>
      obtain ⟨hfits, hin⟩ := hcall pa hpa
      rw [← lineAddr_lineNo, lineAddr_toNat] at hin
      exact (Call.exec_spec hs hpa).of_eq_error hexec hfits hin hsize

theorem Run.only_fetchModified_abort (h₀ : s₀.EmptyCaches) (hsize : s₀.mem.size.toNat < 2 ^ 63)
    (h : Run Call.InOneLine s₀ trace s) (hcall : call.InOneLine s)
    (hexec : call.exec s = .error f) : f = .fetchModified :=
  (h.inv h₀).exec_error hcall (by rw [h.mem_size h₀]; exact hsize) hexec

/-- Core 0 stores to a line and core 1 fetches from it. -/
theorem only_fetchModified_abort_conflict : ∃ trace s f,
    Run Call.InOneLine (conflictMachine false) trace s ∧
      (Call.fetch 1 0x0 4).exec s = .error f ∧ f = .fetchModified := by
  have hexec : ((runCalls Call.InOneLine [.write 0 0x0 [1]] (conflictMachine false)).any fun r =>
      decide ((Call.fetch 1 0x0 4).InOneLine r.2) && !((Call.fetch 1 0x0 4).exec r.2).isOk) := by
    decide +kernel
  obtain ⟨⟨trace, s⟩, hcalls, hr⟩ := (Option.any_eq_true _ _).mp hexec
  simp only [Bool.and_eq_true, decide_eq_true_eq, Bool.not_eq_true'] at hr
  obtain ⟨hcall, hnot⟩ := hr
  have hrun : Run Call.InOneLine (conflictMachine false) trace s := .of_runCalls .start hcalls
  obtain ⟨f, herror⟩ : ∃ f, (Call.fetch 1 0x0 4).exec s = .error f := by
    cases h : (Call.fetch 1 0x0 4).exec s with
    | ok r =>
        rw [h] at hnot
        cases hnot
    | error f => exact ⟨f, rfl⟩
  exact ⟨trace, s, f, hrun, herror, hrun.only_fetchModified_abort
    (Sim.initial_emptyCaches _ _ _) (by decide) hcall herror⟩

end CacheSimulator
