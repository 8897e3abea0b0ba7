import CacheSimulator.Contract.Aborts
import CacheSimulator.Replay.Snoops

/-!
# Data calls do not abort

The check that a line is not MODIFIED in L2 belongs to `cpu_fetch`. No part of
`cpu_read` or `cpu_write` makes it, so these return on every access that stays in a
line of memory.
-/

namespace CacheSimulator

def SkipsFetchCheck {α : Type} (x : Except Fault α) : Prop :=
  x.Sat (fun _ => True) (· ≠ .fetchModified)

namespace SkipsFetchCheck

variable {α β : Type} {x : Except Fault α}

theorem ok (a : α) : SkipsFetchCheck (.ok a) := trivial

theorem error {f : Fault} (h : f ≠ .fetchModified) :
    SkipsFetchCheck (.error f : Except Fault α) := h

theorem bind {k : α → Except Fault β} (h : SkipsFetchCheck x) (hk : ∀ a, SkipsFetchCheck (k a)) :
    SkipsFetchCheck (x >>= k) :=
  Except.Sat.bind h fun a _ => hk a

theorem ne (h : SkipsFetchCheck x) : x ≠ .error .fetchModified := fun hx => h.of_eq_error hx rfl

/-- A check that fails with an ordinary fault. -/
theorem ite {c : Prop} [Decidable c] {f : Fault} (hx : SkipsFetchCheck x)
    (hf : f ≠ .fetchModified) : SkipsFetchCheck (if c then x else .error f) := by
  split
  · exact hx
  · exact error hf

theorem ite_error {c : Prop} [Decidable c] {f : Fault} (hx : SkipsFetchCheck x)
    (hf : f ≠ .fetchModified) : SkipsFetchCheck (if c then .error f else x) := by
  split
  · exact error hf
  · exact hx

end SkipsFetchCheck

open SkipsFetchCheck

variable {s : Sim} {c : CoreId} {k : L1Kind} {physicalAddress : Addr} {size : ℕ}
  {data : List Byte} {i : Fin 4096} {w : Fin 16} {addr : Addr}

/-! ## Loops and evictions -/

theorem forEachSharer_skips {σ : Type} {body : CoreId → σ → Except Fault σ}
    (h : ∀ c t, SkipsFetchCheck (body c t)) (fuel : ℕ) (mask : BitVec 8) (s : σ) :
    SkipsFetchCheck (forEachSharer body fuel mask s) :=
  forEachSharer_keeps (P := fun _ => True) (by decide) (fun c t _ _ => h c t) fuel trivial

theorem evictL1_skips {l1Index : Fin 64} : SkipsFetchCheck (evictL1 k s l1Index c) := by
  unfold evictL1
  dsimp only
  split
  · exact ok _
  · split
    · exact error (by decide)
    · exact ok _

theorem backInvalidate_skips {validD validI : BitVec 8} :
    SkipsFetchCheck (backInvalidate i w addr validD validI c s) := by
  unfold backInvalidate
  refine bind ?_ fun t => ?_
  · split
    · unfold backInvalidateD
      dsimp only
      split
      · exact error (by decide)
      · exact ok _
    · exact ok _
  · split
    · unfold backInvalidateI
      dsimp only
      split
      · exact error (by decide)
      · exact ok _
    · exact ok _

theorem writeBack_skips : SkipsFetchCheck (writeBack i w addr s) := by
  unfold writeBack
  split
  · refine ite_error (bind ?_ fun _ => ok _) (by decide)
    exact ite (ok _) (by decide)
  · exact ok _

theorem evictL2_skips : SkipsFetchCheck (evictL2 s i) := by
  unfold evictL2
  dsimp only
  split
  · exact ok _
  · refine bind (forEachSharer_skips (fun _ _ => backInvalidate_skips) _ _ _) fun t => ?_
    exact bind writeBack_skips fun _ => ok _

/-! ## Snoops -/

theorem snoopDowngradePeers_skips {sharers : BitVec 8} {l1Index : Fin 64} {l1Tag : Addr}
    {line : Line} : SkipsFetchCheck (snoopDowngradePeers s sharers l1Index l1Tag line i w) := by
  refine forEachSharer_skips (fun b p => ?_) _ _ _
  unfold snoopDowngradePeer
  dsimp only
  split
  · exact ok _
  · exact ok _

theorem snoopInvalidatePeersI_skips {sharers : BitVec 8} {l1Index : Fin 64} {l1Tag : Addr} :
    SkipsFetchCheck (snoopInvalidatePeersI s sharers l1Index l1Tag) := by
  refine forEachSharer_skips (fun b t => ?_) _ _ _
  unfold snoopInvalidatePeerI
  dsimp only
  split
  · exact ok _
  · exact ok _

theorem snoopInvalidatePeers_skips {sharers : BitVec 8} {l1Index : Fin 64} {l1Tag : Addr}
    {lineOut : Option Line} :
    SkipsFetchCheck (snoopInvalidatePeers s sharers l1Index l1Tag lineOut i w) :=
  forEachSharer_skips (fun _ _ => ok _) _ _ _

theorem busRead_skips : SkipsFetchCheck (busRead k s c physicalAddress w) := by
  unfold busRead
  dsimp only
  split
  · exact bind snoopDowngradePeers_skips fun _ => ok _
  · exact ok _

theorem upgradeShared_skips {st : MESIState} :
    SkipsFetchCheck (upgradeShared s c physicalAddress st w) := by
  unfold upgradeShared
  split
  · exact bind snoopInvalidatePeers_skips fun _ => ok _
  · exact ok _

/-! ## Prefetches -/

theorem pfFillL2_skips {fromLine nextLine : Addr} :
    SkipsFetchCheck (pfFillL2 s fromLine nextLine) := by
  unfold pfFillL2
  split
  · exact ok _
  · split
    · exact ok _
    · dsimp only
      split
      · exact ok _
      · refine bind evictL2_skips fun r => bind (ite (ok _) (by decide)) fun _ => ?_
        exact bind (ite_error (ok _) (by decide)) fun _ => ok _

theorem pfBurst_skips {missLine stride : Addr} {fuel : ℕ} {stream : Stream} :
    SkipsFetchCheck (pfBurst missLine stride fuel stream s) := by
  induction fuel generalizing stream s with
  | zero => exact ok _
  | succ fuel ih =>
      unfold pfBurst
      dsimp only
      split
      · exact ok _
      · refine bind pfFillL2_skips fun r => ?_
        split
        · exact ok _
        · exact ih

theorem pfStreamOnMiss_skips : SkipsFetchCheck (pfStreamOnMiss s c addr) := by
  unfold pfStreamOnMiss
  dsimp only
  split
  · exact bind pfBurst_skips fun _ => ok _
  · exact ok _

/-! ## Reads and writes -/

theorem readL1Hit_skips {v : Fin 8} : SkipsFetchCheck (readL1Hit s c physicalAddress v size) :=
  bind (ite (ok _) (by decide)) fun _ => ok _

theorem readL2Hit_skips : SkipsFetchCheck (readL2Hit s c physicalAddress w size) := by
  refine bind evictL1_skips fun r₁ => bind busRead_skips fun r₂ => ?_
  exact bind (ite (ok _) (by decide)) fun _ => ok _

theorem readMiss_skips : SkipsFetchCheck (readMiss s c physicalAddress size) := by
  unfold readMiss
  refine ite_error ?_ (by decide)
  refine bind evictL2_skips fun r₁ => bind evictL1_skips fun r₂ => ?_
  refine bind (ite (ok _) (by decide)) fun _ => bind (ite_error (ok _) (by decide)) fun _ => ?_
  exact bind pfStreamOnMiss_skips fun _ => bind (ite (ok _) (by decide)) fun _ => ok _

theorem writeL1Hit_skips {v : Fin 8} : SkipsFetchCheck (writeL1Hit s c physicalAddress v data) := by
  unfold writeL1Hit
  dsimp only
  split
  · exact error (by decide)
  · refine bind upgradeShared_skips fun _ => bind snoopInvalidatePeersI_skips fun _ => ?_
    exact bind (ite (ok _) (by decide)) fun _ => ok _

theorem writeL2Hit_skips : SkipsFetchCheck (writeL2Hit s c physicalAddress w data) := by
  refine bind snoopInvalidatePeers_skips fun _ => bind (ite (ok _) (by decide)) fun _ => ?_
  exact bind evictL1_skips fun _ => bind snoopInvalidatePeersI_skips fun _ => ok _

theorem writeMiss_skips : SkipsFetchCheck (writeMiss s c physicalAddress data) := by
  unfold writeMiss
  refine ite_error ?_ (by decide)
  refine bind (ite (ok _) (by decide)) fun _ => bind (ite (ok _) (by decide)) fun _ => ?_
  refine bind evictL2_skips fun r₁ => bind evictL1_skips fun r₂ => ?_
  refine bind (ite_error (ok _) (by decide)) fun _ => ?_
  exact bind pfStreamOnMiss_skips fun _ => ok _

theorem Call.exec_skips {call : Call} (hdata : call.IsData) : SkipsFetchCheck (call.exec s) := by
  cases call with
  | read c virtualAddress size =>
      rw [exec, cpuRead]
      split
      · exact ok _
      · split
        · exact readL1Hit_skips
        · split
          · exact readL2Hit_skips
          · exact readMiss_skips
  | write c virtualAddress data =>
      rw [exec, cpuWrite]
      split
      · exact ok _
      · split
        · exact writeL1Hit_skips
        · split
          · exact writeL2Hit_skips
          · exact writeMiss_skips
  | fetch => exact hdata.elim

/-! ## Runs -/

variable {s₀ : Sim} {trace : List CallRecord} {call : Call}

/-- A data call that stays in a line of memory returns. -/
theorem Sim.Inv.exec_returns (hs : s.Inv) (hdata : call.IsData) (hcall : call.InOneLine s)
    (hsize : s.mem.size.toNat < 2 ^ 63) : ∃ r, call.exec s = .ok r := by
  cases hexec : call.exec s with
  | ok r => exact ⟨r, rfl⟩
  | error f =>
      obtain rfl := hs.exec_error hcall hsize hexec
      exact absurd hexec (Call.exec_skips hdata).ne

/-- A data call that returns has page-faulted exactly when its address is not mapped. -/
theorem Sim.Inv.faults_iff (hs : s.Inv) (hdata : call.IsData) (hcall : call.InOneLine s)
    {s' : Sim} {result : Option (List Byte)} (hexec : call.exec s = .ok (s', result)) :
    result = none ↔ call.physicalAddress s = none := by
  cases hpa : call.physicalAddress s with
  | none =>
      obtain ⟨t, hok, -⟩ := Call.exec_pageFault hpa
      rw [hok] at hexec
      obtain ⟨-, rfl⟩ := Prod.mk.inj (Except.ok.inj hexec)
      simp
  | some pa =>
      have hensures := (Call.exec_spec hs hpa).of_eq_ok hexec
      have hline := (hcall pa hpa).1
      cases call with
      | read c virtualAddress size =>
          obtain ⟨v, -, hr⟩ := Sim.Reads.result hensures hline
          simp [show result = _ from hr]
      | write c virtualAddress data =>
          simp [show result = _ from Sim.Writes.result hensures]
      | fetch => exact hdata.elim

/-- In a run of any calls, fetches included, no data call aborts, and it page-faults
exactly when its address is not mapped. -/
theorem Run.data_returns (h₀ : s₀.EmptyCaches) (hsize : s₀.mem.size.toNat < 2 ^ 63)
    (h : Run Call.InOneLine s₀ trace s) (hdata : call.IsData) (hcall : call.InOneLine s) :
    ∃ s' result, call.exec s = .ok (s', result) ∧
      (result = none ↔ call.physicalAddress s = none) := by
  have hs := h.inv h₀
  obtain ⟨⟨s', result⟩, hexec⟩ :=
    hs.exec_returns hdata hcall (by rw [h.mem_size h₀]; exact hsize)
  exact ⟨s', result, hexec, hs.faults_iff hdata hcall hexec⟩

/-- A store to a line that the other core has stored to and fetched. -/
theorem data_returns_conflict : ∃ trace s s' result,
    Run Call.InOneLine (conflictMachine false) trace s ∧ trace.map CallRecord.call = conflictCalls ∧
      (Call.write 0 0x0 [3]).exec s = .ok (s', result) ∧
        (result = none ↔ (Call.write 0 0x0 [3]).physicalAddress s = none) := by
  have hexec : ((runCalls Call.InOneLine conflictCalls (conflictMachine false)).any fun r =>
      decide ((Call.write 0 0x0 [3]).InOneLine r.2)) := by decide +kernel
  obtain ⟨⟨trace, s⟩, hcalls, hcall⟩ := (Option.any_eq_true _ _).mp hexec
  have hrun : Run Call.InOneLine (conflictMachine false) trace s := .of_runCalls .start hcalls
  have hdata : (Call.write 0 0x0 [3]).IsData := trivial
  obtain ⟨s', result, hok, hnone⟩ := hrun.data_returns (Sim.initial_emptyCaches _ _ _)
    (by decide) hdata (of_decide_eq_true hcall)
  exact ⟨trace, s, s', result, hrun, runCalls_calls hcalls, hok, hnone⟩

end CacheSimulator
