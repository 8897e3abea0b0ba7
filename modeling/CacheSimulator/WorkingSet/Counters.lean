import CacheSimulator.Prefetching.Demand

/-!
# The counters of a call

Every path of the three entry points increments one counter of its core, once. Which
one depends on the caches in the state before the call only: the L1 cache of the
path, L2, or memory.
-/

namespace CacheSimulator

def Call.l1Kind : Call → L1Kind
  | .read _ _ _ => .data
  | .write _ _ _ => .data
  | .fetch _ _ _ => .instr

def L1Kind.hitKind : L1Kind → HitKind
  | .data => .l1d
  | .instr => .l1i

/-- Where a call finds the line `a` in state `s`. -/
def Call.hitKind (call : Call) (a : LineNo) (s : Sim) : HitKind :=
  if s.HasCopy call.l1Kind call.coreId a then call.l1Kind.hitKind
  else if s.Resident a then .l2 else .mem

theorem Call.hitKind_eq_l1d {call : Call} {a : LineNo} {s : Sim} :
    call.hitKind a s = .l1d ↔ call.IsData ∧ s.HasCopy .data call.coreId a := by
  have hmiss : (if s.Resident a then HitKind.l2 else .mem) ≠ .l1d := by split <;> simp
  unfold hitKind
  split
  · rename_i hcopy
    cases call with
    | read => exact ⟨fun _ => ⟨trivial, hcopy⟩, fun _ => rfl⟩
    | write => exact ⟨fun _ => ⟨trivial, hcopy⟩, fun _ => rfl⟩
    | fetch => exact ⟨fun h => (by cases h), fun h => h.1.elim⟩
  · rename_i hcopy
    refine ⟨fun h => absurd h hmiss, fun h => ?_⟩
    cases call with
    | read => exact absurd h.2 hcopy
    | write => exact absurd h.2 hcopy
    | fetch => exact h.1.elim

theorem Call.hitKind_ne_mem {call : Call} {a : LineNo} {s : Sim} (h : s.Resident a) :
    call.hitKind a s ≠ .mem := by
  unfold hitKind
  rw [if_pos h]
  split
  · cases call <;> simp [Call.l1Kind, L1Kind.hitKind]
  · simp

namespace Sim

variable {s s' t u : Sim} {b c : CoreId} {physicalAddress fromLine nextLine : Addr} {size : ℕ}
  {data : List Byte} {kind : HitKind} {k : L1Kind} {v : Fin 8} {w : Fin 16}

structure SamePmc (s s' : Sim) : Prop where
  pmc : ∀ b, (s'.cpu.cores b).pmc = (s.cpu.cores b).pmc

structure CountsOne (kind : HitKind) (c : CoreId) (s s' : Sim) : Prop where
  pmc : ∀ b, (s'.cpu.cores b).pmc =
    if b = c then (s.cpu.cores b).pmc.bump kind else (s.cpu.cores b).pmc

namespace SamePmc

theorem refl (s : Sim) : SamePmc s s := ⟨fun _ => rfl⟩

theorem trans (h : SamePmc s t) (h' : SamePmc t u) : SamePmc s u :=
  ⟨fun b => (h'.pmc b).trans (h.pmc b)⟩

theorem keeps (h : SamePmc s t) (h' : KeepsPrefetcher t u) : SamePmc s u := h.trans ⟨h'.pmc⟩

theorem setL1 {i : Fin 64} {set : L1Set} (h : SamePmc s t) : SamePmc s (t.setL1 k c i set) :=
  h.keeps (.setL1 ..)

theorem setL2 {i : Fin 4096} {set : L2Set} (h : SamePmc s t) : SamePmc s (t.setL2 i set) :=
  h.keeps (.setL2 ..)

theorem record {op : MemOp} (h : SamePmc s t) : SamePmc s (t.record op) := h.keeps (.record ..)

theorem emit {type : CacheEventType} {coreId level set way : ℕ} {addr : Addr}
    {oldState newState : MESIState} {data : Option Line} (h : SamePmc s t) :
    SamePmc s (t.emit type coreId level set way addr oldState newState data) :=
  ⟨fun b => by rw [cpu_emit, h.pmc]⟩

theorem setStream {i : Fin 8} {stream : Stream} (h : SamePmc s t) :
    SamePmc s (t.setStream c i stream) := by
  refine h.trans ⟨fun b => ?_⟩
  by_cases hb : b = c
  · subst hb
    simp [Sim.setStream, modifyCore]
  · simp [Sim.setStream, modifyCore, hb]

theorem modifyPmc {f : PerfCounters → PerfCounters} (h : SamePmc s t) (kind : HitKind)
    (hf : f = (·.bump kind)) : CountsOne kind c s (t.modifyPmc c f) := by
  refine ⟨fun b => ?_⟩
  rw [hf, ← h.pmc b]
  by_cases hb : b = c
  · subst hb
    simp [Sim.modifyPmc, modifyCore]
  · simp [Sim.modifyPmc, modifyCore, hb]

end SamePmc

namespace CountsOne

theorem same (h : CountsOne kind c s t) (h' : SamePmc t u) : CountsOne kind c s u :=
  ⟨fun b => (h'.pmc b).trans (h.pmc b)⟩

theorem setL1 {i : Fin 64} {set : L1Set} (h : CountsOne kind c s t) :
    CountsOne kind c s (t.setL1 k b i set) :=
  h.same (.setL1 (.refl t))

theorem record {op : MemOp} (h : CountsOne kind c s t) : CountsOne kind c s (t.record op) :=
  h.same (.record (.refl t))

theorem emit {type : CacheEventType} {coreId level set way : ℕ} {addr : Addr}
    {oldState newState : MESIState} {data : Option Line} (h : CountsOne kind c s t) :
    CountsOne kind c s (t.emit type coreId level set way addr oldState newState data) :=
  h.same (.emit (.refl t))

end CountsOne

/-! ## The prefetchers -/

theorem pfFillL2_samePmc :
    (pfFillL2 s fromLine nextLine).Sat (fun r => SamePmc s r.1) fun _ => True := by
  unfold pfFillL2
  split
  · exact .refl s
  · split
    · exact .refl s
    · dsimp only
      split
      · exact .refl s
      · refine evictL2_keepsPrefetcher.bind fun r hr => ?_
        refine (Except.sat_returned _).bind fun _ _ => (Except.sat_returned _).bind fun _ _ => ?_
        exact ((SamePmc.refl s).keeps hr).setL2.record.emit

theorem pfBurst_samePmc {missLine stride : Addr} {fuel : ℕ} {stream : Stream} :
    (pfBurst missLine stride fuel stream s).Sat (fun r => SamePmc s r.2) fun _ => True := by
  induction fuel generalizing stream s with
  | zero => exact .refl s
  | succ fuel ih =>
      unfold pfBurst
      dsimp only
      split
      · exact .refl s
      · refine pfFillL2_samePmc.bind fun r hr => ?_
        split
        · exact hr
        · exact ih.imp fun _ h => hr.trans h

theorem pfStreamOnMiss_samePmc :
    (pfStreamOnMiss s c fromLine).Sat (SamePmc s) fun _ => True := by
  unfold pfStreamOnMiss
  dsimp only
  split
  · exact pfBurst_samePmc.bind fun r hr => hr.setStream
  · exact (SamePmc.refl s).setStream

/-! ## The paths -/

theorem evictL1_samePmc {i : Fin 64} :
    (evictL1 k s i c).Sat (fun r => SamePmc s r.1) fun _ => True :=
  (evictL1_quiet (c := c) (a := 0)).imp fun _ h => ⟨h.keeps.pmc⟩

theorem evictL2_samePmc {i : Fin 4096} :
    (evictL2 s i).Sat (fun r => SamePmc s r.1) fun _ => True :=
  evictL2_keepsPrefetcher.imp fun _ h => ⟨h.pmc⟩

theorem readL1Hit_counts :
    (readL1Hit s c physicalAddress v size).Sat (fun r => CountsOne .l1d c s r.1)
      fun _ => True := by
  unfold readL1Hit
  dsimp only
  refine (Except.sat_returned _).bind fun _ _ => ?_
  rw [Except.sat_ok]
  dsimp only
  refine CountsOne.setL1 ?_
  exact (SamePmc.emit (.refl s)).modifyPmc .l1d rfl

theorem writeL1Hit_counts :
    (writeL1Hit s c physicalAddress v data).Sat (fun r => CountsOne .l1d c s r.1)
      fun _ => True := by
  unfold writeL1Hit
  dsimp only
  split
  · trivial
  refine (upgradeShared_quiet (a := 0)).bind fun s₁ h₁ => ?_
  refine (snoopInvalidatePeersI_quiet (c := c) (a := 0)).bind fun s₂ h₂ => ?_
  refine (Except.sat_returned _).bind fun _ _ => ?_
  have hsnooped := ((SamePmc.refl s).keeps h₁.keeps).keeps h₂.keeps
  exact (hsnooped.setL2.modifyPmc .l1d rfl).setL1.record.emit

theorem fetchL1Hit_counts :
    (fetchL1Hit s c physicalAddress v size).Sat (fun r => CountsOne .l1i c s r.1)
      fun _ => True := by
  unfold fetchL1Hit
  dsimp only
  refine (Except.sat_returned _).bind fun _ _ => ?_
  rw [Except.sat_ok]
  dsimp only
  refine CountsOne.setL1 ?_
  exact (SamePmc.refl s).modifyPmc .l1i rfl

theorem readL2Hit_counts (hw : (s.l2 (l2ToIndex physicalAddress)).state w ≠ .invalid) :
    (readL2Hit s c physicalAddress w size).Sat (fun r => CountsOne .l2 c s r.1)
      fun _ => True := by
  unfold readL2Hit
  dsimp only
  refine (evictL1_quiet (c := c) (a := 0)).bind fun r₁ h₁ => ?_
  have hw₁ := h₁.state_ne (i := l2ToIndex physicalAddress) (w := w) (by rwa [l2_emit])
  refine (busRead_quiet (a := 0) hw₁).bind fun r₂ h₂ => ?_
  refine (Except.sat_returned _).bind fun _ _ => ?_
  have hsnooped := ((SamePmc.refl s).emit.keeps h₁.keeps).keeps h₂.keeps
  exact (hsnooped.modifyPmc .l2 rfl).setL1.emit

theorem fetchL2Hit_counts (hw : (s.l2 (l2ToIndex physicalAddress)).state w ≠ .invalid) :
    (fetchL2Hit s c physicalAddress w size).Sat (fun r => CountsOne .l2 c s r.1)
      fun _ => True := by
  unfold fetchL2Hit
  dsimp only
  split
  · trivial
  refine (evictL1_quiet (c := c) (a := 0)).bind fun r₁ h₁ => ?_
  refine (busRead_quiet (a := 0) (h₁.state_ne hw)).bind fun r₂ h₂ => ?_
  refine (Except.sat_returned _).bind fun _ _ => ?_
  have hsnooped := ((SamePmc.refl s).keeps h₁.keeps).keeps h₂.keeps
  exact hsnooped.setL1.modifyPmc .l2 rfl

theorem writeL2Hit_counts :
    (writeL2Hit s c physicalAddress w data).Sat (fun r => CountsOne .l2 c s r.1)
      fun _ => True := by
  unfold writeL2Hit
  dsimp only
  refine (snoopInvalidatePeers_quiet (c := c) (a := 0)).bind fun r₁ h₁ => ?_
  refine (Except.sat_returned _).bind fun _ _ => ?_
  refine evictL1_samePmc.bind fun r₂ h₂ => ?_
  refine (snoopInvalidatePeersI_quiet (c := c) (a := 0)).bind fun s₃ h₃ => ?_
  have hroom := ((SamePmc.refl s).emit.keeps h₁.keeps).trans h₂
  exact (hroom.setL1.record.emit.keeps h₃.keeps).setL2.modifyPmc .l2 rfl

theorem readMiss_counts :
    (readMiss s c physicalAddress size).Sat (fun r => CountsOne .mem c s r.1) fun _ => True := by
  unfold readMiss
  dsimp only
  split
  · trivial
  refine evictL2_samePmc.bind fun r₁ h₁ => evictL1_samePmc.bind fun r₂ h₂ => ?_
  refine (Except.sat_returned _).bind fun _ _ => (Except.sat_returned _).bind fun _ _ => ?_
  refine pfStreamOnMiss_samePmc.bind fun s₃ h₃ => (Except.sat_returned _).bind fun _ _ => ?_
  exact ((h₁.trans h₂).setL2.record.emit.setL1.emit.emit.trans h₃).modifyPmc .mem rfl

theorem writeMiss_counts :
    (writeMiss s c physicalAddress data).Sat (fun r => CountsOne .mem c s r.1) fun _ => True := by
  unfold writeMiss
  dsimp only
  split
  · trivial
  refine (Except.sat_returned _).bind fun _ _ => (Except.sat_returned _).bind fun _ _ => ?_
  refine evictL2_samePmc.bind fun r₁ h₁ => evictL1_samePmc.bind fun r₂ h₂ => ?_
  refine (Except.sat_returned _).bind fun _ _ => ?_
  refine pfStreamOnMiss_samePmc.bind fun s₃ h₃ => ?_
  exact ((h₁.trans h₂).setL2.record.record.emit.setL1.emit.emit.trans h₃).modifyPmc .mem rfl

theorem fetchMiss_counts :
    (fetchMiss s c physicalAddress size).Sat (fun r => CountsOne .mem c s r.1) fun _ => True := by
  unfold fetchMiss
  dsimp only
  split
  · trivial
  refine evictL2_samePmc.bind fun r₁ h₁ => evictL1_samePmc.bind fun r₂ h₂ => ?_
  refine (Except.sat_returned _).bind fun _ _ => (Except.sat_returned _).bind fun _ _ => ?_
  unfold pfNextlineOnMiss
  refine Except.Sat.bind (pfFillL2_samePmc.bind fun r₃ h₃ => h₃) fun s₃ h₃ => ?_
  refine (Except.sat_returned _).bind fun _ _ => ?_
  exact ((h₁.trans h₂).setL2.record.setL1.trans h₃).modifyPmc .mem rfl

/-! ## Calls -/

theorem translateInstr_samePmc (s : Sim) (c : CoreId) (virtualAddress : Addr) :
    SamePmc s (translateInstr s c virtualAddress).2 :=
  SamePmc.keeps (.refl s) (.modifyCore (f := fun core => { core with
    itlb := (translate (s.cpu.cores c).itlb (s.pml4s (s.cpu.cores c).activePml4) s.mem
      virtualAddress).2 }) (fun _ => rfl) fun _ => rfl)

variable {call : Call}

theorem hitKind_eq : call.hitKind (lineNo physicalAddress) s =
    match findL1Way (s.l1 call.l1Kind call.coreId (l1ToIndex physicalAddress))
      (l1ToTag physicalAddress) with
    | some _ => call.l1Kind.hitKind
    | none =>
        match l2FindWay (s.l2 (l2ToIndex physicalAddress)) (l2ToTag physicalAddress) with
        | some _ => .l2
        | none => .mem := by
  unfold Call.hitKind
  simp only [hasCopy_iff_find, resident_iff_find]
  cases findL1Way (s.l1 call.l1Kind call.coreId (l1ToIndex physicalAddress))
      (l1ToTag physicalAddress) with
  | some v => simp
  | none => cases l2FindWay (s.l2 (l2ToIndex physicalAddress)) (l2ToTag physicalAddress) <;> simp

theorem counts_of_paths {l1Hit : Fin 8 → Except Fault (Sim × Option (List Byte))}
    {l2Hit : Fin 16 → Except Fault (Sim × Option (List Byte))}
    {miss : Except Fault (Sim × Option (List Byte))} (hst : SamePmc s t)
    (hcaches : SameCaches s t) (hc : call.coreId = c) (hk : call.l1Kind = k)
    (hl1 : ∀ v, (l1Hit v).Sat (fun r => CountsOne k.hitKind c t r.1) fun _ => True)
    (hl2 : ∀ w, (t.l2 (l2ToIndex physicalAddress)).state w ≠ .invalid →
      (l2Hit w).Sat (fun r => CountsOne .l2 c t r.1) fun _ => True)
    (hmiss : miss.Sat (fun r => CountsOne .mem c t r.1) fun _ => True) :
    Except.Sat
      (match findL1Way (t.l1 k c (l1ToIndex physicalAddress)) (l1ToTag physicalAddress) with
      | some v => l1Hit v
      | none =>
          match l2FindWay (t.l2 (l2ToIndex physicalAddress)) (l2ToTag physicalAddress) with
          | some w => l2Hit w
          | none => miss)
      (fun r => CountsOne (call.hitKind (lineNo physicalAddress) s) c s r.1) fun _ => True := by
  rw [hitKind_eq, hc, hk, ← hcaches.l1, ← hcaches.l2]
  cases findL1Way (t.l1 k c (l1ToIndex physicalAddress)) (l1ToTag physicalAddress) with
  | some v => exact (hl1 v).imp fun r hr => ⟨fun b => by rw [hr.pmc, hst.pmc]⟩
  | none =>
      dsimp only
      cases hfind : l2FindWay (t.l2 (l2ToIndex physicalAddress)) (l2ToTag physicalAddress) with
      | some w =>
          exact (hl2 w (l2FindWay_found hfind).2).imp fun r hr =>
            ⟨fun b => by rw [hr.pmc, hst.pmc]⟩
      | none => exact hmiss.imp fun r hr => ⟨fun b => by rw [hr.pmc, hst.pmc]⟩

end Sim

open Sim

variable {call : Call} {s : Sim} {physicalAddress : Addr}

/-- A call that returns has counted one hit, of the kind its lookups say. -/
theorem Call.exec_counts (hpa : call.physicalAddress s = some physicalAddress) :
    (call.exec s).Sat
      (fun r => CountsOne (call.hitKind (lineNo physicalAddress) s) call.coreId s r.1)
      fun _ => True := by
  cases call with
  | read c virtualAddress size =>
      have hst := untouched_translateData s c virtualAddress
      rw [exec, cpuRead, show translateData s c virtualAddress = (some physicalAddress, _) from
        Prod.ext hpa rfl]
      exact counts_of_paths ⟨hst.keeps.pmc⟩ hst.sameCaches rfl rfl (fun _ => readL1Hit_counts)
        (fun _ => readL2Hit_counts) readMiss_counts
  | write c virtualAddress data =>
      have hst := untouched_translateData s c virtualAddress
      rw [exec, cpuWrite, show translateData s c virtualAddress = (some physicalAddress, _) from
        Prod.ext hpa rfl]
      exact counts_of_paths ⟨hst.keeps.pmc⟩ hst.sameCaches rfl rfl (fun _ => writeL1Hit_counts)
        (fun _ _ => writeL2Hit_counts) writeMiss_counts
  | fetch c virtualAddress size =>
      have hsame := SameCaches.translateInstr s c virtualAddress
      have hpmc := translateInstr_samePmc s c virtualAddress
      rw [exec, cpuFetch, show translateInstr s c virtualAddress = (some physicalAddress, _) from
        Prod.ext hpa rfl]
      exact counts_of_paths hpmc hsame rfl rfl (fun _ => fetchL1Hit_counts)
        (fun _ => fetchL2Hit_counts) fetchMiss_counts

theorem Call.exec_pageFault_samePmc (hpa : call.physicalAddress s = none) :
    (call.exec s).Sat (fun r => SamePmc s r.1) fun _ => True := by
  cases call with
  | read c virtualAddress size =>
      rw [exec, cpuRead, show translateData s c virtualAddress = (none, _) from Prod.ext hpa rfl]
      exact ⟨(untouched_translateData s c virtualAddress).keeps.pmc⟩
  | write c virtualAddress data =>
      rw [exec, cpuWrite, show translateData s c virtualAddress = (none, _) from Prod.ext hpa rfl]
      exact ⟨(untouched_translateData s c virtualAddress).keeps.pmc⟩
  | fetch c virtualAddress size =>
      rw [exec, cpuFetch, show translateInstr s c virtualAddress = (none, _) from Prod.ext hpa rfl]
      exact translateInstr_samePmc s c virtualAddress

end CacheSimulator
