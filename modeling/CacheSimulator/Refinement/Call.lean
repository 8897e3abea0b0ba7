import CacheSimulator.Refinement.Write
import CacheSimulator.Refinement.Miss
import CacheSimulator.Run

/-!
# Calls and runs

A call translates its address, which touches no cache, and then takes one of the
paths of its entry point. `Call.exec_spec` puts the lemmas about the paths
together, and `Run.inv` carries the invariant along a run.
-/

namespace CacheSimulator

open Mesi

namespace Sim

variable {s s₁ : Sim} {a : LineNo} {physicalAddress : Addr} {size : ℕ} {data : List Byte}
  {forgets forgets' : Prop} {r : Sim × Option (List Byte)}

/-! ## After the translation -/

theorem Performs.of_sameCaches {stored : Option Store} {s' : Sim} (hs : s.Inv)
    (hsame : SameCaches s s₁) (h : Performs s₁ a stored forgets s') :
    Performs s a stored forgets s' := by
  obtain ⟨es, hes, hf⟩ := h.evolves
  obtain ⟨fs, hfs, hstores⟩ := h.stores
  have hfirst := Evolves.of_sameCaches hs hsame
  refine ⟨⟨es, hfirst.trans hes, hf⟩, ?_, fs, hfirst.trans hfs, hstores⟩
  rw [← hsame.history]
  exact h.flat

theorem Reads.of_sameCaches (hs : s.Inv) (hsame : SameCaches s s₁) (hforgets : forgets → forgets')
    (h : s₁.Reads physicalAddress size forgets r) : s.Reads physicalAddress size forgets' r := by
  exact ⟨(h.performs.of_sameCaches hs hsame).mono hforgets, h.result, h.crossing⟩

theorem Writes.of_sameCaches (hs : s.Inv) (hsame : SameCaches s s₁)
    (h : s₁.Writes physicalAddress data r) : s.Writes physicalAddress data r :=
  ⟨h.performs.of_sameCaches hs hsame, h.fits, h.result⟩

theorem AccessFault.of_sameCaches {f : Fault} (hsame : SameCaches s s₁)
    (h : s₁.AccessFault physicalAddress size f) : s.AccessFault physicalAddress size f := by
  unfold AccessFault at h ⊢
  rwa [← hsame.mem]

end Sim

open Sim

variable {s s' s₀ : Sim} {physicalAddress : Addr} {c : CoreId} {ok : Call → Sim → Prop}
  {trace : List CallRecord}

/-! ## One call -/

def Call.Ensures (call : Call) (s : Sim) (physicalAddress : Addr)
    (r : Sim × Option (List Byte)) : Prop :=
  match call with
  | .read _ _ size => s.Reads physicalAddress size (call.DowngradesModified s) r
  | .write _ _ data => s.Writes physicalAddress data r
  | .fetch _ _ size => s.Reads physicalAddress size False r

/-- A read that finds its line dirty and shared in L2 takes the downgrade path. -/
theorem downgradesModified_of_dirty {virtualAddress : Addr} {size : ℕ} {w : Fin 16} (hs : s.Inv)
    (hpa : (Call.read c virtualAddress size).physicalAddress s = some physicalAddress)
    (hmiss : findL1Way (s.l1 .data c (l1ToIndex physicalAddress)) (l1ToTag physicalAddress) = none)
    (hfind : l2FindWay (s.l2 (l2ToIndex physicalAddress)) (l2ToTag physicalAddress) = some w)
    (hdirty : (s.rep (lineNo physicalAddress)).view.Dirty)
    (hpeer : (s.rep (lineNo physicalAddress)).hasPeer c = true) :
    (Call.read c virtualAddress size).DowngradesModified s := by
  refine ⟨physicalAddress, hpa, w, by rw [Call.l2Hit, hmiss]; exact hfind, ?_⟩
  obtain ⟨e, hw⟩ := l2FindWay_eq_some hfind
  simp only [← l2Geometry_index_lineNo physicalAddress, ← l2Geometry_tag_lineNo physicalAddress]
    at hw ⊢
  have he := hs.placed.l2_of_slots hw
  have hst := L2Set.state_of_slots hw
  obtain ⟨u, hu⟩ := hdirty
  obtain ⟨hd, hi⟩ := hs.exact _ e he
  rw [LineRep.view_l2, he, Option.map_some, Option.some.injEq] at hu
  rw [(Prod.mk.inj hu).1] at hst
  constructor
  · exact MESIState.mode?_eq_modified.mp hst
  · rw [L2Set.coreValidD_of_slots hw, L2Set.coreValidI_of_slots hw, hd, hi,
      maskOf_and_not_coreBit, maskOf_and_not_coreBit, ne_eq, LineRep.others_eq_zero, hpeer]
    simp

theorem cpuRead_spec {virtualAddress : Addr} {size : ℕ} (hs : s.Inv)
    (hpa : (Call.read c virtualAddress size).physicalAddress s = some physicalAddress) :
    (cpuRead s c virtualAddress size).Sat
      (s.Reads physicalAddress size ((Call.read c virtualAddress size).DowngradesModified s))
      (s.AccessFault physicalAddress size) := by
  obtain ⟨s₁, htranslate⟩ : ∃ s₁, translateData s c virtualAddress = (some physicalAddress, s₁) :=
    ⟨_, Prod.ext hpa rfl⟩
  have hsame := SameCaches.translateData s c virtualAddress
  rw [htranslate] at hsame
  have hs₁ := hs.congr hsame
  unfold cpuRead
  rw [htranslate]
  dsimp only
  cases hl1 : findL1Way (s₁.l1 .data c (l1ToIndex physicalAddress)) (l1ToTag physicalAddress) with
  | some w =>
      exact (readL1Hit_spec hs₁ hl1 _).mono (fun r hr => hr.of_sameCaches hs hsame id)
        fun f hf => hf.of_sameCaches hsame
  | none =>
      dsimp only
      cases hl2 : l2FindWay (s₁.l2 (l2ToIndex physicalAddress)) (l2ToTag physicalAddress) with
      | some w =>
          refine (readL2Hit_spec hs₁ hl1 hl2).mono (fun r hr => hr.of_sameCaches hs hsame ?_)
            fun f hf => hf.of_sameCaches hsame
          rw [hsame.rep]
          rw [hsame.l1] at hl1
          rw [hsame.l2] at hl2
          exact fun h => downgradesModified_of_dirty hs hpa hl1 hl2 h.1 h.2
      | none =>
          exact (readMiss_spec hs₁ hl2 _).mono (fun r hr => hr.of_sameCaches hs hsame id)
            fun f hf => hf.of_sameCaches hsame

theorem cpuWrite_spec {virtualAddress : Addr} {data : List Byte} (hs : s.Inv)
    (hpa : (Call.write c virtualAddress data).physicalAddress s = some physicalAddress) :
    (cpuWrite s c virtualAddress data).Sat (s.Writes physicalAddress data)
      (s.AccessFault physicalAddress data.length) := by
  obtain ⟨s₁, htranslate⟩ : ∃ s₁, translateData s c virtualAddress = (some physicalAddress, s₁) :=
    ⟨_, Prod.ext hpa rfl⟩
  have hsame := SameCaches.translateData s c virtualAddress
  rw [htranslate] at hsame
  have hs₁ := hs.congr hsame
  unfold cpuWrite
  rw [htranslate]
  dsimp only
  cases hl1 : findL1Way (s₁.l1 .data c (l1ToIndex physicalAddress)) (l1ToTag physicalAddress) with
  | some w =>
      exact (writeL1Hit_spec hs₁ hl1).mono (fun r hr => hr.of_sameCaches hs hsame)
        fun f hf => hf.of_sameCaches hsame
  | none =>
      dsimp only
      cases hl2 : l2FindWay (s₁.l2 (l2ToIndex physicalAddress)) (l2ToTag physicalAddress) with
      | some w =>
          exact (writeL2Hit_spec hs₁ hl1 hl2).mono (fun r hr => hr.of_sameCaches hs hsame)
            fun f hf => hf.of_sameCaches hsame
      | none =>
          exact (writeMiss_spec hs₁ hl2).mono (fun r hr => hr.of_sameCaches hs hsame)
            fun f hf => hf.of_sameCaches hsame

theorem cpuFetch_spec {virtualAddress : Addr} {size : ℕ} (hs : s.Inv)
    (hpa : (Call.fetch c virtualAddress size).physicalAddress s = some physicalAddress) :
    (cpuFetch s c virtualAddress size).Sat (s.Reads physicalAddress size False)
      (s.AccessFault physicalAddress size) := by
  obtain ⟨s₁, htranslate⟩ : ∃ s₁, translateInstr s c virtualAddress = (some physicalAddress, s₁) :=
    ⟨_, Prod.ext hpa rfl⟩
  have hsame := SameCaches.translateInstr s c virtualAddress
  rw [htranslate] at hsame
  have hs₁ := hs.congr hsame
  unfold cpuFetch
  rw [htranslate]
  dsimp only
  cases hl1 : findL1Way (s₁.l1 .instr c (l1ToIndex physicalAddress)) (l1ToTag physicalAddress) with
  | some w =>
      exact (fetchL1Hit_spec hs₁ hl1).mono (fun r hr => hr.of_sameCaches hs hsame id)
        fun f hf => hf.of_sameCaches hsame
  | none =>
      dsimp only
      cases hl2 : l2FindWay (s₁.l2 (l2ToIndex physicalAddress)) (l2ToTag physicalAddress) with
      | some w =>
          exact (fetchL2Hit_spec hs₁ hl1 hl2).mono (fun r hr => hr.of_sameCaches hs hsame id)
            fun f hf => hf.of_sameCaches hsame
      | none =>
          exact (fetchMiss_spec hs₁ hl2).mono (fun r hr => hr.of_sameCaches hs hsame id)
            fun f hf => hf.of_sameCaches hsame

/-- A call that page-faults returns `false` and leaves the caches alone. -/
theorem Call.exec_pageFault {call : Call} (h : call.physicalAddress s = none) :
    ∃ s', call.exec s = .ok (s', none) ∧ SameCaches s s' := by
  cases call with
  | read c virtualAddress size =>
      refine ⟨_, ?_, SameCaches.translateData s c virtualAddress⟩
      rw [exec, cpuRead, show translateData s c virtualAddress = (none, _) from Prod.ext h rfl]
  | write c virtualAddress data =>
      refine ⟨_, ?_, SameCaches.translateData s c virtualAddress⟩
      rw [exec, cpuWrite, show translateData s c virtualAddress = (none, _) from Prod.ext h rfl]
  | fetch c virtualAddress size =>
      refine ⟨_, ?_, SameCaches.translateInstr s c virtualAddress⟩
      rw [exec, cpuFetch, show translateInstr s c virtualAddress = (none, _) from Prod.ext h rfl]

theorem Call.exec_spec {call : Call} (hs : s.Inv)
    (h : call.physicalAddress s = some physicalAddress) :
    (call.exec s).Sat (call.Ensures s physicalAddress)
      (s.AccessFault physicalAddress call.dataSize) := by
  cases call with
  | read c virtualAddress size => exact cpuRead_spec hs h
  | write c virtualAddress data => exact cpuWrite_spec hs h
  | fetch c virtualAddress size => exact cpuFetch_spec hs h

theorem Call.Ensures.performs {call : Call} {r : Sim × Option (List Byte)}
    (h : call.Ensures s physicalAddress r) : ∃ stored,
      Performs s (lineNo physicalAddress) stored (call.DowngradesModified s) r.1 := by
  cases call with
  | read c virtualAddress size => exact ⟨_, Reads.performs h⟩
  | write c virtualAddress data => exact ⟨_, Writes.performs h⟩
  | fetch c virtualAddress size => exact ⟨_, Reads.performs h⟩

/-- The step lemma: a call that returns makes moves of the protocol. -/
theorem Call.exec_evolves {call : Call} {r : Sim × Option (List Byte)} (hs : s.Inv)
    (h : call.exec s = .ok r) : ∃ es, Evolves s es r.1 ∧
      ∀ e ∈ es, e.2.Forgets → call.DowngradesModified s := by
  cases hpa : call.physicalAddress s with
  | none =>
      obtain ⟨s', hexec, hsame⟩ := exec_pageFault hpa
      rw [hexec] at h
      obtain rfl := Except.ok.inj h
      exact ⟨[], .of_sameCaches hs hsame, fun e he => by cases he⟩
  | some pa =>
      obtain ⟨stored, hperforms⟩ := ((exec_spec hs hpa).of_eq_ok h).performs
      exact hperforms.evolves

/-! ## Runs -/

namespace Sim.EmptyCaches

theorem l1_slots (h : s.EmptyCaches) (k : L1Kind) (c : CoreId) (i : Fin 64) (w : Fin 8) :
    (s.l1 k c i).slots w = none :=
  L1Set.slots_eq_none.mpr (h.l1 k c i w)

theorem l2_slots (h : s.EmptyCaches) (i : Fin 4096) (w : Fin 16) : (s.l2 i).slots w = none :=
  L2Set.slots_eq_none.mpr (h.l2 i w)

theorem placed (h : s.EmptyCaches) : s.Placed := by
  refine ⟨fun k c => ⟨?_, ?_⟩, ⟨?_, ?_⟩, fun i w _ => h.masks i w⟩
  · intro i w w' t x y hx
    rw [h.l1_slots] at hx
    cases hx
  · intro i w t x hx
    rw [h.l1_slots] at hx
    cases hx
  · intro i w w' t x y hx
    rw [h.l2_slots] at hx
    cases hx
  · intro i w t x hx
    rw [h.l2_slots] at hx
    cases hx

theorem l1_eq_none (h : s.EmptyCaches) (a : LineNo) (k : L1Kind) (c : CoreId) :
    (s.rep a).l1 k c = none := by
  by_contra hne
  obtain ⟨x, hx⟩ := Option.ne_none_iff_exists'.mp hne
  obtain ⟨w, hw⟩ := h.placed.exists_l1_way hx
  rw [h.l1_slots] at hw
  cases hw

theorem l2_eq_none (h : s.EmptyCaches) (a : LineNo) : (s.rep a).l2 = none := by
  by_contra hne
  obtain ⟨e, he⟩ := Option.ne_none_iff_exists'.mp hne
  obtain ⟨w, hw⟩ := h.placed.exists_l2_way he
  rw [h.l2_slots] at hw
  cases hw

theorem inv (h : s.EmptyCaches) : s.Inv := by
  refine ⟨h.placed, fun a e he => ?_, fun a ha => absurd (h.l2_eq_none a) ha, fun c i hc => ?_,
    fun a => ?_, fun a ha => absurd (h.l2_eq_none a) ha⟩
  · rw [h.l2_eq_none] at he
    cases he
  · exact absurd (h.streams c i) hc
  · refine coherent_of_no_copies (fun c => ?_) (fun c => ?_) fun v hv => ?_
    · exact h.l1_eq_none a .data c
    · simp [LineRep.view, h.l1_eq_none]
    · simp [LineRep.view, h.l2_eq_none] at hv

end Sim.EmptyCaches

theorem Run.evolves (h₀ : s₀.Inv) (h : Run ok s₀ trace s) : ∃ es, Evolves s₀ es s := by
  induction h with
  | start => exact ⟨[], .refl h₀⟩
  | call call hrun hok hexec ih =>
      obtain ⟨es, hes⟩ := ih
      obtain ⟨fs, hfs, -⟩ := Call.exec_evolves hes.inv hexec
      exact ⟨es ++ fs, hes.trans hfs⟩
  | beginStep seq hrun ih =>
      obtain ⟨es, hes⟩ := ih
      exact ⟨es, hes.congr (SameCaches.beginStep _ seq)⟩

/-- The run lemma: every reachable state satisfies the invariant. -/
theorem Run.inv (h₀ : s₀.EmptyCaches) (h : Run ok s₀ trace s) : s.Inv := by
  obtain ⟨es, hes⟩ := h.evolves h₀.inv
  exact hes.inv

theorem Run.mem_size (h₀ : s₀.EmptyCaches) (h : Run ok s₀ trace s) : s.mem.size = s₀.mem.size := by
  obtain ⟨es, hes⟩ := h.evolves h₀.inv
  exact hes.size

end CacheSimulator
