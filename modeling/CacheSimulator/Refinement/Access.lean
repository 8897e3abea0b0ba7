import CacheSimulator.Refinement.Prefetch
import CacheSimulator.Refinement.Snoop

/-!
# Accesses

What a call that has translated its address does to the lines: it makes room,
moves the line it accesses once, and prefetches. Each path of the three entry
points gets one lemma.
-/

namespace CacheSimulator

open Mesi

namespace Sim

variable {s s' s'' s₁ s₂ s₃ : Sim} {a : LineNo} {c : CoreId} {k : L1Kind}

/-! ## Moves of the accessed line -/

theorem lineMove_of_rep {x : LineRep} {α : Action CoreId Store}
    (hin : 64 * (a : ℕ) + 64 ≤ s.mem.size.toNat) (hp : s'.Placed)
    (hrep : s'.rep = Function.update s.rep a x) (hsize : s'.mem.size = s.mem.size)
    (hstreams : s'.streams = s.streams) (hexact : x.Exact)
    (hstep : Mesi.Step Store.act (s.rep a).view α x.view)
    (hrecords : Records s.history a (s.rep a).mem α s'.history) : LineMove s a α s' := by
  have hself := congrFun hrep a
  rw [Function.update_self] at hself
  refine ⟨hp, hsize, hstreams, fun b hb => ?_, hself ▸ hexact, fun _ => hin, hself ▸ hstep,
    hrecords⟩
  rw [hrep, Function.update_of_ne hb]

theorem Placed.fillL1 {w : Fin 8} (hp : s.Placed)
    (hfree : (s.l1 k c (l1Geometry.index a)).state w = .invalid) (ha : (s.rep a).l1 k c = none)
    {st : MESIState} {m : Mode} (hst : st.mode? = some m) (line : Line) :
    (s.setL1 k c (l1Geometry.index a)
        (l1CacheFill (s.l1 k c (l1Geometry.index a)) (l1Geometry.tag a) w line st)).Placed ∧
      (s.setL1 k c (l1Geometry.index a)
        (l1CacheFill (s.l1 k c (l1Geometry.index a)) (l1Geometry.tag a) w line st)).rep =
          Function.update s.rep a ((s.rep a).setL1 k c (some (m, line))) :=
  hp.setL1 (l1Assignable_of_free hfree ha) (L1Set.slots_fill hst)

/-- The fill of both levels with a line that is in neither. -/
theorem lineMove_fill {w : Fin 16} {v : Fin 8} {l2Set : L2Set} {m m' : Mode} {st : MESIState}
    {line : Line} {α : Action CoreId Store} (hs : s.Inv)
    (hin : 64 * (a : ℕ) + 64 ≤ s.mem.size.toNat)
    (hw : (s.l2 (l2Geometry.index a)).state w = .invalid)
    (hv : (s.l1 k c (l1Geometry.index a)).state v = .invalid) (ha : (s.rep a).l2 = none)
    (hset : (s.l2 (l2Geometry.index a)).Becomes l2Set w (l2Geometry.tag a)
      (some (L2Set.soleEntry m k c line)))
    (hst : st.mode? = some m')
    (h₁ : s₁.l1 = s.l1 ∧ s₁.l2 = (s.setL2 (l2Geometry.index a) l2Set).l2 ∧ s₁.mem = s.mem ∧
      s₁.streams = s.streams)
    (h₂ : SameCaches (s₁.setL1 k c (l1Geometry.index a)
      (l1CacheFill (s₁.l1 k c (l1Geometry.index a)) (l1Geometry.tag a) v line st)) s₂)
    (hstep : Mesi.Step Store.act (s.rep a).view α
      (((s.rep a).setL2 (some (L2Set.soleEntry m k c line))).setL1 k c (some (m', line))).view)
    (hrecords : Records s.history a (s.rep a).mem α s₁.history) : LineMove s a α s₂ := by
  obtain ⟨hl1, hl2, hmem, hstreams⟩ := h₁
  have hnone : ∀ k' c', (s.rep a).l1 k' c' = none := by
    intro k' c'
    by_contra hne
    obtain ⟨e, he⟩ := (hs.lineOk a).inclusion hne
    rw [ha] at he
    cases he
  obtain ⟨hp₁, hrep₁⟩ := hs.placed.setL2 (l2Assignable_of_free hw ha) hset
  have hp₁' : s₁.Placed := hp₁.congr (hl1.trans rfl) hl2
  have hcongr : s₁.rep = (s.setL2 (l2Geometry.index a) l2Set).rep :=
    rep_congr (hl1.trans rfl) hl2 (hmem.trans rfl)
  rw [← hcongr] at hrep₁
  rw [← hl1] at hv
  have hself₁ := congrFun hrep₁ a
  rw [Function.update_self] at hself₁
  obtain ⟨hp₂, hrep₂⟩ := hp₁'.fillL1 hv (by rw [hself₁, LineRep.setL2_l1, hnone]) hst line
  rw [hrep₁, Function.update_idem, Function.update_self, ← h₂.rep] at hrep₂
  refine lineMove_of_rep hin (h₂.placed hp₂) hrep₂ ?_ ?_ ?_ hstep ?_
  · rw [h₂.mem, mem_setL1, hmem]
  · rw [h₂.streams, streams_setL1, hstreams]
  · refine (LineRep.exact_some rfl).mpr ?_
    rw [LineRep.holders_setL1, LineRep.holders_setL1, LineRep.holders_setL2]
    have hholders : ∀ k', (s.rep a).holders k' = fun _ => false := fun k' => by
      funext c'
      simp [LineRep.holders, hnone]
    have hsole : maskOf (Function.update (fun _ => false) c true) = coreBit c := by
      rw [coreBit_eq_maskOf, maskOf_eq_iff]
      intro b
      by_cases hb : b = c <;> simp [hb]
    cases k with
    | data => simp [hholders, hsole, L2Set.soleEntry]
    | instr => simp [hholders, hsole, L2Set.soleEntry]
  · rw [h₂.history, history_setL1]
    exact hrecords

/-! ## Postconditions -/

/-- What a call did to the lines: background moves and at most one move of the
accessed line, which stores `stored` and may forget a dirty line only if
`forgets` allows it. -/
structure Performs (s : Sim) (a : LineNo) (stored : Option Store) (forgets : Prop) (s' : Sim) :
    Prop where
  evolves : ∃ es, Evolves s es s' ∧ ∀ e ∈ es, e.2.Forgets → forgets
  flat : ∀ memory, flatLines memory s'.history =
    match stored with
    | none => flatLines memory s.history
    | some w => Function.update (flatLines memory s.history) a
        (Store.act w (flatLines memory s.history a))
  stores : ∃ es, Evolves s es s' ∧
    ∀ b, System.storesTo b es = if b = a then stored.toList else []

/-- The permission to forget a dirty line is not used up. -/
theorem Performs.mono {stored : Option Store} {forgets forgets' : Prop}
    (h : Performs s a stored forgets s') (himp : forgets → forgets') :
    Performs s a stored forgets' s' := by
  obtain ⟨es, hes, hf⟩ := h.evolves
  exact ⟨⟨es, hes, fun e he hfe => himp (hf e he hfe)⟩, h.flat, h.stores⟩

theorem Background.flat_eq (h : Background s s') (memory : ℕ → Byte) :
    flatLines memory s'.history = flatLines memory s.history := by
  obtain ⟨es, hes, hrun⟩ := h
  exact (hrun.run memory).flat_eq fun e he => (hes e he).stored

theorem Background.performs (h : Background s s') (forgets : Prop) :
    Performs s a none forgets s' := by
  have hflat := h.flat_eq
  obtain ⟨es, hes, hrun⟩ := h
  refine ⟨⟨es, hrun, fun e he hf => absurd hf (hes e he).not_forgets⟩, hflat, es, hrun, fun b => ?_⟩
  rw [System.storesTo_eq_nil fun e he => (hes e he).stored]
  simp

theorem Performs.of_move {α : Action CoreId Store} (h₁ : Background s s₁)
    (hm : LineMove s₁ a α s₂) (h₂ : Background s₂ s₃) : Performs s a α.stored α.Forgets s₃ := by
  have hflat : ∀ memory, flatLines memory s₃.history =
      Function.update (flatLines memory s.history) a
      (Mesi.flat Store.act α (flatLines memory s.history a)) := fun memory => by
    rw [h₂.flat_eq, hm.records.flat, h₁.flat_eq]
  obtain ⟨es, hes, hrun₁⟩ := h₁
  obtain ⟨fs, hfs, hrun₂⟩ := h₂
  have hrun := (hrun₁.trans (hm.evolves hrun₁.inv)).trans hrun₂
  have hcases : ∀ e ∈ es ++ [(a, α)] ++ fs, e.2.Background ∨ e = (a, α) := by
    intro e he
    rcases List.mem_append.mp he with he | he
    · exact (List.mem_append.mp he).imp (hes e) List.mem_singleton.mp
    · exact .inl (hfs e he)
  refine ⟨⟨_, hrun, fun e he hf => ?_⟩, fun memory => ?_, ⟨_, hrun, fun b => ?_⟩⟩
  · rcases hcases e he with hbg | rfl
    · exact absurd hf hbg.not_forgets
    · exact hf
  · rw [hflat]
    unfold Mesi.flat
    cases α.stored with
    | none => exact Function.update_eq_self _ _
    | some w => rfl
  · rw [System.storesTo_append, System.storesTo_append,
      System.storesTo_eq_nil fun e he => (hes e he).stored,
      System.storesTo_eq_nil fun e he => (hfs e he).stored, List.nil_append, List.append_nil,
      System.storesTo_singleton]

/-- The postcondition of a call that reads `size` bytes at a physical address. A
read beyond the end of its line, which only a miss survives, finds the bytes of
memory. -/
structure Reads (s : Sim) (physicalAddress : Addr) (size : ℕ) (forgets : Prop)
    (r : Sim × Option (List Byte)) : Prop where
  performs : Performs s (lineNo physicalAddress) none forgets r.1
  result : l1ToOffset physicalAddress + size ≤ 64 →
    ∃ v, (r.1.rep (lineNo physicalAddress)).view.Value v ∧
      r.2 = some (v.slice (l1ToOffset physicalAddress) size)
  crossing : ¬l1ToOffset physicalAddress + size ≤ 64 →
    r.2 = some ((List.range size).map fun j => r.1.mem.data (physicalAddress.toNat + j))

structure Writes (s : Sim) (physicalAddress : Addr) (data : List Byte)
    (r : Sim × Option (List Byte)) : Prop where
  performs : Performs s (lineNo physicalAddress) (some (l1ToOffset physicalAddress, data)) False r.1
  fits : l1ToOffset physicalAddress + data.length ≤ 64
  result : r.2 = some []

/-- The faults of an access: one that stays in its line, in a line of a memory
below 2^63, can only be stopped by the check of `cpu_fetch`. -/
def AccessFault (s : Sim) (physicalAddress : Addr) (size : ℕ) (f : Fault) : Prop :=
  l1ToOffset physicalAddress + size ≤ 64 →
    64 * (lineNo physicalAddress : ℕ) + 64 ≤ s.mem.size.toNat → s.mem.size.toNat < 2 ^ 63 →
      f = .fetchModified

theorem HugeMemory.accessFault {f : Fault} (h : s'.HugeMemory f)
    (hsize : s'.mem.size = s.mem.size) (physicalAddress : Addr) (size : ℕ) :
    s.AccessFault physicalAddress size f := by
  intro _ _ hlt
  unfold HugeMemory at h
  rw [hsize] at h
  omega

theorem accessFault_of_crossing {physicalAddress : Addr} {size : ℕ} {f : Fault}
    (h : ¬l1ToOffset physicalAddress + size ≤ 64) : s.AccessFault physicalAddress size f :=
  fun hle => absurd hle h

end Sim

end CacheSimulator
