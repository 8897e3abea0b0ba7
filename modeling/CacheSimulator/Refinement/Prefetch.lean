import CacheSimulator.Refinement.EvictL2

/-!
# Prefetching

The evictors and the prefetchers make background moves only. A prefetch can
fault only when memory reaches into the upper half of the address space, where
the bounds check of `pf_fill_l2` overflows.
-/

namespace CacheSimulator

open Mesi

namespace Sim

variable {s s' s'' : Sim} {a b : LineNo}

/-- The simulator makes background moves. -/
def Background (s s' : Sim) : Prop := ∃ es, (∀ e ∈ es, e.2.Background) ∧ Evolves s es s'

theorem Background.inv (h : Background s s') : s'.Inv := by
  obtain ⟨es, -, hes⟩ := h
  exact hes.inv

theorem Background.size (h : Background s s') : s'.mem.size = s.mem.size := by
  obtain ⟨es, -, hes⟩ := h
  exact hes.size

theorem Background.of_sameCaches (h : s.Inv) (hs : SameCaches s s') : Background s s' :=
  ⟨[], by simp, .of_sameCaches h hs⟩

theorem Background.refl (h : s.Inv) : Background s s := .of_sameCaches h (.refl s)

theorem Background.trans (h : Background s s') (h' : Background s' s'') : Background s s'' := by
  obtain ⟨es, hes, hrun⟩ := h
  obtain ⟨fs, hfs, hrun'⟩ := h'
  refine ⟨es ++ fs, fun e he => ?_, hrun.trans hrun'⟩
  rcases List.mem_append.mp he with he | he
  · exact hes e he
  · exact hfs e he

theorem LineMove.background {α : Action CoreId Store} (h : LineMove s b α s') (hs : s.Inv)
    (hα : α.Background) : Background s s' :=
  ⟨[(b, α)], by simpa using hα, h.evolves hs⟩

theorem FreesL1.background {k : L1Kind} {c : CoreId} (h : FreesL1 s k c s') (hs : s.Inv) :
    Background s s' := by
  rcases h.cases with hsame | ⟨b, -, hm⟩
  · exact .of_sameCaches hs hsame
  · refine hm.background hs ?_
    cases k
    · exact trivial
    · exact trivial

theorem FreesL1.streams {k : L1Kind} {c : CoreId} (h : FreesL1 s k c s') :
    s'.streams = s.streams := by
  rcases h.cases with hsame | ⟨b, -, hm⟩
  · exact hsame.streams
  · exact hm.streams

theorem FreesL2.background (h : FreesL2 s s') (hs : s.Inv) : Background s s' := by
  rcases h.cases with hsame | ⟨b, -, hm⟩
  · exact .of_sameCaches hs hsame
  · exact hm.background hs trivial

theorem FreesL2.streams (h : FreesL2 s s') : s'.streams = s.streams := by
  rcases h.cases with hsame | ⟨b, -, hm⟩
  · exact hsame.streams
  · exact hm.streams

/-! ## One prefetch -/

theorem lineMove_prefetch (hs : s.Inv) (hin : 64 * (a : ℕ) + 64 ≤ s.mem.size.toNat) {w : Fin 16}
    (hw : (s.l2 (l2Geometry.index a)).state w = .invalid) (ha : (s.rep a).l2 = none)
    {l2Set : L2Set}
    (hset : (s.l2 (l2Geometry.index a)).Becomes l2Set w (l2Geometry.tag a)
      (some ⟨.exclusive, 0, 0, (s.rep a).mem⟩)) :
    LineMove s a .prefetch
      ((s.setL2 (l2Geometry.index a) l2Set).record (.fill (lineAddr a) (s.rep a).mem)) := by
  obtain ⟨hp, hrep⟩ := hs.placed.setL2 (l2Assignable_of_free hw ha) hset
  set s1 := s.setL2 (l2Geometry.index a) l2Set
  have hrep' : (s1.record (.fill (lineAddr a) (s.rep a).mem)).rep = s1.rep := rep_congr rfl rfl rfl
  have hself : (s1.record (.fill (lineAddr a) (s.rep a).mem)).rep a =
      (s.rep a).setL2 (some ⟨.exclusive, 0, 0, (s.rep a).mem⟩) := by
    rw [hrep', hrep, Function.update_self]
  have hview : (s.rep a).view.l2 = none := by rw [LineRep.view_l2, ha, Option.map_none]
  have hnone := (hs.coherent a).no_copies hview
  constructor
  · exact hp.congr rfl rfl
  · rfl
  · rfl
  · intro b hb
    rw [hrep', hrep, Function.update_of_ne hb]
  · rw [hself, LineRep.exact_setL2]
    -- the line has no copy, so its masks are empty
    have hholders : ∀ k c, (s.rep a).holders k c = false := by
      intro k c
      by_contra hc
      rw [Bool.not_eq_false] at hc
      have hholds : (s.rep a).view.Holds c := by
        rw [LineRep.view_holds]
        cases k
        · exact .inl hc
        · exact .inr hc
      rcases hholds with h | h
      · exact h (hnone c).1
      · exact h (hnone c).2
    exact ⟨((maskOf_eq_zero _).mpr (hholders .data)).symm,
      ((maskOf_eq_zero _).mpr (hholders .instr)).symm⟩
  · exact fun _ => hin
  · rw [hself]
    exact .prefetch hview
  · exact .load _ trivial rfl

theorem inMemory_of_not_gt {size : Addr} (h : ¬lineAddr a + 64#64 > size)
    (hlast : 64 * (a : ℕ) + 64 < 2 ^ 64) : 64 * (a : ℕ) + 64 ≤ size.toNat := by
  rw [gt_iff_lt, BitVec.lt_def, BitVec.toNat_add, lineAddr_toNat] at h
  simp only [BitVec.toNat_ofNat] at h
  omega

theorem same_page {x y : Addr} (h : x &&& ~~~0xFFF#64 = y &&& ~~~0xFFF#64) :
    x.toNat / 4096 = y.toNat / 4096 := by
  have hpage : ∀ z : Addr, (z &&& ~~~0xFFF#64).toNat = z.toNat / 4096 * 4096 := by
    intro z
    have hz := z.isLt
    have heq : z &&& ~~~0xFFF#64 = (z >>> 12) <<< 12 := and_not_low 12 z
    rw [heq, BitVec.toNat_shiftLeft, BitVec.toNat_ushiftRight, Nat.shiftRight_eq_div_pow,
      Nat.shiftLeft_eq]
    omega
  have := congrArg BitVec.toNat h
  rw [hpage, hpage] at this
  omega

def HugeMemory (s : Sim) (_ : Fault) : Prop := 2 ^ 63 ≤ s.mem.size.toNat

/-- `line + LINE_SIZE` overflows: the bounds checks let the line through. -/
def Wraps (line : Addr) : Prop := 2 ^ 64 ≤ line.toNat + 64

/-- Neither the page boundary nor the bounds check of `pf_fill_l2` blocks the
prefetch. -/
def PrefetchPasses (size fromLine nextLine : Addr) : Prop :=
  nextLine &&& ~~~0xFFF#64 = fromLine &&& ~~~0xFFF#64 ∧
    ¬(nextLine < 64#64 ∨ nextLine + 64#64 > size)

/-- A prefetch makes background moves. It reports a line present when nothing
blocks it, and what it reports present is in memory. -/
theorem pfFillL2_spec (hs : s.Inv) {fromLine : Addr} (hfrom : s.InMemory fromLine) :
    (pfFillL2 s fromLine (lineAddr a)).Sat
      (fun r => Background s r.1 ∧ r.1.streams = s.streams ∧
        (r.2 = true → s.InMemory (lineAddr a)) ∧
        (PrefetchPasses s.mem.size fromLine (lineAddr a) → r.2 = true))
      fun f => f = .lineOutOfMemory ∧ s.HugeMemory f := by
  unfold pfFillL2
  split
  · rename_i hpage
    exact ⟨.refl hs, rfl, Bool.noConfusion, fun h => absurd h.1 hpage⟩
  rename_i hpage
  split
  · rename_i hbounds
    exact ⟨.refl hs, rfl, Bool.noConfusion, fun h => absurd hbounds h.2⟩
  rename_i hbounds
  rw [not_or] at hbounds
  dsimp only
  rw [l2ToIndex_lineAddr, l2ToTag_lineAddr]
  cases hfind : l2FindWay (s.l2 (l2Geometry.index a)) (l2Geometry.tag a) with
  | some w =>
      obtain ⟨e, he⟩ := l2FindWay_eq_some hfind
      have hl2 := hs.placed.l2_of_slots he
      exact ⟨.refl hs, rfl, fun _ => ⟨a, rfl, hs.inRange a (by simp [hl2])⟩, fun _ => rfl⟩
  | none =>
      have ha := l2_eq_none_of_find hfind
      refine ((evictL2_spec hs).mono (fun r hr => hr) fun _ hf => hf.elim).bind fun r hr => ?_
      obtain ⟨s1, w⟩ := r
      obtain ⟨hw, hfree⟩ := hr
      have hbg := hfree.background hs
      have ha1 : (s1.rep a).l2 = none := by rw [hfree.rep_eq ha, ha]
      dsimp only at hw ⊢
      by_cases hin : 64 * (a : ℕ) + 64 ≤ s1.mem.size.toNat
      · rw [readLine_lineAddr hin]
        obtain ⟨l2Set, hl2Set, hset⟩ := L2Set.fillPrefetch_spec (hbg.inv.placed.free _) hw
          (l2Geometry.tag a) (s1.rep a).mem (MESIState.mode?_eq_exclusive.mpr rfl)
        change Except.Sat (l2CacheFillPrefetch _ _ _ _ _ >>= _) _ _
        rw [hl2Set]
        have hmove := lineMove_prefetch hbg.inv hin hw ha1 hset
        have hmain := hbg.trans (hmove.background hbg.inv trivial)
        have hemit := fun x : Sim => SameCaches.emit x .prefetchL2 0 2 (l2Geometry.index a) w
          (lineAddr a) .invalid .exclusive (some (s1.rep a).mem)
        refine ⟨hmain.trans (.of_sameCaches hmain.inv (hemit _)), ?_, fun _ => ?_, fun _ => rfl⟩
        · exact (hemit _).streams.trans (hmove.streams.trans hfree.streams)
        · exact ⟨a, rfl, by rwa [hbg.size] at hin⟩
      · -- the check passed by overflow, so memory reaches the last page
        rw [readLine_error hin]
        refine ⟨rfl, ?_⟩
        obtain ⟨f, hf, hfin⟩ := hfrom
        have hsame := same_page (not_not.mp hpage)
        rw [hf, lineAddr_toNat, lineAddr_toNat] at hsame
        have hlast : ¬64 * (a : ℕ) + 64 < 2 ^ 64 := fun hlt => by
          rw [hbg.size] at hin
          exact hin (inMemory_of_not_gt hbounds.2 hlt)
        change 2 ^ 63 ≤ s.mem.size.toNat
        omega

theorem InMemory.not_wraps {line : Addr} (h : s.InMemory line) : ¬Wraps line := by
  obtain ⟨b, rfl, hin⟩ := h
  have hlt := s.mem.size.isLt
  rw [Wraps, lineAddr_toNat]
  omega

/-- A prefetch that overflows its bounds check reads outside memory. -/
theorem pfFillL2_wraps (hs : s.Inv) {fromLine : Addr} (hfrom : s.InMemory fromLine)
    (hpasses : PrefetchPasses s.mem.size fromLine (lineAddr a)) (hwraps : Wraps (lineAddr a)) :
    (pfFillL2 s fromLine (lineAddr a)).Sat (fun _ => False) (· = .lineOutOfMemory) :=
  (pfFillL2_spec hs hfrom).mono
    (fun _ hr => (hr.2.2.1 (hr.2.2.2 hpasses)).not_wraps hwraps) fun _ hf => hf.1

theorem lineAddr_add_line (d : BitVec 64) : ∃ b : LineNo, lineAddr a + d * 64#64 = lineAddr b := by
  refine ⟨lineNo (lineAddr a + d * 64#64), ?_⟩
  rw [lineAddr_lineNo]
  apply BitVec.eq_of_toNat_eq
  rw [toLineBase_toNat, BitVec.toNat_add, lineAddr_toNat, BitVec.toNat_mul]
  simp only [BitVec.toNat_ofNat]
  omega

theorem pfNextlineOnMiss_spec (hs : s.Inv) (hin : 64 * (a : ℕ) + 64 ≤ s.mem.size.toNat) :
    (pfNextlineOnMiss s (lineAddr a)).Sat (fun s' => Background s s') s.HugeMemory := by
  obtain ⟨b, hb⟩ := lineAddr_add_line (a := a) 1
  unfold pfNextlineOnMiss
  rw [show lineAddr a + 64#64 = lineAddr a + 1 * 64#64 by rfl, hb]
  exact ((pfFillL2_spec hs ⟨a, rfl, hin⟩).mono (fun _ hr => hr) fun _ hf => hf.2).bind
    fun r hr => hr.1

/-! ## Streams -/

theorem HugeMemory.of_size {f : Fault} (h : s'.HugeMemory f) (hsize : s'.mem.size = s.mem.size) :
    s.HugeMemory f := by
  unfold HugeMemory at h ⊢
  rwa [hsize] at h

theorem pfBurst_spec {missLine stride : Addr} {fuel : ℕ} {stream : Stream} (hs : s.Inv)
    (hhead : s.InMemory stream.prefetchHead) :
    (pfBurst missLine stride fuel stream s).Sat
      (fun r => Background s r.2 ∧ r.2.streams = s.streams ∧ s.InMemory r.1.prefetchHead)
      s.HugeMemory := by
  induction fuel generalizing stream s with
  | zero => exact ⟨.refl hs, rfl, hhead⟩
  | succ fuel ih =>
      obtain ⟨a, ha, hin⟩ := hhead
      obtain ⟨b, hb⟩ := lineAddr_add_line (a := a) stride
      unfold pfBurst
      dsimp only
      split
      · exact ⟨.refl hs, rfl, a, ha, hin⟩
      · rw [ha, hb]
        refine ((pfFillL2_spec hs ⟨a, rfl, hin⟩).mono (fun _ hr => hr) fun _ hf => hf.2).bind
          fun r hr => ?_
        obtain ⟨s1, filled⟩ := r
        obtain ⟨hbg, hstreams, hfilled, -⟩ := hr
        cases filled with
        | false => exact ⟨hbg, hstreams, a, rfl, hin⟩
        | true =>
            have hnext : s1.InMemory (lineAddr b) := (hfilled rfl).of_size hbg.size
            refine (ih hbg.inv hnext).mono (fun r hr => ?_) fun f hf => hf.of_size hbg.size
            obtain ⟨hbg', hstreams', hhead'⟩ := hr
            exact ⟨hbg.trans hbg', hstreams'.trans hstreams, hhead'.of_size hbg.size.symm⟩

theorem Background.setStream {c : CoreId} {i : Fin 8} {stream : Stream} (hs : s.Inv)
    (hhead : s.InMemory stream.prefetchHead) : Background s (s.setStream c i stream) := by
  have hl1 : (s.setStream c i stream).l1 = s.l1 :=
    l1_modifyCore s c (fun _ => rfl) fun _ => rfl
  refine ⟨[], by simp, .of_rep hs (hs.placed.congr hl1 rfl) (rep_congr hl1 rfl rfl) rfl rfl ?_⟩
  intro c' i' hconf
  have hstream : (s.setStream c i stream).streams c' i' =
      if c' = c ∧ i' = i then stream else s.streams c' i' := by
    by_cases hc : c' = c
    · subst hc
      simp [Sim.setStream, modifyCore, streams, Function.update_apply]
    · simp [Sim.setStream, modifyCore, streams, hc]
  rw [hstream] at hconf ⊢
  split
  · exact hhead
  · rename_i hne
    rw [if_neg hne] at hconf
    exact hs.streams c' i' hconf

/-- A stream that matches a miss keeps its head, or restarts it at the miss. -/
theorem onMiss_head {stream stream' : Stream} {missLine : Addr}
    (h : stream.onMiss missLine = some stream') :
    stream'.prefetchHead = missLine ∨
      stream.confidence ≠ .invalid ∧ stream'.prefetchHead = stream.prefetchHead := by
  unfold Stream.onMiss at h
  cases hc : stream.confidence with
  | invalid =>
      rw [hc] at h
      cases h
  | training =>
      rw [hc] at h
      dsimp only at h
      split at h
      · cases h
        exact .inl rfl
      · split at h
        · cases h
          exact .inl rfl
        · cases h
  | steady =>
      rw [hc] at h
      dsimp only at h
      split at h
      · cases h
      · cases h
        exact .inr ⟨by simp, rfl⟩

theorem pfStreamOnMiss_spec {c : CoreId} (hs : s.Inv)
    (hin : 64 * (a : ℕ) + 64 ≤ s.mem.size.toNat) :
    (pfStreamOnMiss s c (lineAddr a)).Sat (fun s' => Background s s') s.HugeMemory := by
  have hmiss : s.InMemory (lineAddr a) := ⟨a, rfl, hin⟩
  unfold pfStreamOnMiss
  dsimp only
  cases hfind : (List.finRange 8).findSome? fun i =>
      (((s.cpu.cores c).prefetcher.streams i).onMiss (lineAddr a)).map fun stream =>
        (i, stream) with
  | none => exact .setStream hs hmiss
  | some p =>
      obtain ⟨i, -, hi⟩ := List.exists_of_findSome?_eq_some hfind
      obtain ⟨stream, hstream, rfl⟩ := Option.map_eq_some_iff.mp hi
      have hhead : s.InMemory ({ stream with lastLine := lineAddr a } : Stream).prefetchHead := by
        rcases onMiss_head hstream with h | ⟨hconf, h⟩
        · exact h ▸ hmiss
        · exact h ▸ hs.streams c i hconf
      dsimp only
      refine (pfBurst_spec hs hhead).bind fun r hr => ?_
      obtain ⟨hbg, -, hhead'⟩ := hr
      exact hbg.trans (.setStream hbg.inv (hhead'.of_size hbg.size))

end Sim

end CacheSimulator
