import CacheSimulator.Refinement.Prefetch
import Mathlib.Tactic.Ring

/-!
# Streams as arithmetic of lines

The addresses of a stream in use are the addresses of two lines. On line numbers
a match is a bound on a difference, and the lines that a burst passes are
consecutive lines of one page.
-/

namespace CacheSimulator

/-- The stride of a direction, in lines. -/
def StreamDirection.stride : StreamDirection → ℤ
  | unknown => 0
  | forward => 1
  | backward => -1

/-! ## Addresses of lines -/

section Addresses

variable {a b h last head : LineNo} {size : Addr} {d : StreamDirection}

theorem lineAddr_inj : lineAddr a = lineAddr b ↔ a = b :=
  ⟨fun hab => by rw [← lineNo_lineAddr a, hab, lineNo_lineAddr], fun hab => by rw [hab]⟩

/-- The signed gap of the source, between lines less than half the address space
apart or not. -/
theorem toInt_gap (h a : LineNo) (d : StreamDirection) :
    ((lineAddr h - lineAddr a) * d.toInt64).toInt =
      (64 * ((h : ℤ) - a) * d.stride).bmod (2 ^ 64) := by
  have hline : ∀ x : LineNo, (lineAddr x).toInt = (64 * (x : ℤ)).bmod (2 ^ 64) := fun x => by
    rw [BitVec.toInt_eq_toNat_bmod, lineAddr_toNat]
    push_cast
    rfl
  have hd : d.toInt64.toInt = d.stride := by cases d <;> rfl
  rw [BitVec.toInt_mul, BitVec.toInt_sub, hline, hline, hd]
  simp only [Int.bmod_mul_bmod, Int.sub_bmod_bmod, Int.bmod_sub_bmod]
  congr 2
  rw [Int.mul_sub]

/-- A small gap does not overflow. -/
theorem toInt_gap_of_small (hlow : (a : ℤ) - 10 ≤ h) (hhigh : (h : ℤ) ≤ a + 10) :
    ((lineAddr h - lineAddr a) * d.toInt64).toInt = 64 * (((h : ℤ) - a) * d.stride) := by
  rw [toInt_gap, Int.bmod_eq_of_le]
  · rw [Int.mul_assoc]
  · cases d <;> simp only [StreamDirection.stride] <;> omega
  · cases d <;> simp only [StreamDirection.stride] <;> omega

theorem page_eq_iff {x y : Addr} :
    x &&& ~~~0xFFF#64 = y &&& ~~~0xFFF#64 ↔ x.toNat / 4096 = y.toNat / 4096 := by
  refine ⟨Sim.same_page, fun hxy => ?_⟩
  have hpage : ∀ z : Addr, (z &&& ~~~0xFFF#64).toNat = z.toNat / 4096 * 4096 := by
    intro z
    have hz := z.isLt
    have heq : z &&& ~~~0xFFF#64 = (z >>> 12) <<< 12 := and_not_low 12 z
    rw [heq, BitVec.toNat_shiftLeft, BitVec.toNat_ushiftRight, Nat.shiftRight_eq_div_pow,
      Nat.shiftLeft_eq]
    omega
  apply BitVec.eq_of_toNat_eq
  rw [hpage, hpage, hxy]

/-- Two lines of one 4 KB page. -/
def OnePage (a b : LineNo) : Prop := (a : ℕ) / 64 = b / 64

theorem onePage_iff :
    lineAddr a &&& ~~~0xFFF#64 = lineAddr b &&& ~~~0xFFF#64 ↔ OnePage a b := by
  rw [page_eq_iff, lineAddr_toNat, lineAddr_toNat, OnePage]
  omega

/-- The line that a burst tries next; it can wrap around, but not in its page. -/
theorem exists_next (h : LineNo) (hd : d.stride = 1 ∨ d.stride = -1) :
    ∃ b : LineNo, lineAddr h + d.toInt64 * 64#64 = lineAddr b ∧
      (OnePage b h → (b : ℤ) = h + d.stride) ∧
      ∀ b' : LineNo, (b' : ℤ) = h + d.stride → b' = b := by
  obtain ⟨b, hb⟩ := Sim.lineAddr_add_line (a := h) d.toInt64
  refine ⟨b, hb, ?_⟩
  have hval := congrArg BitVec.toNat hb
  have hlt := h.isLt
  have hblt := b.isLt
  rw [BitVec.toNat_add, lineAddr_toNat, lineAddr_toNat] at hval
  simp only [OnePage, Fin.ext_iff]
  cases d with
  | unknown => simp [StreamDirection.stride] at hd
  | forward =>
      have hstep : (StreamDirection.forward.toInt64 * 64#64).toNat = 64 := rfl
      rw [hstep] at hval
      refine ⟨fun hpage => ?_, fun b' hb' => ?_⟩ <;> simp only [StreamDirection.stride] at * <;>
        omega
  | backward =>
      have hstep : (StreamDirection.backward.toInt64 * 64#64).toNat = 2 ^ 64 - 64 := rfl
      rw [hstep] at hval
      refine ⟨fun hpage => ?_, fun b' hb' => ?_⟩ <;> simp only [StreamDirection.stride] at * <;>
        omega

/-- What the two checks of `pf_fill_l2` say of lines. -/
theorem prefetchPasses_iff :
    Sim.PrefetchPasses size (lineAddr h) (lineAddr b) ↔
      OnePage b h ∧ 1 ≤ (b : ℕ) ∧ ¬lineAddr b + 64#64 > size := by
  rw [Sim.PrefetchPasses, onePage_iff, not_or, BitVec.lt_def, lineAddr_toNat]
  simp only [BitVec.toNat_ofNat]
  constructor
  · rintro ⟨hpage, hlow, hhigh⟩
    exact ⟨hpage, by omega, hhigh⟩
  · rintro ⟨hpage, hlow, hhigh⟩
    exact ⟨hpage, by omega, hhigh⟩

end Addresses

/-! ## Matches -/

namespace Stream

variable {stream : Stream} {a last head : LineNo}

/-- A TRAINING stream matches the two neighbours of its last line. -/
theorem onMiss_training (hconf : stream.confidence = .training)
    (hlast : stream.lastLine = lineAddr last) (hlt : (last : ℕ) + 1 < 2 ^ 58)
    (ha : (a : ℕ) + 1 < 2 ^ 58) :
    stream.onMiss (lineAddr a) =
      if (a : ℕ) = last + 1 then
        some { stream with
          direction := .forward, confidence := .steady, prefetchHead := lineAddr a }
      else if (last : ℕ) = a + 1 then
        some { stream with
          direction := .backward, confidence := .steady, prefetchHead := lineAddr a }
      else none := by
  have hforward : lineAddr a = lineAddr last + 64#64 ↔ (a : ℕ) = last + 1 := by
    rw [← BitVec.toNat_inj, BitVec.toNat_add, lineAddr_toNat, lineAddr_toNat]
    simp only [BitVec.toNat_ofNat]
    omega
  have hbackward : lineAddr a = lineAddr last - 64#64 ↔ (last : ℕ) = a + 1 := by
    rw [← BitVec.toNat_inj, BitVec.toNat_sub, lineAddr_toNat, lineAddr_toNat]
    simp only [BitVec.toNat_ofNat]
    omega
  unfold onMiss
  rw [hconf, hlast]
  simp only [hforward, hbackward]

/-- A STEADY stream matches the nine lines after its last line. -/
theorem onMiss_steady (hconf : stream.confidence = .steady)
    (hlast : stream.lastLine = lineAddr last) (hhead : stream.prefetchHead = lineAddr head)
    (hstride : stream.direction.stride = 1 ∨ stream.direction.stride = -1)
    (hwindow : (head : ℤ) = last + 8 * stream.direction.stride) (hlt : (last : ℕ) + 1 < 2 ^ 58)
    (hlt' : (head : ℕ) + 1 < 2 ^ 58) (ha : (a : ℕ) + 1 < 2 ^ 58) :
    stream.onMiss (lineAddr a) =
      if 1 ≤ ((a : ℤ) - last) * stream.direction.stride ∧
          ((a : ℤ) - last) * stream.direction.stride ≤ 9 then some stream
      else none := by
  unfold onMiss
  rw [hconf, hlast, hhead]
  dsimp only
  rw [toInt_gap, toInt_gap]
  generalize stream.direction.stride = σ at hstride hwindow ⊢
  have hnear : (64 * ((a : ℤ) - last) * σ).bmod (2 ^ 64) < 64 ∨
      (64 * ((a : ℤ) - head) * σ).bmod (2 ^ 64) > 64 ↔
        ¬(1 ≤ ((a : ℤ) - last) * σ ∧ ((a : ℤ) - last) * σ ≤ 9) := by
    simp only [Int.bmod]
    rcases hstride with rfl | rfl <;> split <;> split <;> omega
  by_cases h : 1 ≤ ((a : ℤ) - last) * σ ∧ ((a : ℤ) - last) * σ ≤ 9
  · rw [if_neg (hnear.not.mpr (not_not.mpr h)), if_pos h]
  · rw [if_pos (hnear.mpr h), if_neg h]

end Stream

/-! ## Bursts -/

instance (size fromLine nextLine : Addr) : Decidable (Sim.PrefetchPasses size fromLine nextLine) :=
  inferInstanceAs (Decidable (_ ∧ _))

/-- The lines that a burst reaches, whether L2 has them or not. -/
def burstLines (size missLine stride : Addr) : ℕ → Addr → List Addr
  | 0, _ => []
  | fuel + 1, head =>
      if ((head - missLine) * stride).toInt ≥ 8 * 64 then []
      else if Sim.PrefetchPasses size head (head + stride * 64#64) then
        (head + stride * 64#64) :: burstLines size missLine stride fuel (head + stride * 64#64)
      else []

/-- The lines passed on the way from one line to another, one stride at a time,
without leaving the page. -/
inductive Strides (σ : ℤ) : LineNo → List LineNo → LineNo → Prop
  | nil (h : LineNo) : Strides σ h [] h
  | cons {h b h' : LineNo} {lines : List LineNo} : (b : ℤ) = h + σ → OnePage b h →
      Strides σ b lines h' → Strides σ h (b :: lines) h'

namespace Strides

variable {σ : ℤ} {h h' b : LineNo} {lines : List LineNo}

theorem onePage (hs : Strides σ h lines h') : OnePage h' h := by
  induction hs with
  | nil => rfl
  | cons _ hpage _ ih => exact ih.trans hpage

theorem last_eq (hs : Strides σ h lines h') : (h' : ℤ) = h + σ * lines.length := by
  induction hs with
  | nil => simp
  | cons hb _ _ ih =>
      rw [ih, hb, List.length_cons]
      push_cast
      ring

theorem mem_iff (hs : Strides σ h lines h') :
    b ∈ lines ↔ ∃ i : ℕ, 1 ≤ i ∧ i ≤ lines.length ∧ (b : ℤ) = h + σ * i := by
  induction hs with
  | nil =>
      simp only [List.not_mem_nil, List.length_nil, false_iff]
      rintro ⟨i, h₁, h₂, -⟩
      omega
  | @cons h b' h' lines hb' hpage hs ih =>
      rw [List.mem_cons, ih]
      constructor
      · rintro (rfl | ⟨i, h₁, h₂, hi⟩)
        · exact ⟨1, le_refl 1, by simp, by rw [hb']; simp⟩
        · exact ⟨i + 1, by omega, by simpa using h₂, by rw [hi, hb']; push_cast; ring⟩
      · rintro ⟨i, h₁, h₂, hi⟩
        rw [List.length_cons] at h₂
        rcases Nat.eq_or_lt_of_le h₁ with rfl | hlt
        · left
          apply Fin.ext
          simp only [Nat.cast_one, mul_one] at hi
          omega
        · right
          refine ⟨i - 1, by omega, by omega, ?_⟩
          rw [hi, hb', Nat.cast_sub h₁]
          push_cast
          ring

theorem last_mem (hs : Strides σ h lines h') : h' = h ∨ h' ∈ lines := by
  induction hs with
  | nil => exact .inl rfl
  | cons _ _ _ ih =>
      rcases ih with rfl | ih
      · exact .inr List.mem_cons_self
      · exact .inr (List.mem_cons_of_mem _ ih)

theorem mem_onePage (hs : Strides σ h lines h') (hb : b ∈ lines) : OnePage b h := by
  induction hs with
  | nil => cases hb
  | cons _ hpage _ ih =>
      rcases List.mem_cons.mp hb with rfl | hb
      · exact hpage
      · exact (ih hb).trans hpage

theorem nodup (hs : Strides σ h lines h') (hσ : σ ≠ 0) : lines.Nodup := by
  induction hs with
  | nil => exact List.nodup_nil
  | @cons h b h' lines hb hpage hs ih =>
      refine List.nodup_cons.mpr ⟨fun hmem => ?_, ih⟩
      obtain ⟨i, hi, -, heq⟩ := hs.mem_iff.mp hmem
      have hzero : σ * i = 0 := by omega
      rcases mul_eq_zero.mp hzero with h | h
      · exact hσ h
      · omega

end Strides

end CacheSimulator
