import CacheSimulator.Types
import CacheSimulator.Library.SetAssociative

/-!
# Line numbers

A line number is an address without its six offset bits. The index and tag
functions of the two cache levels depend on the line number only and determine
it, so the L1 sets and the L2 sets are two geometries of the same keys.
-/

namespace CacheSimulator

abbrev LineNo := Fin (2 ^ 58)

def lineNo (address : Addr) : LineNo :=
  ⟨address.toNat / 64, by have := address.isLt; omega⟩

def lineAddr (line : LineNo) : Addr := BitVec.ofNat 64 (64 * line)

/-! ## The address functions as arithmetic -/

theorem l1ToIndex_val (a : Addr) : (l1ToIndex a : ℕ) = a.toNat / 64 % 64 := by
  simp only [l1ToIndex, BitVec.toNat_and, BitVec.toNat_ushiftRight, Nat.shiftRight_eq_div_pow]
  exact Nat.and_two_pow_sub_one_eq_mod _ 6

theorem l2ToIndex_val (a : Addr) : (l2ToIndex a : ℕ) = a.toNat / 64 % 4096 := by
  simp only [l2ToIndex, BitVec.toNat_and, BitVec.toNat_ushiftRight, Nat.shiftRight_eq_div_pow]
  exact Nat.and_two_pow_sub_one_eq_mod _ 12

theorem l1ToTag_toNat (a : Addr) : (l1ToTag a).toNat = a.toNat / 4096 := by
  simp [l1ToTag, BitVec.toNat_ushiftRight, Nat.shiftRight_eq_div_pow]

theorem l2ToTag_toNat (a : Addr) : (l2ToTag a).toNat = a.toNat / 262144 := by
  simp [l2ToTag, BitVec.toNat_ushiftRight, Nat.shiftRight_eq_div_pow]

theorem l1ToOffset_eq (a : Addr) : l1ToOffset a = a.toNat % 64 := by
  simp only [l1ToOffset, BitVec.toNat_and]
  exact Nat.and_two_pow_sub_one_eq_mod _ 6

theorem l1ToOffset_lt (a : Addr) : l1ToOffset a < 64 := by
  rw [l1ToOffset_eq]
  exact Nat.mod_lt _ (by decide)

theorem and_not_low (k : ℕ) (a : Addr) :
    a &&& ~~~BitVec.ofNat 64 (2 ^ k - 1) = (a >>> k) <<< k := by
  apply BitVec.eq_of_getLsbD_eq
  intro i hi
  simp only [BitVec.getLsbD_and, BitVec.getLsbD_not, hi, decide_true, Bool.true_and,
    BitVec.getLsbD_ofNat, Nat.testBit_two_pow_sub_one, BitVec.getLsbD_shiftLeft,
    BitVec.getLsbD_ushiftRight]
  by_cases hik : i < k
  · simp [hik]
  · simp [hik, Nat.add_sub_cancel' (Nat.le_of_not_lt hik)]

theorem toLineBase_toNat (a : Addr) : (toLineBase a).toNat = a.toNat / 64 * 64 := by
  have h : toLineBase a = (a >>> 6) <<< 6 := and_not_low 6 a
  have hlt := a.isLt
  rw [h, BitVec.toNat_shiftLeft, BitVec.toNat_ushiftRight, Nat.shiftRight_eq_div_pow,
    Nat.shiftLeft_eq]
  omega

theorem l1ToAddr_toNat {tag : Addr} (htag : tag.toNat < 2 ^ 52) (index : Fin 64) :
    (l1ToAddr tag index).toNat = tag.toNat * 4096 + index * 64 := by
  have hindex := index.isLt
  have hor : tag.toNat * 2 ^ 12 ||| index * 2 ^ 6 = tag.toNat * 2 ^ 12 + index * 2 ^ 6 := by
    rw [Nat.mul_comm tag.toNat]
    exact (Nat.two_pow_add_eq_or_of_lt (by omega) _).symm
  simp only [l1ToAddr, BitVec.toNat_or, BitVec.toNat_shiftLeft, BitVec.toNat_ofNat,
    Nat.shiftLeft_eq]
  rw [Nat.mod_eq_of_lt (a := tag.toNat * 2 ^ 12) (by omega),
    Nat.mod_eq_of_lt (a := (index : ℕ)) (by omega), Nat.mod_eq_of_lt (by omega), hor]
  omega

theorem l2ToAddr_toNat {tag : Addr} (htag : tag.toNat < 2 ^ 46) (index : Fin 4096) :
    (l2ToAddr tag index).toNat = tag.toNat * 262144 + index * 64 := by
  have hindex := index.isLt
  have hor : tag.toNat * 2 ^ 18 ||| index * 2 ^ 6 = tag.toNat * 2 ^ 18 + index * 2 ^ 6 := by
    rw [Nat.mul_comm tag.toNat]
    exact (Nat.two_pow_add_eq_or_of_lt (by omega) _).symm
  simp only [l2ToAddr, BitVec.toNat_or, BitVec.toNat_shiftLeft, BitVec.toNat_ofNat,
    Nat.shiftLeft_eq]
  rw [Nat.mod_eq_of_lt (a := tag.toNat * 2 ^ 18) (by omega),
    Nat.mod_eq_of_lt (a := (index : ℕ)) (by omega), Nat.mod_eq_of_lt (by omega), hor]
  omega

theorem lineAddr_toNat (line : LineNo) : (lineAddr line).toNat = 64 * line := by
  have h := line.isLt
  simp only [lineAddr, BitVec.toNat_ofNat]
  exact Nat.mod_eq_of_lt (by omega)

@[simp] theorem lineNo_lineAddr (line : LineNo) : lineNo (lineAddr line) = line := by
  apply Fin.ext
  simp [lineNo, lineAddr_toNat]

theorem lineAddr_lineNo (a : Addr) : lineAddr (lineNo a) = toLineBase a := by
  apply BitVec.eq_of_toNat_eq
  rw [lineAddr_toNat, toLineBase_toNat, lineNo, Nat.mul_comm]

/-- An address is its line base plus its offset. -/
theorem toNat_eq_line_add_offset (a : Addr) : a.toNat = 64 * lineNo a + l1ToOffset a := by
  rw [l1ToOffset_eq, lineNo]
  exact (Nat.div_add_mod _ _).symm

@[simp] theorem lineNo_toLineBase (a : Addr) : lineNo (toLineBase a) = lineNo a := by
  rw [← lineAddr_lineNo, lineNo_lineAddr]

/-! ## The two geometries -/

@[simp] theorem l1ToIndex_lineAddr_lineNo (a : Addr) :
    l1ToIndex (lineAddr (lineNo a)) = l1ToIndex a := by
  apply Fin.ext
  rw [l1ToIndex_val, l1ToIndex_val, lineAddr_lineNo, toLineBase_toNat,
    Nat.mul_div_cancel _ (by decide)]

@[simp] theorem l2ToIndex_lineAddr_lineNo (a : Addr) :
    l2ToIndex (lineAddr (lineNo a)) = l2ToIndex a := by
  apply Fin.ext
  rw [l2ToIndex_val, l2ToIndex_val, lineAddr_lineNo, toLineBase_toNat,
    Nat.mul_div_cancel _ (by decide)]

@[simp] theorem l1ToTag_lineAddr_lineNo (a : Addr) : l1ToTag (lineAddr (lineNo a)) = l1ToTag a := by
  apply BitVec.eq_of_toNat_eq
  rw [l1ToTag_toNat, l1ToTag_toNat, lineAddr_lineNo, toLineBase_toNat]
  omega

@[simp] theorem l2ToTag_lineAddr_lineNo (a : Addr) : l2ToTag (lineAddr (lineNo a)) = l2ToTag a := by
  apply BitVec.eq_of_toNat_eq
  rw [l2ToTag_toNat, l2ToTag_toNat, lineAddr_lineNo, toLineBase_toNat]
  omega

def l1Geometry : SetAssociative.Geometry LineNo (Fin 64) Addr where
  index line := l1ToIndex (lineAddr line)
  tag line := l1ToTag (lineAddr line)
  injective a b hindex htag := by
    have hi := congrArg Fin.val hindex
    have ht := congrArg BitVec.toNat htag
    rw [l1ToIndex_val, l1ToIndex_val, lineAddr_toNat, lineAddr_toNat] at hi
    rw [l1ToTag_toNat, l1ToTag_toNat, lineAddr_toNat, lineAddr_toNat] at ht
    apply Fin.ext
    omega

def l2Geometry : SetAssociative.Geometry LineNo (Fin 4096) Addr where
  index line := l2ToIndex (lineAddr line)
  tag line := l2ToTag (lineAddr line)
  injective a b hindex htag := by
    have hi := congrArg Fin.val hindex
    have ht := congrArg BitVec.toNat htag
    rw [l2ToIndex_val, l2ToIndex_val, lineAddr_toNat, lineAddr_toNat] at hi
    rw [l2ToTag_toNat, l2ToTag_toNat, lineAddr_toNat, lineAddr_toNat] at ht
    apply Fin.ext
    omega

@[simp] theorem l1ToIndex_lineAddr (a : LineNo) : l1ToIndex (lineAddr a) = l1Geometry.index a := rfl

@[simp] theorem l1ToTag_lineAddr (a : LineNo) : l1ToTag (lineAddr a) = l1Geometry.tag a := rfl

@[simp] theorem l2ToIndex_lineAddr (a : LineNo) : l2ToIndex (lineAddr a) = l2Geometry.index a := rfl

@[simp] theorem l2ToTag_lineAddr (a : LineNo) : l2ToTag (lineAddr a) = l2Geometry.tag a := rfl

@[simp] theorem l1Geometry_index_lineNo (a : Addr) : l1Geometry.index (lineNo a) = l1ToIndex a :=
  l1ToIndex_lineAddr_lineNo a

@[simp] theorem l1Geometry_tag_lineNo (a : Addr) : l1Geometry.tag (lineNo a) = l1ToTag a :=
  l1ToTag_lineAddr_lineNo a

@[simp] theorem l2Geometry_index_lineNo (a : Addr) : l2Geometry.index (lineNo a) = l2ToIndex a :=
  l2ToIndex_lineAddr_lineNo a

@[simp] theorem l2Geometry_tag_lineNo (a : Addr) : l2Geometry.tag (lineNo a) = l2ToTag a :=
  l2ToTag_lineAddr_lineNo a

/-- `l1_to_addr` rebuilds the address of the line from its coordinates. -/
@[simp] theorem l1ToAddr_geometry (line : LineNo) :
    l1ToAddr (l1Geometry.tag line) (l1Geometry.index line) = lineAddr line := by
  have hline := line.isLt
  have htag : (l1Geometry.tag line).toNat = 64 * (line : ℕ) / 4096 := by
    rw [← lineAddr_toNat]
    exact l1ToTag_toNat _
  have hindex : (l1Geometry.index line : ℕ) = 64 * (line : ℕ) / 64 % 64 := by
    rw [← lineAddr_toNat]
    exact l1ToIndex_val _
  apply BitVec.eq_of_toNat_eq
  rw [l1ToAddr_toNat (by omega), lineAddr_toNat]
  omega

/-- `l2_to_addr` rebuilds the address of the line from its coordinates. -/
@[simp] theorem l2ToAddr_geometry (line : LineNo) :
    l2ToAddr (l2Geometry.tag line) (l2Geometry.index line) = lineAddr line := by
  have hline := line.isLt
  have htag : (l2Geometry.tag line).toNat = 64 * (line : ℕ) / 262144 := by
    rw [← lineAddr_toNat]
    exact l2ToTag_toNat _
  have hindex : (l2Geometry.index line : ℕ) = 64 * (line : ℕ) / 64 % 4096 := by
    rw [← lineAddr_toNat]
    exact l2ToIndex_val _
  apply BitVec.eq_of_toNat_eq
  rw [l2ToAddr_toNat (by omega), lineAddr_toNat]
  omega

end CacheSimulator
