import Mathlib.Data.BitVec

/-!
# Little-endian words

A word as the list of its bytes, the lowest byte first.
-/

namespace LittleEndian

variable {w : ℕ}

def encode : ℕ → BitVec w → List (BitVec 8)
  | 0, _ => []
  | n + 1, x => x.setWidth 8 :: encode n (x >>> 8)

def decode (w : ℕ) : List (BitVec 8) → BitVec w
  | [] => 0
  | byte :: bytes => (decode w bytes <<< 8) ||| byte.setWidth w

@[simp] theorem encode_length (n : ℕ) (x : BitVec w) : (encode n x).length = n := by
  induction n generalizing x with
  | zero => rfl
  | succ n ih => simp [encode, ih]

theorem shift_or_byte (x : BitVec w) : ((x >>> 8) <<< 8) ||| (x.setWidth 8).setWidth w = x := by
  apply BitVec.eq_of_getLsbD_eq
  intro i hi
  simp only [BitVec.getLsbD_or, BitVec.getLsbD_shiftLeft, BitVec.getLsbD_ushiftRight,
    BitVec.getLsbD_setWidth, hi, decide_true, Bool.true_and]
  by_cases h : i < 8
  · simp [h]
  · simp [h, Nat.add_sub_cancel' (Nat.le_of_not_lt h)]

/-- A word that fits in `n` bytes is restored from them. -/
theorem decode_encode (n : ℕ) (x : BitVec w) (hx : x.toNat < 2 ^ (8 * n)) :
    decode w (encode n x) = x := by
  induction n generalizing x with
  | zero =>
      have hzero : x = 0 := BitVec.eq_of_toNat_eq (by simpa using hx)
      rw [hzero]
      rfl
  | succ n ih =>
      have hrest : (x >>> 8).toNat < 2 ^ (8 * n) := by
        rw [BitVec.toNat_ushiftRight, Nat.shiftRight_eq_div_pow,
          Nat.div_lt_iff_lt_mul (by decide), ← Nat.pow_add]
        rwa [Nat.mul_succ] at hx
      rw [encode, decode, ih (x >>> 8) hrest, shift_or_byte]

/-- The form for words of a whole number of bytes. -/
theorem decode_encode_self {n : ℕ} (x : BitVec (8 * n)) : decode (8 * n) (encode n x) = x :=
  decode_encode n x x.isLt

theorem encode_eq_map (n : ℕ) (x : BitVec w) :
    encode n x = (List.range n).map fun j => (x >>> (8 * j)).setWidth 8 := by
  induction n generalizing x with
  | zero => rfl
  | succ n ih =>
      rw [encode, ih, List.range_succ_eq_map, List.map_cons, List.map_map]
      congr 1
      apply List.map_congr_left
      intro j _
      rw [Function.comp_apply, ← BitVec.shiftRight_add, Nat.mul_succ, Nat.add_comm]

theorem decode_eq_foldr (bytes : List (BitVec 8)) :
    decode w bytes =
      bytes.foldr (fun byte (acc : BitVec w) => (acc <<< 8) ||| byte.setWidth w) 0 := by
  induction bytes with
  | nil => rfl
  | cons byte bytes ih => rw [decode, ih, List.foldr_cons]

end LittleEndian
