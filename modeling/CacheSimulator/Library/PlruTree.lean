import Mathlib.Algebra.Group.Nat.Defs
import Mathlib.Data.List.Induction
import Mathlib.Logic.Function.Basic

/-!
# Pseudo-LRU trees

A complete binary tree keeps a bit at each inner node. The leaf the bits lead to is
the victim, and a touch of a leaf makes every bit on its path lead away from it. A
leaf that was touched needs as many other touches as the tree is deep before it is
the victim again.

Nodes are paths from the root, with `true` for the right child; in an array the
children of node `n` are `2 * n + 1` and `2 * n + 2`.
-/

namespace PlruTree

/-- The bits of the inner nodes. -/
abbrev Bits := List Bool → Bool

def Bits.below (bits : Bits) (u : List Bool) : Bits := fun q => bits (u ++ q)

def touch : List Bool → Bits → Bits
  | [], bits => bits
  | b :: path, bits => fun
      | [] => !b
      | c :: q => if c = b then touch path (bits.below [b]) q else bits (c :: q)

/-- The leaf at the given depth to which the bits lead. -/
def victim : ℕ → Bits → List Bool
  | 0, _ => []
  | depth + 1, bits => bits [] :: victim depth (bits.below [bits []])

/-- The number of bits on a path that lead along it. -/
def toward : List Bool → Bits → ℕ
  | [], _ => 0
  | b :: path, bits => (if bits [] = b then 1 else 0) + toward path (bits.below [b])

variable {bits : Bits} {path other u v : List Bool} {b : Bool} {depth : ℕ}

@[simp] theorem Bits.below_nil (bits : Bits) : bits.below [] = bits := rfl

theorem touch_root (b : Bool) (path : List Bool) (bits : Bits) :
    touch (b :: path) bits [] = !b := rfl

theorem below_touch (b : Bool) (path : List Bool) (bits : Bits) :
    (touch (b :: path) bits).below [b] = touch path (bits.below [b]) := by
  funext q
  exact if_pos rfl

theorem below_touch_ne {c : Bool} (h : c ≠ b) (path : List Bool) (bits : Bits) :
    (touch (b :: path) bits).below [c] = bits.below [c] := by
  funext q
  exact if_neg h

/-- The last bit of a path may be turned first. -/
theorem touch_append (path : List Bool) (b : Bool) (bits : Bits) :
    touch (path ++ [b]) bits = touch path (Function.update bits path !b) := by
  induction path generalizing bits with
  | nil =>
      funext q
      cases q with
      | nil => rfl
      | cons c q =>
          change (if c = b then bits ([b] ++ q) else bits (c :: q)) = _
          rw [touch, Function.update_of_ne (by simp)]
          split
          · rename_i hc
            rw [hc]
            rfl
          · rfl
  | cons a path ih =>
      have hbelow : Bits.below (Function.update bits (a :: path) !b) [a] =
          Function.update (bits.below [a]) path !b := by
        funext q
        unfold Bits.below
        by_cases hq : q = path
        · rw [hq, Function.update_self]
          exact Function.update_self ..
        · rw [Function.update_of_ne hq]
          exact Function.update_of_ne (by simpa using hq) ..
      funext q
      cases q with
      | nil => rfl
      | cons c q =>
          change (if c = a then touch (path ++ [b]) (bits.below [a]) q else bits (c :: q)) =
            if c = a then touch path (Bits.below (Function.update bits (a :: path) !b) [a]) q
              else Function.update bits (a :: path) (!b) (c :: q)
          rw [hbelow, ih]
          split
          · rfl
          · rename_i hc
            rw [Function.update_of_ne]
            simp [hc]

/-- No bit leads to a leaf that has just been touched. -/
theorem toward_touch_self (path : List Bool) (bits : Bits) : toward path (touch path bits) = 0 := by
  induction path generalizing bits with
  | nil => rfl
  | cons b path ih =>
      rw [toward, touch_root, below_touch, ih]
      simp

/-- A touch turns at most one bit of a path toward its leaf: the one of the node
where the paths part. -/
theorem toward_touch_le (path other : List Bool) (bits : Bits) :
    toward path (touch other bits) ≤ toward path bits + 1 := by
  induction path generalizing other bits with
  | nil => exact Nat.zero_le _
  | cons b path ih =>
      cases other with
      | nil => exact Nat.le_succ _
      | cons c other =>
          rw [toward, toward, touch_root]
          by_cases hbc : b = c
          · subst hbc
            have hrest := ih other (bits.below [b])
            rw [below_touch, if_neg (by simp)]
            omega
          · rw [below_touch_ne hbc]
            split <;> omega

theorem toward_foldl_le (touches : List (List Bool)) (path : List Bool) (bits : Bits) :
    toward path (touches.foldl (fun bits p => touch p bits) bits) ≤
      toward path bits + touches.length := by
  induction touches generalizing bits with
  | nil => exact Nat.le_refl _
  | cons p touches ih =>
      have hfirst := toward_touch_le path p bits
      have hrest := ih (touch p bits)
      rw [List.foldl_cons, List.length_cons]
      omega

theorem toward_victim (depth : ℕ) (bits : Bits) : toward (victim depth bits) bits = depth := by
  induction depth generalizing bits with
  | zero => rfl
  | succ depth ih =>
      rw [victim, toward, if_pos rfl, ih]
      omega

theorem victim_length (depth : ℕ) (bits : Bits) : (victim depth bits).length = depth := by
  induction depth generalizing bits with
  | zero => rfl
  | succ depth ih => rw [victim, List.length_cons, ih]

/-- The victim is none of the leaves touched by the last `depth` touches. -/
theorem victim_not_mem (depth : ℕ) (touches : List (List Bool)) (bits : Bits) :
    victim depth (touches.foldl (fun bits p => touch p bits) bits) ∉
      touches.drop (touches.length - depth) := by
  intro hmem
  set final := touches.foldl (fun bits p => touch p bits) bits with hfinal
  obtain ⟨pre, post, hsplit⟩ := List.append_of_mem hmem
  have hlength := congrArg List.length hsplit
  rw [List.length_drop, List.length_append, List.length_cons] at hlength
  have htouches : touches = touches.take (touches.length - depth) ++ pre ++
      victim depth final :: post := by
    rw [List.append_assoc, ← hsplit, List.take_append_drop]
  -- since its last touch fewer than `depth` bits have been turned
  have hfew := toward_foldl_le post (victim depth final)
    (touch (victim depth final) ((touches.take (touches.length - depth) ++ pre).foldl
      (fun bits p => touch p bits) bits))
  rw [toward_touch_self, ← List.foldl_cons (f := fun bits p => touch p bits), ← List.foldl_append,
    ← htouches, ← hfinal, toward_victim] at hfew
  omega

/-! ## Arrays -/

def nodeAt (n : ℕ) : List Bool → ℕ
  | [] => n
  | b :: path => nodeAt (2 * n + 1 + b.toNat) path

theorem nodeAt_append (n : ℕ) (path : List Bool) (b : Bool) :
    nodeAt n (path ++ [b]) = 2 * nodeAt n path + 1 + b.toNat := by
  induction path generalizing n with
  | nil => rfl
  | cons c path ih => exact ih _

/-- The nodes of one depth have consecutive numbers. -/
theorem nodeAt_root_bounds (path : List Bool) :
    2 ^ path.length ≤ nodeAt 0 path + 1 ∧ nodeAt 0 path + 1 < 2 ^ (path.length + 1) := by
  induction path using List.reverseRecOn with
  | nil => decide
  | append_singleton path b ih =>
      have hb : b.toNat ≤ 1 := Bool.toNat_le b
      rw [nodeAt_append, List.length_append, List.length_singleton,
        Nat.pow_succ 2 (path.length + 1)]
      rw [Nat.pow_succ] at ih ⊢
      omega

theorem nodeAt_root_injective (h : nodeAt 0 u = nodeAt 0 v) : u = v := by
  induction u using List.reverseRecOn generalizing v with
  | nil =>
      rcases List.eq_nil_or_concat v with rfl | ⟨v, c, rfl⟩
      · rfl
      · rw [List.concat_eq_append, nodeAt_append, nodeAt] at h
        omega
  | append_singleton u b ih =>
      rcases List.eq_nil_or_concat v with rfl | ⟨v, c, rfl⟩
      · rw [nodeAt_append, nodeAt] at h
        omega
      · rw [List.concat_eq_append] at h ⊢
        rw [nodeAt_append, nodeAt_append] at h
        have hb : b.toNat ≤ 1 := Bool.toNat_le b
        have hc : c.toNat ≤ 1 := Bool.toNat_le c
        have hbc : b = c := by
          cases b <;> cases c <;> simp at h ⊢ <;> omega
        rw [hbc, ih (v := v) (by rw [hbc] at h; omega)]

def leafPath : ℕ → ℕ → List Bool
  | 0, _ => []
  | depth + 1, leaf => leafPath depth (leaf / 2) ++ [decide (leaf % 2 = 1)]

theorem nodeAt_leafPath {leaf : ℕ} (h : leaf < 2 ^ depth) :
    nodeAt 0 (leafPath depth leaf) = 2 ^ depth - 1 + leaf := by
  induction depth generalizing leaf with
  | zero =>
      rw [Nat.pow_zero] at h ⊢
      simp [leafPath, nodeAt]
      omega
  | succ depth ih =>
      rw [Nat.pow_succ] at h ⊢
      have hpos : 0 < 2 ^ depth := Nat.two_pow_pos depth
      rw [leafPath, nodeAt_append, ih (by omega)]
      rcases Nat.mod_two_eq_zero_or_one leaf with hmod | hmod
      · rw [hmod]
        simp
        omega
      · rw [hmod]
        simp
        omega

theorem leafPath_length (depth leaf : ℕ) : (leafPath depth leaf).length = depth := by
  induction depth generalizing leaf with
  | zero => rfl
  | succ depth ih => rw [leafPath, List.length_append, List.length_singleton, ih]

end PlruTree
