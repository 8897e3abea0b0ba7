import Mathlib.Data.Nat.ModEq
import Mathlib.Data.Fin.Basic
import Mathlib.Logic.Function.Basic
import Mathlib.Tactic.Common

/-!
# Ring queues

A queue in an array of `N` slots. Item `j` of the sequence goes to slot `j % N`, and one
slot is always free, so that a full queue can be told from an empty one.
-/

namespace RingQueue

variable {α : Type*} {N : ℕ} [NeZero N] {items : ℕ → α} {slots : Fin N → α} {k p : ℕ}

/-- The slots hold the items from `k` up to `p`. -/
structure Holds (items : ℕ → α) (slots : Fin N → α) (k p : ℕ) : Prop where
  le : k ≤ p
  room : p < k + N
  slot : ∀ j, k ≤ j → j < p → slots (Fin.ofNat N j) = items j

omit [NeZero N] in
/-- Two positions less than `N` apart share a slot only when they are equal. -/
theorem mod_eq_iff (hle : k ≤ p) (hlt : p < k + N) : k % N = p % N ↔ k = p := by
  refine ⟨fun h => ?_, fun h => h ▸ rfl⟩
  have hdvd : N ∣ p - k := (Nat.modEq_iff_dvd' hle).mp h
  have hzero := Nat.eq_zero_of_dvd_of_lt hdvd (by omega)
  omega

namespace Holds

theorem empty : Holds items slots 0 0 :=
  ⟨Nat.le_refl 0, by simpa using Nat.pos_of_neZero N, fun j _ hj => absurd hj (Nat.not_lt_zero j)⟩

theorem empty_iff (h : Holds items slots k p) : k % N = p % N ↔ k = p := mod_eq_iff h.le h.room

/-- The queue is full when the next item would go to the slot of the first one. -/
theorem full_iff (h : Holds items slots k p) : (p + 1) % N = k % N ↔ p + 1 = k + N := by
  have hle := h.le
  have hroom := h.room
  by_cases hlt : p + 1 < k + N
  · rw [eq_comm, mod_eq_iff (by omega) hlt]
    omega
  · have heq : p + 1 = k + N := by omega
    simp [heq]

/-- A write to the free slot leaves the items alone. -/
theorem write (h : Holds items slots k p) (x : α) :
    Holds items (Function.update slots (Fin.ofNat N p) x) k p := by
  refine ⟨h.le, h.room, fun j hk hp => ?_⟩
  rw [Function.update_of_ne, h.slot j hk hp]
  intro heq
  have hroom := h.room
  have hmod : j % N = p % N := congrArg Fin.val heq
  have := (mod_eq_iff (Nat.le_of_lt hp) (by omega)).mp hmod
  omega

theorem push (h : Holds items slots k p) (hroom : p + 1 < k + N)
    (hslot : slots (Fin.ofNat N p) = items p) : Holds items slots k (p + 1) := by
  have hle := h.le
  refine ⟨by omega, hroom, fun j hk hp => ?_⟩
  rcases Nat.lt_succ_iff_lt_or_eq.mp hp with hlt | rfl
  · exact h.slot j hk hlt
  · exact hslot

theorem front (h : Holds items slots k p) (hlt : k < p) : slots (Fin.ofNat N k) = items k :=
  h.slot k (Nat.le_refl k) hlt

theorem pop (h : Holds items slots k p) (hlt : k < p) : Holds items slots (k + 1) p := by
  have hroom := h.room
  exact ⟨hlt, by omega, fun j hk hp => h.slot j (Nat.le_of_succ_le hk) hp⟩

end Holds

end RingQueue
