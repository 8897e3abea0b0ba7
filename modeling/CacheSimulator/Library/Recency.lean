import Mathlib.Data.List.Basic
import Mathlib.Data.List.Induction
import Mathlib.Order.Lattice
import Mathlib.Tactic.Cases

/-!
# Ages and recency

A table keeps an age for each of its entries. A touch of an entry sets its age to
zero and makes the younger entries one older. The ages then order the entries as
their last touches do: they are all that least-recently-used replacement needs to
know of the history.
-/

namespace Recency

variable {ι : Type*} [LinearOrder ι]

def touch (age : ι → ℕ) (x : ι) : ι → ℕ := fun i =>
  if i = x then 0 else if age i < age x then age i + 1 else age i

/-- The number of touches up to the last one of `i`; zero when there is none. -/
def lastTouch (history : List ι) (i : ι) : ℕ := history.length - history.reverse.idxOf i

/-- `i` was last touched before `j` was. The entries that were never touched come
first, in their own order. -/
def Older (history : List ι) (i j : ι) : Prop :=
  lastTouch history i < lastTouch history j ∨
    lastTouch history i = lastTouch history j ∧ i < j

variable {history : List ι} {age : ι → ℕ} {i j x : ι}

theorem lastTouch_append (history : List ι) (x i : ι) :
    lastTouch (history ++ [x]) i = if i = x then history.length + 1 else lastTouch history i := by
  unfold lastTouch
  rw [List.reverse_append, List.reverse_singleton, List.singleton_append, List.length_append,
    List.length_singleton]
  split
  · rename_i hi
    rw [hi, List.idxOf_cons_self]
    omega
  · rename_i hi
    rw [List.idxOf_cons_ne _ (Ne.symm hi)]
    omega

theorem lastTouch_le (history : List ι) (i : ι) : lastTouch history i ≤ history.length :=
  Nat.sub_le _ _

/-- The older entry has the higher age. -/
def Ordered (history : List ι) (age : ι → ℕ) : Prop :=
  ∀ i j, age j < age i ↔ Older history i j

theorem Ordered.injective (h : Ordered history age) : Function.Injective age := by
  intro i j hij
  have hi : ¬Older history i j := fun hold => absurd ((h i j).mpr hold) (by omega)
  have hj : ¬Older history j i := fun hold => absurd ((h j i).mpr hold) (by omega)
  rcases Nat.lt_trichotomy (lastTouch history i) (lastTouch history j) with hlt | heq | hgt
  · exact absurd (.inl hlt) hi
  · exact le_antisymm (not_lt.mp fun hlt => hj (.inr ⟨heq.symm, hlt⟩))
      (not_lt.mp fun hlt => hi (.inr ⟨heq, hlt⟩))
  · exact absurd (.inl hgt) hj

theorem Ordered.touch (h : Ordered history age) (x : ι) :
    Ordered (history ++ [x]) (touch age x) := by
  intro i j
  have hx := lastTouch_append history x
  have hi := lastTouch_le history i
  have hj := lastTouch_le history j
  have hne : ∀ k, k ≠ x → age k ≠ age x := fun k hk heq => hk (h.injective heq)
  unfold Older Recency.touch
  rw [hx, hx]
  by_cases hix : i = x
  · -- the entry just touched is older than no other
    rw [if_pos hix, if_pos hix]
    by_cases hjx : j = x
    · simp [hix, hjx]
    · rw [if_neg hjx, if_neg hjx]
      constructor
      · intro hlt
        omega
      · intro hlt
        omega
  · have hi' := hne i hix
    rw [if_neg hix, if_neg hix]
    by_cases hjx : j = x
    · rw [if_pos hjx, if_pos hjx]
      refine iff_of_true ?_ (.inl (by omega))
      split <;> omega
    · have hj' := hne j hjx
      rw [if_neg hjx, if_neg hjx]
      refine Iff.trans ?_ (h i j)
      split <;> split <;> omega

theorem Ordered.foldl {age₀ : ι → ℕ} (h : Ordered [] age₀) (history : List ι) :
    Ordered history (history.foldl Recency.touch age₀) := by
  induction history using List.reverseRecOn with
  | nil => exact h
  | append_singleton history x ih =>
      rw [List.foldl_append]
      exact ih.touch x

theorem touch_lt {n : ℕ} (h : ∀ i, age i < n) (x i : ι) : touch age x i < n := by
  have hi := h i
  have hx := h x
  unfold touch
  split
  · omega
  · split <;> omega

theorem foldl_touch_lt {n : ℕ} (h : ∀ i, age i < n) (history : List ι) (i : ι) :
    history.foldl touch age i < n := by
  induction history generalizing age with
  | nil => exact h i
  | cons x history ih => exact ih (touch_lt h x)

/-- The loop that keeps the entry with the highest age. -/
theorem le_foldl_oldest {κ : Type*} (age : κ → ℕ) (entries : List κ) (victim : κ) :
    ∀ i ∈ victim :: entries,
      age i ≤ age (entries.foldl (fun v i => if age i > age v then i else v) victim) := by
  induction entries generalizing victim with
  | nil =>
      intro i hi
      rw [List.mem_singleton.mp hi]
      exact Nat.le_refl _
  | cons y entries ih =>
      rw [List.foldl_cons]
      set next := if age y > age victim then y else victim with hnext
      have hvictim : age victim ≤ age next := by
        rw [hnext]
        split <;> omega
      have hy : age y ≤ age next := by
        rw [hnext]
        split <;> omega
      have hbest := ih next
      intro i hi
      rcases List.mem_cons.mp hi with rfl | hi
      · exact Nat.le_trans hvictim (hbest next List.mem_cons_self)
      · rcases List.mem_cons.mp hi with rfl | hi
        · exact Nat.le_trans hy (hbest next List.mem_cons_self)
        · exact hbest i (List.mem_cons_of_mem _ hi)

end Recency
