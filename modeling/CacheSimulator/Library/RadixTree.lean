import Mathlib.Logic.Function.Basic
import Mathlib.Data.List.Induction

/-!
# Radix trees in memory

A radix tree stores its values at paths of a fixed length. Each table sits at an
address `P` and has slots `I`; a slot of a table on the last level holds a value,
a slot of another one the address of a table. `Represents` says which path each
table stands for and which values the tree holds, for the paths in `A` only: the
slots of the other paths may hold anything.
-/

namespace RadixTree

variable {P I V : Type*}

/-- What the slots of the tables hold. -/
structure Tables (P I V : Type*) where
  child : P → I → Option P
  leaf : P → I → Option V

/-- The value found from a table by the rest of a path. -/
def Tables.walk (t : Tables P I V) : P → List I → Option V
  | _, [] => none
  | p, [i] => t.leaf p i
  | p, i :: j :: path => (t.child p i).bind fun q => t.walk q (j :: path)

def Tables.reach (t : Tables P I V) : P → List I → Option P
  | p, [] => some p
  | p, i :: path => (t.child p i).bind fun q => t.reach q path

/-- The tables at `node` hold the values `mapped`. No two paths share a table. -/
structure Represents (t : Tables P I V) (depth : ℕ) (A : List I → Prop) (root : P)
    (node : List I → Option P) (mapped : List I → Option V) : Prop where
  root : node [] = some root
  allowed : ∀ {u}, node u ≠ none → A u ∧ u.length < depth
  injective : ∀ {u v p}, node u = some p → node v = some p → u = v
  child : ∀ {u p i}, node u = some p → u.length + 1 < depth → A (u ++ [i]) →
    t.child p i = node (u ++ [i])
  leaf : ∀ {u p i}, node u = some p → u.length + 1 = depth → A (u ++ [i]) →
    t.leaf p i = mapped (u ++ [i])
  parent : ∀ {u i}, node (u ++ [i]) ≠ none → node u ≠ none
  leafParent : ∀ {u i}, mapped (u ++ [i]) ≠ none → node u ≠ none

/-- The slots of the tables at `node` hold in `t'` what they hold in `t`, but for
the slot that ends `path`. -/
def AgreeExcept (t t' : Tables P I V) (A : List I → Prop) (node : List I → Option P)
    (path : List I) : Prop :=
  ∀ {v p j}, node v = some p → A (v ++ [j]) → v ++ [j] ≠ path →
    t'.child p j = t.child p j ∧ t'.leaf p j = t.leaf p j

namespace Represents

variable {t t' : Tables P I V} {depth : ℕ} {A : List I → Prop} {root p q : P}
  {node : List I → Option P} {mapped : List I → Option V} {u v path : List I} {i : I}

theorem node_of_append (h : Represents t depth A root node mapped) (hv : node (u ++ v) ≠ none) :
    node u ≠ none := by
  induction v using List.reverseRecOn with
  | nil => rwa [List.append_nil] at hv
  | append_singleton v i ih =>
      rw [← List.append_assoc] at hv
      exact ih (h.parent hv)

/-- A value is mapped only where all the tables of its path exist. -/
theorem node_of_mapped (h : Represents t depth A root node mapped) (hpath : path ≠ [])
    (hmapped : mapped (u ++ path) ≠ none) : node u ≠ none := by
  obtain ⟨v, i, rfl⟩ : ∃ v i, path = v ++ [i] :=
    ⟨_, _, (List.dropLast_concat_getLast hpath).symm⟩
  rw [← List.append_assoc] at hmapped
  exact h.node_of_append (h.leafParent hmapped)

/-- A walk finds the value mapped at its path. -/
theorem walk_eq (h : Represents t depth A root node mapped)
    (hA : ∀ {u v}, A (u ++ v) → A u) (hu : node u = some p) (hpath : path ≠ [])
    (hlength : u.length + path.length = depth) (hallowed : A (u ++ path)) :
    t.walk p path = mapped (u ++ path) := by
  induction path generalizing u p with
  | nil => exact absurd rfl hpath
  | cons i path ih =>
      cases path with
      | nil => exact h.leaf hu hlength hallowed
      | cons j path =>
          rw [List.append_cons] at hallowed ⊢
          have hchild := h.child hu (by simp at hlength; omega) (hA hallowed)
          rw [Tables.walk, hchild]
          cases hq : node (u ++ [i]) with
          | none =>
              by_contra hne
              exact h.node_of_mapped (by simp) (Ne.symm hne) hq
          | some q =>
              refine ih hq (by simp) ?_ hallowed
              simp only [List.length_append, List.length_cons, List.length_nil] at hlength ⊢
              omega

theorem reach_eq (h : Represents t depth A root node mapped) (hA : ∀ {u v}, A (u ++ v) → A u)
    (hu : node u = some p) (hq : node (u ++ path) = some q) : t.reach p path = some q := by
  induction path generalizing u p with
  | nil =>
      rw [List.append_nil, hu] at hq
      exact hq
  | cons i path ih =>
      rw [List.append_cons] at hq
      have hne : node (u ++ [i] ++ path) ≠ none := by
        rw [hq]
        exact Option.some_ne_none q
      obtain ⟨hallowed, hlength⟩ := h.allowed hne
      obtain ⟨r, hr⟩ := Option.ne_none_iff_exists'.mp (h.node_of_append hne)
      simp only [List.length_append, List.length_singleton] at hlength
      rw [Tables.reach, h.child hu (by omega) (hA hallowed), hr]
      exact ih hr hq

theorem congr (h : Represents t depth A root node mapped)
    (hsame : ∀ {v p j}, node v = some p → A (v ++ [j]) →
      t'.child p j = t.child p j ∧ t'.leaf p j = t.leaf p j) :
    Represents t' depth A root node mapped := by
  refine ⟨h.root, h.allowed, h.injective, ?_, ?_, h.parent, h.leafParent⟩
  · intro u p i hu hlength hi
    rw [(hsame hu hi).1, h.child hu hlength hi]
  · intro u p i hu hlength hi
    rw [(hsame hu hi).2, h.leaf hu hlength hi]

section Update

variable [DecidableEq I]

/-- An empty table at a fresh address is hung below `u`. -/
theorem addTable (h : Represents t depth A root node mapped) (hu : node u = some p)
    (hlength : u.length + 1 < depth) (hi : A (u ++ [i])) (hnone : node (u ++ [i]) = none)
    (hfresh : ∀ v, node v ≠ some q) (hself : t'.child p i = some q)
    (hsame : AgreeExcept t t' A node (u ++ [i]))
    (hempty : ∀ {j}, A (u ++ [i] ++ [j]) → t'.child q j = none ∧ t'.leaf q j = none) :
    Represents t' depth A root (Function.update node (u ++ [i]) (some q)) mapped := by
  have hbelow : ∀ j, node (u ++ [i] ++ [j]) = none := fun j => by
    by_contra hne
    exact h.parent hne hnone
  have hstay : ∀ {v}, node v ≠ none → Function.update node (u ++ [i]) (some q) v ≠ none := by
    intro v hv
    by_cases hvu : v = u ++ [i]
    · simp [hvu]
    · rwa [Function.update_of_ne hvu]
  constructor
  · rw [Function.update_of_ne (by simp), h.root]
  · intro v hv
    by_cases hvu : v = u ++ [i]
    · rw [hvu, List.length_append, List.length_singleton]
      exact ⟨hi, hlength⟩
    · rw [Function.update_of_ne hvu] at hv
      exact h.allowed hv
  · intro v w r hv hw
    by_cases hvu : v = u ++ [i]
    · by_cases hwu : w = u ++ [i]
      · rw [hvu, hwu]
      · rw [Function.update_of_ne hwu] at hw
        rw [hvu, Function.update_self, Option.some.injEq] at hv
        exact absurd (hv ▸ hw) (hfresh w)
    · rw [Function.update_of_ne hvu] at hv
      by_cases hwu : w = u ++ [i]
      · rw [hwu, Function.update_self, Option.some.injEq] at hw
        exact absurd (hw ▸ hv) (hfresh v)
      · rw [Function.update_of_ne hwu] at hw
        exact h.injective hv hw
  · intro v r j hv hl hj
    by_cases hvu : v = u ++ [i]
    · subst hvu
      rw [Function.update_self, Option.some.injEq] at hv
      subst hv
      rw [(hempty hj).1, Function.update_of_ne (by simp), hbelow]
    · rw [Function.update_of_ne hvu] at hv
      by_cases hslot : v ++ [j] = u ++ [i]
      · obtain ⟨rfl, hji⟩ := List.append_inj' hslot rfl
        obtain rfl := List.singleton_inj.mp hji
        rw [hu, Option.some.injEq] at hv
        rw [← hv, hself, Function.update_self]
      · rw [(hsame hv hj hslot).1, h.child hv hl hj, Function.update_of_ne hslot]
  · intro v r j hv hl hj
    by_cases hvu : v = u ++ [i]
    · subst hvu
      rw [Function.update_self, Option.some.injEq] at hv
      subst hv
      rw [(hempty hj).2]
      by_contra hne
      exact h.leafParent (Ne.symm hne) hnone
    · rw [Function.update_of_ne hvu] at hv
      have hslot : v ++ [j] ≠ u ++ [i] := fun heq => by
        have := congrArg List.length heq
        simp only [List.length_append, List.length_singleton] at this
        omega
      rw [(hsame hv hj hslot).2, h.leaf hv hl hj]
  · intro v j hv
    apply hstay
    by_cases hslot : v ++ [j] = u ++ [i]
    · obtain ⟨rfl, -⟩ := List.append_inj' hslot rfl
      simp [hu]
    · rw [Function.update_of_ne hslot] at hv
      exact h.parent hv
  · exact fun hv => hstay (h.leafParent hv)

theorem addLeaf {x : V} (h : Represents t depth A root node mapped) (hu : node u = some p)
    (hlength : u.length + 1 = depth) (hself : t'.leaf p i = some x)
    (hsame : AgreeExcept t t' A node (u ++ [i])) :
    Represents t' depth A root node (Function.update mapped (u ++ [i]) (some x)) := by
  refine ⟨h.root, h.allowed, h.injective, ?_, ?_, h.parent, ?_⟩
  · intro v r j hv hl hj
    have hslot : v ++ [j] ≠ u ++ [i] := fun heq => by
      have := congrArg List.length heq
      simp only [List.length_append, List.length_singleton] at this
      omega
    rw [(hsame hv hj hslot).1, h.child hv hl hj]
  · intro v r j hv hl hj
    by_cases hslot : v ++ [j] = u ++ [i]
    · obtain ⟨rfl, hji⟩ := List.append_inj' hslot rfl
      obtain rfl := List.singleton_inj.mp hji
      rw [hu, Option.some.injEq] at hv
      rw [← hv, hself, Function.update_self]
    · rw [(hsame hv hj hslot).2, h.leaf hv hl hj, Function.update_of_ne hslot]
  · intro v j hv
    by_cases hslot : v ++ [j] = u ++ [i]
    · obtain ⟨rfl, -⟩ := List.append_inj' hslot rfl
      simp [hu]
    · rw [Function.update_of_ne hslot] at hv
      exact h.leafParent hv

end Update

end Represents

end RadixTree
