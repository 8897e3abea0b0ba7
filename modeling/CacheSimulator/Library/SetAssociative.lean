import Mathlib.Logic.Function.Basic
import Mathlib.Tactic.ByContra

/-!
# Set-associative stores

A set-associative store keeps its entries in sets of ways, and an entry carries
a tag. A key has one set, given by its index, and one tag, and it may sit in any
way of its set. When no set holds a tag twice and every entry sits in the set of
the key it belongs to, the store is a finite map from keys to values, and the
change of one way is the change of that map at one key. This module proves that
one rule, `contents_setSlot`, for arbitrary types of keys, indices, tags, ways
and values.
-/

namespace SetAssociative

variable {ι I T W β : Type*}

/-- No tag occurs in two ways of a set. -/
def Unique (slots : W → Option (T × β)) : Prop :=
  ∀ w w' t x x', slots w = some (t, x) → slots w' = some (t, x') → w = w'

noncomputable def lookup (slots : W → Option (T × β)) (t : T) : Option β :=
  open Classical in
  if h : ∃ x w, slots w = some (t, x) then some h.choose else none

theorem lookup_eq_some_iff {slots : W → Option (T × β)} (hu : Unique slots) {t : T} {x : β} :
    lookup slots t = some x ↔ ∃ w, slots w = some (t, x) := by
  unfold lookup
  split
  · rename_i h
    obtain ⟨w, hw⟩ := h.choose_spec
    constructor
    · intro hx
      rw [Option.some.injEq] at hx
      exact ⟨w, hx ▸ hw⟩
    · rintro ⟨w', hw'⟩
      have hww : w = w' := hu w w' t _ _ hw hw'
      subst hww
      rw [hw] at hw'
      simpa using hw'
  · rename_i h
    simp only [reduceCtorEq, false_iff]
    exact fun ⟨w, hw⟩ => h ⟨x, w, hw⟩

theorem lookup_eq_none_iff {slots : W → Option (T × β)} {t : T} :
    lookup slots t = none ↔ ∀ w x, slots w ≠ some (t, x) := by
  unfold lookup
  split
  · rename_i h
    obtain ⟨w, hw⟩ := h.choose_spec
    simp only [reduceCtorEq, false_iff, not_forall]
    exact ⟨w, _, fun hn => hn hw⟩
  · rename_i h
    simp only [true_iff]
    exact fun w x hw => h ⟨x, w, hw⟩

/-- The set and the tag of a key; together they determine it. -/
structure Geometry (ι I T : Type*) where
  index : ι → I
  tag : ι → T
  injective : ∀ a b, index a = index b → tag a = tag b → a = b

namespace Geometry

variable (g : Geometry ι I T) {sets : I → W → Option (T × β)}

/-- No set holds a tag twice, and every entry belongs to a key of its set. -/
structure WellPlaced (sets : I → W → Option (T × β)) : Prop where
  unique : ∀ i, Unique (sets i)
  placed : ∀ i w t x, sets i w = some (t, x) → ∃ a, g.index a = i ∧ g.tag a = t

/-- The map from keys to values that the sets represent. -/
noncomputable def contents (sets : I → W → Option (T × β)) (a : ι) : Option β :=
  lookup (sets (g.index a)) (g.tag a)

theorem contents_eq_some_iff (h : g.WellPlaced sets) {a : ι} {x : β} :
    g.contents sets a = some x ↔ ∃ w, sets (g.index a) w = some (g.tag a, x) :=
  lookup_eq_some_iff (h.unique _)

theorem contents_eq_none_iff {a : ι} :
    g.contents sets a = none ↔ ∀ w x, sets (g.index a) w ≠ some (g.tag a, x) :=
  lookup_eq_none_iff

/-- Way `w` of the set of `a` may be given the entry `z` for `a`: it is free or
already holds `a`, and if it is free then no other way holds `a`. -/
structure Assignable (sets : I → W → Option (T × β)) (a : ι) (w : W) : Prop where
  own : ∀ t x, sets (g.index a) w = some (t, x) → t = g.tag a
  fresh : sets (g.index a) w = none → g.contents sets a = none

/-- Only way `w` can hold `a`. -/
theorem Assignable.eq_way (h : g.WellPlaced sets) {a : ι} {w : W} (ha : g.Assignable sets a w)
    {w' : W} {x : β} (hw' : sets (g.index a) w' = some (g.tag a, x)) : w' = w := by
  cases hw : sets (g.index a) w with
  | none => exact absurd hw' ((g.contents_eq_none_iff.mp (ha.fresh hw)) w' x)
  | some e =>
      obtain ⟨t, y⟩ := e
      have ht : t = g.tag a := ha.own t y hw
      subst ht
      exact h.unique _ w' w _ x y hw' hw

theorem assignable_of_holds {a : ι} {w : W} {x : β}
    (hw : sets (g.index a) w = some (g.tag a, x)) : g.Assignable sets a w := by
  constructor
  · intro t y hy
    rw [hw, Option.some.injEq] at hy
    exact (Prod.mk.inj hy).1.symm
  · intro hnone
    rw [hw] at hnone
    cases hnone

theorem assignable_of_free {a : ι} {w : W} (hw : sets (g.index a) w = none)
    (ha : g.contents sets a = none) : g.Assignable sets a w := by
  constructor
  · intro t y hy
    rw [hw] at hy
    cases hy
  · exact fun _ => ha

variable [DecidableEq I] [DecidableEq W]

def setSlot (sets : I → W → Option (T × β)) (i : I) (w : W) (z : Option (T × β)) :
    I → W → Option (T × β) :=
  Function.update sets i (Function.update (sets i) w z)

omit g in
theorem setSlot_apply (i : I) (w : W) (z : Option (T × β)) (i' : I) (w' : W) :
    setSlot sets i w z i' w' = if i' = i ∧ w' = w then z else sets i' w' := by
  unfold setSlot
  by_cases hi : i' = i
  · subst hi
    by_cases hw : w' = w
    · simp [hw]
    · simp [hw]
  · simp [hi]

theorem wellPlaced_setSlot (h : g.WellPlaced sets) {a : ι} {w : W} (ha : g.Assignable sets a w)
    (y : Option β) :
    g.WellPlaced (setSlot sets (g.index a) w (y.map fun v => (g.tag a, v))) := by
  constructor
  · intro i w₁ w₂ t x₁ x₂ h₁ h₂
    rw [setSlot_apply] at h₁ h₂
    split at h₁
    · rename_i e₁
      obtain ⟨rfl, rfl⟩ := e₁
      obtain ⟨v, -, hv⟩ := Option.map_eq_some_iff.mp h₁
      split at h₂
      · rename_i e₂
        exact e₂.2.symm
      · obtain ⟨rfl, -⟩ := Prod.mk.inj hv
        exact (ha.eq_way g h h₂).symm
    · split at h₂
      · rename_i e₂
        obtain ⟨rfl, rfl⟩ := e₂
        obtain ⟨v, -, hv⟩ := Option.map_eq_some_iff.mp h₂
        obtain ⟨rfl, -⟩ := Prod.mk.inj hv
        exact ha.eq_way g h h₁
      · exact h.unique i w₁ w₂ t x₁ x₂ h₁ h₂
  · intro i w' t x hx
    rw [setSlot_apply] at hx
    split at hx
    · rename_i e
      obtain ⟨v, -, hv⟩ := Option.map_eq_some_iff.mp hx
      obtain ⟨rfl, -⟩ := Prod.mk.inj hv
      exact ⟨a, e.1.symm, rfl⟩
    · exact h.placed i w' t x hx

/-- Changing one way changes the map at one key. -/
theorem contents_setSlot [DecidableEq ι] (h : g.WellPlaced sets) {a : ι} {w : W}
    (ha : g.Assignable sets a w) (y : Option β) :
    g.contents (setSlot sets (g.index a) w (y.map fun v => (g.tag a, v))) =
      Function.update (g.contents sets) a y := by
  have h' := g.wellPlaced_setSlot h ha y
  funext b
  apply Option.ext
  intro x
  rw [g.contents_eq_some_iff h']
  by_cases hb : b = a
  · subst hb
    rw [Function.update_self]
    constructor
    · rintro ⟨w', hw'⟩
      rw [setSlot_apply] at hw'
      split at hw'
      · obtain ⟨v, hv, he⟩ := Option.map_eq_some_iff.mp hw'
        rw [hv, (Prod.mk.inj he).2]
      · rename_i hne
        exact absurd ⟨rfl, ha.eq_way g h hw'⟩ hne
    · intro hy
      exact ⟨w, by simp [setSlot_apply, hy]⟩
  · rw [Function.update_of_ne hb, g.contents_eq_some_iff h]
    have hkeep : ∀ w', setSlot sets (g.index a) w (y.map fun v => (g.tag a, v)) (g.index b) w' =
        some (g.tag b, x) ↔ sets (g.index b) w' = some (g.tag b, x) := by
      intro w'
      rw [setSlot_apply]
      split
      · rename_i e
        obtain ⟨hi, rfl⟩ := e
        have htag : g.tag a ≠ g.tag b := fun ht => hb (g.injective b a hi ht.symm)
        constructor
        · intro hv
          obtain ⟨v, -, hv⟩ := Option.map_eq_some_iff.mp hv
          exact absurd (Prod.mk.inj hv).1 htag
        · intro hv
          rw [hi] at hv
          exact absurd (ha.own _ _ hv).symm htag
      · rfl
    exact exists_congr hkeep

end Geometry

end SetAssociative
