import Mathlib.Init

/-!
# Postconditions of fallible computations

`x.Sat Q F` says what a computation in `Except` may end with: every value it can
return satisfies `Q`, and every error it can throw satisfies `F`. Taking `F` to
be false gives total correctness and taking it to be true gives partial
correctness, so one statement about a function serves both.
-/

universe u v

namespace Except

def Sat {ε α : Type*} (x : Except ε α) (Q : α → Prop) (F : ε → Prop) : Prop :=
  match x with
  | .ok a => Q a
  | .error e => F e

section Rules

variable {ε : Type u} {α β : Type v} {Q Q' : α → Prop} {R : β → Prop} {F F' : ε → Prop}

@[simp] theorem sat_ok (a : α) : (Except.ok a : Except ε α).Sat Q F ↔ Q a := Iff.rfl

@[simp] theorem sat_error (e : ε) : (Except.error e : Except ε α).Sat Q F ↔ F e := Iff.rfl

theorem Sat.of_eq_ok {x : Except ε α} {a : α} (h : x.Sat Q F) (hx : x = .ok a) : Q a := by
  subst hx
  exact h

theorem Sat.of_eq_error {x : Except ε α} {e : ε} (h : x.Sat Q F) (hx : x = .error e) : F e := by
  subst hx
  exact h

/-- A computation that throws no error returns. -/
theorem Sat.exists_ok {x : Except ε α} (h : x.Sat Q fun _ => False) : ∃ a, x = .ok a ∧ Q a := by
  cases x with
  | ok a => exact ⟨a, rfl, h⟩
  | error e => exact h.elim

theorem Sat.mono {x : Except ε α} (h : x.Sat Q F) (hQ : ∀ a, Q a → Q' a)
    (hF : ∀ e, F e → F' e) : x.Sat Q' F' := by
  cases x with
  | ok a => exact hQ a h
  | error e => exact hF e h

theorem Sat.imp {x : Except ε α} (h : x.Sat Q F) (hQ : ∀ a, Q a → Q' a) : x.Sat Q' F :=
  h.mono hQ fun _ he => he

/-- A computation that only throws errors allowed by `F` may assume its own
success when its postcondition is proved. -/
theorem sat_iff {x : Except ε α} :
    x.Sat Q F ↔ (∀ a, x = .ok a → Q a) ∧ ∀ e, x = .error e → F e := by
  constructor
  · intro h
    exact ⟨fun a hx => h.of_eq_ok hx, fun e hx => h.of_eq_error hx⟩
  · rintro ⟨hok, herror⟩
    cases x with
    | ok a => exact hok a rfl
    | error e => exact herror e rfl

/-- Partial correctness may assume that the computation has returned. -/
theorem sat_returned (x : Except ε α) : x.Sat (fun a => x = .ok a) fun _ => True :=
  sat_iff.mpr ⟨fun _ h => h, fun _ _ => trivial⟩

theorem Sat.returned {x : Except ε α} (h : x.Sat Q F) : x.Sat (fun a => x = .ok a ∧ Q a) F :=
  sat_iff.mpr ⟨fun _ ha => ⟨ha, h.of_eq_ok ha⟩, fun _ he => h.of_eq_error he⟩

theorem Sat.and {x : Except ε α} (h : x.Sat Q F) (h' : x.Sat Q' F') :
    x.Sat (fun a => Q a ∧ Q' a) fun e => F e ∧ F' e := by
  cases x with
  | ok a => exact ⟨h, h'⟩
  | error e => exact ⟨h, h'⟩

/-- A second postcondition, in partial correctness. -/
theorem Sat.both {x : Except ε α} (h : x.Sat Q fun _ => True) (h' : x.Sat Q' F) :
    x.Sat (fun a => Q a ∧ Q' a) fun _ => True :=
  (h.and h').mono (fun _ ha => ha) fun _ _ => trivial

theorem eq_ok_of_toOption {x : Except ε α} {a : α} (h : x.toOption = some a) : x = .ok a := by
  cases x with
  | ok b => exact congrArg Except.ok (Option.some.inj h)
  | error e => cases h

def throws [DecidableEq ε] (x : Except ε α) (e : ε) : Bool :=
  match x with
  | .ok _ => false
  | .error e' => e' = e

theorem throws_iff [DecidableEq ε] {x : Except ε α} {e : ε} : x.throws e = true ↔ x = .error e := by
  cases x with
  | ok a => simp [throws]
  | error e' => simp [throws]

/-- A property of the value a computation returns, if it does. -/
instance (priority := high) decidableForallOk {p : α → Prop} [DecidablePred p] :
    (x : Except ε α) → Decidable (∀ a, x = .ok a → p a)
  | .ok a => decidable_of_iff (p a) ⟨fun h _ ha => Except.ok.inj ha ▸ h, fun h => h a rfl⟩
  | .error _ => .isTrue nofun

/-- The computation returns a value with a property. -/
instance (priority := high) decidableExistsOk {p : α → Prop} [DecidablePred p] :
    (x : Except ε α) → Decidable (∃ a, x = .ok a ∧ p a)
  | .ok a => decidable_of_iff (p a) ⟨fun h => ⟨a, rfl, h⟩, fun ⟨_, ha, h⟩ => Except.ok.inj ha ▸ h⟩
  | .error _ => .isFalse fun ⟨_, h, _⟩ => by cases h

theorem Sat.bind {x : Except ε α} {k : α → Except ε β} (h : x.Sat Q F)
    (hk : ∀ a, Q a → (k a).Sat R F) : (x >>= k).Sat R F := by
  cases x with
  | ok a => exact hk a h
  | error e => exact h

end Rules

section Relation

variable {ε : Type u} {α β γ : Type v} {R : α → β → Prop} {x : Except ε α} {y : Except ε β}

/-- Both return, related values, or both throw the same error. -/
def Rel (R : α → β → Prop) : Except ε α → Except ε β → Prop
  | .ok a, .ok b => R a b
  | .error e, .error e' => e = e'
  | _, _ => False

@[simp] theorem rel_ok (a : α) (b : β) : Rel R (.ok a : Except ε α) (.ok b) ↔ R a b := Iff.rfl

@[simp] theorem ok_bind (a : α) (k : α → Except ε β) : (Except.ok a >>= k) = k a := rfl

/-- Two computations that begin with the same one. -/
theorem rel_bind {z : Except ε γ} {f : γ → Except ε α} {g : γ → Except ε β}
    (h : ∀ c, Rel R (f c) (g c)) : Rel R (z >>= f) (z >>= g) := by
  cases z with
  | ok c => exact h c
  | error e => rfl

theorem Rel.of_ok {b : β} (h : Rel R x (.ok b)) : ∃ a, x = .ok a ∧ R a b := by
  cases x with
  | ok a => exact ⟨a, rfl, h⟩
  | error e => exact h.elim

/-- A postcondition of the second computation, seen through the relation. -/
theorem Rel.sat (h : Rel R x y) {Q : β → Prop} {F : ε → Prop} (hy : y.Sat Q F) :
    x.Sat (fun a => ∃ b, R a b ∧ Q b) F := by
  cases x with
  | ok a =>
      cases y with
      | ok b => exact ⟨b, h, hy⟩
      | error e => exact h.elim
  | error e =>
      cases y with
      | ok b => exact h.elim
      | error e' =>
          have he : e = e' := h
          exact he ▸ hy

end Relation

end Except
