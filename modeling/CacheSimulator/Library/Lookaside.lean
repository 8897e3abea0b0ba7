import CacheSimulator.Library.SetAssociative

/-!
# Lookaside buffers

A set of ways remembers values of a partial function: each entry is a key with
its value, and no key is held twice. A set that remembers nothing does so, and
whoever finds no entry for a key may put the value of the key into any way. When
the function grows, the entries stay right.
-/

namespace Lookaside

open SetAssociative

variable {W T β : Type*} {f g : T → Option β} {slots : W → Option (T × β)} {w : W} {t : T} {x : β}

/-- The entries are values of `f`, each under its key, and no key is held twice. -/
structure Caches (f : T → Option β) (slots : W → Option (T × β)) : Prop where
  unique : Unique slots
  sound : ∀ w t x, slots w = some (t, x) → f t = some x

theorem caches_empty (h : ∀ w, slots w = none) : Caches f slots := by
  constructor
  · intro w w' t x x' hw
    rw [h w] at hw
    cases hw
  · intro w t x hw
    rw [h w] at hw
    cases hw

/-- The function may change where no value is remembered. -/
theorem Caches.mono (h : Caches f slots)
    (hfg : ∀ w t x, slots w = some (t, x) → f t = some x → g t = some x) : Caches g slots :=
  ⟨h.unique, fun w t x hw => hfg w t x hw (h.sound w t x hw)⟩

theorem Caches.fill [DecidableEq W] (h : Caches f slots) (hx : f t = some x)
    (hmiss : ∀ w x, slots w ≠ some (t, x)) (w : W) :
    Caches f (Function.update slots w (some (t, x))) := by
  constructor
  · intro w₁ w₂ t' x₁ x₂ h₁ h₂
    rw [Function.update_apply] at h₁ h₂
    split at h₁
    · rename_i hw₁
      obtain ⟨rfl, rfl⟩ := Prod.mk.inj (Option.some.inj h₁)
      split at h₂
      · rename_i hw₂
        rw [hw₁, hw₂]
      · exact absurd h₂ (hmiss w₂ x₂)
    · split at h₂
      · obtain ⟨rfl, rfl⟩ := Prod.mk.inj (Option.some.inj h₂)
        exact absurd h₁ (hmiss w₁ x₁)
      · exact h.unique w₁ w₂ t' x₁ x₂ h₁ h₂
  · intro w' t' x' hw'
    rw [Function.update_apply] at hw'
    split at hw'
    · obtain ⟨rfl, rfl⟩ := Prod.mk.inj (Option.some.inj hw')
      exact hx
    · exact h.sound w' t' x' hw'

end Lookaside
