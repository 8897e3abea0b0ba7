import CacheSimulator.Refinement.LineView

/-!
# Sharer masks

A mask of an L2 way names a set of cores. With two cores a mask has four
values, so its laws are checked value by value; in particular the loop over a
mask visits the cores it names in ascending order.
-/

namespace CacheSimulator

def CoreId.peer (c : CoreId) : CoreId := c + 1

theorem CoreId.eq_zero_or_one (c : CoreId) : c = 0 ∨ c = 1 := by
  revert c
  decide

theorem CoreId.ne_iff_eq_peer {b c : CoreId} : b ≠ c ↔ b = CoreId.peer c := by
  revert b c
  decide

@[simp] theorem CoreId.peer_ne (c : CoreId) : CoreId.peer c ≠ c := CoreId.ne_iff_eq_peer.mpr rfl

@[simp] theorem CoreId.ne_peer (c : CoreId) : c ≠ CoreId.peer c := (CoreId.peer_ne c).symm

/-- Every function of a core is given by its value at a core and at its peer. -/
theorem CoreId.forall_iff {p : CoreId → Prop} (c : CoreId) :
    (∀ b, p b) ↔ p c ∧ p (CoreId.peer c) := by
  constructor
  · exact fun h => ⟨h c, h _⟩
  · rintro ⟨hc, hpeer⟩ b
    by_cases hb : b = c
    · exact hb ▸ hc
    · exact CoreId.ne_iff_eq_peer.mp hb ▸ hpeer

section Masks

variable (f g : CoreId → Bool) (c : CoreId)

@[simp] theorem getLsbD_maskOf : (maskOf f).getLsbD c = f c := by
  have h : ∀ x y : Bool, ((if x then 1#8 else 0#8) ||| (if y then 2#8 else 0#8)).getLsbD 0 = x ∧
      ((if x then 1#8 else 0#8) ||| (if y then 2#8 else 0#8)).getLsbD 1 = y := by decide
  rcases CoreId.eq_zero_or_one c with rfl | rfl
  · exact (h _ _).1
  · exact (h _ _).2

theorem maskOf_eq_iff : maskOf f = maskOf g ↔ ∀ c, f c = g c := by
  constructor
  · intro h c
    rw [← getLsbD_maskOf f c, h, getLsbD_maskOf]
  · intro h
    rw [funext h]

@[simp] theorem maskOf_false : maskOf (fun _ => false) = 0 := by decide

@[simp] theorem maskOf_eq_zero : maskOf f = 0 ↔ ∀ c, f c = false := by
  rw [← maskOf_false, maskOf_eq_iff]

theorem maskOf_or : maskOf f ||| maskOf g = maskOf fun c => f c || g c := by
  have h : ∀ x y z w : Bool,
      ((if x then 1#8 else 0#8) ||| (if y then 2#8 else 0#8)) |||
        ((if z then 1#8 else 0#8) ||| (if w then 2#8 else 0#8)) =
      ((if x || z then 1#8 else 0#8) ||| (if y || w then 2#8 else 0#8)) := by decide
  exact h _ _ _ _

theorem maskOf_and_not :
    maskOf f &&& ~~~maskOf g = maskOf fun c => f c && !g c := by
  have h : ∀ x y z w : Bool,
      ((if x then 1#8 else 0#8) ||| (if y then 2#8 else 0#8)) &&&
        ~~~((if z then 1#8 else 0#8) ||| (if w then 2#8 else 0#8)) =
      ((if x && !z then 1#8 else 0#8) ||| (if y && !w then 2#8 else 0#8)) := by decide
  exact h _ _ _ _

theorem coreBit_eq_maskOf : coreBit c = maskOf fun b => decide (b = c) := by
  revert c
  decide

theorem maskOf_or_coreBit : maskOf f ||| coreBit c = maskOf (Function.update f c true) := by
  rw [coreBit_eq_maskOf, maskOf_or, maskOf_eq_iff]
  intro b
  by_cases hb : b = c <;> simp [hb]

theorem maskOf_and_not_coreBit :
    maskOf f &&& ~~~coreBit c = maskOf (Function.update f c false) := by
  rw [coreBit_eq_maskOf, maskOf_and_not, maskOf_eq_iff]
  intro b
  by_cases hb : b = c <;> simp [hb]

end Masks

section Loop

variable {σ : Type} (body : CoreId → σ → Except Fault σ) (s : σ)

theorem forEachSharer_zero : forEachSharer body 8 0 s = .ok s := by
  simp [forEachSharer]

theorem forEachSharer_one (c : CoreId) : forEachSharer body 8 (coreBit c) s = body c s := by
  have hone : ∀ c : CoreId, coreBit c ≠ 0 ∧ countrZero (coreBit c) = c ∧
      coreBit c &&& (coreBit c - 1) = 0 := by decide
  obtain ⟨hne, hctz, hrest⟩ := hone c
  have hlt : countrZero (coreBit c) < 2 := hctz ▸ c.isLt
  have hc : (⟨countrZero (coreBit c), hlt⟩ : CoreId) = c := Fin.ext hctz
  unfold forEachSharer
  rw [if_neg hne, dif_pos hlt, hc, hrest]
  cases body c s with
  | error e => rfl
  | ok t => simp [forEachSharer, bind, Except.bind]

theorem forEachSharer_three : forEachSharer body 8 3#8 s = body 0 s >>= body 1 := by
  have hlt : countrZero 3#8 < 2 := by decide
  have hc : (⟨countrZero 3#8, hlt⟩ : CoreId) = 0 := rfl
  have hrest : 3#8 &&& (3#8 - 1) = coreBit 1 := by decide
  unfold forEachSharer
  rw [if_neg (by decide), dif_pos hlt, hc, hrest]
  cases body 0 s with
  | error e => rfl
  | ok t =>
      have h := forEachSharer_one body t 1
      unfold forEachSharer at h
      simp only [bind, Except.bind]
      rw [← h]
      rfl

/-- The rule of the loop: an assertion for the start, one for after the round of
core 0 and one for the end. A core that is not in the mask has no round. -/
theorem forEachSharer_sat {f : CoreId → Bool} {P Q R : σ → Prop} {F : Fault → Prop}
    (h0 : ∀ t, P t → if f 0 then (body 0 t).Sat Q F else Q t)
    (h1 : ∀ t, Q t → if f 1 then (body 1 t).Sat R F else R t) (hs : P s) :
    (forEachSharer body 8 (maskOf f) s).Sat R F := by
  have hfirst := h0 s hs
  cases hf0 : f 0 with
  | false =>
      rw [hf0] at hfirst
      have hsecond := h1 s hfirst
      cases hf1 : f 1 with
      | false =>
          have hmask : maskOf f = 0 := by simp [maskOf, hf0, hf1]
          rw [hf1] at hsecond
          rw [hmask, forEachSharer_zero]
          exact hsecond
      | true =>
          have hmask : maskOf f = coreBit 1 := by simp [maskOf, hf0, hf1, coreBit]
          rw [hf1] at hsecond
          rw [hmask, forEachSharer_one]
          exact hsecond
  | true =>
      rw [hf0] at hfirst
      cases hf1 : f 1 with
      | false =>
          have hmask : maskOf f = coreBit 0 := by simp [maskOf, hf0, hf1, coreBit]
          rw [hmask, forEachSharer_one]
          refine Except.Sat.imp hfirst fun t ht => ?_
          have hsecond := h1 t ht
          rwa [hf1] at hsecond
      | true =>
          have hmask : maskOf f = 3#8 := by simp [maskOf, hf0, hf1]
          rw [hmask, forEachSharer_three]
          refine Except.Sat.bind hfirst fun t ht => ?_
          have hsecond := h1 t ht
          rwa [hf1] at hsecond

/-- The loop over the sharers other than `c`: at most one round, for the peer. -/
theorem forEachSharer_peer {f : CoreId → Bool} (c : CoreId) :
    forEachSharer body 8 (maskOf (Function.update f c false)) s =
      if f (CoreId.peer c) then body (CoreId.peer c) s else .ok s := by
  have hpeer : maskOf (Function.update f c false) =
      if f (CoreId.peer c) then coreBit (CoreId.peer c) else 0 := by
    rw [coreBit_eq_maskOf, ← maskOf_false, ← apply_ite maskOf, maskOf_eq_iff,
      CoreId.forall_iff c]
    cases hf : f (CoreId.peer c) <;> simp [hf]
  rw [hpeer]
  cases f (CoreId.peer c) with
  | false => exact forEachSharer_zero body s
  | true => exact forEachSharer_one body s _

end Loop

end CacheSimulator
