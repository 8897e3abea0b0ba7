import CacheSimulator.Library.Mesi.Histories

/-!
# All lines together
-/

namespace Mesi

variable {κ δ ω : Type*}

/-- The lines of a system, of index type `ι`, with their two histories. -/
structure System (ι κ δ : Type*) where
  lines : ι → LineState κ δ
  tracked : ι → δ
  flat : ι → δ

namespace System

variable {ι : Type*} [DecidableEq ι] [DecidableEq κ] (act : ω → δ → δ)

/-- One line moves, and the histories follow. -/
structure Step (σ : System ι κ δ) (e : ι × Action κ ω) (σ' : System ι κ δ) : Prop where
  move : Mesi.Step act (σ.lines e.1) e.2 (σ'.lines e.1)
  frame : ∀ b, b ≠ e.1 → σ'.lines b = σ.lines b
  tracked : σ'.tracked =
    Function.update σ.tracked e.1 (track act e.2 (σ.lines e.1).mem (σ.tracked e.1))
  flat : σ'.flat = Function.update σ.flat e.1 (Mesi.flat act e.2 (σ.flat e.1))

inductive Run : System ι κ δ → List (ι × Action κ ω) → System ι κ δ → Prop
  | nil (σ : System ι κ δ) : Run σ [] σ
  | cons {σ σ' σ'' : System ι κ δ} {e : ι × Action κ ω} {es : List (ι × Action κ ω)} :
      Step act σ e σ' → Run σ' es σ'' → Run σ (e :: es) σ''

variable {act} {σ σ' σ'' : System ι κ δ} {e : ι × Action κ ω} {es fs : List (ι × Action κ ω)}

theorem Run.append (h : Run act σ es σ') (h' : Run act σ' fs σ'') : Run act σ (es ++ fs) σ'' := by
  induction h with
  | nil σ => exact h'
  | cons hs hr ih => exact .cons hs (ih h')

theorem Step.run (h : Step act σ e σ') : Run act σ [e] σ' := .cons h (.nil σ')

/-- Every line is coherent, and every line in the second level has its tracked
value. -/
structure Coherent (σ : System ι κ δ) : Prop where
  coherent : ∀ a, Mesi.Coherent (σ.lines a)
  value : ∀ a, (σ.lines a).l2 ≠ none → (σ.lines a).Authoritative (σ.tracked a)

omit [DecidableEq ι] [DecidableEq κ] in
theorem Coherent.eq_tracked (h : Coherent σ) {a : ι} {u : δ}
    (hu : (σ.lines a).Authoritative u) : u = σ.tracked a := by
  have hl : (σ.lines a).l2 ≠ none := fun hn =>
    LineState.authoritative_of_l2_none (h.coherent a).toSound hn hu
  exact LineState.authoritative_unique (h.coherent a).toSound hu (h.value a hl)

theorem Step.coherent (h : Coherent σ) (hs : Step act σ e σ') : Coherent σ' := by
  constructor
  · intro a
    by_cases ha : a = e.1
    · rw [ha]
      exact hs.move.coherent (h.coherent _)
    · rw [hs.frame a ha]
      exact h.coherent a
  · intro a
    rw [hs.tracked]
    by_cases ha : a = e.1
    · rw [ha, Function.update_self]
      exact hs.move.authoritative (h.coherent _) fun _ => h.eq_tracked
    · rw [Function.update_of_ne ha, hs.frame a ha]
      exact h.value a

theorem Run.coherent (h : Coherent σ) (hr : Run act σ es σ') : Coherent σ' := by
  induction hr with
  | nil σ => exact h
  | cons hs hr ih => exact ih (hs.coherent h)

/-- A line that is in the second level at the end was there, or has come in. -/
theorem Run.entered (h : Coherent σ) (hr : Run act σ es σ') {a : ι} (ha : (σ'.lines a).l2 ≠ none) :
    (σ.lines a).l2 ≠ none ∨ ∃ e ∈ es, e.1 = a ∧ e.2.Enters := by
  induction hr with
  | nil σ => exact .inl ha
  | @cons σ σ₁ σ₂ e es hs hr ih =>
      rcases ih (hs.coherent h) ha with hne | ⟨e', he', hentered⟩
      · by_cases hae : a = e.1
        · subst hae
          by_cases henters : e.2.Enters
          · exact .inr ⟨e, List.mem_cons_self, rfl, henters⟩
          · exact .inl (hs.move.l2_ne_none_of_not_enters (h.coherent _) henters)
        · rw [hs.frame a hae] at hne
          exact .inl hne
      · exact .inr ⟨e', List.mem_cons_of_mem _ he', hentered⟩

theorem Run.flat_eq (hr : Run act σ es σ') (hes : ∀ e ∈ es, e.2.stored = none) :
    σ'.flat = σ.flat := by
  induction hr with
  | nil σ => rfl
  | cons hs hr ih =>
      rw [ih fun e he => hes e (List.mem_cons_of_mem _ he), hs.flat]
      simp [Mesi.flat, hes _ List.mem_cons_self]

/-- What no move but a store breaks is kept along a run that does not store to the
line. -/
theorem Run.keeps {Q : LineState κ δ → Prop} {a : ι}
    (hQ : ∀ {x x' : LineState κ δ} {α : Action κ ω}, Mesi.Coherent x → Mesi.Step act x α x' →
      α.stored = none → Q x → Q x')
    (h : Coherent σ) (hr : Run act σ es σ') (hes : ∀ e ∈ es, e.1 = a → e.2.stored = none)
    (ha : Q (σ.lines a)) : Q (σ'.lines a) := by
  induction hr with
  | nil σ => exact ha
  | @cons σ σ₁ σ₂ e es hs hr ih =>
      refine ih (hs.coherent h) (fun e he => hes e (List.mem_cons_of_mem _ he)) ?_
      by_cases hae : e.1 = a
      · subst hae
        exact hQ (h.coherent _) hs.move (hes e List.mem_cons_self rfl) ha
      · rw [hs.frame a (Ne.symm hae)]
        exact ha

/-- Only a store to a line makes its memory out of date. -/
theorem Run.not_dirty (h : Coherent σ) (hr : Run act σ es σ') {a : ι}
    (hes : ∀ e ∈ es, e.1 = a → e.2.stored = none) (ha : ¬(σ.lines a).Dirty) :
    ¬(σ'.lines a).Dirty :=
  hr.keeps (fun hx hs hα => hs.not_dirty hx hα) h hes ha

/-- The memory of a line that is not dirty changes only after a store to the line. -/
theorem Run.mem_eq (h : Coherent σ) (hr : Run act σ es σ') {a : ι}
    (hes : ∀ e ∈ es, e.1 = a → e.2.stored = none) (ha : ¬(σ.lines a).Dirty) :
    (σ'.lines a).mem = (σ.lines a).mem :=
  (hr.keeps (Q := fun x => ¬x.Dirty ∧ x.mem = (σ.lines a).mem)
    (fun hx hs hα hQ => ⟨hs.not_dirty hx hα hQ.1, (hs.mem_eq hQ.1).trans hQ.2⟩) h hes ⟨ha, rfl⟩).2

theorem Run.allIn (h : Coherent σ) (hr : Run act σ es σ') {a : ι} {P : δ → Prop}
    (hes : ∀ e ∈ es, e.1 = a → e.2.stored = none) (ha : (σ.lines a).AllIn P) :
    (σ'.lines a).AllIn P :=
  hr.keeps (fun _ hs hα => hs.allIn hα) h hes ha

/-- A system whose lines hold what a memory without caches would hold. -/
def Faithful (σ : System ι κ δ) : Prop := ∀ a, Mesi.Faithful (σ.lines a) (σ.flat a)

theorem Step.faithful (h : Coherent σ) (hf : Faithful σ) (hs : Step act σ e σ')
    (he : ¬e.2.Forgets) : Faithful σ' := by
  intro a
  rw [hs.flat]
  by_cases ha : a = e.1
  · rw [ha, Function.update_self]
    exact hs.move.faithful (h.coherent _) (hf _) he
  · rw [Function.update_of_ne ha, hs.frame a ha]
    exact hf a

/-- A run none of whose moves forgets a dirty line loses no value. -/
theorem Run.faithful (h : Coherent σ) (hf : Faithful σ) (hr : Run act σ es σ')
    (hes : ∀ e ∈ es, ¬e.2.Forgets) : Faithful σ' := by
  induction hr with
  | nil σ => exact hf
  | cons hs hr ih =>
      exact ih (hs.coherent h) (hs.faithful h hf (hes _ List.mem_cons_self))
        fun e he => hes e (List.mem_cons_of_mem _ he)

end System

end Mesi
