import CacheSimulator.Library.Mesi.System

/-!
# Lines that stay

In a run that brings no line in twice, and none that was there before, the tracked value
of a line of the second level is told by the two ends of the run: it is the value the
line had at the start, or that of memory if the line was not there, with the stores of
the run.
-/

namespace Mesi

namespace System

variable {ι κ δ ω : Type*}

def entering (es : List (ι × Action κ ω)) : List ι :=
  es.filterMap fun e => if e.2.Enters then some e.1 else none

def storesTo [DecidableEq ι] (a : ι) (es : List (ι × Action κ ω)) : List ω :=
  es.filterMap fun e => if e.1 = a then e.2.stored else none

theorem entering_append (es fs : List (ι × Action κ ω)) :
    entering (es ++ fs) = entering es ++ entering fs :=
  List.filterMap_append

theorem entering_singleton (e : ι × Action κ ω) :
    entering [e] = if e.2.Enters then [e.1] else [] := by
  unfold entering
  by_cases henters : e.2.Enters
  · simp [henters]
  · simp [henters]

theorem entering_eq_nil {es : List (ι × Action κ ω)} (h : ∀ e ∈ es, ¬e.2.Enters) :
    entering es = [] :=
  List.filterMap_eq_nil_iff.mpr fun e he => if_neg (h e he)

theorem mem_entering {a : ι} {es : List (ι × Action κ ω)} :
    a ∈ entering es ↔ ∃ e ∈ es, e.1 = a ∧ e.2.Enters := by
  unfold entering
  rw [List.mem_filterMap]
  refine exists_congr fun e => and_congr_right fun _ => ?_
  by_cases henters : e.2.Enters
  · simp [henters]
  · simp [henters]

variable [DecidableEq ι] {act : ω → δ → δ} {a b : ι} {e : ι × Action κ ω}
  {es fs : List (ι × Action κ ω)}

theorem storesTo_append : storesTo a (es ++ fs) = storesTo a es ++ storesTo a fs :=
  List.filterMap_append

theorem storesTo_singleton (α : Action κ ω) :
    storesTo b [(a, α)] = if b = a then α.stored.toList else [] := by
  unfold storesTo
  by_cases hb : b = a
  · subst hb
    cases hstored : α.stored <;> simp [hstored]
  · simp [hb, Ne.symm hb]

theorem storesTo_eq_nil (h : ∀ e ∈ es, e.2.stored = none) : storesTo a es = [] :=
  List.filterMap_eq_nil_iff.mpr fun e he => by simp [h e he]

theorem mem_storesTo {w : ω} (he : e ∈ es) (hw : e.2.stored = some w) : w ∈ storesTo e.1 es :=
  List.mem_filterMap.mpr ⟨e, he, by simpa using hw⟩

theorem storesTo_cons_of_ne (h : e.1 ≠ a) : storesTo a (e :: es) = storesTo a es :=
  List.filterMap_cons_none (if_neg h)

theorem foldl_storesTo_cons (v : δ) : (storesTo e.1 (e :: es)).foldl (fun v w => act w v) v =
    (storesTo e.1 es).foldl (fun v w => act w v) (Mesi.flat act e.2 v) := by
  unfold storesTo Mesi.flat
  cases hstored : e.2.stored with
  | none => rw [List.filterMap_cons_none (by simpa using hstored)]
  | some w => rw [List.filterMap_cons_some (by simpa using hstored), List.foldl_cons]

variable [DecidableEq κ] {σ σ' : System ι κ δ}

/-- The tracked value of a line that does not enter follows its stores. -/
theorem Run.tracked_of_stays (hr : Run act σ es σ') (ha : a ∉ entering es) :
    σ'.tracked a = (storesTo a es).foldl (fun v w => act w v) (σ.tracked a) := by
  induction hr with
  | nil σ => rfl
  | @cons σ σ₁ σ₂ e es hs hr ih =>
      have hrest : a ∉ entering es := fun h => by
        obtain ⟨e', he', hentered⟩ := mem_entering.mp h
        exact ha (mem_entering.mpr ⟨e', List.mem_cons_of_mem _ he', hentered⟩)
      rw [ih hrest, hs.tracked]
      by_cases hae : e.1 = a
      · subst hae
        have hnot : ¬e.2.Enters := fun henters =>
          ha (mem_entering.mpr ⟨e, List.mem_cons_self, rfl, henters⟩)
        rw [Function.update_self, track, if_neg hnot, foldl_storesTo_cons]
      · rw [Function.update_of_ne (Ne.symm hae), storesTo_cons_of_ne hae]

/-- The tracked value of a line that enters once starts as the value of memory. -/
theorem Run.tracked_of_enters (h : Coherent σ) (hr : Run act σ es σ')
    (hnone : (σ.lines a).l2 = none) (hnodup : (entering es).Nodup) (hl : (σ'.lines a).l2 ≠ none) :
    σ'.tracked a = (storesTo a es).foldl (fun v w => act w v) (σ.lines a).mem := by
  induction hr with
  | nil σ => exact absurd hnone hl
  | @cons σ σ₁ σ₂ e es hs hr ih =>
      by_cases hae : e.1 = a
      · subst hae
        have henters : e.2.Enters := by
          by_contra hnot
          exact hs.move.l2_ne_none_of_not_enters (h.coherent _) hnot hnone
        have hcons : entering (e :: es) = e.1 :: entering es :=
          List.filterMap_cons_some (if_pos henters)
        rw [hcons, List.nodup_cons] at hnodup
        rw [hr.tracked_of_stays hnodup.1, hs.tracked, Function.update_self, track, if_pos henters,
          foldl_storesTo_cons]
      · have hframe := hs.frame a (Ne.symm hae)
        have hrest : (entering es).Nodup := by
          exact hnodup.sublist ((List.sublist_cons_self e es).filterMap _)
        rw [← hframe] at hnone
        rw [ih (hs.coherent h) hnone hrest hl, hframe, storesTo_cons_of_ne hae]

/-- A line that was there and does not enter has not left. -/
theorem Run.tracked_eq (h : Coherent σ) (hr : Run act σ es σ') (hnodup : (entering es).Nodup)
    (habsent : ∀ b ∈ entering es, (σ.lines b).l2 = none) (hl : (σ'.lines a).l2 ≠ none) :
    σ'.tracked a = (storesTo a es).foldl (fun v w => act w v)
      (if (σ.lines a).l2 = none then (σ.lines a).mem else σ.tracked a) := by
  split
  · rename_i hnone
    exact hr.tracked_of_enters h hnone hnodup hl
  · rename_i hne
    exact hr.tracked_of_stays fun hmem => hne (habsent a hmem)

end System

end Mesi
