import CacheSimulator.Library.Outcome
import Mathlib.Data.List.Basic

/-!
# Playing a recording forwards and backwards

A recording is a list of events, each with a key. A player keeps the events it
has played, the events to come, and the state they have led to. It moves by
steps: forwards over the next events as long as their keys agree, and backwards
over the last events as long as their keys agree. Playing an event may fail.

The two rules reduce a property of every position of a player to a property of
one event, played forwards or taken back.
-/

namespace Rewind

variable {E S ε : Type} {K : Type*} [DecidableEq K]

structure Player (E S : Type) where
  past : List E
  future : List E
  state : S

section Steps

variable (key : E → K)

/-- The first events, as long as their keys agree. -/
def firstStep : List E → List E
  | [] => []
  | e :: es => (e :: es).takeWhile fun x => key x = key e

/-- The last events, as long as their keys agree. -/
def lastStep (es : List E) : List E := (firstStep key es.reverse).reverse

theorem firstStep_isPrefix (es : List E) : firstStep key es <+: es := by
  cases es with
  | nil => exact List.prefix_refl _
  | cons e es => exact List.takeWhile_prefix _

theorem lastStep_isSuffix (es : List E) : lastStep key es <:+ es := by
  have h := List.reverse_suffix.mpr (firstStep_isPrefix key es.reverse)
  rwa [List.reverse_reverse] at h

theorem firstStep_cons (e : E) (es : List E) :
    firstStep key (e :: es) = e :: es.takeWhile fun x => key x = key e := by
  simp [firstStep]

/-- Events with one key, before an event with another one, are a step. -/
theorem firstStep_append {e : E} {es rest : List E} (he : ∀ x ∈ e :: es, key x = key e)
    (hrest : ∀ x ∈ rest.head?, key x ≠ key e) : firstStep key (e :: es ++ rest) = e :: es := by
  have hes : ∀ x ∈ es, decide (key x = key e) = true := fun x hx =>
    decide_eq_true (he x (List.mem_cons_of_mem _ hx))
  rw [List.cons_append, firstStep_cons, List.takeWhile_append_of_pos hes]
  cases rest with
  | nil => simp
  | cons x rest => simp [hrest x rfl]

theorem firstStep_group {group rest : List E} {k : K} (hne : group ≠ [])
    (hkey : ∀ x ∈ group, key x = k)
    (hrest : ∀ x ∈ rest.head?, key x ≠ k) : firstStep key (group ++ rest) = group := by
  obtain ⟨e, es, rfl⟩ := List.exists_cons_of_ne_nil hne
  have he : key e = k := hkey e List.mem_cons_self
  refine firstStep_append key (fun x hx => (hkey x hx).trans he.symm) fun x hx => ?_
  rw [he]
  exact hrest x hx

/-- Events with one key, after an event with another one, are a step. -/
theorem lastStep_group {before group : List E} {k : K} (hne : group ≠ [])
    (hkey : ∀ x ∈ group, key x = k)
    (hbefore : ∀ x ∈ before.getLast?, key x ≠ k) : lastStep key (before ++ group) = group := by
  rw [lastStep, List.reverse_append, firstStep_group key (by simpa using hne)
    (fun x hx => hkey x (List.mem_reverse.mp hx))
    fun x hx => hbefore x (by rwa [List.head?_reverse] at hx),
    List.reverse_reverse]

/-- The events of the next step have one key, and the event after them another. -/
theorem exists_firstStep {es : List E} (h : es ≠ []) : ∃ k group rest, es = group ++ rest ∧
    firstStep key es = group ∧ group ≠ [] ∧ (∀ x ∈ group, key x = k) ∧
      ∀ x ∈ rest.head?, key x ≠ k := by
  obtain ⟨e, es, rfl⟩ := List.exists_cons_of_ne_nil h
  refine ⟨key e, e :: es.takeWhile fun x => key x = key e, es.dropWhile fun x => key x = key e, ?_,
    firstStep_cons key e es, by simp, fun x hx => ?_, fun x hx => ?_⟩
  · rw [List.cons_append, List.takeWhile_append_dropWhile]
  · rcases List.mem_cons.mp hx with rfl | hx
    · rfl
    · have hall := List.all_takeWhile (p := fun x => decide (key x = key e)) (l := es)
      exact of_decide_eq_true (List.all_eq_true.mp hall x hx)
  · have hnot := List.head?_dropWhile_not (fun x => decide (key x = key e)) es
    rw [Option.mem_def] at hx
    rw [hx] at hnot
    exact of_decide_eq_false hnot

/-- The events of the last step have one key, and the event before them another. -/
theorem exists_lastStep {es : List E} (h : es ≠ []) : ∃ k before group, es = before ++ group ∧
    lastStep key es = group ∧ group ≠ [] ∧ (∀ x ∈ group, key x = k) ∧
      ∀ x ∈ before.getLast?, key x ≠ k := by
  obtain ⟨k, group, rest, hsplit, hstep, hne, hkey, hrest⟩ :=
    exists_firstStep key (List.reverse_ne_nil_iff.mpr h)
  refine ⟨k, rest.reverse, group.reverse, ?_, by rw [lastStep, hstep], by simpa using hne,
    fun x hx => hkey x (List.mem_reverse.mp hx),
    fun x hx => hrest x (by rwa [List.getLast?_reverse] at hx)⟩
  rw [← List.reverse_append, ← hsplit, List.reverse_reverse]

end Steps

/-! ## Positions -/

section Positions

variable (key : E → K) (es : List E) (n : ℕ)

def positionAfter : ℕ := n + (firstStep key (es.drop n)).length

def positionBefore : ℕ := n - (lastStep key (es.take n)).length

end Positions

/-! ## The next event of a kind -/

section Next

variable {P Q : E → Prop} [DecidablePred P] [DecidablePred Q] {es pre added : List E} {e : E}
  {n k : ℕ}

variable (P) in
def nextFrom (es : List E) (n : ℕ) : Option ℕ := ((es.drop n).findIdx? (P ·)).map (n + ·)

theorem nextFrom_of_isPrefix (h : pre ++ [e] <+: es) : nextFrom P es pre.length =
    if P e then some pre.length else nextFrom P es (pre.length + 1) := by
  obtain ⟨rest, rfl⟩ := h
  have hdrop : (pre ++ [e] ++ rest).drop pre.length = e :: rest := by
    rw [List.append_assoc, List.drop_left, List.singleton_append]
  have hnext : (pre ++ [e] ++ rest).drop (pre.length + 1) = rest := by
    rw [← List.length_singleton (a := e), ← List.length_append, List.drop_left]
  rw [nextFrom, nextFrom, hdrop, hnext, List.findIdx?_cons]
  by_cases he : P e
  · simp [he]
  · simp only [he, decide_false, Bool.false_eq_true, if_false, Option.map_map]
    refine congrArg (Option.map · _) (funext fun i => ?_)
    exact Nat.add_right_comm pre.length i 1

/-- Events that do not satisfy `P` can be skipped. -/
theorem nextFrom_append (h : pre ++ added <+: es) (hadded : ∀ x ∈ added, ¬P x) :
    nextFrom P es (pre ++ added).length = nextFrom P es pre.length := by
  induction added generalizing pre with
  | nil => rw [List.append_nil]
  | cons x added ih =>
      have hsplit : pre ++ x :: added = pre ++ [x] ++ added := by simp
      rw [hsplit] at h ⊢
      rw [ih h fun y hy => hadded y (List.mem_cons_of_mem _ hy),
        nextFrom_of_isPrefix ((List.prefix_append _ _).trans h),
        if_neg (hadded x List.mem_cons_self),
        List.length_append, List.length_singleton]

theorem exists_of_nextFrom (h : nextFrom P es n = some k) : n ≤ k ∧ ∃ x, es[k]? = some x ∧ P x := by
  obtain ⟨i, hi, rfl⟩ := Option.map_eq_some_iff.mp h
  obtain ⟨hlt, hP, -⟩ := List.findIdx?_eq_some_iff_getElem.mp hi
  rw [List.length_drop] at hlt
  rw [List.getElem_drop] at hP
  exact ⟨Nat.le_add_right _ _, _, List.getElem?_eq_getElem (by omega), of_decide_eq_true hP⟩

theorem nextFrom_congr (h : ∀ x, P x ↔ Q x) : nextFrom P es n = nextFrom Q es n := by
  simp only [nextFrom, h]

end Next

namespace Player

variable (key : E → K) (redo undo : S → E → Except ε S) (p : Player E S)

def forward : Except ε (Player E S) := do
  let s ← (firstStep key p.future).foldlM redo p.state
  .ok ⟨p.past ++ firstStep key p.future, p.future.drop (firstStep key p.future).length, s⟩

def backward : Except ε (Player E S) := do
  let s ← (lastStep key p.past).reverse.foldlM undo p.state
  .ok ⟨p.past.take (p.past.length - (lastStep key p.past).length),
    lastStep key p.past ++ p.future, s⟩

/-- A forward step plays the next events with one key. -/
theorem forward_group {past group rest : List E} {s s' : S} {k : K} (hne : group ≠ [])
    (hkey : ∀ e ∈ group, key e = k) (hrest : ∀ e ∈ rest.head?, key e ≠ k)
    (hplay : group.foldlM redo s = .ok s') :
    Player.forward key redo ⟨past, group ++ rest, s⟩ = .ok ⟨past ++ group, rest, s'⟩ := by
  cases group with
  | nil => exact absurd rfl hne
  | cons e es =>
      have he : key e = k := hkey e List.mem_cons_self
      have hstep : firstStep key (e :: es ++ rest) = e :: es := by
        refine firstStep_append key (fun x hx => ?_) fun x hx => ?_
        · rw [hkey x hx, he]
        · rw [he]
          exact hrest x hx
      simp only [Player.forward, hstep, hplay, Except.ok_bind, List.drop_left]

variable {redo undo p} {p' p'' : Player E S}

theorem past_forward (h : p.forward key redo = .ok p') :
    p'.past = p.past ++ firstStep key p.future ∧
    p'.future = p.future.drop (firstStep key p.future).length := by
  unfold Player.forward at h
  cases hplay : (firstStep key p.future).foldlM redo p.state with
  | error e =>
      rw [hplay] at h
      cases h
  | ok s =>
      rw [hplay, Except.ok_bind, Except.ok.injEq] at h
      subst h
      exact ⟨rfl, rfl⟩

theorem past_backward (h : p.backward key undo = .ok p') :
    p'.past = p.past.take (p.past.length - (lastStep key p.past).length) ∧
      p'.future = lastStep key p.past ++ p.future := by
  unfold Player.backward at h
  cases hplay : (lastStep key p.past).reverse.foldlM undo p.state with
  | error e =>
      rw [hplay] at h
      cases h
  | ok s =>
      rw [hplay, Except.ok_bind, Except.ok.injEq] at h
      subst h
      exact ⟨rfl, rfl⟩

theorem position_forward (h : p.forward key redo = .ok p') :
    p'.past.length = positionAfter key (p.past ++ p.future) p.past.length := by
  rw [(past_forward key h).1, positionAfter, List.drop_left, List.length_append]

theorem position_backward (h : p.backward key undo = .ok p') :
    p'.past.length = positionBefore key (p.past ++ p.future) p.past.length := by
  rw [(past_backward key h).1, positionBefore, List.take_left, List.length_take,
    Nat.min_eq_left (Nat.sub_le _ _)]

variable (p) in
/-- The last event played and the next one have different keys. -/
def AtBoundary : Prop := ∀ x ∈ p.past.getLast?, ∀ y ∈ p.future.head?, key x ≠ key y

variable {key}

theorem atBoundary_forward (h : p.forward key redo = .ok p') : p'.AtBoundary key := by
  obtain ⟨hpast, hfuture⟩ := past_forward key h
  by_cases hnil : p.future = []
  · rw [hnil, List.drop_nil] at hfuture
    intro x _ y hy
    rw [hfuture] at hy
    cases hy
  · obtain ⟨k, group, rest, hsplit, hstep, hne, hkey, hrest⟩ := exists_firstStep key hnil
    rw [hstep] at hpast hfuture
    rw [hsplit, List.drop_left] at hfuture
    intro x hx y hy
    rw [hpast, List.getLast?_append_of_ne_nil _ hne] at hx
    rw [hfuture] at hy
    rw [hkey x (List.mem_of_getLast? hx)]
    exact (hrest y hy).symm

theorem atBoundary_backward (h : p.backward key undo = .ok p') : p'.AtBoundary key := by
  obtain ⟨hpast, hfuture⟩ := past_backward key h
  by_cases hnil : p.past = []
  · rw [hnil, List.take_nil] at hpast
    intro x hx
    rw [hpast] at hx
    cases hx
  · obtain ⟨k, before, group, hsplit, hstep, hne, hkey, hbefore⟩ := exists_lastStep key hnil
    rw [hstep] at hpast hfuture
    rw [hsplit, List.length_append, Nat.add_sub_cancel, List.take_left] at hpast
    intro x hx y hy
    rw [hpast] at hx
    rw [hfuture, List.head?_append_of_ne_nil _ hne] at hy
    rw [hkey y (List.mem_of_mem_head? hy)]
    exact hbefore x hx

/-- A backward step returns to where a forward step has left. -/
theorem AtBoundary.backward_forward (hp : p.AtBoundary key) (h : p.forward key redo = .ok p')
    (hmoved : p.future ≠ []) (h' : p'.backward key undo = .ok p'') : p''.past = p.past := by
  obtain ⟨hpast, -⟩ := past_forward key h
  obtain ⟨hpast', -⟩ := past_backward key h'
  obtain ⟨k, group, rest, hsplit, hstep, hne, hkey, -⟩ := exists_firstStep key hmoved
  have hlast : ∀ x ∈ p.past.getLast?, key x ≠ k := by
    intro x hx
    obtain ⟨y, tail, rfl⟩ := List.exists_cons_of_ne_nil hne
    rw [← hkey y List.mem_cons_self]
    exact hp x hx y (by simp [hsplit])
  rw [hstep] at hpast
  rw [hpast', hpast, lastStep_group key hne hkey hlast, List.length_append, Nat.add_sub_cancel,
    List.take_left]

/-- A forward step returns to where a backward step has left. -/
theorem AtBoundary.forward_backward (hp : p.AtBoundary key) (h : p.backward key undo = .ok p')
    (hmoved : p.past ≠ []) (h' : p'.forward key redo = .ok p'') : p''.past = p.past := by
  obtain ⟨hpast, hfuture⟩ := past_backward key h
  obtain ⟨hpast', -⟩ := past_forward key h'
  obtain ⟨k, before, group, hsplit, hstep, hne, hkey, -⟩ := exists_lastStep key hmoved
  have hnext : ∀ y ∈ p.future.head?, key y ≠ k := by
    intro y hy
    obtain ⟨init, x, rfl⟩ := (List.eq_nil_or_concat' group).resolve_left hne
    rw [← hkey x (by simp)]
    exact (hp x (by simp [hsplit]) y hy).symm
  rw [hstep] at hpast hfuture
  rw [hpast', hfuture, firstStep_group key hne hkey hnext, hpast, hsplit, List.length_append,
    Nat.add_sub_cancel, List.take_left]

end Player

section Rules

variable {key : E → K} {redo undo : S → E → Except ε S} {F : ε → Prop}

theorem foldlM_redo_sat {Good : List E → S → Prop} {past : List E} {s : S} (es : List E)
    (h : ∀ pre e post s, es = pre ++ e :: post → Good (past ++ pre) s →
      (redo s e).Sat (Good (past ++ pre ++ [e])) F) (hs : Good past s) :
    (es.foldlM redo s).Sat (Good (past ++ es)) F := by
  induction es generalizing past s with
  | nil => rwa [List.append_nil]
  | cons e es ih =>
      rw [List.foldlM_cons]
      have hfirst := h [] e es s rfl (by rwa [List.append_nil])
      rw [List.append_nil] at hfirst
      refine hfirst.bind fun s' hs' => ?_
      have htail : ∀ pre x post t, es = pre ++ x :: post → Good (past ++ [e] ++ pre) t →
          (redo t x).Sat (Good (past ++ [e] ++ pre ++ [x])) F := by
        intro pre x post t hsplit ht
        have hx := h (e :: pre) x post t (by rw [hsplit, List.cons_append])
        simp only [List.append_assoc, List.cons_append, List.nil_append] at hx ht ⊢
        exact hx ht
      have hrest := ih htail hs'
      rwa [List.append_assoc, List.singleton_append] at hrest

theorem foldlM_undo_sat {Good : List E → S → Prop} {past : List E} (es : List E) {s : S}
    (h : ∀ (pre : List E) e (post : List E) s, es = post ++ e :: pre.reverse →
      Good (past ++ pre ++ [e]) s → (undo s e).Sat (Good (past ++ pre)) F)
    (hs : Good (past ++ es.reverse) s) : (es.foldlM undo s).Sat (Good past) F := by
  induction es generalizing s with
  | nil => rwa [List.reverse_nil, List.append_nil] at hs
  | cons e es ih =>
      rw [List.foldlM_cons]
      rw [List.reverse_cons, ← List.append_assoc] at hs
      refine (h es.reverse e [] s (by simp) hs).bind fun s' hs' => ?_
      exact ih (fun pre x post t hsplit =>
        h pre x (e :: post) t (by rw [hsplit, List.cons_append])) hs'

namespace Player

/-- The player is at a position of the recording, in a state that is good for the
events it has played. -/
structure At (Good : List E → S → Prop) (es : List E) (p : Player E S) : Prop where
  events : p.past ++ p.future = es
  good : Good p.past p.state

variable {Good : List E → S → Prop} {es : List E} {p : Player E S}

variable (key redo undo)

theorem forward_sat (hp : p.At Good es)
    (h : ∀ pre e s, pre ++ [e] <+: es → Good pre s → (redo s e).Sat (Good (pre ++ [e])) F) :
    (p.forward key redo).Sat (At Good es) F := by
  obtain ⟨rest, hrest⟩ := firstStep_isPrefix key p.future
  have hdrop : p.future.drop (firstStep key p.future).length = rest := by
    conv_lhs => arg 2; rw [← hrest]
    exact List.drop_left
  have hplay : ((firstStep key p.future).foldlM redo p.state).Sat
      (Good (p.past ++ firstStep key p.future)) F := by
    refine foldlM_redo_sat _ (fun pre e post s hsplit hs => h _ e s ?_ hs) hp.good
    refine ⟨post ++ rest, ?_⟩
    rw [← hp.events, ← hrest, hsplit]
    simp
  refine hplay.bind fun s hs => ⟨?_, hs⟩
  rw [hdrop, List.append_assoc, hrest, hp.events]

theorem forward_future_length :
    (p.forward key redo).Sat (fun p' => p'.future.length ≤ p.future.length - 1) fun _ => True := by
  have hany : ((firstStep key p.future).foldlM redo p.state).Sat (fun _ => True) fun _ => True :=
    Except.sat_iff.mpr ⟨fun _ _ => trivial, fun _ _ => trivial⟩
  refine hany.bind fun s _ => ?_
  cases hfuture : p.future with
  | nil => simp
  | cons e es => simp [firstStep_cons]

theorem backward_sat (hp : p.At Good es)
    (h : ∀ pre e s, pre ++ [e] <+: es →
      positionBefore key es p.past.length ≤ pre.length ∧ pre.length < p.past.length →
        Good (pre ++ [e]) s → (undo s e).Sat (Good pre) F) :
    (p.backward key undo).Sat (At Good es) F := by
  obtain ⟨before, hbefore⟩ := lastStep_isSuffix key p.past
  have hlength := congrArg List.length hbefore
  rw [List.length_append] at hlength
  have htake : p.past.take (p.past.length - (lastStep key p.past).length) = before := by
    rw [← hlength, Nat.add_sub_cancel]
    conv_lhs => arg 2; rw [← hbefore]
    exact List.take_left
  have hgood : Good (before ++ (lastStep key p.past).reverse.reverse) p.state := by
    rw [List.reverse_reverse, hbefore]
    exact hp.good
  have hplay : ((lastStep key p.past).reverse.foldlM undo p.state).Sat (Good before) F := by
    refine foldlM_undo_sat _ (fun pre e post s hsplit hs => h _ e s ?_ ?_ hs) hgood
    · have hstep : lastStep key p.past = pre ++ e :: post.reverse := by
        rw [← List.reverse_reverse (lastStep key p.past), hsplit]
        simp
      refine ⟨post.reverse ++ p.future, ?_⟩
      rw [← hp.events, ← hbefore, hstep]
      simp
    · have hcount := congrArg List.length hsplit
      rw [List.length_reverse, List.length_append, List.length_cons, List.length_reverse] at hcount
      rw [positionBefore, ← hp.events, List.take_left, List.length_append]
      omega
  refine hplay.bind fun s hs => ⟨?_, ?_⟩
  · rw [htake, ← List.append_assoc, hbefore, hp.events]
  · rw [htake]
    exact hs

end Player

end Rules

end Rewind
