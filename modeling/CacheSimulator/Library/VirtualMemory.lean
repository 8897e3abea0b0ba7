import Mathlib.Data.List.Basic
import Mathlib.Data.List.OfFn
import Mathlib.Logic.Function.Basic

/-!
# Virtual memory

Processes with pages of their own. A page is mapped filled with one value, and the
cores load from and store to the pages of the processes they run. A run of such a
memory is, for each process, a run of a memory with that process alone.
-/

namespace VirtualMemory

/-! ## Pages -/

section Pages

variable {δ : Type*} {size : ℕ}

def load (page : Fin size → δ) (offset count : ℕ) : List δ :=
  ((List.ofFn page).drop offset).take count

def store (page : Fin size → δ) (offset : ℕ) (data : List δ) : Fin size → δ :=
  fun i => if offset ≤ i then (data[i - offset]?).getD (page i) else page i

theorem load_eq {page : Fin size → δ} (value : ℕ → δ) (h : ∀ i, page i = value i)
    {offset count : ℕ} (hin : offset + count ≤ size) :
    load page offset count = (List.range count).map fun j => value (offset + j) := by
  apply List.ext_getElem
  · simp only [load, List.length_take, List.length_drop, List.length_ofFn, List.length_map,
      List.length_range]
    omega
  · intro j hj _
    simp only [load, List.getElem_take, List.getElem_drop, List.getElem_ofFn, List.getElem_map,
      List.getElem_range]
    exact h _

end Pages

/-! ## Machines -/

variable {κ π υ δ : Type*} {size : ℕ}

/-- The process that each core runs, and the pages of every process. -/
structure State (κ π υ δ : Type*) (size : ℕ) where
  running : κ → π
  pages : π → υ → Option (Fin size → δ)

/-- What happens, and with what outcome: a request for a page, a switch of the cores to
a process, and the accesses of a core. -/
inductive Event (κ π υ δ : Type*) where
  | map (process : π) (page : υ) (mapped : Bool)
  | switch (process : π)
  | load (core : κ) (page : υ) (offset count : ℕ) (result : Option (List δ))
  | store (core : κ) (page : υ) (offset : ℕ) (data : List δ) (stored : Bool)
  deriving DecidableEq

namespace State

variable [DecidableEq π] [DecidableEq υ]

def setPage (m : State κ π υ δ size) (p : π) (u : υ) (page : Option (Fin size → δ)) :
    State κ π υ δ size :=
  { m with pages := Function.update m.pages p (Function.update (m.pages p) u page) }

/-- The memory after an event; new pages are filled with `fill`. -/
def after (fill : δ) (m : State κ π υ δ size) : Event κ π υ δ → State κ π υ δ size
  | .map p u true => m.setPage p u (some fun _ => fill)
  | .map _ _ false => m
  | .switch p => { m with running := fun _ => p }
  | .load _ _ _ _ _ => m
  | .store c u offset data _ =>
      m.setPage (m.running c) u ((m.pages (m.running c) u).map fun page =>
        VirtualMemory.store page offset data)

/-- The outcome is the one that the memory determines: an access succeeds when the
process that the core runs has the page. Only pages that a process does not have
are mapped. -/
def Allows (m : State κ π υ δ size) : Event κ π υ δ → Prop
  | .map p u _ => m.pages p u = none
  | .switch _ => True
  | .load c u offset count result =>
      result = (m.pages (m.running c) u).map fun page => VirtualMemory.load page offset count
  | .store c u _ _ stored => stored = (m.pages (m.running c) u).isSome

theorem setPage_pages (m : State κ π υ δ size) (p q : π) (u v : υ)
    (page : Option (Fin size → δ)) :
    (m.setPage p u page).pages q v = if q = p ∧ v = u then page else m.pages q v := by
  by_cases hq : q = p
  · subst hq
    by_cases hv : v = u <;> simp [setPage, hv]
  · simp [setPage, hq]

end State

inductive Run [DecidableEq π] [DecidableEq υ] (fill : δ) (m₀ : State κ π υ δ size) :
    List (Event κ π υ δ) → State κ π υ δ size → Prop
  | start : Run fill m₀ [] m₀
  | step {trace : List (Event κ π υ δ)} {m : State κ π υ δ size} {e : Event κ π υ δ} :
      Run fill m₀ trace m → m.Allows e → Run fill m₀ (trace ++ [e]) (m.after fill e)

/-! ## One process -/

section Isolation

variable [DecidableEq π]

/-- The processes that the cores run after an event. -/
def Event.running (running : κ → π) : Event κ π υ δ → κ → π
  | .switch p => fun _ => p
  | _ => running

/-- The part that process `p` has in an event, as an event of a memory with one process
and one core. -/
def Event.of (p : π) (running : κ → π) : Event κ π υ δ → Option (Event Unit Unit υ δ)
  | .map q u mapped => if q = p then some (.map () u mapped) else none
  | .switch _ => none
  | .load c u offset count result =>
      if running c = p then some (.load () u offset count result) else none
  | .store c u offset data stored =>
      if running c = p then some (.store () u offset data stored) else none

/-- What process `p` does in a trace, when the cores run `running` at its start. -/
def eventsOf (p : π) : (κ → π) → List (Event κ π υ δ) → List (Event Unit Unit υ δ)
  | _, [] => []
  | running, e :: trace => (e.of p running).toList ++ eventsOf p (e.running running) trace

theorem eventsOf_concat (p : π) (running : κ → π) (trace : List (Event κ π υ δ))
    (e : Event κ π υ δ) : eventsOf p running (trace ++ [e]) = eventsOf p running trace ++
      (e.of p (trace.foldl Event.running running)).toList := by
  induction trace generalizing running with
  | nil => simp [eventsOf]
  | cons first trace ih => simp [eventsOf, ih]

def State.only (m : State κ π υ δ size) (p : π) : State Unit Unit υ δ size :=
  ⟨fun _ => (), fun _ => m.pages p⟩

variable [DecidableEq υ] {fill : δ} {m₀ m : State κ π υ δ size} {trace : List (Event κ π υ δ)}
  {e : Event κ π υ δ}

theorem State.running_after (m : State κ π υ δ size) (e : Event κ π υ δ) :
    (m.after fill e).running = e.running m.running := by
  rcases e with ⟨p, u, _ | _⟩ | _ | _ | _ <;> rfl

theorem State.only_setPage (m : State κ π υ δ size) (p : π) (u : υ)
    (page : Option (Fin size → δ)) :
    (m.setPage p u page).only p = (m.only p).setPage () u page := by
  refine congrArg (State.mk fun _ => ()) (funext fun _ => funext fun v => ?_)
  rw [setPage_pages]
  by_cases hv : v = u <;> simp [only, hv]

theorem State.only_setPage_of_ne (m : State κ π υ δ size) {p q : π} (h : p ≠ q) (u : υ)
    (page : Option (Fin size → δ)) : (m.setPage q u page).only p = m.only p := by
  refine congrArg (State.mk fun _ => ()) (funext fun _ => funext fun v => ?_)
  rw [setPage_pages, if_neg fun h' => h h'.1]

/-- The part that the process has in an event is one that its memory allows, and changes
it in the same way. -/
theorem State.Allows.only (h : m.Allows e) (fill : δ) {p : π} {e' : Event Unit Unit υ δ}
    (he : e.of p m.running = some e') :
    (m.only p).Allows e' ∧ (m.after fill e).only p = (m.only p).after fill e' := by
  cases e with
  | map q u mapped =>
      obtain ⟨rfl, heq⟩ := Option.ite_none_right_eq_some.mp he
      obtain rfl := Option.some.inj heq
      refine ⟨h, ?_⟩
      cases mapped with
      | false => rfl
      | true => exact m.only_setPage q u _
  | switch q => cases he
  | load c u offset count result =>
      obtain ⟨rfl, heq⟩ := Option.ite_none_right_eq_some.mp he
      obtain rfl := Option.some.inj heq
      exact ⟨h, rfl⟩
  | store c u offset data stored =>
      obtain ⟨rfl, heq⟩ := Option.ite_none_right_eq_some.mp he
      obtain rfl := Option.some.inj heq
      exact ⟨h, m.only_setPage _ u _⟩

/-- An event in which the process has no part leaves its memory as it is. -/
theorem State.only_after (m : State κ π υ δ size) (fill : δ) {p : π}
    (he : e.of p m.running = none) : (m.after fill e).only p = m.only p := by
  cases e with
  | map q u mapped =>
      have hq : q ≠ p := fun hq => by simp [Event.of, hq] at he
      cases mapped with
      | false => rfl
      | true => exact m.only_setPage_of_ne hq.symm u _
  | switch q => rfl
  | load c u offset count result => rfl
  | store c u offset data stored =>
      have hc : m.running c ≠ p := fun hc => by simp [Event.of, hc] at he
      exact m.only_setPage_of_ne hc.symm u _

theorem Run.running (h : Run fill m₀ trace m) :
    m.running = trace.foldl Event.running m₀.running := by
  induction h with
  | start => rfl
  | step _ _ ih =>
      rw [State.running_after, List.foldl_append, ← ih, List.foldl_cons, List.foldl_nil]

/-- A process runs as if it were alone. -/
theorem Run.only (h : Run fill m₀ trace m) (p : π) :
    Run fill (m₀.only p) (eventsOf p m₀.running trace) (m.only p) := by
  induction h with
  | start => exact .start
  | @step trace m e hrun hallows ih =>
      rw [eventsOf_concat, ← hrun.running]
      cases he : e.of p m.running with
      | none =>
          rw [m.only_after fill he, Option.toList_none, List.append_nil]
          exact ih
      | some e' =>
          obtain ⟨hallows', hafter⟩ := hallows.only fill he
          rw [hafter]
          exact ih.step hallows'

end Isolation

end VirtualMemory
