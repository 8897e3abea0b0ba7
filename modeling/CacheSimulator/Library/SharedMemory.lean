import Mathlib.Logic.Function.Basic

/-!
# Threads over a shared memory

Threads that load and store the cells of one memory, one access at a time and in any
order. A thread is given by its next access in each of its states and by the state it
goes on in once the access has been made.
-/

namespace SharedMemory

inductive Op (Cell Val : Type*) where
  | load (cell : Cell)
  | store (cell : Cell) (value : Val)

/-- A thread. It has no next access when it is done, and it goes on with the value that
it has loaded or stored. -/
structure Thread (Cell Val σ : Type*) where
  next : σ → Option (Op Cell Val)
  resume : σ → Val → σ

structure State (κ Cell Val σ : Type*) where
  memory : Cell → Val
  threads : κ → σ

/-- An access that a thread has made, with the value it has loaded or stored. -/
structure Access (κ Cell Val : Type*) where
  thread : κ
  op : Op Cell Val
  value : Val

variable {κ Cell Val σ τ : Type*}

def Op.cell : Op Cell Val → Cell
  | load cell => cell
  | store cell _ => cell

def Thread.sum (t : Thread Cell Val σ) (u : Thread Cell Val τ) : Thread Cell Val (σ ⊕ τ) where
  next
    | .inl a => t.next a
    | .inr b => u.next b
  resume
    | .inl a, v => .inl (t.resume a v)
    | .inr b, v => .inr (u.resume b v)

def Op.isStore : Op Cell Val → Bool
  | load _ => false
  | store _ _ => true

section Semantics

variable [DecidableEq κ] [DecidableEq Cell]

def valuesOf (k : κ) (trace : List (Access κ Cell Val)) : List Val :=
  (trace.filter (·.thread = k)).map Access.value

omit [DecidableEq Cell] in
theorem valuesOf_concat (k : κ) (trace : List (Access κ Cell Val)) (access : Access κ Cell Val) :
    valuesOf k (trace ++ [access]) =
      if access.thread = k then valuesOf k trace ++ [access.value] else valuesOf k trace := by
  unfold valuesOf
  rw [List.filter_append]
  split
  · rename_i h
    simp [h]
  · rename_i h
    simp [h]

namespace Op

def value (memory : Cell → Val) : Op Cell Val → Val
  | load cell => memory cell
  | store _ value => value

def apply (memory : Cell → Val) : Op Cell Val → Cell → Val
  | load _ => memory
  | store cell value => Function.update memory cell value

theorem apply_of_ne (op : Op Cell Val) (memory : Cell → Val) {cell : Cell} (h : cell ≠ op.cell) :
    op.apply memory cell = memory cell := by
  cases op with
  | load => rfl
  | store _ value => exact Function.update_of_ne h value memory

end Op

def State.step (s : State κ Cell Val σ) (prog : κ → Thread Cell Val σ) (k : κ) (op : Op Cell Val) :
    State κ Cell Val σ where
  memory := op.apply s.memory
  threads := Function.update s.threads k ((prog k).resume (s.threads k) (op.value s.memory))

namespace State

variable (s : State κ Cell Val σ) (prog : κ → Thread Cell Val σ) (k : κ) (op : Op Cell Val)

@[simp] theorem step_memory : (s.step prog k op).memory = op.apply s.memory := rfl

@[simp] theorem step_threads_self : (s.step prog k op).threads k =
    (prog k).resume (s.threads k) (op.value s.memory) := Function.update_self _ _ _

theorem step_threads_of_ne {j : κ} (h : j ≠ k) : (s.step prog k op).threads j = s.threads j :=
  Function.update_of_ne h _ _

end State

/-- The accesses of the threads from `s₀`, in any interleaving. -/
inductive Run (prog : κ → Thread Cell Val σ) (s₀ : State κ Cell Val σ) :
    List (Access κ Cell Val) → State κ Cell Val σ → Prop
  | start : Run prog s₀ [] s₀
  | step {trace : List (Access κ Cell Val)} {s : State κ Cell Val σ} {op : Op Cell Val} (k : κ) :
      Run prog s₀ trace s → (prog k).next (s.threads k) = some op →
        Run prog s₀ (trace ++ [⟨k, op, op.value s.memory⟩]) (s.step prog k op)

variable {prog : κ → Thread Cell Val σ} {s₀ s : State κ Cell Val σ}
  {trace : List (Access κ Cell Val)}

theorem Run.trans {trace' : List (Access κ Cell Val)} {s' : State κ Cell Val σ}
    (h : Run prog s₀ trace s) (h' : Run prog s trace' s') : Run prog s₀ (trace ++ trace') s' := by
  induction h' with
  | start => rwa [List.append_nil]
  | step k _ hnext ih =>
      rw [← List.append_assoc]
      exact ih.step k hnext

/-- The rule for invariants: what holds at the start and is kept by every access of
every thread holds along a run. -/
theorem Run.invariant {I : List (Access κ Cell Val) → State κ Cell Val σ → Prop} (h₀ : I [] s₀)
    (hstep : ∀ trace s k op, I trace s → (prog k).next (s.threads k) = some op →
      I (trace ++ [⟨k, op, op.value s.memory⟩]) (s.step prog k op))
    (h : Run prog s₀ trace s) : I trace s := by
  induction h with
  | start => exact h₀
  | step k hrun hnext ih => exact hstep _ _ k _ ih hnext

end Semantics

end SharedMemory
