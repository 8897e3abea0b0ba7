import CacheSimulator.Run
import CacheSimulator.Trace

/-!
# Two threads

`event_begin_step` and `event_callback` of `event.cpp`, called by two threads that
each run on a core. A thread draws the sequence number of its next call under the
lock of the queue and keeps it in `current_seq`; the call runs under `bus_lock`
and pushes its events with the number of the thread that makes it.
-/

namespace CacheSimulator

/-- The machine, the queue that `g_event_queue` points to, and what each thread
keeps: its `current_seq`, and whether it has drawn a number it has not used. -/
structure System where
  sim : Sim
  queue : EventQueue
  currentSeq : CoreId → BitVec 32
  begun : CoreId → Bool

structure CallEvents where
  call : Call
  seq : BitVec 32
  events : List Event

namespace System

def start (s : Sim) : System where
  sim := s
  queue := .empty
  currentSeq _ := 0
  begun _ := false

/-- `event_begin_step` by the thread on core `c`. -/
def beginStep (sys : System) (c : CoreId) : System :=
  let (seq, queue) := sys.queue.beginStep
  { sys with
    queue := queue
    currentSeq := Function.update sys.currentSeq c seq
    begun := Function.update sys.begun c true }

/-- A call by the thread on its core; `event_callback` pushes each of its events. -/
def exec (sys : System) (call : Call) : Except Fault (System × CallEvents) := do
  let seq := sys.currentSeq call.coreId
  let (sim, _) ← call.exec { sys.sim with currentSeq := seq }
  let events := sim.events.drop sys.sim.events.length
  .ok ({ sys with
      sim := sim
      queue := events.foldl EventQueue.push sys.queue
      begun := Function.update sys.begun call.coreId false }, ⟨call, seq, events⟩)

variable (sys : System) (c : CoreId)

theorem beginStep_currentSeq :
    (sys.beginStep c).currentSeq = Function.update sys.currentSeq c sys.queue.nextSeq := rfl

theorem beginStep_begun : (sys.beginStep c).begun = Function.update sys.begun c true := rfl

end System

/-- The threads take turns in any order, each alternating between
`event_begin_step` and a call of `cpu_read` or `cpu_write` on its core. The trace
lists the calls in bus order, and `steps` counts the numbers drawn. -/
inductive Interleaving (s₀ : Sim) : List CallEvents → ℕ → System → Prop
  | start : Interleaving s₀ [] 0 (.start s₀)
  | beginStep {trace : List CallEvents} {steps : ℕ} {sys : System} (c : CoreId) :
      Interleaving s₀ trace steps sys → sys.begun c = false →
        Interleaving s₀ trace (steps + 1) (sys.beginStep c)
  | call {trace : List CallEvents} {steps : ℕ} {sys sys' : System} {events : CallEvents}
      (call : Call) : Interleaving s₀ trace steps sys → call.IsData →
        sys.begun call.coreId = true → sys.exec call = .ok (sys', events) →
          Interleaving s₀ (trace ++ [events]) steps sys'

/-! ## Executable interleavings -/

inductive Turn where
  | beginStep (c : CoreId)
  | call (call : Call)

def Turn.draws : Turn → ℕ
  | beginStep _ => 1
  | call _ => 0

def Turn.each (calls : List Call) : List Turn :=
  calls.flatMap fun call => [beginStep call.coreId, .call call]

/-- The turns in order, or `none` when a thread makes a turn it is not due to make
or a call aborts. -/
def runTurns : List Turn → System → Option (List CallEvents × System)
  | [], sys => some ([], sys)
  | .beginStep c :: turns, sys =>
      if sys.begun c = false then runTurns turns (sys.beginStep c) else none
  | .call call :: turns, sys =>
      if call.IsData ∧ sys.begun call.coreId = true then
        match sys.exec call with
        | .ok (sys', events) =>
            (runTurns turns sys').map fun (trace, sys'') => (events :: trace, sys'')
        | .error _ => none
      else none

theorem Interleaving.of_runTurns {s₀ : Sim} {turns : List Turn} :
    ∀ {trace trace' : List CallEvents} {steps : ℕ} {sys sys' : System},
      Interleaving s₀ trace steps sys → runTurns turns sys = some (trace', sys') →
        Interleaving s₀ (trace ++ trace') (steps + (turns.map Turn.draws).sum) sys' := by
  induction turns with
  | nil =>
      intro trace trace' steps sys sys' hrun h
      obtain ⟨rfl, rfl⟩ := Prod.mk.inj (Option.some.inj h)
      rwa [List.append_nil]
  | cons turn turns ih =>
      intro trace trace' steps sys sys' hrun h
      rw [List.map_cons, List.sum_cons, ← Nat.add_assoc]
      cases turn with
      | beginStep c =>
          rw [runTurns] at h
          split at h
          · rename_i hbegun
            exact ih (hrun.beginStep c hbegun) h
          · cases h
      | call call =>
          rw [runTurns] at h
          split at h
          · rename_i hdue
            split at h
            · rename_i sys₁ events hexec
              obtain ⟨⟨rest, sys₂⟩, hrest, heq⟩ := Option.map_eq_some_iff.mp h
              obtain ⟨rfl, rfl⟩ := Prod.mk.inj heq
              have hnext := ih (hrun.call call hdue.1 hdue.2 hexec) hrest
              rwa [List.append_assoc, List.singleton_append] at hnext
            · cases h
          · cases h

end CacheSimulator
