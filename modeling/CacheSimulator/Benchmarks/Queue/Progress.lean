import CacheSimulator.Benchmarks.Queue.Turns

/-!
# The queue cannot deadlock

The consumer of a queue that is not empty comes closer to its end by a turn, and so does
the producer of an empty one.
-/

namespace CacheSimulator

open SharedMemory

variable {headFirst : Bool} {trace : List (Access CoreId QueueCell (BitVec 32))}
  {s : State CoreId QueueCell (BitVec 32) (Producer ⊕ Consumer)}

/-- Turns that `producer` still takes when the queue is never full. -/
def Producer.remaining : Producer → ℕ
  | readTail i => 4 * (itemCount - i) + 4
  | readHead i _ => 4 * (itemCount - i) + 3
  | writeSlot i _ => 4 * (itemCount - i) + 2
  | writeTail i _ => 4 * (itemCount - i) + 1

/-- Turns that `consumer` still takes when the queue is never empty. A tail read before the
item was sent costs it two more. -/
def Consumer.remaining (headFirst : Bool) : Consumer → ℕ
  | readFirst i => 5 * (itemCount - i) + 4
  | readSecond i first =>
      5 * (itemCount - i) + if headFirst = false ∧ first = queueIndex i then 5 else 3
  | readSlot i _ => 5 * (itemCount - i) + 2
  | writeHead i _ => 5 * (itemCount - i) + 1

section Progress

variable {memory : QueueCell → BitVec 32} {k p : ℕ} {op : Op QueueCell (BitVec 32)}

theorem Producer.At.advances {st : Producer} (h : QueueHolds memory k p) (hst : st.At memory k p)
    (hempty : k = p) (hnext : producer.next st = some op) :
    (producer.resume st (op.value memory)).remaining < st.remaining := by
  cases st with
  | readTail i => exact Nat.lt_succ_self _
  | readHead i tail =>
      obtain rfl := Option.some.inj hnext
      obtain ⟨rfl, hlt, rfl⟩ := hst
      have hfull : ¬i + 1 = k + bufSize := by
        change ¬i + 1 = k + 1024
        omega
      simp only [producer, Op.value, h.head, nextIndex_queueIndex, queueIndex_eq_iff,
        h.slots.full_iff, if_neg hfull]
      exact Nat.lt_succ_self _
  | writeSlot i tail => exact Nat.lt_succ_self _
  | writeTail i tail =>
      obtain ⟨rfl, hlt, -⟩ := hst
      simp only [producer, remaining]
      omega

theorem Consumer.At.advances {st : Consumer} (h : QueueHolds memory k p)
    (hst : st.At headFirst k p) (hlt : k < p) (hnext : (consumer headFirst).next st = some op) :
    ((consumer headFirst).resume st (op.value memory)).remaining headFirst <
      st.remaining headFirst := by
  have hroom := h.slots.room
  have hdifferent : ¬queueIndex k = queueIndex p := by
    rw [queueIndex_eq_iff, h.slots.empty_iff]
    omega
  cases st with
  | readFirst i =>
      simp only [consumer, Option.ite_none_right_eq_some, Option.some.injEq] at hnext
      obtain ⟨-, rfl⟩ := hnext
      obtain ⟨rfl, -⟩ := hst
      have hfresh : ¬(headFirst = false ∧
          Op.value memory (.load (if headFirst then .head else .tail)) = queueIndex i) := by
        rintro ⟨rfl, hstale⟩
        exact hdifferent (hstale.symm.trans h.tail)
      simp only [consumer, remaining, if_neg hfresh]
      omega
  | readSecond i first =>
      obtain rfl := Option.some.inj hnext
      obtain ⟨rfl, -, hfirst⟩ := hst
      cases headFirst with
      | true =>
          obtain rfl := hfirst
          simp only [consumer, Op.value, if_true, h.tail, if_neg hdifferent, remaining]
          simp
      | false =>
          -- an old tail makes the thread read both words again
          by_cases hstale : first = queueIndex i
          · simp [consumer, Op.value, h.head, remaining, hstale]
          · simp [consumer, Op.value, h.head, remaining, hstale]
  | readSlot i head => exact Nat.lt_succ_self _
  | writeHead i head =>
      obtain ⟨rfl, hi, -⟩ := hst
      simp only [consumer, remaining]
      omega

theorem Producer.At.le_itemCount {st : Producer} (hst : st.At memory k p) : p ≤ itemCount := by
  cases st with
  | readTail i => exact hst.2
  | readHead i tail => exact hst.2.1.le
  | writeSlot i tail => exact hst.2.1.le
  | writeTail i tail => exact hst.2.1.le

theorem Producer.At.next_none {st : Producer} (hst : st.At memory k p)
    (hdone : producer.next st = none) : st.stored = p ∧ p = itemCount := by
  cases st with
  | readTail i =>
      obtain ⟨rfl, hle⟩ := hst
      simp only [producer, ite_eq_right_iff, reduceCtorEq, imp_false] at hdone
      exact ⟨rfl, by omega⟩
  | readHead => cases hdone
  | writeSlot => cases hdone
  | writeTail => cases hdone

theorem Consumer.At.next_none {st : Consumer} (hst : st.At headFirst k p)
    (hdone : (consumer headFirst).next st = none) : st.loaded = k ∧ k = itemCount := by
  cases st with
  | readFirst i =>
      obtain ⟨rfl, hle⟩ := hst
      simp only [consumer, ite_eq_right_iff, reduceCtorEq, imp_false] at hdone
      exact ⟨rfl, by omega⟩
  | readSecond => cases hdone
  | readSlot => cases hdone
  | writeHead => cases hdone

/-- The consumer of an empty queue is done when nothing more is sent. -/
theorem Consumer.At.next_eq_none {st : Consumer} (hst : st.At headFirst k p) (hempty : k = p)
    (hdone : p = itemCount) : (consumer headFirst).next st = none := by
  cases st with
  | readFirst i =>
      obtain ⟨rfl, -⟩ := hst
      exact if_neg (by omega)
  | readSecond i first =>
      obtain ⟨rfl, hlt, -⟩ := hst
      omega
  | readSlot i head =>
      obtain ⟨rfl, -, -, hlt⟩ := hst
      omega
  | writeHead i head =>
      obtain ⟨rfl, -, -, hlt⟩ := hst
      omega

end Progress

section Done

variable {k p : ℕ} {st₀ : Producer} {st₁ : Consumer}

theorem Queueing.stored_of_done (h : Queueing headFirst trace s k p st₀ st₁)
    (hdone : (queueThread headFirst).next (s.threads 0) = none) :
    trace.filterMap storedItem = queueItems itemCount := by
  rw [h.core0] at hdone
  obtain ⟨hstored, hp⟩ := h.producerAt.next_none hdone
  rw [h.stored, hstored, hp]

theorem Queueing.loaded_of_done (h : Queueing headFirst trace s k p st₀ st₁)
    (hdone : (queueThread headFirst).next (s.threads 1) = none) :
    trace.filterMap loadedItem = queueItems itemCount := by
  rw [h.core1] at hdone
  obtain ⟨hloaded, hk⟩ := h.consumerAt.next_none hdone
  rw [h.loaded, hloaded, hk]

end Done

/-- Unless both threads are done, one of them has a turn after which less remains. -/
theorem Queueing.advances {k p : ℕ} {st₀ : Producer} {st₁ : Consumer}
    (h : Queueing headFirst trace s k p st₀ st₁) :
    (∀ c, (queueThread headFirst).next (s.threads c) = none) ∨
      ∃ trace' s' k' p' st₀' st₁', Queueing headFirst trace' s' k' p' st₀' st₁' ∧
        (∃ more, SharedMemory.Run (fun _ => queueThread headFirst) s more s') ∧
        st₀'.remaining + st₁'.remaining headFirst < st₀.remaining + st₁.remaining headFirst := by
  have hp := h.producerAt.le_itemCount
  by_cases hlt : k < p
  · cases hnext : (consumer headFirst).next st₁ with
    | none =>
        have hk := (h.consumerAt.next_none hnext).2
        omega
    | some op =>
        obtain ⟨k', hqueue⟩ := h.turn1 hnext
        have hturn : (queueThread headFirst).next (s.threads 1) = some op := by rwa [h.core1]
        refine .inr ⟨_, _, k', p, _, _, hqueue, ⟨_, SharedMemory.Run.start.step 1 hturn⟩, ?_⟩
        exact Nat.add_lt_add_left (h.consumerAt.advances h.holds hlt hnext) _
  · have hempty : k = p := Nat.le_antisymm h.holds.slots.le (Nat.not_lt.mp hlt)
    cases hnext : producer.next st₀ with
    | none =>
        have hdone := (h.producerAt.next_none hnext).2
        refine .inl fun c => ?_
        obtain rfl | rfl := (by decide : ∀ c : CoreId, c = 0 ∨ c = 1) c
        · rw [h.core0]
          exact hnext
        · rw [h.core1]
          exact h.consumerAt.next_eq_none hempty hdone
    | some op =>
        obtain ⟨p', hqueue⟩ := h.turn0 hnext
        have hturn : (queueThread headFirst).next (s.threads 0) = some op := by rwa [h.core0]
        refine .inr ⟨_, _, k, p', _, _, hqueue, ⟨_, SharedMemory.Run.start.step 0 hturn⟩, ?_⟩
        exact Nat.add_lt_add_right (h.producerAt.advances h.holds hempty hnext) _

/-- The threads can finish: the consumer takes its turns as long as there is an item, and the
producer takes its own otherwise. -/
theorem Queueing.finishes {k p : ℕ} {st₀ : Producer} {st₁ : Consumer}
    (h : Queueing headFirst trace s k p st₀ st₁) :
    ∃ more s', SharedMemory.Run (fun _ => queueThread headFirst) s more s' ∧
      ∀ c, (queueThread headFirst).next (s'.threads c) = none := by
  induction hn : st₀.remaining + st₁.remaining headFirst using Nat.strong_induction_on
    generalizing trace s k p st₀ st₁ with
  | h n ih =>
      rcases h.advances with hdone | ⟨trace', s', k', p', st₀', st₁', hqueue, ⟨more, hrun⟩, hless⟩
      · exact ⟨[], s, .start, hdone⟩
      · obtain ⟨more', s'', hrun', hdone⟩ := ih _ (hn ▸ hless) hqueue rfl
        exact ⟨more ++ more', s'', hrun.trans hrun', hdone⟩

end CacheSimulator
