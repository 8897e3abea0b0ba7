import CacheSimulator.Benchmarks.Queue.Threads

/-!
# The turns of the queue

Every access of a thread keeps the queue and what the other thread knows about it, so
that in every interleaving the items arrive in order.
-/

namespace CacheSimulator

open SharedMemory

/-! ## The steps -/

section Steps

variable {memory : QueueCell → BitVec 32} {k p : ℕ} {op : Op QueueCell (BitVec 32)} {c : CoreId}

/-- An access of `producer` keeps the queue, in which there may be one item more. -/
theorem Producer.At.step {st : Producer} (h : QueueHolds memory k p) (hst : st.At memory k p)
    (hnext : producer.next st = some op) : ∃ p', p ≤ p' ∧ QueueHolds (op.apply memory) k p' ∧
      (producer.resume st (op.value memory)).At (op.apply memory) k p' ∧
      queueItems (producer.resume st (op.value memory)).stored =
        queueItems st.stored ++ (storedItem ⟨c, op, op.value memory⟩).toList ∧
      loadedItem ⟨c, op, op.value memory⟩ = none := by
  cases st with
  | readTail i =>
      simp only [producer, Option.ite_none_right_eq_some, Option.some.injEq] at hnext
      obtain ⟨hlt, rfl⟩ := hnext
      obtain ⟨rfl, -⟩ := hst
      exact ⟨i, Nat.le_refl i, h, ⟨rfl, hlt, h.tail⟩, by simp [producer, stored, storedItem], rfl⟩
  | readHead i tail =>
      obtain rfl := Option.some.inj hnext
      obtain ⟨rfl, hlt, rfl⟩ := hst
      refine ⟨i, Nat.le_refl i, h, ?_, ?_, rfl⟩
      · -- the thread goes on when the queue is not full
        simp only [producer, Op.value, h.head, nextIndex_queueIndex, queueIndex_eq_iff,
          h.slots.full_iff]
        have hroom := h.slots.room
        split
        · exact ⟨rfl, hlt, rfl⟩
        · exact ⟨rfl, hlt, rfl, by omega⟩
      · simp only [producer, storedItem, Option.toList_none, List.append_nil]
        split <;> rfl
  | writeSlot i tail =>
      obtain rfl := Option.some.inj hnext
      obtain ⟨rfl, hlt, rfl, hroom⟩ := hst
      rw [slotOf_queueIndex]
      exact ⟨i, Nat.le_refl i, h.writeSlot _, ⟨rfl, hlt, rfl, hroom, Function.update_self _ _ _⟩,
        queueItems_succ i, rfl⟩
  | writeTail i tail =>
      obtain rfl := Option.some.inj hnext
      obtain ⟨rfl, hlt, rfl, hroom, hslot⟩ := hst
      rw [nextIndex_queueIndex]
      exact ⟨i + 1, Nat.le_succ i, h.writeTail hroom hslot, ⟨rfl, hlt⟩,
        by simp [producer, stored, storedItem], rfl⟩

/-- An access of `consumer` keeps the queue, in which there may be one item less, and writes
no slot. -/
theorem Consumer.At.step {headFirst : Bool} {st : Consumer} (h : QueueHolds memory k p)
    (hst : st.At headFirst k p) (hnext : (consumer headFirst).next st = some op) :
    ∃ k', k ≤ k' ∧ QueueHolds (op.apply memory) k' p ∧
      (∀ i, op.apply memory (.slot i) = memory (.slot i)) ∧
      ((consumer headFirst).resume st (op.value memory)).At headFirst k' p ∧
      queueItems ((consumer headFirst).resume st (op.value memory)).loaded =
        queueItems st.loaded ++ (loadedItem ⟨c, op, op.value memory⟩).toList ∧
      storedItem ⟨c, op, op.value memory⟩ = none := by
  have hle := h.slots.le
  have hroom := h.slots.room
  cases st with
  | readFirst i =>
      simp only [consumer, Option.ite_none_right_eq_some, Option.some.injEq] at hnext
      obtain ⟨hlt, rfl⟩ := hnext
      obtain ⟨rfl, -⟩ := hst
      refine ⟨i, Nat.le_refl i, h, fun _ => rfl, ⟨rfl, hlt, ?_⟩, ?_, rfl⟩
      · cases headFirst with
        | true => exact h.head
        | false => exact ⟨p, hle, Nat.le_refl p, h.tail⟩
      · cases headFirst <;> simp [consumer, loaded, loadedItem]
  | readSecond i first =>
      obtain rfl := Option.some.inj hnext
      obtain ⟨rfl, hlt, hfirst⟩ := hst
      refine ⟨i, Nat.le_refl i, h, fun _ => rfl, ?_, ?_, rfl⟩
      · -- the thread goes on when the queue is not empty
        cases headFirst with
        | true =>
            obtain rfl := hfirst
            simp only [consumer, Op.value, if_true, h.tail, queueIndex_eq_iff, h.slots.empty_iff]
            split
            · exact ⟨rfl, hlt.le⟩
            · exact ⟨rfl, hlt, rfl, by omega⟩
        | false =>
            obtain ⟨q, hiq, hqp, rfl⟩ := hfirst
            have hsame : q % bufSize = i % bufSize ↔ i = q :=
              eq_comm.trans (RingQueue.mod_eq_iff hiq (by omega))
            simp only [consumer, Op.value, Bool.false_eq_true, if_false, h.head, queueIndex_eq_iff,
              hsame]
            split
            · exact ⟨rfl, hlt.le⟩
            · exact ⟨rfl, hlt, rfl, by omega⟩
      · have hnone : ∀ value, loadedItem ⟨c, .load (if headFirst then .tail else .head), value⟩ =
            none := by
          cases headFirst <;> exact fun _ => rfl
        rw [hnone, Option.toList_none, List.append_nil]
        cases headFirst <;> simp only [consumer, Bool.false_eq_true, if_false, if_true] <;>
          split <;> rfl
  | readSlot i head =>
      obtain rfl := Option.some.inj hnext
      obtain ⟨rfl, hlt, rfl, hip⟩ := hst
      rw [slotOf_queueIndex]
      refine ⟨i, Nat.le_refl i, h, fun _ => rfl, ⟨rfl, hlt, rfl, hip⟩, ?_, rfl⟩
      have hfront : memory (.slot (Fin.ofNat bufSize i)) = queueItem i := h.slots.front hip
      simp only [loadedItem, Op.value, hfront]
      exact queueItems_succ i
  | writeHead i head =>
      obtain rfl := Option.some.inj hnext
      obtain ⟨rfl, hlt, rfl, hip⟩ := hst
      rw [nextIndex_queueIndex]
      refine ⟨i + 1, Nat.le_succ i, h.writeHead hip, fun j => ?_, ⟨rfl, hlt⟩,
        by simp [consumer, loaded, loadedItem], rfl⟩
      exact Function.update_of_ne (show QueueCell.slot j ≠ .head by simp) _ _

end Steps

structure Queueing (headFirst : Bool) (trace : List (Access CoreId QueueCell (BitVec 32)))
    (s : State CoreId QueueCell (BitVec 32) (Producer ⊕ Consumer)) (k p : ℕ) (st₀ : Producer)
    (st₁ : Consumer) : Prop where
  core0 : s.threads 0 = .inl st₀
  core1 : s.threads 1 = .inr st₁
  holds : QueueHolds s.memory k p
  producerAt : st₀.At s.memory k p
  consumerAt : st₁.At headFirst k p
  stored : trace.filterMap storedItem = queueItems st₀.stored
  loaded : trace.filterMap loadedItem = queueItems st₁.loaded

variable {headFirst : Bool} {trace : List (Access CoreId QueueCell (BitVec 32))}
  {s : State CoreId QueueCell (BitVec 32) (Producer ⊕ Consumer)}

theorem filterMap_concat {α β : Type*} (f : α → Option β) (l : List α) (a : α) :
    (l ++ [a]).filterMap f = l.filterMap f ++ (f a).toList := by
  rw [List.filterMap_append, List.filterMap_cons, List.filterMap_nil]
  cases f a <;> rfl

section Turns

variable {k p : ℕ} {st₀ : Producer} {st₁ : Consumer} {op : Op QueueCell (BitVec 32)}

/-- A turn of the producer, after which the consumer still knows what it knew. -/
theorem Queueing.turn0 (h : Queueing headFirst trace s k p st₀ st₁)
    (hnext : producer.next st₀ = some op) :
    ∃ p', Queueing headFirst (trace ++ [⟨0, op, op.value s.memory⟩])
      (s.step (fun _ => queueThread headFirst) 0 op) k p' (producer.resume st₀ (op.value s.memory))
      st₁ := by
  obtain ⟨p', hp, hholds, hat, hstored, hloaded⟩ := h.producerAt.step (c := 0) h.holds hnext
  refine ⟨p', ?_, ?_, hholds, hat, h.consumerAt.mono hp, ?_, ?_⟩
  · rw [State.step_threads_self, h.core0]
    rfl
  · rw [s.step_threads_of_ne _ _ _ (by decide), h.core1]
  · rw [filterMap_concat, h.stored, hstored]
  · rw [filterMap_concat, hloaded, h.loaded, Option.toList_none, List.append_nil]

/-- A turn of the consumer, after which the producer still knows what it knew. -/
theorem Queueing.turn1 (h : Queueing headFirst trace s k p st₀ st₁)
    (hnext : (consumer headFirst).next st₁ = some op) :
    ∃ k', Queueing headFirst (trace ++ [⟨1, op, op.value s.memory⟩])
      (s.step (fun _ => queueThread headFirst) 1 op) k' p st₀
      ((consumer headFirst).resume st₁ (op.value s.memory)) := by
  obtain ⟨k', hk, hholds, hslots, hat, hloaded, hstored⟩ :=
    h.consumerAt.step (c := 1) h.holds hnext
  refine ⟨k', ?_, ?_, hholds, h.producerAt.mono hk hslots, hat, ?_, ?_⟩
  · rw [s.step_threads_of_ne _ _ _ (by decide), h.core0]
  · rw [State.step_threads_self, h.core1]
    rfl
  · rw [filterMap_concat, hstored, h.stored, Option.toList_none, List.append_nil]
  · rw [filterMap_concat, h.loaded, hloaded]

end Turns

theorem Queueing.of_run {memory : QueueCell → BitVec 32} (hhead : memory .head = 0)
    (htail : memory .tail = 0)
    (h : SharedMemory.Run (fun _ => queueThread headFirst) ⟨memory, queueStart⟩ trace s) :
    ∃ k p st₀ st₁, Queueing headFirst trace s k p st₀ st₁ := by
  refine h.invariant (I := fun trace s => ∃ k p st₀ st₁, Queueing headFirst trace s k p st₀ st₁)
    ?_ fun trace s c op hs hnext => ?_
  · exact ⟨0, 0, .readTail 0, .readFirst 0, rfl, rfl, ⟨hhead, htail, .empty⟩, ⟨rfl, Nat.zero_le _⟩,
      ⟨rfl, Nat.zero_le _⟩, rfl, rfl⟩
  · obtain ⟨k, p, st₀, st₁, hqueue⟩ := hs
    obtain rfl | rfl := (by decide : ∀ c : CoreId, c = 0 ∨ c = 1) c
    · rw [hqueue.core0] at hnext
      obtain ⟨p', hqueue'⟩ := hqueue.turn0 hnext
      exact ⟨k, p', _, st₁, hqueue'⟩
    · rw [hqueue.core1] at hnext
      obtain ⟨k', hqueue'⟩ := hqueue.turn1 hnext
      exact ⟨k', p, st₀, _, hqueue'⟩

theorem Producer.At.stored_bounds {memory : QueueCell → BitVec 32} {k p : ℕ} {st : Producer}
    (hst : st.At memory k p) (h : p < k + bufSize) : p ≤ st.stored ∧ st.stored < k + bufSize := by
  cases st with
  | readTail i =>
      obtain rfl := hst.1
      exact ⟨Nat.le_refl i, h⟩
  | readHead i tail =>
      obtain rfl := hst.1
      exact ⟨Nat.le_refl i, h⟩
  | writeSlot i tail =>
      obtain rfl := hst.1
      exact ⟨Nat.le_refl i, h⟩
  | writeTail i tail =>
      obtain ⟨rfl, -, -, hroom, -⟩ := hst
      exact ⟨Nat.le_succ i, hroom⟩

theorem Consumer.At.loaded_bounds {k p : ℕ} {st : Consumer} (hst : st.At headFirst k p)
    (h : k ≤ p) : k ≤ st.loaded ∧ st.loaded ≤ p := by
  cases st with
  | readFirst i =>
      obtain rfl := hst.1
      exact ⟨Nat.le_refl i, h⟩
  | readSecond i first =>
      obtain rfl := hst.1
      exact ⟨Nat.le_refl i, h⟩
  | readSlot i head =>
      obtain rfl := hst.1
      exact ⟨Nat.le_refl i, h⟩
  | writeHead i head =>
      obtain ⟨rfl, -, -, hlt⟩ := hst
      exact ⟨Nat.le_succ i, hlt⟩

end CacheSimulator
