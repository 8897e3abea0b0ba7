import CacheSimulator.Threads
import CacheSimulator.Library.SharedMemory
import CacheSimulator.Library.RingQueue

/-!
# The threads of the queue

`producer` and `consumer` of `producer_consumer.cpp` as threads over a shared memory, and
what each of them knows about the queue wherever it stands.
-/

namespace CacheSimulator

open SharedMemory

def itemCount : ℕ := 2000

abbrev bufSize : ℕ := 1024

inductive QueueCell where
  | head
  | tail
  | slot (i : Fin bufSize)
  deriving DecidableEq

def QueueCell.slotOf (x : BitVec 32) : QueueCell := .slot (Fin.ofNat bufSize x.toNat)

def nextIndex (x : BitVec 32) : BitVec 32 := (x + 1) % BitVec.ofNat 32 bufSize

/-! ## The threads -/

/-- Where `producer` stands in iteration `i`: before its `read32` of the tail, before one of
the head, and before its `write32` of the slot and of the tail. -/
inductive Producer where
  | readTail (i : ℕ)
  | readHead (i : ℕ) (tail : BitVec 32)
  | writeSlot (i : ℕ) (tail : BitVec 32)
  | writeTail (i : ℕ) (tail : BitVec 32)

/-- Where `consumer` stands in iteration `i`. The condition of its `while` reads the head and
the tail, one of them first. -/
inductive Consumer where
  | readFirst (i : ℕ)
  | readSecond (i : ℕ) (first : BitVec 32)
  | readSlot (i : ℕ) (head : BitVec 32)
  | writeHead (i : ℕ) (head : BitVec 32)

def producer : Thread QueueCell (BitVec 32) Producer where
  next
    | .readTail i => if i < itemCount then some (.load .tail) else none
    | .readHead _ _ => some (.load .head)
    | .writeSlot i tail => some (.store (.slotOf tail) (BitVec.ofNat 32 i))
    | .writeTail _ tail => some (.store .tail (nextIndex tail))
  resume
    | .readTail i, tail => .readHead i tail
    | .readHead i tail, head =>
        if nextIndex tail = head then .readHead i tail else .writeSlot i tail
    | .writeSlot i tail, _ => .writeTail i tail
    | .writeTail i _, _ => .readTail (i + 1)

/-- `consumer`. The order in which the two operands of `==` are evaluated is left to the
compiler: `headFirst` says which. -/
def consumer (headFirst : Bool) : Thread QueueCell (BitVec 32) Consumer where
  next
    | .readFirst i =>
        if i < itemCount then some (.load (if headFirst then .head else .tail)) else none
    | .readSecond _ _ => some (.load (if headFirst then .tail else .head))
    | .readSlot _ head => some (.load (.slotOf head))
    | .writeHead _ head => some (.store .head (nextIndex head))
  resume
    | .readFirst i, first => .readSecond i first
    | .readSecond i first, second =>
        if first = second then .readFirst i
        else .readSlot i (if headFirst then first else second)
    | .readSlot i head, _ => .writeHead i head
    | .writeHead i _, _ => .readFirst (i + 1)

def queueThread (headFirst : Bool) : Thread QueueCell (BitVec 32) (Producer ⊕ Consumer) :=
  producer.sum (consumer headFirst)

/-- Core 0 runs `producer` and core 1 runs `consumer`. -/
def queueStart (c : CoreId) : Producer ⊕ Consumer :=
  if c = 0 then .inl (.readTail 0) else .inr (.readFirst 0)

/-! ## The items -/

def storedItem (access : Access CoreId QueueCell (BitVec 32)) : Option (BitVec 32) :=
  match access.op with
  | .store (.slot _) value => some value
  | _ => none

def loadedItem (access : Access CoreId QueueCell (BitVec 32)) : Option (BitVec 32) :=
  match access.op with
  | .load (.slot _) => some access.value
  | _ => none

def queueItem (j : ℕ) : BitVec 32 := BitVec.ofNat 32 j

def queueItems (n : ℕ) : List (BitVec 32) := (List.range n).map queueItem

theorem queueItems_succ (n : ℕ) : queueItems (n + 1) = queueItems n ++ [queueItem n] := by
  simp [queueItems, List.range_succ]

def Producer.stored : Producer → ℕ
  | readTail i => i
  | readHead i _ => i
  | writeSlot i _ => i
  | writeTail i _ => i + 1

def Consumer.loaded : Consumer → ℕ
  | readFirst i => i
  | readSecond i _ => i
  | readSlot i _ => i
  | writeHead i _ => i + 1

/-! ## The invariant -/

def queueIndex (j : ℕ) : BitVec 32 := BitVec.ofNat 32 (j % bufSize)

theorem queueIndex_toNat (j : ℕ) : (queueIndex j).toNat = j % bufSize := by
  unfold queueIndex
  have hlt := Nat.mod_lt j (show 0 < bufSize by decide)
  rw [BitVec.toNat_ofNat, Nat.mod_eq_of_lt (Nat.lt_trans hlt (by decide))]

theorem queueIndex_eq_iff {j k : ℕ} : queueIndex j = queueIndex k ↔ j % bufSize = k % bufSize := by
  rw [← BitVec.toNat_inj, queueIndex_toNat, queueIndex_toNat]

theorem nextIndex_queueIndex (j : ℕ) : nextIndex (queueIndex j) = queueIndex (j + 1) := by
  apply BitVec.eq_of_toNat_eq
  unfold nextIndex
  rw [BitVec.toNat_umod, BitVec.toNat_add, queueIndex_toNat, queueIndex_toNat]
  change (j % 1024 + 1) % 2 ^ 32 % 1024 = (j + 1) % 1024
  omega

theorem slotOf_queueIndex (j : ℕ) :
    QueueCell.slotOf (queueIndex j) = .slot (Fin.ofNat bufSize j) := by
  unfold QueueCell.slotOf
  rw [queueIndex_toNat]
  congr 1
  exact Fin.ext (Nat.mod_mod j bufSize)

/-- The queue holds the items from `k` up to `p`. -/
structure QueueHolds (memory : QueueCell → BitVec 32) (k p : ℕ) : Prop where
  head : memory .head = queueIndex k
  tail : memory .tail = queueIndex p
  slots : RingQueue.Holds queueItem (fun i => memory (.slot i)) k p

/-- What `producer` knows when it has sent `p` items and `k` have been taken. -/
def Producer.At (memory : QueueCell → BitVec 32) (k p : ℕ) : Producer → Prop
  | readTail i => i = p ∧ p ≤ itemCount
  | readHead i tail => i = p ∧ p < itemCount ∧ tail = queueIndex p
  | writeSlot i tail => i = p ∧ p < itemCount ∧ tail = queueIndex p ∧ p + 1 < k + bufSize
  | writeTail i tail => i = p ∧ p < itemCount ∧ tail = queueIndex p ∧ p + 1 < k + bufSize ∧
      memory (.slot (Fin.ofNat bufSize p)) = queueItem p

/-- What `consumer` knows when it has taken `k` items and `p` have been sent. A tail that it
has read may have been advanced since. -/
def Consumer.At (headFirst : Bool) (k p : ℕ) : Consumer → Prop
  | readFirst i => i = k ∧ k ≤ itemCount
  | readSecond i first => i = k ∧ k < itemCount ∧
      if headFirst then first = queueIndex k else ∃ q, k ≤ q ∧ q ≤ p ∧ first = queueIndex q
  | readSlot i head => i = k ∧ k < itemCount ∧ head = queueIndex k ∧ k < p
  | writeHead i head => i = k ∧ k < itemCount ∧ head = queueIndex k ∧ k < p

theorem Producer.At.mono {memory memory' : QueueCell → BitVec 32} {k k' p : ℕ} {st : Producer}
    (h : st.At memory k p) (hk : k ≤ k') (hslots : ∀ i, memory' (.slot i) = memory (.slot i)) :
    st.At memory' k' p := by
  cases st with
  | readTail i => exact h
  | readHead i tail => exact h
  | writeSlot i tail =>
      obtain ⟨hi, hp, htail, hroom⟩ := h
      exact ⟨hi, hp, htail, by omega⟩
  | writeTail i tail =>
      obtain ⟨hi, hp, htail, hroom, hslot⟩ := h
      exact ⟨hi, hp, htail, by omega, (hslots _).trans hslot⟩

theorem Consumer.At.mono {headFirst : Bool} {k p p' : ℕ} {st : Consumer} (h : st.At headFirst k p)
    (hp : p ≤ p') : st.At headFirst k p' := by
  cases st with
  | readFirst i => exact h
  | readSecond i first =>
      obtain ⟨hi, hk, hfirst⟩ := h
      refine ⟨hi, hk, ?_⟩
      cases headFirst with
      | true => exact hfirst
      | false =>
          obtain ⟨q, hkq, hqp, hq⟩ := hfirst
          exact ⟨q, hkq, hqp.trans hp, hq⟩
  | readSlot i head =>
      obtain ⟨hi, hk, hhead, hlt⟩ := h
      exact ⟨hi, hk, hhead, by omega⟩
  | writeHead i head =>
      obtain ⟨hi, hk, hhead, hlt⟩ := h
      exact ⟨hi, hk, hhead, by omega⟩

namespace QueueHolds

variable {memory : QueueCell → BitVec 32} {k p : ℕ}

theorem writeSlot (h : QueueHolds memory k p) (value : BitVec 32) :
    QueueHolds (Function.update memory (.slot (Fin.ofNat bufSize p)) value) k p := by
  refine ⟨?_, ?_, ?_⟩
  · rw [Function.update_of_ne (by simp)]
    exact h.head
  · rw [Function.update_of_ne (by simp)]
    exact h.tail
  · have hslots : (fun i => Function.update memory (.slot (Fin.ofNat bufSize p)) value (.slot i)) =
        Function.update (fun i => memory (.slot i)) (Fin.ofNat bufSize p) value := by
      funext i
      simp [Function.update_apply]
    rw [hslots]
    exact h.slots.write value

theorem writeTail (h : QueueHolds memory k p) (hroom : p + 1 < k + bufSize)
    (hslot : memory (.slot (Fin.ofNat bufSize p)) = queueItem p) :
    QueueHolds (Function.update memory .tail (queueIndex (p + 1))) k (p + 1) := by
  refine ⟨?_, Function.update_self _ _ _, ?_⟩
  · rw [Function.update_of_ne (by simp)]
    exact h.head
  · have hslots : (fun i => Function.update memory .tail (queueIndex (p + 1)) (.slot i)) =
        fun i => memory (.slot i) := funext fun i => Function.update_of_ne (by simp) _ _
    rw [hslots]
    exact h.slots.push hroom hslot

theorem writeHead (h : QueueHolds memory k p) (hlt : k < p) :
    QueueHolds (Function.update memory .head (queueIndex (k + 1))) (k + 1) p := by
  refine ⟨Function.update_self _ _ _, ?_, ?_⟩
  · rw [Function.update_of_ne (by simp)]
    exact h.tail
  · have hslots : (fun i => Function.update memory .head (queueIndex (k + 1)) (.slot i)) =
        fun i => memory (.slot i) := funext fun i => Function.update_of_ne (by simp) _ _
    rw [hslots]
    exact h.slots.pop hlt

end QueueHolds

end CacheSimulator
