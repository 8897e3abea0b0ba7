import CacheSimulator.Trace

/-!
# The trace file restores the queue

`read_trace` after `write_trace`, also for a file that has been cut: the events
whose records are complete come back, linked as `push` links them.
-/

namespace CacheSimulator

theorem readRecords_of_short (fuel : ℕ) {bytes : List Byte} (h : bytes.length < traceRecordSize)
    (queue : EventQueue) : readRecords fuel bytes queue = queue := by
  cases fuel with
  | zero => rfl
  | succ fuel => rw [readRecords, if_pos h]

/-- The first bytes of a list of records give the events of the complete ones. -/
theorem readRecords_take (events : List Event) (j fuel : ℕ) (queue : EventQueue)
    (hfuel : ((events.flatMap fun e => (TraceRecord.ofEvent e).encode).take j).length /
      traceRecordSize ≤ fuel) :
    readRecords fuel ((events.flatMap fun e => (TraceRecord.ofEvent e).encode).take j) queue =
      (events.take (j / traceRecordSize)).foldl EventQueue.push queue := by
  induction events generalizing j fuel queue with
  | nil =>
      rw [List.flatMap_nil, List.take_nil, List.take_nil]
      exact readRecords_of_short fuel (by decide) queue
  | cons e events ih =>
      let rest := events.flatMap fun e => (TraceRecord.ofEvent e).encode
      have hcons : (e :: events).flatMap (fun e => (TraceRecord.ofEvent e).encode) =
          (TraceRecord.ofEvent e).encode ++ rest := List.flatMap_cons
      have hlength : (TraceRecord.ofEvent e).encode.length = traceRecordSize :=
        TraceRecord.encode_length _
      rw [hcons] at hfuel ⊢
      by_cases hj : j < traceRecordSize
      · have hshort : (((TraceRecord.ofEvent e).encode ++ rest).take j).length < traceRecordSize :=
          Nat.lt_of_le_of_lt (List.length_take_le _ _) hj
        rw [readRecords_of_short fuel hshort, Nat.div_eq_of_lt hj, List.take_zero, List.foldl_nil]
      · have hle : traceRecordSize ≤ j := Nat.le_of_not_lt hj
        have hbytes : ((TraceRecord.ofEvent e).encode ++ rest).take j =
            (TraceRecord.ofEvent e).encode ++ rest.take (j - traceRecordSize) := by
          rw [List.take_append, hlength, List.take_of_length_le (by rwa [hlength])]
        have hcount : j / traceRecordSize = (j - traceRecordSize) / traceRecordSize + 1 := by
          rw [Nat.div_eq_sub_div (by decide) hle]
        rw [hbytes, List.length_append, hlength, Nat.add_comm,
          Nat.add_div_right _ (by decide)] at hfuel
        cases fuel with
        | zero => exact absurd hfuel (Nat.not_succ_le_zero _)
        | succ fuel =>
            have hlong : ¬ ((TraceRecord.ofEvent e).encode ++
                rest.take (j - traceRecordSize)).length < traceRecordSize := by
              rw [List.length_append, hlength]
              exact Nat.not_lt.mpr (Nat.le_add_right _ _)
            rw [hbytes, readRecords, if_neg hlong, List.take_left' hlength,
              List.drop_left' hlength, TraceRecord.decode_encode, TraceRecord.toEvent_ofEvent,
              ih _ _ _ (Nat.le_of_succ_le_succ hfuel), hcount, List.take_succ_cons,
              List.foldl_cons]

theorem writeTrace_eq {queue : EventQueue} {events : List Event} (h : queue.Linked events) :
    writeTrace queue =
      TraceHeader.encode ⟨traceMagic, traceVersion, BitVec.ofNat 16 traceRecordSize⟩ ++
        events.flatMap fun e => (TraceRecord.ofEvent e).encode := by
  rw [writeTrace, h.follow_first]

theorem readTrace_of_short {bytes : List Byte} (h : bytes.length < traceHeaderSize) :
    readTrace bytes = none := by
  simp only [readTrace, h, true_or, if_true]

/-- The header is accepted, and the rest is read record by record. -/
theorem readTrace_header_append (rest : List Byte) :
    readTrace (TraceHeader.encode ⟨traceMagic, traceVersion, BitVec.ofNat 16 traceRecordSize⟩ ++
        rest) =
      some (readRecords (rest.length / traceRecordSize) rest .empty).resumeSeq := by
  have hlong : ∀ hdr : TraceHeader, ¬ (hdr.encode ++ rest).length < traceHeaderSize := by
    intro hdr
    rw [List.length_append, TraceHeader.encode_length]
    exact Nat.not_lt.mpr (Nat.le_add_right _ _)
  simp only [readTrace, hlong, List.take_left' (TraceHeader.encode_length _),
    List.drop_left' (TraceHeader.encode_length _), TraceHeader.decode_encode, ne_eq,
    not_true_eq_false, or_self, if_false]

theorem writeTrace_length {queue : EventQueue} {events : List Event} (h : queue.Linked events) :
    (writeTrace queue).length = traceHeaderSize + traceRecordSize * events.length := by
  rw [writeTrace_eq h, List.length_append, TraceHeader.encode_length, List.length_flatMap]
  simp [Nat.mul_comm]

/-- Reading a file that has been cut after `k` bytes restores the events whose
records are complete, and the whole file restores the whole queue. -/
theorem readTrace_writeTrace_take {queue : EventQueue} {events : List Event}
    (h : queue.Linked events) :
    (∀ k < traceHeaderSize, readTrace ((writeTrace queue).take k) = none) ∧
      (∀ k, traceHeaderSize ≤ k → ∃ restored,
        readTrace ((writeTrace queue).take k) = some restored ∧
        restored.Linked (events.take ((k - traceHeaderSize) / traceRecordSize))) ∧
      ∃ restored, readTrace (writeTrace queue) = some restored ∧ restored.Linked events := by
  have hcut : ∀ k, traceHeaderSize ≤ k →
      ∃ restored, readTrace ((writeTrace queue).take k) = some restored ∧
        restored.Linked (events.take ((k - traceHeaderSize) / traceRecordSize)) := by
    intro k hk
    let hdr : TraceHeader := ⟨traceMagic, traceVersion, BitVec.ofNat 16 traceRecordSize⟩
    have hlength : hdr.encode.length = traceHeaderSize := TraceHeader.encode_length _
    have htake : (writeTrace queue).take k = hdr.encode ++
        (events.flatMap fun e => (TraceRecord.ofEvent e).encode).take (k - traceHeaderSize) := by
      rw [writeTrace_eq h, List.take_append, hlength, List.take_of_length_le (by rwa [hlength])]
    have hlinked := EventQueue.linked_empty.foldl_push
      (events.take ((k - traceHeaderSize) / traceRecordSize))
    rw [List.nil_append] at hlinked
    rw [htake, readTrace_header_append, readRecords_take events _ _ _ (Nat.le_refl _)]
    exact ⟨_, rfl, hlinked.resumeSeq⟩
  refine ⟨?_, hcut, ?_⟩
  · intro k hk
    exact readTrace_of_short (Nat.lt_of_le_of_lt (List.length_take_le _ _) hk)
  · have hwhole := hcut (writeTrace queue).length
      (by rw [writeTrace_length h]; exact Nat.le_add_right _ _)
    rw [List.take_length, writeTrace_length h, Nat.add_sub_cancel_left,
      Nat.mul_div_cancel_left _ (by decide), List.take_length] at hwhole
    exact hwhole

def twoEventQueue : EventQueue :=
  (EventQueue.empty.push ⟨0x1000#64, 7, 0, 3, 0, .l1dFill, 0, 2, 1, some fun _ => 9⟩).push
    ⟨0x1000#64, 7, 0, 0, 0, .memFetch, 0, 0, 3, none⟩

theorem readTrace_writeTrace_take_twoEventQueue :
    ∃ restored, readTrace ((writeTrace twoEventQueue).take 150) = some restored ∧
      restored.Linked [⟨0x1000#64, 7, 0, 3, 0, .l1dFill, 0, 2, 1, some fun _ => 9⟩] :=
  (readTrace_writeTrace_take ((EventQueue.linked_empty.push _).push _)).2.1 150 (by decide)

end CacheSimulator
