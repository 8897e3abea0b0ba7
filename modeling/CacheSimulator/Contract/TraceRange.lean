import CacheSimulator.Refinement.Player

/-!
# The replay of a trace file stays in range

`read_trace` copies the coordinates of an event from the file, and the replay
uses them as indices. Whether it stays inside its arrays is decided by the
records of the file.
-/

namespace CacheSimulator

open Rewind (Player)

/-! ## The events of a file -/

def traceEvent (bytes : List Byte) (i : ℕ) : Event :=
  (TraceRecord.decode ((bytes.drop (traceRecordSize * i)).take traceRecordSize)).toEvent

/-- The events of the complete records after the header. -/
def traceEvents (bytes : List Byte) : List Event :=
  (List.range ((bytes.drop traceHeaderSize).length / traceRecordSize)).map
    (traceEvent (bytes.drop traceHeaderSize))

theorem readRecords_eq (fuel : ℕ) (bytes : List Byte) (queue : EventQueue)
    (hfuel : bytes.length / traceRecordSize ≤ fuel) :
    readRecords fuel bytes queue =
      ((List.range (bytes.length / traceRecordSize)).map (traceEvent bytes)).foldl
        EventQueue.push queue := by
  induction fuel generalizing bytes queue with
  | zero =>
      rw [Nat.eq_zero_of_le_zero hfuel]
      rfl
  | succ fuel ih =>
      rw [readRecords]
      split
      · rename_i hshort
        rw [Nat.div_eq_of_lt hshort]
        rfl
      · rename_i hlong
        have hle : traceRecordSize ≤ bytes.length := Nat.le_of_not_lt hlong
        have hcount : bytes.length / traceRecordSize =
            (bytes.drop traceRecordSize).length / traceRecordSize + 1 := by
          rw [List.length_drop, Nat.div_eq_sub_div (by decide) hle]
        have hrest : traceEvent (bytes.drop traceRecordSize) =
            traceEvent bytes ∘ Nat.succ := by
          funext i
          simp only [traceEvent, Function.comp_apply, List.drop_drop, Nat.mul_succ, Nat.add_comm]
        rw [ih _ _ (by omega), hcount, List.range_succ_eq_map, List.map_cons, List.map_map, hrest,
          List.foldl_cons, traceEvent, Nat.mul_zero, List.drop_zero]

theorem linked_of_readTrace {bytes : List Byte} {queue : EventQueue}
    (h : readTrace bytes = some queue) : queue.Linked (traceEvents bytes) := by
  simp only [readTrace] at h
  split at h
  · cases h
  · split at h
    · cases h
    · have hlinked := EventQueue.linked_empty.foldl_push (traceEvents bytes)
      rw [readRecords_eq _ _ _ (Nat.le_refl _), Option.some.injEq] at h
      rw [List.nil_append] at hlinked
      exact h ▸ hlinked.resumeSeq

/-! ## Events in range -/

/-- The level-1 switches write a way. -/
def CacheEventType.usesL1Way : CacheEventType → Bool
  | l1dFill | l1dEvict | l1dHit | snoopInvalidate | snoopDowngrade => true
  | _ => false

/-- The level-2 switches write a way. -/
def CacheEventType.usesL2Way : CacheEventType → Bool
  | l2Fill | prefetchL2 | l2Evict | l2Hit => true
  | _ => false

/-- The coordinates the replay of the event uses are inside its arrays. -/
structure Event.InRange (e : Event) : Prop where
  level1 : e.cacheLevel = 1 → e.coreId.toNat < 2 ∧ e.setIndex.toNat < 64 ∧
    (e.type.usesL1Way → e.way.toNat < 8)
  level2 : e.cacheLevel = 2 → e.setIndex.toNat < 4096 ∧ (e.type.usesL2Way → e.way.toNat < 16)

theorem inRange_iff (e : Event) :
    e.InRange ↔ (e.cacheLevel = 1 → e.coreId.toNat < 2 ∧ e.setIndex.toNat < 64 ∧
        (e.type.usesL1Way → e.way.toNat < 8)) ∧
      (e.cacheLevel = 2 → e.setIndex.toNat < 4096 ∧ (e.type.usesL2Way → e.way.toNat < 16)) :=
  ⟨fun h => ⟨h.level1, h.level2⟩, fun h => ⟨h.1, h.2⟩⟩

instance (e : Event) : Decidable e.InRange := decidable_of_iff' _ (inRange_iff e)

theorem index_sat (n k : ℕ) :
    (index n k).Sat (fun i => i.val = k ∧ k < n) fun _ => ¬ k < n := by
  unfold index
  split
  · rename_i h
    exact ⟨rfl, h⟩
  · rename_i h
    exact h

theorem index_bind_sat {α : Type} (n k : ℕ) (f : Fin n → α) :
    (index n k >>= fun i => .ok (f i)).Sat (fun _ => k < n) fun _ => ¬ k < n :=
  (index_sat n k).bind fun _ hi => hi.2

section Switches

variable (e : Event)

theorem forwardL1_sat (set : ShadowL1) :
    (forwardL1 set e).Sat (fun _ => e.type.usesL1Way → e.way.toNat < 8)
      fun _ => ¬ (e.type.usesL1Way → e.way.toNat < 8) := by
  unfold forwardL1
  cases e.type
  all_goals first
    | exact (index_bind_sat 8 _ _).mono (fun _ h _ => h) fun _ h hall => h (hall rfl)
    | exact fun h => absurd h Bool.false_ne_true

theorem backwardL1_sat (set : ShadowL1) :
    (backwardL1 set e).Sat (fun _ => e.type.usesL1Way → e.way.toNat < 8)
      fun _ => ¬ (e.type.usesL1Way → e.way.toNat < 8) := by
  unfold backwardL1
  cases e.type
  all_goals first
    | exact (index_bind_sat 8 _ _).mono (fun _ h _ => h) fun _ h hall => h (hall rfl)
    | exact fun h => absurd h Bool.false_ne_true

theorem forwardL2_sat (set : ShadowL2) :
    (forwardL2 set e).Sat (fun _ => e.type.usesL2Way → e.way.toNat < 16)
      fun _ => ¬ (e.type.usesL2Way → e.way.toNat < 16) := by
  unfold forwardL2
  cases e.type
  all_goals first
    | exact (index_bind_sat 16 _ _).mono (fun _ h _ => h) fun _ h hall => h (hall rfl)
    | exact fun h => absurd h Bool.false_ne_true

theorem backwardL2_sat (set : ShadowL2) :
    (backwardL2 set e).Sat (fun _ => e.type.usesL2Way → e.way.toNat < 16)
      fun _ => ¬ (e.type.usesL2Way → e.way.toNat < 16) := by
  unfold backwardL2
  cases e.type
  all_goals first
    | exact (index_bind_sat 16 _ _).mono (fun _ h _ => h) fun _ h hall => h (hall rfl)
    | exact fun h => absurd h Bool.false_ne_true

end Switches

theorem inRange_level1 {e : Event} (h : e.cacheLevel = 1) :
    e.InRange ↔ e.coreId.toNat < 2 ∧ e.setIndex.toNat < 64 ∧
      (e.type.usesL1Way → e.way.toNat < 8) := by
  refine ⟨fun hin => hin.level1 h, fun hin => ⟨fun _ => hin, fun h2 => ?_⟩⟩
  rw [h] at h2
  exact absurd h2 (by decide)

theorem inRange_level2 {e : Event} (h : e.cacheLevel = 2) :
    e.InRange ↔ e.setIndex.toNat < 4096 ∧ (e.type.usesL2Way → e.way.toNat < 16) := by
  refine ⟨fun hin => hin.level2 h, fun hin => ⟨fun h1 => ?_, fun _ => hin⟩⟩
  rw [h] at h1
  exact absurd h1 (by decide)

/-- Playing an event faults exactly when the event is out of range. -/
theorem applyEventForward_sat (s : ShadowState) (e : Event) :
    (applyEventForward s e).Sat (fun _ => e.InRange) fun _ => ¬ e.InRange := by
  unfold applyEventForward
  split
  · rename_i h
    rw [inRange_level1 h]
    refine ((index_sat 2 _).mono (fun _ hi => hi.2) fun _ hc hin => hc hin.1).bind fun c hc => ?_
    refine ((index_sat 64 _).mono (fun _ hi => hi.2) fun _ hi hin => hi hin.2.1).bind fun i hi => ?_
    refine ((forwardL1_sat e _).mono (fun _ hw => hw)
      fun _ hw hin => hw hin.2.2).bind fun _ hw => ?_
    exact ⟨hc, hi, hw⟩
  · split
    · rename_i h
      rw [inRange_level2 h]
      refine ((index_sat 4096 _).mono (fun _ hi => hi.2)
        fun _ hi hin => hi hin.1).bind fun i hi => ?_
      refine ((forwardL2_sat e _).mono (fun _ hw => hw)
        fun _ hw hin => hw hin.2).bind fun _ hw => ?_
      split
      · rename_i htype
        have huses : e.type.usesL2Way = true := by rw [htype]; rfl
        refine ((index_sat 16 e.way.toNat).mono (fun _ hi => hi.2)
          fun _ hway hin => hway (hin.2 huses)).bind fun _ _ => ?_
        exact ⟨hi, hw⟩
      · exact ⟨hi, hw⟩
    · rename_i h1 h2
      exact ⟨fun h => absurd h h1, fun h => absurd h h2⟩

/-- Taking an event back faults exactly when the event is out of range. -/
theorem applyEventBackward_sat (s : ShadowState) (e : Event) :
    (applyEventBackward s e).Sat (fun _ => e.InRange) fun _ => ¬ e.InRange := by
  unfold applyEventBackward
  split
  · rename_i h
    rw [inRange_level1 h]
    refine ((index_sat 2 _).mono (fun _ hi => hi.2) fun _ hc hin => hc hin.1).bind fun c hc => ?_
    refine ((index_sat 64 _).mono (fun _ hi => hi.2) fun _ hi hin => hi hin.2.1).bind fun i hi => ?_
    refine ((backwardL1_sat e _).mono (fun _ hw => hw) fun _ hw hin => hw hin.2.2).bind
      fun _ hw => ?_
    exact ⟨hc, hi, hw⟩
  · split
    · rename_i h
      rw [inRange_level2 h]
      refine ((index_sat 4096 _).mono (fun _ hi => hi.2)
        fun _ hi hin => hi hin.1).bind fun i hi => ?_
      refine ((backwardL2_sat e _).mono (fun _ hw => hw) fun _ hw hin => hw hin.2).bind
        fun _ hw => ?_
      exact ⟨hi, hw⟩
    · rename_i h1 h2
      exact ⟨fun h => absurd h h1, fun h => absurd h h2⟩

/-! ## Every sequence of moves -/

theorem forward_plays {queue : EventQueue} {events : List Event} (h : queue.Linked events) (n : ℕ) :
    ((List.replicate n Move.stepForward).foldlM Renderer.move (Renderer.init queue)).Sat
      (fun r => ∃ p : Player Event ShadowState, r.Represents events p ∧
        p.future.length ≤ events.length - n ∧ ∀ e ∈ p.past, e.InRange) fun _ => True := by
  induction n with
  | zero => exact ⟨_, Renderer.represents_init h, Nat.le_refl _, by simp⟩
  | succ n ih =>
      rw [List.replicate_succ', List.foldlM_append]
      refine ih.bind fun r hr => ?_
      obtain ⟨p, hp, hlength, hrange⟩ := hr
      have hat : p.At (fun past _ => ∀ e ∈ past, e.InRange) events := ⟨hp.events, hrange⟩
      have hplay := Player.forward_sat Event.seq applyEventForward (F := fun _ => True) hat
        fun pre e s _ hpre => (applyEventForward_sat s e).mono
          (fun _ he x hx => (List.mem_append.mp hx).elim (hpre x) fun hx =>
            List.mem_singleton.mp hx ▸ he) fun _ _ => trivial
      have hprogress := Player.forward_future_length Event.seq applyEventForward (p := p)
      rw [List.foldlM_cons]
      refine Except.Sat.bind ((hp.stepForward.sat (hplay.and hprogress)).mono (fun _ h => h)
        fun _ _ => trivial) fun r' hr' => ?_
      obtain ⟨p', hp', hat, hless⟩ := hr'
      exact ⟨p', hp', by omega, hat.good⟩

theorem moves_ok_iff {queue : EventQueue} {events : List Event} (h : queue.Linked events) :
    (∀ moves : List Move, ∃ r, moves.foldlM Renderer.move (Renderer.init queue) = .ok r) ↔
      ∀ e ∈ events, e.InRange := by
  constructor
  · intro hall
    obtain ⟨r, hr⟩ := hall (List.replicate events.length .stepForward)
    obtain ⟨p, hp, hlength, hrange⟩ := (forward_plays h events.length).of_eq_ok hr
    rw [Nat.sub_self] at hlength
    have hfuture : p.future = [] := List.length_eq_zero_iff.mp (Nat.eq_zero_of_le_zero hlength)
    have hpast := hp.events
    rw [hfuture, List.append_nil] at hpast
    rwa [hpast] at hrange
  · intro hrange moves
    have hshows : (Renderer.init queue).Shows (fun _ _ => True) events :=
      Renderer.shows_init h trivial
    have hsat := hshows.moves_sat (F := fun _ => False)
      (fun pre e s hpre _ => (applyEventForward_sat s e).mono (fun _ _ => trivial)
        fun _ hbad => hbad (hrange e (hpre.subset (by simp))))
      (fun pre e s hpre _ => (applyEventBackward_sat s e).mono (fun _ _ => trivial)
        fun _ hbad => hbad (hrange e (hpre.subset (by simp)))) moves
    cases hrun : moves.foldlM Renderer.move (Renderer.init queue) with
    | ok r => exact ⟨r, rfl⟩
    | error e => exact (hsat.of_eq_error hrun).elim

/-- The replay of an accepted file stays in range in every sequence of moves
exactly when the records of the file are in range. -/
theorem readTrace_replay_inRange {bytes : List Byte} {queue : EventQueue}
    (h : readTrace bytes = some queue) :
    (∀ moves : List Move, ∃ r, moves.foldlM Renderer.move (Renderer.init queue) = .ok r) ↔
      ∀ e ∈ traceEvents bytes, e.InRange :=
  moves_ok_iff (linked_of_readTrace h)

def oneEventTrace (e : Event) : List Byte := writeTrace (EventQueue.empty.push e)

theorem readTrace_replay_inRange_oneEvent :
    ∃ queue, readTrace (oneEventTrace ⟨0x1000#64, 0, 63, 7, 1, .l1dFill, 0, 2, 1, none⟩) =
        some queue ∧
      ∀ moves : List Move, ∃ r, moves.foldlM Renderer.move (Renderer.init queue) = .ok r := by
  have hread : (readTrace
      (oneEventTrace ⟨0x1000#64, 0, 63, 7, 1, .l1dFill, 0, 2, 1, none⟩)).isSome := by decide +kernel
  have hrange : ∀ e ∈ traceEvents
      (oneEventTrace ⟨0x1000#64, 0, 63, 7, 1, .l1dFill, 0, 2, 1, none⟩), e.InRange := by
    decide +kernel
  obtain ⟨queue, hqueue⟩ := Option.isSome_iff_exists.mp hread
  exact ⟨queue, hqueue, (readTrace_replay_inRange hqueue).mpr hrange⟩

/-- A file that is accepted, and whose event is in set 64 of a cache with 64 sets. -/
theorem readTrace_replay_outOfRange :
    ∃ queue, readTrace (oneEventTrace ⟨0x1000#64, 0, 64, 0, 0, .l1dFill, 0, 2, 1, none⟩) =
        some queue ∧
      [Move.stepForward].foldlM Renderer.move (Renderer.init queue) = .error .outOfBounds := by
  have hrun : (readTrace (oneEventTrace ⟨0x1000#64, 0, 64, 0, 0, .l1dFill, 0, 2, 1, none⟩)).any
      fun queue => ([Move.stepForward].foldlM Renderer.move (Renderer.init queue)).throws
        .outOfBounds := by decide +kernel
  obtain ⟨queue, hqueue, hmove⟩ := (Option.any_eq_true _ _).mp hrun
  exact ⟨queue, hqueue, Except.throws_iff.mp hmove⟩

end CacheSimulator
