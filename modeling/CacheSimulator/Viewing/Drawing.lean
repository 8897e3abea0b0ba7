import CacheSimulator.Viewer
import CacheSimulator.Contract.Navigation
import CacheSimulator.Replay.Shadow

/-!
# What a frame draws

On a linked queue the drawing functions read the event at the cursor and the
events around it. What they draw is a function of the events played, the events
to come and the shadow state, and no index is outside its table as long as the
states are MESI states and the event is about a way of its cache.
-/

namespace CacheSimulator

open Rewind (Player)

/-! ## Colors -/

def MESIState.color (state : MESIState) : Color :=
  mesiColors ⟨state.toByte.toNat, isMesi_toByte state⟩

theorem mesiColor_of_isMesi {state : Byte} (h : IsMesi state) :
    mesiColor state = .ok (mesiColors ⟨state.toNat, h⟩) := by
  have hlt : state.toNat < 4 := h
  rw [mesiColor, index, dif_pos hlt]
  rfl

theorem mesiColor_toByte (state : MESIState) : mesiColor state.toByte = .ok state.color :=
  mesiColor_of_isMesi (isMesi_toByte state)

/-! ## The event log -/

section Log

variable {queue : EventQueue} {events : List Event}

theorem EventQueue.Linked.node_get (h : queue.Linked events) {i : ℕ} (hi : i < events.length) :
    queue.node i = .ok ⟨if i = 0 then none else some (i - 1),
      if i + 1 < events.length then some (i + 1) else none, events[i]⟩ := by
  rw [EventQueue.node, h.nodes, List.getElem?_mapIdx, List.getElem?_eq_getElem hi, Option.map_some]

theorem logStart_eq (h : queue.Linked events) (lines : ℕ) {i : ℕ} (hi : i < events.length) :
    logStart queue lines i = .ok (i - lines) := by
  induction lines generalizing i with
  | zero => rfl
  | succ lines ih =>
      rw [logStart, h.node_get hi, Except.ok_bind]
      cases i with
      | zero => simp only [if_true, Nat.zero_sub]
      | succ i =>
          have hprev : i < events.length := Nat.lt_of_succ_lt hi
          simp only [Nat.succ_ne_zero, if_false, Nat.add_sub_cancel]
          rw [ih hprev, Nat.add_sub_add_right]

theorem logLines_eq (h : queue.Linked events) (cursor lines i : ℕ) :
    logLines queue cursor lines (if i < events.length then some i else none) =
      .ok (((events.drop i).take lines).mapIdx fun j e => ⟨e, i + j = cursor⟩) := by
  induction lines generalizing i with
  | zero => rfl
  | succ lines ih =>
      by_cases hi : i < events.length
      · have hrest := ih (i + 1)
        rw [if_pos hi, logLines, h.node_get hi, Except.ok_bind, List.drop_eq_getElem_cons hi,
          List.take_succ_cons, List.mapIdx_cons]
        simp only [hrest, Except.ok_bind, Nat.add_zero, Nat.add_assoc, Nat.add_comm 1]
      · rw [if_neg hi, List.drop_eq_nil_of_le (Nat.le_of_not_lt hi), List.take_nil]
        rfl

/-- The lines of the log behind `n` events: 25 events back from the last one, and
50 lines from there on. -/
def logWindow (events : List Event) : ℕ → List LogLine
  | 0 => []
  | n + 1 => ((events.drop (n - logVisible / 2)).take logVisible).mapIdx fun j e =>
      ⟨e, n - logVisible / 2 + j = n⟩

end Log

/-! ## The parts of a frame -/

section Parts

variable {r : Renderer} {events : List Event} {p : Player Event ShadowState}

theorem Renderer.Represents.current (h : r.Represents events p) :
    r.current = .ok (p.past.getLast?.map fun e =>
      ⟨if p.past.length = 1 then none else some (p.past.length - 1 - 1),
        if p.future = [] then none else some p.past.length, e⟩) := by
  rw [Renderer.current, h.cursor]
  rcases List.eq_nil_or_concat' p.past with hnil | ⟨past, e, hpast⟩
  · rw [hnil]
    rfl
  · have hlinked := h.linked
    rw [← h.events, hpast, List.append_assoc, List.singleton_append] at hlinked
    rw [hpast, List.length_append, List.length_singleton, List.getLast?_concat]
    simp only [cursorAt, hlinked.node, Except.ok_bind, Option.map_some, Nat.add_eq_right,
      Nat.add_sub_cancel]

/-- The event is drawn in the cell: it is about this way of L1D. -/
def Event.marks (e : Event) (c : Fin 2) (i : Fin 64) (w : Fin 8) : Bool :=
  e.cacheLevel = 1 ∧ e.coreId.toNat = c.val ∧ e.setIndex.toNat = i.val ∧ e.way.toNat = w.val

theorem drawL1d_eq (h : r.Represents events p) {c : Fin 2} {state : Fin 64 → Fin 8 → MESIState}
    (hstate : ∀ i w, (r.shadow.l1d c i).state w = (state i w).toByte) :
    drawL1d r c = .ok ((List.finRange 64).map fun i => (List.finRange 8).map fun w =>
      ⟨(state i w).color, p.past.getLast?.any (·.marks c i w)⟩) := by
  rw [drawL1d, h.current, Except.ok_bind]
  simp only [hstate, mesiColor_toByte, Except.ok_bind, Option.any_map]
  exact (congrArg (List.mapM · _) (funext fun i => List.mapM_pure)).trans List.mapM_pure

theorem drawL2Overview_eq (h : ∀ i, IsMesi (r.shadow.l2Dominant i)) :
    drawL2Overview r = .ok ((List.finRange 4096).map fun i =>
      ⟨mesiColors ⟨(r.shadow.l2Dominant i).toNat, h i⟩,
        (List.finRange 16).any fun w => 0 < r.shadow.flash i w⟩) := by
  unfold drawL2Overview
  simp only [fun i => mesiColor_of_isMesi (h i), Except.ok_bind]
  exact List.mapM_pure

theorem drawEventLog_eq (h : r.Represents events p) :
    drawEventLog r = .ok (logWindow events p.past.length) := by
  rw [drawEventLog, h.cursor]
  rcases List.eq_nil_or_concat' p.past with hnil | ⟨past, e, hpast⟩
  · rw [hnil]
    rfl
  · have hlength : p.past.length = past.length + 1 := by simp [hpast]
    have hlt : past.length < events.length := by
      rw [← h.events, List.length_append, hlength]
      omega
    have hstart : past.length - logVisible / 2 < events.length :=
      Nat.lt_of_le_of_lt (Nat.sub_le _ _) hlt
    rw [hlength, cursorAt]
    dsimp only
    rw [logStart_eq h.linked _ hlt, Except.ok_bind]
    have hlines := logLines_eq h.linked past.length logVisible (past.length - logVisible / 2)
    rwa [if_pos hstart] at hlines

/-! ## The detail pane -/

/-- The detail shows a set with these states and bytes. It is about the way of the
event, or about some way in use when the event is not on this core. -/
structure LineDetail.Of (d : LineDetail) (state : Fin 8 → MESIState) (data : Fin 8 → Line)
    (offset : ℕ) (way : Option (Fin 8)) : Prop where
  bytes : ∀ shown, d.bytes = some shown → ∃ w : Fin 8, d.way = w.val ∧ state w ≠ .invalid ∧
    d.state = (state w).toByte ∧ shown = (List.finRange 64).map fun b =>
      (data w b, way.isSome && (offset ≤ b.val && b.val < offset + 4))
  active : ∀ w ∈ way, d.way = w.val ∧ (d.bytes = none ↔ state w = .invalid)
  other : way = none → (d.bytes = none ↔ ∀ w, state w = .invalid)

theorem drawCoreCacheline_sat {e : Event} {l : L1Loc} {c : Fin 2} {state : Fin 8 → MESIState}
    {data : Fin 8 → Line} (h : r.Represents events p) (hlast : p.past.getLast? = some e)
    (hat : e.AtL1 l) (hstate : ∀ w, (r.shadow.l1d c l.2.1).state w = (state w).toByte)
    (hdata : ∀ w, state w ≠ .invalid → (r.shadow.l1d c l.2.1).data w = data w) (offset : ℕ)
    (isActive : Bool) :
    (drawCoreCacheline r c e.setIndex.toNat offset isActive).Sat
      (fun d => d.Of state data offset (if isActive then some l.2.2 else none)) fun _ => False := by
  have hset : index 64 e.setIndex.toNat = .ok l.2.1 := by
    rw [hat.set]
    exact index_ofNat _ (by decide)
  have hway : index 8 e.way.toNat = .ok l.2.2 := by
    rw [hat.way]
    exact index_ofNat _ (by decide)
  have hused : ∀ w, ((r.shadow.l1d c l.2.1).state w ≠ MESIState.invalid.toByte ↔
      state w ≠ .invalid) := fun w => by rw [hstate, ne_eq, MESIState.toByte_inj]
  rw [drawCoreCacheline, hset, Except.ok_bind, h.current, hlast, Except.ok_bind, Option.map_some]
  cases isActive with
  | true =>
      simp only [hway, Except.ok_bind, hused]
      refine ⟨fun shown hshown => ?_, fun w hw => ?_, fun hnone => by cases hnone⟩
      · obtain ⟨hw, heq⟩ := Option.ite_none_right_eq_some.mp hshown
        obtain rfl := Option.some.inj heq
        exact ⟨l.2.2, rfl, hw, hstate _, by rw [hdata _ hw]; rfl⟩
      · obtain rfl : l.2.2 = w := Option.some.inj hw
        exact ⟨rfl, by simp⟩
  | false =>
      simp only [hused]
      cases hfind : (List.finRange 8).find? fun w => decide (state w ≠ .invalid) with
      | some w =>
          have hw : state w ≠ .invalid := of_decide_eq_true (List.find?_some hfind :)
          refine ⟨fun shown hshown => ?_, fun w' hw' => (by cases hw'), fun _ => ?_⟩
          · obtain rfl := Option.some.inj hshown
            exact ⟨w, rfl, hw, hstate _, by rw [hdata _ hw]; rfl⟩
          · exact iff_of_false (by simp) fun hall => hw (hall w)
      | none =>
          refine ⟨fun shown hshown => (by cases hshown), fun w' hw' => (by cases hw'), fun _ => ?_⟩
          refine iff_of_true rfl fun w => ?_
          have hw := List.find?_eq_none.mp hfind w (List.mem_finRange w)
          simpa using hw

def DetailOf (detail : Option (LineDetail × LineDetail)) (last : Option Event)
    (state : Fin 2 → Fin 64 → Fin 8 → MESIState) (data : Fin 2 → Fin 64 → Fin 8 → Line) : Prop :=
  match detail with
  | none => ∀ e ∈ last, e.cacheLevel ≠ 1
  | some d => ∃ e ∈ last, ∃ l : L1Loc, e.AtL1 l ∧ ∀ c : Fin 2,
      (if c = 0 then d.1 else d.2).Of (state c l.2.1) (data c l.2.1) (e.address &&& 0x3F#64).toNat
        (if l.1 = c then some l.2.2 else none)

theorem drawCachelineDetail_sat {state : Fin 2 → Fin 64 → Fin 8 → MESIState}
    {data : Fin 2 → Fin 64 → Fin 8 → Line} (h : r.Represents events p)
    (hplaced : ∀ e ∈ p.past, e.cacheLevel = 1 → ∃ l, e.AtL1 l)
    (hstate : ∀ c i w, (r.shadow.l1d c i).state w = (state c i w).toByte)
    (hdata : ∀ c i w, state c i w ≠ .invalid → (r.shadow.l1d c i).data w = data c i w) :
    (drawCachelineDetail r).Sat (DetailOf · p.past.getLast? state data) fun _ => False := by
  rw [drawCachelineDetail, h.current, Except.ok_bind]
  cases hlast : p.past.getLast? with
  | none => exact fun e he => (by cases he)
  | some e =>
      simp only [Option.map_some]
      split
      · rename_i hlevel
        rintro e' he'
        obtain rfl := Option.some.inj he'
        exact hlevel
      · rename_i hlevel
        obtain ⟨l, hat⟩ := hplaced e (List.mem_of_getLast? hlast) (not_not.mp hlevel)
        have hcore : ∀ c : Fin 2, decide (e.coreId = BitVec.ofNat 8 c) = decide (l.1 = c) := by
          intro c
          rw [hat.core]
          revert c
          generalize l.1 = c'
          revert c'
          decide
        refine (drawCoreCacheline_sat h hlast hat (hstate 0 _) (hdata 0 _) _ _).bind
          fun first hfirst => ?_
        refine (drawCoreCacheline_sat h hlast hat (hstate 1 _) (hdata 1 _) _ _).bind
          fun second hsecond => ?_
        refine ⟨e, rfl, l, hat, fun c => ?_⟩
        have hcases : ∀ c : Fin 2, c = 0 ∨ c = 1 := by decide
        have hzero := hcore 0
        have hone := hcore 1
        rcases hcases c with rfl | rfl
        · rw [show decide (e.coreId = 0) = _ from hzero] at hfirst
          simpa using hfirst
        · rw [show decide (e.coreId = 1) = _ from hone] at hsecond
          simpa using hsecond

end Parts

end CacheSimulator
