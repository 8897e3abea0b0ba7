import CacheSimulator.Renderer
import CacheSimulator.Library.Rewind

/-!
# The renderer is a player

On a linked queue the cursor splits the list of events, and `step_forward` and
`step_backward` move it as a player over that list moves, with the sequence
number as the key of an event.
-/

namespace CacheSimulator

open Rewind (Player firstStep lastStep positionAfter positionBefore)

namespace EventQueue

theorem Linked.node {queue : EventQueue} {past rest : List Event} {e : Event}
    (h : queue.Linked (past ++ e :: rest)) :
    queue.node past.length = .ok ⟨if past.length = 0 then none else some (past.length - 1),
      if rest = [] then none else some (past.length + 1), e⟩ := by
  have hlt : past.length < (past ++ e :: rest).length := by simp
  have hnext : past.length + 1 < (past ++ e :: rest).length ↔ rest ≠ [] := by
    rw [List.length_append, List.length_cons, ← List.length_pos_iff]
    omega
  have hget : queue.nodes[past.length]? = some ⟨if past.length = 0 then none else
      some (past.length - 1), if rest = [] then none else some (past.length + 1), e⟩ := by
    rw [h.nodes, List.getElem?_mapIdx, List.getElem?_eq_getElem hlt, Option.map_some]
    simp only [hnext, ite_not, List.getElem_append_right (Nat.le_refl _), Nat.sub_self,
      List.getElem_cons_zero]
  rw [EventQueue.node, hget]

theorem Linked.exists_node {queue : EventQueue} {events : List Event} (h : queue.Linked events)
    {i : ℕ} (hi : i < events.length) : ∃ node, queue.node i = .ok node := by
  rw [← h.nodes_length] at hi
  exact ⟨queue.nodes[i], by rw [EventQueue.node, List.getElem?_eq_getElem hi]⟩

end EventQueue

def cursorAt : ℕ → Option ℕ
  | 0 => none
  | n + 1 => some n

section Loops

variable {queue : EventQueue} (seq : BitVec 32)

theorem forwardWhile_eq {past rest : List Event} {x : Event}
    (h : queue.Linked (past ++ x :: rest)) (fuel : ℕ) (hfuel : rest.length ≤ fuel)
    (shadow : ShadowState) :
    forwardWhile queue seq fuel past.length shadow =
      (rest.takeWhile fun e => e.seq = seq).foldlM applyEventForward shadow >>= fun shadow =>
        .ok (past.length + (rest.takeWhile fun e => e.seq = seq).length, shadow) := by
  induction rest generalizing past x fuel shadow with
  | nil =>
      cases fuel with
      | zero => rfl
      | succ fuel =>
          rw [forwardWhile, h.node]
          rfl
  | cons e rest ih =>
      cases fuel with
      | zero => exact absurd hfuel (Nat.not_succ_le_zero _)
      | succ fuel =>
          have hnext : queue.Linked ((past ++ [x]) ++ e :: rest) := by
            rwa [List.append_assoc, List.singleton_append]
          have hnode := hnext.node
          rw [List.length_append, List.length_singleton] at hnode
          rw [forwardWhile, h.node]
          simp only [Except.ok_bind, reduceCtorEq, if_false, hnode]
          by_cases he : e.seq = seq
          · have htail := ih hnext fuel (Nat.le_of_succ_le_succ hfuel)
            rw [List.length_append, List.length_singleton] at htail
            rw [List.takeWhile_cons_of_pos (by simpa using he), List.foldlM_cons, if_pos he,
              bind_assoc, List.length_cons]
            simp only [htail, Nat.add_assoc, Nat.add_comm 1]
          · rw [List.takeWhile_cons_of_neg (by simpa using he), if_neg he]
            rfl

theorem backwardWhile_eq {past future : List Event} (h : queue.Linked (past.reverse ++ future))
    (fuel : ℕ) (hfuel : past.length ≤ fuel) (shadow : ShadowState) :
    backwardWhile queue seq fuel (cursorAt past.length) shadow =
      (past.takeWhile fun e => e.seq = seq).foldlM applyEventBackward shadow >>= fun shadow =>
        .ok (cursorAt (past.length - (past.takeWhile fun e => e.seq = seq).length), shadow) := by
  induction past generalizing future fuel shadow with
  | nil =>
      cases fuel with
      | zero => rfl
      | succ fuel => rfl
  | cons e past ih =>
      cases fuel with
      | zero => exact absurd hfuel (Nat.not_succ_le_zero _)
      | succ fuel =>
          have hprev : queue.Linked (past.reverse ++ e :: future) := by
            rwa [List.reverse_cons, List.append_assoc, List.singleton_append] at h
          have hnode := hprev.node
          have hcursor : (if past.length = 0 then none else some (past.length - 1)) =
              cursorAt past.length := by
            cases past.length with
            | zero => rfl
            | succ n => rfl
          rw [List.length_reverse, hcursor] at hnode
          rw [List.length_cons, cursorAt, backwardWhile, hnode]
          simp only [Except.ok_bind]
          by_cases he : e.seq = seq
          · rw [List.takeWhile_cons_of_pos (by simpa using he), List.foldlM_cons, if_pos he,
              bind_assoc, List.length_cons]
            simp only [ih hprev fuel (Nat.le_of_succ_le_succ hfuel), Nat.add_sub_add_right]
          · rw [List.takeWhile_cons_of_neg (by simpa using he), if_neg he]
            rfl

end Loops

structure Renderer.Represents (r : Renderer) (events : List Event)
    (p : Player Event ShadowState) : Prop where
  linked : r.queue.Linked events
  events : p.past ++ p.future = events
  cursor : r.cursor = cursorAt p.past.length
  shadow : r.shadow = p.state

def Renderer.played (r : Renderer) : ℕ :=
  match r.cursor with
  | none => 0
  | some n => n + 1

variable {r : Renderer} {events : List Event} {p : Player Event ShadowState}

theorem Renderer.Represents.played (h : r.Represents events p) : r.played = p.past.length := by
  rw [Renderer.played, h.cursor]
  cases p.past.length with
  | zero => rfl
  | succ n => rfl

theorem Renderer.represents_init {queue : EventQueue} (h : queue.Linked events) :
    (Renderer.init queue).Represents events ⟨[], events, .zero⟩ :=
  ⟨h, rfl, rfl, rfl⟩

/-- What a forward step leaves behind: the events of the step are moved over. -/
theorem Renderer.represents_forward {queue : EventQueue} (past : List Event) {rest : List Event}
    {e : Event} (h : queue.Linked (past ++ e :: rest)) (seq : BitVec 32) (shadow : ShadowState) :
    Renderer.Represents
      ⟨queue, some (past.length + (rest.takeWhile fun x => x.seq = e.seq).length), shadow, seq⟩
      (past ++ e :: rest)
      ⟨past ++ e :: rest.takeWhile fun x => x.seq = e.seq,
        (e :: rest).drop (e :: rest.takeWhile fun x => x.seq = e.seq).length, shadow⟩ where
  linked := h
  events := by
    obtain ⟨after, hafter⟩ := List.takeWhile_prefix (fun x : Event => x.seq = e.seq) (l := rest)
    have hdrop : rest.drop (rest.takeWhile fun x => x.seq = e.seq).length = after := by
      conv_lhs => arg 2; rw [← hafter]
      exact List.drop_left
    rw [List.length_cons, List.drop_succ_cons, hdrop, List.append_assoc, List.cons_append, hafter]
  cursor := by
    rw [List.length_append, List.length_cons]
    rfl
  shadow := rfl

theorem Renderer.Represents.stepForward (h : r.Represents events p) :
    Except.Rel (fun r p => r.Represents events p) (CacheSimulator.stepForward r)
      (p.forward Event.seq applyEventForward) := by
  obtain ⟨past, future, state⟩ := p
  obtain ⟨queue, cursor, shadow, currentSeq⟩ := r
  obtain ⟨hlinked, hevents, hcursor, hshadow⟩ := h
  dsimp only at hlinked hevents hcursor hshadow
  subst hevents hcursor hshadow
  cases future with
  | nil =>
      have hstay : CacheSimulator.stepForward ⟨queue, cursorAt past.length, shadow, currentSeq⟩ =
          .ok ⟨queue, cursorAt past.length, shadow, currentSeq⟩ := by
        rcases List.eq_nil_or_concat' past with rfl | ⟨past, x, rfl⟩
        · have hfirst : queue.first = none := hlinked.first
          simp only [CacheSimulator.stepForward, List.length_nil, cursorAt, hfirst]
        · rw [List.append_assoc, List.singleton_append] at hlinked
          rw [List.length_append, List.length_singleton]
          simp only [CacheSimulator.stepForward, cursorAt, hlinked.node, Except.ok_bind, if_true]
      rw [hstay]
      exact ⟨hlinked, by simp [firstStep], by simp [firstStep], rfl⟩
  | cons e rest =>
      have hfuel : rest.length + 1 ≤ queue.nodes.length := by
        rw [hlinked.nodes_length, List.length_append, List.length_cons]
        exact Nat.le_add_left _ _
      rcases List.eq_nil_or_concat' past with rfl | ⟨past, x, rfl⟩
      · have hfirst : queue.first = some 0 := hlinked.first
        have hnode := hlinked.node
        have hloop := forwardWhile_eq e.seq hlinked _ (Nat.le_of_succ_le hfuel)
        rw [List.length_nil] at hnode hloop
        simp only [CacheSimulator.stepForward, List.length_nil, cursorAt, hfirst, hnode,
          Except.ok_bind, hloop, Player.forward, Rewind.firstStep_cons, List.foldlM_cons,
          bind_assoc]
        exact Except.rel_bind fun _ => Except.rel_bind fun shadow =>
          Renderer.represents_forward [] hlinked e.seq shadow
      · have hnext := hlinked.node
        have hcursor : queue.Linked (past ++ x :: e :: rest) := by
          rwa [List.append_assoc, List.singleton_append] at hlinked
        have hloop := forwardWhile_eq e.seq hcursor _ hfuel
        rw [List.length_append, List.length_singleton] at hnext
        simp only [CacheSimulator.stepForward, List.length_append, List.length_singleton, cursorAt,
          hcursor.node, reduceCtorEq, if_false, hnext, Except.ok_bind, hloop, Player.forward,
          Rewind.firstStep_cons, bind_assoc, List.takeWhile_cons_of_pos, decide_true]
        refine Except.rel_bind fun shadow => ?_
        have hrep := Renderer.represents_forward _ hlinked e.seq shadow
        rw [List.length_append, List.length_singleton, Nat.add_assoc, Nat.add_comm 1] at hrep
        exact hrep

/-- `step_forward` applies the next events with one sequence number. -/
theorem Renderer.Represents.stepForward_group {past group rest : List Event}
    {s s' : ShadowState} {seq : BitVec 32} (h : r.Represents events ⟨past, group ++ rest, s⟩)
    (hne : group ≠ []) (hseq : ∀ e ∈ group, e.seq = seq) (hrest : ∀ e ∈ rest.head?, e.seq ≠ seq)
    (hplay : group.foldlM applyEventForward s = .ok s') :
    ∃ r', CacheSimulator.stepForward r = .ok r' ∧
      r'.Represents events ⟨past ++ group, rest, s'⟩ := by
  have hstep := h.stepForward
  rw [Player.forward_group Event.seq applyEventForward hne hseq hrest hplay] at hstep
  exact hstep.of_ok

/-- What a backward step leaves behind: the events `step` are moved over. -/
theorem Renderer.represents_backward {queue : EventQueue} {past step future : List Event}
    (h : queue.Linked (past ++ future)) (hstep : step <:+ past) (seq : BitVec 32)
    (shadow : ShadowState) :
    Renderer.Represents ⟨queue, cursorAt (past.length - step.length), shadow, seq⟩
      (past ++ future) ⟨past.take (past.length - step.length), step ++ future, shadow⟩ where
  linked := h
  events := by
    obtain ⟨before, hbefore⟩ := hstep
    subst hbefore
    rw [List.length_append, Nat.add_sub_cancel, List.take_left, List.append_assoc]
  cursor := by rw [List.length_take, Nat.min_eq_left (Nat.sub_le _ _)]
  shadow := rfl

theorem Renderer.Represents.stepBackward (h : r.Represents events p) :
    Except.Rel (fun r p => r.Represents events p) (CacheSimulator.stepBackward r)
      (p.backward Event.seq applyEventBackward) := by
  obtain ⟨past, future, state⟩ := p
  obtain ⟨queue, cursor, shadow, currentSeq⟩ := r
  obtain ⟨hlinked, hevents, hcursor, hshadow⟩ := h
  dsimp only at hlinked hevents hcursor hshadow
  subst hevents hcursor hshadow
  rcases List.eq_nil_or_concat' past with rfl | ⟨past, x, rfl⟩
  · exact ⟨hlinked, rfl, rfl, rfl⟩
  · have hsplit : queue.Linked (past ++ x :: future) := by
      rwa [List.append_assoc, List.singleton_append] at hlinked
    have hreverse : queue.Linked ((past ++ [x]).reverse.reverse ++ future) := by
      rwa [List.reverse_reverse]
    have hfuel : (past ++ [x]).reverse.length ≤ queue.nodes.length := by
      rw [hlinked.nodes_length, List.length_reverse]
      exact (List.prefix_append (past ++ [x]) future).length_le
    have hloop := backwardWhile_eq x.seq hreverse _ hfuel
    have hstep : lastStep Event.seq (past ++ [x]) =
        ((past ++ [x]).reverse.takeWhile fun e => e.seq = x.seq).reverse := by
      rw [lastStep, List.reverse_append, List.reverse_singleton, List.singleton_append, firstStep]
    have hsuffix := Rewind.lastStep_isSuffix Event.seq (past ++ [x])
    rw [hstep] at hsuffix
    generalize (past ++ [x]).reverse.takeWhile (fun e => e.seq = x.seq) = step at *
    have hcount : (past ++ [x]).length = past.length + 1 := by simp
    rw [List.length_reverse, hcount, cursorAt] at hloop
    simp only [CacheSimulator.stepBackward, hcount, cursorAt, hsplit.node, Except.ok_bind, hloop,
      Player.backward, hstep, List.reverse_reverse, List.length_reverse, bind_assoc]
    refine Except.rel_bind fun shadow => ?_
    have hrep := fun seq => Renderer.represents_backward hlinked hsuffix seq shadow
    rw [List.length_reverse, hcount] at hrep
    cases hcursor : past.length + 1 - step.length with
    | zero =>
        rw [hcursor] at hrep
        exact hrep 0
    | succ n =>
        have hlt : n < (past ++ [x] ++ future).length := by
          rw [List.length_append, hcount]
          omega
        obtain ⟨node, hnode⟩ := hlinked.exists_node hlt
        rw [hcursor] at hrep
        simp only [hnode, Except.ok_bind]
        exact hrep node.event.seq

/-! ## The rule of the renderer -/

def Renderer.Shows (Good : List Event → ShadowState → Prop) (events : List Event) (r : Renderer) :
    Prop :=
  ∃ p : Player Event ShadowState, r.Represents events p ∧ Good p.past p.state

section Rule

variable {Good : List Event → ShadowState → Prop} {F : Fault → Prop}

theorem Renderer.shows_init {queue : EventQueue} (h : queue.Linked events)
    (hzero : Good [] .zero) : (Renderer.init queue).Shows Good events :=
  ⟨_, Renderer.represents_init h, hzero⟩

theorem Renderer.Shows.stepForward_sat (h : r.Shows Good events)
    (hredo : ∀ pre e s, pre ++ [e] <+: events → Good pre s →
      (applyEventForward s e).Sat (Good (pre ++ [e])) F) :
    (CacheSimulator.stepForward r).Sat (Renderer.Shows Good events) F := by
  obtain ⟨p, hp, hgood⟩ := h
  have hplay := Player.forward_sat Event.seq applyEventForward ⟨hp.events, hgood⟩ hredo
  exact (hp.stepForward.sat hplay).imp fun _ ⟨p', hp', hat⟩ => ⟨p', hp', hat.good⟩

theorem Renderer.Shows.stepBackward_sat (h : r.Shows Good events)
    (hundo : ∀ pre e s, pre ++ [e] <+: events →
      positionBefore Event.seq events r.played ≤ pre.length ∧ pre.length < r.played →
        Good (pre ++ [e]) s → (applyEventBackward s e).Sat (Good pre) F) :
    (CacheSimulator.stepBackward r).Sat (Renderer.Shows Good events) F := by
  obtain ⟨p, hp, hgood⟩ := h
  rw [hp.played] at hundo
  have hplay := Player.backward_sat Event.seq applyEventBackward ⟨hp.events, hgood⟩ hundo
  exact (hp.stepBackward.sat hplay).imp fun _ ⟨p', hp', hat⟩ => ⟨p', hp', hat.good⟩

theorem Renderer.Shows.played_stepForward {r' : Renderer} (h : r.Shows Good events)
    (hmove : CacheSimulator.stepForward r = .ok r') :
    r'.played = positionAfter Event.seq events r.played := by
  obtain ⟨p, hp, -⟩ := h
  obtain ⟨p', hp', hstep⟩ := (hp.stepForward.sat (Except.sat_returned _)).of_eq_ok hmove
  rw [hp'.played, Player.position_forward _ hstep, hp.events, hp.played]

theorem Renderer.Shows.played_stepBackward {r' : Renderer} (h : r.Shows Good events)
    (hmove : CacheSimulator.stepBackward r = .ok r') :
    r'.played = positionBefore Event.seq events r.played := by
  obtain ⟨p, hp, -⟩ := h
  obtain ⟨p', hp', hstep⟩ := (hp.stepBackward.sat (Except.sat_returned _)).of_eq_ok hmove
  rw [hp'.played, Player.position_backward _ hstep, hp.events, hp.played]

/-- What every event keeps in both directions holds after every sequence of moves. -/
theorem Renderer.Shows.moves_sat (h : r.Shows Good events)
    (hredo : ∀ pre e s, pre ++ [e] <+: events → Good pre s →
      (applyEventForward s e).Sat (Good (pre ++ [e])) F)
    (hundo : ∀ pre e s, pre ++ [e] <+: events → Good (pre ++ [e]) s →
      (applyEventBackward s e).Sat (Good pre) F) (moves : List Move) :
    (moves.foldlM Renderer.move r).Sat (Renderer.Shows Good events) F := by
  induction moves generalizing r with
  | nil => exact h
  | cons m moves ih =>
      rw [List.foldlM_cons]
      have hstep : (r.move m).Sat (Renderer.Shows Good events) F := by
        cases m with
        | stepForward => exact h.stepForward_sat hredo
        | stepBackward => exact h.stepBackward_sat fun pre e s hpre _ => hundo pre e s hpre
      exact hstep.bind fun r' hr' => ih hr'

end Rule

/-! ## The events taken back -/

/-- The numbers of the events that the moves take back, each with the number of events
that have been played by then. The first `n` events are played now, the first `top` have
been. -/
def takenBack (events : List Event) : List Move → ℕ → ℕ → List (ℕ × ℕ)
  | [], _, _ => []
  | .stepForward :: moves, n, top =>
      takenBack events moves (positionAfter Event.seq events n)
        (max top (positionAfter Event.seq events n))
  | .stepBackward :: moves, n, top =>
      (List.range' (positionBefore Event.seq events n)
          (n - positionBefore Event.seq events n)).map (·, top) ++
        takenBack events moves (positionBefore Event.seq events n) top

section TakenBack

variable {Good : ℕ → List Event → ShadowState → Prop} {F : Fault → Prop}

/-- What every event keeps when it is played, and when it is taken back at one of the
times the moves do so, holds after the moves. -/
theorem Renderer.Shows.takenBack_sat {moves : List Move} {top : ℕ} (htop : r.played ≤ top)
    (h : r.Shows (Good top) events)
    (hredo : ∀ top pre e s, pre ++ [e] <+: events → Good top pre s →
      (applyEventForward s e).Sat (Good (max top (pre.length + 1)) (pre ++ [e])) F)
    (hundo : ∀ top' pre e s, pre ++ [e] <+: events →
      (pre.length, top') ∈ takenBack events moves r.played top → pre.length < top' →
        Good top' (pre ++ [e]) s → (applyEventBackward s e).Sat (Good top' pre) F) :
    (moves.foldlM Renderer.move r).Sat (fun r => ∃ top, r.Shows (Good top) events) F := by
  induction moves generalizing r top with
  | nil => exact ⟨top, h⟩
  | cons m moves ih =>
      rw [List.foldlM_cons]
      cases m with
      | stepForward =>
          have hgood : r.Shows (fun pre => Good (max top pre.length) pre) events := by
            obtain ⟨p, hp, hgood⟩ := h
            have hmax : max top p.past.length = top := Nat.max_eq_left (hp.played ▸ htop)
            refine ⟨p, hp, ?_⟩
            change Good (max top p.past.length) p.past p.state
            rwa [hmax]
          have hstep := hgood.stepForward_sat (F := F) fun pre e s hpre hs => by
            rw [List.length_append, List.length_singleton,
              show max top (pre.length + 1) = max (max top pre.length) (pre.length + 1) by omega]
            exact hredo _ pre e s hpre hs
          refine hstep.returned.bind fun r' hr' => ?_
          have hplayed := h.played_stepForward hr'.1
          rw [takenBack, ← hplayed] at hundo
          refine ih (Nat.le_max_right _ _) ?_ hundo
          obtain ⟨p, hp, hgood⟩ := hr'.2
          exact ⟨p, hp, hp.played ▸ hgood⟩
      | stepBackward =>
          rw [takenBack] at hundo
          have hstep := h.stepBackward_sat (F := F) fun pre e s hpre hlast hs => by
            refine hundo top pre e s hpre (List.mem_append_left _ ?_) (by omega) hs
            exact List.mem_map.mpr ⟨pre.length, by rw [List.mem_range'_1]; omega, rfl⟩
          refine hstep.returned.bind fun r' hr' => ?_
          have hplayed := h.played_stepBackward hr'.1
          rw [← hplayed] at hundo
          refine ih (Nat.le_trans ?_ htop) hr'.2 fun top' pre e s hpre hmem =>
            hundo top' pre e s hpre (List.mem_append_right _ hmem)
          rw [hplayed]
          exact Nat.sub_le _ _

end TakenBack

end CacheSimulator
