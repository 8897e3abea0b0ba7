import CacheSimulator.Viewing.Recordings
import CacheSimulator.Contract.Statistics

/-!
# The viewer shows the machine

A recording that is written to a file, read back and viewed shows, in every frame
and whatever keys are pressed, the machine as it was after some of its calls. As
long as the viewer is not taken back, it shows the bytes of the L1D lines and the
L2 sets in use as well.
-/

namespace CacheSimulator

open Rewind (Player)

/-! ## Pictures -/

structure StatsLines.Shows (lines : StatsLines) (pmc : PerfCounters) : Prop where
  l1dHits : lines.counters.l1dHits = pmc.l1dHits
  l2Hits : lines.counters.l2Hits = pmc.l2Hits
  memFetches : lines.counters.memFetches = pmc.memFetches
  rate : lines.rate = if 0 < pmc.l1dHits + pmc.l2Hits + pmc.memFetches then
    some (pmc.l1dHits, pmc.l1dHits + pmc.l2Hits + pmc.memFetches) else none

/-- The picture shows the machine `sim`, which has recorded the first of the `events`. -/
structure Picture.Shows (picture : Picture) (events : List Event) (sim : Sim) : Prop where
  /-- Every way of L1D has the color of its state, and the way of the last event is marked. -/
  l1d : ∀ c, picture.l1d c = (List.finRange 64).map fun i => (List.finRange 8).map fun w =>
    ⟨((sim.l1 .data c i).state w).color, sim.events.getLast?.any (·.marks c i w)⟩
  stats : ∀ c, (picture.stats c).Shows (sim.cpu.cores c).pmc
  step : picture.controls.step = (sim.events.getLast?.map Event.seq).getD 0
  maxSeq : picture.controls.maxSeq = (events.getLast?.map Event.seq).getD 0
  finished : picture.controls.state = .finished ↔ sim.events ≠ [] ∧ sim.events = events
  speed : ∃ k ≤ 6, picture.controls.speed = 2 ^ k
  log : picture.log = logWindow events sim.events.length

/-- The detail pane shows the bytes of the ways of the machine, and the overview of L2
its empty sets. -/
structure Picture.ShowsContents (picture : Picture) (sim : Sim) : Prop where
  bytes : DetailOf picture.detail sim.events.getLast? (fun c i w => (sim.l1 .data c i).state w)
    fun c i w => (sim.l1 .data c i).data w
  l2 : picture.l2.map (fun cell => decide (cell.color = MESIState.invalid.color)) =
    (List.finRange 4096).map fun i => decide (∀ w, (sim.l2 i).state w = .invalid)

/-- The overview shows an empty set as INVALID, and no other one. -/
theorem color_dominantState {set : ShadowL2} (h : ∀ w, IsMesi (set.state w))
    (hdominant : IsMesi (dominantState set)) :
    mesiColors ⟨(dominantState set).toNat, hdominant⟩ = MESIState.invalid.color ↔
      ∀ w, set.state w = MESIState.invalid.toByte := by
  obtain ⟨⟨w₀, hw₀⟩, hhighest⟩ := dominantState_highest set h
  have hinjective : ∀ i : Fin 4, mesiColors i = MESIState.invalid.color → i = 0 := by decide
  constructor
  · intro hcolor w
    have hzero : (dominantState set).toNat = 0 := congrArg Fin.val (hinjective _ hcolor)
    have hinvalid : dominantState set = MESIState.invalid.toByte := BitVec.eq_of_toNat_eq hzero
    have hle := hhighest w
    rw [hinvalid] at hle
    exact eq_invalid_of_priority (h w) (Nat.eq_zero_of_le_zero hle)
  · intro hall
    have hinvalid : dominantState set = MESIState.invalid.toByte := hw₀.symm.trans (hall w₀)
    exact congrArg mesiColors (Fin.ext (congrArg BitVec.toNat hinvalid))

theorem EventQueue.Linked.maxSeq {queue : EventQueue} {events : List Event}
    (h : queue.Linked events) :
    queue.maxSeq = .ok ((events.getLast?.map Event.seq).getD 0) := by
  rw [EventQueue.maxSeq, h.last]
  rcases List.eq_nil_or_concat' events with rfl | ⟨init, e, rfl⟩
  · rfl
  · rw [if_neg (by simp), List.length_append, List.length_singleton, Nat.add_sub_cancel]
    simp only [h.node, Except.ok_bind, List.getLast?_concat, Option.map_some, Option.getD_some]

section Frame

variable {v : Viewer} {events : List Event} {p : Player Event ShadowState}

theorem drawControls_eq (h : v.Represents events p) (hseq : v.SeqShown) :
    drawControls v = .ok ⟨if p.past ≠ [] ∧ p.future = [] then .finished else
        if v.playing then .playing else .paused,
      (p.past.getLast?.map Event.seq).getD 0, (events.getLast?.map Event.seq).getD 0, v.speed⟩ := by
  have hmax := h.linked.maxSeq
  have hstep : v.currentSeq = (p.past.getLast?.map Event.seq).getD 0 := by
    have hcursor := h.cursor
    unfold Renderer.SeqShown at hseq
    rcases List.eq_nil_or_concat' p.past with hnil | ⟨past, e, hpast⟩
    · rw [hnil] at hcursor ⊢
      rw [hcursor] at hseq
      exact hseq
    · have hlinked := h.linked
      rw [← h.events, hpast, List.append_assoc, List.singleton_append] at hlinked
      rw [hpast, List.length_append, List.length_singleton] at hcursor
      rw [hcursor] at hseq
      obtain ⟨node, hnode, hcurrent⟩ := hseq
      rw [hlinked.node, Except.ok.injEq] at hnode
      rw [hpast, List.getLast?_concat, hcurrent, ← hnode]
      rfl
  rw [drawControls, h.current, Except.ok_bind]
  simp only [hmax, Except.ok_bind, hstep, Option.any_map]
  rcases List.eq_nil_or_concat' p.past with hnil | ⟨past, e, hpast⟩
  · simp [hnil]
  · by_cases hfuture : p.future = [] <;> simp [hpast, hfuture]

theorem drawFrame_sat {sim : Sim} {data : Fin 2 → Fin 64 → Fin 8 → Line}
    (h : v.Represents events p) (hseq : v.SeqShown) (hspeed : ∃ k ≤ 6, v.speed = 2 ^ k)
    (hshown : Shown p.past p.state) (hplaced : ∀ e ∈ events, e.Placed)
    (hevents : sim.events = p.past)
    (hcounted : ∀ c, ∀ k ≠ HitKind.l1i,
      sim.events.countP (·.counts c k) = (sim.cpu.cores c).pmc.get k)
    (hstate : ∀ c i w, (p.state.l1d c i).state w = ((sim.l1 .data c i).state w).toByte)
    (hdata : ∀ c i w, (sim.l1 .data c i).state w ≠ .invalid →
      (p.state.l1d c i).data w = data c i w) :
    (drawFrame v).Sat (fun picture => picture.Shows events sim ∧
      DetailOf picture.detail sim.events.getLast? (fun c i w => (sim.l1 .data c i).state w) data ∧
        picture.l2.map (fun cell => decide (cell.color = MESIState.invalid.color)) =
          (List.finRange 4096).map fun i =>
            decide (∀ w, (p.state.l2 i).state w = MESIState.invalid.toByte)) fun _ => False := by
  have hpast : ∀ e ∈ p.past, e ∈ events := fun e he => h.events ▸ List.mem_append_left _ he
  have hshadow : ∀ c i w,
      (v.shadow.l1d c i).state w = ((sim.l1 .data c i).state w).toByte :=
    fun c i w => h.shadow ▸ hstate c i w
  have hbytes : ∀ c i w, (sim.l1 .data c i).state w ≠ .invalid →
      (v.shadow.l1d c i).data w = data c i w :=
    fun c i w => h.shadow ▸ hdata c i w
  have hl1d := fun c => drawL1d_eq h (hshadow c)
  have hdominant : ∀ i, IsMesi (dominantState (p.state.l2 i)) := fun i => by
    obtain ⟨w, hw⟩ := (dominantState_highest _ (hshown.l2.states i)).1
    exact hw ▸ hshown.l2.states i w
  have hset : ∀ i, v.shadow.l2Dominant i = dominantState (p.state.l2 i) := fun i => by
    rw [h.shadow, hshown.l2.dominant i]
  have hl2 := drawL2Overview_eq (r := v.toRenderer) fun i => (hset i).symm ▸ hdominant i
  have hdetail := drawCachelineDetail_sat h (fun e he => (hplaced e (hpast e he)).level1) hshadow
    hbytes
  have hcounters : ∀ c k, ((p.state.counters c).field k) = sim.events.countP (·.countedBy c k) := by
    rw [hevents]
    exact hshown.counters
  rw [drawFrame, drawControls_eq h hseq, Except.ok_bind, hl1d 0, Except.ok_bind, hl1d 1,
    Except.ok_bind]
  refine hdetail.bind fun detail hdetail => ?_
  rw [hl2, Except.ok_bind, drawEventLog_eq h, Except.ok_bind]
  refine ⟨⟨fun c => ?_, fun c => ?_, ?_, rfl, ?_, hspeed, ?_⟩, ?_, ?_⟩
  · have hcases : ∀ c : Fin 2, c = 0 ∨ c = 1 := by decide
    rw [hevents]
    rcases hcases c with rfl | rfl <;> rfl
  · have hl1dHits : (v.shadow.counters c).l1dHits = (sim.cpu.cores c).pmc.l1dHits := by
      rw [h.shadow]
      exact (hcounters c .l1dHits).trans (hcounted c .l1d (by decide))
    have hl2Hits : (v.shadow.counters c).l2Hits = (sim.cpu.cores c).pmc.l2Hits := by
      rw [h.shadow]
      exact (hcounters c .l2Hits).trans (hcounted c .l2 (by decide))
    have hmemFetches : (v.shadow.counters c).memFetches = (sim.cpu.cores c).pmc.memFetches := by
      rw [h.shadow]
      exact (hcounters c .memFetches).trans (hcounted c .mem (by decide))
    refine ⟨hl1dHits, hl2Hits, hmemFetches, ?_⟩
    simp only [drawStats, hl1dHits, hl2Hits, hmemFetches]
  · rw [hevents]
  · have hfuture : p.past = events ↔ p.future = [] := by rw [← h.events]; simp
    rw [hevents, hfuture]
    dsimp only
    split
    · rename_i hfinished
      exact iff_of_true rfl hfinished
    · rename_i hfinished
      refine iff_of_false (fun heq => ?_) hfinished
      split at heq <;> cases heq
  · rw [hevents]
  · rw [hevents]
    exact hdetail
  · rw [List.map_map]
    refine List.map_congr_left fun i _ => ?_
    rw [Function.comp_apply, decide_eq_decide,
      ← color_dominantState (hshown.l2.states i) (hdominant i)]
    simp only [hset]

end Frame

/-! ## Recordings -/

section Recordings

variable {s₀ : Sim} {trace : List CallEvents} {steps : ℕ} {sys : System}

/-- A good frame of a recording shows the machine after some of the calls. -/
theorem Interleaving.draw_sat {R : ShadowState → ShadowState → Prop} (h₀ : s₀.EmptyCaches)
    (hr : s₀.Recording) (hzero : ∀ c, (s₀.cpu.cores c).pmc = ⟨0, 0, 0, 0⟩)
    (h : Interleaving s₀ trace steps sys) (hsteps : steps < 2 ^ 32)
    (hR : ∀ s t, R s t → SameL1States s t) {v : Viewer}
    (hv : v.Views (AgreesWithReplay R) sys.sim.events) :
    (drawFrame v).Sat (fun picture => ∃ pre post steps' sys', trace = pre ++ post ∧
      Interleaving s₀ pre steps' sys' ∧ sys'.sim.events = sys.sim.events.take v.played ∧
        picture.Shows sys.sim.events sys'.sim ∧
          ((∀ s t, R s t → SamePicture s t) → picture.ShowsContents sys'.sim)) fun _ => False := by
  obtain ⟨p, hp, hboundary, hshown, t, ht, hagree⟩ := hv.player
  obtain ⟨calls, hrun⟩ := h.run
  obtain ⟨pre, post, steps', sys', hsplit, hpre, hevents⟩ :=
    h.exists_machine h₀ hr hsteps hp.events hboundary
  obtain ⟨calls', hrun'⟩ := hpre.run
  obtain ⟨t', ht', hmirrors⟩ := (hrun'.replays_data h₀ hr).mirrors
  have hreplay : replay p.past = .ok t' := hevents ▸ ht'
  obtain rfl : t = t' := Except.ok.inj (ht.symm.trans hreplay)
  have hplayed : sys'.sim.events = sys.sim.events.take v.played := by
    rw [hp.played, ← hp.events, List.take_left, hevents]
  have hdata := hmirrors.dataShownBy
  have hstate : ∀ c i w, (p.state.l1d c i).state w = ((sys'.sim.l1 .data c i).state w).toByte :=
    fun c i w => (hR _ _ hagree c i w).trans (hdata.l1State c i w)
  have hcounted : ∀ c, ∀ k ≠ HitKind.l1i,
      sys'.sim.events.countP (·.counts c k) = (sys'.sim.cpu.cores c).pmc.get k :=
    fun c => (hrun'.counted h₀ hr hzero c).2.events
  have hdraw : ∀ data : Fin 2 → Fin 64 → Fin 8 → Line, (∀ c i w,
      (sys'.sim.l1 .data c i).state w ≠ .invalid → (p.state.l1d c i).data w = data c i w) → _ :=
    fun data => drawFrame_sat hp hv.seq hv.speed hshown (hrun.events_placed h₀ hr) hevents hcounted
      hstate
  by_cases hsame : ∀ s t, R s t → SamePicture s t
  · have hpicture := hsame _ _ hagree
    have hcells : ∀ c i w, (sys'.sim.l1 .data c i).state w ≠ .invalid →
        (p.state.l1d c i).data w = (sys'.sim.l1 .data c i).data w := fun c i w hw =>
      (congrArg ShadowCell.data (hpicture.l1 (c, i, w))).trans (hdata.l1Data c i w hw)
    have hsets : ∀ i, (∀ w, (p.state.l2 i).state w = MESIState.invalid.toByte) ↔
        ∀ w, (sys'.sim.l2 i).state w = .invalid := fun i => forall_congr' fun w => by
      have hvalid := hdata.l2Valid i w
      have hcell : (p.state.l2 i).state w = (t.l2 i).state w := hpicture.l2.state (i, w)
      rw [← hcell] at hvalid
      exact not_iff_not.mp hvalid
    refine (hdraw _ hcells).imp fun picture hshows => ?_
    refine ⟨pre, post, steps', sys', hsplit, hpre, hplayed, hshows.1, fun _ => ⟨hshows.2.1, ?_⟩⟩
    simp only [hshows.2.2, hsets]
  · refine (hdraw _ fun _ _ _ _ => rfl).imp fun picture hshows => ?_
    exact ⟨pre, post, steps', sys', hsplit, hpre, hplayed, hshows.1, fun hall => absurd hall hsame⟩

theorem Interleaving.exists_reloaded (h₀ : s₀.EmptyCaches) (hr : s₀.Recording)
    (h : Interleaving s₀ trace steps sys) :
    ∃ queue, readTrace (writeTrace sys.queue) = some queue ∧ queue.Linked sys.sim.events := by
  have hlinked := EventQueue.linked_empty.foldl_push sys.sim.events
  rw [List.nil_append] at hlinked
  exact ⟨_, readTrace_writeTrace (h.queued h₀ hr).2.linked, hlinked.resumeSeq⟩

/-- Whatever keys are pressed, the viewer of a recording does not fault, and each
frame shows the machine after some of the recorded calls. -/
theorem Interleaving.viewed (h₀ : s₀.EmptyCaches) (hr : s₀.Recording)
    (hzero : ∀ c, (s₀.cpu.cores c).pmc = ⟨0, 0, 0, 0⟩) (h : Interleaving s₀ trace steps sys)
    (hsteps : steps < 2 ^ 32) (frames : List (List Input)) :
    ∃ queue, readTrace (writeTrace sys.queue) = some queue ∧
      (rendererRun frames (.init queue)).Sat (fun r => ∀ picture ∈ r.2,
        ∃ pre post steps' sys', trace = pre ++ post ∧ Interleaving s₀ pre steps' sys' ∧
          picture.Shows sys.sim.events sys'.sim) fun _ => False := by
  obtain ⟨queue, hqueue, hlinked⟩ := h.exists_reloaded h₀ hr
  obtain ⟨calls, hrun⟩ := h.run
  have hkept := hrun.keptBy_l1States h₀ hr
  refine ⟨queue, hqueue, (Viewer.Views.rendererRun hkept (fun v hv => ?_)
    (Viewer.Views.init hkept hlinked) fun _ => trivial).imp fun r hr => hr.2⟩
  refine (h.draw_sat h₀ hr hzero hsteps (fun _ _ hR c i w => hR (c, i, w)) hv).imp
    fun picture hpicture => ?_
  obtain ⟨pre, post, steps', sys', hsplit, hpre, -, hshows, -⟩ := hpicture
  exact ⟨pre, post, steps', sys', hsplit, hpre, hshows⟩

/-- Both threads draw a number and core 1 is the first to use its own; the viewer plays,
is taken back and closed. -/
theorem viewed_crossed : ∃ trace steps sys, Interleaving (conflictMachine true) trace steps sys ∧
    trace.map CallEvents.seq = [1, 0, 2] ∧
      ∃ queue, readTrace (writeTrace sys.queue) = some queue ∧
        (rendererRun [[.space], [.left, .up], [.right, .quit]] (.init queue)).Sat
          (fun r => ∀ picture ∈ r.2, ∃ pre post steps' sys', trace = pre ++ post ∧
            Interleaving (conflictMachine true) pre steps' sys' ∧
              picture.Shows sys.sim.events sys'.sim) fun _ => False := by
  have hexec : (runTurns crossedTurns (.start (conflictMachine true))).any fun r =>
      r.1.map CallEvents.seq = [1, 0, 2] := by decide +kernel
  obtain ⟨⟨trace, sys⟩, hturns, hseq⟩ := (Option.any_eq_true _ _).mp hexec
  have hrun := Interleaving.start.of_runTurns hturns
  have hsteps : 0 + (crossedTurns.map Turn.draws).sum < 2 ^ 32 := by decide
  exact ⟨_, _, sys, hrun, of_decide_eq_true hseq, hrun.viewed (Sim.initial_emptyCaches _ _ _)
    ⟨rfl, rfl⟩ (fun _ => rfl) hsteps [[.space], [.left, .up], [.right, .quit]]⟩

/-- Without the left arrow key it shows the bytes of the L1D lines and the empty L2
sets of the machine as well. -/
theorem Interleaving.viewed_forward (h₀ : s₀.EmptyCaches) (hr : s₀.Recording)
    (hzero : ∀ c, (s₀.cpu.cores c).pmc = ⟨0, 0, 0, 0⟩) (h : Interleaving s₀ trace steps sys)
    (hsteps : steps < 2 ^ 32) {frames : List (List Input)}
    (hframes : ∀ inputs ∈ frames, Input.left ∉ inputs) :
    ∃ queue, readTrace (writeTrace sys.queue) = some queue ∧
      (rendererRun frames (.init queue)).Sat (fun r => ∀ picture ∈ r.2,
        ∃ pre post steps' sys', trace = pre ++ post ∧ Interleaving s₀ pre steps' sys' ∧
          picture.Shows sys.sim.events sys'.sim ∧ picture.ShowsContents sys'.sim)
        fun _ => False := by
  obtain ⟨queue, hqueue, hlinked⟩ := h.exists_reloaded h₀ hr
  obtain ⟨calls, hrun⟩ := h.run
  have hkept := hrun.keptBy_picture h₀ hr
  refine ⟨queue, hqueue, (Viewer.Views.rendererRun hkept (fun v hv => ?_)
    (Viewer.Views.init hkept hlinked) ?_).imp fun r hr => hr.2⟩
  · refine (h.draw_sat h₀ hr hzero hsteps (fun _ _ hR => hR.sameL1States) hv).imp
      fun picture hpicture => ?_
    obtain ⟨pre, post, steps', sys', hsplit, hpre, -, hshows, hbytes⟩ := hpicture
    exact ⟨pre, post, steps', sys', hsplit, hpre, hshows, hbytes fun _ _ hR => hR⟩
  · rintro ⟨inputs, hinputs, hleft⟩
    exact hframes inputs hinputs hleft

theorem viewed_forward_crossed : ∃ trace steps sys,
    Interleaving (conflictMachine true) trace steps sys ∧ trace.map CallEvents.seq = [1, 0, 2] ∧
      ∃ queue, readTrace (writeTrace sys.queue) = some queue ∧
        (rendererRun [[.right], [.up, .space], []] (.init queue)).Sat
          (fun r => ∀ picture ∈ r.2, ∃ pre post steps' sys', trace = pre ++ post ∧
            Interleaving (conflictMachine true) pre steps' sys' ∧
              picture.Shows sys.sim.events sys'.sim ∧ picture.ShowsContents sys'.sim)
          fun _ => False := by
  have hexec : (runTurns crossedTurns (.start (conflictMachine true))).any fun r =>
      r.1.map CallEvents.seq = [1, 0, 2] := by decide +kernel
  obtain ⟨⟨trace, sys⟩, hturns, hseq⟩ := (Option.any_eq_true _ _).mp hexec
  have hrun := Interleaving.start.of_runTurns hturns
  have hsteps : 0 + (crossedTurns.map Turn.draws).sum < 2 ^ 32 := by decide
  have hframes : ∀ inputs ∈ [[Input.right], [.up, .space], []], Input.left ∉ inputs := by decide
  exact ⟨_, _, sys, hrun, of_decide_eq_true hseq,
    hrun.viewed_forward (Sim.initial_emptyCaches _ _ _)
    ⟨rfl, rfl⟩ (fun _ => rfl) hsteps hframes⟩

end Recordings

end CacheSimulator
