import CacheSimulator.Contract.Viewing

/-!
# Playing

While the viewer plays, every turn of a frame is one call of the recording: after
`n` turns in all the frame shows the machine after the first `n` calls that have
recorded anything, and playing ends when the last call has been shown.
-/

namespace CacheSimulator

open Rewind (Player firstStep)

/-! ## The speed -/

def Input.pace (speed : ℕ) : Input → ℕ
  | .up => if speed < 64 then speed * 2 else speed
  | .down => if 1 < speed then speed / 2 else speed
  | _ => speed

/-- The turns in all up to each of the frames, from `n` turns on. -/
def turnsPlayed : ℕ → ℕ → List (List Input) → List ℕ
  | _, _, [] => []
  | speed, n, inputs :: frames =>
      let speed := inputs.foldl Input.pace speed
      (n + speed) :: turnsPlayed speed (n + speed) frames

def Input.SetsPace (input : Input) : Prop := input = .up ∨ input = .down ∨ input = .other

theorem handleInput_pace {input : Input} (h : input.SetsPace) (running : Bool) (v : Viewer) :
    handleInput (running, v) input = .ok (running, { v with speed := input.pace v.speed }) := by
  rcases h with rfl | rfl | rfl
  · change Except.ok (running, if v.speed < 64 then _ else v) = _
    unfold Input.pace
    split <;> rfl
  · change Except.ok (running, if 1 < v.speed then _ else v) = _
    unfold Input.pace
    split <;> rfl
  · rfl

theorem handleInputs_pace {inputs : List Input} (h : ∀ input ∈ inputs, input.SetsPace)
    (running : Bool) (v : Viewer) :
    inputs.foldlM handleInput (running, v) =
      .ok (running, { v with speed := inputs.foldl Input.pace v.speed }) := by
  induction inputs generalizing v with
  | nil => rfl
  | cons input inputs ih =>
      obtain ⟨hinput, hinputs⟩ := List.forall_mem_cons.mp h
      rw [List.foldlM_cons, handleInput_pace hinput, Except.ok_bind, ih hinputs]
      rfl

/-! ## The place in the recording -/

def Viewer.Behind (calls : List CallEvents) (n : ℕ) (v : Viewer) : Prop :=
  v.played = ((calls.take n).flatMap CallEvents.events).length

section Turns

variable {calls : List CallEvents} {n : ℕ} {back : Prop}
  {Good : List Event → ShadowState → Prop} {v : Viewer} {p : Player Event ShadowState}

theorem Viewer.Behind.player (h : v.Behind calls n)
    (hp : v.Represents (calls.flatMap CallEvents.events) p) :
    p.past = (calls.take n).flatMap CallEvents.events ∧
      p.future = (calls.drop n).flatMap CallEvents.events := by
  refine List.append_inj ?_ (hp.played.symm.trans h)
  rw [hp.events, ← List.flatMap_append, List.take_append_drop]

theorem Emitting.flatMap_eq_nil {calls : List CallEvents} (h : Emitting calls) :
    calls.flatMap CallEvents.events = [] ↔ calls = [] := by
  cases calls with
  | nil => simp
  | cons r calls => simp [h.events r List.mem_cons_self]

theorem Emitting.drop (h : Emitting calls) (n : ℕ) : Emitting (calls.drop n) :=
  ⟨fun r hr => h.events r (List.mem_of_mem_drop hr), fun r hr => h.seq r (List.mem_of_mem_drop hr),
    h.distinct.sublist (List.drop_sublist n calls)⟩

structure Viewer.Plays (Good : List Event → ShadowState → Prop) (calls : List CallEvents) (n : ℕ)
    (v : Viewer) : Prop where
  views : v.Views Good (calls.flatMap CallEvents.events)
  behind : v.Behind calls (min n calls.length)
  playing : v.playing = decide (n ≤ calls.length)

theorem Viewer.Plays.stepForward (hkept : KeptBy (calls.flatMap CallEvents.events) back Good)
    (hcalls : Emitting calls) (h : v.Plays Good calls n) (hn : n < calls.length) :
    (CacheSimulator.stepForward v.toRenderer).Sat
      (fun r => { v with toRenderer := r : Viewer }.Plays Good calls (n + 1)) fun _ => False := by
  obtain ⟨p, hp, -, hgood⟩ := h.views.player
  have hbehind := h.behind
  rw [Nat.min_eq_left (Nat.le_of_lt hn)] at hbehind
  obtain ⟨hpast, hfuture⟩ := hbehind.player hp
  have hdrop : calls.drop n = calls[n] :: calls.drop (n + 1) := List.drop_eq_getElem_cons hn
  have hstep : firstStep Event.seq p.future = calls[n].events := by
    have hmem : calls[n] ∈ calls := List.getElem_mem hn
    have hrest : Emitting ([] ++ calls[n] :: calls.drop (n + 1)) := hdrop ▸ hcalls.drop n
    have hhead := hrest.head_seq
    rw [hfuture, hdrop, List.flatMap_cons]
    exact Rewind.firstStep_group Event.seq (hcalls.events _ hmem) (hcalls.seq _ hmem) hhead
  refine ((h.views.stepForward hkept).and (hkept.forward hp hgood)).mono (fun r hr => ?_)
    fun _ he => he.1
  obtain ⟨hviews, p', hp', hforward, -⟩ := hr
  refine ⟨hviews, ?_, h.playing.trans ?_⟩
  · have hplayed : r.played = p'.past.length := hp'.played
    change r.played = _
    rw [hplayed, (Player.past_forward Event.seq hforward).1, hpast, hstep, Nat.min_eq_left hn,
      List.take_succ_eq_append_getElem hn, List.flatMap_append, List.flatMap_singleton]
  · rw [decide_eq_decide]
    exact iff_of_true (Nat.le_of_lt hn) hn

theorem Viewer.Plays.play (hkept : KeptBy (calls.flatMap CallEvents.events) back Good)
    (hcalls : Emitting calls) (hne : calls ≠ []) (h : v.Plays Good calls n)
    (hn : n ≤ calls.length) (turns : ℕ) :
    (CacheSimulator.play turns v).Sat (fun v' => v'.Plays Good calls (n + turns) ∧
      v'.speed = v.speed) fun _ => False := by
  induction turns generalizing v n with
  | zero => exact ⟨h, rfl⟩
  | succ turns ih =>
      obtain ⟨p, hp, -, -⟩ := h.views.player
      have hbehind := h.behind
      rw [Nat.min_eq_left hn] at hbehind
      obtain ⟨hpast, hfuture⟩ := hbehind.player hp
      rw [CacheSimulator.play, hp.current, Except.ok_bind]
      rcases Nat.lt_or_eq_of_le hn with hlt | rfl
      · have hmore : p.future ≠ [] := by
          rw [hfuture, Ne, (hcalls.drop n).flatMap_eq_nil, List.drop_eq_nil_iff]
          exact Nat.not_le.mpr hlt
        rw [if_pos (by cases p.past.getLast? <;> simp [hmore])]
        refine (h.stepForward hkept hcalls hlt).bind fun r hr => ?_
        have hrest := ih hr hlt
        rwa [Nat.add_assoc, Nat.add_comm 1] at hrest
      · have hend : p.future = [] := by
          rw [hfuture, List.drop_length, List.flatMap_nil]
        have hstarted : p.past ≠ [] := by
          rwa [hpast, List.take_length, Ne, hcalls.flatMap_eq_nil]
        obtain ⟨init, e, hlast⟩ := (List.eq_nil_or_concat' p.past).resolve_left hstarted
        rw [if_neg (by simp [hlast, hend])]
        refine ⟨⟨⟨h.views.seq, h.views.player, h.views.speed⟩, ?_, ?_⟩, rfl⟩
        · rw [Nat.min_eq_right (Nat.le_add_right _ _)]
          exact hbehind
        · simp

theorem Viewer.Plays.playFrame (hkept : KeptBy (calls.flatMap CallEvents.events) back Good)
    (hcalls : Emitting calls) (hne : calls ≠ []) (h : v.Plays Good calls n) :
    (CacheSimulator.playFrame v).Sat (fun v' => v'.Plays Good calls (n + v.speed) ∧
      v'.speed = v.speed) fun _ => False := by
  rw [CacheSimulator.playFrame, h.playing]
  by_cases hn : n ≤ calls.length
  · rw [if_pos (decide_eq_true hn)]
    exact h.play hkept hcalls hne hn _
  · have hge : calls.length ≤ n := Nat.le_of_not_le hn
    rw [if_neg (by simpa using hn)]
    refine ⟨⟨h.views, ?_, h.playing.trans ?_⟩, rfl⟩
    · rw [Nat.min_eq_right (Nat.le_trans hge (Nat.le_add_right _ _)), ← Nat.min_eq_right hge]
      exact h.behind
    · rw [decide_eq_decide]
      omega

theorem Viewer.Plays.renderFrame (hkept : KeptBy (calls.flatMap CallEvents.events) back Good)
    (hcalls : Emitting calls) (hne : calls ≠ []) {Q : ℕ → Picture → Prop}
    (hdraw : ∀ v n, v.Plays Good calls n → (drawFrame v).Sat (Q n) fun _ => False)
    (h : v.Plays Good calls n) {inputs : List Input} (hinputs : ∀ input ∈ inputs, input.SetsPace) :
    (CacheSimulator.renderFrame v inputs).Sat (fun r => r.1 = true ∧
      r.2.1.Plays Good calls (n + inputs.foldl Input.pace v.speed) ∧
        r.2.1.speed = inputs.foldl Input.pace v.speed ∧
          Q (n + inputs.foldl Input.pace v.speed) r.2.2) fun _ => False := by
  have hfast : ∃ k ≤ 6, inputs.foldl Input.pace v.speed = 2 ^ k := by
    have hviews := (h.views.handleInputs hkept true fun hleft => by
      rcases hinputs _ hleft with heq | heq | heq <;> cases heq).of_eq_ok
        (handleInputs_pace hinputs true v)
    exact hviews.speed
  rw [CacheSimulator.renderFrame, handleInputs_pace hinputs, Except.ok_bind]
  have hpace : { v with speed := inputs.foldl Input.pace v.speed : Viewer }.Plays Good calls n :=
    ⟨⟨h.views.seq, h.views.player, hfast⟩, h.behind, h.playing⟩
  refine (hpace.playFrame hkept hcalls hne).bind fun v' hv' => ?_
  have hfade : { v' with shadow := v'.shadow.fade : Viewer }.Plays Good calls
      (n + inputs.foldl Input.pace v.speed) :=
    ⟨hv'.1.views.fade hkept, hv'.1.behind, hv'.1.playing⟩
  exact (hdraw _ _ hfade).bind fun picture hpicture => ⟨rfl, hfade, hv'.2, hpicture⟩

theorem Viewer.Plays.rendererRun (hkept : KeptBy (calls.flatMap CallEvents.events) back Good)
    (hcalls : Emitting calls) (hne : calls ≠ []) {Q : ℕ → Picture → Prop}
    (hdraw : ∀ v n, v.Plays Good calls n → (drawFrame v).Sat (Q n) fun _ => False)
    (h : v.Plays Good calls n) {frames : List (List Input)}
    (hframes : ∀ inputs ∈ frames, ∀ input ∈ inputs, input.SetsPace) :
    (CacheSimulator.rendererRun frames v).Sat
      (fun r => List.Forall₂ Q (turnsPlayed v.speed n frames) r.2 ∧
        r.1.Plays Good calls ((turnsPlayed v.speed n frames).getLastD n)) fun _ => False := by
  induction frames generalizing v n with
  | nil => exact ⟨.nil, h⟩
  | cons inputs frames ih =>
      obtain ⟨hinputs, hrest⟩ := List.forall_mem_cons.mp hframes
      refine (h.renderFrame hkept hcalls hne hdraw hinputs).bind fun r hr => ?_
      obtain ⟨running, v', picture⟩ := r
      obtain ⟨hrunning, hv', hspeed, hpicture⟩ := hr
      dsimp only at hrunning hv' hspeed hpicture
      subst hrunning
      refine (ih hv' hrest).bind fun last hlast => ?_
      rw [hspeed] at hlast
      refine ⟨.cons hpicture hlast.1, ?_⟩
      rw [turnsPlayed, List.getLastD_cons]
      exact hlast.2

end Turns

/-! ## Playing a recording -/

section Recordings

variable {s₀ : Sim} {trace : List CallEvents} {steps : ℕ} {sys : System}

/-- SPACE is pressed in the first frame, and then at most the speed is changed: each
frame shows the machine after as many calls as turns have been played. -/
theorem Interleaving.viewed_playing (h₀ : s₀.EmptyCaches) (hr : s₀.Recording)
    (hzero : ∀ c, (s₀.cpu.cores c).pmc = ⟨0, 0, 0, 0⟩) (h : Interleaving s₀ trace steps sys)
    (hsteps : steps < 2 ^ 32) (hevents : sys.sim.events ≠ []) {frames : List (List Input)}
    (hframes : ∀ inputs ∈ frames, ∀ input ∈ inputs, input.SetsPace) :
    ∃ queue, readTrace (writeTrace sys.queue) = some queue ∧
      (rendererRun ([.space] :: frames) (.init queue)).Sat (fun r =>
        List.Forall₂ (fun turns (picture : Picture) => ∃ pre post steps' sys', trace = pre ++ post ∧
            Interleaving s₀ pre steps' sys' ∧ picture.Shows sys.sim.events sys'.sim ∧
              sys'.sim.events = ((trace.filter fun r => !r.events.isEmpty).take turns).flatMap
                CallEvents.events)
          (turnsPlayed 1 0 ([] :: frames)) r.2 ∧
        r.1.playing = decide ((turnsPlayed 1 0 ([] :: frames)).getLastD 0 ≤
          (trace.filter fun r => !r.events.isEmpty).length)) fun _ => False := by
  obtain ⟨queue, hqueue, hlinked⟩ := h.exists_reloaded h₀ hr
  obtain ⟨calls, hrun⟩ := h.run
  have hkept := hrun.keptBy_picture h₀ hr
  have hemitting := h.emitting h₀ hr hsteps
  have hflat : sys.sim.events =
      (trace.filter fun r => !r.events.isEmpty).flatMap CallEvents.events := by
    rw [flatMap_filter_events]
    exact (h.queued h₀ hr).2.events
  have hkept' : KeptBy ((trace.filter fun r => !r.events.isEmpty).flatMap CallEvents.events) False
      (AgreesWithReplay SamePicture) := hflat ▸ hkept
  have hne : (trace.filter fun r => !r.events.isEmpty) ≠ [] := by
    rw [Ne, ← hemitting.flatMap_eq_nil, ← hflat]
    exact hevents
  have hstart : { Viewer.init queue with playing := true : Viewer }.Plays
      (AgreesWithReplay SamePicture)
      (trace.filter fun r => !r.events.isEmpty) 0 := by
    have hinit := Viewer.Views.init hkept' (hflat ▸ hlinked)
    refine ⟨⟨hinit.seq, hinit.player, hinit.speed⟩, ?_, ?_⟩
    · rw [Nat.zero_min]
      rfl
    · simp
  refine ⟨queue, hqueue, ?_⟩
  have hfirst : rendererRun ([.space] :: frames) (.init queue) =
      rendererRun ([] :: frames) { Viewer.init queue with playing := true } := rfl
  rw [hfirst]
  refine (hstart.rendererRun hkept' hemitting hne (fun v n hv => ?_)
    (List.forall_mem_cons.mpr ⟨by simp, hframes⟩)).imp fun r hr => ⟨hr.1, hr.2.playing⟩
  have hviews : v.Views (AgreesWithReplay SamePicture) sys.sim.events := hflat ▸ hv.views
  refine (h.draw_sat h₀ hr hzero hsteps (fun _ _ hR => hR.sameL1States) hviews).imp
    fun picture hpicture => ?_
  obtain ⟨pre, post, steps', sys', hsplit, hpre, hplayed, hshows, -⟩ := hpicture
  refine ⟨pre, post, steps', sys', hsplit, hpre, hshows, ?_⟩
  obtain ⟨p, hp, -, -⟩ := hv.views.player
  have hpast := (hv.behind.player hp).1
  rw [hplayed, hp.played, hflat, ← hp.events, List.take_left, hpast, ← List.take_eq_take_min]

/-- Three calls are played, the last two in one frame. -/
theorem viewed_playing_crossed : ∃ trace steps sys,
    Interleaving (conflictMachine true) trace steps sys ∧
    turnsPlayed 1 0 [[], [.up], []] = [1, 3, 5] ∧
      ∃ queue, readTrace (writeTrace sys.queue) = some queue ∧
        (rendererRun ([.space] :: [[.up], []]) (.init queue)).Sat (fun r =>
          List.Forall₂ (fun turns (picture : Picture) => ∃ pre post steps' sys',
              trace = pre ++ post ∧ Interleaving (conflictMachine true) pre steps' sys' ∧
                picture.Shows sys.sim.events sys'.sim ∧
                sys'.sim.events = ((trace.filter fun r => !r.events.isEmpty).take turns).flatMap
                  CallEvents.events)
            (turnsPlayed 1 0 ([] :: [[.up], []])) r.2 ∧
          r.1.playing = decide ((turnsPlayed 1 0 ([] :: [[.up], []])).getLastD 0 ≤
            (trace.filter fun r => !r.events.isEmpty).length)) fun _ => False := by
  have hexec : (runTurns crossedTurns (.start (conflictMachine true))).any fun r =>
      r.2.sim.events ≠ [] := by decide +kernel
  obtain ⟨⟨trace, sys⟩, hturns, hevents⟩ := (Option.any_eq_true _ _).mp hexec
  have hrun := Interleaving.start.of_runTurns hturns
  have hsteps : 0 + (crossedTurns.map Turn.draws).sum < 2 ^ 32 := by decide
  have hframes : ∀ inputs ∈ [[Input.up], []], ∀ input ∈ inputs, input.SetsPace := by
    unfold Input.SetsPace
    decide
  exact ⟨_, _, sys, hrun, rfl, hrun.viewed_playing (Sim.initial_emptyCaches _ _ _) ⟨rfl, rfl⟩
    (fun _ => rfl) hsteps (of_decide_eq_true hevents) hframes⟩

end Recordings

end CacheSimulator
