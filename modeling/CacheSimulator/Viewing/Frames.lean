import CacheSimulator.Viewing.Drawing

/-!
# Frames

The rule of `renderer_run`: what the shadow state is good for, when every event of
the recording keeps it and the fading of the flashes does not matter to it, holds
whenever a frame is drawn, whatever keys are pressed. The viewer is then between
two steps.
-/

namespace CacheSimulator

open Rewind (Player)

/-- Every event of the recording keeps `Good`, and backwards under `back`. -/
structure KeptBy (events : List Event) (back : Prop)
    (Good : List Event → ShadowState → Prop) : Prop where
  zero : Good [] .zero
  redo : ∀ pre e s, pre ++ [e] <+: events → Good pre s →
    (applyEventForward s e).Sat (Good (pre ++ [e])) fun _ => False
  undo : back → ∀ pre e s, pre ++ [e] <+: events → Good (pre ++ [e]) s →
    (applyEventBackward s e).Sat (Good pre) fun _ => False
  fade : ∀ pre s, Good pre s → Good pre s.fade

structure Viewer.Views (Good : List Event → ShadowState → Prop) (events : List Event)
    (v : Viewer) : Prop where
  seq : v.SeqShown
  player : ∃ p : Player Event ShadowState, v.Represents events p ∧ p.AtBoundary Event.seq ∧
    Good p.past p.state
  speed : ∃ k ≤ 6, v.speed = 2 ^ k

section Steps

variable {events : List Event} {back : Prop} {Good : List Event → ShadowState → Prop}
  {r : Renderer} {p : Player Event ShadowState}

theorem KeptBy.forward (hkept : KeptBy events back Good) (h : r.Represents events p)
    (hgood : Good p.past p.state) :
    (stepForward r).Sat (fun r' => ∃ p', r'.Represents events p' ∧
      p.forward Event.seq applyEventForward = .ok p' ∧ p'.AtBoundary Event.seq ∧
        Good p'.past p'.state) fun _ => False := by
  have hplay := Player.forward_sat Event.seq applyEventForward (F := fun _ => False)
    ⟨h.events, hgood⟩ hkept.redo
  refine (h.stepForward.sat (Except.sat_iff.mpr ⟨fun p' hp' => And.intro hp' (hplay.of_eq_ok hp'),
    fun _ he => hplay.of_eq_error he⟩)).imp fun r' hr' => ?_
  obtain ⟨p', hp', hstep, hat⟩ := hr'
  exact ⟨p', hp', hstep, Player.atBoundary_forward hstep, hat.good⟩

theorem KeptBy.backward (hkept : KeptBy events back Good) (hback : back)
    (h : r.Represents events p) (hgood : Good p.past p.state) :
    (stepBackward r).Sat (fun r' => ∃ p', r'.Represents events p' ∧ p'.AtBoundary Event.seq ∧
      Good p'.past p'.state) fun _ => False := by
  have hplay := Player.backward_sat Event.seq applyEventBackward (F := fun _ => False)
    ⟨h.events, hgood⟩ fun pre e s hpre _ => hkept.undo hback pre e s hpre
  refine (h.stepBackward.sat (Except.sat_iff.mpr ⟨fun p' hp' => And.intro hp' (hplay.of_eq_ok hp'),
    fun _ he => hplay.of_eq_error he⟩)).imp fun r' hr' => ?_
  obtain ⟨p', hp', hstep, hat⟩ := hr'
  exact ⟨p', hp', Player.atBoundary_backward hstep, hat.good⟩

end Steps

namespace Viewer.Views

variable {events : List Event} {back : Prop} {Good : List Event → ShadowState → Prop} {v : Viewer}

theorem init {queue : EventQueue} (hkept : KeptBy events back Good) (h : queue.Linked events) :
    (Viewer.init queue).Views Good events :=
  ⟨rfl, ⟨⟨[], events, .zero⟩, Renderer.represents_init h, (fun _ hx => by cases hx), hkept.zero⟩,
    0, Nat.zero_le _, rfl⟩

theorem stepForward (hkept : KeptBy events back Good) (h : v.Views Good events) :
    (CacheSimulator.stepForward v.toRenderer).Sat
      (fun r => { v with toRenderer := r : Viewer }.Views Good events) fun _ => False := by
  obtain ⟨p, hp, -, hgood⟩ := h.player
  refine ((hkept.forward hp hgood).and (stepForward_seqShown h.seq)).mono (fun r hr => ?_)
    fun _ he => he.1
  obtain ⟨⟨p', hp', -, hboundary, hgood'⟩, hseq⟩ := hr
  exact ⟨hseq, ⟨p', hp', hboundary, hgood'⟩, h.speed⟩

theorem stepBackward (hkept : KeptBy events back Good) (hback : back) (h : v.Views Good events) :
    (CacheSimulator.stepBackward v.toRenderer).Sat
      (fun r => { v with toRenderer := r : Viewer }.Views Good events) fun _ => False := by
  obtain ⟨p, hp, -, hgood⟩ := h.player
  refine ((hkept.backward hback hp hgood).and (stepBackward_seqShown h.seq)).mono (fun r hr => ?_)
    fun _ he => he.1
  exact ⟨hr.2, hr.1, h.speed⟩

theorem fade (hkept : KeptBy events back Good) (h : v.Views Good events) :
    { v with shadow := v.shadow.fade : Viewer }.Views Good events := by
  obtain ⟨p, hp, hboundary, hgood⟩ := h.player
  refine ⟨h.seq, ⟨{ p with state := p.state.fade }, ⟨hp.linked, hp.events, hp.cursor, ?_⟩,
    hboundary, hkept.fade _ _ hgood⟩, h.speed⟩
  exact congrArg ShadowState.fade hp.shadow

/-- The speed stays a power of two from 1 to 64. -/
theorem faster {speed : ℕ} (h : ∃ k ≤ 6, speed = 2 ^ k) (hlt : speed < 64) :
    ∃ k ≤ 6, speed * 2 = 2 ^ k := by
  obtain ⟨k, hk, rfl⟩ := h
  have hne : k ≠ 6 := by
    rintro rfl
    exact absurd hlt (by decide)
  exact ⟨k + 1, Nat.lt_of_le_of_ne hk hne, (Nat.pow_succ ..).symm⟩

theorem slower {speed : ℕ} (h : ∃ k ≤ 6, speed = 2 ^ k) (hlt : 1 < speed) :
    ∃ k ≤ 6, speed / 2 = 2 ^ k := by
  obtain ⟨k, hk, rfl⟩ := h
  cases k with
  | zero => exact absurd hlt (by decide)
  | succ k =>
      exact ⟨k, Nat.le_of_succ_le hk,
        by rw [Nat.pow_succ, Nat.mul_div_cancel _ (by decide)]⟩

theorem handleInput (hkept : KeptBy events back Good) (h : v.Views Good events) (running : Bool)
    {input : Input} (hinput : input = .left → back) :
    (CacheSimulator.handleInput (running, v) input).Sat (fun r => r.2.Views Good events)
      fun _ => False := by
  cases input with
  | quit => exact h
  | escape => exact h
  | space => exact ⟨h.seq, h.player, h.speed⟩
  | right => exact (h.stepForward hkept).bind fun r hr => hr
  | left => exact (h.stepBackward hkept (hinput rfl)).bind fun r hr => hr
  | up =>
      change Viewer.Views Good events (if v.speed < 64 then _ else _)
      split
      · rename_i hlt
        exact ⟨h.seq, h.player, faster h.speed hlt⟩
      · exact h
  | down =>
      change Viewer.Views Good events (if 1 < v.speed then _ else _)
      split
      · rename_i hlt
        exact ⟨h.seq, h.player, slower h.speed hlt⟩
      · exact h
  | other => exact h

theorem handleInputs (hkept : KeptBy events back Good) (h : v.Views Good events) (running : Bool)
    {inputs : List Input} (hinputs : Input.left ∈ inputs → back) :
    (inputs.foldlM CacheSimulator.handleInput (running, v)).Sat (fun r => r.2.Views Good events)
      fun _ => False := by
  induction inputs generalizing v running with
  | nil => exact h
  | cons input inputs ih =>
      rw [List.foldlM_cons]
      refine (h.handleInput hkept running
        fun hleft => hinputs (by simp [hleft])).bind fun r hr => ?_
      exact ih hr r.1 fun hleft => hinputs (List.mem_cons_of_mem _ hleft)

theorem play (hkept : KeptBy events back Good) (h : v.Views Good events) (turns : ℕ) :
    (CacheSimulator.play turns v).Sat (Viewer.Views Good events) fun _ => False := by
  induction turns generalizing v with
  | zero => exact h
  | succ turns ih =>
      obtain ⟨p, hp, -, -⟩ := h.player
      rw [CacheSimulator.play, hp.current, Except.ok_bind]
      generalize Option.all _ _ = more
      cases more with
      | true => exact (h.stepForward hkept).bind fun r hr => ih hr
      | false => exact ⟨h.seq, h.player, h.speed⟩

theorem playFrame (hkept : KeptBy events back Good) (h : v.Views Good events) :
    (CacheSimulator.playFrame v).Sat (Viewer.Views Good events) fun _ => False := by
  unfold CacheSimulator.playFrame
  split
  · exact h.play hkept _
  · exact h

theorem renderFrame (hkept : KeptBy events back Good) {Q : Picture → Prop}
    (hdraw : ∀ v : Viewer, v.Views Good events → (drawFrame v).Sat Q fun _ => False)
    (h : v.Views Good events) {inputs : List Input} (hinputs : Input.left ∈ inputs → back) :
    (CacheSimulator.renderFrame v inputs).Sat (fun r => r.2.1.Views Good events ∧ Q r.2.2)
      fun _ => False := by
  refine (h.handleInputs hkept true hinputs).bind fun r hr => ?_
  obtain ⟨running, v₁⟩ := r
  refine (Views.playFrame hkept hr).bind fun v₂ hv₂ => ?_
  exact (hdraw _ (Views.fade hkept hv₂)).bind fun picture hpicture =>
    ⟨Views.fade hkept hv₂, hpicture⟩

theorem rendererRun (hkept : KeptBy events back Good) {Q : Picture → Prop}
    (hdraw : ∀ v : Viewer, v.Views Good events → (drawFrame v).Sat Q fun _ => False)
    (h : v.Views Good events) {frames : List (List Input)}
    (hframes : (∃ inputs ∈ frames, Input.left ∈ inputs) → back) :
    (CacheSimulator.rendererRun frames v).Sat (fun r => r.1.Views Good events ∧ ∀ q ∈ r.2, Q q)
      fun _ => False := by
  induction frames generalizing v with
  | nil => exact ⟨h, by simp⟩
  | cons inputs frames ih =>
      have hinputs : Input.left ∈ inputs → back := fun hleft => hframes ⟨inputs, by simp, hleft⟩
      have hrest : (∃ inputs ∈ frames, Input.left ∈ inputs) → back := by
        rintro ⟨later, hlater, hleft⟩
        exact hframes ⟨later, List.mem_cons_of_mem _ hlater, hleft⟩
      refine (h.renderFrame hkept hdraw hinputs).bind fun r hr => ?_
      obtain ⟨running, v', picture⟩ := r
      obtain ⟨hv', hpicture⟩ := hr
      cases running with
      | true =>
          refine (ih hv' hrest).bind fun last hlast => ⟨hlast.1, ?_⟩
          exact List.forall_mem_cons.mpr ⟨hpicture, hlast.2⟩
      | false => exact ⟨hv', List.forall_mem_singleton.mpr hpicture⟩

end Viewer.Views

end CacheSimulator
