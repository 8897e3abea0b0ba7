import CacheSimulator.Replay.Mirror
import CacheSimulator.Replay.Calls

/-!
# Recorded runs

A run of reads and writes from empty caches, recorded from the start, leaves a
trace whose replay mirrors the caches, and every event of which fits the state
the replay has reached before it.
-/

namespace CacheSimulator

/-- The replay of a list of events from the zero state. -/
def replay (events : List Event) : Except Fault ShadowState :=
  events.foldlM applyEventForward .zero

theorem replay_append_ok {events : List Event} {e : Event} {s s' : ShadowState}
    (h : replay events = .ok s) (he : applyEventForward s e = .ok s') :
    replay (events ++ [e]) = .ok s' := by
  rw [replay] at h
  rw [replay, List.foldlM_append, h, Except.ok_bind, List.foldlM_cons, he, Except.ok_bind]
  rfl

theorem replay_eq_ok_of_append {events : List Event} {e : Event} {s s' : ShadowState}
    (h : replay events = .ok s) (h' : replay (events ++ [e]) = .ok s') :
    applyEventForward s e = .ok s' := by
  rw [replay] at h
  rw [replay, List.foldlM_append, h, Except.ok_bind, List.foldlM_cons] at h'
  cases he : applyEventForward s e with
  | ok t =>
      rw [he, Except.ok_bind] at h'
      exact h'
  | error f =>
      rw [he] at h'
      cases h'

/-- The replay of the events of the grid mirrors the grid, and every event fits
the state before it, whose dominant states are up to date. -/
structure Grid.Replays (p : Permit) (g : Grid) : Prop where
  mirrors : ∃ s, replay g.events = .ok s ∧ Mirrors p s g
  fits : ∀ pre e, pre ++ [e] <+: g.events →
    ∃ s, replay pre = .ok s ∧ Fits p pre s e ∧ ∀ i, s.l2Dominant i = dominantState (s.l2 i)

namespace Grid.Replays

variable {seq : BitVec 32} {p : Permit} {g g' : Grid} {ls : List Label}

theorem of_follows (h : g.Replays p) {s : ShadowState} (hs : replay g.events = .ok s)
    (hmirrors : Mirrors p s g) (hfollows : Follows p s g g') : g'.Replays p := by
  obtain ⟨e, s', hevents, hfits, hs', hmirrors'⟩ := hfollows
  refine ⟨⟨s', ?_, hmirrors'⟩, fun pre x hpre => ?_⟩
  · rw [hevents]
    exact replay_append_ok hs hs'
  · rw [hevents] at hpre
    rcases List.prefix_concat_iff.mp hpre with heq | hpre
    · obtain ⟨rfl, hx⟩ := List.append_inj' heq rfl
      obtain rfl := List.singleton_inj.mp hx
      exact ⟨s, hs, hfits, hmirrors.dominant⟩
    · exact h.fits pre x hpre

theorem acts (hg : g.Replays p) (h : Acts seq p g ls g') : g'.Replays p := by
  induction h with
  | refl => exact hg
  | act _ hact ih =>
      obtain ⟨s, hs, hmirrors⟩ := ih.mirrors
      rcases hact.follows hmirrors with hfollows | ⟨hevents, hmirrors'⟩
      · exact ih.of_follows hs hmirrors hfollows
      · refine ⟨⟨s, by rw [hevents, hs], hmirrors'⟩, ?_⟩
        rw [hevents]
        exact ih.fits
  | hit _ hhit ih =>
      obtain ⟨s, hs, hmirrors⟩ := ih.mirrors
      exact ih.of_follows hs hmirrors (hhit.follows hmirrors)
  | bump c k _ ih =>
      obtain ⟨s, hs, hmirrors⟩ := ih.mirrors
      exact ⟨⟨s, hs, hmirrors.l1, hmirrors.l2, hmirrors.dominant⟩, ih.fits⟩

end Grid.Replays

/-! ## Runs -/

structure Sim.Recording (s : Sim) : Prop where
  callback : s.callback = true
  events : s.events = []

namespace Sim

variable {p : Permit} {s₀ : Sim}

theorem EmptyCaches.replays (h₀ : s₀.EmptyCaches) (hr : s₀.Recording) :
    s₀.grid.Replays p := by
  have hl1 : ∀ l, (s₀.grid.l1d l).state = .invalid := fun l => h₀.l1 .data l.1 l.2.1 l.2.2
  have hl2 : ∀ l, (s₀.grid.l2 l).state = .invalid := fun l => h₀.l2 l.1 l.2
  have hevents : s₀.grid.events = [] := hr.events
  refine ⟨⟨.zero, by rw [hevents]; rfl, fun l => ?_, fun l => ?_, fun i => ?_⟩, fun pre e h => ?_⟩
  · exact ⟨by rw [hl1]; rfl, fun h => absurd (hl1 l) h, fun h => absurd (hl1 l) h⟩
  · exact ⟨iff_of_true rfl (hl2 l), fun h => absurd (hl2 l) h, .inl (by rw [hl2]; rfl)⟩
  · exact rfl
  · rw [hevents, List.prefix_nil] at h
    simp at h

end Sim

section Runs

variable {ok : Call → Sim → Prop} {p : Permit} {s₀ s : Sim} {trace : List CallRecord}

/-- The run lemma of recordings: what acts keep holds at the end of a run. -/
theorem Run.grid_induction {P : Grid → Prop} (h₀ : s₀.EmptyCaches) (hr : s₀.Recording)
    (hok : ∀ call s, ok call s → call.IsData ∧ p.Allows call s) (hstart : P s₀.grid)
    (hacts : ∀ seq g ls g', P g → Acts seq p g ls g' → P g') (h : Run ok s₀ trace s) :
    s.callback = true ∧ P s.grid := by
  induction h with
  | start => exact ⟨hr.callback, hstart⟩
  | call call hrun hcall hexec ih =>
      obtain ⟨hcallback, hP⟩ := ih
      obtain ⟨hdata, hallows⟩ := hok _ _ hcall
      obtain ⟨ls, htraces⟩ := ((Sim.exec_traces (hrun.inv h₀) hdata hallows).of_eq_ok hexec).traces
      exact ⟨htraces.callback.trans hcallback, hacts _ _ _ _ hP (htraces.acts hcallback)⟩
  | beginStep seq hrun ih => exact ih

theorem Run.replays (h₀ : s₀.EmptyCaches) (hr : s₀.Recording)
    (hok : ∀ call s, ok call s → call.IsData ∧ p.Allows call s) (h : Run ok s₀ trace s) :
    s.grid.Replays p :=
  (h.grid_induction h₀ hr hok (h₀.replays hr) fun _ _ _ _ hg hacts => hg.acts hacts).2

/-- Whatever reads and writes do to L2, the replay mirrors the rest. -/
theorem Run.replays_data (h₀ : s₀.EmptyCaches) (hr : s₀.Recording)
    (h : Run (fun call _ => call.IsData) s₀ trace s) : s.grid.Replays (dataPermit True) :=
  h.replays h₀ hr fun _ _ hcall => ⟨hcall, dataPermit_allows (.inl trivial)⟩

end Runs

end CacheSimulator
