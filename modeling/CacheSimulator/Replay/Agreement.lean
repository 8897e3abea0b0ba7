import CacheSimulator.Refinement.Player
import CacheSimulator.Replay.Recorded

/-!
# The renderer and the replay

What the renderer shows after moves in both directions is compared with the replay of
the events up to its cursor. A relation between the two that every event keeps, when it
is played and when it is taken back, holds after any moves.
-/

namespace CacheSimulator

open Sim

/-! ## Agreement with the replay -/

/-- What the renderer shows is related to the replay up to the cursor. -/
def Renderer.AgreesOn (R : ShadowState → ShadowState → Prop) (events : List Event)
    (r : Renderer) : Prop :=
  ∃ s, replay (events.take r.played) = .ok s ∧ R r.shadow s

theorem Renderer.AgreesOn.imp {R Q : ShadowState → ShadowState → Prop} {events : List Event}
    {r : Renderer} (h : r.AgreesOn R events) (hRQ : ∀ s t, R s t → Q s t) :
    r.AgreesOn Q events := by
  obtain ⟨t, ht, hR⟩ := h
  exact ⟨t, ht, hRQ _ t hR⟩

/-- A prefix of a replayed list is replayed. -/
theorem Grid.Replays.replay_prefix {p : Permit} {g : Grid} (h : g.Replays p) {pre : List Event}
    (hpre : pre <+: g.events) : ∃ t, replay pre = .ok t := by
  obtain ⟨rest, hrest⟩ := hpre
  obtain ⟨last, hlast, -⟩ := h.mirrors
  rw [← hrest, replay, List.foldlM_append] at hlast
  cases ht : replay pre with
  | ok t => exact ⟨t, rfl⟩
  | error f =>
      rw [replay] at ht
      rw [ht] at hlast
      cases hlast

/-- The shadow state is related to the replay of the events played. -/
def RelatedToReplay (R : ℕ → List Event → ShadowState → ShadowState → Prop) (top : ℕ)
    (pre : List Event) (s : ShadowState) : Prop :=
  ∃ t, replay pre = .ok t ∧ R top pre s t

/-- The rule of rewinding: a relation to the replay of the events played, while the
first `top` have been, that every event keeps when it is played, and when the moves
take it back. -/
theorem Grid.Replays.rewind {R : ℕ → List Event → ShadowState → ShadowState → Prop} {p : Permit}
    {g : Grid} {queue : EventQueue} {moves : List Move} (hg : g.Replays p)
    (hqueue : queue.Linked g.events) (hzero : R 0 [] .zero .zero)
    (hredo : ∀ top pre s t t' e, pre ++ [e] <+: g.events → Fits p pre t e →
      applyEventForward t e = .ok t' → R top pre s t →
        (applyEventForward s e).Sat (R (max top (pre.length + 1)) (pre ++ [e]) · t')
          fun _ => False)
    (hundo : ∀ top pre s t t' e, pre ++ [e] <+: g.events → Fits p pre t e →
      applyEventForward t e = .ok t' → (∀ i, t.l2Dominant i = dominantState (t.l2 i)) →
        (pre.length, top) ∈ takenBack g.events moves 0 0 → pre.length < top →
          R top (pre ++ [e]) s t' →
            (applyEventBackward s e).Sat (R top pre · t) fun _ => False) :
    (moves.foldlM Renderer.move (.init queue)).Sat
      (fun r => ∃ top, r.AgreesOn (R top (g.events.take r.played)) g.events) fun _ => False := by
  have hstart : (Renderer.init queue).Shows (RelatedToReplay R 0) g.events :=
    Renderer.shows_init hqueue ⟨_, rfl, hzero⟩
  refine (hstart.takenBack_sat (Nat.le_refl 0) (fun top pre e s hpre hs => ?_)
    fun top pre e s hpre htaken hlt hs => ?_).imp fun r hr => ?_
  · obtain ⟨t, ht, hfits, -⟩ := hg.fits pre e hpre
    obtain ⟨t₁, ht₁, hR⟩ := hs
    obtain rfl : t = t₁ := Except.ok.inj (ht.symm.trans ht₁)
    obtain ⟨t', ht'⟩ := hg.replay_prefix hpre
    have he := replay_eq_ok_of_append ht ht'
    exact (hredo top pre s t t' e hpre hfits he hR).imp fun s' hs' => ⟨t', ht', hs'⟩
  · obtain ⟨t, ht, hfits, hdominant⟩ := hg.fits pre e hpre
    obtain ⟨t', ht', hR⟩ := hs
    have he := replay_eq_ok_of_append ht ht'
    exact (hundo top pre s t t' e hpre hfits he hdominant htaken hlt hR).imp fun s' hs' =>
      ⟨t, ht, hs'⟩
  · obtain ⟨top, p, hp, t, ht, hR⟩ := hr
    have hpast : g.events.take r.played = p.past := by
      rw [hp.played, ← hp.events, List.take_left]
    refine ⟨top, t, ?_⟩
    rw [hpast, hp.shadow]
    exact ⟨ht, hR⟩

/-! ## Agreement way by way -/

section Ways

variable {K K' : L1Loc → ShadowCell → ShadowCell → Prop} {p : Permit} {pre : List Event}
  {s t t' : ShadowState} {e : Event}

def AgreeL1 (K : L1Loc → ShadowCell → ShadowCell → Prop) (s t : ShadowState) : Prop :=
  ∀ l, K l (s.l1Cell l) (t.l1Cell l)

theorem AgreeL1.change {l : L1Loc} {x y : ShadowCell} {counted counted' s' : ShadowState}
    (h : ∀ l', l' ≠ l → K l' (s.l1Cell l') (t.l1Cell l')) (hs' : s.ChangesL1 l x counted s')
    (ht' : t.ChangesL1 l y counted' t') (hxy : K l x y) : AgreeL1 K s' t' := by
  intro l'
  rw [hs'.l1, ht'.l1, Function.update_apply, Function.update_apply]
  split
  · rename_i heq
    rw [heq]
    exact hxy
  · rename_i hne
    exact h l' hne

theorem l1Cell_of_not_atL1 (hlevel : ¬ e.cacheLevel = 1) (hfits : Fits p pre t e)
    (s : ShadowState) : (∃ s', applyEventForward s e = .ok s' ∧ s'.l1Cell = s.l1Cell) ∧
      ∃ s', applyEventBackward s e = .ok s' ∧ s'.l1Cell = s.l1Cell := by
  cases hfits with
  | level1 hat _ => exact absurd hat.level hlevel
  | level2 hat _ =>
      obtain ⟨s', hs', hchange⟩ := s.applyEventForward_l2 hat
      obtain ⟨u, hu, hchange'⟩ := s.applyEventBackward_l2 hat
      exact ⟨⟨s', hs', hchange.l1⟩, u, hu, hchange'.l1⟩
  | other h1 h2 =>
      obtain ⟨hforward, hbackward⟩ := s.applyEvent_other h1 h2
      exact ⟨⟨_, hforward, (s.updateCounters_l1Cell e _).1⟩,
        _, hbackward, (s.updateCounters_l1Cell e _).1⟩

theorem AgreeL1.redo (hfits : Fits p pre t e) (ht' : applyEventForward t e = .ok t')
    (h : AgreeL1 K s t)
    (hK : ∀ l x y, e.AtL1 l → FitsL1 (p.stores pre) y e → K l x y →
      K' l (forwardL1Cell x e) (forwardL1Cell y e))
    (hframe : ∀ l x y, ¬e.AtL1 l → K l x y → K' l x y) :
    (applyEventForward s e).Sat (AgreeL1 K' · t') fun _ => False := by
  by_cases hlevel : e.cacheLevel = 1
  · cases hfits with
    | @level1 l hat hfit =>
        obtain ⟨s', hs', hchange⟩ := s.applyEventForward_l1 hat
        obtain ⟨t₁, ht₁, hchange'⟩ := t.applyEventForward_l1 hat
        obtain rfl : t₁ = t' := Except.ok.inj (ht₁.symm.trans ht')
        rw [hs']
        exact AgreeL1.change
          (fun l' hne => hframe l' _ _ (fun hat' => hne (hat'.unique hat)) (h l'))
          hchange hchange' (hK l _ _ hat hfit (h l))
    | level2 hat _ => exact absurd (hlevel.symm.trans hat.level) (by decide)
    | other h1 _ => exact absurd hlevel h1
  · obtain ⟨⟨s', hs', hcells⟩, -⟩ := l1Cell_of_not_atL1 hlevel hfits s
    obtain ⟨⟨t₁, ht₁, hcells'⟩, -⟩ := l1Cell_of_not_atL1 hlevel hfits t
    obtain rfl : t₁ = t' := Except.ok.inj (ht₁.symm.trans ht')
    rw [hs']
    intro l
    rw [hcells, hcells']
    exact hframe l _ _ (fun hat => hlevel hat.level) (h l)

theorem AgreeL1.undo (hfits : Fits p pre t e) (ht' : applyEventForward t e = .ok t')
    (h : AgreeL1 K' s t')
    (hK : ∀ l x, e.AtL1 l → FitsL1 (p.stores pre) (t.l1Cell l) e →
      K' l x (forwardL1Cell (t.l1Cell l) e) → K l (backwardL1Cell x e) (t.l1Cell l))
    (hframe : ∀ l x y, ¬e.AtL1 l → K' l x y → K l x y) :
    (applyEventBackward s e).Sat (AgreeL1 K · t) fun _ => False := by
  by_cases hlevel : e.cacheLevel = 1
  · cases hfits with
    | @level1 l hat hfit =>
        obtain ⟨s', hs', hchange⟩ := s.applyEventBackward_l1 hat
        obtain ⟨t₁, ht₁, hchange'⟩ := t.applyEventForward_l1 hat
        obtain rfl : t₁ = t' := Except.ok.inj (ht₁.symm.trans ht')
        rw [hs']
        intro l'
        have hl' := h l'
        rw [hchange'.l1, Function.update_apply] at hl'
        rw [hchange.l1, Function.update_apply]
        split
        · rename_i heq
          subst heq
          rw [if_pos rfl] at hl'
          exact hK _ _ hat hfit hl'
        · rename_i hne
          rw [if_neg hne] at hl'
          exact hframe l' _ _ (fun hat' => hne (hat'.unique hat)) hl'
    | level2 hat _ => exact absurd (hlevel.symm.trans hat.level) (by decide)
    | other h1 _ => exact absurd hlevel h1
  · obtain ⟨-, s', hs', hcells⟩ := l1Cell_of_not_atL1 hlevel hfits s
    obtain ⟨⟨t₁, ht₁, hcells'⟩, -⟩ := l1Cell_of_not_atL1 hlevel hfits t
    obtain rfl : t₁ = t' := Except.ok.inj (ht₁.symm.trans ht')
    rw [hs']
    intro l
    rw [hcells, ← hcells']
    exact hframe l _ _ (fun hat => hlevel hat.level) (h l)

/-- The two states agree on the states of L2, and on the dominant ones. -/
structure AgreeL2 (s t : ShadowState) : Prop where
  state : ∀ l, (s.l2Cell l).state = (t.l2Cell l).state
  dominant : ∀ i, s.l2Dominant i = t.l2Dominant i

theorem AgreeL2.change {u : ShadowState} {l : L2Loc} {x : ShadowCell}
    {counted s' : ShadowState}
    (hs' : s.ChangesL2 l x counted s') (hx : x.state = (u.l2Cell l).state)
    (hstate : ∀ l', l' ≠ l → (s.l2Cell l').state = (u.l2Cell l').state)
    (hdominant : ∀ i, i ≠ l.1 → s.l2Dominant i = u.l2Dominant i)
    (hset : u.l2Dominant l.1 = dominantState (u.l2 l.1)) : AgreeL2 s' u := by
  have hcells : ∀ l', (s'.l2Cell l').state = (u.l2Cell l').state := by
    intro l'
    rw [hs'.l2, Function.update_apply]
    split
    · rename_i heq
      rw [hx, heq]
    · rename_i hne
      exact hstate l' hne
  refine ⟨hcells, fun i => ?_⟩
  rw [hs'.dominant, Function.update_apply]
  split
  · rename_i heq
    subst heq
    rw [hset]
    exact dominantState_congr (funext fun w => hcells (l.1, w))
  · rename_i hne
    exact hdominant i hne

theorem l2_of_not_atL2 (hlevel : ¬ e.cacheLevel = 2) (hfits : Fits p pre t e) (s : ShadowState) :
    (∃ s', applyEventForward s e = .ok s' ∧ s'.l2 = s.l2 ∧ s'.l2Dominant = s.l2Dominant) ∧
      ∃ s', applyEventBackward s e = .ok s' ∧ s'.l2 = s.l2 ∧ s'.l2Dominant = s.l2Dominant := by
  cases hfits with
  | level1 hat _ =>
      obtain ⟨s', hs', hchange⟩ := s.applyEventForward_l1 hat
      obtain ⟨u, hu, hchange'⟩ := s.applyEventBackward_l1 hat
      exact ⟨⟨s', hs', hchange.l2, hchange.dominant⟩, u, hu, hchange'.l2, hchange'.dominant⟩
  | level2 hat _ => exact absurd hat.level hlevel
  | other h1 h2 =>
      obtain ⟨hforward, hbackward⟩ := s.applyEvent_other h1 h2
      have hcounters := fun f => s.updateCounters_l1Cell e f
      exact ⟨⟨_, hforward, (hcounters _).2.2.1, (hcounters _).2.2.2.2⟩,
        _, hbackward, (hcounters _).2.2.1, (hcounters _).2.2.2.2⟩

theorem AgreeL2.of_eq {s' t' : ShadowState} (h : AgreeL2 s t) (hs : s'.l2 = s.l2)
    (hsd : s'.l2Dominant = s.l2Dominant) (ht : t'.l2 = t.l2) (htd : t'.l2Dominant = t.l2Dominant) :
    AgreeL2 s' t' := by
  refine ⟨fun l => ?_, fun i => ?_⟩
  · have hl := h.state l
    rwa [ShadowState.l2Cell, ShadowState.l2Cell, hs, ht]
  · rw [hsd, htd]
    exact h.dominant i

theorem forwardL2Cell_state (x y : ShadowCell) (h : x.state = y.state) (e : Event) :
    (forwardL2Cell x e).state = (forwardL2Cell y e).state := by
  unfold forwardL2Cell
  split
  · rfl
  · rfl
  · rfl
  · rfl
  · exact h

theorem AgreeL2.redo (hfits : Fits p pre t e) (ht' : applyEventForward t e = .ok t')
    (h : AgreeL2 s t) : (applyEventForward s e).Sat (AgreeL2 · t') fun _ => False := by
  by_cases hlevel : e.cacheLevel = 2
  · cases hfits with
    | level1 hat _ => exact absurd (hlevel.symm.trans hat.level) (by decide)
    | @level2 l hat _ =>
        obtain ⟨s', hs', hchange⟩ := s.applyEventForward_l2 hat
        obtain ⟨t₁, ht₁, hchange'⟩ := t.applyEventForward_l2 hat
        obtain rfl : t₁ = t' := Except.ok.inj (ht₁.symm.trans ht')
        rw [hs']
        refine AgreeL2.change hchange ?_ (fun l' hl' => ?_) (fun i hi => ?_) ?_
        · rw [hchange'.l2, Function.update_self]
          exact forwardL2Cell_state _ _ (h.state l) e
        · rw [hchange'.l2, Function.update_of_ne hl']
          exact h.state l'
        · rw [hchange'.dominant, Function.update_of_ne hi]
          exact h.dominant i
        · rw [hchange'.dominant, Function.update_self]
    | other _ h2 => exact absurd hlevel h2
  · obtain ⟨⟨s', hs', hl2, hdominant⟩, -⟩ := l2_of_not_atL2 hlevel hfits s
    obtain ⟨⟨t₁, ht₁, hl2', hdominant'⟩, -⟩ := l2_of_not_atL2 hlevel hfits t
    obtain rfl : t₁ = t' := Except.ok.inj (ht₁.symm.trans ht')
    rw [hs']
    exact h.of_eq hl2 hdominant hl2' hdominant'

theorem backwardL2Cell_state {x y : ShadowCell} {stale : Prop} (hfits : FitsL2 stale y e)
    (hstale : ¬stale) (h : x.state = (forwardL2Cell y e).state) :
    (backwardL2Cell x e).state = y.state := by
  have htold := hfits.told
  unfold forwardL2Cell at h
  unfold backwardL2Cell
  cases htype : e.type <;> simp only [htype] at h htold ⊢
  case l2Fill => exact (hfits.fill (.inl htype)).symm
  case prefetchL2 => exact (hfits.fill (.inr htype)).symm
  case l2Evict =>
    have hold := (htold (.inr trivial)).resolve_right hstale
    cases e.data with
    | some line => exact hold
    | none => exact hold
  case l2Hit => exact (htold (.inl trivial)).resolve_right hstale
  all_goals exact h

theorem AgreeL2.undo (hfits : Fits p pre t e) (ht' : applyEventForward t e = .ok t')
    (hdominant : ∀ i, t.l2Dominant i = dominantState (t.l2 i))
    (hstale : ∀ l, e.AtL2 l → ¬p.Stale l pre) (h : AgreeL2 s t') :
    (applyEventBackward s e).Sat (AgreeL2 · t) fun _ => False := by
  by_cases hlevel : e.cacheLevel = 2
  · cases hfits with
    | level1 hat _ => exact absurd (hlevel.symm.trans hat.level) (by decide)
    | @level2 l hat hfit =>
        obtain ⟨s', hs', hchange⟩ := s.applyEventBackward_l2 hat
        obtain ⟨t₁, ht₁, hchange'⟩ := t.applyEventForward_l2 hat
        obtain rfl : t₁ = t' := Except.ok.inj (ht₁.symm.trans ht')
        rw [hs']
        refine AgreeL2.change hchange ?_ (fun l' hl' => ?_) (fun i hi => ?_) (hdominant l.1)
        · have hl := h.state l
          rw [hchange'.l2, Function.update_self] at hl
          exact backwardL2Cell_state hfit (hstale l hat) hl
        · have hl := h.state l'
          rwa [hchange'.l2, Function.update_of_ne hl'] at hl
        · have hi' := h.dominant i
          rwa [hchange'.dominant, Function.update_of_ne hi] at hi'
    | other _ h2 => exact absurd hlevel h2
  · obtain ⟨-, s', hs', hl2, hdom⟩ := l2_of_not_atL2 hlevel hfits s
    obtain ⟨⟨t₁, ht₁, hl2', hdom'⟩, -⟩ := l2_of_not_atL2 hlevel hfits t
    obtain rfl : t₁ = t' := Except.ok.inj (ht₁.symm.trans ht')
    rw [hs']
    exact h.of_eq hl2 hdom hl2'.symm hdom'.symm

end Ways

end CacheSimulator
