import CacheSimulator.Viewing.Frames
import CacheSimulator.Contract.Rewinding
import CacheSimulator.Contract.Resuming

/-!
# Viewing a recording

Every recorded event is about a way of its cache and has MESI states. Between two
steps of the viewer the events played are those of the first calls, and the calls
up to any one of them are an interleaving of their own.
-/

namespace CacheSimulator

open Rewind (Player)

/-! ## The events of a recording -/

/-- The event is about a way of its cache, and its states are MESI states. -/
structure Event.Placed (e : Event) : Prop where
  level1 : e.cacheLevel = 1 → ∃ l, e.AtL1 l
  level2 : e.cacheLevel = 2 → ∃ l, e.AtL2 l
  states : e.HasStates

theorem placed_level1Event (seq : BitVec 32) (type : CacheEventType) (l : L1Loc) (address : Addr)
    (oldState newState : MESIState) (data : Option Line) :
    (level1Event seq type l address oldState newState data).Placed where
  level1 _ := ⟨l, atL1_level1Event seq type l address oldState newState data⟩
  level2 h := absurd h (by change ¬ (1 : Byte) = 2; decide)
  states := ⟨isMesi_toByte oldState, isMesi_toByte newState⟩

theorem placed_level2Event (seq : BitVec 32) (type : CacheEventType) (c : CoreId) (l : L2Loc)
    (address : Addr) (oldState newState : MESIState) (data : Option Line) :
    (level2Event seq type c l address oldState newState data).Placed where
  level1 h := absurd h (by change ¬ (2 : Byte) = 1; decide)
  level2 _ := ⟨l, atL2_level2Event seq type c l address oldState newState data⟩
  states := ⟨isMesi_toByte oldState, isMesi_toByte newState⟩

theorem placed_memFetchEvent (seq : BitVec 32) (c : CoreId) (address : Addr)
    (data : Option Line) : (memFetchEvent seq c address data).Placed where
  level1 h := absurd h (by change ¬ (3 : Byte) = 1; decide)
  level2 h := absurd h (by change ¬ (3 : Byte) = 2; decide)
  states := ⟨isMesi_toByte .invalid, isMesi_toByte .invalid⟩

theorem toNat_ofNat_lt {n k : ℕ} (i : Fin n) : (BitVec.ofNat k i).toNat < n :=
  Nat.lt_of_le_of_lt (Nat.mod_le _ _) i.isLt

theorem Event.Placed.inRange {e : Event} (h : e.Placed) : e.InRange where
  level1 hlevel := by
    obtain ⟨l, hat⟩ := h.level1 hlevel
    rw [hat.core, hat.set, hat.way]
    exact ⟨toNat_ofNat_lt _, toNat_ofNat_lt _, fun _ => toNat_ofNat_lt _⟩
  level2 hlevel := by
    obtain ⟨l, hat⟩ := h.level2 hlevel
    rw [hat.set, hat.way]
    exact ⟨toNat_ofNat_lt _, fun _ => toNat_ofNat_lt _⟩

section Acts

variable {seq : BitVec 32} {p : Permit} {g g' : Grid} {ls : List Label}

theorem forall_placed_concat {events : List Event} {e : Event} (h : ∀ x ∈ events, x.Placed)
    (he : e.Placed) : ∀ x ∈ events ++ [e], x.Placed := by
  intro x hx
  rcases List.mem_append.mp hx with hx | hx
  · exact h x hx
  · exact List.mem_singleton.mp hx ▸ he

theorem Act.placed (h : ∀ e ∈ g.events, e.Placed) (hact : Act seq p g g') :
    ∀ e ∈ g'.events, e.Placed := by
  cases hact with
  | level1 => exact forall_placed_concat h (placed_level1Event ..)
  | level2 => exact forall_placed_concat h (placed_level2Event ..)
  | l1iSnoop => exact forall_placed_concat h (placed_level1Event ..)
  | silentL2 => exact h

theorem Hit.placed {c : CoreId} {k : HitKind} (h : ∀ e ∈ g.events, e.Placed)
    (hhit : Hit seq p c g k g') : ∀ e ∈ g'.events, e.Placed := by
  cases hhit with
  | l1d => exact forall_placed_concat h (placed_level1Event ..)
  | l2 => exact forall_placed_concat h (placed_level2Event ..)
  | mem => exact forall_placed_concat h (placed_memFetchEvent ..)

theorem Acts.placed (h : ∀ e ∈ g.events, e.Placed) (hacts : Acts seq p g ls g') :
    ∀ e ∈ g'.events, e.Placed := by
  induction hacts with
  | refl => exact h
  | act _ hact ih => exact hact.placed ih
  | hit _ hhit ih => exact hhit.placed ih
  | bump c k _ ih => exact ih

end Acts

theorem Run.events_placed {s₀ s : Sim} {trace : List CallRecord} (h₀ : s₀.EmptyCaches)
    (hr : s₀.Recording) (h : Run (fun call _ => call.IsData) s₀ trace s) :
    ∀ e ∈ s.events, e.Placed := by
  have hstart : ∀ e ∈ s₀.grid.events, e.Placed := by
    have hevents : s₀.grid.events = [] := hr.events
    rw [hevents]
    simp
  exact (h.grid_induction (P := fun g => ∀ e ∈ g.events, e.Placed) h₀ hr
    (fun _ _ hcall => ⟨hcall, dataPermit_allows (.inl trivial)⟩) hstart
    fun _ _ _ _ hg hacts => hacts.placed hg).2

/-! ## Prefixes -/

/-- The calls up to any one are an interleaving. -/
theorem Interleaving.exists_initial {s₀ : Sim} {trace : List CallEvents} {steps : ℕ} {sys : System}
    (h : Interleaving s₀ trace steps sys) {pre post : List CallEvents}
    (hsplit : trace = pre ++ post) :
    ∃ steps' ≤ steps, ∃ sys', Interleaving s₀ pre steps' sys' := by
  induction h generalizing post with
  | start =>
      obtain ⟨rfl, -⟩ := List.append_eq_nil_iff.mp hsplit.symm
      exact ⟨0, Nat.le_refl _, _, .start⟩
  | beginStep c _ _ ih =>
      obtain ⟨steps', hle, sys', hpre⟩ := ih hsplit
      exact ⟨steps', Nat.le_succ_of_le hle, sys', hpre⟩
  | @call trace steps sys sys' r call hprev hdata hbegun hexec ih =>
      rcases List.eq_nil_or_concat' post with rfl | ⟨post', r', rfl⟩
      · rw [List.append_nil] at hsplit
        subst hsplit
        exact ⟨steps, Nat.le_refl _, sys', hprev.call call hdata hbegun hexec⟩
      · rw [← List.append_assoc] at hsplit
        exact ih (List.append_inj' hsplit rfl).1

/-- Two lists of events with a key each that meet between two keys meet between two
calls. -/
theorem Emitting.split {calls : List CallEvents} (h : Emitting calls) {past future : List Event}
    (hevents : past ++ future = calls.flatMap CallEvents.events)
    (hboundary : ∀ x ∈ past.getLast?, ∀ y ∈ future.head?, x.seq ≠ y.seq) :
    ∃ pre post, calls = pre ++ post ∧ past = pre.flatMap CallEvents.events := by
  induction calls generalizing past with
  | nil => exact ⟨[], [], rfl, (List.append_eq_nil_iff.mp hevents).1⟩
  | cons r calls ih =>
      have hrest : Emitting calls := ⟨fun x hx => h.events x (List.mem_cons_of_mem _ hx),
        fun x hx => h.seq x (List.mem_cons_of_mem _ hx), h.distinct.of_cons⟩
      rcases List.eq_nil_or_concat' past with rfl | ⟨init, x, rfl⟩
      · exact ⟨[], r :: calls, rfl, rfl⟩
      rw [List.flatMap_cons, List.append_eq_append_iff] at hevents
      rcases hevents with ⟨inner, hr, hfuture⟩ | ⟨later, hpast, hlater⟩
      · cases inner with
        | nil =>
            rw [List.append_nil] at hr
            exact ⟨[r], calls, rfl, by rw [List.flatMap_singleton, hr]⟩
        | cons y inner =>
            -- The two events on both sides of the meeting point are of one call.
            have hmem : ∀ e ∈ r.events, e.seq = r.seq := h.seq r List.mem_cons_self
            refine absurd ?_ (hboundary x (by simp) y (by simp [hfuture]))
            rw [hmem x (by simp [hr]), hmem y (by simp [hr])]
      · have hboundary' : ∀ x ∈ later.getLast?, ∀ y ∈ future.head?, x.seq ≠ y.seq := by
          intro z hz
          refine hboundary z ?_
          rw [hpast, List.getLast?_append, Option.mem_def.mp hz]
          rfl
        obtain ⟨pre, post, hcalls, hlater'⟩ := ih hrest hlater.symm hboundary'
        exact ⟨r :: pre, post, by rw [hcalls, List.cons_append],
          by rw [hpast, hlater', List.flatMap_cons]⟩

/-- Between two steps the viewer is behind some calls of the recording. -/
theorem Interleaving.exists_machine {s₀ : Sim} {trace : List CallEvents} {steps : ℕ} {sys : System}
    (h₀ : s₀.EmptyCaches) (hr : s₀.Recording) (h : Interleaving s₀ trace steps sys)
    (hsteps : steps < 2 ^ 32) {p : Player Event ShadowState}
    (hevents : p.past ++ p.future = sys.sim.events) (hboundary : p.AtBoundary Event.seq) :
    ∃ pre post steps' sys', trace = pre ++ post ∧ Interleaving s₀ pre steps' sys' ∧
      sys'.sim.events = p.past := by
  rw [(h.queued h₀ hr).2.events, ← flatMap_filter_events] at hevents
  obtain ⟨first, last, hfilter, hpast⟩ := (h.emitting h₀ hr hsteps).split hevents hboundary
  obtain ⟨pre, post, hsplit, hfirst, -⟩ := List.filter_eq_append_iff.mp hfilter
  obtain ⟨steps', -, sys', hpre⟩ := h.exists_initial hsplit
  refine ⟨pre, post, steps', sys', hsplit, hpre, ?_⟩
  rw [(hpre.queued h₀ hr).2.events, ← flatMap_filter_events, hfirst, hpast]

/-! ## The replay -/

/-- The shadow state counts the events played, has MESI states in L2, and is related
to the replay. -/
structure AgreesWithReplay (R : ShadowState → ShadowState → Prop) (past : List Event)
    (s : ShadowState) : Prop where
  shown : Shown past s
  replay : ∃ t, replay past = .ok t ∧ R s t

section Replays

variable {R : ShadowState → ShadowState → Prop} {p : Permit} {g : Grid} {pre : List Event}
  {e : Event} {s : ShadowState}

theorem Grid.Replays.redo_agrees (hg : g.Replays p) (hplaced : ∀ e ∈ g.events, e.Placed)
    (hredo : ∀ pre s t t' e, Fits p pre t e → applyEventForward t e = .ok t' → R s t →
      (applyEventForward s e).Sat (R · t') fun _ => False)
    (hpre : pre ++ [e] <+: g.events) (h : AgreesWithReplay R pre s) :
    (applyEventForward s e).Sat (AgreesWithReplay R (pre ++ [e])) fun _ => False := by
  have he := hplaced e (hpre.subset (by simp))
  obtain ⟨t, ht, hfits, -⟩ := hg.fits pre e hpre
  obtain ⟨t₁, ht₁, hagree⟩ := h.replay
  obtain rfl : t = t₁ := Except.ok.inj (ht.symm.trans ht₁)
  obtain ⟨t', ht'⟩ := hg.replay_prefix hpre
  have hforward := replay_eq_ok_of_append ht ht'
  exact ((h.shown.forward he.inRange he.states).and (hredo pre s t t' e hfits hforward hagree)).mono
    (fun s' hs' => ⟨hs'.1, t', ht', hs'.2⟩) fun _ hf => hf.1

theorem Grid.Replays.undo_agrees (hg : g.Replays p) (hplaced : ∀ e ∈ g.events, e.Placed)
    (hundo : ∀ pre s t t' e, Fits p pre t e → applyEventForward t e = .ok t' → R s t' →
      (applyEventBackward s e).Sat (R · t) fun _ => False)
    (hpre : pre ++ [e] <+: g.events) (h : AgreesWithReplay R (pre ++ [e]) s) :
    (applyEventBackward s e).Sat (AgreesWithReplay R pre) fun _ => False := by
  have he := hplaced e (hpre.subset (by simp))
  obtain ⟨t, ht, hfits, -⟩ := hg.fits pre e hpre
  obtain ⟨t', ht', hagree⟩ := h.replay
  have hforward := replay_eq_ok_of_append ht ht'
  exact ((h.shown.backward he.inRange he.states).and
    (hundo pre s t t' e hfits hforward hagree)).mono
    (fun s' hs' => ⟨hs'.1, t, ht, hs'.2⟩) fun _ hf => hf.1

theorem Grid.Replays.keptBy (hg : g.Replays p) (hplaced : ∀ e ∈ g.events, e.Placed)
    {back : Prop} (hzero : R .zero .zero)
    (hredo : ∀ pre s t t' e, Fits p pre t e → applyEventForward t e = .ok t' → R s t →
      (applyEventForward s e).Sat (R · t') fun _ => False)
    (hundo : back → ∀ pre s t t' e, Fits p pre t e → applyEventForward t e = .ok t' → R s t' →
      (applyEventBackward s e).Sat (R · t) fun _ => False)
    (hfade : ∀ s t, R s t → R s.fade t) : KeptBy g.events back (AgreesWithReplay R) where
  zero := ⟨shown_zero, .zero, rfl, hzero⟩
  redo _ _ _ hpre h := hg.redo_agrees hplaced hredo hpre h
  undo hback _ _ _ hpre h := hg.undo_agrees hplaced (hundo hback) hpre h
  fade _ s h := by
    obtain ⟨t, ht, hagree⟩ := h.replay
    exact ⟨⟨h.shown.counters, h.shown.l2.states, h.shown.l2.dominant⟩, t, ht, hfade s t hagree⟩

end Replays

/-- The two states agree on L1D, and on the states of L2. -/
structure SamePicture (s t : ShadowState) : Prop where
  l1 : AgreeL1 (fun _ => Eq) s t
  l2 : AgreeL2 s t

theorem SamePicture.sameL1States {s t : ShadowState} (h : SamePicture s t) : SameL1States s t :=
  fun c i w => congrArg ShadowCell.state (h.l1 (c, i, w))

theorem SamePicture.redo {p : Permit} {pre : List Event} {s t t' : ShadowState} {e : Event}
    (h : SamePicture s t) (hfits : Fits p pre t e) (ht' : applyEventForward t e = .ok t') :
    (applyEventForward s e).Sat (SamePicture · t') fun _ => False :=
  ((h.l1.redo hfits ht' (fun _ _ _ _ _ hxy => congrArg (forwardL1Cell · e) hxy)
    fun _ _ _ _ hxy => hxy).and (h.l2.redo hfits ht')).mono (fun _ hs' => ⟨hs'.1, hs'.2⟩)
      fun _ hf => hf.1

section Kept

variable {s₀ s : Sim} {trace : List CallRecord}

/-- Whatever keys are pressed, the viewer shows the L1D states of the replay. -/
theorem Run.keptBy_l1States (h₀ : s₀.EmptyCaches) (hr : s₀.Recording)
    (h : Run (fun call _ => call.IsData) s₀ trace s) :
    KeptBy s.events True (AgreesWithReplay (AgreeL1 fun _ x y => x.state = y.state)) :=
  (h.replays_data h₀ hr).keptBy (h.events_placed h₀ hr) (fun _ => rfl)
    (fun _ _ _ _ e hfits ht' hs => hs.redo hfits ht'
      (fun _ x y _ _ hxy => forwardL1Cell_state x y hxy e) fun _ _ _ _ hxy => hxy)
    (fun _ _ _ _ _ _ hfits ht' hs => hs.undo hfits ht'
      (fun _ x _ hfit hx => hfit.state x hx) fun _ _ _ _ hxy => hxy)
    fun _ _ hs => hs

/-- Without the left arrow key it shows the replay. -/
theorem Run.keptBy_picture (h₀ : s₀.EmptyCaches) (hr : s₀.Recording)
    (h : Run (fun call _ => call.IsData) s₀ trace s) :
    KeptBy s.events False (AgreesWithReplay SamePicture) :=
  (h.replays_data h₀ hr).keptBy (h.events_placed h₀ hr)
    ⟨fun _ => rfl, fun _ => rfl, fun _ => rfl⟩ (fun _ _ _ _ _ hfits ht' hs => hs.redo hfits ht')
    False.elim fun _ _ hs => ⟨hs.l1, hs.l2.state, hs.l2.dominant⟩

end Kept

end CacheSimulator
