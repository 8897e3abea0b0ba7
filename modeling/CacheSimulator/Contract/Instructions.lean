import CacheSimulator.Replay.Fetches
import CacheSimulator.Replay.Recorded

/-!
# What a fetch does to the picture of L1D

The replay of a fetch shows the L1D states, unless the fetch evicts an L1I line
whose way is in use in L1D: the event of the eviction has no mark of L1I.
-/

namespace CacheSimulator

variable {s₀ s s' : Sim} {trace : List CallRecord} {shadow : ShadowState}

def Sim.L1StatesShownBy (s : Sim) (shadow : ShadowState) : Prop :=
  ∀ c i w, (shadow.l1d c i).state w = ((s.l1 .data c i).state w).toByte

namespace Call

def ClobbersL1D (call : Call) (s : Sim) : Prop :=
  match call with
  | fetch c virtualAddress dataSize =>
      ∃ physicalAddress ∈ (fetch c virtualAddress dataSize).physicalAddress s,
        s.ClobbersL1D c physicalAddress
  | _ => False

instance (s : Sim) (physicalAddress tag : Addr) : Decidable (s.Displaces physicalAddress tag) :=
  inferInstanceAs (Decidable (_ ∧ _ ∧ _))

instance (s : Sim) (k : L1Kind) (c : CoreId) (physicalAddress : Addr) (v : Fin 8) :
    Decidable (s.Stays k c physicalAddress v) := inferInstanceAs (Decidable (_ ∧ _))

instance (s : Sim) (c : CoreId) (physicalAddress : Addr) :
    Decidable (s.ClobbersL1D c physicalAddress) := inferInstanceAs (Decidable (_ ∧ _ ∧ _))

instance (call : Call) (s : Sim) : Decidable (call.ClobbersL1D s) :=
  match call with
  | read _ _ _ => inferInstanceAs (Decidable False)
  | write _ _ _ => inferInstanceAs (Decidable False)
  | fetch _ _ _ => decidableExistsMem _

end Call

theorem Sim.Inv.fetch_shows {c : CoreId} {virtualAddress : Addr} {size : ℕ}
    {result : Option (List Byte)} (hs : s.Inv)
    (hexec : (Call.fetch c virtualAddress size).exec s = .ok (s', result)) :
    s.FetchShows ((Call.fetch c virtualAddress size).ClobbersL1D s) s' := by
  have hsame := SameCaches.translateInstr s c virtualAddress
  have hgrid := Sim.SameGrid.translateInstr s c virtualAddress
  have hpa : (Call.fetch c virtualAddress size).physicalAddress s =
      (translateInstr s c virtualAddress).1 := rfl
  rw [Call.exec, cpuFetch] at hexec
  rw [Call.ClobbersL1D, hpa]
  generalize translateInstr s c virtualAddress = r at hsame hgrid hexec ⊢
  obtain ⟨found, t⟩ := r
  have hgrid' : t.grid = s.grid := hgrid.grid
  have hcallback : t.callback = s.callback := hgrid.callback
  cases found with
  | none =>
      cases hexec
      refine ⟨hcallback, fun _ => ⟨none, ?_, iff_of_false (by simp) (by simp)⟩⟩
      rw [hgrid']
      exact .of_eq rfl rfl
  | some pa =>
      have hplays := (Sim.fetch_plays (hs.congr hsame)).of_eq_ok hexec
      refine ⟨hplays.callback.trans hcallback, fun hc => ?_⟩
      obtain ⟨stray, hplay, hstray⟩ := hplays.shows (hcallback.trans hc)
      refine ⟨stray, hgrid' ▸ hplay, hstray.trans ?_⟩
      simp only [Option.mem_def, Option.some.injEq, exists_eq_left']
      exact Sim.ClobbersL1D.congr hsame

/-- The replay of a fetch shows the L1D states if and only if the fetch evicts no
L1I line whose way is in use in L1D. -/
theorem Run.fetch_shows_iff {c : CoreId} {virtualAddress : Addr} {size : ℕ}
    {result : Option (List Byte)} (h₀ : s₀.EmptyCaches) (h : Run Call.Any s₀ trace s)
    (hcallback : s.callback = true) (hshadow : s.L1StatesShownBy shadow)
    (hexec : (Call.fetch c virtualAddress size).exec s = .ok (s', result)) :
    (∃ shadow', (s'.events.drop s.events.length).foldlM applyEventForward shadow = .ok shadow' ∧
        s'.L1StatesShownBy shadow') ↔ ¬ (Call.fetch c virtualAddress size).ClobbersL1D s := by
  obtain ⟨stray, ⟨added, hadded, hplay⟩, hstray⟩ :=
    ((h.inv h₀).fetch_shows hexec).shows hcallback
  have hdrop : s'.events.drop s.events.length = added := by
    have hevents : s'.events = s.events ++ added := hadded
    rw [hevents, List.drop_left]
  obtain ⟨last, hlast, hshown⟩ := hplay shadow fun l => hshadow l.1 l.2.1 l.2.2
  rw [hdrop, ← hstray]
  constructor
  · rintro ⟨shadow', hshadow', hshows⟩ ⟨l, hl, hvalid⟩
    obtain rfl : last = shadow' := Except.ok.inj (hlast.symm.trans hshadow')
    have hfree := hshown l
    rw [if_pos (Option.mem_def.mp hl)] at hfree
    exact hvalid (toByte_eq_invalid.mp ((hshows l.1 l.2.1 l.2.2).symm.trans hfree))
  · intro hnone
    refine ⟨last, hlast, fun c i w => (hshown (c, i, w)).trans ?_⟩
    split
    · rename_i hl
      rw [not_exists] at hnone
      have hfree := not_not.mp fun hv => hnone (c, i, w) ⟨hl, hv⟩
      exact (toByte_eq_invalid.mpr hfree).symm
    · rfl

instance (s : Sim) (shadow : ShadowState) : Decidable (s.L1StatesShownBy shadow) :=
  inferInstanceAs (Decidable (∀ _, _))

/-- A line that core 0 has read, and a set of L1I full of other lines. -/
def fullInstrSetCalls : List Call :=
  .read 0 0x0 1 :: (List.range 8).map fun i => .fetch 0 (BitVec.ofNat 64 (0x1000 * (i + 1))) 1

theorem fetch_shows_iff_conflict : ∃ trace s shadow s' result,
    Run Call.Any (conflictMachine true) trace s ∧ trace.map CallRecord.call = fullInstrSetCalls ∧
      s.L1StatesShownBy shadow ∧ (Call.fetch 1 0x9000 1).exec s = .ok (s', result) ∧
        ∃ shadow', (s'.events.drop s.events.length).foldlM applyEventForward shadow = .ok shadow' ∧
          s'.L1StatesShownBy shadow' := by
  have hexec : (runCalls Call.Any fullInstrSetCalls (conflictMachine true)).any fun r =>
      r.2.callback && ((replay r.2.events).toOption.any fun shadow =>
        r.2.L1StatesShownBy shadow) &&
        ((Call.fetch 1 0x9000 1).exec r.2).toOption.any fun _ =>
          ¬ (Call.fetch 1 0x9000 1).ClobbersL1D r.2 := by decide +kernel
  obtain ⟨⟨trace, s⟩, hcalls, hs⟩ := (Option.any_eq_true _ _).mp hexec
  simp only [Bool.and_eq_true] at hs
  obtain ⟨⟨hcallback, hreplay⟩, hfetch⟩ := hs
  obtain ⟨shadow, -, hshadow⟩ := (Option.any_eq_true _ _).mp hreplay
  obtain ⟨⟨s', result⟩, hs', hclean⟩ := (Option.any_eq_true _ _).mp hfetch
  have hrun := Run.of_runCalls .start hcalls
  have hshown := of_decide_eq_true hshadow
  have hok := Except.eq_ok_of_toOption hs'
  exact ⟨trace, s, shadow, s', result, hrun, runCalls_calls hcalls, hshown, hok,
    (hrun.fetch_shows_iff (Sim.initial_emptyCaches _ _ _) hcallback hshown hok).mpr
      (of_decide_eq_true hclean)⟩

/-- The ninth line of the L1I set takes the way in which L1D has the line read. -/
theorem fetch_shows_iff_ninth : ∃ trace s shadow s' result,
    (conflictMachine true).EmptyCaches ∧ Run Call.Any (conflictMachine true) trace s ∧
      trace.map CallRecord.call = fullInstrSetCalls ∧ s.callback = true ∧
        s.L1StatesShownBy shadow ∧ (Call.fetch 0 0x9000 1).exec s = .ok (s', result) ∧
          ¬ ∃ shadow', (s'.events.drop s.events.length).foldlM applyEventForward shadow =
            .ok shadow' ∧ s'.L1StatesShownBy shadow' := by
  have hexec : (runCalls Call.Any fullInstrSetCalls (conflictMachine true)).any fun r =>
      r.2.callback && ((replay r.2.events).toOption.any fun shadow =>
        r.2.L1StatesShownBy shadow &&
          (((Call.fetch 0 0x9000 1).exec r.2).toOption.any fun r' =>
            ((r'.1.events.drop r.2.events.length).foldlM applyEventForward shadow).toOption.any
              fun shadow' =>
                (shadow'.l1d 0 0).state 0 != ((r'.1.l1 .data 0 0).state 0).toByte)) := by
    decide +kernel
  obtain ⟨⟨trace, s⟩, hcalls, hs⟩ := (Option.any_eq_true _ _).mp hexec
  rw [Bool.and_eq_true] at hs
  obtain ⟨shadow, -, hshadow⟩ := (Option.any_eq_true _ _).mp hs.2
  rw [Bool.and_eq_true] at hshadow
  obtain ⟨⟨s', result⟩, hs', hfetch⟩ := (Option.any_eq_true _ _).mp hshadow.2
  obtain ⟨last, hlast, hdiffer⟩ := (Option.any_eq_true _ _).mp hfetch
  refine ⟨trace, s, shadow, s', result, Sim.initial_emptyCaches _ _ _,
    .of_runCalls .start hcalls, runCalls_calls hcalls, hs.1, of_decide_eq_true hshadow.1,
      Except.eq_ok_of_toOption hs', ?_⟩
  rintro ⟨shadow', hshadow', hshown⟩
  obtain rfl := Except.ok.inj ((Except.eq_ok_of_toOption hlast).symm.trans hshadow')
  rw [bne_iff_ne] at hdiffer
  exact hdiffer (hshown 0 0 0)

end CacheSimulator
