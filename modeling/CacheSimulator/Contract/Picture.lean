import CacheSimulator.Replay.Recorded

/-!
# What the replay shows

The replay of a recorded run shows the L1D caches as they are, and of L2 which
ways are in use for which line. It shows the L2 states as they are when no call
of the run changes one that no event reports.
-/

namespace CacheSimulator

variable {s₀ s : Sim} {trace : List CallRecord}

/-! ## The data caches -/

/-- The shadow state has the L1D caches of `s`, with the bytes of the lines in
use, and the ways of L2 that are in use. -/
structure Sim.DataShownBy (s : Sim) (shadow : ShadowState) : Prop where
  l1State : ∀ c i w, (shadow.l1d c i).state w = ((s.l1 .data c i).state w).toByte
  l1Address : ∀ c i w, (s.l1 .data c i).state w ≠ .invalid →
    toLineBase ((shadow.l1d c i).tag w) = l1ToAddr ((s.l1 .data c i).tag w) i
  l1Data : ∀ c i w, (s.l1 .data c i).state w ≠ .invalid →
    (shadow.l1d c i).data w = (s.l1 .data c i).data w
  l2Valid : ∀ i w, (shadow.l2 i).state w ≠ MESIState.invalid.toByte ↔ (s.l2 i).state w ≠ .invalid
  l2Address : ∀ i w, (s.l2 i).state w ≠ .invalid →
    (shadow.l2 i).tag w = l2ToAddr ((s.l2 i).tag w) i

theorem Mirrors.dataShownBy {p : Permit} {shadow : ShadowState}
    (h : Mirrors p shadow s.grid) : s.DataShownBy shadow where
  l1State c i w := (h.l1 (c, i, w)).state
  l1Address c i w := (h.l1 (c, i, w)).address
  l1Data c i w := (h.l1 (c, i, w)).data
  l2Valid i w := not_congr (h.l2 (i, w)).valid
  l2Address i w := (h.l2 (i, w)).address

/-- The trace of a run of reads and writes determines the data caches. -/
theorem Run.replay_dataShown (h₀ : s₀.EmptyCaches) (hr : s₀.Recording)
    (h : Run (fun call _ => call.IsData) s₀ trace s) :
    ∃ shadow, replay s.events = .ok shadow ∧ s.DataShownBy shadow := by
  obtain ⟨shadow, hshadow, hmirrors⟩ := (h.replays_data h₀ hr).mirrors
  exact ⟨shadow, hshadow, hmirrors.dataShownBy⟩

/-- Core 0 stores to a line, core 1 reads it and takes it back. -/
def sharedStoreCalls : List Call := [.write 0 0x0 [1], .read 1 0x0 1, .write 1 0x0 [2]]

theorem replay_dataShown_conflict : ∃ trace s shadow,
    Run (fun call _ => call.IsData) (conflictMachine true) trace s ∧
      trace.map CallRecord.call = sharedStoreCalls ∧ replay s.events = .ok shadow ∧
        s.DataShownBy shadow := by
  have hexec : (runCalls (fun call _ => call.IsData) sharedStoreCalls
      (conflictMachine true)).isSome := by decide +kernel
  obtain ⟨trace, s, hrun, hcalls⟩ := exists_run hexec
  obtain ⟨shadow, hshadow⟩ := hrun.replay_dataShown (Sim.initial_emptyCaches _ _ _) ⟨rfl, rfl⟩
  exact ⟨trace, s, shadow, hrun, hcalls, hshadow⟩

/-! ## The states of L2 -/

theorem dominantState_foldl (state : Fin 16 → Byte) (ws : List (Fin 16)) (best : ℕ × Byte)
    (hbest : best.1 = mesiPriority best.2) :
    let r := ws.foldl (fun (best : ℕ × Byte) w =>
      let p := mesiPriority (state w)
      if p > best.1 then (p, state w) else best) best
    r.1 = mesiPriority r.2 ∧ best.1 ≤ r.1 ∧ (∀ w ∈ ws, mesiPriority (state w) ≤ r.1) ∧
      (r.2 = best.2 ∨ ∃ w, r.2 = state w) := by
  induction ws generalizing best with
  | nil => exact ⟨hbest, Nat.le_refl _, by simp, .inl rfl⟩
  | cons w ws ih =>
      rw [List.foldl_cons]
      dsimp only
      by_cases hp : mesiPriority (state w) > best.1
      · rw [if_pos hp]
        obtain ⟨h1, h2, h3, h4⟩ := ih (mesiPriority (state w), state w) rfl
        refine ⟨h1, Nat.le_trans (Nat.le_of_lt hp) h2, ?_, .inr ?_⟩
        · rintro v (_ | ⟨_, hv⟩)
          · exact h2
          · exact h3 v hv
        · rcases h4 with h4 | h4
          · exact ⟨w, h4⟩
          · exact h4
      · rw [if_neg hp]
        obtain ⟨h1, h2, h3, h4⟩ := ih best hbest
        refine ⟨h1, h2, ?_, h4⟩
        rintro v (_ | ⟨_, hv⟩)
        · exact Nat.le_trans (Nat.le_of_not_gt hp) h2
        · exact h3 v hv

theorem mesiPriority_toByte_eq_zero {state : MESIState} (h : mesiPriority state.toByte ≤ 0) :
    state = .invalid := by
  cases state with
  | invalid => rfl
  | modified => exact absurd h (by decide)
  | exclusive => exact absurd h (by decide)
  | shared => exact absurd h (by decide)

/-- The dominant state is a state of the set, and has the greatest priority. -/
theorem dominantState_spec {set : ShadowL2} {state : Fin 16 → MESIState}
    (h : ∀ w, set.state w = (state w).toByte) :
    (∃ w, dominantState set = (state w).toByte) ∧
      ∀ w, mesiPriority (state w).toByte ≤ mesiPriority (dominantState set) := by
  obtain ⟨h1, -, h3, h4⟩ := dominantState_foldl set.state (List.finRange 16)
    (0, MESIState.invalid.toByte) rfl
  change _ = mesiPriority (dominantState set) at h1
  change dominantState set = _ ∨ ∃ w, dominantState set = _ at h4
  rw [h1] at h3
  have hle : ∀ w, mesiPriority (state w).toByte ≤ mesiPriority (dominantState set) := by
    intro w
    rw [← h]
    exact h3 w (List.mem_finRange w)
  refine ⟨?_, hle⟩
  rcases h4 with h4 | ⟨w, hw⟩
  · -- no way is in use
    have hzero := hle 0
    rw [h4] at hzero
    exact ⟨0, by rw [mesiPriority_toByte_eq_zero hzero, h4]⟩
  · exact ⟨w, by rw [hw, h]⟩

/-- The shadow state has the L2 states of `s`, and the greatest of each set as its
dominant state. -/
structure Sim.L2ShownBy (s : Sim) (shadow : ShadowState) : Prop where
  state : ∀ i w, (shadow.l2 i).state w = ((s.l2 i).state w).toByte
  dominant : ∀ i, (∃ w, shadow.l2Dominant i = ((s.l2 i).state w).toByte) ∧
    ∀ w, mesiPriority ((s.l2 i).state w).toByte ≤ mesiPriority (shadow.l2Dominant i)

theorem Mirrors.l2ShownBy {shadow : ShadowState} (h : Mirrors (dataPermit False) shadow s.grid) :
    s.L2ShownBy shadow := by
  have hstate : ∀ i w, (shadow.l2 i).state w = ((s.l2 i).state w).toByte := fun i w =>
    (h.l2 (i, w)).state.resolve_right fun hstale => by
      obtain ⟨_, _, _, hsilent, _⟩ := hstale
      exact hsilent
  refine ⟨hstate, fun i => ?_⟩
  rw [h.dominant]
  exact dominantState_spec (hstate i)

/-- The replay shows the L2 states when no call hides a change of one. -/
theorem Run.replay_l2Shown (h₀ : s₀.EmptyCaches) (hr : s₀.Recording)
    (h : Run (fun call s => call.IsData ∧ ¬ call.HidesL2Change s) s₀ trace s) :
    ∃ shadow, replay s.events = .ok shadow ∧ s.L2ShownBy shadow := by
  obtain ⟨shadow, hshadow, hmirrors⟩ := (h.replays h₀ hr fun _ _ hcall =>
    ⟨hcall.1, dataPermit_allows (.inr hcall.2)⟩).mirrors
  exact ⟨shadow, hshadow, hmirrors.l2ShownBy⟩

/-- Both cores read a line of their own, and core 1 stores to a line twice. -/
def ownLineCalls : List Call :=
  [.read 0 0x0 1, .read 1 0x1000 1, .write 1 0x2000 [1], .write 1 0x2000 [2]]

theorem replay_l2Shown_conflict : ∃ trace s shadow,
    Run (fun call s => call.IsData ∧ ¬ call.HidesL2Change s) (conflictMachine true) trace s ∧
      trace.map CallRecord.call = ownLineCalls ∧ replay s.events = .ok shadow ∧
        s.L2ShownBy shadow := by
  have hexec : (runCalls (fun call s => call.IsData ∧ ¬ call.HidesL2Change s) ownLineCalls
      (conflictMachine true)).isSome := by decide +kernel
  obtain ⟨trace, s, hrun, hcalls⟩ := exists_run hexec
  obtain ⟨shadow, hshadow⟩ := hrun.replay_l2Shown (Sim.initial_emptyCaches _ _ _) ⟨rfl, rfl⟩
  exact ⟨trace, s, shadow, hrun, hcalls, hshadow⟩

/-- After a read and a store by one core L2 holds the line MODIFIED, and the
replay shows it EXCLUSIVE. -/
theorem replay_l2Shown_readWrite : ∃ trace s shadow,
    (conflictMachine true).EmptyCaches ∧ (conflictMachine true).Recording ∧
      Run (fun call _ => call.IsData) (conflictMachine true) trace s ∧
        trace.map CallRecord.call = [.read 0 0x0 1, .write 0 0x0 [1]] ∧
          replay s.events = .ok shadow ∧ ¬ s.L2ShownBy shadow := by
  have hexec : (runCalls (fun call _ => call.IsData) [.read 0 0x0 1, .write 0 0x0 [1]]
      (conflictMachine true)).any fun r =>
        match replay r.2.events with
        | .ok shadow => (shadow.l2 0).state 0 != ((r.2.l2 0).state 0).toByte
        | .error _ => false := by decide +kernel
  obtain ⟨⟨trace, s⟩, hcalls, hr⟩ := (Option.any_eq_true _ _).mp hexec
  dsimp only at hr
  cases hshadow : replay s.events with
  | error f => rw [hshadow] at hr; cases hr
  | ok shadow =>
      rw [hshadow] at hr
      refine ⟨trace, s, shadow, Sim.initial_emptyCaches _ _ _, ⟨rfl, rfl⟩,
        .of_runCalls .start hcalls,
        runCalls_calls hcalls, hshadow, fun hshown => ?_⟩
      rw [bne_iff_ne] at hr
      exact hr (hshown.state 0 0)

end CacheSimulator
