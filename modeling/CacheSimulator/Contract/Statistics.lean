import CacheSimulator.Replay.Recorded
import Mathlib.Data.List.Count

/-!
# The counters of the visualizer

The replay counts the events that report a hit, and the simulator increments a
counter wherever it hits. Each call that returns `true` does both once, for one
kind of hit.
-/

namespace CacheSimulator

/-! ## Counting in the events -/

/-- The event counts a hit of kind `k` by core `c`. No event counts a hit in L1I. -/
def Event.counts (e : Event) (c : CoreId) : HitKind → Bool
  | .l1d => e.coreId.toNat == c && e.type == .l1dHit
  | .l1i => false
  | .l2 => e.coreId.toNat == c && e.type == .l2Hit
  | .mem => e.coreId.toNat == c && e.type == .memFetch

def ShadowCounters.get (counters : ShadowCounters) : HitKind → ℕ
  | .l1d => counters.l1dHits
  | .l1i => 0
  | .l2 => counters.l2Hits
  | .mem => counters.memFetches

theorem get_updateCountersForward (s : ShadowState) (e : Event) (c : CoreId) (k : HitKind) :
    ((updateCountersForward s e).counters c).get k =
      (s.counters c).get k + if e.counts c k then 1 else 0 := by
  unfold updateCountersForward updateCounters
  split
  · rename_i hcore
    by_cases hc : c = ⟨e.coreId.toNat, hcore⟩
    · have hval : e.coreId.toNat = c := (congrArg Fin.val hc).symm
      subst hc
      simp only [Function.update_self]
      cases htype : e.type <;> cases k <;>
        simp [ShadowCounters.modify, ShadowCounters.get, Event.counts, htype]
    · have hval : ¬ e.coreId.toNat = c := fun h => hc (Fin.ext h.symm)
      simp only [Function.update_of_ne hc]
      cases k <;> simp [Event.counts, hval]
  · rename_i hcore
    have hval : ¬ e.coreId.toNat = c := fun h => hcore (h ▸ c.isLt)
    cases k <;> simp [Event.counts, hval]

theorem applyEventForward_counters (s : ShadowState) (e : Event) :
    (applyEventForward s e).Sat (fun s' => s'.counters = (updateCountersForward s e).counters)
      fun _ => True := by
  unfold applyEventForward
  split
  · exact (Except.sat_returned _).bind fun _ _ => (Except.sat_returned _).bind fun _ _ =>
      (Except.sat_returned _).bind fun _ _ => rfl
  · split
    · refine (Except.sat_returned _).bind fun _ _ => (Except.sat_returned _).bind fun _ _ => ?_
      split
      · exact (Except.sat_returned _).bind fun _ _ => rfl
      · exact rfl
    · exact rfl

theorem replay_counters (events : List Event) :
    (replay events).Sat (fun s => ∀ c k, (s.counters c).get k = events.countP (·.counts c k))
      fun _ => True := by
  induction events using List.reverseRecOn with
  | nil =>
      intro c k
      cases k <;> rfl
  | append_singleton events e ih =>
      rw [replay, List.foldlM_append]
      refine ih.bind fun s hs => ?_
      rw [List.foldlM_cons]
      refine (applyEventForward_counters s e).bind fun s' hs' c k => ?_
      rw [hs', get_updateCountersForward, hs, List.countP_append, List.countP_singleton]

/-! ## Counting in a call -/

section Acts

variable {seq : BitVec 32} {p : Permit} {g g' : Grid} {ls : List Label}

theorem Act.counts_nothing (h : Act seq p g g') (c : CoreId) (k : HitKind) :
    g'.events.countP (·.counts c k) = g.events.countP (·.counts c k) := by
  cases h with
  | level1 _ hrule =>
      change List.countP _ (g.events ++ [_]) = _
      cases hrule <;> cases k <;> simp [Event.counts, level1Event]
  | level2 _ hrule =>
      change List.countP _ (g.events ++ [_]) = _
      cases hrule <;> cases k <;> simp [Event.counts, level2Event]
  | l1iSnoop =>
      change List.countP _ (g.events ++ [_]) = _
      cases k <;> simp [Event.counts, level1Event]
  | silentL2 => rfl

theorem Hit.counts_one {c : CoreId} {k : HitKind} (h : Hit seq p c g k g') (c' : CoreId)
    (k' : HitKind) : g'.events.countP (·.counts c' k') =
      g.events.countP (·.counts c' k') + [Label.event c k].count (.event c' k') := by
  have hcore : (BitVec.ofNat 8 (c : ℕ)).toNat = c := by
    rw [BitVec.toNat_ofNat, Nat.mod_eq_of_lt (Nat.lt_trans c.isLt (by decide))]
  have hval : ((c : ℕ) == (c' : ℕ)) = decide (c = c') := by
    rw [Bool.eq_iff_iff, beq_iff_eq, decide_eq_true_iff, Fin.val_inj]
  cases h with
  | l1d hl =>
      change List.countP _ (g.events ++ [_]) = _
      rw [List.countP_append, List.countP_singleton]
      cases k' <;> simp [Event.counts, level1Event, hl, hcore, hval, List.count_singleton]
  | l2 =>
      change List.countP _ (g.events ++ [_]) = _
      rw [List.countP_append, List.countP_singleton]
      cases k' <;> simp [Event.counts, level2Event, hcore, hval, List.count_singleton]
  | mem =>
      change List.countP _ (g.events ++ [_]) = _
      rw [List.countP_append, List.countP_singleton]
      cases k' <;> simp [Event.counts, memFetchEvent, hcore, hval, List.count_singleton]

theorem Act.pmc_eq (h : Act seq p g g') : g'.pmc = g.pmc := by
  cases h <;> rfl

theorem Hit.pmc_eq {c : CoreId} {k : HitKind} (h : Hit seq p c g k g') : g'.pmc = g.pmc := by
  cases h <;> rfl

/-- The labels say how far the counters of both sides move. -/
theorem Acts.counts (h : Acts seq p g ls g') (c : CoreId) (k : HitKind) :
    g'.events.countP (·.counts c k) = g.events.countP (·.counts c k) + ls.count (.event c k) ∧
      (g'.pmc c).get k = (g.pmc c).get k + ls.count (.bump c k) := by
  induction h with
  | refl => exact ⟨rfl, rfl⟩
  | act _ hact ih =>
      rw [hact.counts_nothing, hact.pmc_eq]
      exact ih
  | hit _ hhit ih =>
      rw [hhit.counts_one, hhit.pmc_eq, List.count_append, List.count_append, ih.1, ih.2]
      exact ⟨Nat.add_assoc _ _ _, by simp⟩
  | @bump ls g' c' k' _ ih =>
      rw [List.count_append, List.count_append]
      refine ⟨by simpa [Grid.bump] using ih.1, ?_⟩
      simp only [Grid.bump, Function.update_apply]
      by_cases hc : c = c'
      · subst hc
        rw [if_pos rfl, PerfCounters.get_bump, ih.2]
        by_cases hk : k = k'
        · subst hk
          simp [Nat.add_assoc]
        · simp [hk, Ne.symm hk]
      · rw [if_neg hc, ih.2]
        simp [Ne.symm hc]

end Acts

/-! ## Counting in a run -/

def returnedCalls (c : CoreId) (trace : List CallRecord) : ℕ :=
  trace.countP fun record => record.call.coreId == c && record.result.isSome

/-- What the counters of core `c` say after the calls of `trace`. -/
structure Counted (g : Grid) (c : CoreId) (trace : List CallRecord) : Prop where
  events : ∀ k ≠ HitKind.l1i, g.events.countP (·.counts c k) = (g.pmc c).get k
  calls : (g.pmc c).get .l1d + (g.pmc c).get .l2 + (g.pmc c).get .mem = returnedCalls c trace

section Runs

variable {s₀ s : Sim} {trace : List CallRecord} {p : Permit}

theorem Counted.call {call : Call} {r : Sim × Option (List Byte)} {pa : Option Addr} {c : CoreId}
    (h : Counted s.grid c trace) (hcallback : s.callback = true)
    (hr : s.CountsAtMostOne p call.coreId r) :
    Counted r.1.grid c (trace ++ [⟨call, pa, r.2⟩]) := by
  rcases hr with ⟨hresult, htraces⟩ | ⟨hresult, k₀, hk₀, ls, hls, htraces⟩
  · have hcounts := fun k => (htraces.acts hcallback).counts c k
    simp only [List.count_nil, Nat.add_zero] at hcounts
    refine ⟨fun k hk => ?_, ?_⟩
    · rw [(hcounts k).1, (hcounts k).2, h.events k hk]
    · rw [(hcounts .l1d).2, (hcounts .l2).2, (hcounts .mem).2, h.calls]
      simp [returnedCalls, hresult]
  · have hcounts := fun k => (htraces.acts hcallback).counts c k
    simp only [hls.count_eq] at hcounts
    refine ⟨fun k hk => ?_, ?_⟩
    · rw [(hcounts k).1, (hcounts k).2, h.events k hk]
      simp [List.count_cons]
    · rw [(hcounts .l1d).2, (hcounts .l2).2, (hcounts .mem).2]
      have hsum := h.calls
      by_cases hc : call.coreId = c
      · -- the hit is counted in one of the three summands
        have hreturned : returnedCalls c (trace ++ [⟨call, pa, r.2⟩]) =
            returnedCalls c trace + 1 := by
          simp [returnedCalls, hc, hresult]
        rw [hreturned, ← hsum]
        cases k₀ with
        | l1i => exact absurd rfl hk₀
        | l1d => simp [hc]; omega
        | l2 => simp [hc]; omega
        | mem => simp [hc]; omega
      · have hreturned : returnedCalls c (trace ++ [⟨call, pa, r.2⟩]) = returnedCalls c trace := by
          simp [returnedCalls, hc]
        rw [hreturned, ← hsum]
        simp [hc]

theorem Run.counted (h₀ : s₀.EmptyCaches) (hr : s₀.Recording)
    (hzero : ∀ c, (s₀.cpu.cores c).pmc = ⟨0, 0, 0, 0⟩)
    (h : Run (fun call _ => call.IsData) s₀ trace s) (c : CoreId) :
    s.callback = true ∧ Counted s.grid c trace := by
  induction h with
  | start =>
      have hevents : s₀.grid.events = [] := hr.events
      have hpmc : s₀.grid.pmc c = ⟨0, 0, 0, 0⟩ := hzero c
      refine ⟨hr.callback, fun k _ => ?_, ?_⟩
      · rw [hevents, hpmc]
        cases k <;> rfl
      · rw [hpmc]
        rfl
  | call call hrun hcall hexec ih =>
      have hcounts := (Sim.exec_traces (hrun.inv h₀) hcall
        (dataPermit_allows (.inl trivial))).of_eq_ok hexec
      obtain ⟨ls, htraces⟩ := hcounts.traces
      exact ⟨htraces.callback.trans ih.1, ih.2.call ih.1 hcounts⟩
  | beginStep seq hrun ih => exact ih

/-- The replayed counters are those of the simulator, and count the calls that
returned `true`. -/
theorem Run.statistics_agree (h₀ : s₀.EmptyCaches) (hr : s₀.Recording)
    (hzero : ∀ c, (s₀.cpu.cores c).pmc = ⟨0, 0, 0, 0⟩)
    (h : Run (fun call _ => call.IsData) s₀ trace s) :
    ∃ shadow, replay s.events = .ok shadow ∧ ∀ c,
      (shadow.counters c).l1dHits = (s.cpu.cores c).pmc.l1dHits ∧
      (shadow.counters c).l2Hits = (s.cpu.cores c).pmc.l2Hits ∧
      (shadow.counters c).memFetches = (s.cpu.cores c).pmc.memFetches ∧
      (shadow.counters c).l1dHits + (shadow.counters c).l2Hits + (shadow.counters c).memFetches =
        returnedCalls c trace := by
  obtain ⟨shadow, hshadow, -⟩ := (h.replays_data h₀ hr).mirrors
  refine ⟨shadow, hshadow, fun c => ?_⟩
  have hreplay := (replay_counters _).of_eq_ok hshadow c
  obtain ⟨-, hevents, hcalls⟩ := h.counted h₀ hr hzero c
  have hl1d := (hreplay .l1d).trans (hevents .l1d (by decide))
  have hl2 := (hreplay .l2).trans (hevents .l2 (by decide))
  have hmem := (hreplay .mem).trans (hevents .mem (by decide))
  rw [← hl1d, ← hl2, ← hmem] at hcalls
  exact ⟨hl1d, hl2, hmem, hcalls⟩

/-- A page fault among calls that hit in memory, in L1 and in L2. -/
def countedCalls : List Call :=
  [.write 0 0x0 [1], .read 0 0x0 1, .read 1 0x0 1, .read 1 0x100000 1, .write 0 0x0 [2]]

theorem statistics_agree_conflict : ∃ trace s shadow,
    Run (fun call _ => call.IsData) (conflictMachine true) trace s ∧
      trace.map CallRecord.call = countedCalls ∧ replay s.events = .ok shadow ∧ ∀ c,
      (shadow.counters c).l1dHits = (s.cpu.cores c).pmc.l1dHits ∧
      (shadow.counters c).l2Hits = (s.cpu.cores c).pmc.l2Hits ∧
      (shadow.counters c).memFetches = (s.cpu.cores c).pmc.memFetches ∧
      (shadow.counters c).l1dHits + (shadow.counters c).l2Hits + (shadow.counters c).memFetches =
        returnedCalls c trace := by
  have hexec : (runCalls (fun call _ => call.IsData) countedCalls
      (conflictMachine true)).isSome := by decide +kernel
  obtain ⟨trace, s, hrun, hcalls⟩ := exists_run hexec
  obtain ⟨shadow, hshadow⟩ := hrun.statistics_agree (Sim.initial_emptyCaches _ _ _) ⟨rfl, rfl⟩
    fun _ => rfl
  exact ⟨trace, s, shadow, hrun, hcalls, hshadow⟩

end Runs

end CacheSimulator
