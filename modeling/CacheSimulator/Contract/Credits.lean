import CacheSimulator.Contract.Navigation
import CacheSimulator.Contract.Streams

/-!
# Who is credited for a prefetch

`pf_fill_l2` does not know the core it works for, and its event names core 0. So the
counters of the visualizer give every prefetch to core 0: they are right exactly in the
runs in which no call of core 1 has a line to prefetch.
-/

namespace CacheSimulator

variable {s₀ s s' t u : Sim} {a : LineNo} {c : CoreId} {call : Call} {trace : List CallRecord}
  {result : Option (List Byte)}

/-! ## What a call prefetches -/

/-- The lines that `pf_fill_l2` has filled in a data call that leads from `s` to `s'`: all
that the call has filled into L2 after the line it missed. -/
def prefetched (s s' : Sim) : List Addr := (s'.fills.drop s.fills.length).tail

/-- The lines that a data call made in `s` prefetches: when it misses, those that the burst
of the matching stream reaches and L2 lacks. -/
def Call.issues (call : Call) (s : Sim) : List Addr :=
  match call.physicalAddress s with
  | none => []
  | some physicalAddress =>
      if s.HasCopy .data call.coreId (lineNo physicalAddress) ∨ s.Resident (lineNo physicalAddress)
      then []
      else
        let missLine := toLineBase physicalAddress
        match s.matchedStream call.coreId missLine with
        | none => []
        | some (_, stream) =>
            (burstLines s.mem.size missLine stream.direction.toInt64 9 stream.prefetchHead).filter
              fun line => line ≠ missLine ∧ ¬s.Resident (lineNo line)

namespace Sim

theorem matchedStream_congr (c : CoreId) (missLine : Addr) (h : t.streams = s.streams) :
    t.matchedStream c missLine = s.matchedStream c missLine := by
  have hstreams : (t.cpu.cores c).prefetcher.streams = (s.cpu.cores c).prefetcher.streams :=
    congrFun h c
  rw [matchedStream, matchedStream, hstreams]

theorem Demands.absent_map {lines : List LineNo} (hd : Demands c a s t)
    (hlines : ∀ l ∈ lines, OnePage l a) :
    (t.absent lines).map lineAddr = (lines.map lineAddr).filter
      fun line => line ≠ lineAddr a ∧ ¬s.Resident (lineNo line) := by
  rw [Sim.absent, List.filter_map]
  congr 1
  refine List.filter_congr fun l hl => ?_
  simp only [Function.comp_apply, lineNo_lineAddr, ne_eq, lineAddr_inj, decide_eq_decide]
  by_cases hla : l = a
  · subst hla
    exact iff_of_false (not_not.mpr hd.present) fun h => h.1 rfl
  · rw [hd.frame l ((hlines l hl).index_ne hla)]
    exact ⟨fun h => ⟨hla, h⟩, fun h => h.2⟩

theorem LoadsLine.prefetched_eq {physicalAddress : Addr}
    (hcopy : ¬s.HasCopy .data call.coreId (lineNo physicalAddress))
    (hres : ¬s.Resident (lineNo physicalAddress))
    (hpa : call.physicalAddress s = some physicalAddress)
    (h : LoadsLine call.coreId (lineNo physicalAddress) s s') :
    prefetched s s' = call.issues s := by
  obtain ⟨t, i, stream, lines, u, hd, -, hwritten, rfl⟩ := h
  have hmatch := matchedStream_congr call.coreId (lineAddr (lineNo physicalAddress))
    hd.keeps.streams
  have hfills : prefetched s ((u.setStream call.coreId i stream).modifyPmc call.coreId
      (·.bump .mem)) = (t.absent lines).map lineAddr := by
    change ((u.fills).drop _).tail = _
    rw [(hwritten.prefetches hd.inv).fills, hd.fills, List.append_assoc, List.drop_left]
    rfl
  rw [hfills, Call.issues, hpa]
  dsimp only
  rw [if_neg (not_or.mpr ⟨hcopy, hres⟩), lineBase_eq, ← hmatch]
  cases hwritten with
  | allocate hnone =>
      rw [hnone]
      rfl
  | @advance _ stream _ h last _ _ hsome hm hbursts =>
      rw [hsome]
      dsimp only
      rw [hm.head_eq, ← hd.size, hbursts.lines_eq]
      refine hd.absent_map fun l hl => ?_
      exact (hbursts.strides.mem_onePage hl).trans
        (hm.onePage hbursts.strides (.inl (List.ne_nil_of_mem hl)))

theorem prefetched_eq_nil (h : s'.fills = s.fills) : prefetched s s' = [] := by
  rw [prefetched, h, List.drop_length]
  rfl

theorem DataCall.prefetched_eq (h : DataCall call s s') :
    prefetched s s' = call.issues s := by
  cases h with
  | fault hpa hst =>
      rw [prefetched_eq_nil hst.fills, Call.issues, hpa]
  | access hpa haccess =>
      cases haccess with
      | l1 hcopy hhits =>
          rw [prefetched_eq_nil hhits.fills, Call.issues, hpa]
          exact (if_pos (.inl hcopy)).symm
      | l2 _ hres hhits =>
          rw [prefetched_eq_nil hhits.fills, Call.issues, hpa]
          exact (if_pos (.inr hres)).symm
      | miss hcopy hres hloads => exact hloads.prefetched_eq hcopy hres hpa

/-- Every line a data call prefetches is recorded as a prefetch of core 0. -/
theorem DataCall.prefetchEvents (hcallback : s.callback = true) (h : DataCall call s s') :
    s'.callback = true ∧
      s'.prefetchEvents = s.prefetchEvents ++ (prefetched s s').map fun _ => 0#8 := by
  cases h with
  | fault _ hst =>
      rw [prefetched_eq_nil hst.fills, hst.keeps.prefetchEvents]
      exact ⟨hst.keeps.callback.trans hcallback, (List.append_nil _).symm⟩
  | access _ haccess =>
      cases haccess with
      | l1 _ hhits =>
          rw [prefetched_eq_nil hhits.fills, hhits.prefetchEvents]
          exact ⟨hhits.callback.trans hcallback, (List.append_nil _).symm⟩
      | l2 _ _ hhits =>
          rw [prefetched_eq_nil hhits.fills, hhits.prefetchEvents]
          exact ⟨hhits.callback.trans hcallback, (List.append_nil _).symm⟩
      | miss _ _ hloads =>
          obtain ⟨t, i, stream, lines, u, hd, -, hwritten, rfl⟩ := hloads
          have hp := hwritten.prefetches hd.inv
          have hcallback' : t.callback = true := hd.keeps.callback.trans hcallback
          have hevents := hp.prefetchEvents
          rw [if_pos hcallback', hd.keeps.prefetchEvents] at hevents
          refine ⟨hp.callback.trans hcallback', ?_⟩
          change u.prefetchEvents = _ ++ ((u.fills.drop _).tail).map _
          rw [hevents, hp.fills, hd.fills, List.append_assoc, List.drop_left, List.singleton_append,
            List.tail_cons, List.map_map]
          rfl

end Sim

/-! ## Runs -/

/-- A run with the lines that `pf_fill_l2` has filled in the calls of each core. -/
inductive PrefetchRun (ok : Call → Sim → Prop) (s₀ : Sim) :
    List CallRecord → (CoreId → List Addr) → Sim → Prop
  | start : PrefetchRun ok s₀ [] (fun _ => []) s₀
  | call {trace : List CallRecord} {filled : CoreId → List Addr} {s s' : Sim}
      {result : Option (List Byte)} (call : Call) :
      PrefetchRun ok s₀ trace filled s → ok call s → call.exec s = .ok (s', result) →
        PrefetchRun ok s₀ (trace ++ [⟨call, call.physicalAddress s, result⟩])
          (Function.update filled call.coreId (filled call.coreId ++ prefetched s s')) s'
  | beginStep {trace : List CallRecord} {filled : CoreId → List Addr} {s : Sim} (seq : BitVec 32) :
      PrefetchRun ok s₀ trace filled s → PrefetchRun ok s₀ trace filled { s with currentSeq := seq }

namespace PrefetchRun

variable {ok : Call → Sim → Prop} {filled : CoreId → List Addr}

theorem mono {ok' : Call → Sim → Prop} (hok : ∀ call s, ok call s → ok' call s)
    (h : PrefetchRun ok s₀ trace filled s) : PrefetchRun ok' s₀ trace filled s := by
  induction h with
  | start => exact .start
  | call call _ hcall hexec ih => exact .call call ih (hok _ _ hcall) hexec
  | beginStep seq _ ih => exact .beginStep seq ih

theorem run (h : PrefetchRun ok s₀ trace filled s) : Run ok s₀ trace s := by
  induction h with
  | start => exact .start
  | call call _ hok hexec ih => exact .call call ih hok hexec
  | beginStep seq _ ih => exact .beginStep seq ih

theorem dataCall (h₀ : s₀.EmptyCaches)
    (h : PrefetchRun (fun call _ => call.IsData) s₀ trace filled s) (hdata : call.IsData)
    (hexec : call.exec s = .ok (s', result)) : Sim.DataCall call s s' :=
  Sim.dataCall_of_exec (h.run.inv h₀) (h.run.streamsOk h₀) hdata hexec

/-- Every prefetch of either core is recorded as one of core 0. -/
theorem prefetchEvents (h₀ : s₀.EmptyCaches) (hr : s₀.Recording)
    (h : PrefetchRun (fun call _ => call.IsData) s₀ trace filled s) :
    s.callback = true ∧
      s.prefetchEvents = List.replicate ((filled 0).length + (filled 1).length) 0#8 := by
  induction h with
  | start => exact ⟨hr.callback, by simp [Sim.prefetchEvents, hr.events]⟩
  | @call trace filled s s' result call hrun hdata hexec ih =>
      obtain ⟨hcallback, hevents⟩ := ih
      obtain ⟨hcallback', hevents'⟩ := (hrun.dataCall h₀ hdata hexec).prefetchEvents hcallback
      refine ⟨hcallback', ?_⟩
      rw [hevents', hevents, List.map_const', List.replicate_append_replicate]
      congr 1
      rcases call.coreId.eq_zero_or_one with hc | hc
      · rw [hc, Function.update_self, Function.update_of_ne (by decide), List.length_append]
        omega
      · rw [hc, Function.update_self, Function.update_of_ne (by decide), List.length_append]
        omega
  | beginStep seq _ ih => exact ih

end PrefetchRun

/-! ## The replayed counters -/

theorem replay_field (events : List Event) :
    (replay events).Sat
      (fun shadow => ∀ c k, (shadow.counters c).field k = events.countP (·.countedBy c k))
      fun _ => True := by
  induction events using List.reverseRecOn with
  | nil =>
      intro c k
      cases k <;> rfl
  | append_singleton events e ih =>
      rw [replay, List.foldlM_append]
      refine ih.bind fun s hs => ?_
      rw [List.foldlM_cons]
      refine (applyEventForward_counters s e).bind fun s' hs' c k => ?_
      rw [hs', updateCountersForward, field_updateCounters, hs, List.countP_append,
        List.countP_singleton]
      split <;> rfl

theorem countP_prefetches (s : Sim) (c : CoreId) :
    s.events.countP (·.countedBy c .prefetches) =
      s.prefetchEvents.countP fun id => id.toNat == (c : ℕ) := by
  rw [Sim.prefetchEvents, List.countP_filterMap]
  refine List.countP_congr fun e _ => ?_
  by_cases htype : e.type = .prefetchL2
  · simp [Event.countedBy, ShadowCounter.counts, htype]
  · simp [Event.countedBy, ShadowCounter.counts, htype]

/-- The call is one of core 0, or it has no line to prefetch. -/
def Call.CreditsItself (call : Call) (s : Sim) : Prop := call.coreId = 0 ∨ call.issues s = []

namespace PrefetchRun

variable {filled : CoreId → List Addr}

theorem filled_call_iff (h₀ : s₀.EmptyCaches)
    (h : PrefetchRun (fun call _ => call.IsData) s₀ trace filled s) (hdata : call.IsData)
    (hexec : call.exec s = .ok (s', result)) :
    Function.update filled call.coreId (filled call.coreId ++ prefetched s s') 1 = [] ↔
      filled 1 = [] ∧ call.CreditsItself s := by
  rw [(h.dataCall h₀ hdata hexec).prefetched_eq, Call.CreditsItself]
  rcases call.coreId.eq_zero_or_one with hc | hc
  · rw [hc, Function.update_of_ne (by decide)]
    exact ⟨fun h => ⟨h, .inl rfl⟩, fun h => h.1⟩
  · rw [hc, Function.update_self, List.append_eq_nil_iff]
    exact and_congr_right fun _ => ⟨.inr, fun h => h.resolve_left (by decide)⟩

/-- Core 1 has prefetched nothing exactly when none of its calls had a line to
prefetch. -/
theorem filled_eq_nil_iff (h₀ : s₀.EmptyCaches)
    (h : PrefetchRun (fun call _ => call.IsData) s₀ trace filled s) :
    filled 1 = [] ↔
      PrefetchRun (fun call s => call.IsData ∧ call.CreditsItself s) s₀ trace filled s := by
  constructor
  · intro hfilled
    induction h with
    | start => exact .start
    | call call hrun hdata hexec ih =>
        obtain ⟨hbefore, hcredits⟩ := (hrun.filled_call_iff h₀ hdata hexec).mp hfilled
        exact .call call (ih hbefore) ⟨hdata, hcredits⟩ hexec
    | beginStep seq _ ih => exact .beginStep seq (ih hfilled)
  · intro hcredits
    clear h
    induction hcredits with
    | start => rfl
    | call call hrun hok hexec ih =>
        have hrun' := hrun.mono fun _ _ h => h.1
        exact (hrun'.filled_call_iff h₀ hok.1 hexec).mpr ⟨ih, hok.2⟩
    | beginStep seq _ ih => exact ih

/-- The counters of the visualizer count every prefetch for core 0. -/
theorem counters_prefetches (h₀ : s₀.EmptyCaches) (hr : s₀.Recording)
    (h : PrefetchRun (fun call _ => call.IsData) s₀ trace filled s) :
    ∃ shadow, replay s.events = .ok shadow ∧
      (shadow.counters 0).prefetches = (filled 0).length + (filled 1).length ∧
      (shadow.counters 1).prefetches = 0 := by
  obtain ⟨shadow, hshadow, -⟩ := (h.run.replays_data h₀ hr).mirrors
  have hfield := (replay_field s.events).of_eq_ok hshadow
  have hevents := (h.prefetchEvents h₀ hr).2
  refine ⟨shadow, hshadow, ?_, ?_⟩
  · have hcount := hfield 0 .prefetches
    rw [countP_prefetches, hevents, List.countP_replicate] at hcount
    exact hcount
  · have hcount := hfield 1 .prefetches
    rw [countP_prefetches, hevents, List.countP_replicate] at hcount
    exact hcount

/-- The counters credit each prefetch to the core whose call issued it exactly when no
call of core 1 has a line to prefetch. -/
theorem credited_iff (h₀ : s₀.EmptyCaches) (hr : s₀.Recording)
    (h : PrefetchRun (fun call _ => call.IsData) s₀ trace filled s) :
    (∃ shadow, replay s.events = .ok shadow ∧
      ∀ c, (shadow.counters c).prefetches = (filled c).length) ↔
      PrefetchRun (fun call s => call.IsData ∧ call.CreditsItself s) s₀ trace filled s := by
  rw [← h.filled_eq_nil_iff h₀]
  obtain ⟨shadow, hshadow, hcore₀, hcore₁⟩ := h.counters_prefetches h₀ hr
  constructor
  · rintro ⟨shadow', hshadow', hcredited⟩
    obtain rfl := Except.ok.inj (hshadow.symm.trans hshadow')
    exact List.length_eq_zero_iff.mp ((hcredited 1).symm.trans hcore₁)
  · intro hfilled
    refine ⟨shadow, hshadow, fun c => ?_⟩
    rcases CoreId.eq_zero_or_one c with rfl | rfl
    · rw [hcore₀, hfilled]
      rfl
    · rw [hcore₁, hfilled]
      rfl

/-- Core 0 opens a stream, and core 1 reads a line of its window: it has nothing to
prefetch. -/
theorem credited_iff_shared : ∃ trace filled s,
    PrefetchRun (fun call s => call.IsData ∧ call.CreditsItself s) (conflictMachine true) trace
      filled s ∧
      trace.map CallRecord.call = [.read 0 0x0 1, .read 0 0x40 1, .read 1 0x80 1] ∧
      ∃ shadow, replay s.events = .ok shadow ∧
        ∀ c, (shadow.counters c).prefetches = (filled c).length := by
  obtain ⟨r₁, h₁, r₂, h₂, r₃, h₃, hissues⟩ : ∃ r₁, (Call.read 0 0x0 1).exec (conflictMachine true) =
      .ok r₁ ∧ ∃ r₂, (Call.read 0 0x40 1).exec r₁.1 = .ok r₂ ∧
      ∃ r₃, (Call.read 1 0x80 1).exec r₂.1 = .ok r₃ ∧ (Call.read 1 0x80 1).issues r₂.1 = [] := by
    decide +kernel
  have hrun : PrefetchRun (fun call s => call.IsData ∧ call.CreditsItself s) (conflictMachine true)
      _ _ r₃.1 :=
    ((start.call (.read 0 0x0 1) ⟨trivial, .inl rfl⟩ h₁).call (.read 0 0x40 1)
      ⟨trivial, .inl rfl⟩ h₂).call (.read 1 0x80 1) ⟨trivial, .inr hissues⟩ h₃
  have hdata := hrun.mono fun _ _ h => h.1
  exact ⟨_, _, _, hrun, rfl,
    (hdata.credited_iff (Sim.initial_emptyCaches _ _ _) ⟨rfl, rfl⟩).mpr hrun⟩

/-- The same stream opened by core 1. -/
theorem not_credited_stream : ∃ trace filled s shadow,
    PrefetchRun (fun call _ => call.IsData) (conflictMachine true) trace filled s ∧
      trace.map CallRecord.call = [.read 1 0x0 1, .read 1 0x40 1] ∧
      replay s.events = .ok shadow ∧ (shadow.counters 1).prefetches = 0 ∧
      (filled 1).length = 8 := by
  obtain ⟨r₁, h₁, r₂, h₂, hlength⟩ : ∃ r₁, (Call.read 1 0x0 1).exec (conflictMachine true) =
      .ok r₁ ∧ ∃ r₂, (Call.read 1 0x40 1).exec r₁.1 = .ok r₂ ∧
      (prefetched (conflictMachine true) r₁.1 ++ prefetched r₁.1 r₂.1).length = 8 := by
    decide +kernel
  have hrun : PrefetchRun (fun call _ => call.IsData) (conflictMachine true) _ _ r₂.1 :=
    (start.call (.read 1 0x0 1) trivial h₁).call (.read 1 0x40 1) trivial h₂
  obtain ⟨shadow, hshadow, -, hcore₁⟩ :=
    hrun.counters_prefetches (Sim.initial_emptyCaches _ _ _) ⟨rfl, rfl⟩
  exact ⟨_, _, _, shadow, hrun, rfl, hshadow, hcore₁, hlength⟩

end PrefetchRun

end CacheSimulator
