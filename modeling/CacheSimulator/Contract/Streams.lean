import CacheSimulator.Prefetching.Entries

/-!
# Confinement of the streams

Over runs of data calls, every STEADY stream is eight lines ahead of its last line, in
the page of that line, and a call of `pf_stream_on_miss` fills at most eight lines, all in
the page of the missed line. So it never evicts the line it was called for.
-/

namespace CacheSimulator

variable {s₀ s s' t u : Sim} {a : LineNo} {c : CoreId} {call : Call} {trace : List CallRecord}
  {result : Option (List Byte)}

/-! ## Confinement -/

/-- A STEADY stream runs in one direction, eight lines ahead of its last line, in the
4 KB page of that line. -/
structure Stream.Confined (stream : Stream) : Prop where
  direction : stream.direction = .forward ∨ stream.direction = .backward
  head : stream.prefetchHead = stream.lastLine + stream.direction.toInt64 * BitVec.ofNat 64 (8 * 64)
  page : stream.prefetchHead &&& ~~~0xFFF#64 = stream.lastLine &&& ~~~0xFFF#64

theorem StreamDirection.eq_of_stride {d : StreamDirection} (h : d.stride = 1 ∨ d.stride = -1) :
    d = .forward ∨ d = .backward := by
  cases d with
  | unknown => simp [stride] at h
  | forward => exact .inl rfl
  | backward => exact .inr rfl

theorem Sim.StreamOk.confined {stream : Stream} (hok : s.StreamOk stream)
    (hconf : stream.confidence = .steady) : stream.Confined := by
  have hstride := hok.stride hconf
  have hwindow := hok.window hconf
  have hlast := hok.last.lineAddr_lineNo
  have hhead := hok.head.lineAddr_lineNo
  refine ⟨StreamDirection.eq_of_stride hstride, ?_, ?_⟩
  · rw [← hlast, ← hhead]
    apply BitVec.eq_of_toNat_eq
    have hheadlt := hok.head.line
    have hlastlt := hok.last.line
    have hsize := s.mem.size.isLt
    rw [BitVec.toNat_add, lineAddr_toNat, lineAddr_toNat]
    rcases StreamDirection.eq_of_stride hstride with hd | hd
    · have hstep : (stream.direction.toInt64 * BitVec.ofNat 64 (8 * 64)).toNat = 512 := by
        rw [hd]
        rfl
      rw [hd, StreamDirection.stride] at hwindow
      rw [hstep]
      omega
    · have hstep : (stream.direction.toInt64 * BitVec.ofNat 64 (8 * 64)).toNat = 2 ^ 64 - 512 := by
        rw [hd]
        rfl
      rw [hd, StreamDirection.stride] at hwindow
      rw [hstep]
      omega
  · rw [← hlast, ← hhead, onePage_iff]
    exact hok.page hconf

/-- A call of `pf_stream_on_miss` for `missLine`, from `t` to `u`, has filled at most
eight lines into L2, all in the page of `missLine` and none of them `missLine`. -/
def PrefetchesFor (missLine : Addr) (t u : Sim) : Prop :=
  ∃ prefetched, u.fills = t.fills ++ prefetched ∧ prefetched.length ≤ 8 ∧
    ∀ line ∈ prefetched,
      line &&& ~~~0xFFF#64 = missLine &&& ~~~0xFFF#64 ∧ line ≠ missLine

theorem Sim.Written.prefetchesFor {i : Fin 8} {stream : Stream} {lines : List LineNo}
    (ht : t.Inv) (ha : t.Resident a) (h : t.Written c a i stream lines u) :
    PrefetchesFor (lineAddr a) t (u.setStream c i stream) := by
  refine ⟨(t.absent lines).map lineAddr, (h.prefetches ht).fills, ?_, fun line hline => ?_⟩
  · rw [List.length_map]
    exact h.length_le ha
  · obtain ⟨b, hb, rfl⟩ := List.mem_map.mp hline
    obtain ⟨hpage, hne⟩ := h.onePage ha hb
    exact ⟨onePage_iff.mpr hpage, fun heq => hne (lineAddr_inj.mp heq)⟩

/-- The prefetcher leaves the line of the miss in the L1D of the core. -/
theorem Sim.LoadsLine.hasCopy (h : LoadsLine c a s s') : s'.HasCopy .data c a := by
  obtain ⟨t, i, stream, lines, u, hd, -, hwritten, rfl⟩ := h
  have hinv := (hwritten.prefetches hd.inv).inv
  have hcopy : u.HasCopy .data c a :=
    (hasCopy_congr hd.inv.placed hinv.placed (hwritten.rep_eq hd.inv hd.present)).mpr hd.copy
  refine hcopy.congr ?_
  rw [l1_modifyPmc, l1_setStream]

theorem Sim.Accesses.hasCopy (h : Accesses c a s s') : s'.HasCopy .data c a := by
  cases h with
  | l1 _ hhits => exact hhits.copy
  | l2 _ _ hhits => exact hhits.copy
  | miss _ _ hloads => exact hloads.hasCopy

/-- The step of a data call that calls `pf_stream_on_miss`: its demand fill leads to `t`,
and the call of the prefetcher to `u`. -/
structure CallsPrefetcher (c : CoreId) (missLine : Addr) (s t u s' : Sim) : Prop where
  demand : t.fills = s.fills ++ [missLine]
  returned : pfStreamOnMiss t c missLine = .ok u
  counts : s' = u.modifyPmc c fun pmc => { pmc with memFetches := pmc.memFetches + 1 }

/-- Every STEADY stream is confined, and so is the prefetching of a next data call: the
accessed line is still in L2 and in the L1D of its core when the call returns. -/
structure Sim.StreamsConfined (s : Sim) : Prop where
  steady : ∀ c i, (s.streams c i).confidence = .steady → (s.streams c i).Confined
  accesses : ∀ (call : Call) s' result physicalAddress, call.IsData →
    call.exec s = .ok (s', result) → call.physicalAddress s = some physicalAddress →
    s'.HasCopy .data call.coreId (lineNo physicalAddress) ∧
      s'.Resident (lineNo physicalAddress) ∧
      (s'.fills = s.fills ∨ ∃ t u,
        CallsPrefetcher call.coreId (toLineBase physicalAddress) s t u s' ∧
        PrefetchesFor (toLineBase physicalAddress) t u)

theorem Run.streams_confined (h₀ : s₀.EmptyCaches)
    (hrun : Run (fun call _ => call.IsData) s₀ trace s) : s.StreamsConfined := by
  have hs := hrun.inv h₀
  have hok := hrun.streamsOk h₀
  constructor
  · intro c i hconf
    exact (hok c i (by rw [hconf]; decide)).confined hconf
  · intro call s' result pa hdata hexec hpa
    obtain ⟨es, hes, -⟩ := Call.exec_evolves hs hexec
    cases Sim.dataCall_of_exec hs hok hdata hexec with
    | fault hnone =>
        rw [hnone] at hpa
        cases hpa
    | access hsome haccess =>
        obtain rfl := Option.some.inj (hsome.symm.trans hpa)
        refine ⟨haccess.hasCopy, hes.inv.resident_of_hasCopy haccess.hasCopy, ?_⟩
        cases haccess with
        | l1 _ hhits => exact .inl hhits.fills
        | l2 _ _ hhits => exact .inl hhits.fills
        | miss _ _ hloads =>
            obtain ⟨t, i, stream, lines, u, hd, hreturn, hwritten, rfl⟩ := hloads
            rw [lineBase_eq]
            exact .inr ⟨t, _, ⟨hd.fills, hreturn, rfl⟩, hwritten.prefetchesFor hd.inv hd.present⟩

/-- Two adjacent lines, and the lines around the end of the window they open. -/
def streamCalls : List Call :=
  [.read 0 0x0 1, .write 0 0x40 [1], .read 0 0x240 1, .read 0 0x280 1]

theorem streams_confined_stream : ∃ trace s,
    Run (fun call _ => call.IsData) (conflictMachine false) trace s ∧
      trace.map CallRecord.call = streamCalls ∧ s.StreamsConfined := by
  have hexec : (runCalls (fun call _ => call.IsData) streamCalls
      (conflictMachine false)).isSome := by decide +kernel
  obtain ⟨trace, s, hrun, hcalls⟩ := exists_run hexec
  exact ⟨trace, s, hrun, hcalls, hrun.streams_confined (Sim.initial_emptyCaches _ _ _)⟩

end CacheSimulator
