import CacheSimulator.Contract.Streams

/-!
# Streams that match one line

A TRAINING stream matches the two lines around its last line, and a STEADY one the nine
lines after it. Nothing keeps these regions of the entries of a table apart: two misses that
are two lines apart leave two TRAINING entries that both match the line between them. They
stay apart exactly as long as every miss writes an entry whose region is free.
-/

namespace CacheSimulator

def Stream.Matches (stream : Stream) (missLine : Addr) : Prop :=
  (stream.onMiss missLine).isSome

instance (stream : Stream) (missLine : Addr) : Decidable (stream.Matches missLine) :=
  inferInstanceAs (Decidable (_ = true))

def Neighbour (a b : LineNo) : Prop := (b : ℕ) = a + 1 ∨ (a : ℕ) = b + 1

def InWindow (d : StreamDirection) (a b : LineNo) : Prop :=
  1 ≤ ((b : ℤ) - a) * d.stride ∧ ((b : ℤ) - a) * d.stride ≤ 9

namespace Sim

variable {s s' t u : Sim} {a b h last : LineNo} {c : CoreId} {i : Fin 8} {stream stream' : Stream}
  {lines : List LineNo}

theorem StreamOk.matches_training (hok : s.StreamOk stream) (hconf : stream.confidence = .training)
    (hb : s.InMemory (lineAddr b)) :
    stream.Matches (lineAddr b) ↔ Neighbour (lineNo stream.lastLine) b := by
  have hlt : (b : ℕ) + 1 < 2 ^ 58 := by simpa using hb.lt
  rw [Stream.Matches, Stream.onMiss_training hconf hok.last.lineAddr_lineNo.symm hok.last.lt hlt,
    Neighbour]
  split
  · rename_i hafter
    exact iff_of_true rfl (.inl hafter)
  · rename_i hafter
    split
    · rename_i hbefore
      exact iff_of_true rfl (.inr hbefore)
    · rename_i hbefore
      exact iff_of_false (by simp) fun h => h.elim hafter hbefore

theorem StreamOk.matches_steady (hok : s.StreamOk stream) (hconf : stream.confidence = .steady)
    (hb : s.InMemory (lineAddr b)) :
    stream.Matches (lineAddr b) ↔ InWindow stream.direction (lineNo stream.lastLine) b := by
  have hlt : (b : ℕ) + 1 < 2 ^ 58 := by simpa using hb.lt
  rw [Stream.Matches, Stream.onMiss_steady hconf hok.last.lineAddr_lineNo.symm
    hok.head.lineAddr_lineNo.symm (hok.stride hconf) (hok.window hconf) hok.last.lt hok.head.lt hlt,
    InWindow]
  split
  · rename_i hwindow
    exact iff_of_true rfl hwindow
  · rename_i hwindow
    exact iff_of_false (by simp) hwindow

/-! ## The entry a miss writes -/

/-- The burst for a miss at line `a` gets eight lines ahead: the head of the stream and the
eighth line are in the page of `a`, and the eighth line can be prefetched. -/
def GetsAhead (s : Sim) (a : LineNo) (stream : Stream) : Prop :=
  OnePage (lineNo stream.prefetchHead) a ∧
    ∃ b : LineNo, (b : ℤ) = a + 8 * stream.direction.stride ∧ OnePage b a ∧ 1 ≤ (b : ℕ) ∧
      s.InMemory (lineAddr b)

/-- A line on the way to one that can be prefetched can be prefetched. -/
theorem not_blocked {d : StreamDirection} (hd : d.stride = 1 ∨ d.stride = -1)
    (hlast : s.InMemory (lineAddr last)) (hlastPage : OnePage last a) (hpage : OnePage b a)
    (hb : (b : ℤ) = a + 8 * d.stride) (hone : 1 ≤ (b : ℕ)) (hin : s.InMemory (lineAddr b))
    (hnear : ((last : ℤ) - a) * d.stride < 8) : ¬s.Blocked d.stride last := by
  have hblt := b.isLt
  rw [inMemory_lineAddr] at hlast hin
  unfold OnePage at hlastPage hpage
  intro hblocked
  rcases hd with hd | hd <;> rw [hd] at hb hnear hblocked
  · refine hblocked ⟨(last : ℕ) + 1, by omega⟩ (by push_cast; rfl) ?_ ?_ (inMemory_lineAddr.mpr ?_)
    · unfold OnePage
      dsimp only
      omega
    · exact Nat.le_add_left 1 _
    · dsimp only
      omega
  · refine hblocked ⟨(last : ℕ) - 1, by omega⟩ (by dsimp only; omega) ?_ ?_
      (inMemory_lineAddr.mpr ?_)
    · unfold OnePage
      dsimp only
      omega
    · dsimp only
      omega
    · dsimp only
      omega

theorem Bursts.entry (hm : s.MatchedAt a stream h)
    (hbursts : Bursts s a h stream.direction 9 { stream with lastLine := lineAddr a } lines last
      (stream', t)) :
    (s.GetsAhead a stream ∧ stream'.confidence = .steady ∧ stream'.direction = stream.direction ∧
        ((last : ℤ) - a) * stream.direction.stride = 8) ∨
      (¬s.GetsAhead a stream ∧ stream'.confidence = .training) := by
  have hlow := hm.low
  have hhigh := hm.high
  have hlength := hbursts.strides.last_eq
  have hlast := hbursts.strides.onePage
  have hin := hbursts.last_inMemory hm
  rw [GetsAhead, hm.head_eq, lineNo_lineAddr]
  cases hbursts.ends with
  | ahead hahead =>
      have hlines : last ≠ h := by
        rintro rfl
        omega
      have hmem := hbursts.strides.last_mem.resolve_left hlines
      have hpage := hm.onePage hbursts.strides (.inl (List.ne_nil_of_mem hmem))
      refine .inl ⟨⟨hpage, last, ?_, hlast.trans hpage, (hbursts.inMemory last hmem).2, hin⟩,
        hm.steady, rfl, hahead⟩
      rcases hm.stride with hd | hd <;> rw [hd] at hahead ⊢ <;> omega
  | blocked hnear hblocked =>
      refine .inr ⟨?_, rfl⟩
      rintro ⟨hpage, b, hb, hbpage, hone, hbin⟩
      exact not_blocked hm.stride hin (hlast.trans hpage) hbpage hb hone hbin hnear hblocked

/-! ## One match at most -/

/-- Of the entries of a table, at most one matches a line of memory. -/
def AtMostOneMatch (s : Sim) : Prop :=
  ∀ c b, s.InMemory (lineAddr b) → ∀ i j, (s.streams c i).Matches (lineAddr b) →
    (s.streams c j).Matches (lineAddr b) → i = j

/-- No entry of the table of `c` but entry `i` matches a line of memory with property `p`. -/
def OthersMiss (s : Sim) (c : CoreId) (i : Fin 8) (p : LineNo → Prop) : Prop :=
  ∀ b, s.InMemory (lineAddr b) → p b → ∀ j, j ≠ i → ¬(s.streams c j).Matches (lineAddr b)

theorem OthersMiss.congr_iff {p : LineNo → Prop} (hstreams : t.streams = s.streams)
    (hsize : t.mem.size = s.mem.size) : t.OthersMiss c i p ↔ s.OthersMiss c i p := by
  unfold OthersMiss
  simp only [inMemory_lineAddr, hstreams, hsize]

theorem AtMostOneMatch.congr (hone : s.AtMostOneMatch) (hstreams : t.streams = s.streams)
    (hsize : t.mem.size = s.mem.size) : t.AtMostOneMatch := by
  unfold AtMostOneMatch at hone ⊢
  simpa only [inMemory_lineAddr, hstreams, hsize] using hone

/-- Writing an entry keeps the matches apart exactly if no other entry matches a line that
the new one matches. -/
theorem AtMostOneMatch.setStream_iff (hone : s.AtMostOneMatch) :
    (s.setStream c i stream).AtMostOneMatch ↔
      s.OthersMiss c i fun b => stream.Matches (lineAddr b) := by
  have hin : ∀ b, (s.setStream c i stream).InMemory (lineAddr b) ↔ s.InMemory (lineAddr b) :=
    fun b => Iff.rfl
  unfold AtMostOneMatch OthersMiss
  simp only [hin, streams_setStream]
  constructor
  · intro h b hb hnew j hj hold
    refine hj (h c b hb j i ?_ ?_)
    · rwa [if_neg fun h => hj h.2]
    · rwa [if_pos ⟨rfl, rfl⟩]
  · intro h c' b hb j k hmj hmk
    by_cases hj : c' = c ∧ j = i
    · by_cases hk : c' = c ∧ k = i
      · exact hj.2.trans hk.2.symm
      · obtain ⟨rfl, rfl⟩ := hj
        rw [if_pos ⟨rfl, rfl⟩] at hmj
        rw [if_neg hk] at hmk
        exact absurd hmk (h b hb hmj k fun hkj => hk ⟨rfl, hkj⟩)
    · rw [if_neg hj] at hmj
      by_cases hk : c' = c ∧ k = i
      · obtain ⟨rfl, rfl⟩ := hk
        rw [if_pos ⟨rfl, rfl⟩] at hmk
        exact absurd hmj (h b hb hmk j fun hjk => hj ⟨rfl, hjk⟩)
      · rw [if_neg hk] at hmk
        exact hone c' b hb j k hmj hmk

/-- The region of the entry that a miss at line `a` writes is free of other matches. -/
def RegionFree (s : Sim) (c : CoreId) (a : LineNo) : Prop :=
  match s.matchedStream c (lineAddr a) with
  | none => s.OthersMiss c (pfLruEvict (s.cpu.cores c).prefetcher.lruAge) (Neighbour a)
  | some (i, stream) =>
      (s.GetsAhead a stream → s.OthersMiss c i (InWindow stream.direction a)) ∧
        (¬s.GetsAhead a stream → s.OthersMiss c i (Neighbour a))

theorem OthersMiss.iff_of_matches {p : LineNo → Prop}
    (h : ∀ b, s.InMemory (lineAddr b) → (stream.Matches (lineAddr b) ↔ p b)) :
    (s.OthersMiss c i fun b => stream.Matches (lineAddr b)) ↔ s.OthersMiss c i p := by
  exact forall_congr' fun b => forall_congr' fun hb => imp_congr_left (h b hb)

theorem Written.lastLine (h : s.Written c a i stream lines t) : stream.lastLine = lineAddr a := by
  cases h with
  | allocate => rfl
  | advance _ _ hbursts =>
      cases hbursts.ends with
      | ahead => rfl
      | blocked => rfl

/-- The matches stay apart exactly if the region of the entry that is written is free. -/
theorem Written.regionFree_iff (hs : s.Inv) (hone : s.AtMostOneMatch)
    (ha : s.InMemory (lineAddr a)) (h : s.Written c a i stream lines t) :
    (t.setStream c i stream).AtMostOneMatch ↔ s.RegionFree c a := by
  have hp := h.prefetches hs
  have hstreams : t.streams = s.streams :=
    funext fun c => congrArg Prefetcher.streams (hp.prefetcher c)
  have hok := h.streamOk ha
  have hlast := h.lastLine
  rw [(hone.congr hstreams hp.size).setStream_iff, OthersMiss.congr_iff hstreams hp.size,
    RegionFree]
  cases h with
  | allocate hnone =>
      rw [hnone]
      refine OthersMiss.iff_of_matches fun b hb => ?_
      rw [hok.matches_training rfl hb, hlast, lineNo_lineAddr]
  | advance hsome hm hbursts =>
      rw [hsome]
      dsimp only
      rcases hbursts.entry hm with ⟨hahead, hconf, hdir, -⟩ | ⟨hahead, hconf⟩
      · rw [imp_iff_right hahead, and_iff_left fun h => absurd hahead h]
        refine OthersMiss.iff_of_matches fun b hb => ?_
        rw [hok.matches_steady hconf hb, hlast, lineNo_lineAddr, hdir]
      · rw [imp_iff_right hahead, and_iff_right fun h => absurd h hahead]
        refine OthersMiss.iff_of_matches fun b hb => ?_
        rw [hok.matches_training hconf hb, hlast, lineNo_lineAddr]

theorem RegionFree.congr_iff (hkeeps : KeepsPrefetcher s t) (hsize : t.mem.size = s.mem.size) :
    t.RegionFree c a ↔ s.RegionFree c a := by
  have hmatch : t.matchedStream c (lineAddr a) = s.matchedStream c (lineAddr a) := by
    rw [matchedStream, matchedStream, hkeeps.prefetcher]
  have hothers : ∀ i p, t.OthersMiss c i p ↔ s.OthersMiss c i p := fun i p =>
    OthersMiss.congr_iff hkeeps.streams hsize
  have hahead : ∀ stream, t.GetsAhead a stream ↔ s.GetsAhead a stream := fun stream => by
    simp only [GetsAhead, inMemory_lineAddr, hsize]
  unfold RegionFree
  rw [hmatch]
  simp only [hkeeps.prefetcher, hothers, hahead]

end Sim

variable {s₀ s s' : Sim} {call : Call} {trace : List CallRecord}

/-- If the call misses, the region of the entry it writes is free of other matches. -/
def Call.KeepsApart (call : Call) (s : Sim) : Prop :=
  ∀ physicalAddress, call.physicalAddress s = some physicalAddress →
    ¬s.HasCopy .data call.coreId (lineNo physicalAddress) →
    ¬s.Resident (lineNo physicalAddress) → s.RegionFree call.coreId (lineNo physicalAddress)

/-- The step lemma: what a data call does to the matches. -/
theorem Sim.DataCall.keepsApart_iff (hone : s.AtMostOneMatch)
    (hsize : s'.mem.size = s.mem.size) (h : DataCall call s s') :
    s'.AtMostOneMatch ↔ call.KeepsApart s := by
  cases h with
  | fault hpa hst =>
      refine iff_of_true (hone.congr hst.sameCaches.streams hsize) fun pa hpa' => ?_
      rw [hpa] at hpa'
      cases hpa'
  | @access pa hpa haccess =>
      cases haccess with
      | l1 hcopy hhits =>
          refine iff_of_true (hone.congr hhits.streams hsize) fun pa' hpa' hcopy' => ?_
          obtain rfl := Option.some.inj (hpa.symm.trans hpa')
          exact absurd hcopy hcopy'
      | l2 _ hres hhits =>
          refine iff_of_true (hone.congr hhits.streams hsize) fun pa' hpa' _ hres' => ?_
          obtain rfl := Option.some.inj (hpa.symm.trans hpa')
          exact absurd hres hres'
      | miss hcopy hres hloads =>
          obtain ⟨t, i, stream, lines, u, hd, -, hwritten, rfl⟩ := hloads
          have honet := hone.congr hd.keeps.streams hd.size
          have hiff := hwritten.regionFree_iff hd.inv honet (hd.inMemory.of_size hd.size)
          have hpmc : ((u.setStream call.coreId i stream).modifyPmc call.coreId
              (·.bump .mem)).AtMostOneMatch ↔ (u.setStream call.coreId i stream).AtMostOneMatch :=
            ⟨fun h => h.congr (streams_modifyPmc ..).symm rfl,
              fun h => h.congr (streams_modifyPmc ..) rfl⟩
          rw [hpmc, hiff, RegionFree.congr_iff hd.keeps hd.size]
          constructor
          · intro hfree pa' hpa' _ _
            obtain rfl := Option.some.inj (hpa.symm.trans hpa')
            exact hfree
          · exact fun hkeeps => hkeeps pa hpa hcopy hres

theorem Sim.EmptyCaches.atMostOneMatch (h₀ : s₀.EmptyCaches) : s₀.AtMostOneMatch := by
  intro c b _ i j hi
  obtain ⟨stream, hstream⟩ := Option.isSome_iff_exists.mp hi
  exact absurd (h₀.streams c i) (confidence_ne_of_onMiss hstream)

/-- In every state of a run at most one stream of a table matches a line, exactly when each
miss of the run writes an entry whose region is free. -/
theorem Run.atMostOneMatch_iff (h₀ : s₀.EmptyCaches) :
    Run (fun call s => call.IsData ∧ s.AtMostOneMatch) s₀ trace s ∧ s.AtMostOneMatch ↔
      Run (fun call s => call.IsData ∧ call.KeepsApart s) s₀ trace s := by
  have hstep : ∀ {ok : Call → Sim → Prop} {trace s s' result} {call : Call},
      Run ok s₀ trace s → (∀ call s, ok call s → call.IsData) → s.AtMostOneMatch → call.IsData →
      call.exec s = .ok (s', result) → (s'.AtMostOneMatch ↔ call.KeepsApart s) := by
    intro ok trace s s' result call hrun hok hone hdata hexec
    have hrun' := hrun.mono hok
    obtain ⟨es, hes, -⟩ := Call.exec_evolves (hrun'.inv h₀) hexec
    exact (Sim.dataCall_of_exec (hrun'.inv h₀) (hrun'.streamsOk h₀) hdata hexec).keepsApart_iff
      hone hes.size
  constructor
  · rintro ⟨hrun, hone⟩
    induction hrun with
    | start => exact .start
    | call call hrun hok hexec ih =>
        have hkeeps := (hstep hrun (fun _ _ h => h.1) hok.2 hok.1 hexec).mp hone
        exact .call call (ih hok.2) ⟨hok.1, hkeeps⟩ hexec
    | beginStep seq _ ih => exact .beginStep seq (ih (hone.congr rfl rfl))
  · intro hrun
    induction hrun with
    | start => exact ⟨.start, h₀.atMostOneMatch⟩
    | call call hrun hok hexec ih =>
        obtain ⟨hrun', hone⟩ := ih
        exact ⟨.call call hrun' ⟨hok.1, hone⟩ hexec,
          (hstep hrun (fun _ _ h => h.1) hone hok.1 hexec).mpr hok.2⟩
    | beginStep seq _ ih => exact ⟨.beginStep seq ih.1, ih.2.congr rfl rfl⟩

/-- The entry that a miss at line `a` writes. -/
def Sim.writtenStream (s : Sim) (c : CoreId) (a : LineNo) : Fin 8 :=
  ((s.matchedStream c (lineAddr a)).map Prod.fst).getD
    (pfLruEvict (s.cpu.cores c).prefetcher.lruAge)

theorem Sim.OthersMiss.of_invalid {c : CoreId} {i : Fin 8} {p : LineNo → Prop}
    (h : ∀ j, j ≠ i → (s.streams c j).confidence = .invalid) : s.OthersMiss c i p := by
  intro b _ _ j hj hmatch
  rw [Stream.Matches, Stream.onMiss, h j hj] at hmatch
  cases hmatch

theorem Call.keepsApart_of_invalid (h : (call.physicalAddress s).all fun physicalAddress =>
    ∀ j, j ≠ s.writtenStream call.coreId (lineNo physicalAddress) →
      (s.streams call.coreId j).confidence = .invalid) : call.KeepsApart s := by
  intro pa hpa _ _
  rw [hpa, Option.all_some, decide_eq_true_eq] at h
  unfold Sim.writtenStream at h
  unfold Sim.RegionFree
  cases hmatch : s.matchedStream call.coreId (lineAddr (lineNo pa)) with
  | none =>
      rw [hmatch] at h
      exact .of_invalid h
  | some r =>
      rw [hmatch] at h
      exact ⟨fun _ => .of_invalid h, fun _ => .of_invalid h⟩

theorem atMostOneMatch_iff_stream : ∃ trace s,
    Run (fun call s => call.IsData ∧ call.KeepsApart s) (conflictMachine false) trace s ∧
      trace.map CallRecord.call = streamCalls ∧
        Run (fun call s => call.IsData ∧ s.AtMostOneMatch) (conflictMachine false) trace s ∧
          s.AtMostOneMatch := by
  have hexec : (runCalls (fun call s => call.IsData ∧ (call.physicalAddress s).all fun pa =>
      ∀ j, j ≠ s.writtenStream call.coreId (lineNo pa) →
        (s.streams call.coreId j).confidence = .invalid) streamCalls
      (conflictMachine false)).isSome := by decide +kernel
  obtain ⟨trace, s, hrun, hcalls⟩ := exists_run hexec
  have happart : Run (fun call s => call.IsData ∧ call.KeepsApart s) (conflictMachine false)
      trace s := hrun.mono fun call t hcall => ⟨hcall.1, Call.keepsApart_of_invalid hcall.2⟩
  exact ⟨trace, s, happart, hcalls,
    (Run.atMostOneMatch_iff (Sim.initial_emptyCaches _ _ _)).mpr happart⟩

/-- After misses at the first and the third line of a page, two entries match the line
between them, which is in no cache. -/
theorem two_matches_between : ∃ trace s,
    Run (fun call _ => call.IsData) (conflictMachine false) trace s ∧
      trace.map CallRecord.call = [.read 0 0x0 1, .read 0 0x80 1] ∧
      (Call.read 0 0x40 1).physicalAddress s = some 0x100040#64 ∧
      s.InMemory 0x100040#64 ∧ ¬s.HasCopy .data 0 (lineNo 0x100040#64) ∧
      ¬s.Resident (lineNo 0x100040#64) ∧ (s.streams 0 0).Matches 0x100040#64 ∧
      (s.streams 0 1).Matches 0x100040#64 := by
  obtain ⟨r₁, h₁, r₂, h₂, hpa, hsize, hcopy, hres, hmatches⟩ :
      ∃ r₁, (Call.read 0 0x0 1).exec (conflictMachine false) = .ok r₁ ∧
      ∃ r₂, (Call.read 0 0x80 1).exec r₁.1 = .ok r₂ ∧
        (Call.read 0 0x40 1).physicalAddress r₂.1 = some 0x100040#64 ∧
        r₂.1.mem.size = 0x540000#64 ∧ ¬r₂.1.HasCopy .data 0 (lineNo 0x100040#64) ∧
        ¬r₂.1.Resident (lineNo 0x100040#64) ∧ (r₂.1.streams 0 0).Matches 0x100040#64 ∧
        (r₂.1.streams 0 1).Matches 0x100040#64 := by decide +kernel
  have hrun : Run (fun call _ => call.IsData) (conflictMachine false) _ r₂.1 :=
    (Run.start.call (.read 0 0x0 1) trivial h₁).call (.read 0 0x80 1) trivial h₂
  refine ⟨_, _, hrun, rfl, hpa, ⟨lineNo 0x100040#64, by decide, ?_⟩, hcopy, hres, hmatches⟩
  rw [hsize]
  decide

end CacheSimulator
