import CacheSimulator.Prefetching.Bursts

/-!
# The stream table

A stream in use has its two lines in memory, and a STEADY one has its head eight
lines ahead of its last line, in the same page. A miss keeps this, fills at most
eight lines, and all of them in its own page.
-/

namespace CacheSimulator

namespace Sim

variable {s s' t : Sim} {a b h last : LineNo} {c : CoreId} {i : Fin 8} {stream stream' : Stream}

theorem InMemory.lineAddr_lineNo {address : Addr} (hin : s.InMemory address) :
    lineAddr (lineNo address) = address := by
  obtain ⟨line, rfl, -⟩ := hin
  rw [lineNo_lineAddr]

theorem InMemory.line {address : Addr} (hin : s.InMemory address) :
    64 * (lineNo address : ℕ) + 64 ≤ s.mem.size.toNat := by
  obtain ⟨line, rfl, hin⟩ := hin
  rwa [lineNo_lineAddr]

theorem inMemory_lineAddr : s.InMemory (lineAddr a) ↔ 64 * (a : ℕ) + 64 ≤ s.mem.size.toNat :=
  ⟨fun h => by simpa using h.line, fun h => ⟨a, rfl, h⟩⟩

/-- A line of memory is not the last one of the address space. -/
theorem InMemory.lt {address : Addr} (hin : s.InMemory address) :
    (lineNo address : ℕ) + 1 < 2 ^ 58 := by
  have h := hin.line
  have hlt := s.mem.size.isLt
  omega

structure StreamOk (s : Sim) (stream : Stream) : Prop where
  last : s.InMemory stream.lastLine
  head : s.InMemory stream.prefetchHead
  stride : stream.confidence = .steady →
    stream.direction.stride = 1 ∨ stream.direction.stride = -1
  window : stream.confidence = .steady →
    (lineNo stream.prefetchHead : ℤ) = lineNo stream.lastLine + 8 * stream.direction.stride
  page : stream.confidence = .steady →
    OnePage (lineNo stream.prefetchHead) (lineNo stream.lastLine)

def StreamsOk (s : Sim) : Prop :=
  ∀ c i, (s.streams c i).confidence ≠ .invalid → s.StreamOk (s.streams c i)

theorem StreamOk.of_size (hok : s.StreamOk stream) (hsize : s'.mem.size = s.mem.size) :
    s'.StreamOk stream :=
  ⟨hok.last.of_size hsize, hok.head.of_size hsize, hok.stride, hok.window, hok.page⟩

theorem StreamsOk.congr (hok : s.StreamsOk) (hstreams : s'.streams = s.streams)
    (hsize : s'.mem.size = s.mem.size) : s'.StreamsOk := by
  intro c i
  rw [hstreams]
  exact fun hconf => (hok c i hconf).of_size hsize

/-! ## A match -/

/-- A stream as a match at line `a` leaves it: it is STEADY, and its head `h` is at
most one stride behind the miss. -/
structure MatchedAt (s : Sim) (a : LineNo) (stream : Stream) (h : LineNo) : Prop where
  head_eq : stream.prefetchHead = lineAddr h
  head : s.InMemory (lineAddr h)
  steady : stream.confidence = .steady
  stride : stream.direction.stride = 1 ∨ stream.direction.stride = -1
  low : -1 ≤ ((h : ℤ) - a) * stream.direction.stride
  high : ((h : ℤ) - a) * stream.direction.stride ≤ 7
  page : 0 ≤ ((h : ℤ) - a) * stream.direction.stride → OnePage h a

theorem StreamOk.matchedAt (hconf : stream.confidence ≠ .invalid) (hok : s.StreamOk stream)
    (ha : s.InMemory (lineAddr a)) (hmatch : stream.onMiss (lineAddr a) = some stream') :
    ∃ h, s.MatchedAt a stream' h := by
  have halt : (a : ℕ) + 1 < 2 ^ 58 := by simpa using ha.lt
  cases hc : stream.confidence with
  | invalid => exact absurd hc hconf
  | training =>
      rw [Stream.onMiss_training hc hok.last.lineAddr_lineNo.symm hok.last.lt halt] at hmatch
      split at hmatch
      · cases hmatch
        exact ⟨a, rfl, ha, rfl, .inl rfl, by simp, by simp, fun _ => rfl⟩
      · split at hmatch
        · cases hmatch
          exact ⟨a, rfl, ha, rfl, .inr rfl, by simp, by simp, fun _ => rfl⟩
        · cases hmatch
  | steady =>
      have hwindow := hok.window hc
      have hstride := hok.stride hc
      have hpage := hok.page hc
      rw [Stream.onMiss_steady hc hok.last.lineAddr_lineNo.symm hok.head.lineAddr_lineNo.symm
        hstride hwindow hok.last.lt hok.head.lt halt] at hmatch
      split at hmatch
      · rename_i hnear
        cases hmatch
        refine ⟨lineNo stream.prefetchHead, hok.head.lineAddr_lineNo.symm,
          hok.head.lineAddr_lineNo.symm ▸ hok.head, hc, hstride, ?_, ?_, fun hpos => ?_⟩
        · rw [hwindow]
          rcases hstride with hd | hd <;> rw [hd] at hnear ⊢ <;> omega
        · rw [hwindow]
          rcases hstride with hd | hd <;> rw [hd] at hnear ⊢ <;> omega
        · -- the miss is between two lines of the page
          unfold OnePage at hpage ⊢
          rw [hwindow] at hpos
          rcases hstride with hd | hd <;> rw [hd] at hnear hpos hwindow <;> omega
      · cases hmatch

/-- A burst of a stream stays in the page of the miss, also when it starts behind
the miss. -/
theorem MatchedAt.onePage {lines : List LineNo} (hm : s.MatchedAt a stream h)
    (hstrides : Strides stream.direction.stride h lines last)
    (hlines : lines ≠ [] ∨ 0 ≤ ((h : ℤ) - a) * stream.direction.stride) : OnePage h a := by
  rcases lt_or_ge (((h : ℤ) - a) * stream.direction.stride) 0 with hneg | hpos
  · have hlow := hm.low
    cases hstrides with
    | nil => exact absurd rfl (hlines.resolve_right (by omega))
    | @cons _ b _ _ hb hpage _ =>
        have hba : b = a := by
          apply Fin.ext
          rcases hm.stride with hd | hd <;> rw [hd] at hb hneg hlow <;> omega
        exact hba ▸ hpage.symm
  · exact hm.page hpos

/-! ## One miss -/

/-- What `pf_stream_on_miss` does for a miss at line `a`: entry `i` becomes
`stream`, after prefetches of `lines` that lead to `t`. -/
inductive Written (s : Sim) (c : CoreId) (a : LineNo) : Fin 8 → Stream → List LineNo → Sim → Prop
  | allocate : s.matchedStream c (lineAddr a) = none →
      Written s c a (pfLruEvict (s.cpu.cores c).prefetcher.lruAge)
        { lastLine := lineAddr a, prefetchHead := lineAddr a, direction := .unknown,
          confidence := .training } [] s
  | advance {i : Fin 8} {stream stream' : Stream} {h last : LineNo} {lines : List LineNo}
      {t : Sim} :
      s.matchedStream c (lineAddr a) = some (i, stream) → s.MatchedAt a stream h →
      Bursts s a h stream.direction 9 { stream with lastLine := lineAddr a } lines last
        (stream', t) →
      Written s c a i stream' lines t

theorem matchedStream_eq_some (hmatch : s.matchedStream c (lineAddr a) = some (i, stream)) :
    (s.streams c i).onMiss (lineAddr a) = some stream := by
  obtain ⟨j, -, hj⟩ := List.exists_of_findSome?_eq_some hmatch
  obtain ⟨stream', hstream, heq⟩ := Option.map_eq_some_iff.mp hj
  obtain ⟨rfl, rfl⟩ := Prod.mk.inj heq
  exact hstream

theorem confidence_ne_of_onMiss {missLine : Addr} (h : stream.onMiss missLine = some stream') :
    stream.confidence ≠ .invalid := by
  intro hc
  rw [Stream.onMiss, hc] at h
  cases h

theorem pfStreamOnMiss_written (hs : s.Inv) (hok : s.StreamsOk) (ha : s.InMemory (lineAddr a)) :
    (pfStreamOnMiss s c (lineAddr a)).Sat
      (fun s' => ∃ i stream lines t, s.Written c a i stream lines t ∧ s' = t.setStream c i stream)
      fun _ => True := by
  unfold pfStreamOnMiss
  dsimp only
  rw [← matchedStream]
  cases hmatch : s.matchedStream c (lineAddr a) with
  | none => exact ⟨_, _, _, _, .allocate hmatch, rfl⟩
  | some p =>
      obtain ⟨i, stream⟩ := p
      have hstream := matchedStream_eq_some hmatch
      have hconf := confidence_ne_of_onMiss hstream
      obtain ⟨h, hm⟩ := (hok c i hconf).matchedAt hconf ha hstream
      have hlow := hm.low
      have hhigh := hm.high
      refine (pfBurst_bursts 9 { stream with lastLine := lineAddr a } hs
        hm.stride hm.head_eq hm.head hlow (by omega) (by omega)).bind fun r hr => ?_
      obtain ⟨stream', t⟩ := r
      obtain ⟨lines, last, hbursts⟩ := hr
      exact ⟨i, stream', lines, t, .advance hmatch hm hbursts, rfl⟩

theorem streams_setStream (s : Sim) (c : CoreId) (i : Fin 8) (stream : Stream) (c' : CoreId)
    (i' : Fin 8) :
    (s.setStream c i stream).streams c' i' =
      if c' = c ∧ i' = i then stream else s.streams c' i' := by
  by_cases hc : c' = c
  · subst hc
    simp [Sim.setStream, modifyCore, streams, Function.update_apply]
  · simp [Sim.setStream, modifyCore, streams, hc]

theorem l1_setStream (s : Sim) (c : CoreId) (i : Fin 8) (stream : Stream) :
    (s.setStream c i stream).l1 = s.l1 :=
  l1_modifyCore s c (fun _ => rfl) fun _ => rfl

theorem Bursts.last_inMemory {lines : List LineNo} {r : Stream × Sim} (hm : s.MatchedAt a stream h)
    (hbursts : Bursts s a h stream.direction 9 { stream with lastLine := lineAddr a } lines
      last r) :
    s.InMemory (lineAddr last) := by
  rcases hbursts.strides.last_mem with rfl | hmem
  · exact hm.head
  · exact (hbursts.inMemory last hmem).1

namespace Written

variable {lines : List LineNo}

theorem prefetches (hs : s.Inv) (h : s.Written c a i stream lines t) :
    Prefetches s (s.absent lines) t := by
  cases h with
  | allocate => exact .refl hs
  | advance _ _ hbursts => exact hbursts.prefetches

/-- The entry that is written is again as it should be. -/
theorem streamOk (ha : s.InMemory (lineAddr a)) (h : s.Written c a i stream lines t) :
    s.StreamOk stream := by
  cases h with
  | allocate =>
      refine ⟨ha, ha, fun h => ?_, fun h => ?_, fun h => ?_⟩ <;> cases h
  | @advance _ stream _ h last _ _ _ hm hbursts =>
      have hlast := hbursts.last_inMemory hm
      cases hbursts.ends with
      | ahead hahead =>
          have hlow := hm.low
          have hlength := hbursts.strides.last_eq
          have hpage : OnePage h a := by
            refine hm.onePage hbursts.strides ?_
            by_cases hlines : lines = []
            · subst hlines
              right
              rcases hm.stride with hd | hd <;> rw [hd] at hahead hlength ⊢ <;> simp at hlength <;>
                omega
            · exact .inl hlines
          refine ⟨ha, hlast, fun _ => hm.stride, fun _ => ?_, fun _ => ?_⟩
          · dsimp only
            rw [lineNo_lineAddr, lineNo_lineAddr]
            rcases hm.stride with hd | hd <;> rw [hd] at hahead ⊢ <;> omega
          · dsimp only
            rw [lineNo_lineAddr, lineNo_lineAddr]
            exact hbursts.strides.onePage.trans hpage
      | blocked =>
          refine ⟨ha, hlast, fun h => ?_, fun h => ?_, fun h => ?_⟩ <;> cases h

/-- The miss leaves a table in which every entry is as it should be. -/
theorem streamsOk (hs : s.Inv) (hok : s.StreamsOk) (ha : s.InMemory (lineAddr a))
    (h : s.Written c a i stream lines t) : (t.setStream c i stream).StreamsOk := by
  have hsize := (h.prefetches hs).size
  have hstreams : t.streams = s.streams :=
    funext fun c => congrArg Prefetcher.streams ((h.prefetches hs).prefetcher c)
  intro c' i' hconf
  rw [streams_setStream, hstreams] at hconf ⊢
  split
  · exact (h.streamOk ha).of_size hsize
  · rename_i hne
    rw [if_neg hne] at hconf
    exact (hok c' i' hconf).of_size hsize

/-- At most eight lines are prefetched for a miss: a burst of nine passes the missed
line itself. -/
theorem length_le (ha : s.Resident a) (h : s.Written c a i stream lines t) :
    (s.absent lines).length ≤ 8 := by
  have hfilter : (s.absent lines).length ≤ lines.length := List.length_filter_le ..
  cases h with
  | allocate => exact Nat.zero_le 8
  | @advance _ stream _ h last _ _ _ hm hbursts =>
      have hlow := hm.low
      have hlength := hbursts.strides.last_eq
      have hend : ((last : ℤ) - a) * stream.direction.stride ≤ 8 := by
        cases hbursts.ends with
        | ahead hahead => exact hahead.le
        | blocked hnear => exact hnear.le
      rcases lt_or_ge (((h : ℤ) - a) * stream.direction.stride) 0 with hneg | hpos
      · by_cases hlines : lines = []
        · subst hlines
          exact Nat.zero_le 8
        · have hmem : a ∈ lines := by
            refine hbursts.strides.mem_iff.mpr ⟨1, le_refl 1, List.length_pos_iff.mpr hlines, ?_⟩
            rcases hm.stride with hd | hd <;> rw [hd] at hneg hlow ⊢ <;> omega
          have hlt : (s.absent lines).length < lines.length :=
            List.length_filter_lt_length_iff_exists.mpr ⟨a, hmem, by simpa using ha⟩
          rcases hm.stride with hd | hd <;> rw [hd] at hend hlow hlength <;> omega
      · rcases hm.stride with hd | hd <;> rw [hd] at hend hpos hlength <;> omega

theorem resident (hs : s.Inv) (h : s.Written c a i stream lines t) {b : LineNo}
    (hb : t.Resident b) : s.Resident b ∨ b ∈ lines :=
  ((h.prefetches hs).resident b hb).imp_right List.mem_of_mem_filter

theorem lines_onePage (h : s.Written c a i stream lines t) {b : LineNo} (hb : b ∈ lines) :
    OnePage b a := by
  cases h with
  | allocate => cases hb
  | advance _ hm hbursts =>
      exact (hbursts.strides.mem_onePage hb).trans
        (hm.onePage hbursts.strides (.inl (List.ne_nil_of_mem hb)))

/-- What is prefetched for a miss is in the page of the missed line and is not
that line. -/
theorem onePage (ha : s.Resident a) (h : s.Written c a i stream lines t) {b : LineNo}
    (hb : b ∈ s.absent lines) : OnePage b a ∧ b ≠ a := by
  refine ⟨h.lines_onePage (List.mem_of_mem_filter hb), fun hba => ?_⟩
  subst hba
  simp [absent, ha] at hb

theorem resident_of_mem (hs : s.Inv) (h : s.Written c a i stream lines t) {b : LineNo}
    (hb : b ∈ lines) : t.Resident b := by
  by_cases hres : s.Resident b
  · refine ((h.prefetches hs).resident_iff hs fun l hl => ?_).mpr hres
    have hpage : OnePage b l :=
      (h.lines_onePage hb).trans (h.lines_onePage (List.mem_of_mem_filter hl)).symm
    refine hpage.index_ne fun hbl => ?_
    subst hbl
    simp [absent, hres] at hl
  · exact (h.prefetches hs).present b (by simp [absent, hb, hres])

/-- The missed line stays in the caches. -/
theorem rep_eq (hs : s.Inv) (ha : s.Resident a) (h : s.Written c a i stream lines t) :
    t.rep a = s.rep a := by
  refine (h.prefetches hs).frame a fun l hl => ?_
  obtain ⟨hpage, hne⟩ := h.onePage ha hl
  exact (hpage.index_ne hne).symm

end Written

end Sim

end CacheSimulator
