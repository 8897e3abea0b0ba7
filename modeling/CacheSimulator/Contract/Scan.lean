import CacheSimulator.Contract.Separation

/-!
# The cost of a sequential scan

One core reads one word of each line of a list of distinct pages, page after page. The first
two lines of a page miss and open a stream, and from then on each miss brings in the lines
up to the eighth after it, so the next miss is the ninth. Streams that earlier pages have
left match at most the first line of the next page, and are then demoted.
-/

namespace CacheSimulator

/-! ## The lines of a scan -/

def scanLines (pages : List ℕ) : List ℕ :=
  pages.flatMap fun page => (List.range 64).map fun offset => 64 * page + offset

/-- The offsets in a page of the lines that come from memory. -/
def missOffsets : List ℕ := [0, 1, 10, 19, 28, 37, 46, 55]

/-- The number of lines of a page that have come into L2 when the first `k` have been
read. -/
def frontier : ℕ → ℕ
  | 0 => 0
  | 1 => 1
  | k + 2 => 10 + 9 * (k / 9)

theorem le_frontier (k : ℕ) : k ≤ frontier k := by
  match k with
  | 0 => exact le_refl 0
  | 1 => exact le_refl 1
  | k + 2 =>
      simp only [frontier]
      omega

theorem two_le_of_lt_frontier {k : ℕ} (h : k < frontier k) : 2 ≤ k := by
  match k with
  | 0 => simp [frontier] at h
  | 1 => simp [frontier] at h
  | k + 2 => exact Nat.le_add_left 2 k

theorem frontier_succ_of_lt {k : ℕ} (h : k < frontier k) : frontier (k + 1) = frontier k := by
  obtain ⟨j, rfl⟩ := Nat.exists_eq_add_of_le' (two_le_of_lt_frontier h)
  simp only [frontier] at h ⊢
  omega

theorem frontier_succ_of_eq {k : ℕ} (hk : 1 ≤ k) (h : frontier k = k) :
    frontier (k + 1) = k + 9 := by
  match k with
  | 1 => rfl
  | k + 2 =>
      simp only [frontier] at h ⊢
      omega

theorem mem_missOffsets_iff : ∀ k < 64, k ∈ missOffsets ↔ frontier k = k := by decide

namespace Sim

variable {s s' t u : Sim} {a b h last : LineNo} {c : CoreId} {i : Fin 8} {stream stream' : Stream}
  {lines : List LineNo} {done : List ℕ} {page k : ℕ}

/-! ## The stream table during a scan -/

/-- The entry is free, or it is the stream that the scan of one of the pages has left. -/
def AtRest (done : List ℕ) (stream : Stream) : Prop :=
  stream.confidence = .invalid ∨ stream.confidence = .steady ∧ stream.direction = .forward ∧
    ∃ page ∈ done, (lineNo stream.lastLine : ℕ) = 64 * page + 55

/-- The table when the first `k` lines of `page` have been read. -/
inductive Tracks (done : List ℕ) (page : ℕ) (table : Fin 8 → Stream) : ℕ → Prop
  | rest : (∀ j, AtRest done (table j)) → Tracks done page table 0
  | training (i : Fin 8) : (table i).confidence = .training →
      (lineNo (table i).lastLine : ℕ) = 64 * page → (∀ j, j ≠ i → AtRest done (table j)) →
      Tracks done page table 1
  | steady (i : Fin 8) {k : ℕ} : 2 ≤ k → (table i).confidence = .steady →
      (table i).direction = .forward →
      (lineNo (table i).lastLine : ℕ) + 9 = 64 * page + frontier k →
      (∀ j, j ≠ i → AtRest done (table j)) → Tracks done page table k

/-- A stream at rest matches at most the first line of the next page. -/
theorem AtRest.of_onMiss (hrest : AtRest done stream) (hok : s.StreamOk stream)
    (ha : s.InMemory (lineAddr a)) (hmatch : stream.onMiss (lineAddr a) = some stream') :
    stream' = stream ∧ ∃ page ∈ done, (lineNo stream.prefetchHead : ℕ) = 64 * page + 63 ∧
      64 * page + 56 ≤ (a : ℕ) ∧ (a : ℕ) ≤ 64 * page + 64 := by
  rcases hrest with hinvalid | ⟨hconf, hdir, page, hpage, hlast⟩
  · exact absurd hinvalid (confidence_ne_of_onMiss hmatch)
  · have hlt : (a : ℕ) + 1 < 2 ^ 58 := by simpa using ha.lt
    have hwindow := hok.window hconf
    rw [Stream.onMiss_steady hconf hok.last.lineAddr_lineNo.symm hok.head.lineAddr_lineNo.symm
      (hok.stride hconf) hwindow hok.last.lt hok.head.lt hlt] at hmatch
    rw [hdir, StreamDirection.stride] at hmatch hwindow
    split at hmatch
    · rename_i hnear
      exact ⟨(Option.some.inj hmatch).symm, page, hpage, by omega, by omega, by omega⟩
    · cases hmatch

/-- A burst from the missed line, or from the line before it, that gets eight lines ahead
passes each of them. -/
theorem Bursts.mem_of_ahead (hm : s.MatchedAt a stream h)
    (hbursts : Bursts s a h stream.direction 9 { stream with lastLine := lineAddr a } lines last
      (stream', t)) (hdir : stream.direction = .forward) (hahead : s.GetsAhead a stream)
    (hhead : (h : ℕ) ≤ a) :
    stream'.confidence = .steady ∧ stream'.direction = .forward ∧
      (∀ b ∈ lines, (b : ℕ) ≤ a + 8) ∧ ∀ b : LineNo, (a : ℕ) < b → (b : ℕ) ≤ a + 8 → b ∈ lines := by
  have hlow := hm.low
  have hlength := hbursts.strides.last_eq
  rcases hbursts.entry hm with ⟨-, hconf, hdir', hend⟩ | ⟨hnot, -⟩
  · rw [hdir, StreamDirection.stride] at hlow hlength hend
    refine ⟨hconf, hdir'.trans hdir, fun b hb => ?_, fun b hab hba => ?_⟩
    · obtain ⟨j, hj, hle, hval⟩ := hbursts.strides.mem_iff.mp hb
      rw [hdir, StreamDirection.stride] at hval
      omega
    · refine hbursts.strides.mem_iff.mpr ⟨((b : ℤ) - h).toNat, by omega, by omega, ?_⟩
      rw [hdir, StreamDirection.stride]
      omega
  · exact absurd hahead hnot

/-! ## One access -/

/-- The caches and the stream table when the pages `done` and the first `k` lines of `page`
have been read. -/
structure Scanning (c : CoreId) (done : List ℕ) (page k : ℕ) (s : Sim) : Prop where
  inv : s.Inv
  streamsOk : s.StreamsOk
  resident : ∀ b : LineNo, s.Resident b →
    (b : ℕ) / 64 ∈ done ∨ (b : ℕ) / 64 = page ∧ (b : ℕ) % 64 < frontier k
  ahead : ∀ b : LineNo, (b : ℕ) / 64 = page → k ≤ (b : ℕ) % 64 → (b : ℕ) % 64 < frontier k →
    s.Resident b
  copies : ∀ b : LineNo, s.HasCopy .data c b →
    (b : ℕ) / 64 ∈ done ∨ (b : ℕ) / 64 = page ∧ (b : ℕ) % 64 < k
  tracks : Tracks done page (s.streams c) k

/-- What a miss at line `a` has done to the caches, and to entry `i` of the table. -/
structure Loaded (c : CoreId) (a : LineNo) (i : Fin 8) (stream : Stream) (lines : List LineNo)
    (s s' : Sim) : Prop where
  pmc : (s'.cpu.cores c).pmc = (s.cpu.cores c).pmc.bump .mem
  resident : ∀ b, s'.Resident b → s.Resident b ∨ b = a ∨ b ∈ lines
  present : ∀ b ∈ lines, s'.Resident b
  copies : ∀ b, s'.HasCopy .data c b → s.HasCopy .data c b ∨ b = a
  streams : ∀ j, s'.streams c j = if j = i then stream else s.streams c j

theorem LoadsLine.loaded (h : LoadsLine c a s s') : ∃ t i stream lines u,
    Demands c a s t ∧ t.Written c a i stream lines u ∧ Loaded c a i stream lines s s' := by
  obtain ⟨t, i, stream, lines, u, hd, -, hwritten, rfl⟩ := h
  have hp := hwritten.prefetches hd.inv
  refine ⟨t, i, stream, lines, u, hd, hwritten, ?_⟩
  constructor
  · rw [pmc_modifyPmc]
    have hset : ((u.setStream c i stream).cpu.cores c).pmc = (u.cpu.cores c).pmc := by
      simp [Sim.setStream, modifyCore]
    rw [hset, hp.pmc, hd.keeps.pmc]
  · intro b hb
    rcases hwritten.resident hd.inv hb with hb | hb
    · exact (hd.resident b hb).imp_right .inl
    · exact .inr (.inr hb)
  · exact fun b hb => hwritten.resident_of_mem hd.inv hb
  · intro b hb
    have hb' : u.HasCopy .data c b := hb.congr (by rw [l1_modifyPmc, l1_setStream])
    exact (hd.copies _ _ b (hp.copies _ _ b hb')).imp_right fun h => h.2.2
  · intro j
    rw [streams_modifyPmc, streams_setStream]
    have hstreams : u.streams = s.streams := funext fun c =>
      congrArg Prefetcher.streams ((hp.prefetcher c).trans (hd.keeps.prefetcher c))
    rw [hstreams]
    simp

theorem Scanning.resident_iff (hscan : Scanning c done page k s) (hpage : page ∉ done)
    (hk : k < 64) (ha : (a : ℕ) = 64 * page + k) : s.Resident a ↔ k < frontier k := by
  constructor
  · intro hres
    rcases hscan.resident a hres with hdone | ⟨-, hlt⟩
    · rw [show (a : ℕ) / 64 = page by omega] at hdone
      exact absurd hdone hpage
    · omega
  · exact fun hlt => hscan.ahead a (by omega) (by omega) (by omega)

theorem Scanning.not_hasCopy (hscan : Scanning c done page k s) (hpage : page ∉ done)
    (hk : k < 64) (ha : (a : ℕ) = 64 * page + k) : ¬s.HasCopy .data c a := by
  intro hcopy
  rcases hscan.copies a hcopy with hdone | ⟨-, hlt⟩
  · rw [show (a : ℕ) / 64 = page by omega] at hdone
    exact hpage hdone
  · omega

theorem Scanning.hit (hscan : Scanning c done page k s) (hinv : s'.Inv) (hok : s'.StreamsOk)
    (hk : k < 64) (ha : (a : ℕ) = 64 * page + k) (hlt : k < frontier k)
    (hhits : Hits .l2 c a s s') : Scanning c done page (k + 1) s' := by
  have hfrontier := frontier_succ_of_lt hlt
  have hstreams : s'.streams = s.streams := hhits.streams
  refine ⟨hinv, hok, fun b hb => ?_, fun b hb hlow hhigh => ?_, fun b hb => ?_, ?_⟩
  · rw [hfrontier]
    exact hscan.resident b (hhits.resident_iff.mp hb)
  · rw [hfrontier] at hhigh
    exact hhits.resident_iff.mpr (hscan.ahead b hb (by omega) hhigh)
  · rcases hhits.hasCopy hb with hcopy | ⟨-, -, rfl⟩
    · exact (hscan.copies b hcopy).imp_right fun h => ⟨h.1, by omega⟩
    · exact .inr ⟨by omega, by omega⟩
  · rw [hstreams]
    have htwo := two_le_of_lt_frontier hlt
    cases hscan.tracks with
    | rest => omega
    | training => omega
    | steady i _ hconf hdir hlast hrest =>
        exact .steady i (by omega) hconf hdir (by rw [hfrontier]; exact hlast) hrest

/-- The first line of a page opens a stream, or restarts the one of the page before. -/
theorem Written.first (hok : s.StreamsOk) (hrest : ∀ j, AtRest done (s.streams c j))
    (hpage : page ∉ done) (ha : (a : ℕ) = 64 * page) (hin : s.InMemory (lineAddr a))
    (h : s.Written c a i stream lines u) : stream.confidence = .training ∧ lines = [] := by
  cases h with
  | allocate => exact ⟨rfl, rfl⟩
  | @advance _ stream₀ _ h last _ _ hsome hm hbursts =>
      have hstream := matchedStream_eq_some hsome
      have hconf := confidence_ne_of_onMiss hstream
      obtain ⟨rfl, page', hpage', hhead, hlow, hhigh⟩ :=
        (hrest i).of_onMiss (hok c i hconf) hin hstream
      have hne : page' ≠ page := fun h => hpage (h ▸ hpage')
      have hpages : ¬OnePage h a := by
        rw [hm.head_eq, lineNo_lineAddr] at hhead
        unfold OnePage
        omega
      refine ⟨?_, ?_⟩
      · rcases hbursts.entry hm with ⟨hahead, -⟩ | ⟨-, htraining⟩
        · refine absurd ?_ hpages
          have := hahead.1
          rwa [hm.head_eq, lineNo_lineAddr] at this
        · exact htraining
      · by_contra hlines
        exact hpages (hm.onePage hbursts.strides (.inl hlines))

/-- Later misses match the stream of the page and no other. -/
theorem Tracks.onMiss (htracks : Tracks done page (s.streams c) k) (hok : s.StreamsOk)
    (hpage : page ∉ done) (hk : k < 64) (hone : 1 ≤ k) (hfrontier : frontier k = k)
    (ha : (a : ℕ) = 64 * page + k) (hin : s.InMemory (lineAddr a)) :
    ∃ i stream, (s.streams c i).onMiss (lineAddr a) = some stream ∧ stream.direction = .forward ∧
      (lineNo stream.prefetchHead : ℕ) ≤ a ∧ (a : ℕ) ≤ lineNo stream.prefetchHead + 1 ∧
      (∀ j, j ≠ i → AtRest done (s.streams c j)) ∧
      ∀ j stream', (s.streams c j).onMiss (lineAddr a) = some stream' → j = i := by
  have hlt : (a : ℕ) + 1 < 2 ^ 58 := by simpa using hin.lt
  have honly : ∀ i, (∀ j, j ≠ i → AtRest done (s.streams c j)) → ∀ j stream',
      (s.streams c j).onMiss (lineAddr a) = some stream' → j = i := by
    intro i hrest j stream' hmatch
    by_contra hj
    obtain ⟨-, page', hpage', -, hlow, hhigh⟩ := (hrest j hj).of_onMiss
      (hok c j (confidence_ne_of_onMiss hmatch)) hin hmatch
    exact hpage (show page' = page by omega ▸ hpage')
  cases htracks with
  | rest => omega
  | training i hconf hlast hrest =>
      have hoki := hok c i (by rw [hconf]; decide)
      have hmatch := Stream.onMiss_training hconf hoki.last.lineAddr_lineNo.symm hoki.last.lt hlt
      rw [if_pos (by omega)] at hmatch
      exact ⟨i, _, hmatch, rfl, by simp, by simp, hrest, honly i hrest⟩
  | steady i htwo hconf hdir hlast hrest =>
      have hoki := hok c i (by rw [hconf]; decide)
      have hwindow := hoki.window hconf
      have hmatch := Stream.onMiss_steady hconf hoki.last.lineAddr_lineNo.symm
        hoki.head.lineAddr_lineNo.symm (hoki.stride hconf) hwindow hoki.last.lt hoki.head.lt hlt
      rw [hdir, StreamDirection.stride] at hmatch hwindow
      rw [if_pos ⟨by omega, by omega⟩] at hmatch
      exact ⟨i, _, hmatch, hdir, by omega, by omega, hrest, honly i hrest⟩

theorem Written.next (hok : s.StreamsOk) (htracks : Tracks done page (s.streams c) k)
    (hpage : page ∉ done) (hk : k < 64) (hone : 1 ≤ k) (hfrontier : frontier k = k)
    (ha : (a : ℕ) = 64 * page + k) (hin : 64 * (64 * page + 64) ≤ s.mem.size.toNat)
    (h : s.Written c a i stream lines u) :
    stream.confidence = .steady ∧ stream.direction = .forward ∧
      (∀ b ∈ lines, (b : ℕ) ≤ a + 8) ∧ (∀ b : LineNo, (a : ℕ) < b → (b : ℕ) ≤ a + 8 → b ∈ lines) ∧
      ∀ j, j ≠ i → AtRest done (s.streams c j) := by
  have hina : s.InMemory (lineAddr a) := inMemory_lineAddr.mpr (by omega)
  have hfar : k ≤ 55 := by
    match k with
    | 1 => omega
    | k + 2 =>
        simp only [frontier] at hfrontier
        omega
  obtain ⟨i₀, stream₀, hmatch, hdir, hlow, hhigh, hrest, honly⟩ :=
    htracks.onMiss hok hpage hk hone hfrontier ha hina
  cases h with
  | allocate hnone =>
      rw [matchedStream, List.findSome?_eq_none_iff] at hnone
      have := hnone i₀ (List.mem_finRange i₀)
      rw [Option.map_eq_none_iff] at this
      rw [show (s.streams c i₀).onMiss _ = none from this] at hmatch
      cases hmatch
  | @advance _ stream₁ _ h last _ _ hsome hm hbursts =>
      have hstream := matchedStream_eq_some hsome
      obtain rfl := honly _ _ hstream
      obtain rfl := Option.some.inj (hstream.symm.trans hmatch)
      have hsize := s.mem.size.isLt
      have hahead : s.GetsAhead a stream₁ := by
        refine ⟨?_, ⟨(a : ℕ) + 8, by omega⟩, ?_, ?_, ?_, inMemory_lineAddr.mpr ?_⟩
        · unfold OnePage
          omega
        · rw [hdir, StreamDirection.stride]
          push_cast
          rfl
        · unfold OnePage
          dsimp only
          omega
        · exact Nat.le_add_left 1 _
        · dsimp only
          omega
      have hhead : (h : ℕ) ≤ a := by rwa [hm.head_eq, lineNo_lineAddr] at hlow
      obtain ⟨hconf, hdir', hle, hmem⟩ := hbursts.mem_of_ahead hm hdir hahead hhead
      exact ⟨hconf, hdir', hle, hmem, hrest⟩

theorem Scanning.miss (hscan : Scanning c done page k s) (hinv : s'.Inv) (hok : s'.StreamsOk)
    (hpage : page ∉ done) (hk : k < 64) (ha : (a : ℕ) = 64 * page + k)
    (hin : 64 * (64 * page + 64) ≤ s.mem.size.toNat) (hfrontier : frontier k = k)
    (h : LoadsLine c a s s') : Scanning c done page (k + 1) s' := by
  obtain ⟨t, i, stream, lines, u, hd, hwritten, hloaded⟩ := h.loaded
  have hokt := hscan.streamsOk.congr hd.keeps.streams hd.size
  have htracks := hscan.tracks
  have hlast := hwritten.lastLine
  have hcopies : ∀ b : LineNo, s'.HasCopy .data c b →
      (b : ℕ) / 64 ∈ done ∨ (b : ℕ) / 64 = page ∧ (b : ℕ) % 64 < k + 1 := by
    intro b hb
    rcases hloaded.copies b hb with hcopy | rfl
    · exact (hscan.copies b hcopy).imp_right fun h => ⟨h.1, by omega⟩
    · exact .inr ⟨by omega, by omega⟩
  rw [← hd.keeps.streams] at htracks
  rcases Nat.eq_zero_or_pos k with rfl | hone
  · have hrest : ∀ j, AtRest done (t.streams c j) := by
      cases htracks with
      | rest hrest => exact hrest
      | steady _ htwo => omega
    obtain ⟨hconf, rfl⟩ := hwritten.first hokt hrest hpage ha (hd.inMemory.of_size hd.size)
    refine ⟨hinv, hok, fun b hb => ?_, fun b _ hlow hhigh => ?_, hcopies, ?_⟩
    · rcases hloaded.resident b hb with hres | rfl | hmem
      · exact (hscan.resident b hres).imp_right fun h => absurd h.2 (Nat.not_lt_zero _)
      · exact .inr ⟨by omega, by simp only [frontier]; omega⟩
      · cases hmem
    · exact absurd hhigh (Nat.not_lt.mpr hlow)
    · refine .training i ?_ ?_ fun j hj => ?_
      · rw [hloaded.streams, if_pos rfl, hconf]
      · rw [hloaded.streams, if_pos rfl, hlast, lineNo_lineAddr, ha, Nat.add_zero]
      · rw [hloaded.streams, if_neg hj, ← hd.keeps.streams]
        exact hrest j
  · have hsucc := frontier_succ_of_eq hone hfrontier
    obtain ⟨hconf, hdir, hle, hmem, hrest⟩ := hwritten.next hokt htracks hpage hk hone hfrontier ha
      (by rw [hd.size]; exact hin)
    refine ⟨hinv, hok, fun b hb => ?_, fun b hb hlow hhigh => ?_, hcopies, ?_⟩
    · rw [hsucc]
      rcases hloaded.resident b hb with hres | rfl | hb
      · exact (hscan.resident b hres).imp_right fun h => ⟨h.1, by omega⟩
      · exact .inr ⟨by omega, by omega⟩
      · have hb' := hle b hb
        have honePage := hwritten.lines_onePage hb
        unfold OnePage at honePage
        exact .inr ⟨by omega, by omega⟩
    · rw [hsucc] at hhigh
      exact hloaded.present b (hmem b (by omega) (by omega))
    · refine .steady i (by omega) ?_ ?_ ?_ fun j hj => ?_
      · rw [hloaded.streams, if_pos rfl, hconf]
      · rw [hloaded.streams, if_pos rfl, hdir]
      · rw [hloaded.streams, if_pos rfl, hlast, lineNo_lineAddr, ha, hsucc, Nat.add_assoc]
      · rw [hloaded.streams, if_neg hj, ← hd.keeps.streams]
        exact hrest j hj

/-- The step lemma: the next line of the scan comes from memory if it is at the frontier, and
else from L2. -/
theorem Scanning.access (hscan : Scanning c done page k s) (hinv : s'.Inv) (hok : s'.StreamsOk)
    (hpage : page ∉ done) (hk : k < 64) (ha : (a : ℕ) = 64 * page + k)
    (hin : 64 * (64 * page + 64) ≤ s.mem.size.toNat) (h : Accesses c a s s') :
    Scanning c done page (k + 1) s' ∧ (s'.cpu.cores c).pmc =
      (s.cpu.cores c).pmc.bump (if k ∈ missOffsets then .mem else .l2) := by
  have hres := hscan.resident_iff hpage hk ha
  have hle := le_frontier k
  have hmiss := mem_missOffsets_iff k hk
  cases h with
  | l1 hcopy => exact absurd hcopy (hscan.not_hasCopy hpage hk ha)
  | l2 _ hresident hhits =>
      have hlt := hres.mp hresident
      rw [if_neg (mt hmiss.mp (by omega))]
      exact ⟨hscan.hit hinv hok hk ha hlt hhits, hhits.pmc⟩
  | miss _ hresident hloads =>
      have heq : frontier k = k := by
        have := mt hres.mpr hresident
        omega
      rw [if_pos (hmiss.mpr heq)]
      obtain ⟨_, _, _, _, _, -, -, hloaded⟩ := hloads.loaded
      exact ⟨hscan.miss hinv hok hpage hk ha hin heq hloads, hloaded.pmc⟩

/-! ## From page to page -/

theorem Scanning.turnPage (hscan : Scanning c done page 64 s) (page' : ℕ) :
    Scanning c (done ++ [page]) page' 0 s := by
  have hdone : ∀ p ∈ done, p ∈ done ++ [page] := fun p hp => List.mem_append_left _ hp
  have hpage : page ∈ done ++ [page] := List.mem_append_right _ (List.mem_singleton_self page)
  refine ⟨hscan.inv, hscan.streamsOk, fun b hb => ?_, fun b _ _ hhigh => ?_, fun b hb => ?_, ?_⟩
  · rcases hscan.resident b hb with hb | ⟨hb, -⟩
    · exact .inl (hdone _ hb)
    · exact .inl (hb ▸ hpage)
  · exact absurd hhigh (Nat.not_lt_zero _)
  · rcases hscan.copies b hb with hb | ⟨hb, -⟩
    · exact .inl (hdone _ hb)
    · exact .inl (hb ▸ hpage)
  · refine .rest fun j => ?_
    cases hscan.tracks with
    | steady i htwo hconf hdir hlast hrest =>
        by_cases hj : j = i
        · subst hj
          have h64 : frontier 64 = 64 := rfl
          exact .inr ⟨hconf, hdir, page, hpage, by omega⟩
        · refine (hrest j hj).imp_right fun ⟨hconf, hdir, page₁, hpage₁, hlast⟩ => ?_
          exact ⟨hconf, hdir, page₁, hdone _ hpage₁, hlast⟩

theorem EmptyCaches.scanning (h₀ : s.EmptyCaches) (c : CoreId) (page : ℕ) :
    Scanning c [] page 0 s := by
  have hs := h₀.inv
  refine ⟨hs, h₀.streamsOk, fun b hb => ?_, fun b _ _ hhigh => ?_, fun b hb => ?_,
    .rest fun j => .inl (h₀.streams c j)⟩
  · rw [hs.placed.resident_iff] at hb
    exact absurd (h₀.l2_eq_none b) hb
  · exact absurd hhigh (Nat.not_lt_zero _)
  · rw [hs.placed.hasCopy_iff] at hb
    exact absurd (h₀.l1_eq_none b .data c) hb

end Sim

/-! ## Runs -/

theorem getElem?_scanLines (pages : List ℕ) (n : ℕ) :
    (scanLines pages)[n]? = pages[n / 64]?.map fun page => 64 * page + n % 64 := by
  induction pages generalizing n with
  | nil => rfl
  | cons page pages ih =>
      rw [scanLines, List.flatMap_cons, List.getElem?_append, List.length_map, List.length_range]
      split
      · rename_i hlt
        rw [Nat.div_eq_of_lt hlt, List.getElem?_map, List.getElem?_range hlt, Nat.mod_eq_of_lt hlt]
        rfl
      · rename_i hge
        obtain ⟨m, rfl⟩ := Nat.exists_eq_add_of_le (Nat.le_of_not_lt hge)
        have hih := ih m
        rw [scanLines] at hih
        rw [Nat.add_sub_cancel_left, hih, show (64 + m) / 64 = m / 64 + 1 by omega,
          List.getElem?_cons_succ, show (64 + m) % 64 = m % 64 by omega]

def CallRecord.line (record : CallRecord) : Option ℕ :=
  record.physicalAddress.map fun physicalAddress => physicalAddress.toNat / 64

def Call.IsReadBy (call : Call) (c : CoreId) : Prop :=
  ∃ virtualAddress dataSize, call = .read c virtualAddress dataSize

def scanPmc (pmc : PerfCounters) : ℕ → PerfCounters
  | 0 => pmc
  | n + 1 => (scanPmc pmc n).bump (if n % 64 ∈ missOffsets then .mem else .l2)

theorem scanPmc_add (pmc : PerfCounters) (j : ℕ) : ∀ k ≤ 64, scanPmc pmc (64 * j + k) =
    { scanPmc pmc (64 * j) with
      l2Hits := (scanPmc pmc (64 * j)).l2Hits + (List.range k).countP (· ∉ missOffsets)
      memFetches := (scanPmc pmc (64 * j)).memFetches +
        (List.range k).countP (· ∈ missOffsets) } := by
  intro k hk
  induction k with
  | zero => rfl
  | succ k ih =>
      rw [← Nat.add_assoc, scanPmc, ih (by omega), show (64 * j + k) % 64 = k by omega,
        List.range_succ, List.countP_append, List.countP_append]
      by_cases hmem : k ∈ missOffsets
      · simp [hmem, PerfCounters.bump, Nat.add_assoc]
      · simp [hmem, PerfCounters.bump, Nat.add_assoc]

/-- A page costs eight accesses to memory and 56 hits in L2. -/
theorem scanPmc_pages (pmc : PerfCounters) (j : ℕ) : scanPmc pmc (64 * j) =
    { pmc with l2Hits := pmc.l2Hits + 56 * j, memFetches := pmc.memFetches + 8 * j } := by
  induction j with
  | zero => rfl
  | succ j ih =>
      have hhits : (List.range 64).countP (· ∉ missOffsets) = 56 := by decide
      have hmisses : (List.range 64).countP (· ∈ missOffsets) = 8 := by decide
      rw [Nat.mul_succ, scanPmc_add pmc j 64 (le_refl 64), ih, hhits, hmisses]
      simp only [Nat.mul_succ, Nat.add_assoc]

section Run

variable {s₀ s s' : Sim} {c : CoreId} {pages : List ℕ} {trace : List CallRecord} {call : Call}
  {result : Option (List Byte)}

/-- The state after the first `n` reads of a scan of `pages`. -/
def Sim.ScansTo (c : CoreId) (pages : List ℕ) (n : ℕ) (s : Sim) : Prop :=
  ∃ done rest k, pages = done ++ rest ∧ k < 64 ∧ n = 64 * done.length + k ∧
    Scanning c done (rest.headD 0) k s

instance (call : Call) (c : CoreId) : Decidable (call.IsReadBy c) :=
  match call with
  | .read b virtualAddress dataSize => decidable_of_iff (b = c)
      ⟨fun h => ⟨virtualAddress, dataSize, by rw [h]⟩, fun ⟨_, _, h⟩ => (Call.read.inj h).1⟩
  | .write _ _ _ => .isFalse fun ⟨_, _, h⟩ => by cases h
  | .fetch _ _ _ => .isFalse fun ⟨_, _, h⟩ => by cases h

theorem Call.IsReadBy.isData (h : call.IsReadBy c) : call.IsData := by
  obtain ⟨virtualAddress, dataSize, rfl⟩ := h
  trivial

theorem Call.IsReadBy.coreId (h : call.IsReadBy c) : call.coreId = c := by
  obtain ⟨virtualAddress, dataSize, rfl⟩ := h
  rfl

/-- One read of a scan: where it finds its line, and what it counts. -/
theorem Sim.ScansTo.read {n : ℕ} {physicalAddress : Addr} (hscan : s.ScansTo c pages n)
    (hnodup : pages.Nodup) (hpages : ∀ page ∈ pages, 4096 * (page + 1) ≤ s.mem.size.toNat)
    (hread : call.IsReadBy c) (hexec : call.exec s = .ok (s', result))
    (hpa : call.physicalAddress s = some physicalAddress)
    (hline : (scanLines pages)[n]? = some (physicalAddress.toNat / 64)) :
    s'.ScansTo c pages (n + 1) ∧ ¬s.HasCopy .data c (lineNo physicalAddress) ∧
      (s.Resident (lineNo physicalAddress) ↔ n % 64 ∉ missOffsets) ∧
      (s'.cpu.cores c).pmc =
        (s.cpu.cores c).pmc.bump (if n % 64 ∈ missOffsets then .mem else .l2) := by
  obtain ⟨done, rest, k, rfl, hk, rfl, hscan⟩ := hscan
  rw [getElem?_scanLines, show (64 * done.length + k) / 64 = done.length by omega,
    List.getElem?_append_right (le_refl _), Nat.sub_self,
    show (64 * done.length + k) % 64 = k by omega] at hline
  rw [show (64 * done.length + k) % 64 = k by omega]
  cases rest with
  | nil => cases hline
  | cons page rest =>
      have hpage : page ∉ done := fun h =>
        (List.nodup_append.mp hnodup).2.2 page h page List.mem_cons_self rfl
      have ha : (lineNo physicalAddress : ℕ) = 64 * page + k := (Option.some.inj hline).symm
      have hin := hpages page (List.mem_append_right _ List.mem_cons_self)
      obtain ⟨es, hes, -⟩ := Call.exec_evolves hscan.inv hexec
      have hdata := Sim.dataCall_of_exec hscan.inv hscan.streamsOk hread.isData hexec
      have hok := hdata.streamsOk hscan.streamsOk hes.size
      cases hdata with
      | fault hnone =>
          rw [hnone] at hpa
          cases hpa
      | access hsome haccess =>
          obtain rfl := Option.some.inj (hsome.symm.trans hpa)
          rw [hread.coreId] at haccess
          have hin' : 64 * (64 * page + 64) ≤ s.mem.size.toNat := by omega
          obtain ⟨hnext, hpmc⟩ := hscan.access hes.inv hok hpage hk ha hin' haccess
          refine ⟨?_, hscan.not_hasCopy hpage hk ha, ?_, hpmc⟩
          · by_cases hlast : k + 1 < 64
            · exact ⟨done, page :: rest, k + 1, rfl, hlast, rfl, hnext⟩
            · obtain rfl : k = 63 := by omega
              refine ⟨done ++ [page], rest, 0, by simp, by omega, ?_, hnext.turnPage _⟩
              rw [List.length_append, List.length_singleton]
              omega
          · rw [hscan.resident_iff hpage hk ha, mem_missOffsets_iff k hk]
            have hle := le_frontier k
            omega

theorem Sim.ScansTo.beginStep {n : ℕ} (hscan : s.ScansTo c pages n) (seq : BitVec 32) :
    Sim.ScansTo c pages n { s with currentSeq := seq } := by
  obtain ⟨done, rest, k, hpages, hk, hn, hscan⟩ := hscan
  exact ⟨done, rest, k, hpages, hk, hn, hscan.inv.congr (SameCaches.beginStep s seq),
    hscan.streamsOk.congr rfl rfl, hscan.resident, hscan.ahead, hscan.copies, hscan.tracks⟩

theorem Run.scansTo (h₀ : s₀.EmptyCaches) (hnodup : pages.Nodup)
    (hpages : ∀ page ∈ pages, 4096 * (page + 1) ≤ s₀.mem.size.toNat)
    (hrun : Run (fun call _ => call.IsReadBy c) s₀ trace s)
    (hscan : trace.map CallRecord.line <+: (scanLines pages).map some) :
    s.ScansTo c pages trace.length ∧
      (s.cpu.cores c).pmc = scanPmc (s₀.cpu.cores c).pmc trace.length := by
  induction hrun with
  | start => exact ⟨⟨[], pages, 0, rfl, by decide, rfl, h₀.scanning c _⟩, rfl⟩
  | @call trace s s' result call hrun hread hexec ih =>
      rw [List.map_append] at hscan
      obtain ⟨hbefore, hpmc⟩ := ih ((List.prefix_append _ _).trans hscan)
      rw [← hrun.mem_size h₀] at hpages
      have hline := List.prefix_iff_getElem?.mp hscan trace.length (by simp)
      rw [List.getElem_append_right (by simp), List.getElem?_map] at hline
      simp only [List.length_map, Nat.sub_self, List.map_cons, List.map_nil,
        List.getElem_cons_zero, CallRecord.line] at hline
      obtain ⟨line, hline, heq⟩ := Option.map_eq_some_iff.mp hline
      obtain ⟨pa, hpa, rfl⟩ := Option.map_eq_some_iff.mp heq.symm
      obtain ⟨hnext, -, -, hpmc'⟩ := hbefore.read hnodup hpages hread hexec hpa hline
      rw [List.length_append, List.length_singleton]
      exact ⟨hnext, by rw [hpmc', hpmc, scanPmc]⟩
  | beginStep seq _ ih =>
      obtain ⟨hbefore, hpmc⟩ := ih hscan
      exact ⟨hbefore.beginStep seq, hpmc⟩

/-- The cost of a scan of distinct pages: the next read of the scan goes to memory exactly at
the offsets of `missOffsets`, and hits in L2 elsewhere; each page that has been read costs
eight accesses to memory and 56 hits in L2. -/
theorem Run.scan_cost (h₀ : s₀.EmptyCaches) (hnodup : pages.Nodup)
    (hpages : ∀ page ∈ pages, 4096 * (page + 1) ≤ s₀.mem.size.toNat)
    (hrun : Run (fun call _ => call.IsReadBy c) s₀ trace s)
    (hscan : trace.map CallRecord.line <+: (scanLines pages).map some) :
    (∀ call s' result physicalAddress, Call.IsReadBy call c → call.exec s = .ok (s', result) →
      call.physicalAddress s = some physicalAddress →
      (scanLines pages)[trace.length]? = some (physicalAddress.toNat / 64) →
      ¬s.HasCopy .data c (lineNo physicalAddress) ∧
        (s.Resident (lineNo physicalAddress) ↔ trace.length % 64 ∉ missOffsets) ∧
        (s'.cpu.cores c).pmc = (s.cpu.cores c).pmc.bump
          (if trace.length % 64 ∈ missOffsets then .mem else .l2)) ∧
      ∀ j, trace.length = 64 * j → (s.cpu.cores c).pmc =
        { (s₀.cpu.cores c).pmc with
          l2Hits := (s₀.cpu.cores c).pmc.l2Hits + 56 * j
          memFetches := (s₀.cpu.cores c).pmc.memFetches + 8 * j } := by
  obtain ⟨hto, hpmc⟩ := hrun.scansTo h₀ hnodup hpages hscan
  rw [← hrun.mem_size h₀] at hpages
  refine ⟨fun call s' result pa hread hexec hpa hline => ?_, fun j hj => ?_⟩
  · exact (hto.read hnodup hpages hread hexec hpa hline).2
  · rw [hpmc, hj, scanPmc_pages]

end Run

def scanCalls : List Call := (List.range 64).map fun i => .read 0 (BitVec.ofNat 64 (64 * i)) 8

/-- The first page of a scan of two has been read. -/
theorem scan_cost_first : ∃ trace s,
    Run (fun call _ => call.IsReadBy 0) (conflictMachine false) trace s ∧ trace.length = 64 ∧
      (∀ call s' result physicalAddress, Call.IsReadBy call 0 → call.exec s = .ok (s', result) →
        call.physicalAddress s = some physicalAddress →
        (scanLines [0x100, 0x140])[trace.length]? = some (physicalAddress.toNat / 64) →
        ¬s.HasCopy .data 0 (lineNo physicalAddress) ∧
          (s.Resident (lineNo physicalAddress) ↔ trace.length % 64 ∉ missOffsets) ∧
          (s'.cpu.cores 0).pmc = (s.cpu.cores 0).pmc.bump
            (if trace.length % 64 ∈ missOffsets then .mem else .l2)) ∧
      (s.cpu.cores 0).pmc =
        { ((conflictMachine false).cpu.cores 0).pmc with
          l2Hits := ((conflictMachine false).cpu.cores 0).pmc.l2Hits + 56
          memFetches := ((conflictMachine false).cpu.cores 0).pmc.memFetches + 8 } := by
  have hexec : ((runCalls (fun call _ => call.IsReadBy 0) scanCalls (conflictMachine false)).any
      fun r => decide (r.1.map CallRecord.line =
        ((scanLines [0x100, 0x140]).take 64).map some)) := by decide +kernel
  obtain ⟨⟨trace, s⟩, hcalls, hlines⟩ := (Option.any_eq_true _ _).mp hexec
  have hlines := of_decide_eq_true hlines
  have hrun : Run (fun call _ => call.IsReadBy 0) (conflictMachine false) trace s :=
    .of_runCalls .start hcalls
  have hlength : trace.length = 64 := by
    have hmap := congrArg List.length hlines
    rw [List.length_map] at hmap
    exact hmap.trans (by decide)
  have hscan : trace.map CallRecord.line <+: (scanLines [0x100, 0x140]).map some := by
    rw [hlines]
    exact (List.take_prefix ..).map _
  have hcost := hrun.scan_cost (Sim.initial_emptyCaches _ _ _) (by decide) (by decide) hscan
  exact ⟨trace, s, hrun, hlength, hcost.1, hcost.2 1 hlength⟩

end CacheSimulator
