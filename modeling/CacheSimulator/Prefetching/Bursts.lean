import CacheSimulator.Prefetching.Frame
import CacheSimulator.Prefetching.Window
import CacheSimulator.Contract.Residence

/-!
# Bursts

What a call of `pf_stream_on_miss` fills and what becomes of the stream, exactly.
Filling a line can evict only lines of its own L2 set, and the lines of a page are
in different sets, so a burst never evicts what it has just filled.
-/

namespace CacheSimulator

theorem l2Geometry_index_val (a : LineNo) : (l2Geometry.index a : ℕ) = a % 4096 := by
  have h := l2ToIndex_val (lineAddr a)
  rw [lineAddr_toNat] at h
  change (l2ToIndex (lineAddr a) : ℕ) = _
  omega

/-- Different lines of a page are in different sets of L2. -/
theorem OnePage.index_ne {a b : LineNo} (h : OnePage a b) (hne : a ≠ b) :
    l2Geometry.index a ≠ l2Geometry.index b := by
  intro hindex
  have hval := congrArg Fin.val hindex
  rw [l2Geometry_index_val, l2Geometry_index_val] at hval
  unfold OnePage at h
  exact hne (Fin.ext (by omega))

theorem not_cached_of_evict {x y : Mesi.LineState CoreId Line} {α : Mesi.Action CoreId Store}
    (h : Mesi.Step Store.act x α y) (hα : α = .evict) :
    y.l2 = none ∧ (∀ c, y.d c = none) ∧ ∀ c, y.i c = none := by
  cases h with
  | evictDirty => exact ⟨rfl, fun _ => rfl, fun _ => rfl⟩
  | evictClean => exact ⟨rfl, fun _ => rfl, fun _ => rfl⟩
  | _ => cases hα

namespace Sim

variable {s s' s'' : Sim} {a b h : LineNo} {c : CoreId} {k : L1Kind} {i : Fin 4096}

/-! ## What a move of one line leaves -/

theorem resident_congr (hs : s.Placed) (hs' : s'.Placed) (hrep : s'.rep b = s.rep b) :
    s'.Resident b ↔ s.Resident b := by
  rw [hs'.resident_iff, hs.resident_iff, hrep]

theorem hasCopy_congr (hs : s.Placed) (hs' : s'.Placed) (hrep : s'.rep b = s.rep b) :
    s'.HasCopy k c b ↔ s.HasCopy k c b := by
  rw [hs'.hasCopy_iff, hs.hasCopy_iff, hrep]

structure MakesRoom (i : Fin 4096) (s s' : Sim) : Prop where
  background : Background s s'
  keeps : KeepsPrefetcher s s'
  history : s'.history = s.history
  frame : ∀ b, l2Geometry.index b ≠ i → s'.rep b = s.rep b
  resident : ∀ b, s'.Resident b → s.Resident b
  copies : ∀ k c b, s'.HasCopy k c b → s.HasCopy k c b

theorem evictL2_makesRoom (hs : s.Inv) :
    (evictL2 s i).Sat (fun r => (r.1.l2 i).state r.2 = .invalid ∧ FreesL2 s r.1 ∧ MakesRoom i s r.1)
      fun _ => False := by
  refine Except.sat_iff.mpr ⟨fun r hr => ?_, fun f hf => (evictL2_spec hs).of_eq_error hf⟩
  obtain ⟨hw, hfrees⟩ := (evictL2_spec hs).of_eq_ok hr
  obtain ⟨-, hhistory, hcases⟩ := (evictL2_cases hs).of_eq_ok hr
  have hbg := hfrees.background hs
  refine ⟨hw, hfrees, hbg, evictL2_keepsPrefetcher.of_eq_ok hr, hhistory, fun b hb => ?_,
    fun b hb => ?_, fun k c b hb => ?_⟩
  · rcases hcases with hsame | ⟨b', rfl, -, hm⟩
    · rw [hsame.rep]
    · exact hm.frame b fun hbb => hb (by rw [hbb])
  · rcases hcases with hsame | ⟨b', -, -, hm⟩
    · exact (resident_congr hs.placed hbg.inv.placed (by rw [hsame.rep])).mp hb
    · by_cases hbb : b = b'
      · subst hbb
        rw [hbg.inv.placed.resident_iff, ← view_l2_ne_none] at hb
        exact absurd (not_cached_of_evict hm.move rfl).1 hb
      · exact (resident_congr hs.placed hbg.inv.placed (hm.frame b hbb)).mp hb
  · rcases hcases with hsame | ⟨b', -, -, hm⟩
    · exact (hasCopy_congr hs.placed hbg.inv.placed (by rw [hsame.rep])).mp hb
    · by_cases hbb : b = b'
      · subst hbb
        obtain ⟨-, hd, hi⟩ := not_cached_of_evict hm.move rfl
        rw [hbg.inv.placed.hasCopy_iff] at hb
        cases k with
        | data => exact absurd (hd c) hb
        | instr => exact absurd (Option.map_eq_none_iff.mp (hi c)) hb
      · exact (hasCopy_congr hs.placed hbg.inv.placed (hm.frame b hbb)).mp hb

/-! ## Fills of the prefetcher -/

/-- The prefetcher has filled `lines`, which were not in L2, in this order. -/
structure Prefetches (s : Sim) (lines : List LineNo) (s' : Sim) : Prop where
  background : Background s s'
  prefetcher : ∀ c, (s'.cpu.cores c).prefetcher = (s.cpu.cores c).prefetcher
  pmc : ∀ c, (s'.cpu.cores c).pmc = (s.cpu.cores c).pmc
  callback : s'.callback = s.callback
  prefetchEvents : s'.prefetchEvents =
    s.prefetchEvents ++ if s.callback then lines.map fun _ => 0#8 else []
  fills : s'.fills = s.fills ++ lines.map lineAddr
  frame : ∀ b, (∀ l ∈ lines, l2Geometry.index b ≠ l2Geometry.index l) → s'.rep b = s.rep b
  resident : ∀ b, s'.Resident b → s.Resident b ∨ b ∈ lines
  present : ∀ l ∈ lines, s'.Resident l
  copies : ∀ k c b, s'.HasCopy k c b → s.HasCopy k c b

namespace Prefetches

variable {lines lines' : List LineNo}

theorem refl (hs : s.Inv) : Prefetches s [] s := by
  refine ⟨.refl hs, fun _ => rfl, fun _ => rfl, rfl, ?_, ?_, fun _ _ => rfl, fun _ hb => .inl hb,
    fun _ hl => absurd hl List.not_mem_nil, fun _ _ _ hb => hb⟩
  · simp
  · simp

theorem inv (h : Prefetches s lines s') : s'.Inv := h.background.inv

theorem size (h : Prefetches s lines s') : s'.mem.size = s.mem.size := h.background.size

theorem resident_iff (hs : s.Inv) (h : Prefetches s lines s')
    (hb : ∀ l ∈ lines, l2Geometry.index b ≠ l2Geometry.index l) :
    s'.Resident b ↔ s.Resident b :=
  resident_congr hs.placed h.inv.placed (h.frame b hb)

theorem trans (h : Prefetches s lines s') (h' : Prefetches s' lines' s'')
    (hindex : ∀ l ∈ lines, ∀ l' ∈ lines', l2Geometry.index l ≠ l2Geometry.index l') :
    Prefetches s (lines ++ lines') s'' := by
  constructor
  · exact h.background.trans h'.background
  · exact fun c => (h'.prefetcher c).trans (h.prefetcher c)
  · exact fun c => (h'.pmc c).trans (h.pmc c)
  · exact h'.callback.trans h.callback
  · rw [h'.prefetchEvents, h.prefetchEvents, h.callback]
    split
    · rw [List.map_append, List.append_assoc]
    · simp
  · rw [h'.fills, h.fills, List.map_append, List.append_assoc]
  · intro b hb
    rw [h'.frame b fun l hl => hb l (List.mem_append_right _ hl),
      h.frame b fun l hl => hb l (List.mem_append_left _ hl)]
  · intro b hb
    rcases h'.resident b hb with hb | hb
    · exact (h.resident b hb).imp_right (List.mem_append_left _)
    · exact .inr (List.mem_append_right _ hb)
  · intro l hl
    rcases List.mem_append.mp hl with hl | hl
    · exact (h'.resident_iff h.inv fun l' hl' => hindex l hl l' hl').mpr (h.present l hl)
    · exact h'.present l hl
  · exact fun k c b hb => h.copies k c b (h'.copies k c b hb)

end Prefetches

theorem prefetchEvents_emit (s : Sim) (coreId level set way : ℕ) (addr : Addr)
    (oldState newState : MESIState) (data : Option Line) :
    (s.emit .prefetchL2 coreId level set way addr oldState newState data).prefetchEvents =
      s.prefetchEvents ++ if s.callback then [BitVec.ofNat 8 coreId] else [] := by
  unfold Sim.emit Sim.prefetchEvents
  split
  · simp
  · simp

theorem copies_of_prefetch {x y : Mesi.LineState CoreId Line} {α : Mesi.Action CoreId Store}
    (h : Mesi.Step Store.act x α y) (hα : α = .prefetch) :
    y.d = x.d ∧ y.i = x.i ∧ y.l2 ≠ none := by
  cases h with
  | prefetch => exact ⟨rfl, rfl, Option.some_ne_none _⟩
  | _ => cases hα

/-- The fill of a free way is the fill of one line. -/
theorem MakesRoom.prefetches {s₁ s₂ : Sim} {data : Option Line} {bytes : Line} {w : ℕ}
    (hroom : MakesRoom (l2Geometry.index b) s s₁) (hmove : LineMove s₁ b .prefetch s₂)
    (hkeeps : KeepsPrefetcher s₁ s₂)
    (hhistory : s₂.history = s₁.history ++ [.fill (lineAddr b) bytes]) :
    Prefetches s [b]
      (s₂.emit .prefetchL2 0 2 (l2Geometry.index b) w (lineAddr b) .invalid .exclusive data) := by
  have hinv₁ := hroom.background.inv
  have hinv₂ := (hmove.evolves hinv₁).inv
  have hsame := SameCaches.emit s₂ .prefetchL2 0 2 (l2Geometry.index b) w (lineAddr b) .invalid
    .exclusive data
  set s₃ := s₂.emit .prefetchL2 0 2 (l2Geometry.index b) w (lineAddr b) .invalid .exclusive data
    with hs₃
  have hinv₃ := hinv₂.congr hsame
  obtain ⟨hd, hi, hl2⟩ := copies_of_prefetch hmove.move rfl
  have hkept := hroom.keeps.trans hkeeps
  have hcopies : ∀ k c, (s₃.rep b).l1 k c ≠ none → (s₁.rep b).l1 k c ≠ none := by
    intro k c
    rw [hsame.rep]
    cases k with
    | data =>
        have := congrFun hd c
        rw [LineRep.view_d, LineRep.view_d] at this
        rw [this]
        exact id
    | instr =>
        have := congrFun hi c
        rw [LineRep.view_i, LineRep.view_i] at this
        intro hne hnone
        rw [hnone, Option.map_none, Option.map_eq_none_iff] at this
        exact hne this
  constructor
  · exact (hroom.background.trans (hmove.background hinv₁ trivial)).trans
      (.of_sameCaches hinv₂ hsame)
  · exact fun c => by rw [hs₃, cpu_emit, hkept.prefetcher]
  · exact fun c => by rw [hs₃, cpu_emit, hkept.pmc]
  · rw [hs₃, callback_emit, hkept.callback]
  · rw [hs₃, prefetchEvents_emit, hkept.prefetchEvents, hkept.callback]
    rfl
  · rw [Sim.fills, hsame.history, hhistory, hroom.history, List.filterMap_append]
    rfl
  · intro b' hb'
    have hne := hb' b (List.mem_singleton_self b)
    rw [hsame.rep, hmove.frame b' fun h => hne (by rw [h]), hroom.frame b' hne]
  · intro b' hb'
    by_cases hbb : b' = b
    · exact .inr (List.mem_singleton.mpr hbb)
    · rw [resident_congr hinv₁.placed hinv₃.placed (by rw [hsame.rep, hmove.frame b' hbb])] at hb'
      exact .inl (hroom.resident b' hb')
  · intro l hl
    obtain rfl := List.mem_singleton.mp hl
    rw [hinv₃.placed.resident_iff, hsame.rep]
    exact view_l2_ne_none.mp hl2
  · intro k c b' hb'
    refine hroom.copies k c b' ?_
    by_cases hbb : b' = b
    · subst hbb
      rw [hinv₃.placed.hasCopy_iff] at hb'
      exact hinv₁.placed.hasCopy_iff.mpr (hcopies k c hb')
    · rwa [hasCopy_congr hinv₁.placed hinv₃.placed (by rw [hsame.rep, hmove.frame b' hbb])] at hb'

/-- The lines among `lines` that a prefetch has to fill. -/
def absent (s : Sim) (lines : List LineNo) : List LineNo := lines.filter fun b => ¬s.Resident b

theorem pfFillL2_prefetches (hs : s.Inv) (hhead : s.InMemory (lineAddr h)) :
    (pfFillL2 s (lineAddr h) (lineAddr b)).Sat
      (fun r => (r.2 = true → s.InMemory (lineAddr b)) ∧
        (r.2 = true ↔ PrefetchPasses s.mem.size (lineAddr h) (lineAddr b)) ∧
        Prefetches s (if r.2 then s.absent [b] else []) r.1) fun _ => True := by
  have hspec := (pfFillL2_spec (a := b) hs hhead).mono (fun r hr => hr.2.2) fun _ _ => trivial
  suffices hfill : (pfFillL2 s (lineAddr h) (lineAddr b)).Sat
      (fun r => (r.2 = true → PrefetchPasses s.mem.size (lineAddr h) (lineAddr b)) ∧
        Prefetches s (if r.2 then s.absent [b] else []) r.1) fun _ => True from
    (hspec.both hfill).imp fun r hr => ⟨hr.1.1, ⟨hr.2.1, hr.1.2⟩, hr.2.2⟩
  unfold pfFillL2
  split
  · exact ⟨Bool.noConfusion, .refl hs⟩
  rename_i hpage
  split
  · exact ⟨Bool.noConfusion, .refl hs⟩
  rename_i hbounds
  have hpasses : PrefetchPasses s.mem.size (lineAddr h) (lineAddr b) := ⟨not_not.mp hpage, hbounds⟩
  dsimp only
  rw [l2ToIndex_lineAddr, l2ToTag_lineAddr]
  cases hfind : l2FindWay (s.l2 (l2Geometry.index b)) (l2Geometry.tag b) with
  | some w =>
      have hres : s.Resident b := by simp [Resident, hfind]
      refine ⟨fun _ => hpasses, ?_⟩
      rw [if_pos rfl, absent, List.filter_cons_of_neg (by simpa using hres), List.filter_nil]
      exact .refl hs
  | none =>
      have ha := l2_eq_none_of_find hfind
      have hres : ¬s.Resident b := by simp [Resident, hfind]
      refine ((evictL2_makesRoom hs).mono (fun r hr => hr) fun _ hf => hf.elim).bind fun r hr => ?_
      obtain ⟨s₁, w⟩ := r
      obtain ⟨hw, hfree, hroom⟩ := hr
      have hinv₁ := hroom.background.inv
      have ha₁ : (s₁.rep b).l2 = none := by rw [hfree.rep_eq ha, ha]
      dsimp only at hw ⊢
      by_cases hin : 64 * (b : ℕ) + 64 ≤ s₁.mem.size.toNat
      · rw [readLine_lineAddr hin]
        obtain ⟨l2Set, hl2Set, hset⟩ := L2Set.fillPrefetch_spec (hinv₁.placed.free _) hw
          (l2Geometry.tag b) (s₁.rep b).mem (MESIState.mode?_eq_exclusive.mpr rfl)
        change Except.Sat (l2CacheFillPrefetch _ _ _ _ _ >>= _) _ _
        rw [hl2Set]
        have hmove := lineMove_prefetch hinv₁ hin hw ha₁ hset
        refine ⟨fun _ => hpasses, ?_⟩
        rw [if_pos rfl, absent, List.filter_cons_of_pos (by simpa using hres), List.filter_nil]
        exact hroom.prefetches hmove ((KeepsPrefetcher.setL2 ..).trans (.record ..)) rfl
      · rw [readLine_error hin]
        trivial

theorem absent_cons (s : Sim) (b : LineNo) (lines : List LineNo) :
    s.absent (b :: lines) = s.absent [b] ++ s.absent lines := by
  rw [absent, absent, absent, ← List.filter_append, List.singleton_append]

/-- Filling a line of the page does not change which other lines are absent. -/
theorem Prefetches.absent_eq {lines : List LineNo} (hs : s.Inv)
    (h : Prefetches s (s.absent [b]) s') (hlines : ∀ l ∈ lines, OnePage l b ∧ l ≠ b) :
    s'.absent lines = s.absent lines := by
  refine List.filter_congr fun l hl => ?_
  obtain ⟨hpage, hne⟩ := hlines l hl
  have hres := h.resident_iff hs (b := l) fun l' hl' => by
    obtain rfl := List.mem_singleton.mp (List.mem_of_mem_filter hl')
    exact hpage.index_ne hne
  rw [decide_eq_decide, hres]

/-- No line is left for the burst, in its page and in memory. -/
def Blocked (s : Sim) (σ : ℤ) (last : LineNo) : Prop :=
  ∀ b : LineNo, (b : ℤ) = last + σ → OnePage b last → 1 ≤ (b : ℕ) → ¬s.InMemory (lineAddr b)

/-- How a burst after a miss at line `a` ends: eight lines ahead, or blocked. -/
inductive BurstEnd (s : Sim) (a : LineNo) (σ : ℤ) (stream : Stream) (last : LineNo) : Stream → Prop
  | ahead : ((last : ℤ) - a) * σ = 8 →
      BurstEnd s a σ stream last { stream with prefetchHead := lineAddr last }
  | blocked : ((last : ℤ) - a) * σ < 8 → s.Blocked σ last →
      BurstEnd s a σ stream last
        { stream with
          prefetchHead := lineAddr last, confidence := .training, direction := .unknown }

/-- What a burst does to the stream and to L2. -/
structure Bursts (s : Sim) (a h : LineNo) (d : StreamDirection) (fuel : ℕ) (stream : Stream)
    (lines : List LineNo) (last : LineNo) (r : Stream × Sim) : Prop where
  strides : Strides d.stride h lines last
  inMemory : ∀ b ∈ lines, s.InMemory (lineAddr b) ∧ 1 ≤ (b : ℕ)
  lines_eq : burstLines s.mem.size (lineAddr a) d.toInt64 fuel (lineAddr h) = lines.map lineAddr
  ends : BurstEnd s a d.stride stream last r.1
  prefetches : Prefetches s (s.absent lines) r.2

/-- A burst that has filled line `b` goes on from there. -/
theorem Bursts.cons {d : StreamDirection} {fuel : ℕ} {stream : Stream} {s₁ : Sim}
    {lines : List LineNo} {last b : LineNo} {r : Stream × Sim} (hs : s.Inv)
    (hd : d.stride = 1 ∨ d.stride = -1) (hval : (b : ℤ) = h + d.stride) (hone : OnePage b h)
    (hpos : 1 ≤ (b : ℕ)) (hin : s.InMemory (lineAddr b))
    (hlines : burstLines s.mem.size (lineAddr a) d.toInt64 (fuel + 1) (lineAddr h) =
      lineAddr b :: burstLines s.mem.size (lineAddr a) d.toInt64 fuel (lineAddr b))
    (hfills : Prefetches s (s.absent [b]) s₁)
    (hbursts : Bursts s₁ a b d fuel { stream with prefetchHead := lineAddr b } lines last r) :
    Bursts s a h d (fuel + 1) stream (b :: lines) last r := by
  obtain ⟨stream', s₂⟩ := r
  have hsize : s₁.mem.size = s.mem.size := hfills.size
  have hmem : ∀ l ∈ lines, OnePage l b ∧ l ≠ b := fun l hl => by
    refine ⟨hbursts.strides.mem_onePage hl, fun hlb => ?_⟩
    obtain ⟨i, hi, -, hval'⟩ := hbursts.strides.mem_iff.mp hl
    rw [hlb] at hval'
    rcases hd with hd | hd <;> rw [hd] at hval' <;> omega
  have habsent := hfills.absent_eq hs hmem
  refine ⟨.cons hval hone hbursts.strides, ?_, ?_, ?_, ?_⟩
  · intro l hl
    rcases List.mem_cons.mp hl with rfl | hl
    · exact ⟨hin, hpos⟩
    · obtain ⟨hl, hl'⟩ := hbursts.inMemory l hl
      exact ⟨hl.of_size hsize.symm, hl'⟩
  · rw [hlines, ← hsize, hbursts.lines_eq, List.map_cons]
  · cases hbursts.ends with
    | ahead hahead => exact .ahead hahead
    | blocked hnear hblocked =>
        exact .blocked hnear fun b' hb' hpage' hone' hin' =>
          hblocked b' hb' hpage' hone' (hin'.of_size hsize)
  · rw [absent_cons, ← habsent]
    refine hfills.trans hbursts.prefetches fun l hl l' hl' => ?_
    obtain rfl := List.mem_singleton.mp (List.mem_of_mem_filter hl)
    obtain ⟨hl'page, hl'ne⟩ := hmem l' (List.mem_of_mem_filter hl')
    exact (hl'page.index_ne hl'ne).symm

theorem pfBurst_bursts {d : StreamDirection} (fuel : ℕ) (stream : Stream) (hs : s.Inv)
    (hd : d.stride = 1 ∨ d.stride = -1) (hhead : stream.prefetchHead = lineAddr h)
    (hin : s.InMemory (lineAddr h)) (hlow : -1 ≤ ((h : ℤ) - a) * d.stride)
    (hhigh : ((h : ℤ) - a) * d.stride ≤ 8) (hfuel : 8 ≤ ((h : ℤ) - a) * d.stride + fuel) :
    (pfBurst (lineAddr a) d.toInt64 fuel stream s).Sat
      (fun r => ∃ lines last, Bursts s a h d fuel stream lines last r) fun _ => True := by
  have hnone : ∀ t : Sim, t.Inv → Prefetches t (t.absent []) t := fun t ht => .refl ht
  induction fuel generalizing stream s h with
  | zero =>
      have hself : stream = { stream with prefetchHead := lineAddr h } := by rw [← hhead]
      refine ⟨[], h, .nil h, by simp, rfl, ?_, hnone s hs⟩
      conv => arg 6; rw [hself]
      exact .ahead (by simp at hfuel; omega)
  | succ fuel ih =>
      have hself : stream = { stream with prefetchHead := lineAddr h } := by rw [← hhead]
      have hgap : ((lineAddr h - lineAddr a) * d.toInt64).toInt =
          64 * (((h : ℤ) - a) * d.stride) := by
        refine toInt_gap_of_small ?_ ?_ <;> rcases hd with hd | hd <;> rw [hd] at hlow hhigh <;>
          omega
      unfold pfBurst
      dsimp only
      rw [hhead]
      split
      · rename_i hfar
        refine ⟨[], h, .nil h, by simp, by rw [burstLines, if_pos hfar]; rfl, ?_, hnone s hs⟩
        conv => arg 6; rw [hself]
        exact .ahead (by omega)
      · rename_i hnear
        obtain ⟨b, hb, hpage, hval⟩ := exists_next h hd
        rw [hb]
        refine (pfFillL2_prefetches hs hin).bind fun r hr => ?_
        obtain ⟨s₁, filled⟩ := r
        obtain ⟨hbin, hpasses, hfills⟩ := hr
        have hburst : ∀ (size : Addr) (lines : List Addr),
            burstLines size (lineAddr a) d.toInt64 fuel (lineAddr b) = lines →
            burstLines size (lineAddr a) d.toInt64 (fuel + 1) (lineAddr h) =
              if PrefetchPasses size (lineAddr h) (lineAddr b) then lineAddr b :: lines
              else [] := by
          intro size lines hlines
          rw [burstLines, if_neg hnear, hb, hlines]
        cases filled with
        | false =>
            have hnot : ¬PrefetchPasses s.mem.size (lineAddr h) (lineAddr b) := fun hp =>
              Bool.noConfusion (hpasses.mpr hp)
            refine ⟨[], h, .nil h, by simp, ?_, ?_, hfills⟩
            · rw [hburst _ _ rfl, if_neg hnot]
              rfl
            · refine .blocked (by omega) fun b' hb' hpage' hone hin' => hnot ?_
              obtain rfl := hval b' hb'
              obtain ⟨l, hl, hlin⟩ := hin'
              rw [prefetchPasses_iff, hl]
              exact ⟨hpage', hone, not_lineAddr_add_gt hlin⟩
        | true =>
            have hpass := hpasses.mp rfl
            rw [if_pos rfl] at hfills
            obtain ⟨hone, hlow', -⟩ := prefetchPasses_iff.mp hpass
            have hbval := hpage hone
            have hnext : ((b : ℤ) - a) * d.stride = ((h : ℤ) - a) * d.stride + 1 := by
              rw [hbval]
              rcases hd with hd | hd <;> rw [hd] <;> omega
            have hinb := hbin rfl
            refine (ih { stream with prefetchHead := lineAddr b } hfills.inv rfl
              (hinb.of_size hfills.size) (by omega) (by omega) (by omega)).imp fun r hr => ?_
            obtain ⟨stream', s₂⟩ := r
            obtain ⟨lines, last, hbursts⟩ := hr
            refine ⟨b :: lines, last, .cons hs hd hbval hone hlow' hinb ?_ hfills hbursts⟩
            rw [hburst _ _ rfl, if_pos hpass]

end Sim

end CacheSimulator
