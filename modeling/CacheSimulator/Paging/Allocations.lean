import CacheSimulator.Paging.PageInvariant

/-!
# Allocations keep the invariant of the pages

`alloc_and_map` writes to the frame it hands out and to the tables of the process,
all behind the caches. When these hold nothing of the frames that could show, the
invariant of the pages is kept, and so it holds in every state of a run.
-/

namespace CacheSimulator

/-! ## The frame taken next -/

namespace FrameAllocator

variable {fa : FrameAllocator} {base n : ℕ} {size frame : Addr} {used : Set Addr}

theorem Owns.frameTaken_aligned (h : fa.Owns base size used) : fa.frameTaken 0 % 4096 = 0 := by
  unfold frameTaken
  cases hfree : fa.freeList with
  | nil => simpa using h.aligned
  | cons pa rest =>
      have haligned := (h.free pa (by simp [hfree])).aligned
      simpa using haligned

theorem Owns.ne_frameTaken (h : fa.Owns base size used) (hframe : frame ∈ used) :
    frame.toNat ≠ fa.frameTaken 0 := by
  obtain ⟨hallocated, hnot⟩ := h.inUse frame hframe
  unfold frameTaken
  cases hfree : fa.freeList with
  | nil =>
      have hbelow := hallocated.below
      simp only [List.getElem?_nil, Option.map_none, Option.getD_none]
      omega
  | cons pa rest =>
      simp only [List.getElem?_cons_zero, Option.map_some, Option.getD_some]
      intro heq
      rw [BitVec.eq_of_toNat_eq heq, hfree] at hnot
      exact hnot List.mem_cons_self

/-- A byte of a frame in use is none of the frame that is taken next. -/
theorem Owns.not_taken (h : fa.Owns base size used) (hframe : frame ∈ used) (hn : InFrame frame n) :
    ¬(fa.frameTaken 0 ≤ n ∧ n < fa.frameTaken 0 + 4096) := by
  have hne := h.ne_frameTaken hframe
  have haligned := (h.inUse frame hframe).1.aligned
  have htaken := h.frameTaken_aligned
  unfold InFrame at hn
  omega

end FrameAllocator

namespace PageSystem

variable {σ : PageSystem} {base : ℕ} {used data' : Set Addr}
  {node : ℕ → List (Fin 512) → Option TablePtr} {mapped : ℕ → List (Fin 512) → Option Addr}
  {node' : List (Fin 512) → Option TablePtr} {mapped' : List (Fin 512) → Option Addr}
  {frame virtualAddress : Addr} {p : ℕ} {s : Os}

/-! ## The tables -/

/-- The bytes of a frame that is neither a table of the process nor free stay as
they were. -/
theorem TablesInv.bytes_afterAlloc (h : σ.TablesInv base used node mapped)
    (hpage : (σ.os p).MapsPage base (node p) (mapped p) (used \ tableFrames (node p)) virtualAddress
      (frame, s) node')
    (hmaps : s.Maps base node' mapped' data') (hsub : used \ tableFrames (node p) ⊆ data')
    {other : Addr} (hused : other ∈ used) (hother : other ∉ tableFrames (node p)) {n : ℕ}
    (hn : InFrame other n) : s.mem.data n = σ.sim.mem.data n := by
  have hdata : other ∈ data' := hsub ⟨hused, hother⟩
  refine hpage.bytes n (fun table htable hin => ?_) (h.owns.not_taken hused hn)
  have heq := FrameAllocator.eq_of_inFrame (hmaps.aligned (.inr htable))
    (hmaps.aligned (.inl hdata)) hin hn
  exact hmaps.disjoint table htable (heq ▸ hdata)

theorem sameButMemory_afterAlloc (hsize : s.mem.size = σ.sim.mem.size) :
    Sim.SameButMemory σ.sim (σ.afterAlloc p virtualAddress frame s).sim :=
  ⟨rfl, rfl, rfl, rfl, hsize⟩

/-- The tables of the process have grown, those of the others are as they were. -/
theorem TablesInv.afterAlloc (h : σ.TablesInv base used node mapped)
    (hunseen : σ.MapsUnseen p virtualAddress)
    (hpage : (σ.os p).MapsPage base (node p) (mapped p) (used \ tableFrames (node p)) virtualAddress
      (frame, s) node')
    (hmaps : s.Maps base node' mapped' data') (hsub : used \ tableFrames (node p) ⊆ data') :
    (σ.afterAlloc p virtualAddress frame s).TablesInv base (data' ∪ tableFrames node')
      (Function.update node p node') (Function.update mapped p mapped') := by
  have hsame : Sim.SameButMemory σ.sim (σ.afterAlloc p virtualAddress frame s).sim :=
    sameButMemory_afterAlloc hpage.size
  have hothers : ∀ q, q ≠ p → tableFrames (node q) ⊆ data' := fun q hq other hother =>
    hsub ⟨h.tables q hother, h.apart q p hq other hother⟩
  have htables : ∀ q, tableFrames (Function.update node p node' q) ⊆ data' ∪ tableFrames node' := by
    intro q
    by_cases hq : q = p
    · subst hq
      rw [Function.update_self]
      exact Set.subset_union_right
    · rw [Function.update_of_ne hq]
      exact (hothers q hq).trans Set.subset_union_left
  refine ⟨hsame.inv h.caches, fun q => ?_, htables, fun q r hqr other hother hother' => ?_,
    fun q table htable a ha => ?_⟩
  · by_cases hq : q = p
    · subst hq
      rw [Function.update_self, Function.update_self]
      refine hmaps.transfer (Function.update_self _ _ _) rfl (fun _ _ _ _ => rfl) ?_
        fun _ htable hdata => hdata.2 htable
      rw [Set.sdiff_union_of_subset Set.subset_union_right]
      exact hmaps.owns
    · have hin := htables q
      rw [Function.update_of_ne hq] at hin
      rw [Function.update_of_ne hq, Function.update_of_ne hq]
      refine h.maps_transfer (Function.update_of_ne hq _ _) hpage.size (fun other hother n hn => ?_)
        (hpage.size ▸ hmaps.owns) hin
      exact h.bytes_afterAlloc hpage hmaps hsub (h.tables q hother) (h.apart q p hq other hother) hn
  · -- the tables of the process are none of the frames in use by others
    by_cases hq : q = p
    · subst hq
      rw [Function.update_self] at hother
      rw [Function.update_of_ne hqr.symm] at hother'
      exact hmaps.disjoint other hother (hothers r hqr.symm hother')
    · rw [Function.update_of_ne hq] at hother
      by_cases hr : r = p
      · subst hr
        rw [Function.update_self] at hother'
        exact hmaps.disjoint other hother' (hothers q hq hother)
      · rw [Function.update_of_ne hr] at hother'
        exact h.apart q r hqr other hother hother'
  · rw [hsame.dirty]
    by_cases hq : q = p
    · subst hq
      rw [Function.update_self] at htable
      rcases hpage.taken table htable with hold | ⟨k, hk, htaken⟩
      · exact h.clean q table hold a ha
      · have hclean := hunseen.tables k hk
        rw [← show table.toNat = σ.fa.frameTaken (k + 1) from htaken] at hclean
        exact hclean.not_dirty h.caches (hmaps.aligned (.inr htable)) ha
    · rw [Function.update_of_ne hq] at htable
      exact h.clean q table htable a ha

/-! ## The pages -/

theorem Inv.afterAlloc_failed (h : σ.Inv base used node mapped)
    (hunseen : σ.MapsUnseen p virtualAddress)
    (hpage : (σ.os p).MapsPage base (node p) (mapped p) (used \ tableFrames (node p)) virtualAddress
      (uint64Max, s) node')
    (hmaps : s.Maps base node' (mapped p) (used \ tableFrames (node p))) :
    (σ.afterAlloc p virtualAddress uint64Max s).Inv base
      (used \ tableFrames (node p) ∪ tableFrames node') (Function.update node p node') mapped := by
  have htables := h.toTablesInv.afterAlloc hunseen hpage hmaps subset_rfl
  rw [Function.update_eq_self] at htables
  have hdata : (σ.afterAlloc p virtualAddress uint64Max s).dataFrames = σ.dataFrames := by
    simp [PageSystem.afterAlloc]
  have hpages : (σ.afterAlloc p virtualAddress uint64Max s).pages = σ.pages := by
    simp [PageSystem.afterAlloc]
  refine ⟨htables, ?_, ?_, ?_, ?_, ?_, h.l1Dtlb, h.l2Dtlb, ?_⟩
  · rw [hdata]
    intro f hf
    obtain ⟨hused, hnot⟩ := h.data f hf
    refine ⟨.inl ⟨hused, hnot p⟩, fun q hq => ?_⟩
    by_cases hqp : q = p
    · subst hqp
      rw [Function.update_self] at hq
      exact hmaps.disjoint f hq ⟨hused, hnot q⟩
    · rw [Function.update_of_ne hqp] at hq
      exact hnot q hq
  · rw [hdata, hpages]
    exact h.page
  · rw [hpages]
    exact h.inside
  · rw [hpages]
    exact h.unmapped
  · rw [hpages]
    exact h.distinct
  · rw [hpages]
    intro q u f hf a ha
    obtain ⟨hused, hnot⟩ := h.data f (h.page q u f (by rw [hf]; rfl)).2
    refine (sameButMemory_afterAlloc hpage.size).zeroLine ?_ (h.zero q u f hf a ha)
    exact memLine_congr (h.aligned hused) ha fun n hn =>
      h.bytes_afterAlloc hpage hmaps subset_rfl hused (hnot p) hn

/-- An entry of a TLB stays right when the page is mapped to the frame it has. -/
theorem tlbCaches_remap {sets : ℕ} {tlb : Fin sets → TLBSet} {mapped : List (Fin 512) → Option Addr}
    (h : TLBCaches (translated mapped) tlb)
    (hagrees : ∀ i, (tlb i).Agrees virtualAddress frame.toNat) :
    TLBCaches (translated (Function.update mapped (pagePath virtualAddress) (some frame))) tlb := by
  refine fun i => (h i).mono fun way virtualPageNum physicalFrame hslot htranslated => ?_
  obtain ⟨hvalid, hpage, hframe⟩ := TLBSet.slots_eq_some.mp hslot
  unfold translated at htranslated ⊢
  by_cases hpath : pagePath (virtualPageNum <<< 12) = pagePath virtualAddress
  · have hnumber := hagrees i way hvalid (hpage ▸ hpath)
    rw [hframe] at hnumber
    have hto : toFrame frame = physicalFrame := by
      apply BitVec.eq_of_toNat_eq
      unfold toFrame
      rw [BitVec.toNat_ushiftRight, Nat.shiftRight_eq_div_pow]
      omega
    split at htranslated
    · rename_i hinside
      rw [if_pos hinside, hpath, Function.update_self, Option.map_some, hto]
    · cases htranslated
  · rw [Function.update_of_ne hpath]
    exact htranslated

theorem setPage_self (pages : ℕ → List (Fin 512) → PageStatus) (p : ℕ) (path : List (Fin 512))
    (status : PageStatus) : setPage pages p path status p path = status := if_pos ⟨rfl, rfl⟩

theorem setPage_of_ne {pages : ℕ → List (Fin 512) → PageStatus} {p q : ℕ} {path u : List (Fin 512)}
    {status : PageStatus} (h : ¬(q = p ∧ u = path)) :
    setPage pages p path status q u = pages q u := if_neg h

theorem update_mapped_of_ne {mapped : ℕ → List (Fin 512) → Option Addr} {p q : ℕ}
    {path u : List (Fin 512)} (h : ¬(q = p ∧ u = path)) (value : Option Addr) :
    Function.update mapped p (Function.update (mapped p) path value) q u = mapped q u := by
  by_cases hq : q = p
  · subst hq
    rw [Function.update_self, Function.update_of_ne fun hu => h ⟨rfl, hu⟩]
  · rw [Function.update_of_ne hq]

/-! ## A page that is mapped -/

section Mapped

theorem dataFrames_afterAlloc (hne : frame ≠ uint64Max) :
    (σ.afterAlloc p virtualAddress frame s).dataFrames = frame :: σ.dataFrames := by
  simp [PageSystem.afterAlloc, hne]

theorem pages_afterAlloc (hne : frame ≠ uint64Max) :
    (σ.afterAlloc p virtualAddress frame s).pages =
      setPage σ.pages p (pagePath virtualAddress) (.fresh frame) := by
  simp [PageSystem.afterAlloc, hne]

theorem Inv.frame_used (h : σ.Inv base used node mapped) {q : ℕ} {u : List (Fin 512)} {f : Addr}
    (hf : (σ.pages q u).frame? = some f) : f ∈ used ∧ f ∉ tableFrames (node p) := by
  obtain ⟨hused, hnot⟩ := h.data f (h.page q u f hf).2
  exact ⟨hused, hnot p⟩

/-- The new data frame and the old ones are none of the tables. -/
theorem Inv.data_mapped (h : σ.Inv base used node mapped) (hfresh : frame ∉ used)
    (hnotTable : ∀ f ∈ insert frame (used \ tableFrames (node p)), f ∉ tableFrames node')
    {f : Addr} (hf : f ∈ frame :: σ.dataFrames) :
    f ∈ insert frame (used \ tableFrames (node p)) ∪ tableFrames node' ∧
      ∀ q, f ∉ tableFrames (Function.update node p node' q) := by
  have hin : f ∈ insert frame (used \ tableFrames (node p)) ∧
      ∀ q, q ≠ p → f ∉ tableFrames (node q) := by
    rcases List.mem_cons.mp hf with rfl | hf
    · exact ⟨.inl rfl, fun q _ hq => hfresh (h.tables q hq)⟩
    · obtain ⟨hused, hnot⟩ := h.data f hf
      exact ⟨.inr ⟨hused, hnot p⟩, fun q _ => hnot q⟩
  refine ⟨.inl hin.1, fun q hq => ?_⟩
  by_cases hqp : q = p
  · subst hqp
    rw [Function.update_self] at hq
    exact hnotTable f hin.1 hq
  · rw [Function.update_of_ne hqp] at hq
    exact hin.2 q hqp hq

theorem Inv.page_mapped (h : σ.Inv base used node mapped) {q : ℕ} {u : List (Fin 512)} {f : Addr}
    (hf : (setPage σ.pages p (pagePath virtualAddress) (.fresh frame) q u).frame? = some f) :
    Function.update mapped p
        (Function.update (mapped p) (pagePath virtualAddress) (some frame)) q u = some f ∧
      f ∈ frame :: σ.dataFrames := by
  by_cases hqu : q = p ∧ u = pagePath virtualAddress
  · obtain ⟨rfl, rfl⟩ := hqu
    rw [setPage_self] at hf
    obtain rfl := Option.some.inj hf
    rw [Function.update_self, Function.update_self]
    exact ⟨rfl, List.mem_cons_self⟩
  · rw [setPage_of_ne hqu] at hf
    rw [update_mapped_of_ne hqu]
    obtain ⟨hmapped, hmem⟩ := h.page q u f hf
    exact ⟨hmapped, List.mem_cons_of_mem _ hmem⟩

theorem Inv.unmapped_mapped (h : σ.Inv base used node mapped) {q : ℕ} {u : List (Fin 512)}
    (hu : setPage σ.pages p (pagePath virtualAddress) (.fresh frame) q u = .unmapped) :
    Function.update mapped p
      (Function.update (mapped p) (pagePath virtualAddress) (some frame)) q u = none := by
  by_cases hqu : q = p ∧ u = pagePath virtualAddress
  · obtain ⟨rfl, rfl⟩ := hqu
    rw [setPage_self] at hu
    cases hu
  · rw [setPage_of_ne hqu] at hu
    rw [update_mapped_of_ne hqu]
    exact h.unmapped q u hu

/-- Two pages have different frames when the new frame is none of those in use. -/
theorem Inv.distinct_mapped (h : σ.Inv base used node mapped) (hfresh : frame ∉ used)
    {q r : ℕ} {u v : List (Fin 512)} {f : Addr}
    (hf : (setPage σ.pages p (pagePath virtualAddress) (.fresh frame) q u).frame? = some f)
    (hf' : (setPage σ.pages p (pagePath virtualAddress) (.fresh frame) r v).frame? = some f) :
    q = r ∧ u = v := by
  have hother : ∀ {q u}, (σ.pages q u).frame? ≠ some frame := fun hframe =>
    hfresh (h.frame_used (p := p) hframe).1
  by_cases hqu : q = p ∧ u = pagePath virtualAddress <;>
    by_cases hrv : r = p ∧ v = pagePath virtualAddress
  · exact ⟨hqu.1.trans hrv.1.symm, hqu.2.trans hrv.2.symm⟩
  · obtain ⟨rfl, rfl⟩ := hqu
    rw [setPage_self] at hf
    rw [setPage_of_ne hrv] at hf'
    obtain rfl := Option.some.inj hf
    exact absurd hf' hother
  · obtain ⟨rfl, rfl⟩ := hrv
    rw [setPage_self] at hf'
    rw [setPage_of_ne hqu] at hf
    obtain rfl := Option.some.inj hf'
    exact absurd hf hother
  · rw [setPage_of_ne hqu] at hf
    rw [setPage_of_ne hrv] at hf'
    exact h.distinct q u r v f hf hf'

theorem tlbCaches_mapped {sets : ℕ} {tlb : Fin sets → TLBSet} {q : ℕ}
    (h : TLBCaches (translated (mapped q)) tlb)
    (hagrees : q = p → ∀ i, (tlb i).Agrees virtualAddress frame.toNat) :
    TLBCaches (translated (Function.update mapped p
      (Function.update (mapped p) (pagePath virtualAddress) (some frame)) q)) tlb := by
  by_cases hq : q = p
  · subst hq
    rw [Function.update_self]
    exact tlbCaches_remap h (hagrees rfl)
  · rw [Function.update_of_ne hq]
    exact h

/-- A call that succeeds maps the page to a frame that nobody used and that reads
as zeros. -/
theorem Inv.afterAlloc_mapped (h : σ.Inv base used node mapped)
    (hunseen : σ.MapsUnseen p virtualAddress) (hne : frame ≠ uint64Max)
    (hpage : (σ.os p).MapsPage base (node p) (mapped p) (used \ tableFrames (node p)) virtualAddress
      (frame, s) node')
    (htaken : frame.toNat = σ.fa.frameTaken 0) (hzero : ∀ n, InFrame frame n → s.mem.data n = 0)
    (hmaps : s.Maps base node' (Function.update (mapped p) (pagePath virtualAddress) (some frame))
      (insert frame (used \ tableFrames (node p)))) :
    (σ.afterAlloc p virtualAddress frame s).Inv base
      (insert frame (used \ tableFrames (node p)) ∪ tableFrames node')
      (Function.update node p node')
      (Function.update mapped p
        (Function.update (mapped p) (pagePath virtualAddress) (some frame))) := by
  have hsub : used \ tableFrames (node p) ⊆ insert frame (used \ tableFrames (node p)) :=
    Set.subset_insert _ _
  have haligned := hmaps.aligned (.inl (Set.mem_insert frame _))
  have hfresh : frame ∉ used := fun hused => h.owns.ne_frameTaken hused htaken
  refine ⟨h.toTablesInv.afterAlloc hunseen hpage hmaps hsub, fun f hf => ?_, fun q u f hf => ?_,
    fun q u f hf => ?_, fun q u hu => ?_, fun q u r v f hf hf' => ?_,
    fun c => tlbCaches_mapped (h.l1Dtlb c) fun hc => ?_,
    fun c => tlbCaches_mapped (h.l2Dtlb c) fun hc => ?_, fun q u f hf a ha => ?_⟩
  · rw [dataFrames_afterAlloc hne] at hf
    exact h.data_mapped hfresh (fun f hf hf' => hmaps.disjoint f hf' hf) hf
  · rw [pages_afterAlloc hne] at hf
    rw [dataFrames_afterAlloc hne]
    exact h.page_mapped hf
  · rw [pages_afterAlloc hne] at hf
    by_cases hqu : q = p ∧ u = pagePath virtualAddress
    · rw [hqu.2]
      exact hunseen.inside.1
    · rw [setPage_of_ne hqu] at hf
      exact h.inside q u f hf
  · rw [pages_afterAlloc hne] at hu
    exact h.unmapped_mapped hu
  · rw [pages_afterAlloc hne] at hf hf'
    exact h.distinct_mapped hfresh hf hf'
  · rw [htaken]
    exact (hunseen.tlbs c hc).1
  · rw [htaken]
    exact (hunseen.tlbs c hc).2
  · rw [pages_afterAlloc hne] at hf
    by_cases hqu : q = p ∧ u = pagePath virtualAddress
    · -- the new frame has been zeroed, and no cache holds a line of it
      obtain ⟨rfl, rfl⟩ := hqu
      rw [setPage_self] at hf
      obtain rfl := PageStatus.fresh.inj hf
      have hzeros := hunseen.page
      rw [← htaken] at hzeros
      exact hzeros.zeroLine h.caches haligned ha rfl rfl hzero
    · rw [setPage_of_ne hqu] at hf
      obtain ⟨hused, hnot⟩ := h.frame_used (p := p) (show (σ.pages q u).frame? = some f by
        rw [hf]; rfl)
      refine (sameButMemory_afterAlloc hpage.size).zeroLine ?_ (h.zero q u f hf a ha)
      exact memLine_congr (h.aligned hused) ha fun n hn =>
        h.bytes_afterAlloc hpage hmaps hsub hused hnot hn

end Mapped

/-- `alloc_and_map` keeps the invariant when it is not seen. -/
theorem Inv.afterAlloc {writable user : Bool} (h : σ.Inv base used node mapped)
    (hunseen : σ.MapsUnseen p virtualAddress)
    (hcall : (σ.os p).allocAndMap virtualAddress writable user = .ok (frame, s)) :
    ∃ used' node' mapped',
      (σ.afterAlloc p virtualAddress frame s).Inv base used' node' mapped' := by
  obtain ⟨hpath, hfits⟩ := hunseen.inside
  obtain ⟨node', hpage⟩ := ((h.maps p).allocAndMap_sat hpath hfits).of_eq_ok hcall
  rcases hpage.maps with ⟨hframe, hmaps⟩ | ⟨hne, -, htaken, hzero, hmaps⟩
  · dsimp only at hframe hmaps
    subst hframe
    exact ⟨_, _, _, h.afterAlloc_failed hunseen hpage hmaps⟩
  · exact ⟨_, _, _, h.afterAlloc_mapped hunseen hne hpage htaken hzero hmaps⟩

/-! ## Runs -/

theorem tableFrames_rootOnly : tableFrames rootOnly = ∅ := by
  refine Set.eq_empty_iff_forall_notMem.mpr ?_
  rintro frame ⟨u, hu⟩
  unfold rootOnly at hu
  split at hu <;> cases hu

theorem Initial.inv (h : σ.Initial) :
    σ.Inv σ.fa.watermark.toNat ∅ (fun _ => rootOnly) fun _ _ => none := by
  have htlbs : ∀ {f} c, TLBCaches f (σ.sim.cpu.cores c).l1Dtlb ∧
      TLBCaches f (σ.sim.cpu.cores c).l2Dtlb := by
    intro f c
    obtain ⟨core, hcore⟩ := h.tlbs c
    rw [hcore]
    exact ⟨tlbCaches_flush _, tlbCaches_flush _⟩
  have hframe : ∀ {p u f}, (σ.pages p u).frame? ≠ some f := by
    intro p u f
    rw [h.pages]
    exact Option.some_ne_none f |>.symm
  refine ⟨⟨h.caches.inv, fun p => ?_, fun p => ?_, fun p q _ f hf => ?_, fun p f hf => ?_⟩,
    fun f hf => ?_, fun p u f hf => absurd hf hframe,
    fun p u f hf => absurd hf hframe, fun p u _ => rfl, fun p u q v f hf => absurd hf hframe,
    fun c => (htlbs c).1, fun c => (htlbs c).2, fun p u f hf => ?_⟩
  · rw [tableFrames_rootOnly, Set.sdiff_empty]
    exact (h.os p).maps
  · rw [tableFrames_rootOnly]
  · rw [tableFrames_rootOnly] at hf
    exact hf.elim
  · rw [tableFrames_rootOnly] at hf
    exact hf.elim
  · rw [h.dataFrames] at hf
    cases hf
  · exact absurd (by rw [hf]; rfl) (hframe (p := p) (u := u) (f := f))

end PageSystem

/-- The invariant holds in every state of a run. -/
theorem PageRun.inv {σ₀ σ : PageSystem} (h₀ : σ₀.Initial)
    (h : PageRun PageSystem.MapsUnseen PageSystem.AccessesInside σ₀ σ) :
    ∃ base used node mapped, σ.Inv base used node mapped := by
  induction h with
  | start => exact ⟨_, _, _, _, h₀.inv⟩
  | alloc p virtualAddress writable user _ hunseen hcall ih =>
      obtain ⟨base, used, node, mapped, hinv⟩ := ih
      exact ⟨base, hinv.afterAlloc hunseen hcall⟩
  | free frame _ hframe ih =>
      obtain ⟨base, used, node, mapped, hinv⟩ := ih
      exact ⟨base, _, _, _, hinv.afterFree hframe⟩
  | call call _ hdata hne hinside hexec ih =>
      obtain ⟨base, used, node, mapped, hinv⟩ := ih
      exact ⟨base, _, _, _, hinv.afterCall hdata hne hinside hexec⟩

end CacheSimulator
