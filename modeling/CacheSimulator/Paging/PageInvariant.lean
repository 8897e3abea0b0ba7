import CacheSimulator.Paging.FrameLines

/-!
# The invariant of the pages

Every table and every data page has a frame of its own, the TLBs agree with the
mappings, no line of a table is MODIFIED in a cache, and a page that has not been
stored to is zero wherever its lines are.
-/

namespace CacheSimulator

/-- The frame number a TLB may have for a virtual page number. -/
def translated (mapped : List (Fin 512) → Option Addr) (virtualPageNum : Addr) : Option Addr :=
  if InFrames (pagePath (virtualPageNum <<< 12)) then
    (mapped (pagePath (virtualPageNum <<< 12))).map toFrame
  else none

theorem pagePath_toFrame (virtualAddress : Addr) :
    pagePath (toFrame virtualAddress <<< 12) = pagePath virtualAddress := by
  have hindex := pageIndex_congr (toFrame_page virtualAddress)
  change [_, _, _, _] = [_, _, _, _]
  rw [hindex, hindex, hindex, hindex]

theorem pageAligned_iff {frame : Addr} : PageAligned frame ↔ frame.toNat % 4096 = 0 := by
  have hlow : (frame &&& 0xFFF#64).toNat = frame.toNat % 4096 := by
    rw [BitVec.toNat_and]
    exact Nat.and_two_pow_sub_one_eq_mod _ 12
  unfold PageAligned
  rw [← hlow, ← BitVec.toNat_inj]
  rfl

theorem offset_lt (virtualAddress : Addr) : (virtualAddress &&& 0xFFF#64).toNat < 4096 := by
  rw [BitVec.toNat_and]
  exact Nat.lt_of_le_of_lt Nat.and_le_right (by decide)

theorem toNat_or_offset {frame : Addr} (h : frame.toNat % 4096 = 0) (virtualAddress : Addr) :
    (frame ||| (virtualAddress &&& 0xFFF#64)).toNat =
      frame.toNat + (virtualAddress &&& 0xFFF#64).toNat := by
  have hframe : frame.toNat = 2 ^ 12 * (frame.toNat / 4096) := by omega
  rw [BitVec.toNat_or, hframe]
  exact (Nat.two_pow_add_eq_or_of_lt (offset_lt virtualAddress) _).symm

/-- The page walk of an accessed page, seen through its mapping. -/
theorem Os.Maps.walkFinds {s : Os} {base : ℕ} {node : List (Fin 512) → Option TablePtr}
    {mapped : List (Fin 512) → Option Addr} {data : Set Addr} {virtualAddress : Addr}
    (h : s.Maps base node mapped data) (hpath : InFrames (pagePath virtualAddress))
    (haligned : ∀ frame, mapped (pagePath virtualAddress) = some frame → frame.toNat % 4096 = 0) :
    WalkFinds (translated mapped) s.proc.pml4 s.mem virtualAddress := by
  have hwalk := h.pageWalk_eq hpath
  have htranslated : translated mapped (toFrame virtualAddress) =
      (mapped (pagePath virtualAddress)).map toFrame := by
    unfold translated
    rw [pagePath_toFrame, if_pos hpath]
  constructor
  · intro frame hframe
    rw [htranslated] at hframe
    obtain ⟨leaf, hleaf, rfl⟩ := Option.map_eq_some_iff.mp hframe
    rw [hwalk, hleaf, toAddress_toFrame (pageAligned_iff.mpr (haligned leaf hleaf))]
    rfl
  · intro physicalAddress hpa
    rw [hwalk] at hpa
    obtain ⟨leaf, hleaf, rfl⟩ := Option.map_eq_some_iff.mp hpa
    rw [htranslated, hleaf, Option.map_some, toFrame_or_offset]

namespace PageSystem

/-- `used` are the frames in use, `node p` the tables of process `p`, and
`mapped p` the pages that they map. -/
structure TablesInv (σ : PageSystem) (base : ℕ) (used : Set Addr)
    (node : ℕ → List (Fin 512) → Option TablePtr) (mapped : ℕ → List (Fin 512) → Option Addr) :
    Prop where
  caches : σ.sim.Inv
  maps : ∀ p, (σ.os p).Maps base (node p) (mapped p) (used \ tableFrames (node p))
  tables : ∀ p, tableFrames (node p) ⊆ used
  apart : ∀ p q, p ≠ q → ∀ frame ∈ tableFrames (node p), frame ∉ tableFrames (node q)
  clean : ∀ p, ∀ frame ∈ tableFrames (node p), ∀ a, LineIn frame a → ¬(σ.sim.rep a).view.Dirty

structure Inv (σ : PageSystem) (base : ℕ) (used : Set Addr)
    (node : ℕ → List (Fin 512) → Option TablePtr) (mapped : ℕ → List (Fin 512) → Option Addr) :
    Prop extends σ.TablesInv base used node mapped where
  data : ∀ frame ∈ σ.dataFrames, frame ∈ used ∧ ∀ p, frame ∉ tableFrames (node p)
  page : ∀ p u frame, (σ.pages p u).frame? = some frame →
    mapped p u = some frame ∧ frame ∈ σ.dataFrames
  inside : ∀ p u frame, (σ.pages p u).frame? = some frame → InFrames u
  unmapped : ∀ p u, σ.pages p u = .unmapped → mapped p u = none
  distinct : ∀ p u q v frame, (σ.pages p u).frame? = some frame →
    (σ.pages q v).frame? = some frame → p = q ∧ u = v
  l1Dtlb : ∀ c, TLBCaches (translated (mapped (σ.process c))) (σ.sim.cpu.cores c).l1Dtlb
  l2Dtlb : ∀ c, TLBCaches (translated (mapped (σ.process c))) (σ.sim.cpu.cores c).l2Dtlb
  zero : ∀ p u frame, σ.pages p u = .fresh frame → ∀ a, LineIn frame a → σ.sim.ZeroLine a

variable {σ : PageSystem} {base : ℕ} {used : Set Addr} {node : ℕ → List (Fin 512) → Option TablePtr}
  {mapped : ℕ → List (Fin 512) → Option Addr} {frame : Addr} {p : ℕ}

theorem TablesInv.owns (h : σ.TablesInv base used node mapped) :
    σ.fa.Owns base σ.sim.mem.size used := by
  have howns := (h.maps 0).owns
  rw [Set.sdiff_union_of_subset (h.tables 0)] at howns
  exact howns

theorem TablesInv.aligned (h : σ.TablesInv base used node mapped) (hframe : frame ∈ used) :
    frame.toNat % 4096 = 0 := (h.owns.inUse frame hframe).1.aligned

theorem TablesInv.maps_transfer {σ' : PageSystem} {all : Set Addr}
    (h : σ.TablesInv base used node mapped)
    (hroot : σ'.sim.pml4s p = σ.sim.pml4s p) (hsize : σ'.sim.mem.size = σ.sim.mem.size)
    (hbytes : ∀ frame ∈ tableFrames (node p), ∀ n, InFrame frame n →
      σ'.sim.mem.data n = σ.sim.mem.data n)
    (howns : σ'.fa.Owns base σ.sim.mem.size all) (hused : tableFrames (node p) ⊆ all) :
    (σ'.os p).Maps base (node p) (mapped p) (all \ tableFrames (node p)) := by
  refine (h.maps p).transfer hroot hsize hbytes ?_ fun frame hframe hdata => hdata.2 hframe
  rw [Set.sdiff_union_of_subset hused]
  exact howns

/-! ## Freeing a frame -/

theorem frame?_free {status : PageStatus} {frame' : Addr} :
    (status.free frame).frame? = some frame' ↔ status.frame? = some frame' ∧ frame' ≠ frame := by
  unfold PageStatus.free
  split
  · rename_i heq
    rw [heq]
    constructor
    · intro h
      cases h
    · rintro ⟨h, hne⟩
      exact absurd (Option.some.inj h).symm hne
  · rename_i hne
    refine ⟨fun h => ⟨h, ?_⟩, fun h => h.1⟩
    rintro rfl
    exact hne h

theorem Inv.afterFree (h : σ.Inv base used node mapped) (hframe : frame ∈ σ.dataFrames) :
    (σ.afterFree frame).Inv base (used \ {frame}) node mapped := by
  obtain ⟨hused, hnot⟩ := h.data frame hframe
  have htables : ∀ p, tableFrames (node p) ⊆ used \ {frame} := by
    intro p table htable
    refine ⟨h.tables p htable, ?_⟩
    rintro rfl
    exact hnot p htable
  have hkept : ∀ {status : PageStatus}, status.free frame = .unmapped → status = .unmapped := by
    intro status heq
    unfold PageStatus.free at heq
    split at heq
    · cases heq
    · exact heq
  refine ⟨⟨h.caches, fun p => ?_, htables, h.apart, h.clean⟩, fun f hf => ?_, fun p u f hf => ?_,
    fun p u f hf => h.inside p u f (frame?_free.mp hf).1,
    fun p u hu => h.unmapped p u (hkept hu), fun p u q v f hf hf' => ?_, h.l1Dtlb, h.l2Dtlb,
    fun p u f hf => ?_⟩
  · refine h.maps_transfer rfl rfl (fun _ _ _ _ => rfl) ?_ (htables p)
    refine FrameAllocator.Owns.freeFrame ?_ fun hmem => hmem.2 rfl
    rw [Set.insert_sdiff_singleton, Set.insert_eq_of_mem hused]
    exact h.owns
  · obtain ⟨hf, hne⟩ := List.mem_filter.mp hf
    exact ⟨⟨(h.data f hf).1, of_decide_eq_true hne⟩, (h.data f hf).2⟩
  · obtain ⟨hf, hne⟩ := frame?_free.mp hf
    obtain ⟨hmapped, hdata⟩ := h.page p u f hf
    exact ⟨hmapped, List.mem_filter.mpr ⟨hdata, decide_eq_true hne⟩⟩
  · exact h.distinct p u q v f (frame?_free.mp hf).1 (frame?_free.mp hf').1
  · change (σ.pages p u).free frame = _ at hf
    unfold PageStatus.free at hf
    split at hf
    · cases hf
    · exact h.zero p u f hf

/-! ## Calls -/

section Calls

variable {call : Call} {s : Sim} {result : Option (List Byte)} {u : List (Fin 512)}

theorem Inv.frame?_of_mapped (h : σ.Inv base used node mapped) (hne : σ.pages p u ≠ .freed)
    (hmapped : mapped p u = some frame) : (σ.pages p u).frame? = some frame := by
  cases hstatus : σ.pages p u with
  | unmapped =>
      rw [h.unmapped p u hstatus] at hmapped
      cases hmapped
  | freed => exact absurd hstatus hne
  | _ frame' =>
      have hpage := (h.page p u frame' (by rw [hstatus]; rfl)).1
      rw [hmapped] at hpage
      exact hpage.symm

theorem Inv.walkFinds (h : σ.Inv base used node mapped) {c : CoreId} {virtualAddress : Addr}
    (hne : σ.pages (σ.process c) (pagePath virtualAddress) ≠ .freed)
    (hinside : InFrames (pagePath virtualAddress)) :
    WalkFinds (translated (mapped (σ.process c))) (σ.sim.pml4s (σ.process c)) σ.sim.mem
      virtualAddress := by
  refine (h.maps (σ.process c)).walkFinds hinside fun frame hmapped => ?_
  have hframe := h.frame?_of_mapped hne hmapped
  exact h.aligned (h.data frame (h.page _ _ _ hframe).2).1

theorem Inv.inFrame_of_translate (h : σ.Inv base used node mapped) {c : CoreId}
    {virtualAddress physicalAddress : Addr}
    (hne : σ.pages (σ.process c) (pagePath virtualAddress) ≠ .freed)
    (hinside : InFrames (pagePath virtualAddress))
    (hpa : (translateData σ.sim c virtualAddress).1 = some physicalAddress) :
    ∃ frame, (σ.pages (σ.process c) (pagePath virtualAddress)).frame? = some frame ∧
      physicalAddress.toNat = frame.toNat + (virtualAddress &&& 0xFFF#64).toNat := by
  obtain ⟨hwalk, -⟩ := TLBCaches.translate2 (h.l1Dtlb c) (h.l2Dtlb c) (h.walkFinds hne hinside)
  have hpage := (hpa.symm.trans hwalk).trans ((h.maps (σ.process c)).pageWalk_eq hinside)
  obtain ⟨frame, hmapped, rfl⟩ := Option.map_eq_some_iff.mp hpage.symm
  have hframe := h.frame?_of_mapped hne hmapped
  have haligned := h.aligned (h.data frame (h.page _ _ _ hframe).2).1
  exact ⟨frame, hframe, toNat_or_offset haligned virtualAddress⟩

/-- A call stores to lines of its page only. -/
theorem Inv.lineIn_of_storesTo (h : σ.Inv base used node mapped) (hne : σ.pageOf call ≠ .freed)
    (hinside : InFrames (pagePath call.virtualAddress)) {a : LineNo}
    (ha : call.StoresTo σ.sim a) :
    ∃ frame, (σ.pageOf call).frame? = some frame ∧ LineIn frame a := by
  cases call with
  | write c va data =>
      obtain ⟨pa, hpa, rfl⟩ := ha
      obtain ⟨frame, hframe, hval⟩ := h.inFrame_of_translate hne hinside hpa
      have haligned := h.aligned (h.data frame (h.page _ _ _ hframe).2).1
      refine ⟨frame, hframe, lineIn_lineNo haligned ?_⟩
      have hoffset := offset_lt va
      change pa.toNat = frame.toNat + (va &&& 0xFFF#64).toNat at hval
      unfold InFrame
      omega
  | _ => exact ha.elim

theorem frame?_afterCall (q : ℕ) (v : List (Fin 512)) :
    ((σ.afterCall call s).pages q v).frame? = (σ.pages q v).frame? := by
  cases call with
  | write c va data =>
      change (setPage σ.pages _ _ _ q v).frame? = _
      unfold setPage
      split
      · rename_i heq
        obtain ⟨rfl, rfl⟩ := heq
        unfold pageOf
        cases σ.pages (σ.process (Call.write c va data).coreId)
          (pagePath (Call.write c va data).virtualAddress) <;> rfl
      · rfl
  | _ => rfl

/-- A page that has not been stored to is none that the call stores to. -/
theorem fresh_of_afterCall {q : ℕ} {v : List (Fin 512)}
    (h : (σ.afterCall call s).pages q v = .fresh frame) : σ.pages q v = .fresh frame ∧
      ∀ a, call.StoresTo σ.sim a →
        ¬(q = σ.process call.coreId ∧ v = pagePath call.virtualAddress) := by
  cases call with
  | write c va data =>
      change setPage σ.pages _ _ _ q v = _ at h
      unfold setPage at h
      split at h
      · cases hpage : σ.pageOf (.write c va data) <;>
          rw [hpage] at h <;> cases h
      · rename_i hother
        exact ⟨h, fun _ _ => hother⟩
  | _ => exact ⟨h, fun _ ha => ha.elim⟩

theorem unmapped_of_afterCall {q : ℕ} {v : List (Fin 512)}
    (h : (σ.afterCall call s).pages q v = .unmapped) : σ.pages q v = .unmapped := by
  cases call with
  | write c va data =>
      change setPage σ.pages _ _ _ q v = _ at h
      unfold setPage at h
      split at h
      · rename_i heq
        obtain ⟨rfl, rfl⟩ := heq
        change σ.pageOf (.write c va data) = _
        cases hpage : σ.pageOf (.write c va data) <;>
          rw [hpage] at h <;> first | rfl | cases h
      · exact h
  | _ => exact h

theorem Inv.tlbs_of_call (h : σ.Inv base used node mapped) (hdata : call.IsData)
    (hne : σ.pageOf call ≠ .freed) (hinside : InFrames (pagePath call.virtualAddress))
    (hexec : call.exec σ.sim = .ok (s, result)) : s.pml4s = σ.sim.pml4s ∧
      ∀ c, (s.cpu.cores c).activePml4 = σ.process c ∧
        TLBCaches (translated (mapped (σ.process c))) (s.cpu.cores c).l1Dtlb ∧
          TLBCaches (translated (mapped (σ.process c))) (s.cpu.cores c).l2Dtlb := by
  have hsame := Call.exec_sameTranslation hdata hexec
  obtain ⟨-, hl1, hl2, -⟩ := TLBCaches.translate2 (h.l1Dtlb call.coreId) (h.l2Dtlb call.coreId)
    (h.walkFinds hne hinside)
  refine ⟨hsame.pml4s, fun c => ?_⟩
  rw [hsame.activePml4, hsame.l1Dtlb, hsame.l2Dtlb, Sim.translateData_snd]
  unfold Sim.modifyCore
  dsimp only
  by_cases hc : c = call.coreId
  · subst hc
    rw [Function.update_self]
    exact ⟨rfl, hl1, hl2⟩
  · rw [Function.update_of_ne hc]
    exact ⟨rfl, h.l1Dtlb c, h.l2Dtlb c⟩

theorem Inv.afterCall (h : σ.Inv base used node mapped) (hdata : call.IsData)
    (hne : σ.pageOf call ≠ .freed) (hinside : InFrames (pagePath call.virtualAddress))
    (hexec : call.exec σ.sim = .ok (s, result)) :
    (σ.afterCall call s).Inv base used node mapped := by
  obtain ⟨es, hes, -⟩ := Call.exec_evolves h.caches hexec
  obtain ⟨hpml4s, htlbs⟩ := h.tlbs_of_call hdata hne hinside hexec
  have hprocess : (σ.afterCall call s).process = σ.process := funext fun c => (htlbs c).1
  -- the call stores to no line of another frame than that of its page
  have hstores : ∀ a f, LineIn f a → f ∈ used → call.StoresTo σ.sim a →
      (σ.pageOf call).frame? = some f := by
    intro a f ha hf hstore
    obtain ⟨frame, hframe, hline⟩ := h.lineIn_of_storesTo hne hinside hstore
    have hused := (h.data frame (h.page _ _ _ hframe).2).1
    rw [eq_of_lineIn (h.aligned hf) (h.aligned hused) ha hline]
    exact hframe
  have htable : ∀ p, ∀ table ∈ tableFrames (node p), ∀ a, LineIn table a →
      ¬(s.rep a).view.Dirty ∧ s.memLine a = σ.sim.memLine a := by
    intro p table htable a ha
    refine Call.exec_clean h.caches hexec (fun hstore => ?_) (h.clean p table htable a ha)
    have hframe := hstores a table ha (h.tables p htable) hstore
    exact (h.data table (h.page _ _ _ hframe).2).2 p htable
  refine ⟨⟨hes.inv, fun p => ?_, h.tables, h.apart,
    fun p table ht a ha => (htable p table ht a ha).1⟩,
    h.data, fun p u f hf => ?_, fun p u f hf => ?_, fun p u hu => ?_, fun p u q v f hf hf' => ?_,
    fun c => ?_, fun c => ?_, fun p u f hf a ha => ?_⟩
  · refine h.maps_transfer (congrFun hpml4s p) hes.size (fun table ht n hn => ?_) h.owns
      (h.tables p)
    exact data_congr_of_lines (h.aligned (h.tables p ht))
      (fun a ha => (htable p table ht a ha).2) hn
  · rw [frame?_afterCall] at hf
    exact h.page p u f hf
  · rw [frame?_afterCall] at hf
    exact h.inside p u f hf
  · exact h.unmapped p u (unmapped_of_afterCall hu)
  · rw [frame?_afterCall] at hf hf'
    exact h.distinct p u q v f hf hf'
  · rw [hprocess]
    exact (htlbs c).2.1
  · rw [hprocess]
    exact (htlbs c).2.2
  · obtain ⟨hfresh, hother⟩ := fresh_of_afterCall hf
    have hframe : (σ.pages p u).frame? = some f := by rw [hfresh]; rfl
    refine Call.exec_allIn h.caches hexec (fun hstore => ?_) (h.zero p u f hfresh a ha)
    have hpage := hstores a f ha (h.data f (h.page p u f hframe).2).1 hstore
    exact hother a hstore (h.distinct _ _ _ _ _ hframe hpage)

end Calls

end PageSystem

end CacheSimulator
