import CacheSimulator.Processes.Contents
import CacheSimulator.Refinement.DataFaults

/-!
# The memory of the processes

Each operation on the simulator is one on the virtual memory that the mapped pages hold:
an allocation adds a page of zeroes, a switch changes what the cores run, and a call loads
from or stores to a page of the process that its core runs, or faults.
-/

namespace CacheSimulator

open Mesi

abbrev ProcessMemory := VirtualMemory.State CoreId ℕ (List (Fin 512)) Byte 4096

def ProcessMemory.start (running : CoreId → ℕ) : ProcessMemory := ⟨running, fun _ _ => none⟩

def Sim.flatPage (s : Sim) (frame : Addr) : Fin 4096 → Byte := fun i => s.flatByte (frame.toNat + i)

namespace PageSystem

/-- The mapped pages hold the bytes of `m`. -/
structure Shows (σ : PageSystem) (m : ProcessMemory) : Prop where
  fits : σ.sim.Fits σ.framePages σ.sim
  stored : σ.sim.StoredWithin σ.framePages
  live : ∀ p u, σ.pages p u ≠ .freed
  running : m.running = σ.process
  pages : ∀ p u, m.pages p u = (σ.pages p u).frame?.map σ.sim.flatPage

variable {σ σ₀ : PageSystem} {m : ProcessMemory} {base : ℕ} {used : Set Addr}
  {node : ℕ → List (Fin 512) → Option TablePtr} {mapped : ℕ → List (Fin 512) → Option Addr}
  {frame virtualAddress : Addr} {p : ℕ} {call : Call} {s : Sim} {result : Option (List Byte)}

theorem Initial.shows (h : σ.Initial) : σ.Shows (.start σ.process) := by
  have hstored : σ.sim.StoredWithin σ.framePages := by
    intro a _ memory
    rw [h.caches.history]
    rfl
  refine ⟨h.caches.fits, hstored, fun p u => ?_, rfl, fun p u => ?_⟩
  · rw [h.pages]
    exact PageStatus.noConfusion
  · rw [h.pages]
    rfl

/-! ## Switches -/

theorem Shows.afterSwitch (h : σ.Shows m) (p : ℕ) :
    (σ.afterSwitch p).Shows (m.after 0 (.switch p)) :=
  ⟨(h.fits.of_sameCaches (σ.sameCaches_afterSwitch p)).anchor, h.stored, h.live, rfl, h.pages⟩

/-! ## Frames -/

theorem Inv.frame_mem (h : σ.Inv base used node mapped) {u : List (Fin 512)}
    (hframe : (σ.pages p u).frame? = some frame) :
    frame ∈ used ∧ frame.toNat % 4096 = 0 ∧ frame.toNat / 4096 ∈ σ.framePages := by
  have hdata := (h.page p u frame hframe).2
  have hused := (h.data frame hdata).1
  exact ⟨hused, h.aligned hused, List.mem_toFinset.mpr (List.mem_map_of_mem hdata)⟩

/-- A line of a mapped page lies in a frame that is in use. -/
theorem Inv.exists_frame (h : σ.Inv base used node mapped) {a : LineNo}
    (ha : CacheSimulator.pageOf a ∈ σ.framePages) : ∃ frame ∈ σ.dataFrames, LineIn frame a := by
  obtain ⟨frame, hframe, heq⟩ := List.mem_map.mp (List.mem_toFinset.mp ha)
  have haligned := h.aligned (h.data frame hframe).1
  refine ⟨frame, hframe, ?_⟩
  unfold CacheSimulator.pageOf at heq
  unfold LineIn InFrame
  omega

theorem byte_lt (haligned : frame.toNat % 4096 = 0) (i : Fin 4096) :
    InFrame frame (frame.toNat + i) ∧ frame.toNat + i < 2 ^ 64 := by
  have hin : InFrame frame (frame.toNat + i) := ⟨Nat.le_add_right _ _, by have := i.isLt; omega⟩
  exact ⟨hin, inFrame_lt haligned hin⟩

theorem Shows.pages_call (hm : σ.Shows m) (call : Call) :
    m.pages (m.running call.coreId) (pagePath call.virtualAddress) =
      (σ.pageOf call).frame?.map σ.sim.flatPage := by
  rw [hm.running, hm.pages]
  rfl

theorem Shows.pages_eq (hm : σ.Shows m) {s : Sim} {q : ℕ} {u : List (Fin 512)}
    (h : ∀ frame, (σ.pages q u).frame? = some frame → s.flatPage frame = σ.sim.flatPage frame) :
    m.pages q u = (σ.pages q u).frame?.map s.flatPage := by
  rw [hm.pages]
  exact Option.map_congr fun frame hframe => (h frame hframe).symm

/-! ## Allocations -/

section Alloc

variable {os : Os} {data' : Set Addr} {node' : List (Fin 512) → Option TablePtr}
  {mapped' : List (Fin 512) → Option Addr}

/-- The lines and the bytes of the mapped pages do not change behind the caches. -/
theorem Inv.keeps_afterAlloc (h : σ.Inv base used node mapped)
    (hpage : (σ.os p).MapsPage base (node p) (mapped p) (used \ tableFrames (node p)) virtualAddress
      (frame, os) node')
    (hmaps : os.Maps base node' mapped' data') (hsub : used \ tableFrames (node p) ⊆ data') :
    (∀ a, CacheSimulator.pageOf a ∈ σ.framePages →
      (σ.afterAlloc p virtualAddress frame os).sim.memLine a = σ.sim.memLine a) ∧
    ∀ q u f, (σ.pages q u).frame? = some f →
      (σ.afterAlloc p virtualAddress frame os).sim.flatPage f = σ.sim.flatPage f := by
  have hbytes : ∀ f ∈ σ.dataFrames, ∀ n, InFrame f n → os.mem.data n = σ.sim.mem.data n := by
    intro f hf n hn
    obtain ⟨hused, hnot⟩ := h.data f hf
    exact h.toTablesInv.bytes_afterAlloc hpage hmaps hsub hused (hnot p) hn
  refine ⟨fun a ha => ?_, fun q u f hf => funext fun i => ?_⟩
  · obtain ⟨f, hf, hline⟩ := h.exists_frame ha
    exact memLine_congr (h.aligned (h.data f hf).1) hline (hbytes f hf)
  · exact flatMemory_congr (hbytes f (h.page q u f hf).2 _
      (byte_lt (h.frame_mem hf).2.1 i).1) _

theorem Shows.afterAlloc_failed (hm : σ.Shows m) (h : σ.Inv base used node mapped)
    (hpage : (σ.os p).MapsPage base (node p) (mapped p) (used \ tableFrames (node p)) virtualAddress
      (uint64Max, os) node')
    (hmaps : os.Maps base node' (mapped p) (used \ tableFrames (node p))) :
    (σ.afterAlloc p virtualAddress uint64Max os).Shows m := by
  obtain ⟨hlines, hbytes⟩ := h.keeps_afterAlloc hpage hmaps subset_rfl
  have hpages : (σ.afterAlloc p virtualAddress uint64Max os).pages = σ.pages := by
    simp [PageSystem.afterAlloc]
  have hframes : (σ.afterAlloc p virtualAddress uint64Max os).framePages = σ.framePages := by
    simp [framePages, PageSystem.afterAlloc]
  refine ⟨?_, ?_, ?_, hm.running, fun q u => ?_⟩
  · exact hm.fits.afterMemory hm.stored (sameButMemory_afterAlloc hpage.size) hlines
      (Finset.subset_of_eq hframes.symm)
  · rw [hframes]
    exact hm.stored
  · rw [hpages]
    exact hm.live
  · rw [hpages]
    exact hm.pages_eq (hbytes q u)

/-- The page that is mapped is zero. -/
theorem Shows.afterAlloc_mapped (hm : σ.Shows m) (h : σ.Inv base used node mapped)
    (hne : frame ≠ uint64Max)
    (hpage : (σ.os p).MapsPage base (node p) (mapped p) (used \ tableFrames (node p)) virtualAddress
      (frame, os) node')
    (htaken : frame.toNat = σ.fa.frameTaken 0) (hzero : ∀ n, InFrame frame n → os.mem.data n = 0)
    (hmaps : os.Maps base node' (Function.update (mapped p) (pagePath virtualAddress) (some frame))
      (insert frame (used \ tableFrames (node p)))) :
    (σ.afterAlloc p virtualAddress frame os).Shows
      (m.after 0 (.map p (pagePath virtualAddress) true)) := by
  have hsub : used \ tableFrames (node p) ⊆ insert frame (used \ tableFrames (node p)) :=
    Set.subset_insert _ _
  obtain ⟨hlines, hbytes⟩ := h.keeps_afterAlloc hpage hmaps hsub
  have haligned := hmaps.aligned (.inl (Set.mem_insert frame _))
  have hpages : (σ.afterAlloc p virtualAddress frame os).pages =
      setPage σ.pages p (pagePath virtualAddress) (.fresh frame) := by
    simp [PageSystem.afterAlloc, hne]
  have hframes : (σ.afterAlloc p virtualAddress frame os).framePages =
      insert (frame.toNat / 4096) σ.framePages := by
    simp [framePages, PageSystem.afterAlloc, hne]
  have hgrow : σ.framePages ⊆ (σ.afterAlloc p virtualAddress frame os).framePages := by
    rw [hframes]
    exact Finset.subset_insert _ _
  refine ⟨?_, ?_, fun q u => ?_, hm.running, fun q u => ?_⟩
  · exact hm.fits.afterMemory hm.stored (sameButMemory_afterAlloc hpage.size) hlines hgrow
  · exact fun a ha => hm.stored a fun hmem => ha (hgrow hmem)
  · rw [hpages]
    by_cases hqu : q = p ∧ u = pagePath virtualAddress
    · rw [hqu.1, hqu.2, setPage_self]
      exact PageStatus.noConfusion
    · rw [setPage_of_ne hqu]
      exact hm.live q u
  · rw [hpages]
    change (m.setPage p (pagePath virtualAddress) _).pages q u = _
    rw [VirtualMemory.State.setPage_pages]
    by_cases hqu : q = p ∧ u = pagePath virtualAddress
    · rw [if_pos hqu, hqu.1, hqu.2, setPage_self]
      refine congrArg some (funext fun i => ?_)
      -- nothing has been stored to the frame, and memory holds zeroes there
      obtain ⟨hin, hlt⟩ := byte_lt haligned i
      have hout := h.taken_notMem 0
      rw [← htaken] at hout
      have hpage : (frame.toNat + i) / 4096 = frame.toNat / 4096 := by
        have := i.isLt
        omega
      have hstored : (σ.afterAlloc p virtualAddress frame os).sim.StoredWithin σ.framePages :=
        hm.stored
      exact (hzero _ hin).symm.trans (hstored.flatByte hlt (hpage.symm ▸ hout)).symm
    · rw [if_neg hqu, setPage_of_ne hqu]
      exact hm.pages_eq (hbytes q u)

end Alloc

/-- `alloc_and_map` maps a page of zeroes, or nothing. -/
theorem Shows.afterAlloc {writable user : Bool} {os : Os} (hm : σ.Shows m)
    (h : σ.Inv base used node mapped)
    (hunmapped : σ.pages p (pagePath virtualAddress) = .unmapped)
    (hinside : (σ.os p).MapsInside virtualAddress)
    (hcall : (σ.os p).allocAndMap virtualAddress writable user = .ok (frame, os)) :
    m.Allows (.map p (pagePath virtualAddress) (frame != uint64Max)) ∧
    (σ.afterAlloc p virtualAddress frame os).Shows
      (m.after 0 (.map p (pagePath virtualAddress) (frame != uint64Max))) ∧
    ∃ used' node' mapped',
      (σ.afterAlloc p virtualAddress frame os).Inv base used' node' mapped' := by
  have hunseen := h.mapsUnseen hm.fits.within hunmapped hinside
  have hallows : m.pages p (pagePath virtualAddress) = none := by
    rw [hm.pages, hunmapped]
    rfl
  obtain ⟨node', hpage⟩ := ((h.maps p).allocAndMap_sat hinside.1 hinside.2).of_eq_ok hcall
  refine ⟨hallows, ?_, h.afterAlloc hunseen hcall⟩
  rcases hpage.maps with ⟨hframe, hmaps⟩ | ⟨hne, -, htaken, hzero, hmaps⟩
  · dsimp only at hframe hmaps
    subst hframe
    rw [bne_self_eq_false]
    exact hm.afterAlloc_failed h hpage hmaps
  · rw [bne_iff_ne.mpr hne]
    exact hm.afterAlloc_mapped h hne hpage htaken hzero hmaps

/-! ## Calls -/

/-- The page of a call, and the address it accesses. -/
theorem Inv.physicalAddress_cases (h : σ.Inv base used node mapped) (hlive : σ.pageOf call ≠ .freed)
    (hcall : call.AccessesLine) :
    (call.physicalAddress σ.sim = none ∧ (σ.pageOf call).frame? = none) ∨
      ∃ frame pa, call.physicalAddress σ.sim = some pa ∧ (σ.pageOf call).frame? = some frame ∧
        pa.toNat = frame.toNat + pageOffset call.virtualAddress := by
  have hdata : call.physicalAddress σ.sim =
      (translateData σ.sim call.coreId call.virtualAddress).1 := by
    cases call with
    | fetch => exact hcall.isData.elim
    | _ => rfl
  cases hpa : call.physicalAddress σ.sim with
  | none =>
      obtain ⟨hwalk, -⟩ := TLBCaches.translate2 (h.l1Dtlb call.coreId) (h.l2Dtlb call.coreId)
        (h.walkFinds hlive hcall.inside)
      have hpage := ((hdata.symm.trans hpa).symm.trans hwalk).trans
        ((h.maps (σ.process call.coreId)).pageWalk_eq hcall.inside)
      refine .inl ⟨rfl, ?_⟩
      cases hframe : (σ.pageOf call).frame? with
      | none => rfl
      | some frame =>
          rw [(h.page _ _ frame hframe).1] at hpage
          cases hpage
  | some pa =>
      obtain ⟨frame, hframe, hval⟩ :=
        h.inFrame_of_translate hlive hcall.inside (hdata.symm.trans hpa)
      exact .inr ⟨frame, pa, rfl, hframe, hval⟩

theorem live_afterCall (hlive : ∀ q u, σ.pages q u ≠ .freed) (q : ℕ) (u : List (Fin 512)) :
    (σ.afterCall call s).pages q u ≠ .freed := by
  cases call with
  | write c va data =>
      change setPage σ.pages _ _ _ q u ≠ _
      unfold setPage
      split
      · have hpage := hlive (σ.process c) (pagePath va)
        change (σ.pages (σ.process c) (pagePath va)).store ≠ _
        cases hstatus : σ.pages (σ.process c) (pagePath va) with
        | freed => exact absurd hstatus hpage
        | _ => exact PageStatus.noConfusion
      · exact hlive q u
  | _ => exact hlive q u

/-- What is left to show of a call: the bytes that it leaves in the frames. -/
theorem Shows.afterCall (hm : σ.Shows m) (h : σ.Inv base used node mapped)
    (hcall : call.AccessesLine) (hexec : call.exec σ.sim = .ok (s, result))
    (hfits : s.Fits σ.framePages σ.sim) (hstored : s.StoredWithin σ.framePages)
    (hpages : ∀ q u, (m.after 0 (call.event result)).pages q u =
      (σ.pages q u).frame?.map s.flatPage) :
    (σ.afterCall call s).Shows (m.after 0 (call.event result)) := by
  obtain ⟨-, htlbs⟩ := h.tlbs_of_call hcall.isData (hm.live _ _) hcall.inside hexec
  have hprocess : (σ.afterCall call s).process = σ.process := funext fun c => (htlbs c).1
  have hrunning : (m.after 0 (call.event result)).running = m.running := by cases call <;> rfl
  refine ⟨hfits.anchor, hstored, live_afterCall hm.live, ?_, fun q u => ?_⟩
  · rw [hrunning, hm.running, hprocess]
  · rw [frame?_afterCall]
    exact hpages q u

theorem Shows.fault (hm : σ.Shows m) (h : σ.Inv base used node mapped)
    (hcall : call.AccessesLine) (hexec : call.exec σ.sim = .ok (s, result))
    (hpa : call.physicalAddress σ.sim = none) (hpage : (σ.pageOf call).frame? = none) :
    m.Allows (call.event result) ∧ (σ.afterCall call s).Shows (m.after 0 (call.event result)) := by
  obtain ⟨t, hok, hsame⟩ := Call.exec_pageFault hpa
  rw [hok] at hexec
  obtain ⟨rfl, rfl⟩ := Prod.mk.inj (Except.ok.inj hexec)
  have hflat : t.flatPage = σ.sim.flatPage := by
    funext frame i
    unfold Sim.flatPage Sim.flatByte
    rw [hsame.mem, hsame.history]
  have hstored : t.StoredWithin σ.framePages :=
    hm.stored.of_flat fun _ _ _ => by rw [hsame.history]
  have hnone : m.pages (m.running call.coreId) (pagePath call.virtualAddress) = none := by
    rw [hm.pages_call, hpage]
    rfl
  have hpages : ∀ q u, m.pages q u = (σ.pages q u).frame?.map t.flatPage := by
    rw [hflat]
    exact hm.pages
  refine ⟨?_, hm.afterCall h hcall hok (hm.fits.of_sameCaches hsame) hstored fun q u => ?_⟩
  · cases call with
    | write => exact (congrArg Option.isSome hnone).symm
    | _ => exact (congrArg (Option.map _) hnone).symm
  · cases call with
    | write c va data =>
        change (m.setPage (m.running c) (pagePath va) _).pages q u = _
        rw [VirtualMemory.State.setPage_pages]
        split
        · rename_i hqu
          rw [← hpages, hqu.1, hqu.2]
          exact (congrArg (Option.map _) hnone).trans hnone.symm
        · exact hpages q u
    | _ => exact hpages q u

theorem pageOffset_eq (virtualAddress : Addr) :
    pageOffset virtualAddress = virtualAddress.toNat % 4096 := by
  unfold pageOffset
  rw [BitVec.toNat_and]
  exact Nat.and_two_pow_sub_one_eq_mod _ 12

/-- An access to bytes of one line of a page is one to bytes of one line of its frame. -/
theorem line_of_offset {pa : Addr} {size : ℕ} (haligned : frame.toNat % 4096 = 0)
    (hval : pa.toNat = frame.toNat + pageOffset virtualAddress)
    (hline : l1ToOffset virtualAddress + size ≤ 64) :
    l1ToOffset pa + size ≤ 64 ∧ pageOffset virtualAddress + size ≤ 4096 ∧
      CacheSimulator.pageOf (lineNo pa) = frame.toNat / 4096 := by
  rw [pageOffset_eq] at hval ⊢
  rw [l1ToOffset_eq] at hline ⊢
  unfold CacheSimulator.pageOf lineNo
  dsimp only
  omega

theorem Shows.read {c : CoreId} {pa : Addr} {size : ℕ} (hm : σ.Shows m)
    (h : σ.Inv base used node mapped) (hfit : RoomInL2 σ.framePages)
    (hcall : (Call.read c virtualAddress size).AccessesLine)
    (hexec : (Call.read c virtualAddress size).exec σ.sim = .ok (s, result))
    (hpa : (Call.read c virtualAddress size).physicalAddress σ.sim = some pa)
    (hframe : (σ.pageOf (.read c virtualAddress size)).frame? = some frame)
    (hval : pa.toNat = frame.toNat + pageOffset virtualAddress) :
    m.Allows ((Call.read c virtualAddress size).event result) ∧
      (σ.afterCall (.read c virtualAddress size) s).Shows
        (m.after 0 ((Call.read c virtualAddress size).event result)) := by
  obtain ⟨-, haligned, hmem⟩ := h.frame_mem hframe
  have hoffset : l1ToOffset virtualAddress + size ≤ 64 := hcall.line
  obtain ⟨hline, hin, hpage⟩ := line_of_offset haligned hval hoffset
  have hloads : Sim.Loads σ.framePages .data c pa size σ.sim (s, result) :=
    (Call.exec_fits h.caches hm.fits.within hfit hpa (hpage ▸ hmem)).of_eq_ok hexec
  have hreads : Sim.Reads σ.sim pa size _ (s, result) :=
    (Call.exec_spec h.caches hpa).of_eq_ok hexec
  obtain ⟨demand, hserves⟩ := hloads.serves
  have hfits : s.Fits σ.framePages σ.sim := hm.fits.serves hserves
  have hm' : m.pages (m.running c) (pagePath virtualAddress) = some (σ.sim.flatPage frame) :=
    (hm.pages_call (.read c virtualAddress size)).trans (congrArg (Option.map _) hframe)
  refine ⟨?_, hm.afterCall h hcall hexec hfits (hreads.storedWithin hm.stored) fun q u => ?_⟩
  · change result = (m.pages (m.running c) (pagePath virtualAddress)).map _
    have hload : VirtualMemory.load (σ.sim.flatPage frame) (pageOffset virtualAddress) size =
        (List.range size).map fun j =>
          σ.sim.flatByte (frame.toNat + (pageOffset virtualAddress + j)) :=
      VirtualMemory.load_eq (fun n => σ.sim.flatByte (frame.toNat + n)) (fun _ => rfl) hin
    rw [hm', Option.map_some]
    have hresult := hm.fits.delivers hloads hreads hline
    rw [slice_flatLines _ _ hline] at hresult
    refine hresult.trans (congrArg some (Eq.trans ?_ hload.symm))
    refine List.map_congr_left fun j _ => ?_
    rw [hval, Nat.add_assoc]
    rfl
  · refine hm.pages_eq fun f hf => funext fun i => ?_
    exact hreads.flatByte hfits (byte_lt (h.frame_mem hf).2.1 i).2

theorem Shows.write {c : CoreId} {pa : Addr} {data : List Byte} (hm : σ.Shows m)
    (h : σ.Inv base used node mapped) (hfit : RoomInL2 σ.framePages)
    (hcall : (Call.write c virtualAddress data).AccessesLine)
    (hexec : (Call.write c virtualAddress data).exec σ.sim = .ok (s, result))
    (hpa : (Call.write c virtualAddress data).physicalAddress σ.sim = some pa)
    (hframe : (σ.pageOf (.write c virtualAddress data)).frame? = some frame)
    (hval : pa.toNat = frame.toNat + pageOffset virtualAddress) :
    m.Allows ((Call.write c virtualAddress data).event result) ∧
      (σ.afterCall (.write c virtualAddress data) s).Shows
        (m.after 0 ((Call.write c virtualAddress data).event result)) := by
  obtain ⟨-, haligned, hmem⟩ := h.frame_mem hframe
  obtain ⟨hline, hin, hpage⟩ := line_of_offset haligned hval hcall.line
  have hpages := hpage ▸ hmem
  have hstores : Sim.Stores σ.framePages c pa data σ.sim (s, result) :=
    (Call.exec_fits h.caches hm.fits.within hfit hpa hpages).of_eq_ok hexec
  have hwrites : Sim.Writes σ.sim pa data (s, result) :=
    (Call.exec_spec h.caches hpa).of_eq_ok hexec
  obtain ⟨demand, hserves⟩ := hstores.serves
  have hfits : s.Fits σ.framePages σ.sim := hm.fits.serves hserves
  have hm' : m.pages (m.running c) (pagePath virtualAddress) = some (σ.sim.flatPage frame) :=
    (hm.pages_call (.write c virtualAddress data)).trans (congrArg (Option.map _) hframe)
  have hstored := hwrites.storedWithin hpages hm.stored
  refine ⟨?_, hm.afterCall h hcall hexec hfits hstored fun q u => ?_⟩
  · change result.isSome = (m.pages (m.running c) (pagePath virtualAddress)).isSome
    rw [hm', show result = some [] from hwrites.result]
    rfl
  · change (m.setPage (m.running c) (pagePath virtualAddress) _).pages q u = _
    rw [VirtualMemory.State.setPage_pages, hm']
    split
    · rename_i hqu
      have hf : (σ.pages q u).frame? = some frame := by
        rw [hqu.1, hqu.2, hm.running]
        exact hframe
      rw [hf]
      refine congrArg some (funext fun i => ?_)
      unfold VirtualMemory.store Sim.flatPage
      rw [hwrites.flatByte hfits (byte_lt haligned i).2, hval]
      simp only [Nat.add_le_add_iff_left, Nat.add_sub_add_left]
    · rename_i hqu
      refine hm.pages_eq fun f hf => funext fun i => ?_
      -- the frame is another one, which the store does not reach
      have hne : f ≠ frame := by
        rintro rfl
        have heq := h.distinct _ _ _ _ _ hf hframe
        exact hqu (hm.running ▸ heq)
      have hother := (h.frame_mem hf).2.1
      have hfar : f.toNat / 4096 ≠ frame.toNat / 4096 := fun heq =>
        hne (BitVec.eq_of_toNat_eq (by omega))
      unfold Sim.flatPage
      rw [hwrites.flatByte hfits (byte_lt hother i).2]
      split
      · rename_i hle
        rw [List.getElem?_eq_none, Option.getD_none]
        have := i.isLt
        change pageOffset virtualAddress + data.length ≤ 4096 at hin
        omega
      · rfl

/-- A call that returns does what the memory does. -/
theorem Shows.step (hm : σ.Shows m) (h : σ.Inv base used node mapped) (hfit : RoomInL2 σ.framePages)
    (hcall : call.AccessesLine) (hexec : call.exec σ.sim = .ok (s, result)) :
    m.Allows (call.event result) ∧ (σ.afterCall call s).Shows (m.after 0 (call.event result)) := by
  rcases h.physicalAddress_cases (hm.live _ _) hcall with
    ⟨hpa, hpage⟩ | ⟨frame, pa, hpa, hpage, hval⟩
  · exact hm.fault h hcall hexec hpa hpage
  · cases call with
    | read => exact hm.read h hfit hcall hexec hpa hpage hval
    | write => exact hm.write h hfit hcall hexec hpa hpage hval
    | fetch => exact hcall.isData.elim

theorem Shows.returns (hm : σ.Shows m) (h : σ.Inv base used node mapped)
    (hsize : σ.sim.mem.size.toNat < 2 ^ 63) (hcall : call.AccessesLine) :
    ∃ s result, call.exec σ.sim = .ok (s, result) := by
  have hline : call.InOneLine σ.sim := by
    intro pa hpa
    rcases h.physicalAddress_cases (hm.live _ _) hcall with
      ⟨hnone, -⟩ | ⟨frame, pa', hpa', hpage, hval⟩
    · rw [hnone] at hpa
      cases hpa
    · obtain rfl := Option.some.inj (hpa'.symm.trans hpa)
      obtain ⟨hused, haligned, -⟩ := h.frame_mem hpage
      obtain ⟨hline, hin, -⟩ := line_of_offset haligned hval hcall.line
      refine ⟨hline, ?_⟩
      have hlimit := (h.owns.inUse frame hused).1.inLimit
      have hmemory := h.owns.limit
      have hoffset := Nat.mod_lt call.virtualAddress.toNat (show 0 < 4096 by decide)
      rw [pageOffset_eq] at hval
      rw [toLineBase_toNat]
      omega
  obtain ⟨⟨s, result⟩, hexec⟩ := h.caches.exec_returns hcall.isData hline hsize
  exact ⟨s, result, hexec⟩

end PageSystem

end CacheSimulator
