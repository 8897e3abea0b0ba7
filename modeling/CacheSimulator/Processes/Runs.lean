import CacheSimulator.Library.VirtualMemory
import CacheSimulator.Paging.Allocations
import CacheSimulator.WorkingSet.Pages

/-!
# Processes

The cores are switched from process to process, which get pages and access them. A
frame that is handed out for the first time is in no cache, and an unmapped page in no
TLB, so that `alloc_and_map` is not seen.
-/

namespace CacheSimulator

open Mesi

/-! ## Runs -/

def pageOffset (virtualAddress : Addr) : ℕ := (virtualAddress &&& 0xFFF#64).toNat

abbrev ProcessEvent := VirtualMemory.Event CoreId ℕ (List (Fin 512)) Byte

def Call.event (call : Call) (result : Option (List Byte)) : ProcessEvent :=
  match call with
  | .read c virtualAddress size =>
      .load c (pagePath virtualAddress) (pageOffset virtualAddress) size result
  | .write c virtualAddress data =>
      .store c (pagePath virtualAddress) (pageOffset virtualAddress) data result.isSome
  | .fetch c virtualAddress size =>
      .load c (pagePath virtualAddress) (pageOffset virtualAddress) size result

/-- A `cpu_read` or `cpu_write` of bytes in one line, in a page whose walk stays in the
frames of its tables. -/
structure Call.AccessesLine (call : Call) : Prop where
  isData : call.IsData
  inside : InFrames (pagePath call.virtualAddress)
  line : l1ToOffset call.virtualAddress + call.dataSize ≤ 64

namespace PageSystem

def afterSwitch (σ : PageSystem) (p : ℕ) : PageSystem :=
  { σ with sim := { σ.sim with cpu := processSwitch σ.sim.cpu p } }

/-- The 4 KB pages of memory that have been mapped. -/
def framePages (σ : PageSystem) : Finset ℕ :=
  (σ.dataFrames.map fun frame => frame.toNat / 4096).toFinset

end PageSystem

/-- Calls of `alloc_and_map` for pages that the process does not have, of
`process_switch`, and of `cpu_read` and `cpu_write`, none of which aborts. -/
inductive ProcessRun (σ₀ : PageSystem) : List ProcessEvent → PageSystem → Prop
  | start : ProcessRun σ₀ [] σ₀
  | alloc {trace : List ProcessEvent} {σ : PageSystem} {frame : Addr} {s : Os} (p : ℕ)
      (virtualAddress : Addr) (writable user : Bool) : ProcessRun σ₀ trace σ →
        σ.pages p (pagePath virtualAddress) = .unmapped → (σ.os p).MapsInside virtualAddress →
          (σ.os p).allocAndMap virtualAddress writable user = .ok (frame, s) →
            ProcessRun σ₀ (trace ++ [.map p (pagePath virtualAddress) (frame != uint64Max)])
              (σ.afterAlloc p virtualAddress frame s)
  | switch {trace : List ProcessEvent} {σ : PageSystem} (p : ℕ) : ProcessRun σ₀ trace σ →
      ProcessRun σ₀ (trace ++ [.switch p]) (σ.afterSwitch p)
  | call {trace : List ProcessEvent} {σ : PageSystem} {s : Sim} {result : Option (List Byte)}
      (call : Call) : ProcessRun σ₀ trace σ → call.AccessesLine →
        call.exec σ.sim = .ok (s, result) →
          ProcessRun σ₀ (trace ++ [call.event result]) (σ.afterCall call s)

/-! ## Frames handed out for the first time -/

namespace FrameAllocator

variable {fa : FrameAllocator} {base : ℕ} {size frame : Addr} {used : Set Addr}

theorem frameTaken_cases (fa : FrameAllocator) (k : ℕ) :
    (∃ free ∈ fa.freeList, fa.frameTaken k = free.toNat) ∨
      fa.frameTaken k = fa.watermark.toNat + 4096 * (k - fa.freeList.length) := by
  unfold frameTaken
  cases hfree : fa.freeList[k]? with
  | none => exact .inr rfl
  | some free => exact .inl ⟨free, List.mem_of_getElem? hfree, rfl⟩

theorem Owns.taken_aligned (h : fa.Owns base size used) (k : ℕ) : fa.frameTaken k % 4096 = 0 := by
  rcases fa.frameTaken_cases k with ⟨free, hfree, heq⟩ | heq
  · rw [heq]
    exact (h.free free hfree).aligned
  · have haligned := h.aligned
    omega

theorem Owns.taken_ne (h : fa.Owns base size used) (hframe : frame ∈ used) (k : ℕ) :
    frame.toNat ≠ fa.frameTaken k := by
  obtain ⟨hallocated, hnot⟩ := h.inUse frame hframe
  rcases fa.frameTaken_cases k with ⟨free, hfree, heq⟩ | heq
  · rw [heq]
    rintro hsame
    exact hnot (BitVec.eq_of_toNat_eq hsame ▸ hfree)
  · have hbelow := hallocated.below
    omega

end FrameAllocator

/-! ## What the caches hold of other frames -/

namespace Sim

variable {pages : Finset ℕ} {s : Sim} {frame : ℕ}

theorem Placed.find_l2_none (h : s.Placed) {a : LineNo} (ha : (s.rep a).l2 = none) :
    l2FindWay (s.l2 (l2Geometry.index a)) (l2Geometry.tag a) = none := by
  cases hf : l2FindWay (s.l2 (l2Geometry.index a)) (l2Geometry.tag a) with
  | none => rfl
  | some w =>
      obtain ⟨e, he⟩ := l2FindWay_eq_some hf
      rw [h.l2_of_slots he] at ha
      cases ha

theorem pageOf_frameLine (haligned : frame % 4096 = 0) (hfits : frame + 4096 ≤ 2 ^ 64)
    (j : Fin 64) :
    pageOf (lineNo (BitVec.ofNat 64 (frame + 64 * j))) = frame / 4096 := by
  have hj := j.isLt
  have hval : (BitVec.ofNat 64 (frame + 64 * j)).toNat = frame + 64 * j := by
    rw [BitVec.toNat_ofNat]
    exact Nat.mod_eq_of_lt (by omega)
  change (BitVec.ofNat 64 (frame + 64 * j)).toNat / 64 / 64 = _
  rw [hval]
  omega

theorem Within.not_found (h : s.Within pages) (hs : s.Inv) {address : Addr}
    (hout : pageOf (lineNo address) ∉ pages) :
    (∀ c, findL1Way (s.l1 .data c (l1ToIndex address)) (l1ToTag address) = none) ∧
      l2FindWay (s.l2 (l2ToIndex address)) (l2ToTag address) = none := by
  have hl2 : (s.rep (lineNo address)).l2 = none := by
    by_contra hne
    exact hout (h.resident _ hne)
  rw [← l1Geometry_index_lineNo, ← l1Geometry_tag_lineNo, ← l2Geometry_index_lineNo,
    ← l2Geometry_tag_lineNo]
  exact ⟨fun c => hs.placed.find_l1_none (hs.l1_eq_none hl2 .data c), hs.placed.find_l2_none hl2⟩

theorem Within.holdsZeros (h : s.Within pages) (hs : s.Inv) (haligned : frame % 4096 = 0)
    (hfits : frame + 4096 ≤ 2 ^ 64) (hout : frame / 4096 ∉ pages) : s.HoldsZeros frame := by
  intro j
  have hnot := h.not_found hs ((pageOf_frameLine haligned hfits j).symm ▸ hout)
  refine ⟨fun c w hw => ?_, fun w hw => ?_⟩
  · rw [hnot.1 c] at hw
    cases hw
  · rw [hnot.2] at hw
    cases hw

theorem Within.holdsClean (h : s.Within pages) (hs : s.Inv) (haligned : frame % 4096 = 0)
    (hfits : frame + 4096 ≤ 2 ^ 64) (hout : frame / 4096 ∉ pages) : s.HoldsClean frame := by
  intro j w hw
  rw [(h.not_found hs ((pageOf_frameLine haligned hfits j).symm ▸ hout)).2] at hw
  cases hw

end Sim

/-! ## The invariant of the pages -/

namespace PageSystem

variable {σ : PageSystem} {base : ℕ} {used : Set Addr} {node : ℕ → List (Fin 512) → Option TablePtr}
  {mapped : ℕ → List (Fin 512) → Option Addr} {frame virtualAddress : Addr} {p : ℕ}

theorem Inv.taken_notMem (h : σ.Inv base used node mapped) (k : ℕ) :
    σ.fa.frameTaken k / 4096 ∉ σ.framePages := by
  unfold framePages
  rw [List.mem_toFinset, List.mem_map]
  rintro ⟨frame, hframe, heq⟩
  have hused := (h.data frame hframe).1
  have hne := h.owns.taken_ne hused k
  have haligned := h.aligned hused
  have htaken := h.owns.taken_aligned k
  omega

/-- A TLB has no entry for a page that is not mapped. -/
theorem agrees_of_unmapped {sets : ℕ} {tlb : Fin sets → TLBSet}
    {mapped : List (Fin 512) → Option Addr}
    (h : TLBCaches (translated mapped) tlb) (hunmapped : mapped (pagePath virtualAddress) = none)
    (taken : ℕ) (i : Fin sets) : (tlb i).Agrees virtualAddress taken := by
  intro way hvalid hpath
  have hsound := (h i).sound way _ _ (TLBSet.slots_eq_some.mpr ⟨hvalid, rfl, rfl⟩)
  unfold translated at hsound
  rw [hpath, hunmapped] at hsound
  split at hsound <;> cases hsound

/-- An allocation for a page that is not mapped is not seen. -/
theorem Inv.mapsUnseen (h : σ.Inv base used node mapped) (hw : σ.sim.Within σ.framePages)
    (hunmapped : σ.pages p (pagePath virtualAddress) = .unmapped)
    (hinside : (σ.os p).MapsInside virtualAddress) : σ.MapsUnseen p virtualAddress := by
  have hnone := h.unmapped p _ hunmapped
  refine ⟨hinside, ?_, fun k hk => ?_, fun c hc => ?_⟩
  · exact hw.holdsZeros h.caches (h.owns.taken_aligned 0) (Nat.le_of_lt hinside.2.1)
      (h.taken_notMem 0)
  · exact hw.holdsClean h.caches (h.owns.taken_aligned (k + 1)) (Nat.le_of_lt (hinside.2.2 k hk).1)
      (h.taken_notMem (k + 1))
  · subst hc
    exact ⟨agrees_of_unmapped (h.l1Dtlb c) hnone _, agrees_of_unmapped (h.l2Dtlb c) hnone _⟩

theorem sameCaches_afterSwitch (σ : PageSystem) (p : ℕ) :
    Sim.SameCaches σ.sim (σ.afterSwitch p).sim := by
  refine ⟨?_, rfl, rfl, rfl, rfl⟩
  funext k c
  cases k <;> rfl

/-- A switch flushes the TLBs, which then agree with any process. -/
theorem Inv.afterSwitch (h : σ.Inv base used node mapped) (p : ℕ) :
    (σ.afterSwitch p).Inv base used node mapped := by
  have hsame := σ.sameCaches_afterSwitch p
  have hrep : (σ.afterSwitch p).sim.rep = σ.sim.rep := hsame.rep
  refine ⟨⟨h.caches.congr hsame, h.maps, h.tables, h.apart, fun q frame hframe a ha => ?_⟩, h.data,
    h.page, h.inside, h.unmapped, h.distinct, fun c => tlbCaches_flush _,
    fun c => tlbCaches_flush _, fun q u frame hfresh a ha => ?_⟩
  · rw [hrep]
    exact h.clean q frame hframe a ha
  · unfold Sim.ZeroLine
    rw [hrep]
    exact h.zero q u frame hfresh a ha

end PageSystem

end CacheSimulator
