import CacheSimulator.Library.Lookaside
import CacheSimulator.Os
import CacheSimulator.Refinement.Address

/-!
# Translation

A TLB set remembers, for virtual page numbers, the frames that the page walk
finds. When all leaves of the page tables are page-aligned, a TLB that remembers
nothing else is transparent: with its help or without it, an address is
translated to the same physical address.
-/

namespace CacheSimulator

open Lookaside

/-! ## The page walk -/

/-- The level loop of `page_walk`, up to the address in the leaf. -/
def walkLeafFrom (mem : Memory) (virtualAddress : Addr) : ℕ → PageTable → Option Addr
  | 0, table =>
      let entry := table (pageIndex virtualAddress 0)
      if !entry.present then none else some entry.physicalAddress
  | level + 1, table =>
      let entry := table (pageIndex virtualAddress (level + 1))
      if !entry.present then none
      else if mem.size.toNat < pageTableSize ∨
          entry.physicalAddress > mem.size - BitVec.ofNat 64 pageTableSize then none
      else walkLeafFrom mem virtualAddress level (mem.pageTableAt entry.physicalAddress)

/-- The frame address in the leaf of the page, as the tables have it. -/
def walkLeaf (pml4 : PageTable) (mem : Memory) (virtualAddress : Addr) : Option Addr :=
  walkLeafFrom mem virtualAddress 3 pml4

def PageAligned (frame : Addr) : Prop := frame &&& 0xFFF#64 = 0#64

variable {pml4 : PageTable} {mem : Memory} {virtualAddress : Addr}

theorem pageWalkFrom_eq_map (level : ℕ) (table : PageTable) :
    pageWalkFrom mem virtualAddress level table =
      (walkLeafFrom mem virtualAddress level table).map
        (· ||| (virtualAddress &&& 0xFFF#64)) := by
  induction level generalizing table with
  | zero =>
      unfold pageWalkFrom walkLeafFrom
      dsimp only
      split
      · rfl
      · rfl
  | succ level ih =>
      unfold pageWalkFrom walkLeafFrom
      dsimp only
      split
      · rfl
      · split
        · rfl
        · exact ih _

theorem pageWalk_eq_map : pageWalk pml4 mem virtualAddress =
    (walkLeaf pml4 mem virtualAddress).map (· ||| (virtualAddress &&& 0xFFF#64)) :=
  pageWalkFrom_eq_map 3 pml4

theorem walkLeafFrom_congr {a b : Addr} (h : ∀ level, pageIndex a level = pageIndex b level)
    (level : ℕ) (table : PageTable) :
    walkLeafFrom mem a level table = walkLeafFrom mem b level table := by
  induction level generalizing table with
  | zero =>
      unfold walkLeafFrom
      rw [h 0]
  | succ level ih =>
      unfold walkLeafFrom
      rw [h (level + 1)]
      dsimp only
      split
      · rfl
      · split
        · rfl
        · exact ih _

theorem walkLeafFrom_zero_eq_some {table : PageTable} {frame : Addr}
    (h : walkLeafFrom mem virtualAddress 0 table = some frame) :
    ∃ i, (table i).present = true ∧ (table i).physicalAddress = frame := by
  unfold walkLeafFrom at h
  dsimp only at h
  split at h
  · cases h
  · rename_i hpresent
    exact ⟨_, by simpa using hpresent, Option.some.inj h⟩

theorem walkLeafFrom_succ_eq_some {level : ℕ} {table : PageTable} {frame : Addr}
    (h : walkLeafFrom mem virtualAddress (level + 1) table = some frame) :
    ∃ i, (table i).present = true ∧
      walkLeafFrom mem virtualAddress level (mem.pageTableAt (table i).physicalAddress) =
        some frame := by
  unfold walkLeafFrom at h
  dsimp only at h
  split at h
  · cases h
  · rename_i hpresent
    split at h
    · cases h
    · exact ⟨_, by simpa using hpresent, h⟩

/-- The slots of a walk are bits of the virtual page number. -/
theorem pageIndex_congr {a b : Addr} (h : toFrame a = toFrame b) (level : ℕ) :
    pageIndex a level = pageIndex b level := by
  apply Fin.ext
  unfold pageIndex
  dsimp only
  rw [BitVec.shiftRight_add, BitVec.shiftRight_add]
  exact congrArg (fun frame : Addr => ((frame >>> (level * 9)) &&& 0x1FF#64).toNat) h

theorem walkLeaf_congr {a b : Addr} (h : toFrame a = toFrame b) :
    walkLeaf pml4 mem a = walkLeaf pml4 mem b := walkLeafFrom_congr (pageIndex_congr h) 3 pml4

/-- The leaf of every page that is mapped holds a page-aligned frame. -/
def AlignedLeaves (pml4 : PageTable) (mem : Memory) : Prop :=
  ∀ virtualAddress frame, walkLeaf pml4 mem virtualAddress = some frame → PageAligned frame

theorem toFrame_page (virtualAddress : Addr) :
    toFrame (toFrame virtualAddress <<< 12) = toFrame virtualAddress := by
  unfold toFrame
  ext i hi
  simp only [BitVec.getElem_ushiftRight, BitVec.getLsbD_shiftLeft, BitVec.getLsbD_ushiftRight]
  grind

theorem toFrame_or_offset (frame virtualAddress : Addr) :
    toFrame (frame ||| (virtualAddress &&& 0xFFF#64)) = toFrame frame := by
  have hoffset : (virtualAddress &&& 0xFFF#64) >>> 12 = 0 := by
    rw [BitVec.ushiftRight_and_distrib]
    exact BitVec.and_zero
  unfold toFrame
  rw [BitVec.ushiftRight_or_distrib, hoffset]
  exact BitVec.or_zero

theorem toAddress_toFrame {frame : Addr} (h : PageAligned frame) (offset : Addr) :
    toAddress (toFrame frame) offset = frame ||| offset := by
  have hsplit : (frame &&& ~~~0xFFF#64) ||| (frame &&& 0xFFF#64) = frame := by
    rw [← BitVec.and_or_distrib_left, BitVec.or_comm, BitVec.or_not_self, BitVec.and_allOnes]
  have hpage : (frame >>> 12) <<< 12 = frame := by
    rw [h, BitVec.or_zero] at hsplit
    rw [← and_not_low]
    exact hsplit
  unfold toAddress toFrame
  rw [hpage]

/-- The frame number the walk finds for a virtual page number. -/
def frameOf (pml4 : PageTable) (mem : Memory) (virtualPageNum : Addr) : Option Addr :=
  (walkLeaf pml4 mem (virtualPageNum <<< 12)).map toFrame

theorem frameOf_toFrame : frameOf pml4 mem (toFrame virtualAddress) =
    (walkLeaf pml4 mem virtualAddress).map toFrame := by
  unfold frameOf
  rw [walkLeaf_congr (toFrame_page virtualAddress)]

theorem frameOf_of_pageWalk {physicalAddress : Addr}
    (h : pageWalk pml4 mem virtualAddress = some physicalAddress) :
    frameOf pml4 mem (toFrame virtualAddress) = some (toFrame physicalAddress) := by
  rw [pageWalk_eq_map] at h
  obtain ⟨leaf, hleaf, rfl⟩ := Option.map_eq_some_iff.mp h
  rw [frameOf_toFrame, hleaf, Option.map_some, toFrame_or_offset]

/-- The walk of the address finds the frame number that `f` has for its page. -/
structure WalkFinds (f : Addr → Option Addr) (pml4 : PageTable) (mem : Memory)
    (virtualAddress : Addr) : Prop where
  hit : ∀ frame, f (toFrame virtualAddress) = some frame →
    pageWalk pml4 mem virtualAddress = some (toAddress frame (virtualAddress &&& 0xFFF#64))
  fill : ∀ physicalAddress, pageWalk pml4 mem virtualAddress = some physicalAddress →
    f (toFrame virtualAddress) = some (toFrame physicalAddress)

/-- With page-aligned leaves, a frame number is all that the walk finds. -/
theorem AlignedLeaves.walkFinds (h : AlignedLeaves pml4 mem) (virtualAddress : Addr) :
    WalkFinds (frameOf pml4 mem) pml4 mem virtualAddress := by
  refine ⟨fun frame hframe => ?_, fun _ => frameOf_of_pageWalk⟩
  rw [frameOf_toFrame] at hframe
  obtain ⟨leaf, hleaf, rfl⟩ := Option.map_eq_some_iff.mp hframe
  rw [pageWalk_eq_map, hleaf, toAddress_toFrame (h _ _ hleaf)]
  rfl

/-! ## TLB sets -/

namespace TLBSet

def slots (set : TLBSet) : Fin 4 → Option (Addr × Addr) := fun way =>
  if set.valid way then some (set.virtualPageNum way, set.physicalFrame way) else none

variable {set set' : TLBSet} {virtualPageNum physicalFrame : Addr}

theorem slots_eq_some {way : Fin 4} : set.slots way = some (virtualPageNum, physicalFrame) ↔
    set.valid way = true ∧ set.virtualPageNum way = virtualPageNum ∧
      set.physicalFrame way = physicalFrame := by
  unfold slots
  split
  · rename_i hvalid
    rw [Option.some.injEq, Prod.mk.injEq, and_iff_right hvalid]
  · rename_i hvalid
    simp [hvalid]

theorem slots_flush (set : TLBSet) (way : Fin 4) : set.flush.slots way = none :=
  if_neg (by simp [flush])

theorem tlbLookup_hit (h : tlbLookup set virtualPageNum = (some physicalFrame, set')) :
    (∃ way, set.slots way = some (virtualPageNum, physicalFrame)) ∧ set'.slots = set.slots := by
  unfold tlbLookup at h
  split at h
  · rename_i way hway
    obtain ⟨hframe, rfl⟩ := Prod.mk.inj h
    have hfound := List.find?_some hway
    rw [Bool.and_eq_true, beq_iff_eq] at hfound
    exact ⟨⟨way, slots_eq_some.mpr ⟨hfound.1, hfound.2, Option.some.inj hframe⟩⟩, rfl⟩
  · cases (Prod.mk.inj h).1

theorem tlbLookup_miss (h : tlbLookup set virtualPageNum = (none, set')) :
    set' = set ∧ ∀ way physicalFrame, set.slots way ≠ some (virtualPageNum, physicalFrame) := by
  unfold tlbLookup at h
  split at h
  · cases (Prod.mk.inj h).1
  · rename_i hnone
    refine ⟨(Prod.mk.inj h).2.symm, fun way physicalFrame hslot => ?_⟩
    obtain ⟨hvalid, hpage, -⟩ := slots_eq_some.mp hslot
    have hnot := List.find?_eq_none.mp hnone way (List.mem_finRange way)
    rw [hvalid, hpage, beq_self_eq_true] at hnot
    exact hnot rfl

theorem slots_tlbFill (set : TLBSet) (virtualPageNum physicalFrame : Addr) :
    (tlbFill set virtualPageNum physicalFrame).slots =
      Function.update set.slots (tlbFillWay set) (some (virtualPageNum, physicalFrame)) := by
  funext way
  unfold slots tlbFill
  dsimp only
  by_cases hway : way = tlbFillWay set
  · subst hway
    simp only [Function.update_self, if_true]
  · simp only [Function.update_of_ne hway]

end TLBSet

/-! ## Cores -/

namespace Sim

theorem translateData_snd (s : Sim) (c : CoreId) (virtualAddress : Addr) :
    (translateData s c virtualAddress).2 = s.modifyCore c fun core =>
      let tlbs := (translate2 (s.cpu.cores c).l1Dtlb (s.cpu.cores c).l2Dtlb
        (s.pml4s (s.cpu.cores c).activePml4) s.mem virtualAddress).2
      { core with l1Dtlb := tlbs.1, l2Dtlb := tlbs.2 } := rfl

theorem translateInstr_snd (s : Sim) (c : CoreId) (virtualAddress : Addr) :
    (translateInstr s c virtualAddress).2 = s.modifyCore c fun core =>
      { core with
        itlb := (translate (s.cpu.cores c).itlb (s.pml4s (s.cpu.cores c).activePml4) s.mem
          virtualAddress).2 } := rfl

end Sim

/-! ## Transparency -/

/-- Every valid entry of the TLB is the frame number that `f` has for its page, and
no set has two entries for a page. -/
def TLBCaches {sets : ℕ} (f : Addr → Option Addr) (tlb : Fin sets → TLBSet) : Prop :=
  ∀ i, Caches f (tlb i).slots

theorem tlbCaches_flush {f : Addr → Option Addr} {sets : ℕ} (tlb : Fin sets → TLBSet) :
    TLBCaches f fun i => (tlb i).flush := fun i =>
  Lookaside.caches_empty (TLBSet.slots_flush (tlb i))

namespace TLBCaches

variable {f : Addr → Option Addr} {sets sets1 sets2 : ℕ} [NeZero sets] [NeZero sets1] [NeZero sets2]
  {tlb : Fin sets → TLBSet} {tlb1 : Fin sets1 → TLBSet} {tlb2 : Fin sets2 → TLBSet}

omit [NeZero sets] in
theorem setSet (h : TLBCaches f tlb) {i : Fin sets} {set : TLBSet}
    (hset : Caches f set.slots) :
    TLBCaches f (Function.update tlb i set) := by
  intro j
  rw [Function.update_apply]
  split
  · exact hset
  · exact h j

omit [NeZero sets] in
theorem fill (h : TLBCaches f tlb) {i : Fin sets} {virtualPageNum physicalFrame : Addr}
    (hframe : f virtualPageNum = some physicalFrame)
    (hmiss : ∀ way x, (tlb i).slots way ≠ some (virtualPageNum, x)) :
    TLBCaches f
      (Function.update tlb i (tlbFill (tlb i) virtualPageNum physicalFrame)) := by
  refine h.setSet ?_
  rw [TLBSet.slots_tlbFill]
  exact (h i).fill hframe hmiss _

omit [NeZero sets] in
theorem hit (h : TLBCaches f tlb) {i : Fin sets} {set : TLBSet}
    {virtualPageNum physicalFrame : Addr}
    (hlookup : tlbLookup (tlb i) virtualPageNum = (some physicalFrame, set)) :
    f virtualPageNum = some physicalFrame ∧
      TLBCaches f (Function.update tlb i set) := by
  obtain ⟨⟨way, hway⟩, hslots⟩ := TLBSet.tlbLookup_hit hlookup
  exact ⟨(h i).sound way _ _ hway, h.setSet (hslots ▸ h i)⟩

/-- The one-level `translate` finds what the walk finds, and a page fault leaves
the TLB as it was. -/
theorem translate (h : TLBCaches f tlb) (hva : WalkFinds f pml4 mem virtualAddress) :
    (translate tlb pml4 mem virtualAddress).1 = pageWalk pml4 mem virtualAddress ∧
      TLBCaches f (CacheSimulator.translate tlb pml4 mem virtualAddress).2 ∧
        (pageWalk pml4 mem virtualAddress = none →
          (CacheSimulator.translate tlb pml4 mem virtualAddress).2 = tlb) := by
  unfold CacheSimulator.translate
  dsimp only
  cases hlookup : tlbLookup (tlb (tlbIndex sets (toFrame virtualAddress)))
    (toFrame virtualAddress) with
  | mk found set =>
    cases found with
    | some physicalFrame =>
        obtain ⟨hframe, htlb⟩ := h.hit hlookup
        have hwalk := hva.hit _ hframe
        exact ⟨hwalk.symm, htlb,
          fun hnone => absurd (hwalk.symm.trans hnone) (Option.some_ne_none _)⟩
    | none =>
        obtain ⟨rfl, hmiss⟩ := TLBSet.tlbLookup_miss hlookup
        simp only [Function.update_eq_self]
        cases hwalk : pageWalk pml4 mem virtualAddress with
        | some physicalAddress =>
            exact ⟨rfl, h.fill (hva.fill _ hwalk) hmiss,
              fun hnone => absurd hnone (Option.some_ne_none _)⟩
        | none => exact ⟨rfl, h, fun _ => rfl⟩

/-- The two-level `translate`: a hit in the second TLB fills the first one, and a
walk fills both. -/
theorem translate2 (h1 : TLBCaches f tlb1) (h2 : TLBCaches f tlb2)
    (hva : WalkFinds f pml4 mem virtualAddress) :
    (translate2 tlb1 tlb2 pml4 mem virtualAddress).1 = pageWalk pml4 mem virtualAddress ∧
      TLBCaches f (CacheSimulator.translate2 tlb1 tlb2 pml4 mem virtualAddress).2.1 ∧
        TLBCaches f (CacheSimulator.translate2 tlb1 tlb2 pml4 mem virtualAddress).2.2 ∧
          (pageWalk pml4 mem virtualAddress = none →
            (CacheSimulator.translate2 tlb1 tlb2 pml4 mem virtualAddress).2 = (tlb1, tlb2)) := by
  unfold CacheSimulator.translate2
  dsimp only
  cases hlookup1 : tlbLookup (tlb1 (tlbIndex sets1 (toFrame virtualAddress)))
      (toFrame virtualAddress) with
  | mk found1 set1 =>
    cases found1 with
    | some physicalFrame =>
        obtain ⟨hframe, htlb1⟩ := h1.hit hlookup1
        have hwalk := hva.hit _ hframe
        exact ⟨hwalk.symm, htlb1, h2,
          fun hnone => absurd (hwalk.symm.trans hnone) (Option.some_ne_none _)⟩
    | none =>
        obtain ⟨rfl, hmiss1⟩ := TLBSet.tlbLookup_miss hlookup1
        simp only [Function.update_eq_self]
        cases hlookup2 : tlbLookup (tlb2 (tlbIndex sets2 (toFrame virtualAddress)))
            (toFrame virtualAddress) with
        | mk found2 set2 =>
          cases found2 with
          | some physicalFrame =>
              obtain ⟨hframe, htlb2⟩ := h2.hit hlookup2
              have hwalk := hva.hit _ hframe
              exact ⟨hwalk.symm, h1.fill hframe hmiss1, htlb2,
                fun hnone => absurd (hwalk.symm.trans hnone) (Option.some_ne_none _)⟩
          | none =>
              obtain ⟨rfl, hmiss2⟩ := TLBSet.tlbLookup_miss hlookup2
              simp only [Function.update_eq_self]
              cases hwalk : pageWalk pml4 mem virtualAddress with
              | some physicalAddress =>
                  have hframe := hva.fill _ hwalk
                  exact ⟨rfl, h1.fill hframe hmiss1, h2.fill hframe hmiss2,
                    fun hnone => absurd hnone (Option.some_ne_none _)⟩
              | none => exact ⟨rfl, h1, h2, fun _ => rfl⟩

end TLBCaches

end CacheSimulator
