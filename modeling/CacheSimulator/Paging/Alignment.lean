import CacheSimulator.Library.Outcome
import CacheSimulator.Paging.Entries
import CacheSimulator.Paging.PageInvariant

/-!
# Aligned tables

Frames start on page boundaries and entries on 16-byte boundaries, so a table that runs
into the next frame reads entries of that frame's table and nothing in between. Whatever
`alloc_and_map` is called for, every walk then finds a frame on a page boundary.
-/

namespace CacheSimulator

variable {mem mem' : Memory} {frame : Addr}

/-- Every 16-byte slot of memory holds an entry that is not present or whose frame lies
on a page boundary. -/
def Memory.EntriesAligned (mem : Memory) : Prop :=
  ∀ n, n % 16 = 0 → mem.data (n + 8) ≠ 0 → (mem.word n).toNat % 4096 = 0

namespace Memory.EntriesAligned

theorem of_zero (h : ∀ n, mem.data n = 0) : mem.EntriesAligned := fun _ _ hn => absurd (h _) hn

theorem zeroFrame (h : mem.EntriesAligned) (haligned : frame.toNat % 4096 = 0)
    (hzero : mem.zeroFrame frame = .ok mem') : mem'.EntriesAligned := by
  unfold Memory.zeroFrame at hzero
  split at hzero
  · obtain rfl := Except.ok.inj hzero
    intro n hn hpresent
    dsimp only at hpresent
    split at hpresent
    · exact absurd rfl hpresent
    · rename_i hout
      rw [word_congr fun m hm hlt => ?_]
      · exact h n hn hpresent
      · exact if_neg (by omega)
  · cases hzero

theorem storeEntry {start : ℕ} {entry : PageTableEntry} (h : mem.EntriesAligned)
    (hstart : start % 16 = 0) (haligned : entry.physicalAddress.toNat % 4096 = 0) :
    (mem.storeEntry start entry).EntriesAligned := by
  intro n hn hpresent
  by_cases heq : n = start
  · rw [heq, word_storeEntry]
    exact haligned
  · rw [data_storeEntry (by omega)] at hpresent
    rw [word_congr fun m hm hlt => data_storeEntry (by omega)]
    exact h n hn hpresent

theorem pageTableAt {pa : Addr} (h : mem.EntriesAligned) (haligned : pa.toNat % 4096 = 0)
    {i : Fin 512} (hpresent : (mem.pageTableAt pa i).present = true) :
    (mem.pageTableAt pa i).physicalAddress.toNat % 4096 = 0 := by
  refine h _ (by dsimp only [pageTableEntrySize]; omega) fun hzero => ?_
  rw [not_present_of_zero hzero] at hpresent
  cases hpresent

end Memory.EntriesAligned

/-! ## The walk -/

def PageTable.EntriesAligned (table : PageTable) : Prop :=
  ∀ i, (table i).present = true → (table i).physicalAddress.toNat % 4096 = 0

theorem PageTable.EntriesAligned.walkLeafFrom {table : PageTable} {virtualAddress : Addr}
    {level : ℕ} (htable : table.EntriesAligned) (h : mem.EntriesAligned)
    (hleaf : walkLeafFrom mem virtualAddress level table = some frame) :
    frame.toNat % 4096 = 0 := by
  induction level generalizing table with
  | zero =>
      obtain ⟨i, hi, rfl⟩ := walkLeafFrom_zero_eq_some hleaf
      exact htable i hi
  | succ level ih =>
      obtain ⟨i, hi, hnext⟩ := walkLeafFrom_succ_eq_some hleaf
      exact ih (fun j hj => h.pageTableAt (htable i hi) hj) hnext

theorem PageTable.EntriesAligned.alignedLeaves {pml4 : PageTable} (hroot : pml4.EntriesAligned)
    (h : mem.EntriesAligned) : AlignedLeaves pml4 mem :=
  fun _ _ hleaf => pageAligned_iff.mpr (hroot.walkLeafFrom h hleaf)

/-! ## Allocations -/

theorem add_pageSize_aligned (h : frame.toNat % 4096 = 0) :
    (frame + pageSize).toNat % 4096 = 0 := by
  have hsize : pageSize.toNat = 4096 := by decide
  rw [BitVec.toNat_add, hsize]
  omega

namespace FrameAllocator

/-- The frames that the allocator may hand out start on page boundaries. -/
structure Aligned (fa : FrameAllocator) : Prop where
  watermark : fa.watermark.toNat % 4096 = 0
  freeList : ∀ frame ∈ fa.freeList, frame.toNat % 4096 = 0

theorem Aligned.allocFrame {fa : FrameAllocator} (h : fa.Aligned) (hmem : mem.EntriesAligned) :
    (allocFrame fa mem).Sat
      (fun r => (r.1 ≠ uint64Max → r.1.toNat % 4096 = 0) ∧ r.2.1.Aligned ∧ r.2.2.EntriesAligned)
      fun _ => True := by
  unfold CacheSimulator.allocFrame
  have hnext := add_pageSize_aligned h.watermark
  generalize fa.watermark + pageSize = next at hnext ⊢
  split
  · rename_i pa rest hlist
    have hpa := h.freeList pa (by rw [hlist]; exact List.mem_cons_self)
    refine Except.Sat.bind (Except.sat_returned _) fun mem' hzero => ?_
    rw [Except.sat_ok]
    refine ⟨fun _ => hpa, ⟨h.watermark, fun frame hframe => h.freeList frame ?_⟩,
      hmem.zeroFrame hpa hzero⟩
    rw [hlist]
    exact List.mem_cons_of_mem _ hframe
  · rename_i hlist
    split
    · rw [Except.sat_ok]
      exact ⟨fun hne => absurd rfl hne, h, hmem⟩
    · refine Except.Sat.bind (Except.sat_returned _) fun mem' hzero => ?_
      rw [Except.sat_ok]
      exact ⟨fun _ => h.watermark, ⟨hnext, h.freeList⟩, hmem.zeroFrame h.watermark hzero⟩

end FrameAllocator

structure Os.Aligned (s : Os) : Prop where
  root : s.proc.pml4.EntriesAligned
  fa : s.fa.Aligned
  mem : s.mem.EntriesAligned

def TablePtr.Aligned : TablePtr → Prop
  | .root => True
  | .inMemory pa => pa.toNat % 4096 = 0

namespace Os.Aligned

variable {s : Os} {table : TablePtr} {i : Fin 512}

theorem entry (h : s.Aligned) (htable : table.Aligned)
    (hpresent : (s.entry table i).present = true) :
    (s.entry table i).physicalAddress.toNat % 4096 = 0 := by
  cases table with
  | root => exact h.root i hpresent
  | inMemory pa => exact h.mem.pageTableAt htable hpresent

theorem setEntry {entry : PageTableEntry} (h : s.Aligned) (htable : table.Aligned)
    (haligned : entry.physicalAddress.toNat % 4096 = 0) : (s.setEntry table i entry).Aligned := by
  cases table with
  | root =>
      refine ⟨fun j hj => ?_, h.fa, h.mem⟩
      change (Function.update s.proc.pml4 i entry j).present = true at hj
      change (Function.update s.proc.pml4 i entry j).physicalAddress.toNat % 4096 = 0
      by_cases hji : j = i
      · rwa [hji, Function.update_self]
      · rw [Function.update_of_ne hji] at hj ⊢
        exact h.root j hj
  | inMemory pa =>
      refine ⟨h.root, h.fa, h.mem.storeEntry ?_ haligned⟩
      have hpa : pa.toNat % 4096 = 0 := htable
      dsimp only [pageTableEntrySize]
      omega

theorem mapPageFrom {virtualAddress pa : Addr} {writable user : Bool} {level : ℕ} (h : s.Aligned)
    (htable : table.Aligned) (hpa : pa.toNat % 4096 = 0) :
    (mapPageFrom virtualAddress pa writable user level table s).Sat (fun r => r.2.Aligned)
      fun _ => True := by
  induction level generalizing table s with
  | zero =>
      unfold Os.mapPageFrom
      dsimp only
      split
      · exact h.setEntry htable hpa
      · trivial
  | succ level ih =>
      unfold Os.mapPageFrom
      dsimp only
      split
      · split
        · rename_i hpresent
          exact ih h (h.entry htable hpresent)
        · refine Except.Sat.bind (h.fa.allocFrame h.mem) fun r hr => ?_
          obtain ⟨hframe, hfa, hmem⟩ := hr
          have hs : Os.Aligned { s with fa := r.2.1, mem := r.2.2 } := ⟨h.root, hfa, hmem⟩
          split
          · exact hs
          · rename_i hne
            exact ih (hs.setEntry htable (hframe hne)) (hframe hne)
      · trivial

theorem allocAndMap {virtualAddress : Addr} {writable user : Bool} (h : s.Aligned) :
    (s.allocAndMap virtualAddress writable user).Sat (fun r => r.2.Aligned) fun _ => True := by
  unfold Os.allocAndMap
  refine Except.Sat.bind (h.fa.allocFrame h.mem) fun r hr => ?_
  obtain ⟨hframe, hfa, hmem⟩ := hr
  have hs : Os.Aligned { s with fa := r.2.1, mem := r.2.2 } := ⟨h.root, hfa, hmem⟩
  dsimp only
  split
  · exact hs
  · rename_i hne
    have hroot : TablePtr.root.Aligned := trivial
    refine Except.Sat.bind (hs.mapPageFrom hroot (hframe hne)) fun r' hr' => ?_
    split
    · exact hr'
    · refine ⟨hr'.root, ⟨hr'.fa.watermark, fun frame hframe' => ?_⟩, hr'.mem⟩
      rcases List.mem_cons.mp hframe' with rfl | hrest
      · exact hframe hne
      · exact hr'.fa.freeList frame hrest

end Os.Aligned

end CacheSimulator
