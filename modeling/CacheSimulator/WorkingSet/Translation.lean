import CacheSimulator.Paging.Calls
import CacheSimulator.Paging.Entries
import CacheSimulator.Paging.Translation
import CacheSimulator.Contract.WorkingSet

/-!
# Translation on a working set that fits

The page walk reads memory and not the caches. When nothing is written back, it reads
the tables of the first state, whatever the program has stored to their lines, and so
every translation through the TLBs is that of the first state.
-/

namespace CacheSimulator

/-! ## The walk -/

section Walk

variable {mem mem' : Memory} {virtualAddress : Addr}

theorem pageWalkFrom_congr (hsize : mem'.size = mem.size)
    (hdata : ∀ n < mem.size.toNat, mem'.data n = mem.data n) (level : ℕ) (table : PageTable) :
    pageWalkFrom mem' virtualAddress level table = pageWalkFrom mem virtualAddress level table := by
  induction level generalizing table with
  | zero => rfl
  | succ level ih =>
      unfold pageWalkFrom
      dsimp only
      rw [hsize]
      split
      · rfl
      · split
        · rfl
        · rename_i hbounds
          have htable :
              mem'.pageTableAt (table (pageIndex virtualAddress (level + 1))).physicalAddress =
              mem.pageTableAt (table (pageIndex virtualAddress (level + 1))).physicalAddress := by
            funext i
            refine Memory.pageTableAt_congr fun n _ hn => hdata n ?_
            have hi := i.isLt
            rw [not_or, Nat.not_lt, gt_iff_lt, BitVec.not_lt, BitVec.le_def,
              BitVec.toNat_sub] at hbounds
            simp only [BitVec.toNat_ofNat, pageTableSize] at hbounds
            have hlt := mem.size.isLt
            omega
          rw [htable, ih]

theorem pageWalk_congr {pml4 : PageTable} (hsize : mem'.size = mem.size)
    (hdata : ∀ n < mem.size.toNat, mem'.data n = mem.data n) :
    pageWalk pml4 mem' virtualAddress = pageWalk pml4 mem virtualAddress :=
  pageWalkFrom_congr hsize hdata 3 pml4

/-- The walk of a page has one leaf for all its addresses. -/
theorem pageWalk_of_leaf {pml4 : PageTable} {page frame : Addr}
    (hleaf : walkLeaf pml4 mem page = some frame) (hpage : toFrame virtualAddress = toFrame page) :
    pageWalk pml4 mem virtualAddress = some (frame ||| (virtualAddress &&& 0xFFF#64)) := by
  rw [pageWalk_eq_map, walkLeaf_congr hpage, hleaf]
  rfl

end Walk

variable {pages : Finset ℕ} {s₀ s s' t : Sim} {trace : List CallRecord} {call : Call}
  {result : Option (List Byte)}

/-! ## The TLBs -/

namespace Sim

def walk (s : Sim) (c : CoreId) (virtualAddress : Addr) : Option Addr :=
  pageWalk (s.pml4s (s.cpu.cores c).activePml4) s.mem virtualAddress

/-- The core runs process `p`, and its data TLBs hold frame numbers that `f` has. -/
structure CoreTranslates (f : Addr → Option Addr) (p : ℕ) (core : Core) : Prop where
  activePml4 : core.activePml4 = p
  l1Dtlb : TLBCaches f core.l1Dtlb
  l2Dtlb : TLBCaches f core.l2Dtlb

def frames (s : Sim) (c : CoreId) : Addr → Option Addr :=
  frameOf (s.pml4s (s.cpu.cores c).activePml4) s.mem

/-- The cores run the processes of `s₀`, and their data TLBs remember what the tables of
`s₀` say. -/
structure TranslatesAs (s : Sim) (s₀ : Sim) : Prop where
  pml4s : s.pml4s = s₀.pml4s
  cores : ∀ c, CoreTranslates (s₀.frames c) (s₀.cpu.cores c).activePml4 (s.cpu.cores c)

/-- The data TLBs are empty, and the tables map pages to frames on page boundaries. -/
structure ColdTlbs (s : Sim) : Prop where
  l1Dtlb : ∀ c i way, ((s.cpu.cores c).l1Dtlb i).valid way = false
  l2Dtlb : ∀ c i way, ((s.cpu.cores c).l2Dtlb i).valid way = false
  aligned : ∀ p, AlignedLeaves (s.pml4s p) s.mem

theorem ColdTlbs.translatesAs (h : s.ColdTlbs) : s.TranslatesAs s := by
  have hempty : ∀ (set : TLBSet), (∀ way, set.valid way = false) → ∀ way, set.slots way = none :=
    fun set hset way => if_neg (by simp [hset way])
  exact ⟨rfl, fun c => ⟨rfl, fun i => Lookaside.caches_empty (hempty _ (h.l1Dtlb c i)),
    fun i => Lookaside.caches_empty (hempty _ (h.l2Dtlb c i))⟩⟩

structure KeepsMemory (s : Sim) (s₀ : Sim) : Prop where
  size : s.mem.size = s₀.mem.size
  data : ∀ n < s₀.mem.size.toNat, s.mem.data n = s₀.mem.data n

theorem Fits.keepsMemory (h : s.Fits pages s₀) (hsize : s.mem.size = s₀.mem.size) :
    s.KeepsMemory s₀ := by
  refine ⟨hsize, fun n hn => ?_⟩
  have hlt : n < 2 ^ 64 := Nat.lt_trans hn s₀.mem.size.isLt
  have hdata := h.data_eq (BitVec.ofNat 64 n)
  rwa [BitVec.toNat_ofNat, Nat.mod_eq_of_lt hlt] at hdata

namespace TranslatesAs

theorem of_same (h : s.TranslatesAs s₀) (hs : SameTranslation s s') : s'.TranslatesAs s₀ := by
  refine ⟨hs.pml4s.trans h.pml4s, fun c => ?_⟩
  obtain ⟨hpml4, hl1, hl2⟩ := h.cores c
  exact ⟨(hs.activePml4 c).trans hpml4, hs.l1Dtlb c ▸ hl1, hs.l2Dtlb c ▸ hl2⟩

variable {c : CoreId} {virtualAddress : Addr}

theorem walk_eq (h : s.TranslatesAs s₀) (hmem : s.KeepsMemory s₀) :
    s.walk c virtualAddress = s₀.walk c virtualAddress := by
  unfold walk
  rw [h.pml4s, (h.cores c).activePml4, pageWalk_congr hmem.size hmem.data]

theorem walkFinds (h₀ : s₀.ColdTlbs) (h : s.TranslatesAs s₀) (hmem : s.KeepsMemory s₀) :
    WalkFinds (s₀.frames c) (s.pml4s (s.cpu.cores c).activePml4) s.mem virtualAddress := by
  obtain ⟨hhit, hfill⟩ := (h₀.aligned (s₀.cpu.cores c).activePml4).walkFinds virtualAddress
  exact ⟨fun frame hf => (h.walk_eq hmem).trans (hhit frame hf),
    fun pa hpa => hfill pa ((h.walk_eq hmem).symm.trans hpa)⟩

/-- A translation finds what the walk finds in `s₀`. -/
theorem translateData (h₀ : s₀.ColdTlbs) (h : s.TranslatesAs s₀) (hmem : s.KeepsMemory s₀) :
    (translateData s c virtualAddress).1 = s₀.walk c virtualAddress ∧
      (translateData s c virtualAddress).2.TranslatesAs s₀ := by
  obtain ⟨hpml4, hl1, hl2⟩ := h.cores c
  have hfinds : WalkFinds (s₀.frames c) (s.pml4s (s.cpu.cores c).activePml4) s.mem virtualAddress :=
    h.walkFinds h₀ hmem
  obtain ⟨hwalk, hl1', hl2', -⟩ := TLBCaches.translate2 hl1 hl2 hfinds
  refine ⟨hwalk.trans (h.walk_eq hmem), h.pml4s, fun b => ?_⟩
  rw [translateData_snd]
  unfold Sim.modifyCore
  dsimp only
  by_cases hb : b = c
  · subst hb
    rw [Function.update_self]
    exact ⟨hpml4, hl1', hl2'⟩
  · rw [Function.update_of_ne hb]
    exact h.cores b

end TranslatesAs

end Sim

open Sim

/-- A data call keeps the translation state, and accesses the address that the walk finds
in `s₀`. -/
theorem Call.exec_translatesAs (h₀ : s₀.ColdTlbs) (h : s.TranslatesAs s₀)
    (hmem : s.KeepsMemory s₀) (hdata : call.IsData) :
    call.physicalAddress s = s₀.walk call.coreId call.virtualAddress ∧
      (call.exec s).Sat (fun r => r.1.TranslatesAs s₀) fun _ => True := by
  have hwalk : (translateData s call.coreId call.virtualAddress).1 =
      s₀.walk call.coreId call.virtualAddress := (h.translateData h₀ hmem).1
  have htranslated : (translateData s call.coreId call.virtualAddress).2.TranslatesAs s₀ :=
    (h.translateData h₀ hmem).2
  have hexec : (call.exec s).Sat (fun r => r.1.TranslatesAs s₀) fun _ => True :=
    Except.sat_iff.mpr ⟨fun r hr => htranslated.of_same (exec_sameTranslation hdata hr),
      fun _ _ => trivial⟩
  cases call with
  | read => exact ⟨hwalk, hexec⟩
  | write => exact ⟨hwalk, hexec⟩
  | fetch => exact hdata.elim

end CacheSimulator
