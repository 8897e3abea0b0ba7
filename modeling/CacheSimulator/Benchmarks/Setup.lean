import CacheSimulator.Paging.Alignment
import CacheSimulator.WorkingSet.Programs

/-!
# The machines of the benchmarks

What the `main` of a benchmark sets up before it starts its threads: 256 MB of zeroes, an
allocator that begins at the second frame, one process on both cores, and the pages of its
data.
-/

namespace CacheSimulator

def physSize : Addr := 0x10000000#64

/-- The globals of a benchmark before `main` maps a page. -/
def benchmarkOs : Os := ⟨processCreate 1, ⟨pageSize, physSize, []⟩, ⟨fun _ => 0, physSize⟩⟩

def mapPages : List Addr → Os → Except Fault Os
  | [], s => .ok s
  | virtualAddress :: rest, s => do
      let (_, s) ← s.allocAndMap virtualAddress true true
      mapPages rest s

/-- The simulator with the pages mapped. The `active_pml4` pointers, which
`process_switch` sets before the pages are mapped, reach the table of the process. -/
def setUp (pages : List Addr) : Except Fault Sim := do
  let os ← mapPages pages benchmarkOs
  .ok { Sim.initial os.mem os.proc.pml4 false with cpu := processSwitch .initial 0 }

theorem benchmarkOs_aligned : benchmarkOs.Aligned := by
  refine ⟨fun i hi => ?_, ⟨by decide, fun frame hframe => ?_⟩, .of_zero fun _ => rfl⟩
  · cases hi
  · exact absurd hframe List.not_mem_nil

theorem mapPages_aligned {s : Os} {pages : List Addr} (h : s.Aligned) :
    (mapPages pages s).Sat Os.Aligned fun _ => True := by
  induction pages generalizing s with
  | nil => exact h
  | cons virtualAddress rest ih => exact Except.Sat.bind h.allocAndMap fun _ hr => ih hr

/-- The first state of a benchmark: a process whose tables are aligned, and cold caches. -/
theorem setUp_sat (pages : List Addr) :
    (setUp pages).Sat
      (fun s => s.EmptyCaches ∧ s.ColdTlbs ∧ s.cpu = .initial ∧ ∀ p, s.pml4s p = s.pml4s 0)
      fun _ => True := by
  unfold setUp
  refine Except.Sat.bind (mapPages_aligned benchmarkOs_aligned) fun os hos => ?_
  rw [Except.sat_ok]
  exact ⟨Sim.initial_emptyCaches os.mem os.proc.pml4 false,
    ⟨fun _ _ _ => rfl, fun _ _ _ => rfl, fun _ => hos.root.alignedLeaves hos.mem⟩, rfl,
    fun _ => rfl⟩

/-- Both cores find the frame of a page at the offset of the address. -/
theorem setUp_walk {s : Sim} {page frame virtualAddress : Addr}
    (hroot : ∀ p, s.pml4s p = s.pml4s 0) (hleaf : walkLeaf (s.pml4s 0) s.mem page = some frame)
    (hpage : toFrame virtualAddress = toFrame page) (c : CoreId) :
    s.walk c virtualAddress = some (frame ||| (virtualAddress &&& 0xFFF#64)) := by
  unfold Sim.walk
  rw [hroot]
  exact pageWalk_of_leaf hleaf hpage

end CacheSimulator
