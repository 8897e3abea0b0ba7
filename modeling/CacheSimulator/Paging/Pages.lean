import CacheSimulator.Contract.Mappings
import CacheSimulator.Paging.Calls
import CacheSimulator.Paging.Translation

/-!
# Pages of processes

The cores access the pages of the processes they run while pages are mapped and
data frames are freed. `alloc_frame` clears a frame in memory, behind the caches,
and `map_page` writes page tables behind the caches and the TLBs.
-/

namespace CacheSimulator

open Mesi

/-! ## Runs -/

/-- What has become of a page of a process: its frame, and whether a store to it
has been made since it was mapped. -/
inductive PageStatus where
  | unmapped
  | fresh (frame : Addr)
  | stored (frame : Addr)
  | freed
  deriving DecidableEq

namespace PageStatus

def frame? : PageStatus → Option Addr
  | unmapped => none
  | fresh frame => some frame
  | stored frame => some frame
  | freed => none

def store : PageStatus → PageStatus
  | fresh frame => stored frame
  | status => status

def free (status : PageStatus) (frame : Addr) : PageStatus :=
  if status.frame? = some frame then freed else status

end PageStatus

/-- The simulator and the allocator, the frames allocated as data pages, and the
pages of every process. The last two are history variables. -/
structure PageSystem where
  sim : Sim
  fa : FrameAllocator
  dataFrames : List Addr
  pages : ℕ → List (Fin 512) → PageStatus

namespace PageSystem

def os (σ : PageSystem) (p : ℕ) : Os :=
  ⟨{ processCreate (BitVec.ofNat 32 p) with pml4 := σ.sim.pml4s p }, σ.fa, σ.sim.mem⟩

def process (σ : PageSystem) (c : CoreId) : ℕ := (σ.sim.cpu.cores c).activePml4

def pageOf (σ : PageSystem) (call : Call) : PageStatus :=
  σ.pages (σ.process call.coreId) (pagePath call.virtualAddress)

def setPage (pages : ℕ → List (Fin 512) → PageStatus) (p : ℕ) (path : List (Fin 512))
    (status : PageStatus) : ℕ → List (Fin 512) → PageStatus :=
  fun q u => if q = p ∧ u = path then status else pages q u

def afterAlloc (σ : PageSystem) (p : ℕ) (virtualAddress frame : Addr) (s : Os) : PageSystem where
  sim := { σ.sim with mem := s.mem, pml4s := Function.update σ.sim.pml4s p s.proc.pml4 }
  fa := s.fa
  dataFrames := if frame = uint64Max then σ.dataFrames else frame :: σ.dataFrames
  pages :=
    if frame = uint64Max then σ.pages
    else setPage σ.pages p (pagePath virtualAddress) (.fresh frame)

def afterFree (σ : PageSystem) (frame : Addr) : PageSystem :=
  { σ with
    fa := freeFrame σ.fa frame
    dataFrames := σ.dataFrames.filter (· ≠ frame)
    pages := fun p u => (σ.pages p u).free frame }

def afterCall (σ : PageSystem) (call : Call) (s : Sim) : PageSystem :=
  { σ with
    sim := s
    pages :=
      match call with
      | .write _ _ _ =>
          setPage σ.pages (σ.process call.coreId) (pagePath call.virtualAddress)
            (σ.pageOf call).store
      | _ => σ.pages }

end PageSystem

/-- Calls of `alloc_and_map` for any process, of `free_frame` for frames allocated
as data pages, and of `cpu_read` and `cpu_write`, none of which aborts or accesses
a page whose frame has been freed. -/
inductive PageRun (mapOk : PageSystem → ℕ → Addr → Prop) (callOk : PageSystem → Call → Prop)
    (σ₀ : PageSystem) : PageSystem → Prop
  | start : PageRun mapOk callOk σ₀ σ₀
  | alloc {σ : PageSystem} {frame : Addr} {s : Os} (p : ℕ) (virtualAddress : Addr)
      (writable user : Bool) : PageRun mapOk callOk σ₀ σ → mapOk σ p virtualAddress →
        (σ.os p).allocAndMap virtualAddress writable user = .ok (frame, s) →
          PageRun mapOk callOk σ₀ (σ.afterAlloc p virtualAddress frame s)
  | free {σ : PageSystem} (frame : Addr) : PageRun mapOk callOk σ₀ σ → frame ∈ σ.dataFrames →
      PageRun mapOk callOk σ₀ (σ.afterFree frame)
  | call {σ : PageSystem} {s : Sim} {result : Option (List Byte)} (call : Call) :
      PageRun mapOk callOk σ₀ σ → call.IsData → σ.pageOf call ≠ .freed → callOk σ call →
        call.exec σ.sim = .ok (s, result) → PageRun mapOk callOk σ₀ (σ.afterCall call s)

/-! ## The start of a run -/

structure PageSystem.Initial (σ : PageSystem) : Prop where
  caches : σ.sim.EmptyCaches
  tlbs : ∀ c, ∃ core, σ.sim.cpu.cores c = tlbFlush core
  os : ∀ p, (σ.os p).Fresh
  dataFrames : σ.dataFrames = []
  pages : ∀ p u, σ.pages p u = .unmapped

/-! ## Conditions -/

/-- Every line of the frame that an L1D or L2 holds is zero there. -/
def Sim.HoldsZeros (s : Sim) (frame : ℕ) : Prop :=
  ∀ j : Fin 64, (∀ c, ∀ w ∈ findL1Way (s.l1 .data c (l1ToIndex (BitVec.ofNat 64 (frame + 64 * j))))
      (l1ToTag (BitVec.ofNat 64 (frame + 64 * j))),
        (s.l1 .data c (l1ToIndex (BitVec.ofNat 64 (frame + 64 * j)))).data w = fun _ => 0) ∧
    ∀ w ∈ l2FindWay (s.l2 (l2ToIndex (BitVec.ofNat 64 (frame + 64 * j))))
      (l2ToTag (BitVec.ofNat 64 (frame + 64 * j))),
        (s.l2 (l2ToIndex (BitVec.ofNat 64 (frame + 64 * j)))).data w = fun _ => 0

def Sim.HoldsClean (s : Sim) (frame : ℕ) : Prop :=
  ∀ j : Fin 64, ∀ w ∈ l2FindWay (s.l2 (l2ToIndex (BitVec.ofNat 64 (frame + 64 * j))))
    (l2ToTag (BitVec.ofNat 64 (frame + 64 * j))),
      (s.l2 (l2ToIndex (BitVec.ofNat 64 (frame + 64 * j)))).state w ≠ .modified

/-- The valid entries for the page have the frame at `frame`. -/
def TLBSet.Agrees (set : TLBSet) (virtualAddress : Addr) (frame : ℕ) : Prop :=
  ∀ way, set.valid way = true → pagePath (set.virtualPageNum way <<< 12) = pagePath virtualAddress →
    4096 * (set.physicalFrame way).toNat = frame

/-- The page can be mapped behind the caches and the TLBs: the entries of the page
lie in the frames of its tables, the caches hold nothing but zeros of its frame and
no MODIFIED line of the frames of new tables, and no TLB has another frame for the
page. -/
structure PageSystem.MapsUnseen (σ : PageSystem) (p : ℕ) (virtualAddress : Addr) : Prop where
  inside : (σ.os p).MapsInside virtualAddress
  page : σ.sim.HoldsZeros (σ.fa.frameTaken 0)
  tables : ∀ k < (σ.os p).missingFrom virtualAddress 3 .root,
    σ.sim.HoldsClean (σ.fa.frameTaken (k + 1))
  tlbs : ∀ c, σ.process c = p →
    (∀ i, ((σ.sim.cpu.cores c).l1Dtlb i).Agrees virtualAddress (σ.fa.frameTaken 0)) ∧
      ∀ i, ((σ.sim.cpu.cores c).l2Dtlb i).Agrees virtualAddress (σ.fa.frameTaken 0)

def PageSystem.AccessesInside (_ : PageSystem) (call : Call) : Prop :=
  InFrames (pagePath call.virtualAddress)

/-! ## The property -/

def ZeroInPage (virtualAddress : Addr) (bytes : List Byte) : Prop :=
  ∀ j (h : j < bytes.length), (virtualAddress &&& 0xFFF#64).toNat + j < 4096 → bytes[j] = 0

/-- A `cpu_read` of a page that has been mapped and not stored to since returns
zeros. -/
def PageSystem.FreshReadsZero (σ : PageSystem) : Prop :=
  ∀ c virtualAddress size s result, (∃ frame, σ.pages (σ.process c) (pagePath virtualAddress) =
      .fresh frame) → cpuRead σ.sim c virtualAddress size = .ok (s, result) →
    ∃ bytes, result = some bytes ∧ bytes.length = size ∧ ZeroInPage virtualAddress bytes

end CacheSimulator
