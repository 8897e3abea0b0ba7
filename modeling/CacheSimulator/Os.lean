import CacheSimulator.Cpu

/-!
# The operating system

`os.h` and `os.cpp`: the frame allocator, which hands out frames of
`PAGE_SIZE` bytes, the four-level page tables of a process, and the
switch of the cores to a process.

A `PageTable *` is either the root table inside the process or the address of a
table in `mem->data`; a dereference outside `mem->data` is a fault.
-/

namespace CacheSimulator

/-- `UINT64_MAX`, the result of an allocation that has failed. -/
def uint64Max : Addr := BitVec.allOnes 64

def pageSize : Addr := 0x1000#64

/-- The allocator. The frame at the head of `freeList` is the back of
`free_list`. -/
structure FrameAllocator where
  watermark : Addr
  limit : Addr
  freeList : List Addr

structure Process where
  pid : BitVec 32
  pml4 : PageTable
  brk : Addr
  stackTop : Addr

/-- What the functions of `os.cpp` act on. -/
structure Os where
  proc : Process
  fa : FrameAllocator
  mem : Memory

/-! ## Bytes of memory -/

namespace Memory

def zeroFrame (mem : Memory) (pa : Addr) : Except Fault Memory :=
  if pa.toNat + 4096 ≤ mem.size.toNat then
    .ok { mem with data := fun n => if pa.toNat ≤ n ∧ n < pa.toNat + 4096 then 0 else mem.data n }
  else .error .outOfBounds

/-- A byte stored by a program that owns the memory. -/
def storeByte (mem : Memory) (n : ℕ) (byte : Byte) : Memory :=
  { mem with data := Function.update mem.data n byte }

/-- The entry stored at byte `start`: its address, its three flags. The padding
keeps its bytes. -/
def storeEntry (mem : Memory) (start : ℕ) (entry : PageTableEntry) : Memory :=
  { mem with
    data := fun n =>
      if start ≤ n ∧ n < start + 8 then
        (entry.physicalAddress >>> (8 * (n - start))).setWidth 8
      else if n = start + 8 then (BitVec.ofBool entry.present).setWidth 8
      else if n = start + 9 then (BitVec.ofBool entry.writable).setWidth 8
      else if n = start + 10 then (BitVec.ofBool entry.user).setWidth 8
      else mem.data n }

end Memory

/-! ## Frames -/

/-- `alloc_frame`: the frame, or `UINT64_MAX`. -/
def allocFrame (fa : FrameAllocator) (mem : Memory) :
    Except Fault (Addr × FrameAllocator × Memory) :=
  match fa.freeList with
  | pa :: rest => do
      let mem ← mem.zeroFrame pa
      .ok (pa, { fa with freeList := rest }, mem)
  | [] =>
      if fa.watermark + pageSize > fa.limit then .ok (uint64Max, fa, mem)
      else do
        let pa := fa.watermark
        let mem ← mem.zeroFrame pa
        .ok (pa, { fa with watermark := fa.watermark + pageSize }, mem)

def freeFrame (fa : FrameAllocator) (pa : Addr) : FrameAllocator :=
  { fa with freeList := pa :: fa.freeList }

/-! ## Page tables -/

inductive TablePtr where
  | root
  | inMemory (pa : Addr)
  deriving DecidableEq

namespace Os

def entry (s : Os) (table : TablePtr) (index : Fin 512) : PageTableEntry :=
  match table with
  | .root => s.proc.pml4 index
  | .inMemory pa => s.mem.pageTableAt pa index

def EntryInBounds (s : Os) (table : TablePtr) (index : Fin 512) : Prop :=
  match table with
  | .root => True
  | .inMemory pa => pa.toNat + pageTableEntrySize * index + pageTableEntrySize ≤ s.mem.size.toNat

instance (s : Os) (table : TablePtr) (index : Fin 512) : Decidable (s.EntryInBounds table index) :=
  match table with
  | .root => inferInstanceAs (Decidable True)
  | .inMemory _ => inferInstanceAs (Decidable (_ ≤ _))

def setEntry (s : Os) (table : TablePtr) (index : Fin 512) (entry : PageTableEntry) : Os :=
  match table with
  | .root => { s with proc := { s.proc with pml4 := Function.update s.proc.pml4 index entry } }
  | .inMemory pa =>
      { s with mem := s.mem.storeEntry (pa.toNat + pageTableEntrySize * index) entry }

/-- The level loop of `map_page`, from `table` down, and the store of the leaf. -/
def mapPageFrom (virtualAddress physicalAddress : Addr) (writable user : Bool) :
    ℕ → TablePtr → Os → Except Fault (Bool × Os)
  | 0, table, s =>
      let index := pageIndex virtualAddress 0
      if s.EntryInBounds table index then
        .ok (true, s.setEntry table index ⟨physicalAddress, true, writable, user⟩)
      else .error .outOfBounds
  | level + 1, table, s =>
      let index := pageIndex virtualAddress (level + 1)
      if s.EntryInBounds table index then
        let entry := s.entry table index
        if entry.present then
          mapPageFrom virtualAddress physicalAddress writable user level
            (.inMemory entry.physicalAddress) s
        else do
          let (newPa, fa, mem) ← allocFrame s.fa s.mem
          let s := { s with fa := fa, mem := mem }
          if newPa = uint64Max then .ok (false, s)
          else
            mapPageFrom virtualAddress physicalAddress writable user level (.inMemory newPa)
              (s.setEntry table index ⟨newPa, true, true, user⟩)
      else .error .outOfBounds

def mapPage (s : Os) (virtualAddress physicalAddress : Addr) (writable user : Bool) :
    Except Fault (Bool × Os) :=
  mapPageFrom virtualAddress physicalAddress writable user 3 .root s

/-- `alloc_and_map`: the frame, or `UINT64_MAX`. -/
def allocAndMap (s : Os) (virtualAddress : Addr) (writable user : Bool) :
    Except Fault (Addr × Os) := do
  let (pa, fa, mem) ← allocFrame s.fa s.mem
  let s := { s with fa := fa, mem := mem }
  if pa = uint64Max then .ok (uint64Max, s)
  else do
    let (mapped, s) ← s.mapPage virtualAddress pa writable user
    if mapped then .ok (pa, s)
    else .ok (uint64Max, { s with fa := freeFrame s.fa pa })

end Os

/-! ## Processes -/

def processCreate (pid : BitVec 32) : Process where
  pid := pid
  pml4 _ := ⟨0, false, false, false⟩
  brk := 0
  stackTop := 0

def TLBSet.flush (set : TLBSet) : TLBSet := { set with valid := fun _ => false }

def tlbFlush (core : Core) : Core :=
  { core with
    l1Dtlb := fun i => (core.l1Dtlb i).flush
    l2Dtlb := fun i => (core.l2Dtlb i).flush
    itlb := fun i => (core.itlb i).flush }

/-- `process_switch` to the process with root table number `pml4`. -/
def processSwitch (cpu : CPU) (pml4 : ℕ) : CPU :=
  { cpu with cores := fun c => tlbFlush { cpu.cores c with activePml4 := pml4 } }

end CacheSimulator
