import CacheSimulator.Types

/-!
# Physical memory and the page walk

`memory.h` and `memory.cpp`. Memory is a byte array of `size` bytes; page tables
below the root lie in it, as arrays of 512 entries of 16 bytes each: an 8-byte
little-endian address, then the flags `present`, `writable` and `user`, then
padding. The root table of a process is an object of its own, outside the
simulated memory.
-/

namespace CacheSimulator

structure PageTableEntry where
  physicalAddress : Addr
  present : Bool
  writable : Bool
  user : Bool
  deriving DecidableEq, Repr

/-- The `PAGE_TABLE_ENTRIES = 512` entries of a table. -/
abbrev PageTable := Fin 512 → PageTableEntry

abbrev pageTableEntrySize : ℕ := 16

abbrev pageTableSize : ℕ := 8192

structure Memory where
  data : ℕ → Byte
  size : Addr

namespace Memory

/-- The 64 bytes of `&mem->data[addr]`. -/
def readLine (mem : Memory) (addr : Addr) : Except Fault Line :=
  if addr.toNat + 64 ≤ mem.size.toNat then .ok fun i => mem.data (addr.toNat + i)
  else .error .lineOutOfMemory

def writeLine (mem : Memory) (addr : Addr) (line : Line) : Except Fault Memory :=
  if addr.toNat + 64 ≤ mem.size.toNat then
    .ok { mem with
      data := fun n =>
        if h : addr.toNat ≤ n ∧ n - addr.toNat < 64 then line ⟨n - addr.toNat, h.2⟩
        else mem.data n }
  else .error .lineOutOfMemory

def read (mem : Memory) (start size : ℕ) : Except Fault (List Byte) :=
  if start + size ≤ mem.size.toNat then .ok ((List.range size).map fun j => mem.data (start + j))
  else .error .outOfBounds

/-- The little-endian 64-bit word at byte `start`. -/
def word (mem : Memory) (start : ℕ) : Addr :=
  (List.range 8).foldr (fun j acc => (acc <<< 8) ||| (mem.data (start + j)).zeroExtend 64) 0

/-- `reinterpret_cast<PageTable *>(&mem->data[pa])`. -/
def pageTableAt (mem : Memory) (pa : Addr) : PageTable := fun index =>
  let start := pa.toNat + pageTableEntrySize * index
  { physicalAddress := mem.word start
    present := mem.data (start + 8) != 0
    writable := mem.data (start + 9) != 0
    user := mem.data (start + 10) != 0 }

end Memory

def pageIndex (virtualAddress : Addr) (level : ℕ) : Fin 512 :=
  ⟨((virtualAddress >>> (12 + level * 9)) &&& 0x1FF#64).toNat, by
    rw [BitVec.toNat_and]
    exact Nat.lt_of_le_of_lt Nat.and_le_right (by decide)⟩

/-- The level loop of `page_walk`, from `table` down. -/
def pageWalkFrom (mem : Memory) (virtualAddress : Addr) : ℕ → PageTable → Option Addr
  | 0, table =>
      let entry := table (pageIndex virtualAddress 0)
      if !entry.present then none
      else some (entry.physicalAddress ||| (virtualAddress &&& 0xFFF#64))
  | level + 1, table =>
      let entry := table (pageIndex virtualAddress (level + 1))
      if !entry.present then none
      else if mem.size.toNat < pageTableSize ∨
          entry.physicalAddress > mem.size - BitVec.ofNat 64 pageTableSize then none
      else pageWalkFrom mem virtualAddress level (mem.pageTableAt entry.physicalAddress)

/-- `none` is the page fault. -/
def pageWalk (pml4 : PageTable) (mem : Memory) (virtualAddress : Addr) : Option Addr :=
  pageWalkFrom mem virtualAddress 3 pml4

end CacheSimulator
