import Mathlib.Data.Fintype.Basic
import Mathlib.Data.BitVec

/-!
# Addresses, cache lines and MESI states

The scalar types and the address arithmetic of `types.h`. An address is a
64-bit word, a cache line is 64 bytes, and the L1 and L2 coordinates of an
address are cut out of it by shifts and masks: six offset bits, then six (L1)
or twelve (L2) index bits, then the tag.

`Fault` names every way a call can stop other than by returning: the aborts of
the simulator, its `assert`, and an access outside an array, which is undefined
behaviour in the source.
-/

namespace CacheSimulator

/-- A physical or virtual address (`uint64_t`). -/
abbrev Addr := BitVec 64

abbrev Byte := BitVec 8

/-- The `LINE_SIZE = 64` bytes of a cache line. -/
abbrev Line := Fin 64 → Byte

/-- One of the `NUM_CORES = 2` cores. -/
abbrev CoreId := Fin 2

/-! The numbers of cores, ways, sets and table entries, as index types with a
first element. -/

instance numCores_neZero : NeZero 2 := ⟨by decide⟩

instance numTLBWays_neZero : NeZero 4 := ⟨by decide⟩

instance numL1Ways_neZero : NeZero 8 := ⟨by decide⟩

instance numL2Ways_neZero : NeZero 16 := ⟨by decide⟩

instance itlbSets_neZero : NeZero 32 := ⟨by decide⟩

instance l1Sets_neZero : NeZero 64 := ⟨by decide⟩

instance pageTableEntries_neZero : NeZero 512 := ⟨by decide⟩

instance l2Sets_neZero : NeZero 4096 := ⟨by decide⟩

inductive MESIState where
  | invalid
  | modified
  | exclusive
  | shared
  deriving DecidableEq, Repr

namespace MESIState

def toByte : MESIState → Byte
  | invalid => 0
  | modified => 1
  | exclusive => 2
  | shared => 3

theorem toByte_injective : Function.Injective toByte := by
  intro a b h
  cases a <;> cases b <;> first | rfl | exact absurd h (by decide)

@[simp] theorem toByte_inj {a b : MESIState} : a.toByte = b.toByte ↔ a = b :=
  toByte_injective.eq_iff

end MESIState

/-- Which of a core's two L1 caches: the `IS_INSTR` parameter of `evict_l1`, and
the choice between `core_valid_d` and `core_valid_i`. -/
inductive L1Kind where
  | data
  | instr
  deriving DecidableEq, Repr

def L1Kind.other : L1Kind → L1Kind
  | .data => .instr
  | .instr => .data

/-- How a call stops without returning. -/
inductive Fault where
  /-- `assert` of `l1_cache_read_way` and `l1_cache_write_way`. -/
  | assertLineCrossing
  /-- An access outside an array, or a copy to the caller from outside `mem->data`. -/
  | outOfBounds
  /-- A line copied from or to `mem->data` that does not lie inside it. -/
  | lineOutOfMemory
  /-- `evict_l1`: the victim has no L2 line. -/
  | evictL1NoL2Line
  /-- `evict_l2`: a `core_valid_d` bit without an L1D line. -/
  | evictL2StaleCoreValidD
  /-- `evict_l2`: a `core_valid_i` bit without an L1I line. -/
  | evictL2StaleCoreValidI
  /-- `evict_l2`: the write-back does not fit in memory. -/
  | evictL2WriteBackBounds
  /-- `cpu_write`: an L1 hit without an L2 line. -/
  | writeHitNoL2Line
  /-- `l2_cache_fill`: the way still has a `core_valid` bit. -/
  | l2FillCoreValid
  /-- `l2_cache_fill`, prefetch overload: the way still has a `core_valid` bit. -/
  | l2PrefetchFillCoreValid
  /-- `cpu_read`, `cpu_write`, `cpu_fetch`: the demand line is outside memory. -/
  | memFetchBounds
  /-- `cpu_fetch`: the L2 line is MODIFIED. -/
  | fetchModified
  deriving DecidableEq, Repr

/-! ## Address arithmetic -/

def toFrame (address : Addr) : Addr := address >>> 12

def toAddress (frame offset : Addr) : Addr := (frame <<< 12) ||| offset

def l1ToIndex (address : Addr) : Fin 64 :=
  ⟨((address >>> 6) &&& 0x3F#64).toNat, by
    rw [BitVec.toNat_and]
    exact Nat.lt_of_le_of_lt Nat.and_le_right (by decide)⟩

def l1ToTag (address : Addr) : Addr := address >>> 12

def l1ToOffset (address : Addr) : ℕ := (address &&& 0x3F#64).toNat

def l2ToIndex (address : Addr) : Fin 4096 :=
  ⟨((address >>> 6) &&& 0xFFF#64).toNat, by
    rw [BitVec.toNat_and]
    exact Nat.lt_of_le_of_lt Nat.and_le_right (by decide)⟩

def l2ToTag (address : Addr) : Addr := address >>> 18

def toLineBase (address : Addr) : Addr := address &&& ~~~0x3F#64

def l1ToAddr (tag : Addr) (index : Fin 64) : Addr :=
  (tag <<< 12) ||| (BitVec.ofNat 64 index <<< 6)

def l2ToAddr (tag : Addr) (index : Fin 4096) : Addr :=
  (tag <<< 18) ||| (BitVec.ofNat 64 index <<< 6)

/-! ## Byte copies

`memcpy` between a line and a caller's buffer of `data_size` bytes. A copy past
the end of the line is an access outside the array. -/

/-- The line with `data` written from byte `offset` on. -/
def Line.overlay (line : Line) (offset : ℕ) (data : List Byte) : Line := fun i =>
  if offset ≤ i then (data[i - offset]?).getD (line i) else line i

def Line.slice (line : Line) (offset size : ℕ) : List Byte :=
  ((List.ofFn line).drop offset).take size

/-- `memcpy(line + offset, data, data_size)`. -/
def Line.copyIn (line : Line) (offset : ℕ) (data : List Byte) : Except Fault Line :=
  if offset + data.length ≤ 64 then .ok (line.overlay offset data)
  else .error .outOfBounds

/-- `memcpy(data, line + offset, data_size)`. -/
def Line.copyOut (line : Line) (offset size : ℕ) : Except Fault (List Byte) :=
  if offset + size ≤ 64 then .ok (line.slice offset size) else .error .outOfBounds

end CacheSimulator
