import CacheSimulator.Memory
import CacheSimulator.Plru
import Mathlib.Logic.Function.Basic
import Mathlib.Data.List.FinRange

/-!
# The private part of a core

`core.h` and `core.cpp`: the sets of the two L1 caches and of the TLBs, the
stream table of the prefetcher, and the operations on one set. A C++ array is a
function of its index, and a loop that looks for the first way with a property
is a search through the ways in order.
-/

namespace CacheSimulator

structure PerfCounters where
  l1dHits : ℕ
  l1iHits : ℕ
  l2Hits : ℕ
  memFetches : ℕ

inductive StreamDirection where
  | unknown
  | forward
  | backward
  deriving DecidableEq, Repr

/-- The direction as the signed factor `0`, `1` or `-1`. -/
def StreamDirection.toInt64 : StreamDirection → BitVec 64
  | unknown => 0
  | forward => 1
  | backward => -1

inductive StreamConfidence where
  | invalid
  | training
  | steady
  deriving DecidableEq, Repr

structure Stream where
  lastLine : Addr
  prefetchHead : Addr
  direction : StreamDirection
  confidence : StreamConfidence

/-- `NUM_STREAMS = 8` streams and their ages. -/
structure Prefetcher where
  streams : Fin 8 → Stream
  lruAge : Fin 8 → ℕ

/-- One set of an L1 cache: `NUM_L1_WAYS = 8` ways. -/
structure L1Set where
  tag : Fin 8 → Addr
  state : Fin 8 → MESIState
  plruBits : BitVec 8
  data : Fin 8 → Line

/-- One set of a TLB: `NUM_TLB_WAYS = 4` ways. -/
structure TLBSet where
  virtualPageNum : Fin 4 → Addr
  physicalFrame : Fin 4 → Addr
  plruBits : BitVec 8
  valid : Fin 4 → Bool

/-- A core. `activePml4` is the pointer to the root table of the running
process. -/
structure Core where
  l1d : Fin 64 → L1Set
  l1i : Fin 64 → L1Set
  l1Dtlb : Fin 4 → TLBSet
  l2Dtlb : Fin 64 → TLBSet
  itlb : Fin 32 → TLBSet
  activePml4 : ℕ
  prefetcher : Prefetcher
  pmc : PerfCounters

/-! ## TLB sets -/

def tlbFindWay (set : TLBSet) (virtualPageNum : Addr) : Option (Fin 4) :=
  (List.finRange 4).find? fun way => set.valid way && set.virtualPageNum way == virtualPageNum

/-- The frame, when the lookup returns `true`, and the set after it. -/
def tlbLookup (set : TLBSet) (virtualPageNum : Addr) : Option Addr × TLBSet :=
  match tlbFindWay set virtualPageNum with
  | some way =>
      (some (set.physicalFrame way), { set with plruBits := plruUpdateWay 4 set.plruBits way })
  | none => (none, set)

/-- The way `tlb_fill` writes: the first free one, else the victim. -/
def tlbFillWay (set : TLBSet) : Fin 4 :=
  ((List.finRange 4).find? fun way => !set.valid way).getD (plruVictimWay 4 set.plruBits)

def tlbFill (set : TLBSet) (virtualPageNum physicalFrame : Addr) : TLBSet :=
  let way := tlbFillWay set
  { virtualPageNum := Function.update set.virtualPageNum way virtualPageNum
    physicalFrame := Function.update set.physicalFrame way physicalFrame
    valid := Function.update set.valid way true
    plruBits := plruUpdateWay 4 set.plruBits way }

/-! ## L1 sets -/

def findL1Way (set : L1Set) (tag : Addr) : Option (Fin 8) :=
  (List.finRange 8).find? fun way => set.tag way == tag && set.state way != .invalid

def L1Set.setState (set : L1Set) (way : Fin 8) (state : MESIState) : L1Set :=
  { set with state := Function.update set.state way state }

def l1CacheReadWay (set : L1Set) (way : Fin 8) (offset dataSize : ℕ) :
    Except Fault (List Byte × L1Set) :=
  if offset + dataSize ≤ 64 then
    .ok ((set.data way).slice offset dataSize,
      { set with plruBits := plruUpdateWay 8 set.plruBits way })
  else .error .assertLineCrossing

def l1CacheWriteWay (set : L1Set) (way : Fin 8) (offset : ℕ) (data : List Byte) :
    Except Fault L1Set :=
  if offset + data.length ≤ 64 then
    .ok { set with
      data := Function.update set.data way ((set.data way).overlay offset data)
      plruBits := plruUpdateWay 8 set.plruBits way
      state := Function.update set.state way .modified }
  else .error .assertLineCrossing

def l1CacheFill (set : L1Set) (tag : Addr) (way : Fin 8) (line : Line) (state : MESIState) :
    L1Set :=
  { tag := Function.update set.tag way tag
    state := Function.update set.state way state
    data := Function.update set.data way line
    plruBits := plruUpdateWay 8 set.plruBits way }

/-! ## Stream ages -/

def pfLruUpdate (lruAge : Fin 8 → ℕ) (index : Fin 8) : Fin 8 → ℕ := fun i =>
  if i = index then 0 else if lruAge i < lruAge index then lruAge i + 1 else lruAge i

def pfLruEvict (lruAge : Fin 8 → ℕ) : Fin 8 :=
  ((List.finRange 8).drop 1).foldl
    (fun victim i => if lruAge i > lruAge victim then i else victim) 0

end CacheSimulator
