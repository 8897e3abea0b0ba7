import CacheSimulator.Types
import Mathlib.Data.List.Basic

/-!
# Recorded events

The callback interface of `cpu_callback.h` and the `Event` records of `event.h`.
With `event_callback` installed, each call of `g_cpu_callback` appends one event
that carries the sequence number of the calling thread; the queue is the list of
its events in order.
-/

namespace CacheSimulator

/-- `CacheEventType`. The enumeration is stored in a byte, and a trace file may
hold any byte: `other k` is the value `11 + k`. -/
inductive CacheEventType where
  | l1dHit
  | l1dFill
  | l1dEvict
  | l2Hit
  | l2Fill
  | l2Evict
  | snoopDowngrade
  | snoopInvalidate
  | prefetchL2
  | memFetch
  | l1iSnoopInvalidate
  | other (k : Fin 245)
  deriving DecidableEq, Repr

/-- `Event`, without its list links. The two states are kept as the bytes they
are stored in; `data` is present when `has_data` is set. -/
structure Event where
  address : Addr
  seq : BitVec 32
  setIndex : BitVec 16
  way : BitVec 8
  coreId : BitVec 8
  type : CacheEventType
  oldState : Byte
  newState : Byte
  cacheLevel : BitVec 8
  data : Option Line

end CacheSimulator
