import CacheSimulator.Core

/-!
# The shared L2 cache

`uncore.h` and `uncore.cpp`: one set of the shared L2, whose ways carry, next to
the MESI state, the masks `core_valid_d` and `core_valid_i` of the cores whose
L1D and L1I hold the line.
-/

namespace CacheSimulator

/-- One set of the L2 cache: `NUM_L2_WAYS = 16` ways. -/
structure L2Set where
  tag : Fin 16 → Addr
  state : Fin 16 → MESIState
  coreValidD : Fin 16 → BitVec 8
  coreValidI : Fin 16 → BitVec 8
  plruBits : BitVec 16
  data : Fin 16 → Line

namespace L2Set

def coreValid (set : L2Set) : L1Kind → Fin 16 → BitVec 8
  | .data => set.coreValidD
  | .instr => set.coreValidI

def setCoreValid (set : L2Set) (kind : L1Kind) (way : Fin 16) (mask : BitVec 8) : L2Set :=
  match kind with
  | .data => { set with coreValidD := Function.update set.coreValidD way mask }
  | .instr => { set with coreValidI := Function.update set.coreValidI way mask }

def setState (set : L2Set) (way : Fin 16) (state : MESIState) : L2Set :=
  { set with state := Function.update set.state way state }

def setData (set : L2Set) (way : Fin 16) (line : Line) : L2Set :=
  { set with data := Function.update set.data way line }

def touch (set : L2Set) (way : Fin 16) : L2Set :=
  { set with plruBits := plruUpdateWay 16 set.plruBits way }

end L2Set

def coreBit (coreId : CoreId) : BitVec 8 := 1#8 <<< coreId.val

def l2FindWay (set : L2Set) (tag : Addr) : Option (Fin 16) :=
  (List.finRange 16).find? fun way => set.tag way == tag && set.state way != .invalid

def l2ClearCoreValidWay (set : L2Set) (kind : L1Kind) (way : Fin 16) (coreId : CoreId) : L2Set :=
  set.setCoreValid kind way (set.coreValid kind way &&& ~~~coreBit coreId)

def l2CacheReadWay (set : L2Set) (coreId : CoreId) (way : Fin 16) (kind : L1Kind) :
    Line × L2Set :=
  (set.data way,
    (set.touch way).setCoreValid kind way (set.coreValid kind way ||| coreBit coreId))

/-- `kind` selects the mask passed as `core_valid_set`; the other one is
`core_valid_clr`. -/
def l2CacheFill (set : L2Set) (coreId : CoreId) (tag : Addr) (way : Fin 16) (data : Line)
    (state : MESIState) (kind : L1Kind) : Except Fault L2Set :=
  if set.coreValid kind way ≠ 0 ∨ set.coreValid kind.other way ≠ 0 then
    .error .l2FillCoreValid
  else
    .ok ((((({ set with tag := Function.update set.tag way tag }).setState way state).setCoreValid
      kind way (coreBit coreId)).setData way data).touch way)

/-- The prefetch overload: no L1 owner. -/
def l2CacheFillPrefetch (set : L2Set) (tag : Addr) (way : Fin 16) (data : Line)
    (state : MESIState) : Except Fault L2Set :=
  if set.coreValidD way ≠ 0 ∨ set.coreValidI way ≠ 0 then .error .l2PrefetchFillCoreValid
  else
    .ok (((({ set with tag := Function.update set.tag way tag }).setState way state).setData
      way data).touch way)

def l2CacheWriteWay (set : L2Set) (coreId : CoreId) (way : Fin 16) (data : Line) : L2Set :=
  l2ClearCoreValidWay ((set.setData way data).setState way .modified) .data way coreId

end CacheSimulator
