import CacheSimulator.Trace

/-!
# The renderer's replay

`ShadowState` and `Renderer` of `renderer.h`, and the part of `renderer.cpp` that
moves through a trace: the counters, `apply_event_forward` and
`apply_event_backward`, `step_forward` and `step_backward`. Drawing is left out,
and with it the window and the replay speed. A state is the byte it is stored in,
and an index outside its array is a fault.
-/

namespace CacheSimulator

/-! ## The shadow state -/

/-- `ShadowL1` and `ShadowL2`, which differ in the number of ways. -/
structure ShadowSet (ways : ℕ) where
  tag : Fin ways → Addr
  state : Fin ways → Byte
  data : Fin ways → Line

abbrev ShadowL1 := ShadowSet 8

abbrev ShadowL2 := ShadowSet 16

structure ShadowCounters where
  l1dHits : ℕ
  l2Hits : ℕ
  memFetches : ℕ
  snoops : ℕ
  prefetches : ℕ

structure ShadowState where
  l1d : Fin 2 → Fin 64 → ShadowL1
  l2 : Fin 4096 → ShadowL2
  flash : Fin 4096 → Fin 16 → Byte
  l2Dominant : Fin 4096 → Byte
  counters : Fin 2 → ShadowCounters

namespace ShadowSet

variable {ways : ℕ} (set : ShadowSet ways) (way : Fin ways)

def setTag (address : Addr) : ShadowSet ways :=
  { set with tag := Function.update set.tag way address }

def setState (state : Byte) : ShadowSet ways :=
  { set with state := Function.update set.state way state }

/-- `if (e->has_data) memcpy(set->data[way], e->data, LINE_SIZE)`. -/
def setData (data : Option Line) : ShadowSet ways :=
  match data with
  | some line => { set with data := Function.update set.data way line }
  | none => set

end ShadowSet

namespace ShadowState

def zero : ShadowState where
  l1d _ _ := ⟨fun _ => 0, fun _ => 0, fun _ _ => 0⟩
  l2 _ := ⟨fun _ => 0, fun _ => 0, fun _ _ => 0⟩
  flash _ _ := 0
  l2Dominant _ := 0
  counters _ := ⟨0, 0, 0, 0, 0⟩

def setL1d (s : ShadowState) (c : Fin 2) (i : Fin 64) (set : ShadowL1) : ShadowState :=
  { s with l1d := Function.update s.l1d c (Function.update (s.l1d c) i set) }

def setL2 (s : ShadowState) (i : Fin 4096) (set : ShadowL2) : ShadowState :=
  { s with l2 := Function.update s.l2 i set }

def setFlash (s : ShadowState) (i : Fin 4096) (way : Fin 16) (value : Byte) : ShadowState :=
  { s with flash := Function.update s.flash i (Function.update (s.flash i) way value) }

end ShadowState

/-! ## The counters -/

/-- The counter that counts events of a type, changed by `f`. -/
def ShadowCounters.modify (c : ShadowCounters) (type : CacheEventType) (f : ℕ → ℕ) :
    ShadowCounters :=
  match type with
  | .l1dHit => { c with l1dHits := f c.l1dHits }
  | .l2Hit => { c with l2Hits := f c.l2Hits }
  | .memFetch => { c with memFetches := f c.memFetches }
  | .snoopDowngrade | .snoopInvalidate => { c with snoops := f c.snoops }
  | .prefetchL2 => { c with prefetches := f c.prefetches }
  | _ => c

def updateCounters (s : ShadowState) (e : Event) (f : ℕ → ℕ) : ShadowState :=
  if h : e.coreId.toNat < 2 then
    let c : Fin 2 := ⟨e.coreId.toNat, h⟩
    { s with counters := Function.update s.counters c ((s.counters c).modify e.type f) }
  else s

def updateCountersForward (s : ShadowState) (e : Event) : ShadowState :=
  updateCounters s e (· + 1)

def updateCountersBackward (s : ShadowState) (e : Event) : ShadowState :=
  updateCounters s e (· - 1)

/-! ## The dominant state of an L2 set -/

def mesiPriority (state : Byte) : ℕ :=
  if state = MESIState.modified.toByte then 3
  else if state = MESIState.exclusive.toByte then 2
  else if state = MESIState.shared.toByte then 1
  else 0

/-- The loop of `recompute_l2_dominant`; the pair is `best` and `dom`. -/
def dominantState (set : ShadowL2) : Byte :=
  ((List.finRange 16).foldl (fun (best : ℕ × Byte) w =>
    let p := mesiPriority (set.state w)
    if p > best.1 then (p, set.state w) else best) (0, MESIState.invalid.toByte)).2

def recomputeL2Dominant (s : ShadowState) (setIndex : Fin 4096) : ShadowState :=
  { s with l2Dominant := Function.update s.l2Dominant setIndex (dominantState (s.l2 setIndex)) }

/-! ## Events -/

/-- An index into an array of `n` elements. -/
def index (n k : ℕ) : Except Fault (Fin n) :=
  if h : k < n then .ok ⟨k, h⟩ else .error .outOfBounds

/-- The level-1 `switch` of `apply_event_forward`. -/
def forwardL1 (set : ShadowL1) (e : Event) : Except Fault ShadowL1 :=
  match e.type with
  | .l1dFill => do
      let way ← index 8 e.way.toNat
      .ok (((set.setTag way e.address).setState way e.newState).setData way e.data)
  | .l1dEvict | .snoopInvalidate => do
      let way ← index 8 e.way.toNat
      .ok (set.setState way MESIState.invalid.toByte)
  | .l1dHit | .snoopDowngrade => do
      let way ← index 8 e.way.toNat
      .ok ((set.setState way e.newState).setData way e.data)
  | _ => .ok set

/-- The level-2 `switch` of `apply_event_forward`, without `flash`. -/
def forwardL2 (set : ShadowL2) (e : Event) : Except Fault ShadowL2 :=
  match e.type with
  | .l2Fill | .prefetchL2 => do
      let way ← index 16 e.way.toNat
      .ok (((set.setTag way e.address).setState way e.newState).setData way e.data)
  | .l2Evict => do
      let way ← index 16 e.way.toNat
      .ok (set.setState way MESIState.invalid.toByte)
  | .l2Hit => do
      let way ← index 16 e.way.toNat
      .ok (set.setState way e.newState)
  | _ => .ok set

def applyEventForward (s : ShadowState) (e : Event) : Except Fault ShadowState :=
  let s := updateCountersForward s e
  if e.cacheLevel = 1 then do
    let c ← index 2 e.coreId.toNat
    let i ← index 64 e.setIndex.toNat
    let set ← forwardL1 (s.l1d c i) e
    .ok (s.setL1d c i set)
  else if e.cacheLevel = 2 then do
    let i ← index 4096 e.setIndex.toNat
    let set ← forwardL2 (s.l2 i) e
    let s := s.setL2 i set
    let s ← if e.type = .prefetchL2 then do
        let way ← index 16 e.way.toNat
        .ok (s.setFlash i way 10)
      else .ok s
    .ok (recomputeL2Dominant s i)
  else .ok s

/-- The level-1 `switch` of `apply_event_backward`. -/
def backwardL1 (set : ShadowL1) (e : Event) : Except Fault ShadowL1 :=
  match e.type with
  | .l1dFill => do
      let way ← index 8 e.way.toNat
      .ok (set.setState way MESIState.invalid.toByte)
  | .l1dEvict => do
      let way ← index 8 e.way.toNat
      let set := set.setState way e.oldState
      .ok (if e.data.isSome then (set.setTag way e.address).setData way e.data else set)
  | .snoopInvalidate | .snoopDowngrade | .l1dHit => do
      let way ← index 8 e.way.toNat
      .ok (set.setState way e.oldState)
  | _ => .ok set

/-- The level-2 `switch` of `apply_event_backward`. -/
def backwardL2 (set : ShadowL2) (e : Event) : Except Fault ShadowL2 :=
  match e.type with
  | .l2Fill | .prefetchL2 => do
      let way ← index 16 e.way.toNat
      .ok (set.setState way MESIState.invalid.toByte)
  | .l2Evict => do
      let way ← index 16 e.way.toNat
      let set := set.setState way e.oldState
      .ok (if e.data.isSome then (set.setTag way e.address).setData way e.data else set)
  | .l2Hit => do
      let way ← index 16 e.way.toNat
      .ok (set.setState way e.oldState)
  | _ => .ok set

def applyEventBackward (s : ShadowState) (e : Event) : Except Fault ShadowState :=
  let s := updateCountersBackward s e
  if e.cacheLevel = 1 then do
    let c ← index 2 e.coreId.toNat
    let i ← index 64 e.setIndex.toNat
    let set ← backwardL1 (s.l1d c i) e
    .ok (s.setL1d c i set)
  else if e.cacheLevel = 2 then do
    let i ← index 4096 e.setIndex.toNat
    let set ← backwardL2 (s.l2 i) e
    .ok (recomputeL2Dominant (s.setL2 i set) i)
  else .ok s

/-! ## Moving through the queue -/

structure Renderer where
  queue : EventQueue
  cursor : Option ℕ
  shadow : ShadowState
  currentSeq : BitVec 32

/-- The part of `renderer_init` that sets these fields. -/
def Renderer.init (queue : EventQueue) : Renderer where
  queue := queue
  cursor := none
  shadow := .zero
  currentSeq := 0

def EventQueue.node (queue : EventQueue) (e : ℕ) : Except Fault EventNode :=
  match queue.nodes[e]? with
  | some node => .ok node
  | none => .error .outOfBounds

/-- The loop of `step_forward`, from the event at `cursor` on; a queue of `fuel`
events is followed to its end. -/
def forwardWhile (queue : EventQueue) (seq : BitVec 32) :
    ℕ → ℕ → ShadowState → Except Fault (ℕ × ShadowState)
  | 0, cursor, shadow => .ok (cursor, shadow)
  | fuel + 1, cursor, shadow => do
      let node ← queue.node cursor
      match node.next with
      | none => .ok (cursor, shadow)
      | some next => do
          let nextNode ← queue.node next
          if nextNode.event.seq = seq then do
            let shadow ← applyEventForward shadow nextNode.event
            forwardWhile queue seq fuel next shadow
          else .ok (cursor, shadow)

def stepForward (r : Renderer) : Except Fault Renderer :=
  match r.cursor with
  | none =>
      match r.queue.first with
      | none => .ok r
      | some first => do
          let node ← r.queue.node first
          let shadow ← applyEventForward r.shadow node.event
          let seq := node.event.seq
          let (cursor, shadow) ← forwardWhile r.queue seq r.queue.nodes.length first shadow
          .ok { r with cursor := some cursor, shadow := shadow, currentSeq := seq }
  | some cursor => do
      let node ← r.queue.node cursor
      match node.next with
      | none => .ok r
      | some next => do
          let nextNode ← r.queue.node next
          let nextSeq := nextNode.event.seq
          let (cursor, shadow) ← forwardWhile r.queue nextSeq r.queue.nodes.length cursor r.shadow
          .ok { r with cursor := some cursor, shadow := shadow, currentSeq := nextSeq }

def backwardWhile (queue : EventQueue) (seq : BitVec 32) :
    ℕ → Option ℕ → ShadowState → Except Fault (Option ℕ × ShadowState)
  | 0, cursor, shadow => .ok (cursor, shadow)
  | _ + 1, none, shadow => .ok (none, shadow)
  | fuel + 1, some cursor, shadow => do
      let node ← queue.node cursor
      if node.event.seq = seq then do
        let shadow ← applyEventBackward shadow node.event
        backwardWhile queue seq fuel node.prev shadow
      else .ok (some cursor, shadow)

def stepBackward (r : Renderer) : Except Fault Renderer :=
  match r.cursor with
  | none => .ok r
  | some cursor => do
      let node ← r.queue.node cursor
      let (cursor, shadow) ← backwardWhile r.queue node.event.seq r.queue.nodes.length
        (some cursor) r.shadow
      match cursor with
      | some cursor => do
          let node ← r.queue.node cursor
          .ok { r with cursor := some cursor, shadow := shadow, currentSeq := node.event.seq }
      | none => .ok { r with cursor := none, shadow := shadow, currentSeq := 0 }

/-- A key press. -/
inductive Move where
  | stepForward
  | stepBackward
  deriving DecidableEq, Repr

def Renderer.move (r : Renderer) : Move → Except Fault Renderer
  | .stepForward => CacheSimulator.stepForward r
  | .stepBackward => CacheSimulator.stepBackward r

end CacheSimulator
