import CacheSimulator.Renderer

/-!
# The viewer

`renderer_run` of `renderer.cpp`: the key presses of a frame, the playing, the
fading of the flashes and the drawing. Of what is drawn positions, labels and the
format of the texts are left out, and `draw_memory`, since the viewer is started
without a memory. An index outside a table is a fault.
-/

namespace CacheSimulator

/-! ## Drawing -/

structure Color where
  r : Byte
  g : Byte
  b : Byte
  a : Byte
  deriving DecidableEq

def mesiColors : Fin 4 → Color
  | 0 => ⟨80, 80, 80, 255⟩
  | 1 => ⟨220, 50, 50, 255⟩
  | 2 => ⟨50, 100, 220, 255⟩
  | 3 => ⟨50, 180, 80, 255⟩

def mesiColor (state : Byte) : Except Fault Color := do
  let i ← index 4 state.toNat
  .ok (mesiColors i)

def Renderer.current (r : Renderer) : Except Fault (Option EventNode) :=
  match r.cursor with
  | none => .ok none
  | some cursor => do
      let node ← r.queue.node cursor
      .ok (some node)

/-- A cell of a grid, and whether it has the border of the active cell or the
flash of a prefetch over it. -/
structure Cell where
  color : Color
  marked : Bool

def drawL1d (r : Renderer) (coreId : Fin 2) : Except Fault (List (List Cell)) := do
  let cur ← r.current
  (List.finRange 64).mapM fun s => (List.finRange 8).mapM fun w => do
    let color ← mesiColor ((r.shadow.l1d coreId s).state w)
    .ok ⟨color, cur.any fun node =>
      node.event.cacheLevel = 1 ∧ node.event.coreId.toNat = coreId.val ∧
        node.event.setIndex.toNat = s.val ∧ node.event.way.toNat = w.val⟩

def drawL2Overview (r : Renderer) : Except Fault (List Cell) :=
  (List.finRange 4096).mapM fun s => do
    let color ← mesiColor (r.shadow.l2Dominant s)
    .ok ⟨color, (List.finRange 16).any fun w => 0 < r.shadow.flash s w⟩

structure LogLine where
  event : Event
  highlighted : Bool

/-- The loop of `draw_event_log` that goes back by `lines` events. -/
def logStart (queue : EventQueue) : ℕ → ℕ → Except Fault ℕ
  | 0, e => .ok e
  | lines + 1, e => do
      let node ← queue.node e
      match node.prev with
      | none => .ok e
      | some prev => logStart queue lines prev

def logLines (queue : EventQueue) (cursor : ℕ) : ℕ → Option ℕ → Except Fault (List LogLine)
  | 0, _ => .ok []
  | _ + 1, none => .ok []
  | lines + 1, some e => do
      let node ← queue.node e
      let rest ← logLines queue cursor lines node.next
      .ok (⟨node.event, e = cursor⟩ :: rest)

abbrev logVisible := 50

def drawEventLog (r : Renderer) : Except Fault (List LogLine) :=
  match r.cursor with
  | none => .ok []
  | some cursor => do
      let e ← logStart r.queue (logVisible / 2) cursor
      logLines r.queue cursor logVisible (some e)

/-- The line of a core in the detail pane: its bytes, of which those accessed are
highlighted, or `(empty)`. -/
structure LineDetail where
  way : ℕ
  state : Byte
  bytes : Option (List (Byte × Bool))

def drawCoreCacheline (r : Renderer) (coreId : Fin 2) (l1Set highlightOffset : ℕ)
    (isActive : Bool) : Except Fault LineDetail := do
  let i ← index 64 l1Set
  let set := r.shadow.l1d coreId i
  let lineData (w : Fin 8) : List (Byte × Bool) := (List.finRange 64).map fun b =>
    (set.data w b, isActive && (highlightOffset ≤ b.val && b.val < highlightOffset + 4))
  let cur ← r.current
  match cur, isActive with
  | some node, true => do
      let w ← index 8 node.event.way.toNat
      .ok ⟨w, set.state w,
        if set.state w ≠ MESIState.invalid.toByte then some (lineData w) else none⟩
  | _, _ =>
      match (List.finRange 8).find? fun w => set.state w ≠ MESIState.invalid.toByte with
      | some w => .ok ⟨w, set.state w, some (lineData w)⟩
      | none => .ok ⟨0, MESIState.invalid.toByte, none⟩

/-- The panes of the two cores; nothing is drawn when the event is not one of L1. -/
def drawCachelineDetail (r : Renderer) : Except Fault (Option (LineDetail × LineDetail)) := do
  let cur ← r.current
  match cur with
  | none => .ok none
  | some node =>
      if node.event.cacheLevel ≠ 1 then .ok none
      else do
        let offset := (node.event.address &&& 0x3F#64).toNat
        let l1Set := node.event.setIndex.toNat
        let first ← drawCoreCacheline r 0 l1Set offset (node.event.coreId = 0)
        let second ← drawCoreCacheline r 1 l1Set offset (node.event.coreId = 1)
        .ok (some (first, second))

/-- The five counters of a core, and what its rate is a quotient of. -/
structure StatsLines where
  counters : ShadowCounters
  rate : Option (ℕ × ℕ)

def drawStats (r : Renderer) (coreId : Fin 2) : StatsLines :=
  let sc := r.shadow.counters coreId
  let total := sc.l1dHits + sc.l2Hits + sc.memFetches
  ⟨sc, if 0 < total then some (sc.l1dHits, total) else none⟩

inductive PlayState where
  | finished
  | playing
  | paused
  deriving DecidableEq

structure Status where
  state : PlayState
  step : BitVec 32
  maxSeq : BitVec 32
  speed : ℕ

/-! ## The loop -/

/-- The fields of `Renderer` that `renderer_run` uses besides those of the replay. -/
structure Viewer extends Renderer where
  playing : Bool
  speed : ℕ

def Viewer.init (queue : EventQueue) : Viewer :=
  { Renderer.init queue with playing := false, speed := 1 }

def EventQueue.maxSeq (queue : EventQueue) : Except Fault (BitVec 32) :=
  match queue.last with
  | none => .ok 0
  | some last => do
      let node ← queue.node last
      .ok node.event.seq

def drawControls (v : Viewer) : Except Fault Status := do
  let cur ← v.current
  let atEnd := cur.any fun node => node.next.isNone
  let maxSeq ← v.queue.maxSeq
  .ok ⟨if atEnd then .finished else if v.playing then .playing else .paused,
    v.currentSeq, maxSeq, v.speed⟩

structure Picture where
  controls : Status
  l1d : Fin 2 → List (List Cell)
  stats : Fin 2 → StatsLines
  detail : Option (LineDetail × LineDetail)
  l2 : List Cell
  log : List LogLine

/-- The calls between `SDL_RenderClear` and `SDL_RenderPresent`. -/
def drawFrame (v : Viewer) : Except Fault Picture := do
  let controls ← drawControls v
  let first ← drawL1d v.toRenderer 0
  let second ← drawL1d v.toRenderer 1
  let detail ← drawCachelineDetail v.toRenderer
  let l2 ← drawL2Overview v.toRenderer
  let log ← drawEventLog v.toRenderer
  .ok ⟨controls, fun c => if c = 0 then first else second, drawStats v.toRenderer, detail, l2, log⟩

/-- An event that `SDL_PollEvent` returns: the window is closed, a key is pressed,
or anything else. -/
inductive Input where
  | quit
  | escape
  | space
  | right
  | left
  | up
  | down
  | other
  deriving DecidableEq, Repr

/-- One turn of the loop over `SDL_PollEvent`, with `running`. -/
def handleInput (state : Bool × Viewer) (input : Input) : Except Fault (Bool × Viewer) := do
  let (running, v) := state
  match input with
  | .quit => .ok (false, v)
  | .escape => .ok (false, v)
  | .space => .ok (running, { v with playing := !v.playing })
  | .right => do
      let r ← stepForward v.toRenderer
      .ok (running, { v with toRenderer := r })
  | .left => do
      let r ← stepBackward v.toRenderer
      .ok (running, { v with toRenderer := r })
  | .up => .ok (running, if v.speed < 64 then { v with speed := v.speed * 2 } else v)
  | .down => .ok (running, if 1 < v.speed then { v with speed := v.speed / 2 } else v)
  | .other => .ok (running, v)

/-- The loop that plays, with `turns` left. -/
def play : ℕ → Viewer → Except Fault Viewer
  | 0, v => .ok v
  | turns + 1, v => do
      let cur ← v.current
      if cur.all fun node => node.next.isSome then do
        let r ← stepForward v.toRenderer
        play turns { v with toRenderer := r }
      else .ok { v with playing := false }

def playFrame (v : Viewer) : Except Fault Viewer :=
  if v.playing then play v.speed v else .ok v

def ShadowState.fade (s : ShadowState) : ShadowState :=
  { s with flash := fun i w => if 0 < s.flash i w then s.flash i w - 1 else s.flash i w }

/-- One turn of the loop of `renderer_run`, with the new value of `running`. -/
def renderFrame (v : Viewer) (inputs : List Input) : Except Fault (Bool × Viewer × Picture) := do
  let (running, v) ← inputs.foldlM handleInput (true, v)
  let v ← playFrame v
  let v := { v with shadow := v.shadow.fade }
  let picture ← drawFrame v
  .ok (running, v, picture)

/-- The loop, frame by frame, for as long as the inputs of the frames are given. -/
def rendererRun : List (List Input) → Viewer → Except Fault (Viewer × List Picture)
  | [], v => .ok (v, [])
  | inputs :: frames, v => do
      let (running, v, picture) ← renderFrame v inputs
      if running then do
        let (v, pictures) ← rendererRun frames v
        .ok (v, picture :: pictures)
      else .ok (v, [picture])

end CacheSimulator
