import CacheSimulator.Event
import CacheSimulator.Library.LittleEndian

/-!
# The event queue and the trace file

`EventQueue` of `event.h` with its doubly linked list, and `write_trace` and
`read_trace` of `event.cpp`. A file is the list of its bytes; opening it and
reading it do not fail.
-/

namespace CacheSimulator

/-! ## The queue -/

/-- An `Event` of the list. A pointer to an event is its number in the order of
allocation. -/
structure EventNode where
  prev : Option ℕ
  next : Option ℕ
  event : Event

/-- `EventQueue`; `nodes` is what its pool has allocated. -/
structure EventQueue where
  nodes : List EventNode
  first : Option ℕ
  last : Option ℕ
  nextSeq : BitVec 32
  count : ℕ

namespace EventQueue

def empty : EventQueue where
  nodes := []
  first := none
  last := none
  nextSeq := 0
  count := 0

/-- `begin_step`: the number of the step, and the queue after it. -/
def beginStep (queue : EventQueue) : BitVec 32 × EventQueue :=
  (queue.nextSeq, { queue with nextSeq := queue.nextSeq + 1 })

/-- `push`: the new node, and the two links to it. -/
def push (queue : EventQueue) (event : Event) : EventQueue :=
  let e := queue.nodes.length
  let nodes :=
    match queue.last with
    | some last => queue.nodes.modify last fun node => { node with next := some e }
    | none => queue.nodes
  { nodes := nodes ++ [⟨queue.last, none, event⟩]
    first := if queue.last.isSome then queue.first else some e
    last := some e
    nextSeq := queue.nextSeq
    count := queue.count + 1 }

/-- The events in the order of the `next` links from `e` on; a list of `fuel`
events is followed to its end. -/
def follow (queue : EventQueue) : ℕ → Option ℕ → List Event
  | 0, _ => []
  | _ + 1, none => []
  | fuel + 1, some e =>
      match queue.nodes[e]? with
      | some node => node.event :: queue.follow fuel node.next
      | none => []

/-- The list is linked both ways, ends at `first` and `last`, and holds `events`. -/
structure Linked (queue : EventQueue) (events : List Event) : Prop where
  nodes : queue.nodes = events.mapIdx fun i event =>
    ⟨if i = 0 then none else some (i - 1),
      if i + 1 < events.length then some (i + 1) else none, event⟩
  first : queue.first = if events = [] then none else some 0
  last : queue.last = if events = [] then none else some (events.length - 1)
  count : queue.count = events.length

theorem Linked.nodes_length {queue : EventQueue} {events : List Event}
    (h : queue.Linked events) : queue.nodes.length = events.length := by
  rw [h.nodes, List.length_mapIdx]

theorem linked_empty : empty.Linked [] :=
  ⟨rfl, rfl, rfl, rfl⟩

theorem Linked.beginStep {queue : EventQueue} {events : List Event} (h : queue.Linked events) :
    queue.beginStep.2.Linked events :=
  ⟨h.nodes, h.first, h.last, h.count⟩

theorem Linked.push {queue : EventQueue} {events : List Event} (h : queue.Linked events)
    (event : Event) : (queue.push event).Linked (events ++ [event]) := by
  have hlast : queue.last = if events = [] then none else some (events.length - 1) := h.last
  by_cases hnil : events = []
  · subst hnil
    have hnodes : queue.nodes = [] := h.nodes
    have hnone : queue.last = none := h.last
    constructor
    · simp [EventQueue.push, hnone, hnodes]
    · simp [EventQueue.push, hnone, hnodes]
    · simp [EventQueue.push, hnodes]
    · simp [EventQueue.push, h.count]
  · have hsome : queue.last = some (events.length - 1) := by rw [hlast, if_neg hnil]
    have hpos : 0 < events.length := List.length_pos_iff.mpr hnil
    constructor
    · simp only [EventQueue.push, hsome, h.nodes_length, List.mapIdx_concat]
      congr 1
      · rw [h.nodes]
        apply List.ext_getElem
        · simp
        · intro i hi hi'
          rw [List.getElem_modify, List.getElem_mapIdx, List.getElem_mapIdx]
          rw [List.length_mapIdx] at hi'
          by_cases hi : events.length - 1 = i
          · subst hi
            simp [Nat.sub_add_cancel hpos]
          · have hlt : i + 1 < events.length := by omega
            have hlt' : i + 1 < (events ++ [event]).length := by
              rw [List.length_append]
              omega
            rw [if_neg hi, if_pos hlt, if_pos hlt']
      · simp [hpos.ne']
    · simp [EventQueue.push, hsome, h.first, hnil]
    · simp [EventQueue.push, h.nodes_length]
    · simp [EventQueue.push, h.count]

theorem Linked.follow_from {queue : EventQueue} {events : List Event} (h : queue.Linked events)
    (fuel i : ℕ) (hfuel : events.length ≤ fuel + i) :
    queue.follow fuel (if i < events.length then some i else none) = events.drop i := by
  induction fuel generalizing i with
  | zero =>
      have hle : events.length ≤ i := by rwa [Nat.zero_add] at hfuel
      rw [List.drop_eq_nil_of_le hle, follow]
  | succ fuel ih =>
      by_cases hi : i < events.length
      · have hnode : queue.nodes[i]? = some ⟨if i = 0 then none else some (i - 1),
            if i + 1 < events.length then some (i + 1) else none, events[i]⟩ := by
          rw [h.nodes, List.getElem?_mapIdx, List.getElem?_eq_getElem hi, Option.map_some]
        have hrest := ih (i + 1) (by omega)
        rw [if_pos hi, follow, hnode, List.drop_eq_getElem_cons hi]
        simp only [hrest]
      · rw [if_neg hi, follow, List.drop_eq_nil_of_le (Nat.le_of_not_lt hi)]

theorem Linked.follow_first {queue : EventQueue} {events : List Event} (h : queue.Linked events) :
    queue.follow queue.nodes.length queue.first = events := by
  have hfollow := h.follow_from events.length 0 (Nat.le_refl _)
  rw [h.nodes_length, h.first]
  by_cases hnil : events = []
  · rw [if_pos hnil, hnil]
    rfl
  · rwa [if_neg hnil, if_pos (List.length_pos_iff.mpr hnil)] at *

theorem Linked.foldl_push {queue : EventQueue} {events : List Event} (h : queue.Linked events)
    (pushed : List Event) : (pushed.foldl EventQueue.push queue).Linked (events ++ pushed) := by
  induction pushed generalizing queue events with
  | nil => rwa [List.append_nil]
  | cons event pushed ih =>
      have hpush := ih (h.push event)
      rwa [List.append_assoc, List.singleton_append] at hpush

end EventQueue

/-! ## The file -/

def CacheEventType.toByte : CacheEventType → Byte
  | l1dHit => 0
  | l1dFill => 1
  | l1dEvict => 2
  | l2Hit => 3
  | l2Fill => 4
  | l2Evict => 5
  | snoopDowngrade => 6
  | snoopInvalidate => 7
  | prefetchL2 => 8
  | memFetch => 9
  | l1iSnoopInvalidate => 10
  | other k => BitVec.ofNat 8 (11 + k)

def CacheEventType.ofByte (byte : Byte) : CacheEventType :=
  match byte.toNat with
  | 0 => l1dHit
  | 1 => l1dFill
  | 2 => l1dEvict
  | 3 => l2Hit
  | 4 => l2Fill
  | 5 => l2Evict
  | 6 => snoopDowngrade
  | 7 => snoopInvalidate
  | 8 => prefetchL2
  | 9 => memFetch
  | 10 => l1iSnoopInvalidate
  | k + 11 => other (Fin.ofNat 245 k)

abbrev traceMagic : BitVec 32 := 0x4D565452#32

abbrev traceVersion : BitVec 16 := 1

structure TraceHeader where
  magic : BitVec 32
  version : BitVec 16
  recordSize : BitVec 16

/-- `TraceRecord`, without its padding. -/
structure TraceRecord where
  address : BitVec 64
  seq : BitVec 32
  setIndex : BitVec 16
  way : BitVec 8
  coreId : BitVec 8
  type : BitVec 8
  oldState : BitVec 8
  newState : BitVec 8
  cacheLevel : BitVec 8
  hasData : BitVec 8
  data : Line

abbrev traceHeaderSize : ℕ := 8

abbrev traceRecordSize : ℕ := 96

/-- The word in the `n` bytes of `bytes` from `start` on. -/
def field (bytes : List Byte) (start n : ℕ) : BitVec (8 * n) :=
  LittleEndian.decode (8 * n) ((bytes.drop start).take n)

namespace TraceHeader

def encode (hdr : TraceHeader) : List Byte :=
  LittleEndian.encode 4 hdr.magic ++ LittleEndian.encode 2 hdr.version ++
    LittleEndian.encode 2 hdr.recordSize

def decode (bytes : List Byte) : TraceHeader where
  magic := field bytes 0 4
  version := field bytes 4 2
  recordSize := field bytes 6 2

end TraceHeader

namespace TraceRecord

/-- The layout of the record: `pad[6]` before `data`, and five bytes after it up to
the alignment of the record. -/
def encode (rec : TraceRecord) : List Byte :=
  LittleEndian.encode 8 rec.address ++ LittleEndian.encode 4 rec.seq ++
    LittleEndian.encode 2 rec.setIndex ++ [rec.way, rec.coreId, rec.type, rec.oldState,
      rec.newState, rec.cacheLevel, rec.hasData] ++ List.replicate 6 0 ++ List.ofFn rec.data ++
    List.replicate 5 0

def decode (bytes : List Byte) : TraceRecord where
  address := field bytes 0 8
  seq := field bytes 8 4
  setIndex := field bytes 12 2
  way := bytes.getD 14 0
  coreId := bytes.getD 15 0
  type := bytes.getD 16 0
  oldState := bytes.getD 17 0
  newState := bytes.getD 18 0
  cacheLevel := bytes.getD 19 0
  hasData := bytes.getD 20 0
  data i := bytes.getD (27 + i) 0

/-- The record `write_trace` fills from an event. -/
def ofEvent (e : Event) : TraceRecord where
  address := e.address
  seq := e.seq
  setIndex := e.setIndex
  way := e.way
  coreId := e.coreId
  type := e.type.toByte
  oldState := e.oldState
  newState := e.newState
  cacheLevel := e.cacheLevel
  hasData := if e.data.isSome then 1 else 0
  data := e.data.getD fun _ => 0

/-- The event `read_trace` pushes for a record. -/
def toEvent (rec : TraceRecord) : Event where
  address := rec.address
  seq := rec.seq
  setIndex := rec.setIndex
  way := rec.way
  coreId := rec.coreId
  type := .ofByte rec.type
  oldState := rec.oldState
  newState := rec.newState
  cacheLevel := rec.cacheLevel
  data := if rec.hasData ≠ 0 then some rec.data else none

end TraceRecord

def writeTrace (queue : EventQueue) : List Byte :=
  TraceHeader.encode ⟨traceMagic, traceVersion, BitVec.ofNat 16 traceRecordSize⟩ ++
    (queue.follow queue.nodes.length queue.first).flatMap fun e => (TraceRecord.ofEvent e).encode

/-- The loop of `read_trace`, over at most `fuel` records. -/
def readRecords : ℕ → List Byte → EventQueue → EventQueue
  | 0, _, queue => queue
  | fuel + 1, bytes, queue =>
      if bytes.length < traceRecordSize then queue
      else
        readRecords fuel (bytes.drop traceRecordSize)
          (queue.push (TraceRecord.decode (bytes.take traceRecordSize)).toEvent)

/-- `queue->next_seq = queue->last ? queue->last->seq + 1 : 0`. -/
def EventQueue.resumeSeq (queue : EventQueue) : EventQueue :=
  { queue with
    nextSeq :=
      match queue.last.bind fun last => queue.nodes[last]? with
      | some node => node.event.seq + 1
      | none => 0 }

theorem EventQueue.Linked.resumeSeq {queue : EventQueue} {events : List Event}
    (h : queue.Linked events) :
    queue.resumeSeq.Linked events :=
  ⟨h.nodes, h.first, h.last, h.count⟩

/-- `read_trace`: `none` is `nullptr`. -/
def readTrace (bytes : List Byte) : Option EventQueue :=
  let hdr := TraceHeader.decode (bytes.take traceHeaderSize)
  if bytes.length < traceHeaderSize ∨ hdr.magic ≠ traceMagic then none
  else if hdr.version ≠ traceVersion ∨ hdr.recordSize ≠ BitVec.ofNat 16 traceRecordSize then none
  else
    let bytes := bytes.drop traceHeaderSize
    some (readRecords (bytes.length / traceRecordSize) bytes .empty).resumeSeq

/-! ## Round trips of a header and of a record -/

@[simp] theorem CacheEventType.ofByte_toByte (type : CacheEventType) :
    CacheEventType.ofByte type.toByte = type := by
  cases type with
  | other k =>
      have hk : (BitVec.ofNat 8 (11 + k.val)).toNat = k.val + 11 := by
        rw [BitVec.toNat_ofNat, Nat.mod_eq_of_lt (by omega), Nat.add_comm]
      simp only [toByte, ofByte, hk]
      congr 1
      exact Fin.ofNat_val_eq_self k
  | _ => rfl

theorem TraceRecord.toEvent_ofEvent (e : Event) : (TraceRecord.ofEvent e).toEvent = e := by
  obtain ⟨address, seq, setIndex, way, coreId, type, oldState, newState, cacheLevel, data⟩ := e
  cases data with
  | none => simp [TraceRecord.ofEvent, TraceRecord.toEvent]
  | some line => simp [TraceRecord.ofEvent, TraceRecord.toEvent]

theorem field_append (n : ℕ) (pre : List Byte) (x : BitVec (8 * n)) (post : List Byte)
    (start : ℕ) (h : pre.length = start) :
    field (pre ++ (LittleEndian.encode n x ++ post)) start n = x := by
  subst h
  have htake : ((pre ++ (LittleEndian.encode n x ++ post)).drop pre.length).take n =
      LittleEndian.encode n x := by
    rw [List.drop_left, List.take_left' (LittleEndian.encode_length n x)]
  rw [field, htake, LittleEndian.decode_encode_self]

theorem getD_append_add (pre post : List Byte) (start i : ℕ) (h : pre.length = start) :
    (pre ++ post).getD (start + i) 0 = post.getD i 0 := by
  subst h
  rw [List.getD_eq_getElem?_getD, List.getElem?_append_right (Nat.le_add_right _ _),
    Nat.add_sub_cancel_left, List.getD_eq_getElem?_getD]

namespace TraceHeader

@[simp] theorem encode_length (hdr : TraceHeader) : hdr.encode.length = traceHeaderSize := by
  simp [encode]

theorem decode_encode (hdr : TraceHeader) : decode hdr.encode = hdr := by
  obtain ⟨magic, version, recordSize⟩ := hdr
  have hmagic := field_append 4 [] magic
    (LittleEndian.encode 2 version ++ LittleEndian.encode 2 recordSize) 0 rfl
  have hversion := field_append 2 (LittleEndian.encode 4 magic) version
    (LittleEndian.encode 2 recordSize) 4 (LittleEndian.encode_length _ _)
  have hsize := field_append 2 (LittleEndian.encode 4 magic ++ LittleEndian.encode 2 version)
    recordSize [] 6 (by simp)
  simp only [List.nil_append, List.append_nil, List.append_assoc] at hmagic hversion hsize
  simp only [decode, encode, List.append_assoc, hmagic, hversion, hsize]

end TraceHeader

namespace TraceRecord

@[simp] theorem encode_length (rec : TraceRecord) : rec.encode.length = traceRecordSize := by
  simp [encode]

theorem decode_encode (rec : TraceRecord) : decode rec.encode = rec := by
  obtain ⟨address, seq, setIndex, way, coreId, type, oldState, newState, cacheLevel, hasData,
    data⟩ := rec
  let bytes : List Byte := [way, coreId, type, oldState, newState, cacheLevel, hasData]
  let tail : List Byte := bytes ++ (List.replicate 6 0 ++ (List.ofFn data ++ List.replicate 5 0))
  let words : List Byte := LittleEndian.encode 8 address ++ (LittleEndian.encode 4 seq ++
    LittleEndian.encode 2 setIndex)
  have hwords : words.length = 14 := by simp [words]
  have hencode : encode ⟨address, seq, setIndex, way, coreId, type, oldState, newState, cacheLevel,
      hasData, data⟩ = words ++ tail := by
    simp only [encode, words, tail, bytes, List.append_assoc]
  have haddress : field (words ++ tail) 0 8 = address := by
    have h := field_append 8 [] address (LittleEndian.encode 4 seq ++
      (LittleEndian.encode 2 setIndex ++ tail)) 0 rfl
    simpa only [words, List.append_assoc, List.nil_append] using h
  have hseq : field (words ++ tail) 8 4 = seq := by
    have h := field_append 4 (LittleEndian.encode 8 address) seq
      (LittleEndian.encode 2 setIndex ++ tail) 8 (LittleEndian.encode_length _ _)
    simpa only [words, List.append_assoc] using h
  have hset : field (words ++ tail) 12 2 = setIndex := by
    have h := field_append 2 (LittleEndian.encode 8 address ++ LittleEndian.encode 4 seq) setIndex
      tail 12 (by simp)
    simpa only [words, List.append_assoc] using h
  have hbyte : ∀ i, (words ++ tail).getD (14 + i) 0 = tail.getD i 0 :=
    fun i => getD_append_add words tail 14 i hwords
  have hdata : ∀ i : Fin 64, (words ++ tail).getD (27 + i) 0 = data i := by
    intro i
    have h : (List.ofFn data ++ List.replicate 5 0).getD i 0 = data i := by
      rw [List.getD_eq_getElem?_getD, List.getElem?_append_left (by simp),
        List.getElem?_ofFn, dif_pos i.isLt]
      rfl
    rw [show 27 + (i : ℕ) = 14 + (7 + (6 + i)) by omega, hbyte, ← h]
    rw [getD_append_add bytes _ 7 (6 + i) rfl, getD_append_add _ _ 6 i rfl]
  rw [hencode]
  simp only [decode, haddress, hseq, hset, hdata]
  simp only [hbyte 0, hbyte 1, hbyte 2, hbyte 3, hbyte 4, hbyte 5, hbyte 6]
  rfl

end TraceRecord

end CacheSimulator
