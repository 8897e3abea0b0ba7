import CacheSimulator.Uncore
import CacheSimulator.Event

/-!
# The bus transactions

`cpu.h` and `cpu.cpp`: translation, snoops, the two evictors, the prefetchers
and the three entry points `cpu_read`, `cpu_write` and `cpu_fetch`. Each entry
point holds `bus_lock` throughout, so a call is one atomic step on the state
`Sim`.

A pointer to a set is the pair of its coordinates, so a set is read again from
the state wherever the source dereferences the pointer after a callee may have
changed it.
-/

namespace CacheSimulator

/-- `CPU`: the cores and the `L2_SETS = 4096` sets of the shared L2. -/
structure CPU where
  cores : CoreId → Core
  l2Sets : Fin 4096 → L2Set

/-- An entry of the history variable `Sim.history`, which the source does not
have: a line copied from `mem->data` into L2, or bytes stored by `cpu_write` at
a physical address. -/
inductive MemOp where
  | fill (line : Addr) (bytes : Line)
  | store (address : Addr) (data : List Byte)

/-- The state of the simulator: the `CPU` and the `Memory` the calls act on, the
root page tables the cores' `active_pml4` pointers reach, whether
`event_callback` is installed in `g_cpu_callback`, the `current_seq` of the
thread that holds the bus lock, and the events recorded so far. -/
structure Sim where
  cpu : CPU
  mem : Memory
  pml4s : ℕ → PageTable
  callback : Bool
  currentSeq : BitVec 32
  events : List Event
  history : List MemOp

namespace Sim

def l1 (s : Sim) (kind : L1Kind) (c : CoreId) (i : Fin 64) : L1Set :=
  match kind with
  | .data => (s.cpu.cores c).l1d i
  | .instr => (s.cpu.cores c).l1i i

def l2 (s : Sim) (i : Fin 4096) : L2Set := s.cpu.l2Sets i

def modifyCore (s : Sim) (c : CoreId) (f : Core → Core) : Sim :=
  { s with cpu := { s.cpu with cores := Function.update s.cpu.cores c (f (s.cpu.cores c)) } }

def setL1 (s : Sim) (kind : L1Kind) (c : CoreId) (i : Fin 64) (set : L1Set) : Sim :=
  s.modifyCore c fun core =>
    match kind with
    | .data => { core with l1d := Function.update core.l1d i set }
    | .instr => { core with l1i := Function.update core.l1i i set }

def setL2 (s : Sim) (i : Fin 4096) (set : L2Set) : Sim :=
  { s with cpu := { s.cpu with l2Sets := Function.update s.cpu.l2Sets i set } }

def modifyPmc (s : Sim) (c : CoreId) (f : PerfCounters → PerfCounters) : Sim :=
  s.modifyCore c fun core => { core with pmc := f core.pmc }

/-- `if (g_cpu_callback) g_cpu_callback(...)` with `event_callback` installed:
`EventQueue::push` of one event. -/
def emit (s : Sim) (type : CacheEventType) (coreId level set way : ℕ) (addr : Addr)
    (oldState newState : MESIState) (data : Option Line) : Sim :=
  if s.callback then
    { s with
      events := s.events ++
        [{ address := addr
           seq := s.currentSeq
           setIndex := BitVec.ofNat 16 set
           way := BitVec.ofNat 8 way
           coreId := BitVec.ofNat 8 coreId
           type := type
           oldState := oldState.toByte
           newState := newState.toByte
           cacheLevel := BitVec.ofNat 8 level
           data := data }] }
  else s

def record (s : Sim) (op : MemOp) : Sim := { s with history := s.history ++ [op] }

end Sim

/-! ## Loops over a sharer mask -/

/-- `std::countr_zero` of a byte. -/
def countrZero (mask : BitVec 8) : ℕ :=
  ((List.range 8).find? fun c => mask.getLsbD c).getD 8

/-- The loop

`while (sharers) { c = countr_zero(sharers); sharers &= sharers - 1; body }`,

of at most eight rounds. A bit at or above `NUM_CORES` would index `cores` out
of bounds. -/
def forEachSharer {σ : Type*} (body : CoreId → σ → Except Fault σ) :
    ℕ → BitVec 8 → σ → Except Fault σ
  | 0, _, s => .ok s
  | fuel + 1, sharers, s =>
      if sharers = 0 then .ok s
      else if h : countrZero sharers < 2 then do
        let s ← body ⟨countrZero sharers, h⟩ s
        forEachSharer body fuel (sharers &&& (sharers - 1)) s
      else .error .outOfBounds

/-! ## Snoops -/

/-- One round of `snoop_downgrade_peers`; the pair carries `line_inout`. -/
def snoopDowngradePeer (l1Index : Fin 64) (l1Tag : Addr) (l2Index : Fin 4096)
    (l2HitWay : Fin 16) (c : CoreId) (p : Sim × Line) : Except Fault (Sim × Line) :=
  let (s, line) := p
  let peer := s.l1 .data c l1Index
  match findL1Way peer l1Tag with
  | none => .ok (s, line)
  | some w =>
      let (s, line) :=
        if peer.state w = .modified then
          (s.setL2 l2Index ((s.l2 l2Index).setData l2HitWay (peer.data w)), peer.data w)
        else (s, line)
      let s := s.emit .snoopDowngrade c 1 l1Index w 0 (peer.state w) .shared (some (peer.data w))
      .ok (s.setL1 .data c l1Index (peer.setState w .shared), line)

def snoopDowngradePeers (s : Sim) (sharers : BitVec 8) (l1Index : Fin 64) (l1Tag : Addr)
    (line : Line) (l2Index : Fin 4096) (l2HitWay : Fin 16) : Except Fault (Sim × Line) :=
  let s := s.setL2 l2Index ((s.l2 l2Index).setState l2HitWay .shared)
  forEachSharer (snoopDowngradePeer l1Index l1Tag l2Index l2HitWay) 8 sharers (s, line)

def snoopInvalidatePeerI (l1Index : Fin 64) (l1Tag : Addr) (c : CoreId) (s : Sim) :
    Except Fault Sim :=
  let peer := s.l1 .instr c l1Index
  match findL1Way peer l1Tag with
  | none => .ok s
  | some w =>
      let s := s.emit .l1iSnoopInvalidate c 1 l1Index w 0 (peer.state w) .invalid none
      .ok (s.setL1 .instr c l1Index (peer.setState w .invalid))

def snoopInvalidatePeersI (s : Sim) (iSharers : BitVec 8) (l1Index : Fin 64) (l1Tag : Addr) :
    Except Fault Sim :=
  forEachSharer (snoopInvalidatePeerI l1Index l1Tag) 8 iSharers s

/-- One round of `snoop_invalidate_peers`; the pair carries `*line_out`, which is
absent when `line_out` is `nullptr`. -/
def snoopInvalidatePeer (l1Index : Fin 64) (l1Tag : Addr) (l2Index : Fin 4096)
    (l2Way : Fin 16) (c : CoreId) (p : Sim × Option Line) : Except Fault (Sim × Option Line) :=
  let (s, lineOut) := p
  let peer := s.l1 .data c l1Index
  let (s, lineOut) :=
    match findL1Way peer l1Tag with
    | none => (s, lineOut)
    | some w =>
        let lineOut :=
          if peer.state w = MESIState.modified then lineOut.map fun _ => peer.data w else lineOut
        let s := s.emit .snoopInvalidate c 1 l1Index w 0 (peer.state w) .invalid
          (some (peer.data w))
        (s.setL1 .data c l1Index (peer.setState w .invalid), lineOut)
  .ok (s.setL2 l2Index (l2ClearCoreValidWay (s.l2 l2Index) .data l2Way c), lineOut)

def snoopInvalidatePeers (s : Sim) (sharers : BitVec 8) (l1Index : Fin 64) (l1Tag : Addr)
    (lineOut : Option Line) (l2Index : Fin 4096) (l2Way : Fin 16) :
    Except Fault (Sim × Option Line) :=
  forEachSharer (snoopInvalidatePeer l1Index l1Tag l2Index l2Way) 8 sharers (s, lineOut)

/-! ## Translation -/

def tlbIndex (sets : ℕ) [NeZero sets] (virtualPageNum : Addr) : Fin sets :=
  Fin.ofNat sets (virtualPageNum &&& BitVec.ofNat 64 (sets - 1)).toNat

/-- The one-level `translate`: the physical address, or `none` on a page fault,
and the TLB after the call. -/
def translate {sets : ℕ} [NeZero sets] (tlb : Fin sets → TLBSet) (pml4 : PageTable)
    (mem : Memory) (virtualAddress : Addr) : Option Addr × (Fin sets → TLBSet) :=
  let virtualPageNum := toFrame virtualAddress
  let i := tlbIndex sets virtualPageNum
  let (found, set) := tlbLookup (tlb i) virtualPageNum
  let tlb := Function.update tlb i set
  match found with
  | some physicalFrame => (some (toAddress physicalFrame (virtualAddress &&& 0xFFF#64)), tlb)
  | none =>
      match pageWalk pml4 mem virtualAddress with
      | some physicalAddress =>
          (some physicalAddress,
            Function.update tlb i (tlbFill (tlb i) virtualPageNum (toFrame physicalAddress)))
      | none => (none, tlb)

def translate2 {sets1 sets2 : ℕ} [NeZero sets1] [NeZero sets2] (tlb1 : Fin sets1 → TLBSet)
    (tlb2 : Fin sets2 → TLBSet) (pml4 : PageTable) (mem : Memory) (virtualAddress : Addr) :
    Option Addr × (Fin sets1 → TLBSet) × (Fin sets2 → TLBSet) :=
  let virtualPageNum := toFrame virtualAddress
  let i := tlbIndex sets1 virtualPageNum
  let j := tlbIndex sets2 virtualPageNum
  let (found1, set1) := tlbLookup (tlb1 i) virtualPageNum
  let tlb1 := Function.update tlb1 i set1
  match found1 with
  | some physicalFrame =>
      (some (toAddress physicalFrame (virtualAddress &&& 0xFFF#64)), tlb1, tlb2)
  | none =>
      let (found2, set2) := tlbLookup (tlb2 j) virtualPageNum
      let tlb2 := Function.update tlb2 j set2
      match found2 with
      | some physicalFrame =>
          (some (toAddress physicalFrame (virtualAddress &&& 0xFFF#64)),
            Function.update tlb1 i (tlbFill (tlb1 i) virtualPageNum physicalFrame), tlb2)
      | none =>
          match pageWalk pml4 mem virtualAddress with
          | some physicalAddress =>
              let frame := toFrame physicalAddress
              (some physicalAddress,
                Function.update tlb1 i (tlbFill (tlb1 i) virtualPageNum frame),
                Function.update tlb2 j (tlbFill (tlb2 j) virtualPageNum frame))
          | none => (none, tlb1, tlb2)

def translateData (s : Sim) (c : CoreId) (virtualAddress : Addr) : Option Addr × Sim :=
  let core := s.cpu.cores c
  let (found, tlb1, tlb2) :=
    translate2 core.l1Dtlb core.l2Dtlb (s.pml4s core.activePml4) s.mem virtualAddress
  (found, s.modifyCore c fun core => { core with l1Dtlb := tlb1, l2Dtlb := tlb2 })

def translateInstr (s : Sim) (c : CoreId) (virtualAddress : Addr) : Option Addr × Sim :=
  let core := s.cpu.cores c
  let (found, tlb) := translate core.itlb (s.pml4s core.activePml4) s.mem virtualAddress
  (found, s.modifyCore c fun core => { core with itlb := tlb })

/-! ## Eviction -/

/-- The clean branch of `evict_l1`: the core's bit goes, and a SHARED line that
has lost its last L1 copy becomes EXCLUSIVE. -/
def evictL1Clean (l2Set : L2Set) (kind : L1Kind) (l2Way : Fin 16) (coreId : CoreId) : L2Set :=
  let l2Set := l2ClearCoreValidWay l2Set kind l2Way coreId
  if l2Set.coreValidD l2Way = 0 ∧ l2Set.coreValidI l2Way = 0 ∧ l2Set.state l2Way = .shared then
    l2Set.setState l2Way .exclusive
  else l2Set

/-- `evict_l1<IS_INSTR>`: a free way of the set, after evicting the victim if
there was none. -/
def evictL1 (kind : L1Kind) (s : Sim) (l1Index : Fin 64) (coreId : CoreId) :
    Except Fault (Sim × Fin 8) :=
  let l1Set := s.l1 kind coreId l1Index
  match (List.finRange 8).find? fun w => l1Set.state w == .invalid with
  | some w => .ok (s, w)
  | none =>
      let victim := plruVictimWay 8 l1Set.plruBits
      let victimAddr := l1ToAddr (l1Set.tag victim) l1Index
      let l2Index := l2ToIndex victimAddr
      let l2Set := s.l2 l2Index
      match l2FindWay l2Set (l2ToTag victimAddr) with
      | none => .error .evictL1NoL2Line
      | some l2Way =>
          let l2Set :=
            match kind with
            | .data =>
                if l1Set.state victim = .modified then
                  l2CacheWriteWay l2Set coreId l2Way (l1Set.data victim)
                else evictL1Clean l2Set .data l2Way coreId
            | .instr => evictL1Clean l2Set .instr l2Way coreId
          let s := s.setL2 l2Index l2Set
          let s := s.emit .l1dEvict coreId 1 l1Index victim victimAddr (l1Set.state victim)
            .invalid (some (l1Set.data victim))
          .ok (s.setL1 kind coreId l1Index (l1Set.setState victim .invalid), victim)

/-- The L1D part of a round of `evict_l2`. -/
def backInvalidateD (l2Index : Fin 4096) (l2Victim : Fin 16) (l2VictimAddr : Addr) (c : CoreId)
    (s : Sim) : Except Fault Sim :=
  let l1Index := l1ToIndex l2VictimAddr
  let peer := s.l1 .data c l1Index
  match findL1Way peer (l1ToTag l2VictimAddr) with
  | none => .error .evictL2StaleCoreValidD
  | some w =>
      let s :=
        if peer.state w = .modified then
          s.setL2 l2Index
            (((s.l2 l2Index).setData l2Victim (peer.data w)).setState l2Victim .modified)
        else s
      let s := s.emit .snoopInvalidate c 1 l1Index w l2VictimAddr (peer.state w) .invalid
        (some (peer.data w))
      .ok (s.setL1 .data c l1Index (peer.setState w .invalid))

/-- The L1I part of a round of `evict_l2`. -/
def backInvalidateI (l2VictimAddr : Addr) (c : CoreId) (s : Sim) : Except Fault Sim :=
  let l1Index := l1ToIndex l2VictimAddr
  let peer := s.l1 .instr c l1Index
  match findL1Way peer (l1ToTag l2VictimAddr) with
  | none => .error .evictL2StaleCoreValidI
  | some w =>
      let s := s.emit .l1iSnoopInvalidate c 1 l1Index w l2VictimAddr (peer.state w) .invalid none
      .ok (s.setL1 .instr c l1Index (peer.setState w .invalid))

/-- One round of the loop of `evict_l2` over `valid_d | valid_i`. -/
def backInvalidate (l2Index : Fin 4096) (l2Victim : Fin 16) (l2VictimAddr : Addr)
    (validD validI : BitVec 8) (c : CoreId) (s : Sim) : Except Fault Sim :=
  (if validD.getLsbD c then backInvalidateD l2Index l2Victim l2VictimAddr c s
    else .ok s) >>= fun s =>
    if validI.getLsbD c then backInvalidateI l2VictimAddr c s else .ok s

/-- The write-back of `evict_l2`. -/
def writeBack (l2Index : Fin 4096) (l2Victim : Fin 16) (l2VictimAddr : Addr) (s : Sim) :
    Except Fault Sim :=
  if (s.l2 l2Index).state l2Victim = .modified then
    if l2VictimAddr + 64#64 > s.mem.size then .error .evictL2WriteBackBounds
    else do
      let mem ← s.mem.writeLine l2VictimAddr ((s.l2 l2Index).data l2Victim)
      .ok { s with mem := mem }
  else .ok s

/-- `evict_l2`: a free way of the set, after evicting the victim if there was
none. -/
def evictL2 (s : Sim) (l2Index : Fin 4096) : Except Fault (Sim × Fin 16) :=
  let l2Set := s.l2 l2Index
  match (List.finRange 16).find? fun w => l2Set.state w == .invalid with
  | some w => .ok (s, w)
  | none => do
      let l2Victim := plruVictimWay 16 l2Set.plruBits
      let l2VictimAddr := l2ToAddr (l2Set.tag l2Victim) l2Index
      let validD := l2Set.coreValidD l2Victim
      let validI := l2Set.coreValidI l2Victim
      let s ← forEachSharer (backInvalidate l2Index l2Victim l2VictimAddr validD validI) 8
        (validD ||| validI) s
      let s ← writeBack l2Index l2Victim l2VictimAddr s
      let l2Set := s.l2 l2Index
      let s := s.emit .l2Evict 0 2 l2Index l2Victim l2VictimAddr (l2Set.state l2Victim) .invalid
        (some (l2Set.data l2Victim))
      let l2Set := ((l2Set.setCoreValid .data l2Victim 0).setCoreValid .instr l2Victim 0).setState
        l2Victim .invalid
      .ok (s.setL2 l2Index l2Set, l2Victim)

/-! ## Prefetching -/

/-- `pf_fill_l2`: `false` when the page boundary or the end of memory blocks the
prefetch. -/
def pfFillL2 (s : Sim) (fromLine nextLine : Addr) : Except Fault (Sim × Bool) :=
  if nextLine &&& ~~~0xFFF#64 ≠ fromLine &&& ~~~0xFFF#64 then .ok (s, false)
  else if nextLine < 64#64 ∨ nextLine + 64#64 > s.mem.size then .ok (s, false)
  else
    let l2Index := l2ToIndex nextLine
    let l2Tag := l2ToTag nextLine
    match l2FindWay (s.l2 l2Index) l2Tag with
    | some _ => .ok (s, true)
    | none => do
        let (s, l2Victim) ← evictL2 s l2Index
        let bytes ← s.mem.readLine nextLine
        let l2Set ← l2CacheFillPrefetch (s.l2 l2Index) l2Tag l2Victim bytes .exclusive
        let s := (s.setL2 l2Index l2Set).record (.fill nextLine bytes)
        .ok (s.emit .prefetchL2 0 2 l2Index l2Victim nextLine .invalid .exclusive (some bytes),
          true)

def pfNextlineOnMiss (s : Sim) (missLine : Addr) : Except Fault Sim := do
  let (s, _) ← pfFillL2 s missLine (missLine + 64#64)
  .ok s

/-- Whether a stream matches a miss, and the stream as the match leaves it: the
body of the loop of `pf_stream_on_miss` down to the comment "Matched". -/
def Stream.onMiss (stream : Stream) (missLine : Addr) : Option Stream :=
  match stream.confidence with
  | .invalid => none
  | .training =>
      if missLine = stream.lastLine + 64#64 then
        some { stream with direction := .forward, confidence := .steady, prefetchHead := missLine }
      else if missLine = stream.lastLine - 64#64 then
        some { stream with direction := .backward, confidence := .steady, prefetchHead := missLine }
      else none
  | .steady =>
      let dir := stream.direction.toInt64
      let distFromLast := ((missLine - stream.lastLine) * dir).toInt
      let distFromHead := ((missLine - stream.prefetchHead) * dir).toInt
      if distFromLast < 64 ∨ distFromHead > 64 then none else some stream

/-- The burst of `pf_stream_on_miss`, of at most `fuel` prefetches. -/
def pfBurst (missLine : Addr) (stride : BitVec 64) :
    ℕ → Stream → Sim → Except Fault (Stream × Sim)
  | 0, stream, s => .ok (stream, s)
  | fuel + 1, stream, s =>
      let gap := ((stream.prefetchHead - missLine) * stride).toInt
      if gap ≥ 8 * 64 then .ok (stream, s)
      else do
        let next := stream.prefetchHead + stride * 64#64
        let (s, filled) ← pfFillL2 s stream.prefetchHead next
        if !filled then
          .ok ({ stream with confidence := .training, direction := .unknown }, s)
        else pfBurst missLine stride fuel { stream with prefetchHead := next } s

/-- Stores stream `i` of core `c` and marks it most recently used. -/
def Sim.setStream (s : Sim) (c : CoreId) (i : Fin 8) (stream : Stream) : Sim :=
  s.modifyCore c fun core =>
    { core with
      prefetcher :=
        { streams := Function.update core.prefetcher.streams i stream
          lruAge := pfLruUpdate core.prefetcher.lruAge i } }

def pfStreamOnMiss (s : Sim) (coreId : CoreId) (missLine : Addr) : Except Fault Sim :=
  let pf := (s.cpu.cores coreId).prefetcher
  match (List.finRange 8).findSome? fun i =>
      ((pf.streams i).onMiss missLine).map fun stream => (i, stream) with
  | some (i, stream) => do
      let (stream, s) ← pfBurst missLine stream.direction.toInt64 9
        { stream with lastLine := missLine } s
      .ok (s.setStream coreId i stream)
  | none =>
      let victim := pfLruEvict pf.lruAge
      .ok (s.setStream coreId victim
        { lastLine := missLine
          prefetchHead := missLine
          direction := .unknown
          confidence := .training })

/-! ## The three entry points

Each path of an entry point is a definition of its own, and the entry point
chooses the path. The result is `none` when the call returns `false`, and
otherwise the bytes it copies to the caller's buffer (none for a write). -/

/-- The part of an L2 hit that `cpu_read` and `cpu_fetch` have in common: read
the line and set the core's bit of the `kind` mask, then downgrade the other
cores if there are other sharers. The result says whether there are. -/
def busRead (kind : L1Kind) (s : Sim) (coreId : CoreId) (physicalAddress : Addr)
    (l2HitWay : Fin 16) : Except Fault (Sim × Line × Bool) :=
  let l2Index := l2ToIndex physicalAddress
  let (line, l2Set) := l2CacheReadWay (s.l2 l2Index) coreId l2HitWay kind
  let s := s.setL2 l2Index l2Set
  let dSharers := l2Set.coreValidD l2HitWay &&& ~~~coreBit coreId
  let iSharers := l2Set.coreValidI l2HitWay &&& ~~~coreBit coreId
  if dSharers ||| iSharers ≠ 0 then do
    let (s, line) ← snoopDowngradePeers s dSharers (l1ToIndex physicalAddress)
      (l1ToTag physicalAddress) line l2Index l2HitWay
    .ok (s, line, true)
  else .ok (s, line, false)

/-- The L2 bookkeeping at the end of a store: no L1I copy, the storing core as
the only L1D holder, state MODIFIED. -/
def claimForStore (l2Set : L2Set) (l2Way : Fin 16) (coreId : CoreId) : L2Set :=
  ((l2Set.setCoreValid .instr l2Way 0).setCoreValid .data l2Way (coreBit coreId)).setState l2Way
    .modified

def readL1Hit (s : Sim) (coreId : CoreId) (physicalAddress : Addr) (l1HitWay : Fin 8)
    (dataSize : ℕ) : Except Fault (Sim × Option (List Byte)) := do
  let l1Index := l1ToIndex physicalAddress
  let l1Set := s.l1 .data coreId l1Index
  let s := s.emit .l1dHit coreId 1 l1Index l1HitWay physicalAddress
    (l1Set.state l1HitWay) (l1Set.state l1HitWay) (some (l1Set.data l1HitWay))
  let s := s.modifyPmc coreId fun pmc => { pmc with l1dHits := pmc.l1dHits + 1 }
  let (data, l1Set) ← l1CacheReadWay l1Set l1HitWay (l1ToOffset physicalAddress) dataSize
  .ok (s.setL1 .data coreId l1Index l1Set, some data)

def readL2Hit (s : Sim) (coreId : CoreId) (physicalAddress : Addr) (l2HitWay : Fin 16)
    (dataSize : ℕ) : Except Fault (Sim × Option (List Byte)) := do
  let l1Index := l1ToIndex physicalAddress
  let l2Index := l2ToIndex physicalAddress
  let s := s.emit .l2Hit coreId 2 l2Index l2HitWay physicalAddress
    ((s.l2 l2Index).state l2HitWay) ((s.l2 l2Index).state l2HitWay) none
  let (s, victim) ← evictL1 .data s l1Index coreId
  let (s, line, otherSharers) ← busRead .data s coreId physicalAddress l2HitWay
  let fillState := if otherSharers then MESIState.shared else .exclusive
  let s := s.modifyPmc coreId fun pmc => { pmc with l2Hits := pmc.l2Hits + 1 }
  let s := s.setL1 .data coreId l1Index
    (l1CacheFill (s.l1 .data coreId l1Index) (l1ToTag physicalAddress) victim line fillState)
  let s := s.emit .l1dFill coreId 1 l1Index victim physicalAddress .invalid fillState (some line)
  let data ← line.copyOut (l1ToOffset physicalAddress) dataSize
  .ok (s, some data)

def readMiss (s : Sim) (coreId : CoreId) (physicalAddress : Addr) (dataSize : ℕ) :
    Except Fault (Sim × Option (List Byte)) :=
  let l1Index := l1ToIndex physicalAddress
  let l2Index := l2ToIndex physicalAddress
  let lineBase := toLineBase physicalAddress
  if lineBase + 64#64 > s.mem.size then .error .memFetchBounds
  else do
    let (s, l2Victim) ← evictL2 s l2Index
    let (s, l1Victim) ← evictL1 .data s l1Index coreId
    let memLine ← s.mem.readLine lineBase
    let l2Set ← l2CacheFill (s.l2 l2Index) coreId (l2ToTag physicalAddress) l2Victim memLine
      .exclusive .data
    let s := (s.setL2 l2Index l2Set).record (.fill lineBase memLine)
    let s := s.emit .l2Fill coreId 2 l2Index l2Victim lineBase .invalid .exclusive (some memLine)
    let s := s.setL1 .data coreId l1Index
      (l1CacheFill (s.l1 .data coreId l1Index) (l1ToTag physicalAddress) l1Victim memLine
        .exclusive)
    let s := s.emit .l1dFill coreId 1 l1Index l1Victim lineBase .invalid .exclusive (some memLine)
    let s := s.emit .memFetch coreId 3 0 0 lineBase .invalid .invalid (some memLine)
    let s ← pfStreamOnMiss s coreId lineBase
    let s := s.modifyPmc coreId fun pmc => { pmc with memFetches := pmc.memFetches + 1 }
    let data ← s.mem.read (lineBase.toNat + l1ToOffset physicalAddress) dataSize
    .ok (s, some data)

def cpuRead (s : Sim) (coreId : CoreId) (virtualAddress : Addr) (dataSize : ℕ) :
    Except Fault (Sim × Option (List Byte)) :=
  match translateData s coreId virtualAddress with
  | (none, s) => .ok (s, none)
  | (some physicalAddress, s) =>
      match findL1Way (s.l1 .data coreId (l1ToIndex physicalAddress)) (l1ToTag physicalAddress) with
      | some l1HitWay => readL1Hit s coreId physicalAddress l1HitWay dataSize
      | none =>
          match l2FindWay (s.l2 (l2ToIndex physicalAddress)) (l2ToTag physicalAddress) with
          | some l2HitWay => readL2Hit s coreId physicalAddress l2HitWay dataSize
          | none => readMiss s coreId physicalAddress dataSize

/-- The upgrade of the line by a store that hits in L1, which a SHARED line
needs. -/
def upgradeShared (s : Sim) (coreId : CoreId) (physicalAddress : Addr) (oldL1 : MESIState)
    (l2Way : Fin 16) : Except Fault Sim :=
  if oldL1 = .shared then do
    let l2Index := l2ToIndex physicalAddress
    let otherSharers := (s.l2 l2Index).coreValidD l2Way &&& ~~~coreBit coreId
    let (s, _) ← snoopInvalidatePeers s otherSharers (l1ToIndex physicalAddress)
      (l1ToTag physicalAddress) none l2Index l2Way
    .ok (s.setL2 l2Index ((s.l2 l2Index).touch l2Way))
  else .ok s

def writeL1Hit (s : Sim) (coreId : CoreId) (physicalAddress : Addr) (l1HitWay : Fin 8)
    (data : List Byte) : Except Fault (Sim × Option (List Byte)) :=
  let l1Index := l1ToIndex physicalAddress
  let l2Index := l2ToIndex physicalAddress
  match l2FindWay (s.l2 l2Index) (l2ToTag physicalAddress) with
  | none => .error .writeHitNoL2Line
  | some l2Way => do
      let oldL1 := (s.l1 .data coreId l1Index).state l1HitWay
      let s ← upgradeShared s coreId physicalAddress oldL1 l2Way
      let s ← snoopInvalidatePeersI s ((s.l2 l2Index).coreValidI l2Way) l1Index
        (l1ToTag physicalAddress)
      let s := s.setL2 l2Index (claimForStore (s.l2 l2Index) l2Way coreId)
      let s := s.modifyPmc coreId fun pmc => { pmc with l1dHits := pmc.l1dHits + 1 }
      let l1Set ← l1CacheWriteWay (s.l1 .data coreId l1Index) l1HitWay (l1ToOffset physicalAddress)
        data
      let s := (s.setL1 .data coreId l1Index l1Set).record (.store physicalAddress data)
      let s := s.emit .l1dHit coreId 1 l1Index l1HitWay physicalAddress oldL1 .modified
        (some (l1Set.data l1HitWay))
      .ok (s, some [])

def writeL2Hit (s : Sim) (coreId : CoreId) (physicalAddress : Addr) (l2HitWay : Fin 16)
    (data : List Byte) : Except Fault (Sim × Option (List Byte)) := do
  let l1Index := l1ToIndex physicalAddress
  let l1Tag := l1ToTag physicalAddress
  let l2Index := l2ToIndex physicalAddress
  let s := s.emit .l2Hit coreId 2 l2Index l2HitWay physicalAddress
    ((s.l2 l2Index).state l2HitWay) ((s.l2 l2Index).state l2HitWay) none
  let line := (s.l2 l2Index).data l2HitWay
  let otherSharers := (s.l2 l2Index).coreValidD l2HitWay &&& ~~~coreBit coreId
  let (s, lineOut) ← snoopInvalidatePeers s otherSharers l1Index l1Tag (some line) l2Index l2HitWay
  let line ← (lineOut.getD line).copyIn (l1ToOffset physicalAddress) data
  let (s, victim) ← evictL1 .data s l1Index coreId
  let s := (s.setL1 .data coreId l1Index
    (l1CacheFill (s.l1 .data coreId l1Index) l1Tag victim line .modified)).record
      (.store physicalAddress data)
  let s := s.emit .l1dFill coreId 1 l1Index victim physicalAddress .invalid .modified (some line)
  let s ← snoopInvalidatePeersI s ((s.l2 l2Index).coreValidI l2HitWay) l1Index l1Tag
  let s := s.setL2 l2Index ((claimForStore (s.l2 l2Index) l2HitWay coreId).touch l2HitWay)
  let s := s.modifyPmc coreId fun pmc => { pmc with l2Hits := pmc.l2Hits + 1 }
  .ok (s, some [])

def writeMiss (s : Sim) (coreId : CoreId) (physicalAddress : Addr) (data : List Byte) :
    Except Fault (Sim × Option (List Byte)) :=
  let l1Index := l1ToIndex physicalAddress
  let l2Index := l2ToIndex physicalAddress
  let lineBase := toLineBase physicalAddress
  if lineBase + 64#64 > s.mem.size then .error .memFetchBounds
  else do
    let memLine ← s.mem.readLine lineBase
    let line ← memLine.copyIn (l1ToOffset physicalAddress) data
    let (s, l2Victim) ← evictL2 s l2Index
    let (s, l1Victim) ← evictL1 .data s l1Index coreId
    let l2Set ← l2CacheFill (s.l2 l2Index) coreId (l2ToTag physicalAddress) l2Victim line .modified
      .data
    let s := ((s.setL2 l2Index l2Set).record (.fill lineBase memLine)).record
      (.store physicalAddress data)
    let s := s.emit .l2Fill coreId 2 l2Index l2Victim lineBase .invalid .modified (some line)
    let s := s.setL1 .data coreId l1Index
      (l1CacheFill (s.l1 .data coreId l1Index) (l1ToTag physicalAddress) l1Victim line .modified)
    let s := s.emit .l1dFill coreId 1 l1Index l1Victim lineBase .invalid .modified (some line)
    let s := s.emit .memFetch coreId 3 0 0 lineBase .invalid .invalid (some line)
    let s ← pfStreamOnMiss s coreId lineBase
    let s := s.modifyPmc coreId fun pmc => { pmc with memFetches := pmc.memFetches + 1 }
    .ok (s, some [])

def cpuWrite (s : Sim) (coreId : CoreId) (virtualAddress : Addr) (data : List Byte) :
    Except Fault (Sim × Option (List Byte)) :=
  match translateData s coreId virtualAddress with
  | (none, s) => .ok (s, none)
  | (some physicalAddress, s) =>
      match findL1Way (s.l1 .data coreId (l1ToIndex physicalAddress)) (l1ToTag physicalAddress) with
      | some l1HitWay => writeL1Hit s coreId physicalAddress l1HitWay data
      | none =>
          match l2FindWay (s.l2 (l2ToIndex physicalAddress)) (l2ToTag physicalAddress) with
          | some l2HitWay => writeL2Hit s coreId physicalAddress l2HitWay data
          | none => writeMiss s coreId physicalAddress data

def fetchL1Hit (s : Sim) (coreId : CoreId) (physicalAddress : Addr) (l1HitWay : Fin 8)
    (dataSize : ℕ) : Except Fault (Sim × Option (List Byte)) := do
  let l1Index := l1ToIndex physicalAddress
  let s := s.modifyPmc coreId fun pmc => { pmc with l1iHits := pmc.l1iHits + 1 }
  let (data, l1Set) ← l1CacheReadWay (s.l1 .instr coreId l1Index) l1HitWay
    (l1ToOffset physicalAddress) dataSize
  .ok (s.setL1 .instr coreId l1Index l1Set, some data)

def fetchL2Hit (s : Sim) (coreId : CoreId) (physicalAddress : Addr) (l2HitWay : Fin 16)
    (dataSize : ℕ) : Except Fault (Sim × Option (List Byte)) :=
  let l1Index := l1ToIndex physicalAddress
  if (s.l2 (l2ToIndex physicalAddress)).state l2HitWay = .modified then .error .fetchModified
  else do
    let (s, victim) ← evictL1 .instr s l1Index coreId
    let (s, line, _) ← busRead .instr s coreId physicalAddress l2HitWay
    let s := s.setL1 .instr coreId l1Index
      (l1CacheFill (s.l1 .instr coreId l1Index) (l1ToTag physicalAddress) victim line .shared)
    let s := s.modifyPmc coreId fun pmc => { pmc with l2Hits := pmc.l2Hits + 1 }
    let data ← line.copyOut (l1ToOffset physicalAddress) dataSize
    .ok (s, some data)

def fetchMiss (s : Sim) (coreId : CoreId) (physicalAddress : Addr) (dataSize : ℕ) :
    Except Fault (Sim × Option (List Byte)) :=
  let l1Index := l1ToIndex physicalAddress
  let l2Index := l2ToIndex physicalAddress
  let lineBase := toLineBase physicalAddress
  if lineBase + 64#64 > s.mem.size then .error .memFetchBounds
  else do
    let (s, l2Victim) ← evictL2 s l2Index
    let (s, l1Victim) ← evictL1 .instr s l1Index coreId
    let memLine ← s.mem.readLine lineBase
    let l2Set ← l2CacheFill (s.l2 l2Index) coreId (l2ToTag physicalAddress) l2Victim memLine
      .exclusive .instr
    let s := (s.setL2 l2Index l2Set).record (.fill lineBase memLine)
    let s := s.setL1 .instr coreId l1Index
      (l1CacheFill (s.l1 .instr coreId l1Index) (l1ToTag physicalAddress) l1Victim memLine .shared)
    let s ← pfNextlineOnMiss s lineBase
    let s := s.modifyPmc coreId fun pmc => { pmc with memFetches := pmc.memFetches + 1 }
    let data ← s.mem.read (lineBase.toNat + l1ToOffset physicalAddress) dataSize
    .ok (s, some data)

def cpuFetch (s : Sim) (coreId : CoreId) (virtualAddress : Addr) (dataSize : ℕ) :
    Except Fault (Sim × Option (List Byte)) :=
  match translateInstr s coreId virtualAddress with
  | (none, s) => .ok (s, none)
  | (some physicalAddress, s) =>
      match findL1Way (s.l1 .instr coreId (l1ToIndex physicalAddress))
          (l1ToTag physicalAddress) with
      | some l1HitWay => fetchL1Hit s coreId physicalAddress l1HitWay dataSize
      | none =>
          match l2FindWay (s.l2 (l2ToIndex physicalAddress)) (l2ToTag physicalAddress) with
          | some l2HitWay => fetchL2Hit s coreId physicalAddress l2HitWay dataSize
          | none => fetchMiss s coreId physicalAddress dataSize

/-! ## Calls -/

inductive Call where
  | read (coreId : CoreId) (virtualAddress : Addr) (dataSize : ℕ)
  | write (coreId : CoreId) (virtualAddress : Addr) (data : List Byte)
  | fetch (coreId : CoreId) (virtualAddress : Addr) (dataSize : ℕ)

def Call.exec : Call → Sim → Except Fault (Sim × Option (List Byte))
  | read coreId virtualAddress dataSize, s => cpuRead s coreId virtualAddress dataSize
  | write coreId virtualAddress data, s => cpuWrite s coreId virtualAddress data
  | fetch coreId virtualAddress dataSize, s => cpuFetch s coreId virtualAddress dataSize

def Call.dataSize : Call → ℕ
  | read _ _ dataSize => dataSize
  | write _ _ data => data.length
  | fetch _ _ dataSize => dataSize

/-- The physical address a call accesses when it is made in state `s`, or `none`
when it page-faults. -/
def Call.physicalAddress : Call → Sim → Option Addr
  | read coreId virtualAddress _, s => (translateData s coreId virtualAddress).1
  | write coreId virtualAddress _, s => (translateData s coreId virtualAddress).1
  | fetch coreId virtualAddress _, s => (translateInstr s coreId virtualAddress).1

end CacheSimulator
