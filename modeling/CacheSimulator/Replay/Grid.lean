import CacheSimulator.Refinement.State
import Mathlib.Data.BitVec

/-!
# What a trace can show

The grid is the part of the machine that the visualizer draws: the ways of the
L1D caches, the tags and states of L2, the counters, and the events recorded so
far. An act is the smallest change of the grid the simulator makes together with
the event it emits for it, and `Acts` is a sequence of acts. The labels single
out the events and the counter increments that count hits.
-/

namespace CacheSimulator

/-! ## The grid -/

structure L1Cell where
  tag : Addr
  state : MESIState
  data : Line

structure L2Cell where
  tag : Addr
  state : MESIState

abbrev L1Loc := CoreId × Fin 64 × Fin 8

abbrev L2Loc := Fin 4096 × Fin 16

structure Grid where
  l1d : L1Loc → L1Cell
  l2 : L2Loc → L2Cell
  pmc : CoreId → PerfCounters
  events : List Event

inductive HitKind where
  | l1d
  | l1i
  | l2
  | mem
  deriving DecidableEq

def PerfCounters.get (pmc : PerfCounters) : HitKind → ℕ
  | .l1d => pmc.l1dHits
  | .l1i => pmc.l1iHits
  | .l2 => pmc.l2Hits
  | .mem => pmc.memFetches

def PerfCounters.bump (pmc : PerfCounters) : HitKind → PerfCounters
  | .l1d => { pmc with l1dHits := pmc.l1dHits + 1 }
  | .l1i => { pmc with l1iHits := pmc.l1iHits + 1 }
  | .l2 => { pmc with l2Hits := pmc.l2Hits + 1 }
  | .mem => { pmc with memFetches := pmc.memFetches + 1 }

theorem PerfCounters.get_bump (pmc : PerfCounters) (k k' : HitKind) :
    (pmc.bump k).get k' = if k' = k then pmc.get k' + 1 else pmc.get k' := by
  cases k <;> cases k' <;> rfl

namespace Grid

def setL1 (g : Grid) (l : L1Loc) (cell : L1Cell) : Grid :=
  { g with l1d := Function.update g.l1d l cell }

def setL2 (g : Grid) (l : L2Loc) (cell : L2Cell) : Grid :=
  { g with l2 := Function.update g.l2 l cell }

def emit (g : Grid) (e : Event) : Grid := { g with events := g.events ++ [e] }

def bump (g : Grid) (c : CoreId) (k : HitKind) : Grid :=
  { g with pmc := Function.update g.pmc c ((g.pmc c).bump k) }

end Grid

/-! ## The events the simulator emits -/

def level1Event (seq : BitVec 32) (type : CacheEventType) (l : L1Loc) (address : Addr)
    (oldState newState : MESIState) (data : Option Line) : Event where
  address := address
  seq := seq
  setIndex := BitVec.ofNat 16 l.2.1
  way := BitVec.ofNat 8 l.2.2
  coreId := BitVec.ofNat 8 l.1
  type := type
  oldState := oldState.toByte
  newState := newState.toByte
  cacheLevel := 1
  data := data

def level2Event (seq : BitVec 32) (type : CacheEventType) (coreId : CoreId) (l : L2Loc)
    (address : Addr) (oldState newState : MESIState) (data : Option Line) : Event where
  address := address
  seq := seq
  setIndex := BitVec.ofNat 16 l.1
  way := BitVec.ofNat 8 l.2
  coreId := BitVec.ofNat 8 coreId
  type := type
  oldState := oldState.toByte
  newState := newState.toByte
  cacheLevel := 2
  data := data

def memFetchEvent (seq : BitVec 32) (coreId : CoreId) (address : Addr) (data : Option Line) :
    Event where
  address := address
  seq := seq
  setIndex := 0
  way := 0
  coreId := BitVec.ofNat 8 coreId
  type := .memFetch
  oldState := 0
  newState := 0
  cacheLevel := 3
  data := data

structure Event.AtL1 (e : Event) (l : L1Loc) : Prop where
  level : e.cacheLevel = 1
  core : e.coreId = BitVec.ofNat 8 l.1
  set : e.setIndex = BitVec.ofNat 16 l.2.1
  way : e.way = BitVec.ofNat 8 l.2.2

structure Event.AtL2 (e : Event) (l : L2Loc) : Prop where
  level : e.cacheLevel = 2
  set : e.setIndex = BitVec.ofNat 16 l.1
  way : e.way = BitVec.ofNat 8 l.2

instance (e : Event) (l : L1Loc) : Decidable (e.AtL1 l) :=
  decidable_of_iff (e.cacheLevel = 1 ∧ e.coreId = BitVec.ofNat 8 l.1 ∧
      e.setIndex = BitVec.ofNat 16 l.2.1 ∧ e.way = BitVec.ofNat 8 l.2.2)
    ⟨fun h => ⟨h.1, h.2.1, h.2.2.1, h.2.2.2⟩, fun h => ⟨h.level, h.core, h.set, h.way⟩⟩

instance (e : Event) (l : L2Loc) : Decidable (e.AtL2 l) :=
  decidable_of_iff (e.cacheLevel = 2 ∧ e.setIndex = BitVec.ofNat 16 l.1 ∧
      e.way = BitVec.ofNat 8 l.2)
    ⟨fun h => ⟨h.1, h.2.1, h.2.2⟩, fun h => ⟨h.level, h.set, h.way⟩⟩

theorem atL1_level1Event (seq : BitVec 32) (type : CacheEventType) (l : L1Loc) (address : Addr)
    (oldState newState : MESIState) (data : Option Line) :
    (level1Event seq type l address oldState newState data).AtL1 l := ⟨rfl, rfl, rfl, rfl⟩

theorem atL2_level2Event (seq : BitVec 32) (type : CacheEventType) (c : CoreId) (l : L2Loc)
    (address : Addr) (oldState newState : MESIState) (data : Option Line) :
    (level2Event seq type c l address oldState newState data).AtL2 l := ⟨rfl, rfl, rfl⟩

theorem ofNat_fin_inj {n k : ℕ} (hn : n ≤ 2 ^ k) {i j : Fin n}
    (h : BitVec.ofNat k i = BitVec.ofNat k j) : i = j := by
  have hval := congrArg BitVec.toNat h
  rw [BitVec.toNat_ofNat, BitVec.toNat_ofNat, Nat.mod_eq_of_lt (Nat.lt_of_lt_of_le i.isLt hn),
    Nat.mod_eq_of_lt (Nat.lt_of_lt_of_le j.isLt hn)] at hval
  exact Fin.ext hval

theorem Event.AtL1.unique {e : Event} {l l' : L1Loc} (h : e.AtL1 l) (h' : e.AtL1 l') : l = l' :=
  Prod.ext (ofNat_fin_inj (by decide) (h.core.symm.trans h'.core))
    (Prod.ext (ofNat_fin_inj (by decide) (h.set.symm.trans h'.set))
      (ofNat_fin_inj (by decide) (h.way.symm.trans h'.way)))

theorem Event.AtL2.unique {e : Event} {l l' : L2Loc} (h : e.AtL2 l) (h' : e.AtL2 l') : l = l' :=
  Prod.ext (ofNat_fin_inj (by decide) (h.set.symm.trans h'.set))
    (ofNat_fin_inj (by decide) (h.way.symm.trans h'.way))

theorem Event.AtL1.not_atL2 {e : Event} {l : L1Loc} {l' : L2Loc} (h : e.AtL1 l) : ¬e.AtL2 l' :=
  fun h' => absurd (h.level.symm.trans h'.level) (by decide)

/-! ## Acts -/

/-- What a sequence of acts may contain besides evictions and snoops. -/
structure Permit where
  /-- Fills of free ways. -/
  fills : Prop
  /-- The L1D sets that may change. -/
  sets : CoreId → Fin 64 → Prop
  /-- The L2 ways that fills and evictions may be about. -/
  ways : L2Loc → Prop
  /-- The change of an L2 state without an event, after the events recorded. -/
  silent : L2Loc → List Event → Prop
  /-- A hit that changes the bytes of its way, after the events recorded. -/
  stores : List Event → Prop

/-- Every set may change, and every free way of L2 be filled. -/
structure Permit.Open (p : Permit) : Prop where
  fills : p.fills
  sets : ∀ c i, p.sets c i
  ways : ∀ l, p.ways l

/-- A level-1 event that is no hit turns `cell` into `cell'`. -/
inductive L1Rule (p : Permit) (l : L1Loc) (cell : L1Cell) : CacheEventType → Addr → L1Cell → Prop
  | fill {address : Addr} {cell' : L1Cell} : p.fills → cell.state = .invalid →
      cell'.state ≠ .invalid → toLineBase address = l1ToAddr cell'.tag l.2.1 →
      L1Rule p l cell .l1dFill address cell'
  | evict {address : Addr} : cell.state ≠ .invalid →
      L1Rule p l cell .l1dEvict address { cell with state := .invalid }
  | snoopInvalidate {address : Addr} : cell.state ≠ .invalid →
      L1Rule p l cell .snoopInvalidate address { cell with state := .invalid }
  | snoopDowngrade {address : Addr} : cell.state ≠ .invalid →
      L1Rule p l cell .snoopDowngrade address { cell with state := .shared }

/-- A level-2 event that is no hit turns `cell` into `cell'`. -/
inductive L2Rule (p : Permit) (l : L2Loc) (cell : L2Cell) : CacheEventType → Addr → L2Cell → Prop
  | fill {cell' : L2Cell} : p.fills → cell.state = .invalid → cell'.state ≠ .invalid →
      L2Rule p l cell .l2Fill (l2ToAddr cell'.tag l.1) cell'
  | prefetch {cell' : L2Cell} : p.fills → cell.state = .invalid → cell'.state ≠ .invalid →
      L2Rule p l cell .prefetchL2 (l2ToAddr cell'.tag l.1) cell'
  | evict {address : Addr} : cell.state ≠ .invalid →
      L2Rule p l cell .l2Evict address { cell with state := .invalid }

inductive Act (seq : BitVec 32) (p : Permit) (g : Grid) : Grid → Prop
  | level1 {type : CacheEventType} {l : L1Loc} {address : Addr} {cell : L1Cell} :
      p.sets l.1 l.2.1 → L1Rule p l (g.l1d l) type address cell →
      Act seq p g ((g.setL1 l cell).emit
        (level1Event seq type l address (g.l1d l).state cell.state (some cell.data)))
  | level2 {type : CacheEventType} {c : CoreId} {l : L2Loc} {address : Addr} {cell : L2Cell}
      {data : Line} : p.ways l → L2Rule p l (g.l2 l) type address cell →
      Act seq p g ((g.setL2 l cell).emit
        (level2Event seq type c l address (g.l2 l).state cell.state (some data)))
  | l1iSnoop {l : L1Loc} {address : Addr} {oldState : MESIState} :
      Act seq p g (g.emit (level1Event seq .l1iSnoopInvalidate l address oldState .invalid none))
  | silentL2 {l : L2Loc} {state : MESIState} : p.silent l g.events → (g.l2 l).state ≠ .invalid →
      state ≠ .invalid → Act seq p g (g.setL2 l { g.l2 l with state := state })

inductive Hit (seq : BitVec 32) (p : Permit) (c : CoreId) (g : Grid) : HitKind → Grid → Prop
  | l1d {l : L1Loc} {address : Addr} {cell : L1Cell} : l.1 = c → (g.l1d l).state ≠ .invalid →
      cell.tag = (g.l1d l).tag → cell.state ≠ .invalid →
      cell.data = (g.l1d l).data ∨ p.stores g.events →
      Hit seq p c g .l1d ((g.setL1 l cell).emit
        (level1Event seq .l1dHit l address (g.l1d l).state cell.state (some cell.data)))
  | l2 {l : L2Loc} {address : Addr} : (g.l2 l).state ≠ .invalid →
      Hit seq p c g .l2
        (g.emit (level2Event seq .l2Hit c l address (g.l2 l).state (g.l2 l).state none))
  | mem {address : Addr} {data : Option Line} :
      Hit seq p c g .mem (g.emit (memFetchEvent seq c address data))

inductive Label where
  | event (c : CoreId) (k : HitKind)
  | bump (c : CoreId) (k : HitKind)
  deriving DecidableEq

inductive Acts (seq : BitVec 32) (p : Permit) (g : Grid) : List Label → Grid → Prop
  | refl : Acts seq p g [] g
  | act {ls : List Label} {g' g'' : Grid} : Acts seq p g ls g' → Act seq p g' g'' →
      Acts seq p g ls g''
  | hit {ls : List Label} {c : CoreId} {k : HitKind} {g' g'' : Grid} : Acts seq p g ls g' →
      Hit seq p c g' k g'' → Acts seq p g (ls ++ [.event c k]) g''
  | bump {ls : List Label} {g' : Grid} (c : CoreId) (k : HitKind) : Acts seq p g ls g' →
      Acts seq p g (ls ++ [.bump c k]) (g'.bump c k)

structure Permit.Le (p q : Permit) : Prop where
  fills : p.fills → q.fills
  sets : ∀ c i, p.sets c i → q.sets c i
  ways : ∀ l, p.ways l → q.ways l
  silent : ∀ l events, p.silent l events → q.silent l events
  stores : ∀ events, p.stores events → q.stores events

/-- The permit without fills and evictions of L2 ways. -/
def Permit.level1 (p : Permit) : Permit := { p with ways := fun _ => False }

theorem Permit.level1_le {p : Permit} : p.level1.Le p :=
  ⟨id, fun _ _ => id, fun _ => False.elim, fun _ _ => id, fun _ => id⟩

def Permit.only (p : Permit) (ways : L2Loc → Prop) : Permit where
  fills := p.fills
  sets := p.sets
  ways := ways
  silent _ _ := False
  stores := p.stores

theorem Permit.only_le {p : Permit} {ways : L2Loc → Prop} (h : ∀ l, ways l → p.ways l) :
    (p.only ways).Le p :=
  ⟨id, fun _ _ => id, h, fun _ _ => False.elim, fun _ => id⟩

section Acts

variable {seq : BitVec 32} {p q : Permit} {g g' g'' : Grid} {ls ls' : List Label}

theorem Acts.trans (h : Acts seq p g ls g') (h' : Acts seq p g' ls' g'') :
    Acts seq p g (ls ++ ls') g'' := by
  induction h' with
  | refl => rwa [List.append_nil]
  | act _ hact ih => exact .act ih hact
  | hit _ hhit ih =>
      rw [← List.append_assoc]
      exact .hit ih hhit
  | bump c k _ ih =>
      rw [← List.append_assoc]
      exact .bump c k ih

theorem L1Rule.mono (hpq : p.Le q) {l : L1Loc} {cell cell' : L1Cell} {type : CacheEventType}
    {address : Addr} (h : L1Rule p l cell type address cell') :
    L1Rule q l cell type address cell' := by
  cases h with
  | fill hfills hfree hstate haddress => exact .fill (hpq.fills hfills) hfree hstate haddress
  | evict hstate => exact .evict hstate
  | snoopInvalidate hstate => exact .snoopInvalidate hstate
  | snoopDowngrade hstate => exact .snoopDowngrade hstate

theorem L2Rule.mono (hpq : p.Le q) {l : L2Loc} {cell cell' : L2Cell} {type : CacheEventType}
    {address : Addr} (h : L2Rule p l cell type address cell') :
    L2Rule q l cell type address cell' := by
  cases h with
  | fill hfills hfree hstate => exact .fill (hpq.fills hfills) hfree hstate
  | prefetch hfills hfree hstate => exact .prefetch (hpq.fills hfills) hfree hstate
  | evict hstate => exact .evict hstate

theorem Act.mono (hpq : p.Le q) (h : Act seq p g g') : Act seq q g g' := by
  cases h with
  | level1 hsets hrule => exact .level1 (hpq.sets _ _ hsets) (hrule.mono hpq)
  | level2 hways hrule => exact .level2 (hpq.ways _ hways) (hrule.mono hpq)
  | l1iSnoop => exact .l1iSnoop
  | silentL2 hsilent hstate hstate' => exact .silentL2 (hpq.silent _ _ hsilent) hstate hstate'

theorem Hit.mono (hpq : p.Le q) {c : CoreId} {k : HitKind} (h : Hit seq p c g k g') :
    Hit seq q c g k g' := by
  cases h with
  | l1d hl hstate htag hstate' hdata =>
      exact .l1d hl hstate htag hstate' (hdata.imp_right (hpq.stores _))
  | l2 hstate => exact .l2 hstate
  | mem => exact .mem

theorem Acts.mono (hpq : p.Le q) (h : Acts seq p g ls g') : Acts seq q g ls g' := by
  induction h with
  | refl => exact .refl
  | act _ hact ih => exact .act ih (hact.mono hpq)
  | hit _ hhit ih => exact .hit ih (hhit.mono hpq)
  | bump c k _ ih => exact .bump c k ih

theorem Acts.events (h : Acts seq p g ls g') :
    ∃ added, g'.events = g.events ++ added ∧ ∀ e ∈ added, e.seq = seq := by
  have hadd : ∀ (g' : Grid) (e : Event), e.seq = seq →
      (∃ added, g'.events = g.events ++ added ∧ ∀ e ∈ added, e.seq = seq) →
        ∃ added, g'.events ++ [e] = g.events ++ added ∧ ∀ e ∈ added, e.seq = seq := by
    rintro g' e he ⟨added, hadded, hseq⟩
    refine ⟨added ++ [e], by rw [hadded, List.append_assoc], fun x hx => ?_⟩
    rcases List.mem_append.mp hx with hx | hx
    · exact hseq x hx
    · rwa [List.mem_singleton.mp hx]
  induction h with
  | refl => exact ⟨[], (List.append_nil _).symm, by simp⟩
  | act _ hact ih =>
      cases hact with
      | level1 _ _ => exact hadd _ _ rfl ih
      | level2 _ _ => exact hadd _ _ rfl ih
      | l1iSnoop => exact hadd _ _ rfl ih
      | silentL2 _ _ _ => exact ih
  | hit _ hhit ih =>
      cases hhit with
      | l1d _ _ _ _ _ => exact hadd _ _ rfl ih
      | l2 _ => exact hadd _ _ rfl ih
      | mem => exact hadd _ _ rfl ih
  | bump c k _ ih => exact ih

/-- Acts without hits record no hits of L1D, and no events about L2 ways but the
permitted ones. -/
theorem Acts.events_nil (h : Acts seq p g [] g') : ∃ added, g'.events = g.events ++ added ∧
    ∀ e ∈ added, e.type ≠ .l1dHit ∧ ∀ l, e.AtL2 l → p.ways l := by
  generalize hls : ([] : List Label) = ls at h
  induction h with
  | refl => exact ⟨[], (List.append_nil _).symm, by simp⟩
  | @act ls g₁ g₂ _ hact ih =>
      obtain ⟨added, hadded, hall⟩ := ih hls
      have hadd : ∀ e : Event, g₂.events = g₁.events ++ [e] →
          (e.type ≠ .l1dHit ∧ ∀ l, e.AtL2 l → p.ways l) →
            ∃ added, g₂.events = g.events ++ added ∧
              ∀ e ∈ added, e.type ≠ .l1dHit ∧ ∀ l, e.AtL2 l → p.ways l := by
        intro e he hnot
        refine ⟨added ++ [e], by rw [he, hadded, List.append_assoc], fun x hx => ?_⟩
        rcases List.mem_append.mp hx with hx | hx
        · exact hall x hx
        · rwa [List.mem_singleton.mp hx]
      cases hact with
      | level1 _ hrule =>
          refine hadd _ rfl ⟨?_, fun l hl => absurd hl (atL1_level1Event ..).not_atL2⟩
          cases hrule <;> simp [level1Event]
      | level2 hways hrule =>
          refine hadd _ rfl ⟨?_, fun l hl => hl.unique (atL2_level2Event ..) ▸ hways⟩
          cases hrule <;> simp [level2Event]
      | l1iSnoop =>
          exact hadd _ rfl ⟨by simp [level1Event], fun l hl => absurd hl
            (atL1_level1Event ..).not_atL2⟩
      | silentL2 _ _ _ => exact ⟨added, hadded, hall⟩
  | hit _ _ _ => simp at hls
  | bump c k _ _ => simp at hls

theorem Acts.l2_frame (h : Acts seq p g [] g') {l : L2Loc} (hways : ¬p.ways l)
    (hsilent : ∀ events, ¬p.silent l events) : g'.l2 l = g.l2 l := by
  generalize hls : ([] : List Label) = ls at h
  induction h with
  | refl => rfl
  | act _ hact ih =>
      rw [← ih hls]
      cases hact with
      | level1 _ _ => rfl
      | @level2 _ _ l' _ _ _ hl' _ =>
          refine Function.update_of_ne ?_ _ _
          rintro rfl
          exact hways hl'
      | l1iSnoop => rfl
      | @silentL2 l' _ hl' _ _ =>
          refine Function.update_of_ne ?_ _ _
          rintro rfl
          exact hsilent _ hl'
  | hit _ _ _ => simp at hls
  | bump c k _ _ => simp at hls

end Acts

end CacheSimulator
