import CacheSimulator.Refinement.Address
import CacheSimulator.Refinement.State
import CacheSimulator.Library.Mesi.Residence

/-!
# The caches as maps from lines

The sets of an L1 cache of a core, and the sets of L2, represent maps from line
numbers to entries. `Sim.rep` puts the entries of one line together,
`LineRep.view` is that line in the MESI protocol, and `Sim.system` puts all lines
together with the two histories that the history variable of the simulator
determines.

`Placed` says that the sets do represent maps, and `Exact` that the two masks of
an L2 way name the cores that hold the line.
-/

namespace CacheSimulator

open Mesi SetAssociative

def MESIState.mode? : MESIState → Option Mode
  | invalid => none
  | modified => some .modified
  | exclusive => some .exclusive
  | shared => some .shared

@[simp] theorem MESIState.mode?_eq_none {st : MESIState} : st.mode? = none ↔ st = .invalid := by
  cases st <;> simp [mode?]

@[simp] theorem MESIState.mode?_eq_modified {st : MESIState} :
    st.mode? = some .modified ↔ st = .modified := by
  cases st <;> simp [mode?]

@[simp] theorem MESIState.mode?_eq_exclusive {st : MESIState} :
    st.mode? = some .exclusive ↔ st = .exclusive := by
  cases st <;> simp [mode?]

@[simp] theorem MESIState.mode?_eq_shared {st : MESIState} :
    st.mode? = some .shared ↔ st = .shared := by
  cases st <;> simp [mode?]

theorem MESIState.mode?_injective : Function.Injective MESIState.mode? := by
  intro st st' h
  cases st <;> cases st' <;> first | rfl | simp [mode?] at h

def MESIState.ofMode : Mode → MESIState
  | .modified => modified
  | .exclusive => exclusive
  | .shared => shared

@[simp] theorem MESIState.mode?_ofMode (m : Mode) : (ofMode m).mode? = some m := by
  cases m <;> rfl

theorem MESIState.ofMode_ne_invalid (m : Mode) : ofMode m ≠ invalid := by
  cases m <;> simp [ofMode]

structure L2Entry where
  mode : Mode
  validD : BitVec 8
  validI : BitVec 8
  data : Line

def L2Entry.copy (e : L2Entry) : Mode × Line := (e.mode, e.data)

def L1Set.slots (set : L1Set) : Fin 8 → Option (Addr × Mode × Line) := fun w =>
  (set.state w).mode?.map fun m => (set.tag w, m, set.data w)

def L2Set.slots (set : L2Set) : Fin 16 → Option (Addr × L2Entry) := fun w =>
  (set.state w).mode?.map fun m =>
    (set.tag w, ⟨m, set.coreValidD w, set.coreValidI w, set.data w⟩)

theorem L1Set.slots_eq_none {set : L1Set} {w : Fin 8} :
    set.slots w = none ↔ set.state w = .invalid := by
  simp [slots]

theorem L2Set.slots_eq_none {set : L2Set} {w : Fin 16} :
    set.slots w = none ↔ set.state w = .invalid := by
  simp [slots]

theorem L1Set.slots_eq_some {set : L1Set} {w : Fin 8} {t : Addr} {m : Mode} {line : Line} :
    set.slots w = some (t, m, line) ↔
      set.tag w = t ∧ (set.state w).mode? = some m ∧ set.data w = line := by
  simp only [slots, Option.map_eq_some_iff, Prod.mk.injEq]
  constructor
  · rintro ⟨m', hm', ht, rfl, hl⟩
    exact ⟨ht, hm', hl⟩
  · rintro ⟨ht, hm, hl⟩
    exact ⟨m, hm, ht, rfl, hl⟩

theorem L2Set.slots_eq_some {set : L2Set} {w : Fin 16} {t : Addr} {e : L2Entry} :
    set.slots w = some (t, e) ↔
      set.tag w = t ∧ (set.state w).mode? = some e.mode ∧ set.coreValidD w = e.validD ∧
        set.coreValidI w = e.validI ∧ set.data w = e.data := by
  simp only [slots, Option.map_eq_some_iff, Prod.mk.injEq]
  constructor
  · rintro ⟨m, hm, ht, rfl⟩
    exact ⟨ht, hm, rfl, rfl, rfl⟩
  · rintro ⟨ht, hm, hd, hi, hl⟩
    exact ⟨e.mode, hm, ht, by rw [hd, hi, hl]⟩

/-! ## Searching a set -/

theorem findL1Way_eq_some {set : L1Set} {tag : Addr} {w : Fin 8} (h : findL1Way set tag = some w) :
    ∃ m, set.slots w = some (tag, m, set.data w) := by
  have hw := List.find?_some h
  simp only [Bool.and_eq_true, beq_iff_eq, bne_iff_ne, ne_eq] at hw
  obtain ⟨htag, hstate⟩ := hw
  obtain ⟨m, hm⟩ := Option.ne_none_iff_exists'.mp (mt MESIState.mode?_eq_none.mp hstate)
  exact ⟨m, L1Set.slots_eq_some.mpr ⟨htag, hm, rfl⟩⟩

theorem findL1Way_eq_none {set : L1Set} {tag : Addr} (h : findL1Way set tag = none) (w : Fin 8)
    (x : Mode × Line) : set.slots w ≠ some (tag, x) := by
  intro hw
  obtain ⟨htag, hm, -⟩ := L1Set.slots_eq_some.mp hw
  have hnot := List.find?_eq_none.mp h w (List.mem_finRange w)
  simp only [Bool.and_eq_true, beq_iff_eq, bne_iff_ne, ne_eq, not_and, not_not] at hnot
  rw [hnot htag] at hm
  cases hm

theorem l2FindWay_eq_some {set : L2Set} {tag : Addr} {w : Fin 16} (h : l2FindWay set tag = some w) :
    ∃ e, set.slots w = some (tag, e) := by
  have hw := List.find?_some h
  simp only [Bool.and_eq_true, beq_iff_eq, bne_iff_ne, ne_eq] at hw
  obtain ⟨htag, hstate⟩ := hw
  obtain ⟨m, hm⟩ := Option.ne_none_iff_exists'.mp (mt MESIState.mode?_eq_none.mp hstate)
  exact ⟨⟨m, set.coreValidD w, set.coreValidI w, set.data w⟩,
    L2Set.slots_eq_some.mpr ⟨htag, hm, rfl, rfl, rfl⟩⟩

theorem l2FindWay_eq_none {set : L2Set} {tag : Addr} (h : l2FindWay set tag = none) (w : Fin 16)
    (e : L2Entry) : set.slots w ≠ some (tag, e) := by
  intro hw
  obtain ⟨htag, hm, -⟩ := L2Set.slots_eq_some.mp hw
  have hnot := List.find?_eq_none.mp h w (List.mem_finRange w)
  simp only [Bool.and_eq_true, beq_iff_eq, bne_iff_ne, ne_eq, not_and, not_not] at hnot
  rw [hnot htag] at hm
  cases hm

/-- The way a search finds is the one that holds the tag. -/
theorem findL1Way_of_slots {set : L1Set} (hu : Unique set.slots) {w : Fin 8} {tag : Addr}
    {x : Mode × Line} (hw : set.slots w = some (tag, x)) : findL1Way set tag = some w := by
  cases h : findL1Way set tag with
  | none => exact absurd hw (findL1Way_eq_none h w x)
  | some w' =>
      obtain ⟨m, hm⟩ := findL1Way_eq_some h
      rw [hu w' w tag _ _ hm hw]

theorem l2FindWay_of_slots {set : L2Set} (hu : Unique set.slots) {w : Fin 16} {tag : Addr}
    {e : L2Entry} (hw : set.slots w = some (tag, e)) : l2FindWay set tag = some w := by
  cases h : l2FindWay set tag with
  | none => exact absurd hw (l2FindWay_eq_none h w e)
  | some w' =>
      obtain ⟨e', he'⟩ := l2FindWay_eq_some h
      rw [hu w' w tag _ _ he' hw]

/-! ## Lines -/

/-- Everything the simulator holds of one line. -/
@[ext] structure LineRep where
  l1 : L1Kind → CoreId → Option (Mode × Line)
  l2 : Option L2Entry
  mem : Line

namespace LineRep

/-- The line as a line of the MESI protocol. -/
def view (x : LineRep) : LineState CoreId Line where
  d c := x.l1 .data c
  i c := (x.l1 .instr c).map Prod.snd
  l2 := x.l2.map L2Entry.copy
  mem := x.mem

def setL1 (x : LineRep) (k : L1Kind) (c : CoreId) (y : Option (Mode × Line)) : LineRep :=
  { x with l1 := Function.update x.l1 k (Function.update (x.l1 k) c y) }

def setL2 (x : LineRep) (y : Option L2Entry) : LineRep := { x with l2 := y }

def setMem (x : LineRep) (line : Line) : LineRep := { x with mem := line }

def holders (x : LineRep) (k : L1Kind) : CoreId → Bool := fun c => (x.l1 k c).isSome

end LineRep

namespace Sim

/-- The L1D or L1I of core `c`, as a map from lines to copies. -/
noncomputable def l1Lines (s : Sim) (k : L1Kind) (c : CoreId) : LineNo → Option (Mode × Line) :=
  l1Geometry.contents fun i => (s.l1 k c i).slots

/-- The L2, as a map from lines to entries. -/
noncomputable def l2Lines (s : Sim) : LineNo → Option L2Entry :=
  l2Geometry.contents fun i => (s.l2 i).slots

def memLine (s : Sim) (line : LineNo) : Line := fun j => s.mem.data (64 * line + j)

noncomputable def rep (s : Sim) (line : LineNo) : LineRep where
  l1 k c := s.l1Lines k c line
  l2 := s.l2Lines line
  mem := s.memLine line

end Sim

def L2Set.FreeMasks (set : L2Set) : Prop :=
  ∀ w, set.state w = .invalid → set.coreValidD w = 0 ∧ set.coreValidI w = 0

/-- The sets of every cache represent maps from lines, and the masks of free
ways are empty. -/
structure Sim.Placed (s : Sim) : Prop where
  l1 : ∀ k c, l1Geometry.WellPlaced fun i => (s.l1 k c i).slots
  l2 : l2Geometry.WellPlaced fun i => (s.l2 i).slots
  free : ∀ i, (s.l2 i).FreeMasks

/-- The mask with the bits of the cores that `f` selects. -/
def maskOf (f : CoreId → Bool) : BitVec 8 :=
  (if f 0 then 1#8 else 0#8) ||| (if f 1 then 2#8 else 0#8)

/-- The masks of the L2 way name exactly the holders. -/
def LineRep.Exact (x : LineRep) : Prop :=
  ∀ e, x.l2 = some e → e.validD = maskOf (x.holders .data) ∧ e.validI = maskOf (x.holders .instr)

/-! ## The histories -/

/-- A store of the protocol: an offset in the line and the bytes. -/
abbrev Store := ℕ × List Byte

def Store.act (w : Store) (line : Line) : Line := line.overlay w.1 w.2

/-- The bytes of `line` after `history`: the bytes read from memory when the line
last entered L2, overlaid with the stores to the line since then. -/
def lineHistory (history : List MemOp) (line : LineNo) : Line :=
  history.foldl
    (fun bytes op =>
      match op with
      | .fill address data => if lineNo address = line then data else bytes
      | .store address data =>
          if lineNo address = line then bytes.overlay (l1ToOffset address) data else bytes)
    fun _ => 0

def flatMemory (memory : ℕ → Byte) (history : List MemOp) : ℕ → Byte :=
  history.foldl
    (fun bytes op =>
      match op with
      | .fill _ _ => bytes
      | .store address data => fun n =>
          if address.toNat ≤ n then (data[n - address.toNat]?).getD (bytes n) else bytes n)
    memory

/-- The simulator as a system of lines; `memory` is what memory held at the
start. -/
noncomputable def Sim.system (memory : ℕ → Byte) (s : Sim) : System LineNo CoreId Line where
  lines line := (s.rep line).view
  tracked := lineHistory s.history
  flat line := fun j => flatMemory memory s.history (64 * line + j)

end CacheSimulator
