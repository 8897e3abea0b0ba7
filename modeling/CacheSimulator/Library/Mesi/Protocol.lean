import Mathlib.Logic.Function.Basic
import Mathlib.Tactic.Tauto

/-!
# A MESI protocol with instruction copies, one line at a time

The life of one memory line in an inclusive two-level hierarchy. Cores of an
arbitrary type `κ` may each hold a data copy and an instruction copy of the
line, the shared second level may hold it, and memory always does. Values are of
an arbitrary type `δ`, and a store is an element of `ω` that acts on values.

`Step` is the protocol: which moves a line can make, whatever makes it move.
`Coherent` is its invariant.
-/

namespace Mesi

inductive Mode where
  | modified
  | exclusive
  | shared
  deriving DecidableEq

/-- The state of one line: the data copies, the instruction copies, the copy of
the second level, and memory. -/
@[ext] structure LineState (κ δ : Type*) where
  d : κ → Option (Mode × δ)
  i : κ → Option δ
  l2 : Option (Mode × δ)
  mem : δ

inductive Action (κ ω : Type*) where
  | dropD (c : κ)
  | dropI (c : κ)
  | evict
  | prefetch
  | loadD (c : κ)
  | loadI (c : κ)
  | loadStore (c : κ) (w : ω)
  | readAlone (c : κ)
  | readShare (c : κ)
  | readDirty (c : κ)
  | fetchAlone (c : κ)
  | fetchShare (c : κ)
  | storeHit (c : κ) (w : ω)
  | storeFill (c : κ) (w : ω)

variable {κ δ ω : Type*}

namespace LineState

def Holds (x : LineState κ δ) (c : κ) : Prop := x.d c ≠ none ∨ x.i c ≠ none

/-- The value of the line: the modified data copy, or else the second level. -/
def Authoritative (x : LineState κ δ) (v : δ) : Prop :=
  (∃ c, x.d c = some (.modified, v)) ∨
    (∀ c u, x.d c ≠ some (.modified, u)) ∧ ∃ p, x.l2 = some (p, v)

/-- Memory may be out of date. -/
def Dirty (x : LineState κ δ) : Prop := ∃ v, x.l2 = some (.modified, v)

end LineState

/-- A shared line whose last copy has gone becomes exclusive. -/
def Mode.promote : Mode → Mode
  | shared => exclusive
  | p => p

/-- The second level after a copy has been dropped. -/
inductive Settle (x : LineState κ δ) : LineState κ δ → Prop
  | kept (c : κ) : x.Holds c → Settle x x
  | last : (∀ c, ¬x.Holds c) →
      Settle x { x with l2 := x.l2.map fun e => (e.1.promote, e.2) }

/-- The data copies with all but the one of `c` downgraded to shared. -/
def downgradeOthers [DecidableEq κ] (d : κ → Option (Mode × δ)) (c : κ) :
    κ → Option (Mode × δ) :=
  fun b => if b = c then d b else (d b).map fun e => (.shared, e.2)

/-- The data copies when `c` holds the only one. -/
def onlyD [DecidableEq κ] (c : κ) (e : Mode × δ) : κ → Option (Mode × δ) :=
  fun b => if b = c then some e else none

/-- The line after `c` has read the value `v` while other cores have copies. -/
def LineState.share [DecidableEq κ] (x : LineState κ δ) (c : κ) (v : δ) : LineState κ δ :=
  { x with
    d := Function.update (downgradeOthers x.d c) c (some (.shared, v))
    l2 := some (.shared, v) }

section Protocol

variable [DecidableEq κ] (act : ω → δ → δ)

inductive Step (x : LineState κ δ) : Action κ ω → LineState κ δ → Prop
  | dropDirty (c : κ) (v : δ) : x.d c = some (.modified, v) →
      Step x (.dropD c) { x with d := Function.update x.d c none, l2 := some (.modified, v) }
  | dropClean (c : κ) (p : Mode) (v : δ) (x' : LineState κ δ) : x.d c = some (p, v) →
      p ≠ .modified → Settle { x with d := Function.update x.d c none } x' → Step x (.dropD c) x'
  | dropInstr (c : κ) (v : δ) (x' : LineState κ δ) : x.i c = some v →
      Settle { x with i := Function.update x.i c none } x' → Step x (.dropI c) x'
  | evictDirty (u v : δ) : x.l2 = some (.modified, u) → x.Authoritative v →
      Step x .evict ⟨fun _ => none, fun _ => none, none, v⟩
  | evictClean (p : Mode) (u : δ) : x.l2 = some (p, u) → p ≠ .modified →
      Step x .evict ⟨fun _ => none, fun _ => none, none, x.mem⟩
  | prefetch : x.l2 = none → Step x .prefetch { x with l2 := some (.exclusive, x.mem) }
  | loadD (c : κ) : x.l2 = none →
      Step x (.loadD c)
        { x with
          d := Function.update x.d c (some (.exclusive, x.mem))
          l2 := some (.exclusive, x.mem) }
  | loadI (c : κ) : x.l2 = none →
      Step x (.loadI c)
        { x with
          i := Function.update x.i c (some x.mem)
          l2 := some (.exclusive, x.mem) }
  | loadStore (c : κ) (w : ω) : x.l2 = none →
      Step x (.loadStore c w)
        { x with
          d := Function.update x.d c (some (.modified, act w x.mem))
          l2 := some (.modified, act w x.mem) }
  | readAlone (c : κ) (p : Mode) (v : δ) : x.d c = none → x.l2 = some (p, v) →
      (∀ b, b ≠ c → ¬x.Holds b) →
      Step x (.readAlone c) { x with d := Function.update x.d c (some (.exclusive, v)) }
  | readShare (c b : κ) (v : δ) : x.d c = none → x.Authoritative v → b ≠ c → x.Holds b →
      ¬x.Dirty → Step x (.readShare c) (x.share c v)
  | readDirty (c b : κ) (v : δ) : x.d c = none → x.Authoritative v → b ≠ c → x.Holds b →
      x.Dirty → Step x (.readDirty c) (x.share c v)
  | fetchAlone (c : κ) (p : Mode) (v : δ) : x.i c = none → x.l2 = some (p, v) → p ≠ .modified →
      (∀ b, b ≠ c → ¬x.Holds b) →
      Step x (.fetchAlone c) { x with i := Function.update x.i c (some v) }
  | fetchShare (c b : κ) (p : Mode) (v : δ) : x.i c = none → x.l2 = some (p, v) →
      p ≠ .modified → b ≠ c → x.Holds b →
      Step x (.fetchShare c)
        { x with
          d := downgradeOthers x.d c
          i := Function.update x.i c (some v)
          l2 := some (.shared, v) }
  | storeHit (c : κ) (w : ω) (p q : Mode) (u v : δ) : x.d c = some (p, u) → x.l2 = some (q, v) →
      Step x (.storeHit c w)
        { x with
          d := onlyD c (.modified, act w u)
          i := fun _ => none
          l2 := some (.modified, v) }
  | storeFill (c : κ) (w : ω) (q : Mode) (u v : δ) : x.d c = none → x.l2 = some (q, u) →
      x.Authoritative v →
      Step x (.storeFill c w)
        { x with
          d := onlyD c (.modified, act w v)
          i := fun _ => none
          l2 := some (.modified, u) }

end Protocol

/-! ## The invariant -/

/-- Inclusion, exclusivity of ownership, and agreement of the copies that are
not modified with the second level. -/
structure Sound (x : LineState κ δ) : Prop where
  inclusion : ∀ c, x.Holds c → x.l2 ≠ none
  exclusive : ∀ c p v, x.d c = some (p, v) → p ≠ .shared → ∀ b, b ≠ c → ¬x.Holds b
  modified : ∀ c v, x.d c = some (.modified, v) → ∃ u, x.l2 = some (.modified, u)
  noInstr : ∀ v, x.l2 = some (.modified, v) → ∀ c, x.i c = none
  single : ∀ p v, x.l2 = some (p, v) → p ≠ .shared → ∀ b c, x.Holds b → x.Holds c → b = c
  cleanD : ∀ c p v, x.d c = some (p, v) → p ≠ .modified → ∃ q, x.l2 = some (q, v)
  cleanI : ∀ c v, x.i c = some v → ∃ q, x.l2 = some (q, v)

/-- The invariant of the protocol: a shared line moreover has a copy. -/
structure Coherent (x : LineState κ δ) : Prop extends Sound x where
  sharers : ∀ v, x.l2 = some (.shared, v) → ∃ c, x.Holds c

theorem Mode.promote_ne_shared (p : Mode) : p.promote ≠ .shared := by
  cases p <;> simp [promote]

@[simp] theorem Mode.promote_eq_modified (p : Mode) : p.promote = .modified ↔ p = .modified := by
  cases p <;> simp [promote]

/-- Promotion after a drop restores the clause on sharers. -/
theorem Settle.coherent {y x' : LineState κ δ} (h : Sound y) (hs : Settle y x') : Coherent x' := by
  cases hs with
  | kept c hc => exact ⟨h, fun _ _ => ⟨c, hc⟩⟩
  | last hlast =>
      have hd : ∀ c, y.d c = none := fun c => by
        by_contra hne
        exact hlast c (.inl hne)
      have hi : ∀ c, y.i c = none := fun c => by
        by_contra hne
        exact hlast c (.inr hne)
      refine ⟨⟨?_, ?_, ?_, ?_, ?_, ?_, ?_⟩, ?_⟩
      · exact fun c hc => absurd hc (hlast c)
      · exact fun c p v hc => by simp [hd] at hc
      · exact fun c v hc => by simp [hd] at hc
      · exact fun _ _ c => hi c
      · exact fun _ _ _ _ b c hb _ => absurd hb (hlast b)
      · exact fun c p v hc => by simp [hd] at hc
      · exact fun c v hc => by simp [hi] at hc
      · intro v hv
        obtain ⟨e, -, he⟩ := Option.map_eq_some_iff.mp hv
        exact absurd (Prod.mk.inj he).1 (Mode.promote_ne_shared _)

theorem coherent_of_no_copies {x : LineState κ δ} (hd : ∀ c, x.d c = none) (hi : ∀ c, x.i c = none)
    (hl : ∀ v, x.l2 ≠ some (.shared, v)) : Coherent x := by
  have hn : ∀ c, ¬x.Holds c := fun c hc => by simp [LineState.Holds, hd, hi] at hc
  refine ⟨⟨?_, ?_, ?_, ?_, ?_, ?_, ?_⟩, ?_⟩
  · exact fun c hc => absurd hc (hn c)
  · exact fun c p v hc => by simp [hd] at hc
  · exact fun c v hc => by simp [hd] at hc
  · exact fun _ _ c => hi c
  · exact fun _ _ _ _ b c hb _ => absurd hb (hn b)
  · exact fun c p v hc => by simp [hd] at hc
  · exact fun c v hc => by simp [hi] at hc
  · exact fun v hv => absurd hv (hl v)

theorem Sound.no_copies {x : LineState κ δ} (h : Sound x) (hl : x.l2 = none) (c : κ) :
    x.d c = none ∧ x.i c = none := by
  constructor
  · by_contra hne
    exact h.inclusion c (.inl hne) hl
  · by_contra hne
    exact h.inclusion c (.inr hne) hl

/-- The data copy of `c` and the second level give the line its value when `c`
has stored to it. -/
theorem coherent_onlyD [DecidableEq κ] (c : κ) (v u m : δ) :
    Coherent (⟨onlyD c (.modified, v), fun _ => none, some (.modified, u), m⟩ : LineState κ δ) := by
  have hholds : ∀ b, (⟨onlyD c (.modified, v), fun _ => none, some (.modified, u), m⟩ :
      LineState κ δ).Holds b → b = c := by
    intro b hb
    by_contra hne
    simp [LineState.Holds, onlyD, hne] at hb
  refine ⟨⟨?_, ?_, ?_, ?_, ?_, ?_, ?_⟩, ?_⟩
  · exact fun _ _ => by simp
  · intro b p w hb hp b' hne hb'
    have hbc : b = c := hholds b (.inl (by rw [hb]; simp))
    exact hne ((hholds b' hb').trans hbc.symm)
  · exact fun _ _ _ => ⟨u, rfl⟩
  · exact fun _ _ _ => rfl
  · exact fun _ _ _ _ b b' hb hb' => (hholds b hb).trans (hholds b' hb').symm
  · intro b p w hb hp
    simp only [onlyD] at hb
    split at hb
    · simp only [Option.some.injEq, Prod.mk.injEq] at hb
      exact absurd hb.1.symm hp
    · cases hb
  · exact fun b w hb => by cases hb
  · exact fun w hw => by simp at hw

/-! ## The authoritative copy -/

namespace LineState

variable {x : LineState κ δ} {u v : δ} {p : Mode}

/-- A line that is not modified has the value of its second level. -/
theorem authoritative_of_clean (h : Sound x) (hl : x.l2 = some (p, v)) (hp : p ≠ .modified) :
    x.Authoritative v := by
  refine .inr ⟨fun c u hc => ?_, p, hl⟩
  obtain ⟨u', hu'⟩ := h.modified c u hc
  rw [hl, Option.some.injEq] at hu'
  exact hp (Prod.mk.inj hu').1

theorem authoritative_unique (h : Sound x) (hu : x.Authoritative u) (hv : x.Authoritative v) :
    u = v := by
  rcases hu with ⟨b, hb⟩ | ⟨hno, p, hp⟩
  · rcases hv with ⟨c, hc⟩ | ⟨hno, -⟩
    · by_cases hbc : c = b
      · rw [hbc, hb] at hc
        simpa using hc
      · exact absurd (.inl (by simp [hc])) (h.exclusive b _ u hb (by simp) c hbc)
    · exact absurd hb (hno b u)
  · rcases hv with ⟨c, hc⟩ | ⟨-, q, hq⟩
    · exact absurd hc (hno c v)
    · rw [hp, Option.some.injEq] at hq
      exact (Prod.mk.inj hq).2

theorem authoritative_of_l2_none (h : Sound x) (hl : x.l2 = none) : ¬x.Authoritative v := by
  rintro (⟨c, hc⟩ | ⟨-, p, hp⟩)
  · have hnone := (h.no_copies hl c).1
    rw [hc] at hnone
    cases hnone
  · rw [hl] at hp
    cases hp

/-- Every copy above the second level has the value of the line. -/
theorem authoritative_of_d (h : Sound x) {c : κ} (hc : x.d c = some (p, v)) :
    x.Authoritative v := by
  by_cases hp : p = .modified
  · exact .inl ⟨c, hp ▸ hc⟩
  · obtain ⟨q, hq⟩ := h.cleanD c p v hc hp
    refine .inr ⟨fun b u hb => ?_, q, hq⟩
    by_cases hbc : c = b
    · rw [hbc, hb, Option.some.injEq] at hc
      exact hp (Prod.mk.inj hc).1.symm
    · exact h.exclusive b _ u hb (by simp) c hbc (.inl (by simp [hc]))

theorem authoritative_of_i (h : Sound x) {c : κ} (hc : x.i c = some v) : x.Authoritative v := by
  obtain ⟨q, hq⟩ := h.cleanI c v hc
  refine authoritative_of_clean h hq fun hmod => ?_
  rw [h.noInstr v (hmod ▸ hq) c] at hc
  cases hc

end LineState

end Mesi
