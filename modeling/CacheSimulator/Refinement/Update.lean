import CacheSimulator.Refinement.Sharers

/-!
# Updates of one way

An update of one way of a set is an update of one line of `Sim.rep`. The rules
`Placed.setL1` and `Placed.setL2` say so for any update; the lemmas before them
compute what each operation on a set makes of the way it touches.
-/

namespace CacheSimulator

open Mesi SetAssociative

/-! ## L1 ways -/

namespace L1Set

variable {set : L1Set} {w : Fin 8} {tag : Addr} {m : Mode} {line : Line}

theorem slots_setState_invalid :
    (set.setState w .invalid).slots = Function.update set.slots w none := by
  funext v
  by_cases hv : v = w
  · simp [slots, setState, hv]
  · simp [slots, setState, hv]

theorem slots_setState (h : set.slots w = some (tag, m, line)) {st : MESIState} {m' : Mode}
    (hst : st.mode? = some m') :
    (set.setState w st).slots = Function.update set.slots w (some (tag, m', line)) := by
  obtain ⟨htag, -, hline⟩ := slots_eq_some.mp h
  funext v
  by_cases hv : v = w
  · simp [slots, setState, hv, hst, htag, hline]
  · simp [slots, setState, hv]

theorem slots_fill {st : MESIState} (hst : st.mode? = some m) :
    (l1CacheFill set tag w line st).slots = Function.update set.slots w (some (tag, m, line)) := by
  funext v
  by_cases hv : v = w
  · simp [slots, l1CacheFill, hv, hst]
  · simp [slots, l1CacheFill, hv]

theorem slots_write (h : set.slots w = some (tag, m, line)) {offset : ℕ} {data : List Byte}
    {set' : L1Set} (hset : l1CacheWriteWay set w offset data = .ok set') :
    set'.slots = Function.update set.slots w (some (tag, .modified, line.overlay offset data)) := by
  obtain ⟨htag, -, hline⟩ := slots_eq_some.mp h
  unfold l1CacheWriteWay at hset
  split at hset
  · cases hset
    funext v
    by_cases hv : v = w
    · simp [slots, hv, htag, hline, MESIState.mode?]
    · simp [slots, hv]
  · cases hset

end L1Set

/-! ## L2 ways -/

namespace L2Set

/-- The change of a set in way `w` alone, which then holds `z` under `tag`. -/
structure Becomes (set set' : L2Set) (w : Fin 16) (tag : Addr) (z : Option L2Entry) : Prop where
  slots : set'.slots = Function.update set.slots w (z.map fun e => (tag, e))
  free : set.FreeMasks → set'.FreeMasks

variable {set set' set'' : L2Set} {w : Fin 16} {tag : Addr} {y z : Option L2Entry} {e : L2Entry}

theorem Becomes.slots_self (h : set.Becomes set' w tag z) :
    set'.slots w = z.map fun e => (tag, e) := by
  rw [h.slots, Function.update_self]

theorem Becomes.trans (h : set.Becomes set' w tag y) (h' : set'.Becomes set'' w tag z) :
    set.Becomes set'' w tag z := by
  constructor
  · rw [h'.slots, h.slots, Function.update_idem]
  · exact fun hf => h'.free (h.free hf)

theorem Becomes.refl (h : set.slots w = some (tag, e)) : set.Becomes set w tag (some e) := by
  constructor
  · rw [Option.map_some, ← h, Function.update_eq_self]
  · exact id

theorem ne_invalid_of_slots (h : set.slots w = some (tag, e)) : set.state w ≠ .invalid := by
  intro hst
  rw [slots_eq_none.mpr hst] at h
  cases h

theorem becomes_touch (h : set.slots w = some (tag, e)) (v : Fin 16) :
    set.Becomes (set.touch v) w tag (some e) :=
  ⟨(Becomes.refl h).slots, id⟩

theorem becomes_setState (h : set.slots w = some (tag, e)) {st : MESIState} {m : Mode}
    (hst : st.mode? = some m) :
    set.Becomes (set.setState w st) w tag (some { e with mode := m }) := by
  obtain ⟨htag, -, hd, hi, hline⟩ := slots_eq_some.mp h
  constructor
  · funext v
    by_cases hv : v = w
    · simp [L2Set.slots, setState, hv, hst, htag, hd, hi, hline]
    · simp [L2Set.slots, setState, hv]
  · intro hf v hinv
    by_cases hv : v = w
    · subst hv
      simp only [setState, Function.update_self] at hinv
      rw [MESIState.mode?_eq_none.mpr hinv] at hst
      cases hst
    · simp only [setState, Function.update_of_ne hv] at hinv
      exact hf v hinv

theorem becomes_setData (h : set.slots w = some (tag, e)) (line : Line) :
    set.Becomes (set.setData w line) w tag (some { e with data := line }) := by
  obtain ⟨htag, hm, hd, hi, -⟩ := slots_eq_some.mp h
  constructor
  · funext v
    by_cases hv : v = w
    · simp [L2Set.slots, setData, hv, hm, htag, hd, hi]
    · simp [L2Set.slots, setData, hv]
  · exact id

theorem becomes_setCoreValid_data (h : set.slots w = some (tag, e)) (mask : BitVec 8) :
    set.Becomes (set.setCoreValid .data w mask) w tag (some { e with validD := mask }) := by
  obtain ⟨htag, hm, hd, hi, hline⟩ := slots_eq_some.mp h
  constructor
  · funext v
    by_cases hv : v = w
    · simp [L2Set.slots, setCoreValid, hv, hm, htag, hi, hline]
    · simp [L2Set.slots, setCoreValid, hv]
  · intro hf v hinv
    by_cases hv : v = w
    · subst hv
      exact (ne_invalid_of_slots h hinv).elim
    · simpa [setCoreValid, hv] using hf v hinv

theorem becomes_setCoreValid_instr (h : set.slots w = some (tag, e)) (mask : BitVec 8) :
    set.Becomes (set.setCoreValid .instr w mask) w tag (some { e with validI := mask }) := by
  obtain ⟨htag, hm, hd, hi, hline⟩ := slots_eq_some.mp h
  constructor
  · funext v
    by_cases hv : v = w
    · simp [L2Set.slots, setCoreValid, hv, hm, htag, hd, hline]
    · simp [L2Set.slots, setCoreValid, hv]
  · intro hf v hinv
    by_cases hv : v = w
    · subst hv
      exact (ne_invalid_of_slots h hinv).elim
    · simpa [setCoreValid, hv] using hf v hinv

theorem coreValidD_of_slots (h : set.slots w = some (tag, e)) : set.coreValidD w = e.validD :=
  (slots_eq_some.mp h).2.2.1

theorem coreValidI_of_slots (h : set.slots w = some (tag, e)) : set.coreValidI w = e.validI :=
  (slots_eq_some.mp h).2.2.2.1

theorem data_of_slots (h : set.slots w = some (tag, e)) : set.data w = e.data :=
  (slots_eq_some.mp h).2.2.2.2

theorem state_of_slots (h : set.slots w = some (tag, e)) : (set.state w).mode? = some e.mode :=
  (slots_eq_some.mp h).2.1

def clearEntry (e : L2Entry) (k : L1Kind) (c : CoreId) : L2Entry :=
  match k with
  | .data => { e with validD := e.validD &&& ~~~coreBit c }
  | .instr => { e with validI := e.validI &&& ~~~coreBit c }

def addEntry (e : L2Entry) (k : L1Kind) (c : CoreId) : L2Entry :=
  match k with
  | .data => { e with validD := e.validD ||| coreBit c }
  | .instr => { e with validI := e.validI ||| coreBit c }

theorem becomes_clearCoreValid (h : set.slots w = some (tag, e)) (k : L1Kind) (c : CoreId) :
    set.Becomes (l2ClearCoreValidWay set k w c) w tag (some (clearEntry e k c)) := by
  cases k with
  | data =>
      have hb := becomes_setCoreValid_data h (set.coreValidD w &&& ~~~coreBit c)
      rw [coreValidD_of_slots h] at hb
      simpa [l2ClearCoreValidWay, coreValid, clearEntry, coreValidD_of_slots h] using hb
  | instr =>
      have hb := becomes_setCoreValid_instr h (set.coreValidI w &&& ~~~coreBit c)
      rw [coreValidI_of_slots h] at hb
      simpa [l2ClearCoreValidWay, coreValid, clearEntry, coreValidI_of_slots h] using hb

theorem becomes_readWay (h : set.slots w = some (tag, e)) (k : L1Kind) (c : CoreId) :
    set.Becomes (l2CacheReadWay set c w k).2 w tag (some (addEntry e k c)) := by
  have ht := (becomes_touch h w)
  cases k with
  | data =>
      have hb := becomes_setCoreValid_data ht.slots_self (e.validD ||| coreBit c)
      simpa [l2CacheReadWay, coreValid, addEntry, coreValidD_of_slots h] using ht.trans hb
  | instr =>
      have hb := becomes_setCoreValid_instr ht.slots_self (e.validI ||| coreBit c)
      simpa [l2CacheReadWay, coreValid, addEntry, coreValidI_of_slots h] using ht.trans hb

theorem becomes_writeWay (h : set.slots w = some (tag, e)) (c : CoreId) (line : Line) :
    set.Becomes (l2CacheWriteWay set c w line) w tag
      (some (clearEntry { e with mode := .modified, data := line } .data c)) := by
  have hdata := becomes_setData h line
  have hstate := becomes_setState hdata.slots_self (MESIState.mode?_eq_modified.mpr rfl)
  exact (hdata.trans hstate).trans (becomes_clearCoreValid hstate.slots_self .data c)

theorem becomes_claim (h : set.slots w = some (tag, e)) (c : CoreId) :
    set.Becomes (claimForStore set w c) w tag
      (some ⟨.modified, coreBit c, 0, e.data⟩) := by
  have hinstr := becomes_setCoreValid_instr h 0
  have hdata := becomes_setCoreValid_data hinstr.slots_self (coreBit c)
  have hstate := becomes_setState hdata.slots_self (MESIState.mode?_eq_modified.mpr rfl)
  exact (hinstr.trans hdata).trans hstate

/-- The final clearing of a way by `evict_l2`. -/
theorem becomes_clear (w : Fin 16) (tag : Addr) :
    set.Becomes (((set.setCoreValid .data w 0).setCoreValid .instr w 0).setState w .invalid) w tag
      none := by
  constructor
  · funext v
    by_cases hv : v = w
    · simp [L2Set.slots, setState, hv]
    · simp [L2Set.slots, setState, setCoreValid, hv]
  · intro hf v hinv
    by_cases hv : v = w
    · simp [setState, setCoreValid, hv]
    · simpa [setState, setCoreValid, hv] using
        hf v (by simpa [setState, setCoreValid, hv] using hinv)

/-- The mask of core `c` in the `k` cache alone. -/
def soleEntry (m : Mode) (k : L1Kind) (c : CoreId) (line : Line) : L2Entry :=
  match k with
  | .data => ⟨m, coreBit c, 0, line⟩
  | .instr => ⟨m, 0, coreBit c, line⟩

theorem fill_spec (hf : set.FreeMasks) (hw : set.state w = .invalid) (c : CoreId) (tag : Addr)
    (line : Line) {st : MESIState} {m : Mode} (hst : st.mode? = some m) (k : L1Kind) :
    ∃ set', l2CacheFill set c tag w line st k = .ok set' ∧
      set.Becomes set' w tag (some (soleEntry m k c line)) := by
  obtain ⟨hd, hi⟩ := hf w hw
  have hne : st ≠ .invalid := fun h => by
    rw [MESIState.mode?_eq_none.mpr h] at hst
    cases hst
  have hmasks : ¬(set.coreValid k w ≠ 0 ∨ set.coreValid k.other w ≠ 0) := by
    cases k <;> simp [coreValid, L1Kind.other, hd, hi]
  refine ⟨_, if_neg hmasks, ?_, ?_⟩
  · funext v
    by_cases hv : v = w
    · cases k <;>
        simp [L2Set.slots, setState, setCoreValid, setData, touch, soleEntry, hv, hst, hd, hi]
    · cases k <;> simp [L2Set.slots, setState, setCoreValid, setData, touch, hv]
  · intro _ v hinv
    by_cases hv : v = w
    · subst hv
      cases k <;> simp [setState, setCoreValid, setData, touch, hne] at hinv
    · cases k <;> simpa [setState, setCoreValid, setData, touch, hv] using
        hf v (by simpa [setState, setCoreValid, setData, touch, hv] using hinv)

theorem fillPrefetch_spec (hf : set.FreeMasks) (hw : set.state w = .invalid) (tag : Addr)
    (line : Line) {st : MESIState} {m : Mode} (hst : st.mode? = some m) :
    ∃ set', l2CacheFillPrefetch set tag w line st = .ok set' ∧
      set.Becomes set' w tag (some ⟨m, 0, 0, line⟩) := by
  obtain ⟨hd, hi⟩ := hf w hw
  have hne : st ≠ .invalid := fun h => by
    rw [MESIState.mode?_eq_none.mpr h] at hst
    cases hst
  have hmasks : ¬(set.coreValidD w ≠ 0 ∨ set.coreValidI w ≠ 0) := by simp [hd, hi]
  refine ⟨_, if_neg hmasks, ?_, ?_⟩
  · funext v
    by_cases hv : v = w
    · simp [L2Set.slots, setState, setData, touch, hv, hst, hd, hi]
    · simp [L2Set.slots, setState, setData, touch, hv]
  · intro _ v hinv
    by_cases hv : v = w
    · subst hv
      simp [setState, setData, touch, hne] at hinv
    · simpa [setState, setData, touch, hv] using
        hf v (by simpa [setState, setData, touch, hv] using hinv)

end L2Set

/-! ## Lines of the state -/

namespace LineRep

variable (x : LineRep) (k : L1Kind) (c : CoreId) (y : Option (Mode × Line))

@[simp] theorem setL1_l1_self : (x.setL1 k c y).l1 k c = y := by simp [setL1]

theorem setL1_l1 (k' : L1Kind) (c' : CoreId) :
    (x.setL1 k c y).l1 k' c' = if k' = k ∧ c' = c then y else x.l1 k' c' := by
  by_cases hk : k' = k
  · subst hk
    by_cases hc : c' = c <;> simp [setL1, hc]
  · simp [setL1, hk]

@[simp] theorem setL1_l2 : (x.setL1 k c y).l2 = x.l2 := rfl

@[simp] theorem setL1_mem : (x.setL1 k c y).mem = x.mem := rfl

@[simp] theorem setL2_l1 (z : Option L2Entry) : (x.setL2 z).l1 = x.l1 := rfl

@[simp] theorem setL2_l2 (z : Option L2Entry) : (x.setL2 z).l2 = z := rfl

@[simp] theorem setL2_mem (z : Option L2Entry) : (x.setL2 z).mem = x.mem := rfl

@[simp] theorem setMem_l1 (line : Line) : (x.setMem line).l1 = x.l1 := rfl

@[simp] theorem setMem_l2 (line : Line) : (x.setMem line).l2 = x.l2 := rfl

@[simp] theorem setMem_mem (line : Line) : (x.setMem line).mem = line := rfl

@[simp] theorem setL2_setL2 (z z' : Option L2Entry) : (x.setL2 z).setL2 z' = x.setL2 z' := rfl

end LineRep

namespace Sim

variable {s s' : Sim}

/-- The lines depend on the L1 sets, the L2 sets and memory alone. -/
theorem rep_congr (h1 : s'.l1 = s.l1) (h2 : s'.l2 = s.l2) (hm : s'.mem = s.mem) :
    s'.rep = s.rep := by
  funext a
  refine LineRep.ext ?_ ?_ ?_
  · simp only [rep, l1Lines, h1]
  · simp only [rep, l2Lines, h2]
  · funext j
    simp only [rep, memLine, hm]

theorem Placed.congr (h : s.Placed) (h1 : s'.l1 = s.l1) (h2 : s'.l2 = s.l2) : s'.Placed := by
  obtain ⟨hl1, hl2, hfree⟩ := h
  constructor
  · rwa [h1]
  · rwa [h2]
  · rwa [h2]

theorem SameCaches.rep (h : SameCaches s s') : s'.rep = s.rep := rep_congr h.l1 h.l2 h.mem

theorem SameCaches.placed (h : SameCaches s s') (hp : s.Placed) : s'.Placed := hp.congr h.l1 h.l2

theorem Placed.exists_l1_way (h : s.Placed) {k : L1Kind} {c : CoreId} {a : LineNo}
    {x : Mode × Line} (hx : (s.rep a).l1 k c = some x) :
    ∃ w, (s.l1 k c (l1Geometry.index a)).slots w = some (l1Geometry.tag a, x) :=
  (l1Geometry.contents_eq_some_iff (h.l1 k c)).mp hx

theorem Placed.exists_l2_way (h : s.Placed) {a : LineNo} {e : L2Entry}
    (he : (s.rep a).l2 = some e) :
    ∃ w, (s.l2 (l2Geometry.index a)).slots w = some (l2Geometry.tag a, e) :=
  (l2Geometry.contents_eq_some_iff h.l2).mp he

theorem Placed.l1_of_slots (h : s.Placed) {k : L1Kind} {c : CoreId} {a : LineNo} {w : Fin 8}
    {x : Mode × Line}
    (hw : (s.l1 k c (l1Geometry.index a)).slots w = some (l1Geometry.tag a, x)) :
    (s.rep a).l1 k c = some x :=
  (l1Geometry.contents_eq_some_iff (h.l1 k c)).mpr ⟨w, hw⟩

theorem Placed.l2_of_slots (h : s.Placed) {a : LineNo} {w : Fin 16} {e : L2Entry}
    (hw : (s.l2 (l2Geometry.index a)).slots w = some (l2Geometry.tag a, e)) :
    (s.rep a).l2 = some e :=
  (l2Geometry.contents_eq_some_iff h.l2).mpr ⟨w, hw⟩

theorem l1_eq_none_of_find {k : L1Kind} {c : CoreId} {a : LineNo}
    (h : findL1Way (s.l1 k c (l1Geometry.index a)) (l1Geometry.tag a) = none) :
    (s.rep a).l1 k c = none := by
  change l1Geometry.contents (fun i => (s.l1 k c i).slots) a = none
  rw [l1Geometry.contents_eq_none_iff]
  exact findL1Way_eq_none h

theorem l2_eq_none_of_find {a : LineNo}
    (h : l2FindWay (s.l2 (l2Geometry.index a)) (l2Geometry.tag a) = none) :
    (s.rep a).l2 = none := by
  change l2Geometry.contents (fun i => (s.l2 i).slots) a = none
  rw [l2Geometry.contents_eq_none_iff]
  exact l2FindWay_eq_none h

theorem Placed.find_l1 (h : s.Placed) {k : L1Kind} {c : CoreId} {a : LineNo} {x : Mode × Line}
    (hx : (s.rep a).l1 k c = some x) :
    ∃ w, findL1Way (s.l1 k c (l1Geometry.index a)) (l1Geometry.tag a) = some w ∧
      (s.l1 k c (l1Geometry.index a)).slots w = some (l1Geometry.tag a, x) := by
  obtain ⟨w, hw⟩ := h.exists_l1_way hx
  exact ⟨w, findL1Way_of_slots ((h.l1 k c).unique _) hw, hw⟩

theorem Placed.find_l1_none (h : s.Placed) {k : L1Kind} {c : CoreId} {a : LineNo}
    (hx : (s.rep a).l1 k c = none) :
    findL1Way (s.l1 k c (l1Geometry.index a)) (l1Geometry.tag a) = none := by
  cases hf : findL1Way (s.l1 k c (l1Geometry.index a)) (l1Geometry.tag a) with
  | none => rfl
  | some w =>
      obtain ⟨m, hm⟩ := findL1Way_eq_some hf
      rw [h.l1_of_slots hm] at hx
      cases hx

theorem Placed.find_l2 (h : s.Placed) {a : LineNo} {e : L2Entry} (he : (s.rep a).l2 = some e) :
    ∃ w, l2FindWay (s.l2 (l2Geometry.index a)) (l2Geometry.tag a) = some w ∧
      (s.l2 (l2Geometry.index a)).slots w = some (l2Geometry.tag a, e) := by
  obtain ⟨w, hw⟩ := h.exists_l2_way he
  exact ⟨w, l2FindWay_of_slots (h.l2.unique _) hw, hw⟩

theorem Placed.l2_way_unique (h : s.Placed) {a : LineNo} {e e' : L2Entry} {w w' : Fin 16}
    (hw : (s.l2 (l2Geometry.index a)).slots w = some (l2Geometry.tag a, e))
    (hw' : (s.l2 (l2Geometry.index a)).slots w' = some (l2Geometry.tag a, e')) : w = w' :=
  h.l2.unique _ w w' _ _ _ hw hw'

theorem Placed.l1_line (h : s.Placed) {k : L1Kind} {c : CoreId} {i : Fin 64} {w : Fin 8}
    {tag : Addr} {x : Mode × Line} (hw : (s.l1 k c i).slots w = some (tag, x)) :
    ∃ a, l1Geometry.index a = i ∧ l1Geometry.tag a = tag :=
  (h.l1 k c).placed i w tag x hw

theorem Placed.l2_line (h : s.Placed) {i : Fin 4096} {w : Fin 16} {tag : Addr} {e : L2Entry}
    (hw : (s.l2 i).slots w = some (tag, e)) :
    ∃ a, l2Geometry.index a = i ∧ l2Geometry.tag a = tag :=
  h.l2.placed i w tag e hw

/-- A way of an L1 set that may be given an entry for `a`. -/
def L1Assignable (s : Sim) (k : L1Kind) (c : CoreId) (a : LineNo) (w : Fin 8) : Prop :=
  l1Geometry.Assignable (fun i => (s.l1 k c i).slots) a w

def L2Assignable (s : Sim) (a : LineNo) (w : Fin 16) : Prop :=
  l2Geometry.Assignable (fun i => (s.l2 i).slots) a w

theorem l1Assignable_of_holds {k : L1Kind} {c : CoreId} {a : LineNo} {w : Fin 8}
    {x : Mode × Line}
    (hw : (s.l1 k c (l1Geometry.index a)).slots w = some (l1Geometry.tag a, x)) :
    s.L1Assignable k c a w :=
  l1Geometry.assignable_of_holds hw

theorem l1Assignable_of_free {k : L1Kind} {c : CoreId} {a : LineNo} {w : Fin 8}
    (hw : (s.l1 k c (l1Geometry.index a)).state w = .invalid) (ha : (s.rep a).l1 k c = none) :
    s.L1Assignable k c a w :=
  l1Geometry.assignable_of_free (L1Set.slots_eq_none.mpr hw) ha

theorem l2Assignable_of_holds {a : LineNo} {w : Fin 16} {e : L2Entry}
    (hw : (s.l2 (l2Geometry.index a)).slots w = some (l2Geometry.tag a, e)) :
    s.L2Assignable a w :=
  l2Geometry.assignable_of_holds hw

theorem l2Assignable_of_free {a : LineNo} {w : Fin 16}
    (hw : (s.l2 (l2Geometry.index a)).state w = .invalid) (ha : (s.rep a).l2 = none) :
    s.L2Assignable a w :=
  l2Geometry.assignable_of_free (L2Set.slots_eq_none.mpr hw) ha

section SetL1

variable {k : L1Kind} {c : CoreId} {a : LineNo} {w : Fin 8} {set : L1Set}
  {y : Option (Mode × Line)}

theorem slots_setL1 {z : Option (Addr × Mode × Line)}
    (hslots : set.slots = Function.update (s.l1 k c (l1Geometry.index a)).slots w z) :
    (fun i => ((s.setL1 k c (l1Geometry.index a) set).l1 k c i).slots) =
      Geometry.setSlot (fun i => (s.l1 k c i).slots) (l1Geometry.index a) w z := by
  funext i
  by_cases hi : i = l1Geometry.index a
  · subst hi
    simp [Geometry.setSlot, hslots]
  · simp [Geometry.setSlot, l1_setL1, hi]

/-- The change of one L1 way is the change of one line. -/
theorem Placed.setL1 (h : s.Placed) (ha : s.L1Assignable k c a w)
    (hslots : set.slots = Function.update (s.l1 k c (l1Geometry.index a)).slots w
      (y.map fun v => (l1Geometry.tag a, v))) :
    (s.setL1 k c (l1Geometry.index a) set).Placed ∧
      (s.setL1 k c (l1Geometry.index a) set).rep =
        Function.update s.rep a ((s.rep a).setL1 k c y) := by
  have hsets := slots_setL1 hslots
  have hother : ∀ k' c', ¬(k' = k ∧ c' = c) →
      (s.setL1 k c (l1Geometry.index a) set).l1 k' c' = s.l1 k' c' := by
    intro k' c' hne
    funext i
    rw [l1_setL1, if_neg fun hkc => hne ⟨hkc.1, hkc.2.1⟩]
  constructor
  · refine ⟨fun k' c' => ?_, h.l2, h.free⟩
    by_cases hkc : k' = k ∧ c' = c
    · obtain ⟨rfl, rfl⟩ := hkc
      rw [hsets]
      exact l1Geometry.wellPlaced_setSlot (h.l1 k' c') ha y
    · rw [hother k' c' hkc]
      exact h.l1 k' c'
  · funext b
    have hl1 : ∀ k' c', ((s.setL1 k c (l1Geometry.index a) set).rep b).l1 k' c' =
        if k' = k ∧ c' = c then Function.update (s.l1Lines k c) a y b else (s.rep b).l1 k' c' := by
      intro k' c'
      by_cases hkc : k' = k ∧ c' = c
      · obtain ⟨rfl, rfl⟩ := hkc
        rw [if_pos ⟨rfl, rfl⟩]
        simp only [Sim.rep, l1Lines]
        rw [hsets, l1Geometry.contents_setSlot (h.l1 k' c') ha y]
      · rw [if_neg hkc]
        simp only [Sim.rep, l1Lines, hother k' c' hkc]
    by_cases hb : b = a
    · subst hb
      rw [Function.update_self]
      refine LineRep.ext ?_ rfl rfl
      funext k' c'
      rw [hl1, LineRep.setL1_l1, Function.update_self]
    · rw [Function.update_of_ne hb]
      refine LineRep.ext ?_ rfl rfl
      funext k' c'
      rw [hl1, Function.update_of_ne hb]
      split
      · rename_i hkc
        rw [hkc.1, hkc.2]
        rfl
      · rfl

end SetL1

section SetL2

variable {a : LineNo} {w : Fin 16} {set : L2Set} {y : Option L2Entry}

theorem slots_setL2 {z : Option (Addr × L2Entry)}
    (hslots : set.slots = Function.update (s.l2 (l2Geometry.index a)).slots w z) :
    (fun i => ((s.setL2 (l2Geometry.index a) set).l2 i).slots) =
      Geometry.setSlot (fun i => (s.l2 i).slots) (l2Geometry.index a) w z := by
  funext i
  by_cases hi : i = l2Geometry.index a
  · subst hi
    simp [Geometry.setSlot, hslots]
  · simp [Geometry.setSlot, l2_setL2, hi]

/-- The change of one L2 way is the change of one line. -/
theorem Placed.setL2 (h : s.Placed) (ha : s.L2Assignable a w)
    (hset : (s.l2 (l2Geometry.index a)).Becomes set w (l2Geometry.tag a) y) :
    (s.setL2 (l2Geometry.index a) set).Placed ∧
      (s.setL2 (l2Geometry.index a) set).rep =
        Function.update s.rep a ((s.rep a).setL2 y) := by
  have hsets := slots_setL2 hset.slots
  constructor
  · refine ⟨h.l1, ?_, fun i => ?_⟩
    · rw [hsets]
      exact l2Geometry.wellPlaced_setSlot h.l2 ha y
    · rw [l2_setL2]
      split
      · exact hset.free (h.free _)
      · exact h.free i
  · funext b
    have hl2 : ((s.setL2 (l2Geometry.index a) set).rep b).l2 = Function.update s.l2Lines a y b := by
      simp only [Sim.rep, l2Lines]
      rw [hsets, l2Geometry.contents_setSlot h.l2 ha y]
    by_cases hb : b = a
    · subst hb
      rw [Function.update_self]
      refine LineRep.ext rfl ?_ rfl
      rw [hl2, Function.update_self, LineRep.setL2_l2]
    · rw [Function.update_of_ne hb]
      refine LineRep.ext rfl ?_ rfl
      rw [hl2, Function.update_of_ne hb]
      rfl

end SetL2

/-- Writing a line to memory is the change of that line. -/
theorem rep_writeLine {a : LineNo} {line : Line} {mem : Memory}
    (h : s.mem.writeLine (lineAddr a) line = .ok mem) :
    mem.size = s.mem.size ∧
      ({ s with mem := mem } : Sim).rep = Function.update s.rep a ((s.rep a).setMem line) := by
  unfold Memory.writeLine at h
  split at h
  · cases h
    refine ⟨rfl, ?_⟩
    funext b
    by_cases hb : b = a
    · subst hb
      rw [Function.update_self]
      refine LineRep.ext rfl rfl ?_
      funext j
      have hj := j.isLt
      simp only [Sim.rep, memLine, lineAddr_toNat]
      rw [dif_pos (by omega)]
      congr 1
      apply Fin.ext
      simp
    · rw [Function.update_of_ne hb]
      refine LineRep.ext rfl rfl ?_
      funext j
      have hj := j.isLt
      have hne : (b : ℕ) ≠ a := fun h => hb (Fin.ext h)
      simp only [Sim.rep, memLine, lineAddr_toNat]
      rw [dif_neg (by omega)]
  · cases h

theorem readLine_error {a : LineNo} (h : ¬64 * (a : ℕ) + 64 ≤ s.mem.size.toNat) :
    s.mem.readLine (lineAddr a) = .error .lineOutOfMemory := by
  unfold Memory.readLine
  rw [lineAddr_toNat, if_neg h]

theorem readLine_lineAddr {a : LineNo} (h : 64 * (a : ℕ) + 64 ≤ s.mem.size.toNat) :
    s.mem.readLine (lineAddr a) = .ok (s.rep a).mem := by
  unfold Memory.readLine
  rw [lineAddr_toNat, if_pos h]
  rfl

end Sim

end CacheSimulator
