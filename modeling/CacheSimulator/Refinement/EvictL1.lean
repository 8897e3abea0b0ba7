import CacheSimulator.Refinement.Invariant

/-!
# L1 eviction

`evict_l1` returns a free way of the set. Either one was free already and
nothing happens, or one line loses the core's copy, which is a move of the
protocol. The precondition concerns the lines of the evicted cache only: a
store that hits in L2 evicts while the line it stores to is between two moves.
-/

namespace CacheSimulator

open Mesi

/-! ## Lines as lines of the protocol -/

namespace LineRep

variable (x : LineRep) (k : L1Kind) (c : CoreId) (y : Option (Mode × Line))

@[simp] theorem view_setL1_data :
    (x.setL1 .data c y).view = { x.view with d := Function.update x.view.d c y } :=
  rfl

@[simp] theorem view_setL1_instr :
    (x.setL1 .instr c y).view =
      { x.view with i := Function.update x.view.i c (y.map Prod.snd) } := by
  unfold view
  congr 1
  funext b
  by_cases hb : b = c <;> simp [setL1_l1, hb]

@[simp] theorem view_setL2 (z : Option L2Entry) :
    (x.setL2 z).view = { x.view with l2 := z.map L2Entry.copy } := rfl

@[simp] theorem view_setMem (line : Line) :
    (x.setMem line).view = { x.view with mem := line } := rfl

theorem view_d : x.view.d c = x.l1 .data c := rfl

theorem view_i : x.view.i c = (x.l1 .instr c).map Prod.snd := rfl

theorem view_l2 : x.view.l2 = x.l2.map L2Entry.copy := rfl

@[simp] theorem view_mem : x.view.mem = x.mem := rfl

/-- A core holds a line when one of its two caches does. -/
theorem view_holds : x.view.Holds c ↔ x.holders .data c = true ∨ x.holders .instr c = true := by
  unfold LineState.Holds holders
  rw [view_d, view_i]
  cases x.l1 .data c <;> cases x.l1 .instr c <;> simp

theorem holders_setL1 (k' : L1Kind) :
    (x.setL1 k c y).holders k' =
      if k' = k then Function.update (x.holders k) c y.isSome else x.holders k' := by
  funext b
  unfold holders
  rw [setL1_l1]
  by_cases hk : k' = k
  · subst hk
    by_cases hb : b = c <;> simp [hb]
  · simp [hk]

@[simp] theorem holders_setL2 (z : Option L2Entry) : (x.setL2 z).holders = x.holders := rfl

@[simp] theorem holders_setMem (line : Line) : (x.setMem line).holders = x.holders := rfl

theorem exact_some {x : LineRep} {e : L2Entry} (he : x.l2 = some e) :
    x.Exact ↔ e.validD = maskOf (x.holders .data) ∧ e.validI = maskOf (x.holders .instr) := by
  unfold Exact
  rw [he]
  simp

theorem exact_setL2 {x : LineRep} {e : L2Entry} :
    (x.setL2 (some e)).Exact ↔
      e.validD = maskOf (x.holders .data) ∧ e.validI = maskOf (x.holders .instr) :=
  exact_some rfl

theorem exact_of_l2_none {x : LineRep} (hl : x.l2 = none) : x.Exact := by
  intro e he
  rw [hl] at he
  cases he

theorem Exact.drop {x : LineRep} {e : L2Entry} (h : x.Exact) (he : x.l2 = some e) (k : L1Kind)
    (c : CoreId) : ((x.setL1 k c none).setL2 (some (L2Set.clearEntry e k c))).Exact := by
  obtain ⟨hd, hi⟩ := h e he
  rw [exact_setL2, holders_setL1, holders_setL1]
  cases k with
  | data => simp [L2Set.clearEntry, hd, hi, maskOf_and_not_coreBit]
  | instr => simp [L2Set.clearEntry, hd, hi, maskOf_and_not_coreBit]

/-- An entry after the last check of `evict_l1`: a line without copies is not
shared. -/
def settle (e : L2Entry) : L2Entry :=
  if e.validD = 0 ∧ e.validI = 0 then { e with mode := e.mode.promote } else e

theorem settle_of_exact {x : LineRep} {e : L2Entry} (h : x.Exact) (he : x.l2 = some e) :
    Settle x.view (x.setL2 (some (settle e))).view := by
  obtain ⟨hd, hi⟩ := h e he
  have hself : x.setL2 (some e) = x := by rw [← he]; rfl
  unfold settle
  split
  · rename_i hzero
    rw [hd, hi, maskOf_eq_zero, maskOf_eq_zero] at hzero
    have hnone : ∀ c, ¬x.view.Holds c := fun c hc => by
      rcases (view_holds x c).mp hc with hc | hc
      · rw [hzero.1 c] at hc
        cases hc
      · rw [hzero.2 c] at hc
        cases hc
    have hlast := Settle.last hnone
    rw [view_l2, he] at hlast
    simpa [L2Entry.copy] using hlast
  · rename_i hzero
    rw [hself]
    by_contra hkept
    refine hzero ⟨?_, ?_⟩
    · rw [hd, maskOf_eq_zero]
      intro c
      by_contra hc
      exact hkept (.kept c ((view_holds x c).mpr (.inl (by simpa using hc))))
    · rw [hi, maskOf_eq_zero]
      intro c
      by_contra hc
      exact hkept (.kept c ((view_holds x c).mpr (.inr (by simpa using hc))))

theorem Exact.settle {x : LineRep} {e : L2Entry} (h : x.Exact) (he : x.l2 = some e) :
    (x.setL2 (some (settle e))).Exact := by
  obtain ⟨hd, hi⟩ := h e he
  rw [exact_setL2]
  unfold LineRep.settle
  split
  · exact ⟨hd, hi⟩
  · exact ⟨hd, hi⟩

end LineRep

theorem L2Set.becomes_evictL1Clean {set : L2Set} {w : Fin 16} {tag : Addr} {e : L2Entry}
    (h : set.slots w = some (tag, e)) (k : L1Kind) (c : CoreId) :
    set.Becomes (evictL1Clean set k w c) w tag (some (LineRep.settle (clearEntry e k c))) := by
  have hclear := becomes_clearCoreValid h k c
  have hslots := hclear.slots_self
  have hd := coreValidD_of_slots hslots
  have hi := coreValidI_of_slots hslots
  have hm := state_of_slots hslots
  unfold evictL1Clean LineRep.settle
  dsimp only
  rw [hd, hi]
  by_cases hzero : (clearEntry e k c).validD = 0 ∧ (clearEntry e k c).validI = 0
  · rw [if_pos hzero]
    by_cases hst : (l2ClearCoreValidWay set k w c).state w = .shared
    · rw [if_pos ⟨hzero.1, hzero.2, hst⟩]
      rw [hst] at hm
      have hmode : (clearEntry e k c).mode = .shared := (Option.some.inj hm).symm
      rw [hmode]
      exact hclear.trans (becomes_setState hslots rfl)
    · rw [if_neg fun hc => hst hc.2.2]
      have hmode : (clearEntry e k c).mode.promote = (clearEntry e k c).mode := by
        cases hp : (clearEntry e k c).mode with
        | shared => exact absurd (MESIState.mode?_eq_shared.mp (hp ▸ hm)) hst
        | modified => rfl
        | exclusive => rfl
      rw [hmode]
      exact hclear
  · rw [if_neg hzero, if_neg fun hc => hzero ⟨hc.1, hc.2.1⟩]
    exact hclear

namespace Sim

variable {s s' s'' : Sim} {a b : LineNo}

/-! ## Free ways -/

/-- The invariant of one line. -/
structure LineOk (s : Sim) (b : LineNo) : Prop where
  exact : (s.rep b).Exact
  inRange : (s.rep b).l2 ≠ none → 64 * (b : ℕ) + 64 ≤ s.mem.size.toNat
  coherent : Mesi.Coherent (s.rep b).view

theorem Inv.lineOk (h : s.Inv) (b : LineNo) : s.LineOk b :=
  ⟨h.exact b, h.inRange b, h.coherent b⟩

theorem LineOk.inclusion (h : s.LineOk b) {k : L1Kind} {c : CoreId}
    (hc : (s.rep b).l1 k c ≠ none) : ∃ e, (s.rep b).l2 = some e := by
  have hholds : (s.rep b).view.Holds c := by
    rw [LineRep.view_holds]
    unfold LineRep.holders
    rw [Option.isSome_iff_ne_none, Option.isSome_iff_ne_none]
    cases k with
    | data => exact .inl hc
    | instr => exact .inr hc
  have hl := h.coherent.inclusion c hholds
  exact Option.ne_none_iff_exists'.mp (view_l2_ne_none.mp hl)

/-- The L2 ways hold the lines they held before. -/
def SameL2Tags (s s' : Sim) : Prop :=
  ∀ i w, ((s'.l2 i).slots w).map Prod.fst = ((s.l2 i).slots w).map Prod.fst

theorem SameL2Tags.refl (s : Sim) : SameL2Tags s s := fun _ _ => rfl

theorem SameL2Tags.trans (h : SameL2Tags s s') (h' : SameL2Tags s' s'') : SameL2Tags s s'' :=
  fun i w => (h' i w).trans (h i w)

theorem SameL2Tags.of_eq (h : s'.l2 = s.l2) : SameL2Tags s s' := fun i w => by rw [h]

theorem SameL2Tags.setL2 {w : Fin 16} {tag : Addr} {e e' : L2Entry} {i : Fin 4096} {set : L2Set}
    (hw : (s.l2 i).slots w = some (tag, e)) (hset : (s.l2 i).Becomes set w tag (some e')) :
    SameL2Tags s (s.setL2 i set) := by
  intro j v
  rw [l2_setL2]
  by_cases hj : j = i
  · subst hj
    rw [if_pos rfl, hset.slots]
    by_cases hv : v = w
    · subst hv
      simp [hw]
    · rw [Function.update_of_ne hv]
  · rw [if_neg hj]

theorem SameL2Tags.state_eq_invalid (h : SameL2Tags s s') (i : Fin 4096) (w : Fin 16) :
    (s'.l2 i).state w = .invalid ↔ (s.l2 i).state w = .invalid := by
  rw [← L2Set.slots_eq_none, ← L2Set.slots_eq_none, ← Option.map_eq_none_iff, h i w,
    Option.map_eq_none_iff]

theorem SameL2Tags.slots (h : SameL2Tags s s') (hp : s'.Placed) {w : Fin 16} {e e' : L2Entry}
    (hw : (s.l2 (l2Geometry.index a)).slots w = some (l2Geometry.tag a, e))
    (he' : (s'.rep a).l2 = some e') :
    (s'.l2 (l2Geometry.index a)).slots w = some (l2Geometry.tag a, e') := by
  have htag := h (l2Geometry.index a) w
  rw [hw, Option.map_some] at htag
  obtain ⟨⟨t, e''⟩, hslot, rfl⟩ := Option.map_eq_some_iff.mp htag
  have he'' := hp.l2_of_slots hslot
  rw [he', Option.some.injEq] at he''
  rw [hslot, he'']

def dropAction (k : L1Kind) (c : CoreId) : Action CoreId Store :=
  match k with
  | .data => .dropD c
  | .instr => .dropI c

/-- `evict_l1` leaves everything as it is, or drops one line from the cache. -/
structure FreesL1 (s : Sim) (k : L1Kind) (c : CoreId) (s' : Sim) : Prop where
  tags : SameL2Tags s s'
  history : s'.history = s.history
  cases : SameCaches s s' ∨
    ∃ b, (s.rep b).l1 k c ≠ none ∧ LineMove s b (dropAction k c) s'

theorem FreesL1.placed {k : L1Kind} {c : CoreId} (h : FreesL1 s k c s') (hp : s.Placed) :
    s'.Placed := by
  rcases h.cases with hs | ⟨b, -, hm⟩
  · exact hs.placed hp
  · exact hm.placed

theorem FreesL1.rep_eq {k : L1Kind} {c : CoreId} (h : FreesL1 s k c s')
    (ha : (s.rep a).l1 k c = none) : s'.rep a = s.rep a := by
  rcases h.cases with hs | ⟨b, hb, hm⟩
  · rw [hs.rep]
  · refine hm.frame a fun hab => ?_
    rw [hab] at ha
    exact hb ha

theorem FreesL1.size {k : L1Kind} {c : CoreId} (h : FreesL1 s k c s') :
    s'.mem.size = s.mem.size := by
  rcases h.cases with hs | ⟨b, -, hm⟩
  · rw [hs.mem]
  · exact hm.size

/-- What `evict_l1` makes of the L2 entry of a victim in mode `m`. -/
def dropEntry (e : L2Entry) (k : L1Kind) (c : CoreId) (m : Mode) (line : Line) : L2Entry :=
  if k = .data ∧ m = .modified then
    L2Set.clearEntry { e with mode := .modified, data := line } .data c
  else LineRep.settle (L2Set.clearEntry e k c)

theorem LineOk.drop {k : L1Kind} {c : CoreId} {m : Mode} {line : Line} {e : L2Entry}
    (hok : s.LineOk b) (hb : (s.rep b).l1 k c = some (m, line)) (he : (s.rep b).l2 = some e) :
    (((s.rep b).setL1 k c none).setL2 (some (dropEntry e k c m line))).Exact ∧
      Mesi.Step Store.act (s.rep b).view (dropAction k c)
        (((s.rep b).setL1 k c none).setL2 (some (dropEntry e k c m line))).view := by
  have hexact := hok.exact.drop he k c
  have hl2 : (s.rep b).view.l2 = some e.copy := by rw [LineRep.view_l2, he, Option.map_some]
  unfold dropEntry
  split
  · rename_i hdirty
    obtain ⟨rfl, rfl⟩ := hdirty
    constructor
    · rw [LineRep.exact_setL2] at hexact ⊢
      exact hexact
    · have hstep : Mesi.Step Store.act (s.rep b).view (.dropD c) _ := .dropDirty c line hb
      simpa [L2Set.clearEntry, L2Entry.copy, dropAction] using hstep
  · rename_i hclean
    refine ⟨hexact.settle rfl, ?_⟩
    have hsettle := LineRep.settle_of_exact hexact rfl
    rw [LineRep.setL2_setL2] at hsettle
    have hcopy : some (L2Set.clearEntry e k c).copy = (s.rep b).view.l2 := by
      rw [hl2]
      cases k <;> rfl
    rw [LineRep.view_setL2, Option.map_some, hcopy] at hsettle
    cases k with
    | data =>
        rw [LineRep.view_setL1_data] at hsettle
        exact .dropClean c m line _ hb (fun hm => hclean ⟨rfl, hm⟩) hsettle
    | instr =>
        rw [LineRep.view_setL1_instr] at hsettle
        exact .dropInstr c line _ (by rw [LineRep.view_i, hb]; rfl) hsettle

theorem lineMove_drop {k : L1Kind} {c : CoreId} {m : Mode} {line : Line} {e : L2Entry}
    (hok : s.LineOk b) (hplaced : s'.Placed) (hmem : s'.mem = s.mem)
    (hstreams : s'.streams = s.streams) (hhistory : s'.history = s.history)
    (hb : (s.rep b).l1 k c = some (m, line)) (he : (s.rep b).l2 = some e)
    (hrep : s'.rep = Function.update s.rep b
      (((s.rep b).setL1 k c none).setL2 (some (dropEntry e k c m line)))) :
    LineMove s b (dropAction k c) s' := by
  have hself := congrFun hrep b
  rw [Function.update_self] at hself
  have henters : ¬(dropAction k c : Action CoreId Store).Enters := by cases k <;> exact id
  have hstored : (dropAction k c : Action CoreId Store).stored = none := by cases k <;> rfl
  obtain ⟨hexact, hstep⟩ := hok.drop hb he
  constructor
  · exact hplaced
  · rw [hmem]
  · exact hstreams
  · intro a ha
    rw [hrep, Function.update_of_ne ha]
  · rw [hself]
    exact hexact
  · exact fun _ => hok.inRange (by simp [he])
  · rw [hself]
    exact hstep
  · rw [hhistory]
    exact .quiet _ henters hstored

/-! ## The evictor -/

theorem exists_slot_l1 {k : L1Kind} {c : CoreId} {i : Fin 64}
    (h : (List.finRange 8).find? (fun w => (s.l1 k c i).state w == .invalid) = none) (w : Fin 8) :
    ∃ m, (s.l1 k c i).slots w = some ((s.l1 k c i).tag w, m, (s.l1 k c i).data w) := by
  have hw := List.find?_eq_none.mp h w (List.mem_finRange w)
  rw [beq_iff_eq] at hw
  obtain ⟨m, hm⟩ := Option.ne_none_iff_exists'.mp (mt MESIState.mode?_eq_none.mp hw)
  exact ⟨m, L1Set.slots_eq_some.mpr ⟨rfl, hm, rfl⟩⟩

theorem freesL1_of_becomes {k : L1Kind} {c : CoreId} {w : Fin 8} {m : Mode} {line : Line}
    {l2Way : Fin 16} {e : L2Entry} {l2Set : L2Set} (hp : s.Placed) (hok : s.LineOk b)
    (hslot : (s.l1 k c (l1Geometry.index b)).slots w = some (l1Geometry.tag b, m, line))
    (hl2slot : (s.l2 (l2Geometry.index b)).slots l2Way = some (l2Geometry.tag b, e))
    (hset : (s.l2 (l2Geometry.index b)).Becomes l2Set l2Way (l2Geometry.tag b)
      (some (dropEntry e k c m line)))
    (hs' : SameCaches (s.setL2 (l2Geometry.index b) l2Set) s') :
    FreesL1 s k c (s'.setL1 k c (l1Geometry.index b)
      ((s.l1 k c (l1Geometry.index b)).setState w .invalid)) := by
  have hb := hp.l1_of_slots hslot
  have he := hp.l2_of_slots hl2slot
  obtain ⟨hp1, hrep1⟩ := hp.setL2 (l2Assignable_of_holds hl2slot) hset
  have hp2 := hs'.placed hp1
  have hl1 : s'.l1 = s.l1 := hs'.l1
  rw [← hs'.rep] at hrep1
  rw [← hl1] at hslot ⊢
  obtain ⟨hp3, hrep3⟩ := hp2.setL1 (y := none) (l1Assignable_of_holds hslot)
    L1Set.slots_setState_invalid
  have htags : SameL2Tags s s' := by
    have := SameL2Tags.setL2 hl2slot hset
    rwa [SameL2Tags, ← hs'.l2] at this
  refine ⟨htags, hs'.history, .inr ⟨b, by simp [hb], ?_⟩⟩
  refine lineMove_drop hok hp3 hs'.mem ?_ hs'.history hb he ?_
  · rw [streams_setL1, hs'.streams, streams_setL2]
  · rw [hrep3, hrep1, Function.update_idem, Function.update_self]
    rfl

/-- `evict_l1` never aborts. It returns a free way, and drops at most one line
of the cache. -/
theorem evictL1_spec {k : L1Kind} {c : CoreId} {i : Fin 64} (hp : s.Placed)
    (hok : ∀ b, (s.rep b).l1 k c ≠ none → s.LineOk b) :
    (evictL1 k s i c).Sat (fun r => (r.1.l1 k c i).state r.2 = .invalid ∧ FreesL1 s k c r.1)
      fun _ => False := by
  unfold evictL1
  dsimp only
  cases hfree : (List.finRange 8).find? fun w => (s.l1 k c i).state w == .invalid with
  | some w =>
      have hw := List.find?_some hfree
      rw [beq_iff_eq] at hw
      exact ⟨hw, .refl s, rfl, .inl (.refl s)⟩
  | none =>
      generalize plruVictimWay 8 (s.l1 k c i).plruBits = victim
      obtain ⟨m, hslot⟩ := exists_slot_l1 hfree victim
      obtain ⟨b, rfl, htag⟩ := hp.l1_line hslot
      rw [← htag] at hslot
      have hb := hp.l1_of_slots hslot
      have hbok := hok b (by rw [hb]; simp)
      obtain ⟨e, he⟩ := hbok.inclusion (by rw [hb]; simp)
      obtain ⟨l2Way, hfind, hl2slot⟩ := hp.find_l2 he
      have haddr : l1ToAddr ((s.l1 k c (l1Geometry.index b)).tag victim) (l1Geometry.index b) =
          lineAddr b := by
        rw [← htag, l1ToAddr_geometry]
      rw [haddr, l2ToIndex_lineAddr, l2ToTag_lineAddr, hfind]
      refine ⟨by simp [L1Set.setState], freesL1_of_becomes hp hbok hslot hl2slot ?_
        (.emit _ _ _ _ _ _ _ _ _ _)⟩
      unfold dropEntry
      cases k with
      | data =>
          by_cases hm : (s.l1 .data c (l1Geometry.index b)).state victim = .modified
          · have hmode : m = .modified := by
              have := (L1Set.slots_eq_some.mp hslot).2.1
              rw [hm] at this
              exact (Option.some.inj this).symm
            rw [if_pos hm, if_pos ⟨rfl, hmode⟩]
            exact L2Set.becomes_writeWay hl2slot c _
          · have hmode : m ≠ .modified := by
              rintro rfl
              exact hm (MESIState.mode?_eq_modified.mp (L1Set.slots_eq_some.mp hslot).2.1)
            rw [if_neg hm, if_neg fun h => hmode h.2]
            exact L2Set.becomes_evictL1Clean hl2slot .data c
      | instr => exact L2Set.becomes_evictL1Clean hl2slot .instr c

end Sim

end CacheSimulator
