import CacheSimulator.Refinement.EvictL2

/-!
# Snoops

Each snoop changes the copies of one line. `peerData` is the value a snoop
captures: the modified copy of the other core, or else what the caller had.
-/

namespace CacheSimulator

open Mesi

namespace LineRep

def peerData (x : LineRep) (b : CoreId) (line : Line) : Line :=
  match x.l1 .data b with
  | some (.modified, u) => u
  | _ => line

theorem peerData_of_modified {x : LineRep} {b : CoreId} {u : Line} (line : Line)
    (hb : x.l1 .data b = some (.modified, u)) : x.peerData b line = u := by
  unfold peerData
  rw [hb]

theorem peerData_of_ne {x : LineRep} {b : CoreId} (line : Line)
    (hb : ∀ u, x.l1 .data b ≠ some (.modified, u)) : x.peerData b line = line := by
  unfold peerData
  split
  · rename_i u h
    exact absurd h (hb u)
  · rfl

/-- A core that has not modified the line gets its value from the peer and
L2. -/
theorem authoritative_peerData {x : LineRep} {e : L2Entry} (he : x.l2 = some e) {c : CoreId}
    (hc : ∀ u, x.l1 .data c ≠ some (.modified, u)) :
    x.view.Authoritative (x.peerData (CoreId.peer c) e.data) := by
  by_cases hpeer : ∃ u, x.l1 .data (CoreId.peer c) = some (.modified, u)
  · obtain ⟨u, hu⟩ := hpeer
    rw [peerData_of_modified _ hu]
    exact .inl ⟨CoreId.peer c, hu⟩
  · have hno : ∀ u, x.l1 .data (CoreId.peer c) ≠ some (.modified, u) := fun u hu =>
      hpeer ⟨u, hu⟩
    rw [peerData_of_ne _ hno]
    refine .inr ⟨(CoreId.forall_iff c).mpr ⟨hc, hno⟩, e.mode, ?_⟩
    rw [view_l2, he]
    rfl

theorem setL1_eq_self {x : LineRep} {k : L1Kind} {c : CoreId} {y : Option (Mode × Line)}
    (h : x.l1 k c = y) : x.setL1 k c y = x := by
  refine LineRep.ext ?_ rfl rfl
  funext k' c'
  rw [setL1_l1]
  split
  · rename_i hkc
    rw [hkc.1, hkc.2, h]
  · rfl

theorem setL2_eq_self {x : LineRep} {y : Option L2Entry} (h : x.l2 = y) : x.setL2 y = x :=
  LineRep.ext rfl h.symm rfl

/-- The other holders, in the masks of an entry to which core `c` has been
added. -/
theorem addEntry_others {x : LineRep} {e : L2Entry} (hx : x.Exact) (he : x.l2 = some e)
    (k : L1Kind) (c : CoreId) :
    (L2Set.addEntry e k c).validD &&& ~~~coreBit c =
        maskOf (Function.update (x.holders .data) c false) ∧
      (L2Set.addEntry e k c).validI &&& ~~~coreBit c =
        maskOf (Function.update (x.holders .instr) c false) := by
  obtain ⟨hd, hi⟩ := hx e he
  cases k with
  | data =>
      simp only [L2Set.addEntry]
      rw [hd, hi, maskOf_or_coreBit, maskOf_and_not_coreBit, maskOf_and_not_coreBit,
        Function.update_idem]
      exact ⟨rfl, rfl⟩
  | instr =>
      simp only [L2Set.addEntry]
      rw [hd, hi, maskOf_or_coreBit, maskOf_and_not_coreBit, maskOf_and_not_coreBit,
        Function.update_idem]
      exact ⟨rfl, rfl⟩

/-- Whether another core has a copy of either kind. -/
def hasPeer (x : LineRep) (c : CoreId) : Bool :=
  x.holders .data (CoreId.peer c) || x.holders .instr (CoreId.peer c)

theorem hasPeer_iff {x : LineRep} {c : CoreId} :
    x.hasPeer c = true ↔ x.view.Holds (CoreId.peer c) := by
  rw [view_holds, hasPeer, Bool.or_eq_true]

theorem others_eq_zero {x : LineRep} {c : CoreId} :
    maskOf (Function.update (x.holders .data) c false) |||
        maskOf (Function.update (x.holders .instr) c false) = 0 ↔ x.hasPeer c = false := by
  rw [maskOf_or, maskOf_eq_zero, CoreId.forall_iff c]
  simp [hasPeer]

def dropInstr (x : LineRep) : LineRep := (x.setL1 .instr 0 none).setL1 .instr 1 none

@[simp] theorem dropInstr_l1_data (x : LineRep) : x.dropInstr.l1 .data = x.l1 .data := by
  funext c
  simp [dropInstr, setL1_l1]

@[simp] theorem dropInstr_l1_instr (x : LineRep) (c : CoreId) : x.dropInstr.l1 .instr c = none := by
  rcases CoreId.eq_zero_or_one c with rfl | rfl <;> simp [dropInstr, setL1_l1]

@[simp] theorem dropInstr_l2 (x : LineRep) : x.dropInstr.l2 = x.l2 := rfl

@[simp] theorem dropInstr_mem (x : LineRep) : x.dropInstr.mem = x.mem := rfl

end LineRep

namespace Sim

variable {s : Sim} {a : LineNo} {c : CoreId} {w : Fin 16} {e : L2Entry}

/-! ## Downgrading -/

theorem snoopDowngradePeer_spec (hp : s.Placed) (line : Line)
    (hw : (s.l2 (l2Geometry.index a)).slots w = some (l2Geometry.tag a, e)) :
    (snoopDowngradePeer (l1Geometry.index a) (l1Geometry.tag a) (l2Geometry.index a) w c
        (s, line)).Sat
      (fun r => r.2 = (s.rep a).peerData c line ∧
        (∀ k' c', ¬(k' = .data ∧ c' = c) → r.1.l1 k' c' = s.l1 k' c') ∧
        Rewrites s a (((s.rep a).setL2 (some { e with data := (s.rep a).peerData c e.data })).setL1
          .data c (((s.rep a).l1 .data c).map fun z => (.shared, z.2))) r.1)
      fun _ => False := by
  have he := hp.l2_of_slots hw
  unfold snoopDowngradePeer
  dsimp only
  cases hc : (s.rep a).l1 .data c with
  | none =>
      have hne : ∀ u, (s.rep a).l1 .data c ≠ some (.modified, u) := by simp [hc]
      rw [hp.find_l1_none hc, LineRep.peerData_of_ne _ hne, LineRep.peerData_of_ne _ hne,
        LineRep.setL2_eq_self he, Option.map_none, LineRep.setL1_eq_self hc]
      exact ⟨rfl, fun _ _ _ => rfl, .refl hp⟩
  | some z =>
      obtain ⟨m, u⟩ := z
      obtain ⟨v, hfind, hv⟩ := hp.find_l1 hc
      obtain ⟨-, hmode, hdata⟩ := L1Set.slots_eq_some.mp hv
      rw [hfind]
      dsimp only
      rw [hdata]
      -- the state and the line after a modified copy has been captured
      have hcaptured : ∀ p : Sim × Line,
          (if (s.l1 .data c (l1Geometry.index a)).state v = .modified then
            (s.setL2 (l2Geometry.index a) ((s.l2 (l2Geometry.index a)).setData w u), u)
          else (s, line)) = p →
          p.2 = (s.rep a).peerData c line ∧ p.1.l1 = s.l1 ∧
            Rewrites s a ((s.rep a).setL2 (some { e with data := (s.rep a).peerData c e.data }))
              p.1 := by
        rintro p rfl
        by_cases hm : m = .modified
        · subst hm
          rw [if_pos (MESIState.mode?_eq_modified.mp hmode), LineRep.peerData_of_modified _ hc,
            LineRep.peerData_of_modified _ hc]
          exact ⟨rfl, rfl, .setL2 hp hw (L2Set.becomes_setData hw u)⟩
        · have hne : ∀ u', (s.rep a).l1 .data c ≠ some (.modified, u') := by simp [hc, hm]
          have hst : (s.l1 .data c (l1Geometry.index a)).state v ≠ .modified := fun hst => by
            rw [MESIState.mode?_eq_modified.mpr hst, Option.some.injEq] at hmode
            exact hm hmode.symm
          rw [if_neg hst, LineRep.peerData_of_ne _ hne, LineRep.peerData_of_ne _ hne,
            LineRep.setL2_eq_self he]
          exact ⟨rfl, rfl, .refl hp⟩
      generalize (if (s.l1 .data c (l1Geometry.index a)).state v = .modified then
        (s.setL2 (l2Geometry.index a) ((s.l2 (l2Geometry.index a)).setData w u), u)
        else (s, line)) = p at hcaptured
      obtain ⟨hline, hl1, hrewrites⟩ := hcaptured p rfl
      obtain ⟨s1, line1⟩ := p
      have hemit := SameCaches.emit s1 .snoopDowngrade c 1 (l1Geometry.index a) v 0
        ((s.l1 .data c (l1Geometry.index a)).state v) .shared (some u)
      have hrewrites' := hrewrites.congr hemit
      refine ⟨hline, fun k' c' hne => ?_, ?_⟩
      · funext i
        rw [l1_setL1, if_neg fun h => hne ⟨h.1, h.2.1⟩, hemit.l1, hl1]
      rw [← hl1, ← hemit.l1] at hv
      have hset := Rewrites.setL1 (v := some (.shared, u)) hrewrites'.placed hv
        (L1Set.slots_setState hv (MESIState.mode?_eq_shared.mpr rfl))
      rw [hrewrites'.rep_self, hemit.l1, hl1] at hset
      exact hrewrites'.trans hset

/-- A line that another core shares, after core `c` has been added to the `k`
mask. -/
def sharedRep (x : LineRep) (e : L2Entry) (k : L1Kind) (c : CoreId) : LineRep :=
  (x.setL2 (some { L2Set.addEntry e k c with
    mode := .shared
    data := x.peerData (CoreId.peer c) e.data })).setL1 .data (CoreId.peer c)
      ((x.l1 .data (CoreId.peer c)).map fun z => (.shared, z.2))

theorem snoopDowngradePeers_spec {x : LineRep} (hp : s.Placed) (line : Line)
    (hw : (s.l2 (l2Geometry.index a)).slots w = some (l2Geometry.tag a, e))
    (hx : x.l1 = (s.rep a).l1) :
    (snoopDowngradePeers s (maskOf (Function.update (x.holders .data) c false))
        (l1Geometry.index a) (l1Geometry.tag a) line (l2Geometry.index a) w).Sat
      (fun r => r.2 = (s.rep a).peerData (CoreId.peer c) line ∧
        (∀ k', r.1.l1 k' c = s.l1 k' c) ∧
        Rewrites s a (((s.rep a).setL2 (some { e with
            mode := .shared
            data := (s.rep a).peerData (CoreId.peer c) e.data })).setL1 .data (CoreId.peer c)
          (((s.rep a).l1 .data (CoreId.peer c)).map fun z => (.shared, z.2))) r.1)
      fun _ => False := by
  have hset := L2Set.becomes_setState hw (MESIState.mode?_eq_shared.mpr rfl)
  have hfirst := Rewrites.setL2 hp hw hset
  have hw1 := hfirst.slot hw rfl
  have hholders : x.holders .data (CoreId.peer c) = (s.rep a).holders .data (CoreId.peer c) := by
    unfold LineRep.holders
    rw [hx]
  unfold snoopDowngradePeers
  dsimp only
  rw [forEachSharer_peer, hholders]
  split
  · refine (snoopDowngradePeer_spec hfirst.placed line hw1).imp fun r hr => ?_
    rw [hfirst.rep_self] at hr
    refine ⟨hr.1, fun k' => ?_, hfirst.trans hr.2.2⟩
    exact (hr.2.1 k' c fun h => CoreId.ne_peer c h.2).trans rfl
  · rename_i hnone
    have hc : (s.rep a).l1 .data (CoreId.peer c) = none := by
      simpa [LineRep.holders] using hnone
    have hne : ∀ u, (s.rep a).l1 .data (CoreId.peer c) ≠ some (.modified, u) := by simp [hc]
    rw [LineRep.peerData_of_ne _ hne, LineRep.peerData_of_ne _ hne, hc, Option.map_none,
      LineRep.setL1_eq_self (by rw [LineRep.setL2_l1, hc])]
    exact ⟨rfl, fun _ => rfl, hfirst⟩

/-- The common part of an L2 hit of `cpu_read` and `cpu_fetch`: a line without
other holders is left as it is, and a line with one becomes shared. -/
theorem busRead_spec {k : L1Kind} {physicalAddress : Addr} (hp : s.Placed)
    (hx : (s.rep (lineNo physicalAddress)).Exact)
    (hw : (s.l2 (l2Geometry.index (lineNo physicalAddress))).slots w =
      some (l2Geometry.tag (lineNo physicalAddress), e)) :
    (busRead k s c physicalAddress w).Sat
      (fun r => r.1.l1 k c = s.l1 k c ∧
        r.2.2 = (s.rep (lineNo physicalAddress)).hasPeer c ∧
        if (s.rep (lineNo physicalAddress)).hasPeer c then
          r.2.1 = (s.rep (lineNo physicalAddress)).peerData (CoreId.peer c) e.data ∧
            Rewrites s (lineNo physicalAddress)
              (sharedRep (s.rep (lineNo physicalAddress)) e k c) r.1
        else
          r.2.1 = e.data ∧ Rewrites s (lineNo physicalAddress)
            ((s.rep (lineNo physicalAddress)).setL2 (some (L2Set.addEntry e k c))) r.1)
      fun _ => False := by
  unfold busRead
  simp only [← l1Geometry_index_lineNo physicalAddress, ← l1Geometry_tag_lineNo physicalAddress,
    ← l2Geometry_index_lineNo physicalAddress]
  generalize lineNo physicalAddress = a at hx hw ⊢
  have he := hp.l2_of_slots hw
  have hset := L2Set.becomes_readWay hw k c
  have hfirst := Rewrites.setL2 hp hw hset
  have hw1 := hfirst.slot hw rfl
  have hline : (l2CacheReadWay (s.l2 (l2Geometry.index a)) c w k).1 = e.data :=
    L2Set.data_of_slots hw
  obtain ⟨hd, hi⟩ := LineRep.addEntry_others hx he k c
  rw [hline, L2Set.coreValidD_of_slots hset.slots_self, L2Set.coreValidI_of_slots hset.slots_self,
    hd, hi]
  by_cases hpeer : (s.rep a).hasPeer c = true
  · rw [if_pos (by rw [ne_eq, LineRep.others_eq_zero, hpeer]; simp), hpeer]
    refine (snoopDowngradePeers_spec hfirst.placed e.data hw1 (by rw [hfirst.rep_self]; rfl)).bind
      fun r hr => ?_
    rw [hfirst.rep_self] at hr
    refine ⟨hr.2.1 k, rfl, hr.1, ?_⟩
    cases k with
    | data => exact hfirst.trans hr.2.2
    | instr => exact hfirst.trans hr.2.2
  · rw [Bool.not_eq_true] at hpeer
    rw [if_neg (by rw [ne_eq, not_not, LineRep.others_eq_zero, hpeer]), hpeer]
    exact ⟨rfl, rfl, rfl, hfirst⟩

/-! ## Invalidating -/

theorem snoopInvalidatePeer_spec (hp : s.Placed) (lineOut : Option Line)
    (hw : (s.l2 (l2Geometry.index a)).slots w = some (l2Geometry.tag a, e)) :
    (snoopInvalidatePeer (l1Geometry.index a) (l1Geometry.tag a) (l2Geometry.index a) w c
        (s, lineOut)).Sat
      (fun r => r.2 = lineOut.map ((s.rep a).peerData c) ∧
        (∀ k' c', ¬(k' = .data ∧ c' = c) → r.1.l1 k' c' = s.l1 k' c') ∧
        Rewrites s a (((s.rep a).setL1 .data c none).setL2
          (some (L2Set.clearEntry e .data c))) r.1)
      fun _ => False := by
  unfold snoopInvalidatePeer
  dsimp only
  -- the copy goes first, then the bit
  have hfinish : ∀ t : Sim, Rewrites s a ((s.rep a).setL1 .data c none) t →
      Rewrites s a (((s.rep a).setL1 .data c none).setL2 (some (L2Set.clearEntry e .data c)))
        (t.setL2 (l2Geometry.index a)
          (l2ClearCoreValidWay (t.l2 (l2Geometry.index a)) .data w c)) := by
    intro t ht
    have hwt := ht.slot hw (by rw [LineRep.setL1_l2, hp.l2_of_slots hw])
    have hset := Rewrites.setL2 ht.placed hwt (L2Set.becomes_clearCoreValid hwt .data c)
    rw [ht.rep_self] at hset
    exact ht.trans hset
  cases hc : (s.rep a).l1 .data c with
  | none =>
      have hne : ∀ u, (s.rep a).l1 .data c ≠ some (.modified, u) := by simp [hc]
      rw [hp.find_l1_none hc]
      refine ⟨?_, fun _ _ _ => rfl, hfinish s ?_⟩
      · cases lineOut with
        | none => rfl
        | some line => rw [Option.map_some, LineRep.peerData_of_ne _ hne]
      · rw [LineRep.setL1_eq_self hc]
        exact .refl hp
  | some z =>
      obtain ⟨m, u⟩ := z
      obtain ⟨v, hfind, hv⟩ := hp.find_l1 hc
      obtain ⟨-, hmode, hdata⟩ := L1Set.slots_eq_some.mp hv
      rw [hfind]
      dsimp only
      have hemit := SameCaches.emit s .snoopInvalidate c 1 (l1Geometry.index a) v 0
        ((s.l1 .data c (l1Geometry.index a)).state v) .invalid
        (some ((s.l1 .data c (l1Geometry.index a)).data v))
      have hemitted := Rewrites.of_sameCaches (b := a) hp hemit
      refine ⟨?_, fun k' c' hne => ?_, hfinish _ ?_⟩
      · rw [hdata]
        cases lineOut with
        | none => split <;> rfl
        | some line =>
            by_cases hm : m = .modified
            · subst hm
              rw [if_pos (MESIState.mode?_eq_modified.mp hmode), Option.map_some, Option.map_some,
                LineRep.peerData_of_modified _ hc]
            · have hne : ∀ u', (s.rep a).l1 .data c ≠ some (.modified, u') := by simp [hc, hm]
              have hst : (s.l1 .data c (l1Geometry.index a)).state v ≠ .modified := fun hst => by
                rw [MESIState.mode?_eq_modified.mpr hst, Option.some.injEq] at hmode
                exact hm hmode.symm
              rw [if_neg hst, Option.map_some, LineRep.peerData_of_ne _ hne]
      · funext i
        rw [l1_setL2, l1_setL1, if_neg fun h => hne ⟨h.1, h.2.1⟩, hemit.l1]
      · rw [← hemit.l1] at hv
        have hset := Rewrites.setL1 (v := none) hemitted.placed hv L1Set.slots_setState_invalid
        rw [hemitted.rep_self, hemit.l1] at hset
        exact hemitted.trans hset

/-- After the snoop the peer has no data copy, and L2 has the state, the data
and the L1I mask it had. -/
theorem snoopInvalidatePeers_spec (hp : s.Placed) (hx : (s.rep a).Exact) (lineOut : Option Line)
    (hw : (s.l2 (l2Geometry.index a)).slots w = some (l2Geometry.tag a, e)) :
    (snoopInvalidatePeers s (e.validD &&& ~~~coreBit c) (l1Geometry.index a) (l1Geometry.tag a)
        lineOut (l2Geometry.index a) w).Sat
      (fun r => r.2 = lineOut.map ((s.rep a).peerData (CoreId.peer c)) ∧
        (∀ k', r.1.l1 k' c = s.l1 k' c) ∧
          ∃ e', e'.mode = e.mode ∧ e'.data = e.data ∧ e'.validI = e.validI ∧
          Rewrites s a (((s.rep a).setL1 .data (CoreId.peer c) none).setL2 (some e')) r.1)
      fun _ => False := by
  have he := hp.l2_of_slots hw
  obtain ⟨hd, -⟩ := hx e he
  unfold snoopInvalidatePeers
  rw [hd, maskOf_and_not_coreBit, forEachSharer_peer]
  split
  · refine (snoopInvalidatePeer_spec hp lineOut hw).imp fun r hr => ?_
    exact ⟨hr.1, fun k' => hr.2.1 k' c fun h => CoreId.ne_peer c h.2,
      L2Set.clearEntry e .data (CoreId.peer c), rfl, rfl, rfl, hr.2.2⟩
  · rename_i hnone
    have hc : (s.rep a).l1 .data (CoreId.peer c) = none := by
      simpa [LineRep.holders] using hnone
    have hne : ∀ u, (s.rep a).l1 .data (CoreId.peer c) ≠ some (.modified, u) := by simp [hc]
    refine ⟨?_, fun _ => rfl, e, rfl, rfl, rfl, ?_⟩
    · cases lineOut with
      | none => rfl
      | some line => rw [Option.map_some, LineRep.peerData_of_ne _ hne]
    · rw [LineRep.setL1_eq_self hc, LineRep.setL2_eq_self he]
      exact .refl hp

theorem snoopInvalidatePeerI_spec (hp : s.Placed) :
    (snoopInvalidatePeerI (l1Geometry.index a) (l1Geometry.tag a) c s).Sat
      (fun s' => s'.l1 .data = s.l1 .data ∧ Rewrites s a ((s.rep a).setL1 .instr c none) s')
      fun _ => False := by
  unfold snoopInvalidatePeerI
  dsimp only
  cases hc : (s.rep a).l1 .instr c with
  | none =>
      rw [hp.find_l1_none hc, LineRep.setL1_eq_self hc]
      exact ⟨rfl, .refl hp⟩
  | some z =>
      obtain ⟨v, hfind, hv⟩ := hp.find_l1 hc
      rw [hfind]
      have hemit := SameCaches.emit s .l1iSnoopInvalidate c 1 (l1Geometry.index a) v 0
        ((s.l1 .instr c (l1Geometry.index a)).state v) .invalid none
      have hemitted := Rewrites.of_sameCaches (b := a) hp hemit
      rw [← hemit.l1] at hv
      have hset := Rewrites.setL1 (v := none) hemitted.placed hv L1Set.slots_setState_invalid
      rw [hemitted.rep_self, hemit.l1] at hset
      refine ⟨?_, hemitted.trans hset⟩
      funext c' i
      rw [l1_setL1, if_neg (by simp), hemit.l1]

theorem snoopInvalidatePeersI_spec (hp : s.Placed) {x : LineRep}
    (hx : x.holders .instr = (s.rep a).holders .instr) :
    (snoopInvalidatePeersI s (maskOf (x.holders .instr)) (l1Geometry.index a)
        (l1Geometry.tag a)).Sat
      (fun s' => s'.l1 .data = s.l1 .data ∧
        Rewrites s a (s.rep a).dropInstr s')
      fun _ => False := by
  have hskip : ∀ (y : LineRep) (c : CoreId), ¬y.holders .instr c = true →
      y.setL1 .instr c none = y := by
    intro y c hc
    exact LineRep.setL1_eq_self (by simpa [LineRep.holders] using hc)
  unfold snoopInvalidatePeersI
  rw [hx]
  refine forEachSharer_sat _ s (P := (· = s))
    (Q := fun t => t.l1 .data = s.l1 .data ∧ Rewrites s a ((s.rep a).setL1 .instr 0 none) t)
    ?_ ?_ rfl
  · rintro _ rfl
    split
    · exact snoopInvalidatePeerI_spec hp
    · rename_i h
      rw [hskip _ 0 h]
      exact ⟨rfl, .refl hp⟩
  · rintro t ⟨hdata, ht⟩
    split
    · have hround := snoopInvalidatePeerI_spec (a := a) (c := 1) ht.placed
      rw [ht.rep_self] at hround
      exact hround.imp fun t' ht' => ⟨ht'.1.trans hdata, ht.trans ht'.2⟩
    · rename_i h
      rw [LineRep.dropInstr, hskip ((s.rep a).setL1 .instr 0 none) 1]
      · exact ⟨hdata, ht⟩
      · simpa [LineRep.holders, LineRep.setL1_l1] using h

end Sim

end CacheSimulator
