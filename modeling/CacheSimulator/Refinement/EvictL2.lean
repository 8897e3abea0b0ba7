import CacheSimulator.Refinement.EvictL1

/-!
# L2 eviction

`evict_l2` revokes the victim from every L1 cache that holds it, writes it back
if it is dirty, and frees its way. `Rewrites` collects what the intermediate
states keep: they differ from the first one in the cached copies of one line.
-/

namespace CacheSimulator

open Mesi

namespace Sim

variable {s s' s'' : Sim} {b : LineNo}

/-! ## Rewriting one line -/

/-- The state `s'` is `s` with the cached copies of line `b` replaced by those of
`x`. -/
structure Rewrites (s : Sim) (b : LineNo) (x : LineRep) (s' : Sim) : Prop where
  placed : s'.Placed
  rep : s'.rep = Function.update s.rep b x
  tags : SameL2Tags s s'
  mem : s'.mem = s.mem
  history : s'.history = s.history
  streams : s'.streams = s.streams

namespace Rewrites

variable {x y : LineRep}

theorem rep_self (h : Rewrites s b x s') : s'.rep b = x := by rw [h.rep, Function.update_self]

theorem of_sameCaches (hp : s.Placed) (h : SameCaches s s') : Rewrites s b (s.rep b) s' := by
  refine ⟨h.placed hp, ?_, .of_eq h.l2, h.mem, h.history, h.streams⟩
  rw [h.rep, Function.update_eq_self]

theorem refl (hp : s.Placed) : Rewrites s b (s.rep b) s := .of_sameCaches hp (.refl s)

theorem trans (h : Rewrites s b x s') (h' : Rewrites s' b y s'') : Rewrites s b y s'' := by
  refine ⟨h'.placed, ?_, h.tags.trans h'.tags, h'.mem.trans h.mem, h'.history.trans h.history,
    h'.streams.trans h.streams⟩
  rw [h'.rep, h.rep, Function.update_idem]

theorem congr (h : Rewrites s b x s') (hs : SameCaches s' s'') : Rewrites s b x s'' := by
  have := h.trans (.of_sameCaches h.placed hs)
  rwa [h.rep_self] at this

theorem slot (h : Rewrites s b x s') {w : Fin 16} {e e' : L2Entry}
    (hw : (s.l2 (l2Geometry.index b)).slots w = some (l2Geometry.tag b, e))
    (he' : x.l2 = some e') :
    (s'.l2 (l2Geometry.index b)).slots w = some (l2Geometry.tag b, e') :=
  h.tags.slots h.placed hw (by rw [h.rep_self, he'])

theorem setL1 (hp : s.Placed) {k : L1Kind} {c : CoreId} {w : Fin 8} {z : Mode × Line}
    {set : L1Set} {v : Option (Mode × Line)}
    (hw : (s.l1 k c (l1Geometry.index b)).slots w = some (l1Geometry.tag b, z))
    (hslots : set.slots = Function.update (s.l1 k c (l1Geometry.index b)).slots w
      (v.map fun u => (l1Geometry.tag b, u))) :
    Rewrites s b ((s.rep b).setL1 k c v) (s.setL1 k c (l1Geometry.index b) set) := by
  obtain ⟨hplaced, hrep⟩ := hp.setL1 (l1Assignable_of_holds hw) hslots
  exact ⟨hplaced, hrep, .refl s, rfl, rfl, streams_setL1 _ _ _ _ _⟩

theorem setL2 (hp : s.Placed) {w : Fin 16} {e e' : L2Entry} {set : L2Set}
    (hw : (s.l2 (l2Geometry.index b)).slots w = some (l2Geometry.tag b, e))
    (hset : (s.l2 (l2Geometry.index b)).Becomes set w (l2Geometry.tag b) (some e')) :
    Rewrites s b ((s.rep b).setL2 (some e')) (s.setL2 (l2Geometry.index b) set) := by
  obtain ⟨hplaced, hrep⟩ := hp.setL2 (l2Assignable_of_holds hw) hset
  exact ⟨hplaced, hrep, .setL2 hw hset, rfl, rfl, rfl⟩

end Rewrites

end Sim

/-! ## Recalling a line -/

namespace LineRep

/-- The L2 entry of a line when the data copy of core `c` has been revoked: a
modified copy is written to it. -/
def revokeEntry (x : LineRep) (c : CoreId) : Option L2Entry :=
  match x.l1 .data c with
  | some (.modified, line) => x.l2.map fun e => { e with mode := .modified, data := line }
  | _ => x.l2

/-- The line when both copies of core `c` have been revoked. -/
def revoke (x : LineRep) (c : CoreId) : LineRep :=
  ((x.setL2 (x.revokeEntry c)).setL1 .data c none).setL1 .instr c none

theorem revokeEntry_of_modified {x : LineRep} {c : CoreId} {line : Line} {e : L2Entry}
    (hc : x.l1 .data c = some (.modified, line)) (he : x.l2 = some e) :
    x.revokeEntry c = some { e with mode := .modified, data := line } := by
  unfold revokeEntry
  rw [hc, he]
  rfl

theorem revokeEntry_of_ne {x : LineRep} {c : CoreId}
    (hc : ∀ line, x.l1 .data c ≠ some (.modified, line)) : x.revokeEntry c = x.l2 := by
  unfold revokeEntry
  split
  · rename_i line h
    exact absurd h (hc line)
  · rfl

theorem revoke_l1 (x : LineRep) (c : CoreId) (k' : L1Kind) (c' : CoreId) :
    (x.revoke c).l1 k' c' = if c' = c then none else x.l1 k' c' := by
  unfold revoke
  rw [setL1_l1, setL1_l1, setL2_l1]
  by_cases hc : c' = c
  · cases k' <;> simp [hc]
  · simp [hc]

@[simp] theorem revoke_l2 (x : LineRep) (c : CoreId) : (x.revoke c).l2 = x.revokeEntry c := rfl

@[simp] theorem revoke_mem (x : LineRep) (c : CoreId) : (x.revoke c).mem = x.mem := rfl

/-- The line when it has been revoked from both cores. -/
def revoked (x : LineRep) : LineRep := (x.revoke 0).revoke 1

theorem revoked_l1 (x : LineRep) : x.revoked.l1 = fun _ _ => none := by
  funext k c
  unfold revoked
  rw [revoke_l1, revoke_l1]
  rcases CoreId.eq_zero_or_one c with rfl | rfl
  · rfl
  · rfl

/-- A revoked line has its value in L2, and it is dirty when it was before. -/
theorem revoked_l2 {x : LineRep} (h : Mesi.Coherent x.view) {e : L2Entry} (he : x.l2 = some e) :
    ∃ e', x.revoked.l2 = some e' ∧ e'.mode = e.mode ∧
      (e.mode = .modified → x.view.Authoritative e'.data) := by
  have hcopy : x.view.l2 = some (e.mode, e.data) := by
    rw [view_l2, he]
    rfl
  by_cases hown : ∃ c line, x.l1 .data c = some (.modified, line)
  · obtain ⟨c, line, hc⟩ := hown
    -- the owner has the only copy, so the other revoke changes nothing
    have hmode : e.mode = .modified := by
      obtain ⟨u, hu⟩ := h.modified c line hc
      rw [hcopy, Option.some.injEq] at hu
      exact (Prod.mk.inj hu).1
    have hother : x.l1 .data (CoreId.peer c) = none := by
      by_contra hne
      exact h.exclusive c _ line hc (by simp) (CoreId.peer c) (CoreId.peer_ne c) (.inl hne)
    refine ⟨{ e with mode := .modified, data := line }, ?_, hmode.symm, fun _ => .inl ⟨c, hc⟩⟩
    rcases CoreId.eq_zero_or_one c with rfl | rfl
    · have h1 : (x.revoke 0).l1 .data 1 = none := by
        rw [revoke_l1, if_neg (by decide)]
        exact hother
      rw [revoked, revoke_l2, revokeEntry_of_ne (by simp [h1]), revoke_l2,
        revokeEntry_of_modified hc he]
    · have h0 : x.revokeEntry 0 = some e := by
        have hother' : x.l1 .data 0 = none := hother
        rw [revokeEntry_of_ne (by simp [hother']), he]
      have h1 : (x.revoke 0).l1 .data 1 = some (.modified, line) := by
        rw [revoke_l1, if_neg (by decide), hc]
      rw [revoked, revoke_l2, revokeEntry_of_modified h1 (by rw [revoke_l2, h0])]
  · have hno : ∀ c line, x.l1 .data c ≠ some (.modified, line) := fun c line hc =>
      hown ⟨c, line, hc⟩
    refine ⟨e, ?_, rfl, fun _ => .inr ⟨hno, e.mode, hcopy⟩⟩
    have h1 : ∀ line, (x.revoke 0).l1 .data 1 ≠ some (.modified, line) := fun line => by
      rw [revoke_l1, if_neg (by decide)]
      exact hno 1 line
    rw [revoked, revoke_l2, revokeEntry_of_ne h1, revoke_l2, revokeEntry_of_ne (hno 0), he]

end LineRep

namespace Sim

variable {s s' s'' : Sim} {b : LineNo} {c : CoreId} {w : Fin 16} {e : L2Entry}

theorem backInvalidateD_spec (hp : s.Placed) {m : Mode} {line : Line}
    (hc : (s.rep b).l1 .data c = some (m, line))
    (hw : (s.l2 (l2Geometry.index b)).slots w = some (l2Geometry.tag b, e)) :
    (backInvalidateD (l2Geometry.index b) w (lineAddr b) c s).Sat
      (Rewrites s b (((s.rep b).setL2 ((s.rep b).revokeEntry c)).setL1 .data c none))
      fun _ => False := by
  obtain ⟨v, hfind, hv⟩ := hp.find_l1 hc
  obtain ⟨-, hmode, hline⟩ := L1Set.slots_eq_some.mp hv
  have he := hp.l2_of_slots hw
  unfold backInvalidateD
  dsimp only
  rw [l1ToIndex_lineAddr, l1ToTag_lineAddr, hfind]
  dsimp only
  rw [hline]
  -- the state after the copy has been written to L2
  have hwritten : Rewrites s b ((s.rep b).setL2 ((s.rep b).revokeEntry c))
      (if (s.l1 .data c (l1Geometry.index b)).state v = .modified then
        s.setL2 (l2Geometry.index b)
          (((s.l2 (l2Geometry.index b)).setData w line).setState w .modified)
      else s) := by
    by_cases hm : m = .modified
    · subst hm
      rw [if_pos (MESIState.mode?_eq_modified.mp hmode), LineRep.revokeEntry_of_modified hc he]
      have hdata := L2Set.becomes_setData hw line
      exact .setL2 hp hw (hdata.trans (L2Set.becomes_setState hdata.slots_self rfl))
    · have hne : (s.l1 .data c (l1Geometry.index b)).state v ≠ .modified := fun hst => by
        rw [MESIState.mode?_eq_modified.mpr hst, Option.some.injEq] at hmode
        exact hm hmode.symm
      have hentry : (s.rep b).setL2 ((s.rep b).revokeEntry c) = s.rep b := by
        rw [LineRep.revokeEntry_of_ne (by simp [hc, hm])]
        rfl
      rw [if_neg hne, hentry]
      exact .refl hp
  have hl1 : ∀ t : Sim, Rewrites s b ((s.rep b).setL2 ((s.rep b).revokeEntry c)) t →
      t.l1 = s.l1 → Rewrites s b (((s.rep b).setL2 ((s.rep b).revokeEntry c)).setL1 .data c none)
        (t.setL1 .data c (l1Geometry.index b)
          ((s.l1 .data c (l1Geometry.index b)).setState v .invalid)) := by
    intro t ht hl1
    rw [← hl1] at hv ⊢
    have hset := Rewrites.setL1 (v := none) ht.placed hv L1Set.slots_setState_invalid
    rw [ht.rep_self] at hset
    exact ht.trans hset
  refine hl1 _ (hwritten.congr (.emit _ _ _ _ _ _ _ _ _ _)) ?_
  rw [l1_emit]
  split
  · rfl
  · rfl

theorem backInvalidateI_spec (hp : s.Placed) {z : Mode × Line}
    (hc : (s.rep b).l1 .instr c = some z) :
    (backInvalidateI (lineAddr b) c s).Sat (Rewrites s b ((s.rep b).setL1 .instr c none))
      fun _ => False := by
  obtain ⟨v, hfind, hv⟩ := hp.find_l1 hc
  unfold backInvalidateI
  dsimp only
  rw [l1ToIndex_lineAddr, l1ToTag_lineAddr, hfind]
  have hemit := SameCaches.emit s .l1iSnoopInvalidate c 1 (l1Geometry.index b) v (lineAddr b)
    ((s.l1 .instr c (l1Geometry.index b)).state v) .invalid none
  have hfirst := Rewrites.of_sameCaches (b := b) hp hemit
  rw [← hemit.l1] at hv
  have hset := Rewrites.setL1 (v := none) hfirst.placed hv L1Set.slots_setState_invalid
  rw [hfirst.rep_self, hemit.l1] at hset
  exact hfirst.trans hset

theorem backInvalidate_spec (hp : s.Placed) {validD validI : BitVec 8}
    (hw : (s.l2 (l2Geometry.index b)).slots w = some (l2Geometry.tag b, e))
    (hd : validD.getLsbD c = (s.rep b).holders .data c)
    (hi : validI.getLsbD c = (s.rep b).holders .instr c) :
    (backInvalidate (l2Geometry.index b) w (lineAddr b) validD validI c s).Sat
      (Rewrites s b ((s.rep b).revoke c)) fun _ => False := by
  unfold backInvalidate
  have hfirst : (if validD.getLsbD c then backInvalidateD (l2Geometry.index b) w (lineAddr b) c s
      else .ok s).Sat
      (Rewrites s b (((s.rep b).setL2 ((s.rep b).revokeEntry c)).setL1 .data c none))
      fun _ => False := by
    cases hc : (s.rep b).l1 .data c with
    | none =>
        have hentry : ((s.rep b).setL2 ((s.rep b).revokeEntry c)).setL1 .data c none = s.rep b := by
          rw [LineRep.revokeEntry_of_ne (by simp [hc])]
          refine LineRep.ext ?_ rfl rfl
          funext k' c'
          rw [LineRep.setL1_l1]
          split
          · rename_i h
            rw [h.1, h.2, hc]
          · rfl
        rw [hd, LineRep.holders, hc, hentry]
        exact .refl hp
    | some z =>
        rw [hd, LineRep.holders, hc]
        exact backInvalidateD_spec hp hc hw
  refine hfirst.bind fun s1 h1 => ?_
  have hc1 : (s1.rep b).l1 .instr c = (s.rep b).l1 .instr c := by
    rw [h1.rep_self, LineRep.setL1_l1, if_neg (by simp), LineRep.setL2_l1]
  cases hc : (s.rep b).l1 .instr c with
  | none =>
      have hentry : (s.rep b).revoke c =
          ((s.rep b).setL2 ((s.rep b).revokeEntry c)).setL1 .data c none := by
        refine LineRep.ext ?_ rfl rfl
        funext k' c'
        rw [LineRep.revoke_l1, LineRep.setL1_l1, LineRep.setL2_l1]
        by_cases hcc : c' = c
        · subst hcc
          cases k' <;> simp [hc]
        · simp [hcc]
      rw [hi, LineRep.holders, hc, hentry]
      exact h1
  | some z =>
      rw [hi, LineRep.holders, hc]
      have hround := backInvalidateI_spec h1.placed (hc1.trans hc)
      rw [h1.rep_self] at hround
      exact hround.imp fun s2 h2 => h1.trans h2

/-- The loop of `evict_l2` revokes the line from both cores. -/
theorem revoke_spec (hp : s.Placed) (hexact : (s.rep b).Exact)
    (hw : (s.l2 (l2Geometry.index b)).slots w = some (l2Geometry.tag b, e)) :
    (forEachSharer (backInvalidate (l2Geometry.index b) w (lineAddr b) e.validD e.validI) 8
      (e.validD ||| e.validI) s).Sat (Rewrites s b (s.rep b).revoked) fun _ => False := by
  have he := hp.l2_of_slots hw
  obtain ⟨hd, hi⟩ := (LineRep.exact_some he).mp hexact
  rw [hd, hi, maskOf_or]
  -- a core without copies has nothing to revoke
  have hskip : ∀ (x : LineRep) (c : CoreId), (x.holders .data c || x.holders .instr c) = false →
      x.revoke c = x := by
    intro x c hc
    rw [Bool.or_eq_false_iff] at hc
    have hnone : ∀ k, x.l1 k c = none := fun k => by
      have hk : x.holders k c = false := by
        cases k
        · exact hc.1
        · exact hc.2
      simpa [LineRep.holders] using hk
    refine LineRep.ext ?_ ?_ rfl
    · funext k' c'
      rw [LineRep.revoke_l1]
      split
      · rename_i hcc
        rw [hcc, hnone]
      · rfl
    · rw [LineRep.revoke_l2, LineRep.revokeEntry_of_ne (by simp [hnone])]
  obtain ⟨e1, he1⟩ : ∃ e1, ((s.rep b).revoke 0).l2 = some e1 := by
    rw [LineRep.revoke_l2]
    unfold LineRep.revokeEntry
    split
    · exact ⟨_, by rw [he]; rfl⟩
    · exact ⟨e, he⟩
  refine forEachSharer_sat _ s (P := (· = s)) (Q := Rewrites s b ((s.rep b).revoke 0)) ?_ ?_ rfl
  · rintro _ rfl
    split
    · exact backInvalidate_spec hp hw (getLsbD_maskOf _ 0) (getLsbD_maskOf _ 0)
    · rename_i h
      rw [hskip _ 0 (by simpa using h)]
      exact .refl hp
  · intro t ht
    -- the second round finds what the first one left
    have hholders : ∀ k, ((s.rep b).revoke 0).holders k 1 = (s.rep b).holders k 1 := fun k => by
      unfold LineRep.holders
      rw [LineRep.revoke_l1, if_neg (by decide)]
    have hbit : ∀ k, (maskOf ((s.rep b).holders k)).getLsbD (1 : CoreId) =
        (t.rep b).holders k 1 := fun k => by
      rw [ht.rep_self, hholders, getLsbD_maskOf]
    split
    · have hround := backInvalidate_spec ht.placed (ht.slot hw he1) (hbit .data) (hbit .instr)
      rw [ht.rep_self] at hround
      exact hround.imp fun t' ht' => ht.trans ht'
    · rename_i h
      rw [LineRep.revoked, hskip _ 1 (by rw [hholders, hholders]; simpa using h)]
      exact ht

theorem not_lineAddr_add_gt {size : Addr} (h : 64 * (b : ℕ) + 64 ≤ size.toNat) :
    ¬lineAddr b + 64#64 > size := by
  have hsize := size.isLt
  rw [gt_iff_lt, BitVec.lt_def, BitVec.toNat_add, lineAddr_toNat]
  simp only [BitVec.toNat_ofNat]
  omega

/-- What the write-back makes of the bytes in memory. -/
def writtenBack (x : LineRep) (e : L2Entry) : LineRep :=
  if e.mode = .modified then x.setMem e.data else x

theorem writeBack_spec (hin : 64 * (b : ℕ) + 64 ≤ s.mem.size.toNat)
    (hw : (s.l2 (l2Geometry.index b)).slots w = some (l2Geometry.tag b, e)) :
    (writeBack (l2Geometry.index b) w (lineAddr b) s).Sat
      (fun s' => s'.l1 = s.l1 ∧ s'.l2 = s.l2 ∧ s'.mem.size = s.mem.size ∧ s'.history = s.history ∧
        s'.streams = s.streams ∧ s'.rep = Function.update s.rep b (writtenBack (s.rep b) e))
      fun _ => False := by
  have hmode := L2Set.state_of_slots hw
  unfold writeBack writtenBack
  by_cases hm : e.mode = .modified
  · rw [hm] at hmode
    rw [if_pos (MESIState.mode?_eq_modified.mp hmode), if_neg (not_lineAddr_add_gt hin), if_pos hm,
      L2Set.data_of_slots hw]
    cases hmem : s.mem.writeLine (lineAddr b) e.data with
    | error f =>
        unfold Memory.writeLine at hmem
        rw [← lineAddr_toNat] at hin
        rw [if_pos hin] at hmem
        cases hmem
    | ok mem =>
        obtain ⟨hsize, hrep⟩ := rep_writeLine hmem
        exact ⟨rfl, rfl, hsize, rfl, rfl, hrep⟩
  · have hne : (s.l2 (l2Geometry.index b)).state w ≠ .modified := fun hst => by
      rw [MESIState.mode?_eq_modified.mpr hst, Option.some.injEq] at hmode
      exact hm hmode.symm
    rw [if_neg hne, if_neg hm]
    exact ⟨rfl, rfl, rfl, rfl, rfl, (Function.update_eq_self _ _).symm⟩

/-- `evict_l2` leaves everything as it is, or evicts one line. -/
structure FreesL2 (s s' : Sim) : Prop where
  history : s'.history = s.history
  cases : SameCaches s s' ∨ ∃ b, (s.rep b).l2 ≠ none ∧ LineMove s b .evict s'

theorem FreesL2.rep_eq (h : FreesL2 s s') {a : LineNo} (ha : (s.rep a).l2 = none) :
    s'.rep a = s.rep a := by
  rcases h.cases with hs | ⟨b, hb, hm⟩
  · rw [hs.rep]
  · refine hm.frame a fun hab => ?_
    rw [hab] at ha
    exact hb ha

theorem exists_slot_l2 {i : Fin 4096}
    (h : (List.finRange 16).find? (fun w => (s.l2 i).state w == .invalid) = none) (w : Fin 16) :
    ∃ e, (s.l2 i).slots w = some ((s.l2 i).tag w, e) := by
  have hw := List.find?_eq_none.mp h w (List.mem_finRange w)
  rw [beq_iff_eq] at hw
  obtain ⟨m, hm⟩ := Option.ne_none_iff_exists'.mp (mt MESIState.mode?_eq_none.mp hw)
  exact ⟨⟨m, _, _, _⟩, L2Set.slots_eq_some.mpr ⟨rfl, hm, rfl, rfl, rfl⟩⟩

/-- An evicted line is in memory alone, with its value. -/
theorem LineOk.evict (hok : s.LineOk b) (he : (s.rep b).l2 = some e) {e' : L2Entry}
    (he' : (s.rep b).revoked.l2 = some e') :
    Mesi.Step Store.act (s.rep b).view .evict
      ((writtenBack (s.rep b).revoked e').setL2 none).view := by
  obtain ⟨e'', he'', hmode, hvalue⟩ := LineRep.revoked_l2 hok.coherent he
  rw [he', Option.some.injEq] at he''
  subst he''
  have hcopy : (s.rep b).view.l2 = some (e.mode, e.data) := by
    rw [LineRep.view_l2, he]
    rfl
  have hnone : ∀ x : LineRep, x.l1 = (s.rep b).revoked.l1 →
      (x.setL2 none).view = ⟨fun _ => none, fun _ => none, none, x.mem⟩ := by
    intro x hx
    unfold LineRep.view
    rw [LineRep.setL2_l1, hx, LineRep.revoked_l1]
    rfl
  unfold writtenBack
  by_cases hm : e.mode = .modified
  · rw [if_pos (hmode.trans hm), hnone ((s.rep b).revoked.setMem e'.data) rfl]
    rw [hm] at hcopy
    exact .evictDirty e.data e'.data hcopy (hvalue hm)
  · rw [if_neg (hmode ▸ hm), hnone _ rfl]
    exact .evictClean e.mode e.data hcopy hm

/-- `evict_l2` never aborts. It returns a free way of the set, and evicts at most
one line, which is a line of the set. -/
theorem evictL2_cases {i : Fin 4096} (hs : s.Inv) :
    (evictL2 s i).Sat
      (fun r => (r.1.l2 i).state r.2 = .invalid ∧ r.1.history = s.history ∧
        (SameCaches s r.1 ∨
          ∃ b, l2Geometry.index b = i ∧ (s.rep b).l2 ≠ none ∧ LineMove s b .evict r.1))
      fun _ => False := by
  unfold evictL2
  dsimp only
  cases hfree : (List.finRange 16).find? fun w => (s.l2 i).state w == .invalid with
  | some w =>
      have hw := List.find?_some hfree
      rw [beq_iff_eq] at hw
      exact ⟨hw, rfl, .inl (.refl s)⟩
  | none =>
      generalize plruVictimWay 16 (s.l2 i).plruBits = victim
      obtain ⟨e, hslot⟩ := exists_slot_l2 hfree victim
      obtain ⟨b, rfl, htag⟩ := hs.placed.l2_line hslot
      rw [← htag] at hslot
      have he := hs.placed.l2_of_slots hslot
      have hok := hs.lineOk b
      have hin := hs.inRange b (by simp [he])
      dsimp only
      rw [← htag, l2ToAddr_geometry, L2Set.coreValidD_of_slots hslot,
        L2Set.coreValidI_of_slots hslot]
      refine (revoke_spec hs.placed hok.exact hslot).bind fun s1 h1 => ?_
      obtain ⟨e1, he1, -⟩ := LineRep.revoked_l2 hok.coherent he
      have hslot1 := h1.slot hslot he1
      rw [← h1.mem] at hin
      refine (writeBack_spec hin hslot1).bind fun s2 h2 => ?_
      obtain ⟨hl1, hl2, hsize, hhistory, hstreams, hrep2⟩ := h2
      have hp2 := h1.placed.congr hl1 hl2
      rw [← hl2] at hslot1
      set s3 := s2.emit .l2Evict 0 2 (l2Geometry.index b) victim (lineAddr b)
        ((s2.l2 (l2Geometry.index b)).state victim) .invalid
        (some ((s2.l2 (l2Geometry.index b)).data victim)) with hs3
      have hsame : SameCaches s2 s3 := .emit _ _ _ _ _ _ _ _ _ _
      have hp3 := hsame.placed hp2
      rw [← hsame.l2] at hslot1 ⊢
      obtain ⟨hp4, hrep4⟩ := hp3.setL2 (l2Assignable_of_holds hslot1)
        (L2Set.becomes_clear victim (l2Geometry.tag b))
      have hfinal : (s3.setL2 (l2Geometry.index b) (((((s3.l2 (l2Geometry.index b)).setCoreValid
          .data victim 0).setCoreValid .instr victim 0).setState victim .invalid))).rep =
          Function.update s.rep b ((writtenBack (s.rep b).revoked e1).setL2 none) := by
        rw [hrep4, hsame.rep, hrep2, h1.rep, Function.update_idem, Function.update_idem,
          Function.update_self, Function.update_self]
      have hself := congrFun hfinal b
      rw [Function.update_self] at hself
      refine ⟨by simp [L2Set.setState], ?_, .inr ⟨b, rfl, by simp [he], ?_⟩⟩
      · exact hsame.history.trans (hhistory.trans h1.history)
      · constructor
        · exact hp4
        · rw [mem_setL2, hsame.mem, hsize, h1.mem]
        · rw [streams_setL2, hsame.streams, hstreams, h1.streams]
        · intro a ha
          rw [hfinal, Function.update_of_ne ha]
        · rw [hself]
          exact LineRep.exact_of_l2_none rfl
        · intro hne
          rw [hself] at hne
          exact absurd rfl hne
        · rw [hself]
          exact hok.evict he he1
        · rw [history_setL2, hsame.history, hhistory, h1.history]
          exact .quiet _ id rfl

theorem evictL2_spec {i : Fin 4096} (hs : s.Inv) :
    (evictL2 s i).Sat (fun r => (r.1.l2 i).state r.2 = .invalid ∧ FreesL2 s r.1) fun _ => False :=
  (evictL2_cases hs).imp fun _ ⟨hw, hhistory, hcases⟩ =>
    ⟨hw, hhistory, hcases.imp_right fun ⟨b, _, hb⟩ => ⟨b, hb⟩⟩

end Sim

end CacheSimulator
