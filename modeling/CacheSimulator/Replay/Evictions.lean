import CacheSimulator.Replay.Snoops
import CacheSimulator.Refinement.Prefetch

/-!
# The acts of the evictors and of the prefetcher

An eviction drops one line level by level, with an event for each way it frees.
Its writes of MODIFIED to L2 never show: when a line is MODIFIED in an L1D it is
MODIFIED in L2. What may show is a promotion by `evict_l1`.
-/

namespace CacheSimulator

open Mesi

namespace Sim

variable {p : Permit} {s t : Sim} {b : LineNo}

/-- A line that is MODIFIED in an L1D is MODIFIED in L2. -/
def DirtyInclusion (s : Sim) : Prop :=
  ∀ a c u, (s.rep a).l1 .data c = some (.modified, u) → ∃ v, (s.rep a).view.l2 = some (.modified, v)

theorem Inv.dirtyInclusion (hs : s.Inv) : s.DirtyInclusion :=
  fun a => (hs.coherent a).modified

theorem DirtyInclusion.l2_modified (hs : s.DirtyInclusion) (hp : s.Placed) {c : CoreId}
    {v : Fin 8} {w : Fin 16} (htag : (s.l1 .data c (l1Geometry.index b)).tag v = l1Geometry.tag b)
    (hstate : (s.l1 .data c (l1Geometry.index b)).state v = .modified)
    (hl2tag : (s.l2 (l2Geometry.index b)).tag w = l2Geometry.tag b)
    (hvalid : (s.l2 (l2Geometry.index b)).state w ≠ .invalid) :
    (s.l2 (l2Geometry.index b)).state w = .modified := by
  have hd := hp.l1_of_slots (x := (.modified, _))
    (L1Set.slots_eq_some.mpr ⟨htag, MESIState.mode?_eq_modified.mpr hstate, rfl⟩)
  obtain ⟨m, hm⟩ := Option.ne_none_iff_exists'.mp (mt MESIState.mode?_eq_none.mp hvalid)
  have he := hp.l2_of_slots (e := ⟨m, _, _, _⟩)
    (L2Set.slots_eq_some.mpr ⟨hl2tag, hm, rfl, rfl, rfl⟩)
  obtain ⟨u, hu⟩ := hs b c _ hd
  rw [LineRep.view_l2, he, Option.map_some, Option.some.injEq] at hu
  rw [← MESIState.mode?_eq_modified, hm]
  exact congrArg some (Prod.mk.inj hu).1

/-! ## Evictions from L1 -/

/-- `evict_l1` finds no free way, and the line it evicts leaves no L1 copy of a
SHARED line, which becomes EXCLUSIVE. -/
def PromotesL1 (s : Sim) (k : L1Kind) (c : CoreId) (i : Fin 64) : Prop :=
  let l1Set := s.l1 k c i
  let victim := plruVictimWay 8 l1Set.plruBits
  let victimAddr := l1ToAddr (l1Set.tag victim) i
  let l2Set := s.l2 (l2ToIndex victimAddr)
  (∀ w, l1Set.state w ≠ .invalid) ∧ ¬(k = .data ∧ l1Set.state victim = .modified) ∧
    ∃ w ∈ l2FindWay l2Set (l2ToTag victimAddr),
      (l2ClearCoreValidWay l2Set k w c).coreValidD w = 0 ∧
        (l2ClearCoreValidWay l2Set k w c).coreValidI w = 0 ∧ l2Set.state w = .shared

def PromotesL1At (s : Sim) (k : L1Kind) (c : CoreId) (i : Fin 64) (l : L2Loc) : Prop :=
  let l1Set := s.l1 k c i
  let victim := plruVictimWay 8 l1Set.plruBits
  let victimAddr := l1ToAddr (l1Set.tag victim) i
  let l2Set := s.l2 (l2ToIndex victimAddr)
  (∀ w, l1Set.state w ≠ .invalid) ∧ ¬(k = .data ∧ l1Set.state victim = .modified) ∧
    l.1 = l2ToIndex victimAddr ∧ l2FindWay l2Set (l2ToTag victimAddr) = some l.2 ∧
      (l2ClearCoreValidWay l2Set k l.2 c).coreValidD l.2 = 0 ∧
        (l2ClearCoreValidWay l2Set k l.2 c).coreValidI l.2 = 0 ∧ l2Set.state l.2 = .shared

theorem PromotesL1At.promotes {k : L1Kind} {c : CoreId} {i : Fin 64} {l : L2Loc}
    (h : s.PromotesL1At k c i l) : s.PromotesL1 k c i := by
  obtain ⟨hfull, hclean, -, hfind, hmasks⟩ := h
  exact ⟨hfull, hclean, l.2, hfind, hmasks⟩

theorem PromotesL1At.valid {k : L1Kind} {c : CoreId} {i : Fin 64} {l : L2Loc}
    (h : s.PromotesL1At k c i l) : (s.l2 l.1).state l.2 ≠ .invalid := by
  obtain ⟨-, -, hindex, -, -, -, hstate⟩ := h
  rw [hindex, hstate]
  simp

theorem PromotesL1At.congr {k : L1Kind} {c : CoreId} {i : Fin 64} {l : L2Loc}
    (h : SameCaches s t) : t.PromotesL1At k c i l ↔ s.PromotesL1At k c i l := by
  unfold PromotesL1At
  rw [h.l1, h.l2]

theorem l2ClearCoreValidWay_masks {set set' : L2Set} {w w' : Fin 16} {tag : Addr} {e : L2Entry}
    (h : set.slots w = some (tag, e)) (h' : set'.slots w' = some (tag, e)) (k : L1Kind)
    (c : CoreId) :
    (l2ClearCoreValidWay set k w c).coreValidD w = (l2ClearCoreValidWay set' k w' c).coreValidD w' ∧
      (l2ClearCoreValidWay set k w c).coreValidI w =
        (l2ClearCoreValidWay set' k w' c).coreValidI w' ∧ set.state w = set'.state w' := by
  have hd := (L2Set.becomes_clearCoreValid h k c).slots_self
  have hd' := (L2Set.becomes_clearCoreValid h' k c).slots_self
  refine ⟨?_, ?_, ?_⟩
  · rw [L2Set.coreValidD_of_slots hd, L2Set.coreValidD_of_slots hd']
  · rw [L2Set.coreValidI_of_slots hd, L2Set.coreValidI_of_slots hd']
  · have hs := L2Set.state_of_slots h
    rw [← L2Set.state_of_slots h'] at hs
    exact MESIState.mode?_injective hs

/-- Which way `evict_l1` promotes depends on the set and on the L2 entries of the
lines in it. -/
theorem PromotesL1At.transfer {k : L1Kind} {c : CoreId} {i : Fin 64} {l : L2Loc} (hp : s.Placed)
    (ht : t.Placed) (hl1 : t.l1 k c i = s.l1 k c i)
    (hl2 : ∀ b, (t.rep b).l1 k c ≠ none → (t.rep b).l2 = (s.rep b).l2)
    (hway : t.grid.l2 l = s.grid.l2 l) (h : t.PromotesL1At k c i l) : s.PromotesL1At k c i l := by
  have hvalid := h.valid
  obtain ⟨j, w⟩ := l
  rw [grid_l2, grid_l2, L2Cell.mk.injEq] at hway
  unfold PromotesL1At at h ⊢
  dsimp only at h hvalid hway ⊢
  rw [hl1] at h
  obtain ⟨hfull, hclean, hindex, hw, hd, hi, hstate⟩ := h
  refine ⟨hfull, hclean, hindex, ?_⟩
  generalize plruVictimWay 8 (s.l1 k c i).plruBits = victim at *
  obtain ⟨m, hm⟩ := Option.ne_none_iff_exists'.mp (mt MESIState.mode?_eq_none.mp (hfull victim))
  have hslot : (t.l1 k c i).slots victim =
      some ((s.l1 k c i).tag victim, m, (s.l1 k c i).data victim) := by
    rw [hl1]
    exact L1Set.slots_eq_some.mpr ⟨rfl, hm, rfl⟩
  obtain ⟨b, rfl, htag⟩ := ht.l1_line hslot
  simp only [← htag, l1ToAddr_geometry, l2ToIndex_lineAddr, l2ToTag_lineAddr]
    at hindex hw hd hi hstate ⊢
  subst hindex
  obtain ⟨e, he⟩ := l2FindWay_eq_some hw
  rw [← htag] at hslot
  have hrep := hl2 b (by rw [ht.l1_of_slots hslot]; simp)
  rw [ht.l2_of_slots he] at hrep
  obtain ⟨w', hfind, he'⟩ := hp.find_l2 hrep.symm
  -- the line is in the way it was in
  obtain ⟨m', hm'⟩ := Option.ne_none_iff_exists'.mp
    (mt MESIState.mode?_eq_none.mp (hway.2 ▸ hvalid))
  have hslot' := L2Set.slots_eq_some (e := ⟨m', _, _, _⟩).mpr
    ⟨hway.1.symm.trans (L2Set.slots_eq_some.mp he).1, hm', rfl, rfl, rfl⟩
  obtain rfl : w' = w := hp.l2_way_unique he' hslot'
  obtain ⟨hmd, hmi, hms⟩ := l2ClearCoreValidWay_masks he' he k c
  exact ⟨hfind, hmd.trans hd, hmi.trans hi, hms.trans hstate⟩

theorem evictL1Clean_traces {k : L1Kind} {c : CoreId} {i : Fin 4096} {w : Fin 16}
    (hsilent : (l2ClearCoreValidWay (s.l2 i) k w c).coreValidD w = 0 ∧
      (l2ClearCoreValidWay (s.l2 i) k w c).coreValidI w = 0 ∧ (s.l2 i).state w = .shared →
        MayHide p s (i, w)) :
    s.Traces p [] (s.setL2 i (evictL1Clean (s.l2 i) k w c)) := by
  unfold evictL1Clean
  dsimp only
  split
  · rename_i h
    rw [l2ClearCoreValidWay, L2Set.setCoreValid_state] at h
    refine Traces.silentL2 (w := w) .exclusive ?_ ?_ ?_ (by simp) (.inr (hsilent h))
    · simp [L2Set.setState, l2ClearCoreValidWay]
    · simp [L2Set.setState, l2ClearCoreValidWay]
    · rw [h.2.2]
      simp
  · exact (SameGrid.setCoreValid _ _ _ _ _).traces p

theorem not_invalid_of_find_none {set : L1Set}
    (h : (List.finRange 8).find? (fun w => set.state w == .invalid) = none) (w : Fin 8) :
    set.state w ≠ .invalid := by
  have hw := List.find?_eq_none.mp h w (List.mem_finRange w)
  simpa using hw

theorem evictL1_data_traces {c : CoreId} {i : Fin 64} (hp : s.Placed) (hs : s.DirtyInclusion)
    (hsets : p.sets c i)
    (hsilent : ∀ l, s.PromotesL1At .data c i l → MayHide p s l) :
    (evictL1 .data s i c).Sat
      (fun r => s.Traces p [] r.1 ∧ (r.1.l1 .data c i).state r.2 = .invalid) fun _ => True := by
  unfold evictL1
  dsimp only
  cases hfree : (List.finRange 8).find? fun w => (s.l1 .data c i).state w == .invalid with
  | some w =>
      have hw := List.find?_some hfree
      rw [beq_iff_eq] at hw
      exact ⟨.refl p s, hw⟩
  | none =>
      have hvalid := not_invalid_of_find_none hfree
      unfold PromotesL1At at hsilent
      dsimp only at hsilent ⊢
      generalize plruVictimWay 8 (s.l1 .data c i).plruBits = victim at *
      obtain ⟨m, hslot⟩ := exists_slot_l1 hfree victim
      obtain ⟨b, rfl, htag⟩ := hp.l1_line hslot
      rw [← htag, l1ToAddr_geometry, l2ToIndex_lineAddr, l2ToTag_lineAddr] at hsilent ⊢
      cases hfind : l2FindWay (s.l2 (l2Geometry.index b)) (l2Geometry.tag b) with
      | none => trivial
      | some w =>
          obtain ⟨hl2tag, hl2valid⟩ := l2FindWay_found hfind
          -- the change of the L2 line, then the event of the way
          have hl2 : s.Traces p [] (s.setL2 (l2Geometry.index b)
              (if (s.l1 .data c (l1Geometry.index b)).state victim = .modified then
                l2CacheWriteWay (s.l2 (l2Geometry.index b)) c w
                  ((s.l1 .data c (l1Geometry.index b)).data victim)
              else evictL1Clean (s.l2 (l2Geometry.index b)) .data w c)) := by
            split
            · rename_i hmod
              have hl2mod := hs.l2_modified hp htag.symm hmod hl2tag hl2valid
              exact Traces.silentL2 (w := w) .modified rfl rfl hl2valid (by simp)
                (.inl hl2mod.symm)
            · rename_i hclean
              exact evictL1Clean_traces fun hp =>
                hsilent (_, w) ⟨hvalid, fun h => hclean h.2, rfl, hfind, hp⟩
          refine ⟨hl2.then ?_, by simp⟩
          exact Traces.emit_setState hsets (.evict (hvalid victim))

/-! ## Evictions from L2 -/

/-- The ways of the L1 caches are as they were, or free. -/
def OnlyInvalidates (s t : Sim) : Prop :=
  ∀ k c j, (t.l1 k c j).tag = (s.l1 k c j).tag ∧ (t.l1 k c j).data = (s.l1 k c j).data ∧
    (t.l1 k c j).plruBits = (s.l1 k c j).plruBits ∧
    ∀ v, (t.l1 k c j).state v = (s.l1 k c j).state v ∨ (t.l1 k c j).state v = .invalid

namespace OnlyInvalidates

theorem of_eq (h : t.l1 = s.l1) : OnlyInvalidates s t := fun k c j => by
  rw [h]
  exact ⟨rfl, rfl, rfl, fun _ => .inl rfl⟩

theorem trans {u : Sim} (h : OnlyInvalidates s t) (h' : OnlyInvalidates t u) :
    OnlyInvalidates s u := by
  intro k c j
  obtain ⟨htag, hdata, hplru, hstate⟩ := h k c j
  obtain ⟨htag', hdata', hplru', hstate'⟩ := h' k c j
  refine ⟨htag'.trans htag, hdata'.trans hdata, hplru'.trans hplru, fun v => ?_⟩
  rcases hstate' v with hv | hv
  · rw [hv]
    exact hstate v
  · exact .inr hv

theorem setL1 {k : L1Kind} {c : CoreId} {j : Fin 64} {v : Fin 8} (h : t.l1 = s.l1) :
    OnlyInvalidates s (t.setL1 k c j ((s.l1 k c j).setState v .invalid)) := by
  intro k' c' j'
  rw [l1_setL1]
  split
  · rename_i heq
    obtain ⟨rfl, rfl, rfl⟩ := heq
    refine ⟨rfl, rfl, rfl, fun u => ?_⟩
    by_cases hu : u = v
    · exact .inr (by simp [hu])
    · exact .inl (by simp [L1Set.setState, hu])
  · rw [h]
    exact ⟨rfl, rfl, rfl, fun _ => .inl rfl⟩

theorem l1_eq {k : L1Kind} {c : CoreId} {j : Fin 64} (h : OnlyInvalidates s t)
    (hfull : ∀ v, (t.l1 k c j).state v ≠ .invalid) : t.l1 k c j = s.l1 k c j := by
  obtain ⟨htag, hdata, hplru, hstate⟩ := h k c j
  have hs : (t.l1 k c j).state = (s.l1 k c j).state :=
    funext fun v => (hstate v).resolve_right (hfull v)
  cases ht : t.l1 k c j
  cases hs' : s.l1 k c j
  simp only [ht, hs'] at htag hdata hplru hs
  rw [htag, hdata, hplru, hs]

end OnlyInvalidates

section BackInvalidate

variable {i : Fin 4096} {w : Fin 16} {victimAddr : Addr} {c : CoreId}

def DirtyInL2 (s : Sim) (victimAddr : Addr) (i : Fin 4096) (w : Fin 16) : Prop :=
  ∀ c v, (s.l1 .data c (l1ToIndex victimAddr)).tag v = l1ToTag victimAddr →
    (s.l1 .data c (l1ToIndex victimAddr)).state v = .modified → (s.l2 i).state w = .modified

/-- The acts of a part of the loop of `evict_l2`, which leaves the L2 states as
they are. -/
structure BackInvalidates (p : Permit) (s : Sim) (victimAddr : Addr) (i : Fin 4096) (w : Fin 16)
    (t : Sim) : Prop where
  traces : s.Traces p [] t
  state : (t.l2 i).state = (s.l2 i).state
  tag : (t.l2 i).tag = (s.l2 i).tag
  dirty : t.DirtyInL2 victimAddr i w
  l1 : OnlyInvalidates s t

theorem BackInvalidates.trans {u : Sim} (h : BackInvalidates p s victimAddr i w t)
    (h' : BackInvalidates p t victimAddr i w u) : BackInvalidates p s victimAddr i w u :=
  ⟨h.traces.then h'.traces, h'.state.trans h.state, h'.tag.trans h.tag, h'.dirty, h.l1.trans h'.l1⟩

theorem dirtyInL2_setL1 {k : L1Kind} {j : Fin 64} {v : Fin 8} (h : s.DirtyInL2 victimAddr i w)
    (ht : t.l1 = s.l1) (hl2 : (t.l2 i).state = (s.l2 i).state) :
    (t.setL1 k c j ((s.l1 k c j).setState v .invalid)).DirtyInL2 victimAddr i w := by
  intro c' v' htag hstate
  rw [l2_setL1, hl2]
  rw [l1_setL1] at htag hstate
  split at htag
  · rename_i heq
    obtain ⟨rfl, rfl, rfl⟩ := heq
    rw [if_pos ⟨rfl, rfl, rfl⟩] at hstate
    by_cases hv : v' = v
    · rw [hv] at hstate
      simp at hstate
    · exact h _ _ htag (by rwa [(L1Set.setState_off hv).2.1] at hstate)
  · rename_i hne
    rw [if_neg hne, ht] at hstate
    rw [ht] at htag
    exact h _ _ htag hstate

theorem backInvalidateD_traces (hsets : p.sets c (l1ToIndex victimAddr))
    (hdirty : s.DirtyInL2 victimAddr i w) :
    (backInvalidateD i w victimAddr c s).Sat (BackInvalidates p s victimAddr i w)
      fun _ => True := by
  unfold backInvalidateD
  dsimp only
  split
  · trivial
  · rename_i v hfind
    obtain ⟨htag, hstate⟩ := findL1Way_found hfind
    -- the state written to L2 is the state that is there
    have hquiet : ∃ t : Sim, (if (s.l1 .data c (l1ToIndex victimAddr)).state v = .modified then
        s.setL2 i (((s.l2 i).setData w ((s.l1 .data c (l1ToIndex victimAddr)).data v)).setState w
          .modified) else s) = t ∧ SameGrid s t ∧ t.l1 = s.l1 ∧
        (t.l2 i).state = (s.l2 i).state ∧ (t.l2 i).tag = (s.l2 i).tag := by
      refine ⟨_, rfl, ?_⟩
      split
      · rename_i hmod
        have hsame : Function.update (s.l2 i).state w .modified = (s.l2 i).state := by
          rw [← hdirty c v htag hmod, Function.update_eq_self]
        exact ⟨.setL2 rfl hsame, rfl, by rw [l2_setL2_self]; exact hsame,
          by rw [l2_setL2_self]; rfl⟩
      · exact ⟨⟨rfl, rfl, rfl⟩, rfl, rfl, rfl⟩
    obtain ⟨t, ht, hsame, hl1, hl2state, hl2tag⟩ := hquiet
    rw [ht, ← hl1]
    rw [← hl1] at hstate
    refine ⟨(hsame.traces p).then (Traces.emit_setState hsets (.snoopInvalidate hstate)),
      ?_, ?_, ?_,
      ?_⟩
    · rw [l2_setL1, l2_emit, hl2state]
    · rw [l2_setL1, l2_emit, hl2tag]
    · rw [hl1]
      exact dirtyInL2_setL1 hdirty (by rw [l1_emit, hl1]) (by rw [l2_emit, hl2state])
    · rw [hl1]
      exact .setL1 (by rw [l1_emit, hl1])

theorem backInvalidateI_traces (hdirty : s.DirtyInL2 victimAddr i w) :
    (backInvalidateI victimAddr c s).Sat (BackInvalidates p s victimAddr i w) fun _ => True := by
  unfold backInvalidateI
  dsimp only
  split
  · trivial
  · refine ⟨Traces.same (.of_act (by simp) (currentSeq_emit ..) fun h => ?_)
      (SameGrid.setL1_instr _ _ _ _), ?_, ?_, ?_, .setL1 (l1_emit ..)⟩
    · rw [grid_emit_level1 s h]
      exact .l1iSnoop
    · rw [l2_setL1, l2_emit]
    · rw [l2_setL1, l2_emit]
    · exact dirtyInL2_setL1 hdirty (l1_emit ..) (by rw [l2_emit])

theorem backInvalidate_traces {validD validI : BitVec 8}
    (hsets : p.sets c (l1ToIndex victimAddr)) (hdirty : s.DirtyInL2 victimAddr i w) :
    (backInvalidate i w victimAddr validD validI c s).Sat (BackInvalidates p s victimAddr i w)
      fun _ => True := by
  have hrefl : ∀ t : Sim, t.DirtyInL2 victimAddr i w → BackInvalidates p t victimAddr i w t :=
    fun t ht => ⟨.refl p t, rfl, rfl, ht, .of_eq rfl⟩
  have hfirst : (if validD.getLsbD c then backInvalidateD i w victimAddr c s else .ok s).Sat
      (BackInvalidates p s victimAddr i w) fun _ => True := by
    split
    · exact backInvalidateD_traces hsets hdirty
    · exact hrefl s hdirty
  unfold backInvalidate
  refine hfirst.bind fun t ht => ?_
  split
  · exact (backInvalidateI_traces ht.dirty).imp fun _ h => ht.trans h
  · exact ht

end BackInvalidate

theorem writeBack_sameGrid (i : Fin 4096) (w : Fin 16) (victimAddr : Addr) (s : Sim) :
    (writeBack i w victimAddr s).Sat (fun t => SameGrid s t ∧ t.l2 = s.l2 ∧ t.l1 = s.l1)
      fun _ => True := by
  unfold writeBack
  split
  · split
    · trivial
    · unfold Memory.writeLine
      split
      · exact ⟨.setMem s _, rfl, rfl⟩
      · trivial
  · exact ⟨⟨rfl, rfl, rfl⟩, rfl, rfl⟩

def l1Of (i : Fin 4096) : Fin 64 := Fin.ofNat 64 i

theorem l1Of_l2Geometry (b : LineNo) : l1Of (l2Geometry.index b) = l1Geometry.index b := by
  apply Fin.ext
  change (l2ToIndex (lineAddr b) : ℕ) % 64 = l1ToIndex (lineAddr b)
  rw [l1ToIndex_val, l2ToIndex_val]
  omega

theorem Traces.dropL2 {i : Fin 4096} {w : Fin 16} {addr : Addr}
    (hvalid : (s.l2 i).state w ≠ .invalid) (hways : p.ways (i, w)) (data : Line) :
    s.Traces p [] ((s.emit .l2Evict 0 2 i w addr ((s.l2 i).state w) .invalid (some data)).setL2 i
      (((((s.l2 i).setCoreValid .data w 0).setCoreValid .instr w 0).setState w .invalid))) := by
  refine Traces.emit_setL2 (c := 0) { s.grid.l2 (i, w) with state := .invalid }
    (fun v hv => ?_) ?_ rfl hways (.evict hvalid)
  · exact ⟨by simp [L2Set.setState], by simp [L2Set.setState, hv]⟩
  · simp [L2Set.setState]

/-- What `evict_l2` does to the grid, and which way of the set it frees. -/
structure Evicts (p : Permit) (s : Sim) (i : Fin 4096) (r : Sim × Fin 16) : Prop where
  only : s.Traces (p.only fun l => l = (i, r.2)) [] r.1
  tag : (r.1.l2 i).tag = (s.l2 i).tag
  state : (r.1.l2 i).state = Function.update (s.l2 i).state r.2 .invalid
  victim : (∀ w, (s.l2 i).state w ≠ .invalid) → r.2 = plruVictimWay 16 (s.l2 i).plruBits
  l1 : OnlyInvalidates s r.1

theorem Evicts.traces {i : Fin 4096} {r : Sim × Fin 16} (h : Evicts p s i r)
    (hways : ∀ l, p.ways l) : s.Traces p [] r.1 :=
  h.only.mono (Permit.only_le fun l _ => hways l)

theorem Evicts.free {i : Fin 4096} {r : Sim × Fin 16} (h : Evicts p s i r) :
    (r.1.l2 i).state r.2 = .invalid := by
  rw [h.state, Function.update_self]

theorem evictL2_traces {i : Fin 4096} (hs : s.Inv) (hsets : ∀ c, p.sets c (l1Of i)) :
    (evictL2 s i).Sat (s.Evicts p i) fun _ => True := by
  unfold evictL2
  dsimp only
  cases hfree : (List.finRange 16).find? fun w => (s.l2 i).state w == .invalid with
  | some w =>
      have hw := List.find?_some hfree
      rw [beq_iff_eq] at hw
      exact ⟨.refl _ s, rfl, by rw [← hw, Function.update_eq_self], fun h => absurd hw (h w),
        .of_eq rfl⟩
  | none =>
      generalize hvictim : plruVictimWay 16 (s.l2 i).plruBits = victim
      have hvalid : (s.l2 i).state victim ≠ .invalid := by
        have hw := List.find?_eq_none.mp hfree victim (List.mem_finRange victim)
        simpa using hw
      obtain ⟨e, hslot⟩ := exists_slot_l2 hfree victim
      obtain ⟨b, rfl, htag⟩ := hs.placed.l2_line hslot
      rw [l1Of_l2Geometry] at hsets
      rw [← htag, l2ToAddr_geometry]
      have hdirty : s.DirtyInL2 (lineAddr b) (l2Geometry.index b) victim := fun c v hv hmod =>
        hs.dirtyInclusion.l2_modified hs.placed hv hmod htag.symm hvalid
      let q := p.only fun l => l = (l2Geometry.index b, victim)
      refine (forEachSharer_keeps (F := fun _ => True)
        (P := BackInvalidates q s (lineAddr b) (l2Geometry.index b) victim) trivial
        (fun c t _ ht => (backInvalidate_traces (p := q) (hsets c) ht.dirty).imp
          fun _ h => ht.trans h) 8
        ⟨.refl _ s, rfl, rfl, hdirty, .of_eq rfl⟩).bind fun t ht => ?_
      refine (writeBack_sameGrid _ _ _ t).bind fun u hu => ?_
      obtain ⟨hsame, hl2, hl1⟩ := hu
      rw [← ht.state, ← hl2] at hvalid
      refine ⟨(ht.traces.same hsame).then (Traces.dropL2 hvalid rfl _), ?_, ?_,
        fun _ => hvictim.symm, ?_⟩
      · rw [l2_setL2_self, ← ht.tag, ← hl2]
        rfl
      · rw [l2_setL2_self, ← ht.state, ← hl2]
        rfl
      · refine ht.l1.trans (.of_eq ?_)
        rw [l1_setL2, l1_emit, hl1]

/-- The line of the way that `evict_l2` frees has left L2, if there was one. -/
theorem Evicts.l2_eq_none {r : Sim × Fin 16} (h : Evicts p s (l2Geometry.index b) r)
    (hs : s.Placed) (hr : r.1.Placed)
    (htag : (s.l2 (l2Geometry.index b)).tag r.2 = l2Geometry.tag b)
    (hvalid : (s.l2 (l2Geometry.index b)).state r.2 ≠ .invalid) : (r.1.rep b).l2 = none := by
  by_contra hne
  obtain ⟨e, he⟩ := Option.ne_none_iff_exists'.mp hne
  obtain ⟨w, -, hw⟩ := hr.find_l2 he
  obtain ⟨hwtag, hwstate, -⟩ := L2Set.slots_eq_some.mp hw
  rw [h.tag] at hwtag
  have hne : w ≠ r.2 := by
    rintro rfl
    rw [h.free] at hwstate
    cases hwstate
  rw [h.state, Function.update_of_ne hne] at hwstate
  -- the line was in two ways
  obtain ⟨m, hm⟩ := Option.ne_none_iff_exists'.mp (mt MESIState.mode?_eq_none.mp hvalid)
  have hslot : (s.l2 (l2Geometry.index b)).slots w = some (l2Geometry.tag b,
      ⟨e.mode, (s.l2 (l2Geometry.index b)).coreValidD w, (s.l2 (l2Geometry.index b)).coreValidI w,
        (s.l2 (l2Geometry.index b)).data w⟩) :=
    L2Set.slots_eq_some.mpr ⟨hwtag, hwstate, rfl, rfl, rfl⟩
  have hslot' : (s.l2 (l2Geometry.index b)).slots r.2 = some (l2Geometry.tag b,
      ⟨m, (s.l2 (l2Geometry.index b)).coreValidD r.2, (s.l2 (l2Geometry.index b)).coreValidI r.2,
        (s.l2 (l2Geometry.index b)).data r.2⟩) :=
    L2Set.slots_eq_some.mpr ⟨htag, hm, rfl, rfl, rfl⟩
  exact hne (hs.l2_way_unique hslot hslot')

/-! ## Prefetches -/

theorem Traces.fillL2 {c : CoreId} {i : Fin 4096} {w : Fin 16} {set : L2Set} {tag addr : Addr}
    {state : MESIState} {type : CacheEventType} {data : Line}
    (hset : set.tag = Function.update (s.l2 i).tag w tag)
    (hstate : set.state = Function.update (s.l2 i).state w state)
    (hways : p.ways (i, w))
    (hrule : L2Rule p (i, w) (s.grid.l2 (i, w)) type addr ⟨tag, state⟩)
    (hfree : (s.l2 i).state w = .invalid) :
    s.Traces p [] ((s.setL2 i set).emit type c 2 i w addr .invalid state (some data)) :=
  Traces.setL2_emit ⟨tag, state⟩
    (fun v hv => ⟨by rw [hset, Function.update_of_ne hv], by rw [hstate, Function.update_of_ne hv]⟩)
    (by rw [hset, hstate, Function.update_self, Function.update_self]) hfree hways hrule

theorem l2CacheFillPrefetch_sat (set : L2Set) (tag : Addr) (w : Fin 16) (data : Line)
    (state : MESIState) :
    (l2CacheFillPrefetch set tag w data state).Sat
      (fun set' => set'.tag = Function.update set.tag w tag ∧
        set'.state = Function.update set.state w state) fun _ => True := by
  unfold l2CacheFillPrefetch
  split
  · trivial
  · exact ⟨rfl, rfl⟩

theorem pfFillL2_traces {fromLine : Addr} {a : LineNo} (hs : s.Inv) (hfills : p.fills)
    (hways : ∀ l, p.ways l) (hsets : ∀ c, p.sets c (l1Geometry.index a)) :
    (pfFillL2 s fromLine (lineAddr a)).Sat (fun r => s.Traces p [] r.1) fun _ => True := by
  unfold pfFillL2
  split
  · exact .refl p s
  · split
    · exact .refl p s
    · dsimp only
      rw [l2ToIndex_lineAddr, l2ToTag_lineAddr]
      split
      · exact .refl p s
      · refine (evictL2_traces hs (by rwa [l1Of_l2Geometry])).bind fun r hr => ?_
        obtain ⟨t, w⟩ := r
        have htraces := hr.traces hways
        have hfree := hr.free
        dsimp only at htraces hfree ⊢
        refine (Except.sat_returned _).bind fun bytes _ => ?_
        refine (l2CacheFillPrefetch_sat _ _ _ _ _).bind fun set hset => ?_
        have hrule : L2Rule p (l2Geometry.index a, w) (t.grid.l2 (l2Geometry.index a, w))
            .prefetchL2 (lineAddr a) ⟨l2Geometry.tag a, .exclusive⟩ := by
          rw [← l2ToAddr_geometry a]
          exact @L2Rule.prefetch p (_, w) _ ⟨l2Geometry.tag a, .exclusive⟩ hfills hfree (by simp)
        have hrecord : (t.setL2 (l2Geometry.index a) set).record (.fill (lineAddr a) bytes) =
            (t.record (.fill (lineAddr a) bytes)).setL2 (l2Geometry.index a) set := rfl
        rw [hrecord]
        exact (htraces.same (.record t _)).then
          (Traces.fillL2 (c := 0) hset.1 hset.2 (hways _) hrule hfree)

theorem pfNextlineOnMiss_traces {a : LineNo} (hs : s.Inv) (hfills : p.fills)
    (hways : ∀ l, p.ways l)
    (hsets : ∀ b c, lineAddr a + 64#64 = lineAddr b → p.sets c (l1Geometry.index b)) :
    (pfNextlineOnMiss s (lineAddr a)).Sat (fun t => s.Traces p [] t) fun _ => True := by
  obtain ⟨b, hb⟩ := lineAddr_add_line (a := a) 1
  have hb' : lineAddr a + 64#64 = lineAddr b := hb
  unfold pfNextlineOnMiss
  rw [hb']
  exact (pfFillL2_traces hs hfills hways fun c => hsets b c hb').bind fun r hr => hr

/-- A burst starts at a line of memory and stays at lines of memory. -/
theorem pfBurst_traces {missLine stride : Addr} {fuel : ℕ} {stream : Stream} (hs : s.Inv)
    (hhead : s.InMemory stream.prefetchHead) (hopen : p.Open) :
    (pfBurst missLine stride fuel stream s).Sat (fun r => s.Traces p [] r.2) fun _ => True := by
  induction fuel generalizing stream s with
  | zero => exact .refl p s
  | succ fuel ih =>
      obtain ⟨a, ha, hin⟩ := hhead
      obtain ⟨b, hb⟩ := lineAddr_add_line (a := a) stride
      unfold pfBurst
      dsimp only
      split
      · exact .refl p s
      · rw [ha, hb]
        refine ((pfFillL2_traces hs hopen.fills hopen.ways fun c => hopen.sets c _).both
          (pfFillL2_spec hs ⟨a, rfl, hin⟩)).bind fun r hr => ?_
        obtain ⟨t, filled⟩ := r
        obtain ⟨htraces, hbg, -, hfilled, -⟩ := hr
        cases filled with
        | false => exact htraces
        | true =>
            exact (ih hbg.inv ((hfilled rfl).of_size hbg.size)).imp fun r hr => htraces.then hr

theorem pfStreamOnMiss_traces {c : CoreId} {a : LineNo} (hs : s.Inv)
    (hin : 64 * (a : ℕ) + 64 ≤ s.mem.size.toNat) (hopen : p.Open) :
    (pfStreamOnMiss s c (lineAddr a)).Sat (fun t => s.Traces p [] t) fun _ => True := by
  unfold pfStreamOnMiss
  dsimp only
  cases hfind : (List.finRange 8).findSome? fun i =>
      (((s.cpu.cores c).prefetcher.streams i).onMiss (lineAddr a)).map fun stream =>
        (i, stream) with
  | none => exact (SameGrid.setStream _ _ _ _).traces p
  | some r =>
      obtain ⟨i, -, hi⟩ := List.exists_of_findSome?_eq_some hfind
      obtain ⟨stream, hstream, rfl⟩ := Option.map_eq_some_iff.mp hi
      refine (pfBurst_traces hs ?_ hopen).bind fun r hr =>
        hr.same (SameGrid.setStream _ _ _ _)
      rcases onMiss_head hstream with h | ⟨hconf, h⟩
      · exact ⟨a, h, hin⟩
      · exact h ▸ hs.streams c i hconf

end Sim

end CacheSimulator
