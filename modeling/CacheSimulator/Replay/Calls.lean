import CacheSimulator.Replay.Paths
import CacheSimulator.Refinement.Call

/-!
# The acts of a call

A call of `cpu_read` or `cpu_write` that returns `true` counts one hit, and one
that page-faults shows nothing. `HidesL2Change` is the condition, on the state
before the call, under which it changes an L2 state that no event reports, and
`HidesL2ChangeOf` says of which way. `ChangesL1Line` is the condition under which a
store that hits L1D changes the bytes of its line.
-/

namespace CacheSimulator

open Mesi

namespace Sim

/-- `evict_l1` promotes after a miss has made room in L2: if L2 has no free way
either, the line it evicts is not in the L1 set. -/
def PromotesL1OnMiss (s : Sim) (k : L1Kind) (c : CoreId) (physicalAddress : Addr) : Prop :=
  let l2Set := s.l2 (l2ToIndex physicalAddress)
  let victimTag := l2Set.tag (plruVictimWay 16 l2Set.plruBits)
  s.PromotesL1 k c (l1ToIndex physicalAddress) ∧
    ((∀ w, l2Set.state w ≠ .invalid) →
      findL1Way (s.l1 k c (l1ToIndex physicalAddress))
        (l1ToTag (l2ToAddr victimTag (l2ToIndex physicalAddress))) = none)

def PromotesL1OnMissAt (s : Sim) (k : L1Kind) (c : CoreId) (physicalAddress : Addr) (l : L2Loc) :
    Prop :=
  let l2Set := s.l2 (l2ToIndex physicalAddress)
  let victimTag := l2Set.tag (plruVictimWay 16 l2Set.plruBits)
  s.PromotesL1At k c (l1ToIndex physicalAddress) l ∧
    ((∀ w, l2Set.state w ≠ .invalid) →
      findL1Way (s.l1 k c (l1ToIndex physicalAddress))
        (l1ToTag (l2ToAddr victimTag (l2ToIndex physicalAddress))) = none)

variable {p : Permit} {s t : Sim} {c : CoreId} {physicalAddress : Addr}

theorem PromotesL1OnMissAt.promotes {k : L1Kind} {l : L2Loc}
    (h : s.PromotesL1OnMissAt k c physicalAddress l) : s.PromotesL1OnMiss k c physicalAddress :=
  ⟨h.1.promotes, h.2⟩

theorem PromotesL1OnMissAt.congr {k : L1Kind} {l : L2Loc} (h : SameCaches s t) :
    t.PromotesL1OnMissAt k c physicalAddress l ↔ s.PromotesL1OnMissAt k c physicalAddress l := by
  unfold PromotesL1OnMissAt
  rw [PromotesL1At.congr h, h.l1, h.l2]

theorem findL1Way_eq_none_of_l2 {k : L1Kind} {b : LineNo} (hs : s.Inv)
    (hb : (s.rep b).l2 = none) :
    findL1Way (s.l1 k c (l1Geometry.index b)) (l1Geometry.tag b) = none := by
  cases hfind : findL1Way (s.l1 k c (l1Geometry.index b)) (l1Geometry.tag b) with
  | none => rfl
  | some v =>
      obtain ⟨m, hv⟩ := findL1Way_eq_some hfind
      have hx := hs.placed.l1_of_slots hv
      rw [hs.l1_eq_none hb] at hx
      cases hx

theorem exists_victim_line {w : Fin 16} (hs : s.Inv)
    (hvalid : (s.l2 (l2ToIndex physicalAddress)).state w ≠ .invalid) :
    ∃ b, l2ToIndex physicalAddress = l2Geometry.index b ∧
      (s.l2 (l2ToIndex physicalAddress)).tag w = l2Geometry.tag b ∧
        l1ToIndex physicalAddress = l1Geometry.index b := by
  obtain ⟨m, hm⟩ := Option.ne_none_iff_exists'.mp (mt MESIState.mode?_eq_none.mp hvalid)
  obtain ⟨b, hindex, htag⟩ := hs.placed.l2_line
    (L2Set.slots_eq_some (e := ⟨m, _, _, _⟩).mpr ⟨rfl, hm, rfl, rfl, rfl⟩)
  refine ⟨b, hindex.symm, htag.symm, ?_⟩
  rw [← l1Of_l2Geometry, hindex, ← l2Geometry_index_lineNo, l1Of_l2Geometry,
    l1Geometry_index_lineNo]

/-- `evict_l2` is about the way it frees only, which is not the way promoted after it. -/
theorem Evicts.grid_l2 {i : Fin 4096} {r : Sim × Fin 16} (h : Evicts p s i r)
    (hcallback : s.callback = true) {l : L2Loc} (hl : (r.1.l2 l.1).state l.2 ≠ .invalid) :
    l ≠ (i, r.2) ∧ r.1.grid.l2 l = s.grid.l2 l := by
  have hne : l ≠ (i, r.2) := by
    rintro rfl
    exact hl h.free
  exact ⟨hne, (h.only.acts hcallback).l2_frame hne fun _ => id⟩

theorem Evicts.promotesL1At {k : L1Kind} {r : Sim × Fin 16} {l : L2Loc} (hs : s.Inv)
    (h : Evicts p s (l2ToIndex physicalAddress) r) (hfrees : FreesL2 s r.1)
    (hcallback : s.callback = true)
    (hpromotes : r.1.PromotesL1At k c (l1ToIndex physicalAddress) l) :
    s.PromotesL1OnMissAt k c physicalAddress l := by
  have hinv := (hfrees.background hs).inv
  have hl1 := h.l1.l1_eq hpromotes.1
  refine ⟨hpromotes.transfer hs.placed hinv.placed hl1 (fun b hb => ?_)
    (h.grid_l2 hcallback hpromotes.valid).2, fun hfull => ?_⟩
  · rcases hfrees.cases with hsame | ⟨b', -, hmove⟩
    · rw [hsame.rep]
    · by_cases hne : b = b'
      · subst hne
        -- an evicted line has no copy left
        exfalso
        have hgone : ∀ y, Mesi.Step Store.act (s.rep b).view .evict y → y.l2 = none := by
          intro y hstep
          cases hstep with
          | evictClean => rfl
          | evictDirty => rfl
        have hl2 := hgone _ hmove.move
        rw [LineRep.view_l2, Option.map_eq_none_iff] at hl2
        exact hb (hinv.l1_eq_none hl2 k c)
      · rw [hmove.frame b hne]
  · obtain ⟨b, hindex, htag, hset⟩ := exists_victim_line hs (hfull r.2)
    rw [← h.victim hfull, ← hl1, htag, hindex, l2ToAddr_geometry, l1ToTag_lineAddr, hset]
    rw [hindex] at h hfull htag
    exact findL1Way_eq_none_of_l2 hinv (h.l2_eq_none hs.placed hinv.placed htag (hfull r.2))

end Sim

/-! ## Reads and writes -/

namespace Call

/-- The access to `physicalAddress` changes an L2 state, and no event of level 2
reports the change: a write hit makes a line MODIFIED, a read that finds other
sharers makes it SHARED, or the eviction from L1 makes a line EXCLUSIVE. -/
def HidesL2ChangeAt (call : Call) (s : Sim) (physicalAddress : Addr) : Prop :=
  let l2Set := s.l2 (l2ToIndex physicalAddress)
  match call, findL1Way (s.l1 .data call.coreId (l1ToIndex physicalAddress))
      (l1ToTag physicalAddress), l2FindWay l2Set (l2ToTag physicalAddress) with
  | read c _ _, none, some w =>
      (l2Set.coreValidD w &&& ~~~coreBit c) ||| (l2Set.coreValidI w &&& ~~~coreBit c) ≠ 0 ∧
          l2Set.state w ≠ .shared ∨
        s.PromotesL1 .data c (l1ToIndex physicalAddress)
  | write _ _ _, some _, some w => l2Set.state w ≠ .modified
  | write c _ _, none, some w =>
      l2Set.state w ≠ .modified ∨ s.PromotesL1 .data c (l1ToIndex physicalAddress)
  | read c _ _, none, none => s.PromotesL1OnMiss .data c physicalAddress
  | write c _ _, none, none => s.PromotesL1OnMiss .data c physicalAddress
  | _, _, _ => False

def HidesL2Change (call : Call) (s : Sim) : Prop :=
  ∃ physicalAddress ∈ call.physicalAddress s, call.HidesL2ChangeAt s physicalAddress

def HidesL2ChangeOfAt (call : Call) (s : Sim) (physicalAddress : Addr) (l : L2Loc) : Prop :=
  let l2Set := s.l2 (l2ToIndex physicalAddress)
  match call, findL1Way (s.l1 .data call.coreId (l1ToIndex physicalAddress))
      (l1ToTag physicalAddress), l2FindWay l2Set (l2ToTag physicalAddress) with
  | read c _ _, none, some w =>
      (l = (l2ToIndex physicalAddress, w) ∧
        (l2Set.coreValidD w &&& ~~~coreBit c) ||| (l2Set.coreValidI w &&& ~~~coreBit c) ≠ 0 ∧
          l2Set.state w ≠ .shared) ∨
        s.PromotesL1At .data c (l1ToIndex physicalAddress) l
  | write _ _ _, some _, some w =>
      l = (l2ToIndex physicalAddress, w) ∧ l2Set.state w ≠ .modified
  | write c _ _, none, some w =>
      (l = (l2ToIndex physicalAddress, w) ∧ l2Set.state w ≠ .modified) ∨
        s.PromotesL1At .data c (l1ToIndex physicalAddress) l
  | read c _ _, none, none => s.PromotesL1OnMissAt .data c physicalAddress l
  | write c _ _, none, none => s.PromotesL1OnMissAt .data c physicalAddress l
  | _, _, _ => False

/-- The call changes the state of L2 way `l`, and no event of level 2 reports it. -/
def HidesL2ChangeOf (call : Call) (s : Sim) (l : L2Loc) : Prop :=
  ∃ physicalAddress ∈ call.physicalAddress s, call.HidesL2ChangeOfAt s physicalAddress l

def HitsL2At (call : Call) (s : Sim) (physicalAddress : Addr) : Prop :=
  findL1Way (s.l1 .data call.coreId (l1ToIndex physicalAddress)) (l1ToTag physicalAddress) = none ∧
    (l2FindWay (s.l2 (l2ToIndex physicalAddress)) (l2ToTag physicalAddress)).isSome = true

instance (call : Call) (s : Sim) (physicalAddress : Addr) :
    Decidable (call.HitsL2At s physicalAddress) :=
  inferInstanceAs (Decidable (_ ∧ _))

/-- The number of hits in L2 that the call reports, before it changes anything. -/
def l2HitEvents (call : Call) (s : Sim) : ℕ :=
  if (call.physicalAddress s).any fun pa => call.HitsL2At s pa then 1 else 0

/-- The call stores to a line of the core's L1D bytes that the line does not have. -/
def ChangesL1Line (call : Call) (s : Sim) : Prop :=
  match call with
  | write c _ data =>
      ∃ physicalAddress ∈ call.physicalAddress s,
        ∃ w ∈ findL1Way (s.l1 .data c (l1ToIndex physicalAddress)) (l1ToTag physicalAddress),
          ((s.l1 .data c (l1ToIndex physicalAddress)).data w).overlay
            (l1ToOffset physicalAddress) data ≠
              (s.l1 .data c (l1ToIndex physicalAddress)).data w
  | _ => False

theorem HidesL2ChangeOfAt.congr {call : Call} {s t : Sim} {physicalAddress : Addr} {l : L2Loc}
    (h : Sim.SameCaches s t) :
    call.HidesL2ChangeOfAt t physicalAddress l ↔ call.HidesL2ChangeOfAt s physicalAddress l := by
  unfold HidesL2ChangeOfAt
  simp only [Sim.PromotesL1At.congr h, Sim.PromotesL1OnMissAt.congr h, h.l1, h.l2]

theorem HidesL2ChangeOf.hides {call : Call} {s : Sim} {l : L2Loc} (h : call.HidesL2ChangeOf s l) :
    call.HidesL2Change s := by
  obtain ⟨pa, hpa, h⟩ := h
  refine ⟨pa, hpa, ?_⟩
  unfold HidesL2ChangeOfAt at h
  unfold HidesL2ChangeAt
  dsimp only at h ⊢
  split at h
  · exact h.imp And.right Sim.PromotesL1At.promotes
  · exact h.2
  · exact h.imp And.right Sim.PromotesL1At.promotes
  · exact h.promotes
  · exact h.promotes
  · exact h.elim

instance (s : Sim) (k : L1Kind) (c : CoreId) (i : Fin 64) : Decidable (s.PromotesL1 k c i) :=
  @instDecidableAnd _ _ inferInstance (@instDecidableAnd _ _ inferInstance (decidableExistsMem _))

instance (s : Sim) (k : L1Kind) (c : CoreId) (physicalAddress : Addr) :
    Decidable (s.PromotesL1OnMiss k c physicalAddress) :=
  inferInstanceAs (Decidable (_ ∧ (_ → _)))

instance (call : Call) (s : Sim) (physicalAddress : Addr) :
    Decidable (call.HidesL2ChangeAt s physicalAddress) := by
  unfold HidesL2ChangeAt
  dsimp only
  split <;> infer_instance

instance (call : Call) (s : Sim) : Decidable (call.HidesL2Change s) := decidableExistsMem _

instance (call : Call) (s : Sim) : Decidable (call.ChangesL1Line s) :=
  match call with
  | read _ _ _ => inferInstanceAs (Decidable False)
  | write _ _ _ => @decidableExistsMem _ _ (fun _ => decidableExistsMem _) _
  | fetch _ _ _ => inferInstanceAs (Decidable False)

end Call

/-- The permit allows what the call does: it lets the state of an L2 way that the call
changes change silently until there is an event about the way, the own event of a hit
in L2 apart, and a store change the bytes of its line until there is a hit of L1D. -/
structure Permit.Allows (p : Permit) (call : Call) (s : Sim) : Prop where
  isOpen : p.Open
  silent : ∀ l, call.HidesL2ChangeOf s l → ∀ own added : List Event,
    own.length = call.l2HitEvents s → (∀ e ∈ added, ¬e.AtL2 l) →
      p.silent l (s.events ++ own ++ added)
  stores : call.ChangesL1Line s → ∀ added : List Event, (∀ e ∈ added, e.type ≠ .l1dHit) →
    p.stores (s.events ++ added)

namespace Permit.Allows

variable {p : Permit} {call : Call} {s t : Sim} {physicalAddress : Addr} {l : L2Loc}

/-- Without a hit in L2 the state of the way may change from the start. -/
theorem mayHide (h : p.Allows call s) (hpa : call.physicalAddress s = some physicalAddress)
    (hsame : Sim.SameCaches s t) (hgrid : Sim.SameGrid s t)
    (hhides : call.HidesL2ChangeOfAt t physicalAddress l)
    (hmiss : ¬call.HitsL2At t physicalAddress) : Sim.MayHide p t l := by
  refine Sim.MayHide.same (fun _ added hadded => ?_) hgrid
  have hown : call.l2HitEvents s = 0 := by
    rw [Call.HitsL2At, hsame.l1, hsame.l2] at hmiss
    simp [Call.l2HitEvents, hpa, Call.HitsL2At, hmiss]
  have hsilent := h.silent l ⟨_, hpa, (Call.HidesL2ChangeOfAt.congr hsame).mp hhides⟩ [] added
    hown.symm hadded
  rwa [List.append_nil] at hsilent

/-- With a hit in L2 it may change from the event of the hit on. -/
theorem mayHide_hit (h : p.Allows call s) (hpa : call.physicalAddress s = some physicalAddress)
    (hsame : Sim.SameCaches s t) (hgrid : Sim.SameGrid s t)
    (hhides : call.HidesL2ChangeOfAt t physicalAddress l)
    (hhits : call.HitsL2At t physicalAddress) (c : CoreId) (w : Fin 16) :
    Sim.MayHide p (t.reportL2Hit c physicalAddress w) l := by
  intro hcallback added hadded
  have hevents : t.events = s.events := congrArg Grid.events hgrid.grid
  have hreport : ∃ e, (t.reportL2Hit c physicalAddress w).events = s.events ++ [e] := by
    rw [Sim.reportL2Hit, Sim.callback_emit] at hcallback
    have hemit := Sim.grid_emit_level2 t hcallback .l2Hit c (l2ToIndex physicalAddress) w
      physicalAddress ((t.l2 (l2ToIndex physicalAddress)).state w)
      ((t.l2 (l2ToIndex physicalAddress)).state w) none
    rw [← hevents]
    exact ⟨_, congrArg Grid.events hemit⟩
  obtain ⟨e, he⟩ := hreport
  have hown : call.l2HitEvents s = 1 := by
    rw [Call.HitsL2At, hsame.l1, hsame.l2] at hhits
    simp [Call.l2HitEvents, hpa, Call.HitsL2At, hhits]
  rw [he]
  exact h.silent l ⟨_, hpa, (Call.HidesL2ChangeOfAt.congr hsame).mp hhides⟩ [e] added hown.symm
    hadded

end Permit.Allows

namespace Sim

variable {p : Permit} {s : Sim} {c : CoreId} {virtualAddress : Addr}

theorem MayHide.of_evictL2 {physicalAddress : Addr} {r : Sim × Fin 16} (hs : s.Inv)
    (hopen : p.Open) (hr : evictL2 s (l2ToIndex physicalAddress) = .ok r)
    (h : ∀ l, s.PromotesL1OnMissAt .data c physicalAddress l → MayHide p s l) (l : L2Loc)
    (hpromotes : r.1.PromotesL1At .data c (l1ToIndex physicalAddress) l) : MayHide p r.1 l := by
  intro hcallback
  have hevicts := (evictL2_traces hs fun c => hopen.sets c _).of_eq_ok hr
  have hfrees := ((evictL2_spec hs).of_eq_ok hr).2
  have hbefore := hevicts.only.callback.symm.trans hcallback
  have hmay := h l (hevicts.promotesL1At hs hfrees hbefore hpromotes)
  exact hmay.traces hevicts.only (hevicts.grid_l2 hbefore hpromotes.valid).1 hcallback

def CountsAtMostOne (p : Permit) (s : Sim) (c : CoreId) (r : Sim × Option (List Byte)) : Prop :=
  r.2 = none ∧ s.Traces p [] r.1 ∨ s.CountsHit p c r

theorem CountsHit.of_same {t : Sim} {r : Sim × Option (List Byte)} (hsame : SameGrid s t)
    (h : t.CountsHit p c r) : s.CountsAtMostOne p c r := by
  obtain ⟨hr, k, hk, ls, hls, htraces⟩ := h
  exact .inr ⟨hr, k, hk, ls, hls, (hsame.traces p).trans htraces⟩

theorem cpuRead_traces {size : ℕ} (hs : s.Inv)
    (hallows : p.Allows (.read c virtualAddress size) s) :
    (cpuRead s c virtualAddress size).Sat (s.CountsAtMostOne p c) fun _ => True := by
  have hsame := SameCaches.translateData s c virtualAddress
  have hgrid := SameGrid.translateData s c virtualAddress
  have hpa : (Call.read c virtualAddress size).physicalAddress s =
      (translateData s c virtualAddress).1 := rfl
  unfold cpuRead
  generalize translateData s c virtualAddress = r at *
  obtain ⟨found, t⟩ := r
  cases found with
  | none => exact .inl ⟨rfl, hgrid.traces p⟩
  | some pa =>
      have hs' := hs.congr hsame
      dsimp only at hsame hgrid hpa ⊢
      cases hl1 : findL1Way (t.l1 .data c (l1ToIndex pa)) (l1ToTag pa) with
      | some v => exact (readL1Hit_traces size hl1).imp fun r hr => hr.of_same hgrid
      | none =>
          dsimp only
          cases hl2 : l2FindWay (t.l2 (l2ToIndex pa)) (l2ToTag pa) with
          | some w =>
              have hmay : ∀ l, _ → MayHide p (t.reportL2Hit c pa w) l := fun l hl =>
                hallows.mayHide_hit hpa hsame hgrid (l := l)
                  (by simpa only [Call.HidesL2ChangeOfAt, Call.coreId, hl1, hl2] using hl)
                  (by simp [Call.HitsL2At, Call.coreId, hl1, hl2]) c w
              refine (readL2Hit_traces size hs' hallows.isOpen hl1 hl2
                (fun l hl => hmay l (.inr hl)) fun ho => ?_).imp fun r hr => hr.of_same hgrid
              exact or_iff_not_imp_left.mpr fun hst => hmay _ (.inl ⟨rfl, ho, Ne.symm hst⟩)
          | none =>
              have hmay : ∀ l, t.PromotesL1OnMissAt .data c pa l → MayHide p t l := fun l hl =>
                hallows.mayHide hpa hsame hgrid
                  (by simpa only [Call.HidesL2ChangeOfAt, Call.coreId, hl1, hl2] using hl)
                  (by simp [Call.HitsL2At, hl2])
              exact (readMiss_traces size hs' hallows.isOpen hl2 fun r hr =>
                .of_evictL2 hs' hallows.isOpen hr hmay).imp fun r hr => hr.of_same hgrid

theorem cpuWrite_traces {data : List Byte} (hs : s.Inv)
    (hallows : p.Allows (.write c virtualAddress data) s) :
    (cpuWrite s c virtualAddress data).Sat (s.CountsAtMostOne p c) fun _ => True := by
  have hsame := SameCaches.translateData s c virtualAddress
  have hgrid := SameGrid.translateData s c virtualAddress
  have hpa : (Call.write c virtualAddress data).physicalAddress s =
      (translateData s c virtualAddress).1 := rfl
  unfold cpuWrite
  generalize translateData s c virtualAddress = r at *
  obtain ⟨found, t⟩ := r
  cases found with
  | none => exact .inl ⟨rfl, hgrid.traces p⟩
  | some pa =>
      have hs' := hs.congr hsame
      dsimp only at hsame hgrid hpa ⊢
      cases hl1 : findL1Way (t.l1 .data c (l1ToIndex pa)) (l1ToTag pa) with
      | some v =>
          have hchanges : ((t.l1 .data c (l1ToIndex pa)).data v).overlay (l1ToOffset pa) data ≠
              (t.l1 .data c (l1ToIndex pa)).data v → MayStore p t := by
            intro hne
            refine MayStore.same (fun _ => hallows.stores ⟨pa, hpa, v, ?_, ?_⟩) hgrid
            · rwa [← hsame.l1]
            · rwa [← hsame.l1]
          refine (writeL1Hit_traces data hallows.isOpen hl1 (fun w hw => ?_)
            (or_iff_not_imp_left.mpr hchanges)).imp fun r hr => hr.of_same hgrid
          refine or_iff_not_imp_left.mpr fun hst => hallows.mayHide hpa hsame hgrid ?_ ?_
          · simp only [Call.HidesL2ChangeOfAt, Call.coreId, hl1, hw]
            exact ⟨trivial, Ne.symm hst⟩
          · simp [Call.HitsL2At, Call.coreId, hl1]
      | none =>
          dsimp only
          cases hl2 : l2FindWay (t.l2 (l2ToIndex pa)) (l2ToTag pa) with
          | some w =>
              have hmay : ∀ l, _ → MayHide p (t.reportL2Hit c pa w) l := fun l hl =>
                hallows.mayHide_hit hpa hsame hgrid (l := l)
                  (by simpa only [Call.HidesL2ChangeOfAt, Call.coreId, hl1, hl2] using hl)
                  (by simp [Call.HitsL2At, Call.coreId, hl1, hl2]) c w
              exact (writeL2Hit_traces data hs' hallows.isOpen hl1 hl2
                (fun l hl => hmay l (.inr hl)) (or_iff_not_imp_left.mpr fun hst =>
                  hmay _ (.inl ⟨rfl, Ne.symm hst⟩))).imp fun r hr => hr.of_same hgrid
          | none =>
              have hmay : ∀ l, t.PromotesL1OnMissAt .data c pa l → MayHide p t l := fun l hl =>
                hallows.mayHide hpa hsame hgrid
                  (by simpa only [Call.HidesL2ChangeOfAt, Call.coreId, hl1, hl2] using hl)
                  (by simp [Call.HitsL2At, hl2])
              exact (writeMiss_traces data hs' hallows.isOpen hl2 fun r hr =>
                .of_evictL2 hs' hallows.isOpen hr hmay).imp fun r hr => hr.of_same hgrid

theorem exec_traces {call : Call} (hs : s.Inv) (hcall : call.IsData) (hallows : p.Allows call s) :
    (call.exec s).Sat (s.CountsAtMostOne p call.coreId) fun _ => True := by
  cases call with
  | read c virtualAddress size => exact cpuRead_traces hs hallows
  | write c virtualAddress data => exact cpuWrite_traces hs hallows
  | fetch c virtualAddress size => exact hcall.elim

theorem CountsAtMostOne.traces {r : Sim × Option (List Byte)} (h : s.CountsAtMostOne p c r) :
    ∃ ls, s.Traces p ls r.1 := by
  rcases h with ⟨-, h⟩ | ⟨-, k, -, ls, -, h⟩
  · exact ⟨_, h⟩
  · exact ⟨_, h⟩

end Sim

/-! ## Permits for reads and writes -/

def dataPermit (silent : Prop) : Permit where
  fills := True
  sets _ _ := True
  ways _ := True
  silent _ _ := silent
  stores _ := True

theorem dataPermit_allows {silent : Prop} {call : Call} {s : Sim}
    (h : silent ∨ ¬call.HidesL2Change s) : (dataPermit silent).Allows call s where
  isOpen := ⟨trivial, fun _ _ => trivial, fun _ => trivial⟩
  silent _ hl _ _ _ _ := h.resolve_right (not_not_intro hl.hides)
  stores _ _ _ := trivial

end CacheSimulator
