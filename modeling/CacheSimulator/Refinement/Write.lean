import CacheSimulator.Refinement.Miss

/-!
# Writes that hit

A store that hits in L1 or in L2 takes every other copy of the line away. The
path that hits in L2 evicts from L1 between the snoop and the fill, while the
line it stores to has lost the peer's copy, so its two moves are put together at
the end.
-/

namespace CacheSimulator

open Mesi

theorem l1CacheWriteWay_spec (set : L1Set) (w : Fin 8) (offset : ℕ) (data : List Byte) :
    (l1CacheWriteWay set w offset data).Sat
      (fun set' => offset + data.length ≤ 64 ∧ l1CacheWriteWay set w offset data = .ok set')
      fun _ => ¬offset + data.length ≤ 64 := by
  unfold l1CacheWriteWay
  split
  · rename_i h
    exact ⟨h, rfl⟩
  · rename_i h
    exact h

namespace LineRep

variable {x : LineRep} {c : CoreId} {v old : Line}

/-- The line after core `c` has stored to it: the data of L2 is left as it was. -/
def claimed (x : LineRep) (c : CoreId) (v old : Line) : LineRep :=
  ⟨fun k b => if k = .data ∧ b = c then some (.modified, v) else none,
    some ⟨.modified, coreBit c, 0, old⟩, x.mem⟩

theorem exact_claimed : (x.claimed c v old).Exact := by
  refine (exact_some rfl).mpr ⟨?_, ?_⟩
  · rw [coreBit_eq_maskOf, maskOf_eq_iff]
    intro b
    by_cases hb : b = c <;> simp [holders, claimed, hb]
  · rw [eq_comm, maskOf_eq_zero]
    intro b
    simp [holders, claimed]

theorem view_claimed : (x.claimed c v old).view =
    ⟨onlyD c (.modified, v), fun _ => none, some (.modified, old), x.mem⟩ := by
  refine LineState.ext ?_ ?_ rfl rfl
  · funext b
    simp [view, claimed, onlyD]
  · funext b
    simp [view, claimed]

/-- Taking every other copy away and storing claims the line. -/
theorem eq_claimed {y : LineRep} (hmem : y.mem = x.mem)
    (hl2 : y.l2 = some ⟨.modified, coreBit c, 0, old⟩)
    (hc : y.l1 .data c = some (.modified, v)) (hpeer : y.l1 .data (CoreId.peer c) = none)
    (hinstr : ∀ b, y.l1 .instr b = none) : y = x.claimed c v old := by
  refine LineRep.ext ?_ hl2 hmem
  funext k b
  unfold claimed
  cases k with
  | instr => simp [hinstr]
  | data =>
      by_cases hb : b = c
      · subst hb
        simp [hc]
      · rw [CoreId.ne_iff_eq_peer.mp hb, hpeer]
        simp

/-- The line `y` after the snoop of a store to `x`: no core has a data copy, and the way of
L2 still holds the data `old`. -/
structure Cleared (x : LineRep) (old : Line) (y : LineRep) (e : L2Entry) : Prop where
  l1 : ∀ d, y.l1 .data d = none
  l2 : y.l2 = some e
  mem : y.mem = x.mem
  data : e.data = old
  validI : e.validI = maskOf (y.holders .instr)

theorem cleared_of_peer {e e' : L2Entry} (hx : x.Exact) (he : x.l2 = some e)
    (hc : x.l1 .data c = none) (hdata : e'.data = e.data) (hvalidI : e'.validI = e.validI) :
    x.Cleared e.data ((x.setL1 .data (CoreId.peer c) none).setL2 (some e')) e' where
  l1 d := by
    rw [setL2_l1, setL1_l1]
    by_cases hd : d = CoreId.peer c
    · rw [if_pos ⟨rfl, hd⟩]
    · rw [if_neg fun h => hd h.2, not_not.mp (mt CoreId.ne_iff_eq_peer.mp hd), hc]
  l2 := setL2_l2 ..
  mem := rfl
  data := hdata
  validI := by
    rw [hvalidI, ((exact_some he).mp hx).2, holders_setL2, holders_setL1, if_neg (by simp)]

end LineRep

namespace Sim

variable {s s' s₁ s₂ s₃ : Sim} {a : LineNo} {c : CoreId} {physicalAddress : Addr}
  {data : List Byte} {w : Fin 16} {e : L2Entry}

/-- The store that claims a line is a move of the line. -/
theorem Rewrites.lineMove_store {y : LineRep} {v old : Line}
    (h : Rewrites s (lineNo physicalAddress) y s₁)
    (hin : 64 * (lineNo physicalAddress : ℕ) + 64 ≤ s.mem.size.toNat)
    (hy : y = (s.rep (lineNo physicalAddress)).claimed c v old)
    (hfits : l1ToOffset physicalAddress + data.length ≤ 64) (α : Action CoreId Store)
    (henters : ¬α.Enters) (hstored : α.stored = some (l1ToOffset physicalAddress, data))
    (hstep : Mesi.Step Store.act (s.rep (lineNo physicalAddress)).view α
      ⟨onlyD c (.modified, v), fun _ => none, some (.modified, old),
        (s.rep (lineNo physicalAddress)).mem⟩)
    (h₂ : SameCaches (s₁.record (.store physicalAddress data)) s₂) :
    LineMove s (lineNo physicalAddress) α s₂ := by
  have hp : (s₁.record (.store physicalAddress data)).Placed := h.placed.congr rfl rfl
  have hrep : (s₁.record (.store physicalAddress data)).rep = s₁.rep := rep_congr rfl rfl rfl
  have hrep₂ : s₂.rep = Function.update s.rep (lineNo physicalAddress)
      ((s.rep (lineNo physicalAddress)).claimed c v old) := by
    rw [h₂.rep, hrep, h.rep, hy]
  refine lineMove_of_rep hin (h₂.placed hp) hrep₂ ?_ ?_ LineRep.exact_claimed ?_ ?_
  · rw [h₂.mem, mem_record, h.mem]
  · rw [h₂.streams, streams_record, h.streams]
  · rw [LineRep.view_claimed]
    exact hstep
  · rw [h₂.history, history_record, h.history]
    exact .store α physicalAddress data rfl hfits henters hstored

theorem writes_of_move {α : Action CoreId Store} (hs : s.Inv)
    (hm : LineMove s (lineNo physicalAddress) α s₁)
    (hstored : α.stored = some (l1ToOffset physicalAddress, data)) (hforgets : ¬α.Forgets)
    (hfits : l1ToOffset physicalAddress + data.length ≤ 64) :
    s.Writes physicalAddress data (s₁, some []) := by
  have hinv := (hm.evolves hs).inv
  have hperforms := Performs.of_move (.refl hs) hm (.refl hinv)
  rw [hstored] at hperforms
  exact ⟨hperforms.mono fun h => absurd h hforgets, hfits, rfl⟩

/-! ## Hits in L1 -/

/-- After the upgrade the peer has no data copy; a line that needed none had
none. -/
theorem upgradeShared_spec {v : Fin 8} {m : Mode} {u : Line} (hs : s.Inv)
    (hv : (s.l1 .data c (l1Geometry.index (lineNo physicalAddress))).slots v =
      some (l1Geometry.tag (lineNo physicalAddress), m, u))
    (hw : (s.l2 (l2Geometry.index (lineNo physicalAddress))).slots w =
      some (l2Geometry.tag (lineNo physicalAddress), e)) :
    (upgradeShared s c physicalAddress
        ((s.l1 .data c (l1Geometry.index (lineNo physicalAddress))).state v) w).Sat
      (fun s' => s'.l1 .data c = s.l1 .data c ∧ ∃ e', e'.data = e.data ∧ e'.validI = e.validI ∧
        Rewrites s (lineNo physicalAddress)
          (((s.rep (lineNo physicalAddress)).setL1 .data (CoreId.peer c) none).setL2 (some e')) s')
      fun _ => False := by
  unfold upgradeShared
  simp only [← l1Geometry_index_lineNo physicalAddress, ← l1Geometry_tag_lineNo physicalAddress,
    ← l2Geometry_index_lineNo physicalAddress]
  generalize lineNo physicalAddress = a at hv hw ⊢
  have hx := hs.placed.l1_of_slots hv
  have he := hs.placed.l2_of_slots hw
  obtain ⟨-, hmode, -⟩ := L1Set.slots_eq_some.mp hv
  split
  · rw [L2Set.coreValidD_of_slots hw]
    refine (snoopInvalidatePeers_spec hs.placed (hs.exact a) none hw).bind fun r hr => ?_
    obtain ⟨-, hl1, e', -, hdata, hvalidI, hrewrites⟩ := hr
    have hw' := hrewrites.slot hw rfl
    have htouch := Rewrites.setL2 hrewrites.placed hw' (L2Set.becomes_touch hw' w)
    rw [hrewrites.rep_self] at htouch
    exact ⟨hl1 .data, e', hdata, hvalidI, hrewrites.trans htouch⟩
  · rename_i hst
    have hm : m ≠ .shared := fun hm => hst (MESIState.mode?_eq_shared.mp (hm ▸ hmode))
    have hpeer : (s.rep a).l1 .data (CoreId.peer c) = none := by
      by_contra hne
      exact (hs.coherent a).exclusive c m u hx hm (CoreId.peer c) (CoreId.peer_ne c) (.inl hne)
    refine ⟨rfl, e, rfl, rfl, ?_⟩
    rw [LineRep.setL1_eq_self hpeer, LineRep.setL2_eq_self he]
    exact .refl hs.placed

/-- A store that hits in L1 moves the line once. -/
structure WritesL1 (c : CoreId) (physicalAddress : Addr) (data : List Byte) (s : Sim)
    (r : Sim × Option (List Byte)) : Prop where
  fits : l1ToOffset physicalAddress + data.length ≤ 64
  move : LineMove s (lineNo physicalAddress) (.storeHit c (l1ToOffset physicalAddress, data)) r.1
  result : r.2 = some []

theorem writeL1Hit_writesL1 {v : Fin 8} (hs : s.Inv)
    (hfind : findL1Way (s.l1 .data c (l1ToIndex physicalAddress)) (l1ToTag physicalAddress) =
      some v) :
    (writeL1Hit s c physicalAddress v data).Sat (WritesL1 c physicalAddress data s)
      (s.AccessFault physicalAddress data.length) := by
  obtain ⟨m, hv⟩ := findL1Way_eq_some hfind
  unfold writeL1Hit
  dsimp only
  simp only [← l1Geometry_index_lineNo physicalAddress, ← l1Geometry_tag_lineNo physicalAddress,
    ← l2Geometry_index_lineNo physicalAddress, ← l2Geometry_tag_lineNo physicalAddress] at hv ⊢
  generalize (s.l1 .data c (l1Geometry.index (lineNo physicalAddress))).data v = u at hv
  have hx := hs.placed.l1_of_slots hv
  obtain ⟨e, he⟩ := (hs.lineOk _).inclusion (by rw [hx]; simp)
  have hin := hs.inRange _ (by rw [he]; simp)
  obtain ⟨w, hfind2, hw⟩ := hs.placed.find_l2 he
  rw [hfind2]
  dsimp only
  refine ((upgradeShared_spec hs hv hw).mono (fun r hr => hr) fun _ hf => hf.elim).bind
    fun s₁ h₁ => ?_
  obtain ⟨hl1₁, e₁, hdata₁, hvalidI₁, hrw₁⟩ := h₁
  have hw₁ := hrw₁.slot hw rfl
  have hmask : e.validI = maskOf ((s.rep (lineNo physicalAddress)).holders .instr) :=
    ((LineRep.exact_some he).mp (hs.exact _)).2
  rw [L2Set.coreValidI_of_slots hw₁, hvalidI₁, hmask]
  refine ((snoopInvalidatePeersI_spec hrw₁.placed (by
      rw [hrw₁.rep_self, LineRep.holders_setL2, LineRep.holders_setL1, if_neg (by simp)])).mono
    (fun r hr => hr) fun _ hf => hf.elim).bind fun s₂ h₂ => ?_
  obtain ⟨hl1₂, hrw₂⟩ := h₂
  have hw₂ := hrw₂.slot hw₁ (by rw [hrw₁.rep_self]; rfl)
  have hrw₃ := Rewrites.setL2 hrw₂.placed hw₂ (L2Set.becomes_claim hw₂ c)
  rw [hrw₂.rep_self, hrw₁.rep_self, hdata₁] at hrw₃
  have hpmc := SameCaches.modifyPmc
    (s₂.setL2 (l2Geometry.index (lineNo physicalAddress))
      (claimForStore (s₂.l2 (l2Geometry.index (lineNo physicalAddress))) w c)) c
    fun pmc => { pmc with l1dHits := pmc.l1dHits + 1 }
  have hrw₄ := ((hrw₁.trans hrw₂).trans hrw₃).congr hpmc
  -- the stored-to way is where the search found it
  have hl1₄ : (((s₂.setL2 (l2Geometry.index (lineNo physicalAddress))
      (claimForStore (s₂.l2 (l2Geometry.index (lineNo physicalAddress))) w c)).modifyPmc c
        fun pmc => { pmc with l1dHits := pmc.l1dHits + 1 }).l1 .data c) = s.l1 .data c := by
    rw [hpmc.l1, l1_setL2, hl1₂, hl1₁]
  refine ((l1CacheWriteWay_spec _ _ _ _).mono (fun r hr => hr) fun f hf =>
    accessFault_of_crossing hf).bind fun set hset => ?_
  obtain ⟨hfits, hset⟩ := hset
  rw [← hl1₄] at hv
  have hrw₅ := Rewrites.setL1 (v := some (.modified, u.overlay (l1ToOffset physicalAddress) data))
    hrw₄.placed hv (L1Set.slots_write hv hset)
  have hrw₆ := hrw₄.trans hrw₅
  rw [hrw₄.rep_self] at hrw₆
  have hcopy : (s.rep (lineNo physicalAddress)).view.l2 = some (e.mode, e.data) := by
    rw [LineRep.view_l2, he]
    rfl
  refine ⟨hfits, ?_, rfl⟩
  exact hrw₆.lineMove_store (v := Store.act (l1ToOffset physicalAddress, data) u) hin
    (LineRep.eq_claimed rfl rfl (by rw [LineRep.setL1_l1_self]; rfl)
      (by simp [LineRep.setL1_l1]) (by simp [LineRep.setL1_l1]))
    hfits _ id rfl (.storeHit c _ m e.mode u e.data hx hcopy) (.emit _ _ _ _ _ _ _ _ _ _)

theorem writeL1Hit_spec {v : Fin 8} (hs : s.Inv)
    (hfind : findL1Way (s.l1 .data c (l1ToIndex physicalAddress)) (l1ToTag physicalAddress) =
      some v) :
    (writeL1Hit s c physicalAddress v data).Sat (s.Writes physicalAddress data)
      (s.AccessFault physicalAddress data.length) := by
  refine (writeL1Hit_writesL1 hs hfind).imp fun r hr => ?_
  obtain ⟨s₁, result⟩ := r
  obtain ⟨hfits, hmove, rfl⟩ := hr
  exact writes_of_move hs hmove rfl id hfits

/-! ## Hits in L2 -/

/-- A store between whose snoop and fill another line has been dropped: the drop
and the store are two moves from the state before the snoop. -/
theorem evolves_drop_store {x₁ : LineRep} {v old : Line} {b : LineNo} {α : Action CoreId Store}
    (hs : s.Inv) (h₁ : Rewrites s (lineNo physicalAddress) x₁ s₁) (hb : b ≠ lineNo physicalAddress)
    (hdrop : LineMove s₁ b α s₂) (hα : α.Background) (henters : ¬α.Enters)
    (hhistory : s₂.history = s₁.history)
    (hin : 64 * (lineNo physicalAddress : ℕ) + 64 ≤ s.mem.size.toNat) (hp : s₃.Placed)
    (hrep : s₃.rep = Function.update s₂.rep (lineNo physicalAddress)
      ((s.rep (lineNo physicalAddress)).claimed c v old))
    (hmem : s₃.mem = s₂.mem) (hstreams : s₃.streams = s₂.streams)
    (hhistory₃ : s₃.history = s₂.history ++ [.store physicalAddress data])
    (hfits : l1ToOffset physicalAddress + data.length ≤ 64)
    (hstep : Mesi.Step Store.act (s.rep (lineNo physicalAddress)).view
      (.storeFill c (l1ToOffset physicalAddress, data))
      ⟨onlyD c (.modified, v), fun _ => none, some (.modified, old),
        (s.rep (lineNo physicalAddress)).mem⟩) :
    Evolves s [(b, α), (lineNo physicalAddress, .storeFill c (l1ToOffset physicalAddress, data))]
      s₃ := by
  have hrep₁ : s₁.rep b = s.rep b := by rw [h₁.rep, Function.update_of_ne hb]
  have hrep₃ : ∀ l, s₃.rep l = if l = lineNo physicalAddress then
      (s.rep (lineNo physicalAddress)).claimed c v old
      else if l = b then s₂.rep b else s.rep l := by
    intro l
    rw [hrep, Function.update_apply]
    split
    · rfl
    · rename_i hl
      split
      · rename_i hlb
        rw [hlb]
      · rename_i hlb
        rw [hdrop.frame l hlb, h₁.rep, Function.update_of_ne hl]
  have hsize : s₃.mem.size = s.mem.size := by rw [hmem, hdrop.size, h₁.mem]
  refine .of_run hs hp (fun l => ?_) (fun l hl => ?_)
    (hs.streams.of_eq (by rw [hstreams, hdrop.streams, h₁.streams]) hsize) hsize
    (fun memory => ?_) ?_
  · rw [hrep₃]
    split
    · exact LineRep.exact_claimed
    · split
      · exact hdrop.exact
      · exact hs.exact l
  · rw [hrep₃] at hl
    split at hl
    · rename_i hla
      rw [hla]
      exact hin
    · split at hl
      · rename_i hlb
        rw [hlb, ← h₁.mem]
        exact hdrop.inRange hl
      · exact hs.inRange l hl
  · have hfirst : System.Step Store.act (s.system memory) (b, α)
        { s.system memory with
          lines := Function.update (s.system memory).lines b (s₂.rep b).view } := by
      constructor
      · change Mesi.Step Store.act (s.rep b).view α
          (Function.update (s.system memory).lines b (s₂.rep b).view b)
        rw [Function.update_self, ← hrep₁]
        exact hdrop.move
      · exact fun l hl => Function.update_of_ne hl _ _
      · simp [track, Mesi.flat, henters, hα.stored]
      · simp [Mesi.flat, hα.stored]
    refine .cons hfirst (System.Step.run ?_)
    constructor
    · change Mesi.Step Store.act
        (Function.update (s.system memory).lines b (s₂.rep b).view (lineNo physicalAddress)) _
        (s₃.rep (lineNo physicalAddress)).view
      rw [Function.update_of_ne hb.symm, hrep₃, if_pos rfl, LineRep.view_claimed]
      exact hstep
    · intro l hl
      change (s₃.rep l).view = Function.update (s.system memory).lines b (s₂.rep b).view l
      rw [hrep₃, if_neg hl, Function.update_apply]
      split
      · rfl
      · rfl
    · rw [system_tracked, hhistory₃, hhistory, h₁.history, lineHistory_store]
      rfl
    · rw [system_flat, hhistory₃, hhistory, h₁.history, flatLines_store memory _ hfits]
      rfl
  · rw [System.entering_eq_nil (by simpa [Action.Enters] using henters), Sim.fills, hhistory₃,
      hhistory, h₁.history, List.filterMap_append]
    rfl

/-- A store that hits in L2 moves the line once, and may have dropped another line from
L1 to make room: it has not when the eviction, of the state `t₁` after the snoop, has
left the caches alone. -/
structure WritesL2 (c : CoreId) (physicalAddress : Addr) (data : List Byte) (s : Sim)
    (r : Sim × Option (List Byte)) : Prop where
  fits : l1ToOffset physicalAddress + data.length ≤ 64
  absent : (s.rep (lineNo physicalAddress)).l1 .data c = none
  moves : (LineMove s (lineNo physicalAddress)
      (.storeFill c (l1ToOffset physicalAddress, data)) r.1 ∨
    ∃ b, b ≠ lineNo physicalAddress ∧ Evolves s [(b, .dropD c),
      (lineNo physicalAddress, .storeFill c (l1ToOffset physicalAddress, data))] r.1)
  room : ∃ x t₁ t₂ v, Rewrites s (lineNo physicalAddress) x t₁ ∧ x.l1 .data c = none ∧
    evictL1 .data t₁ (l1Geometry.index (lineNo physicalAddress)) c = .ok (t₂, v) ∧
      (SameCaches t₁ t₂ → LineMove s (lineNo physicalAddress)
        (.storeFill c (l1ToOffset physicalAddress, data)) r.1)
  history : r.1.history = s.history ++ [.store physicalAddress data]
  streams : r.1.streams = s.streams
  result : r.2 = some []

/-- The end of a store that hits in L2, whether or not the eviction dropped a
line. -/
theorem moves_of_frees {x₁ : LineRep} {v old : Line} (hs : s.Inv)
    (h₁ : Rewrites s (lineNo physicalAddress) x₁ s₁) (hx₁ : x₁.l1 .data c = none)
    (hfrees : FreesL1 s₁ .data c s₂)
    (hin : 64 * (lineNo physicalAddress : ℕ) + 64 ≤ s.mem.size.toNat) (hp : s₃.Placed)
    (hrep : s₃.rep = Function.update s₂.rep (lineNo physicalAddress)
      ((s.rep (lineNo physicalAddress)).claimed c v old))
    (hmem : s₃.mem = s₂.mem) (hstreams : s₃.streams = s₂.streams)
    (hhistory₃ : s₃.history = s₂.history ++ [.store physicalAddress data])
    (hfits : l1ToOffset physicalAddress + data.length ≤ 64)
    (hstep : Mesi.Step Store.act (s.rep (lineNo physicalAddress)).view
      (.storeFill c (l1ToOffset physicalAddress, data))
      ⟨onlyD c (.modified, v), fun _ => none, some (.modified, old),
        (s.rep (lineNo physicalAddress)).mem⟩) :
    (SameCaches s₁ s₂ → LineMove s (lineNo physicalAddress)
      (.storeFill c (l1ToOffset physicalAddress, data)) s₃) ∧
    (LineMove s (lineNo physicalAddress) (.storeFill c (l1ToOffset physicalAddress, data)) s₃ ∨
      ∃ b, b ≠ lineNo physicalAddress ∧ Evolves s [(b, .dropD c),
        (lineNo physicalAddress, .storeFill c (l1ToOffset physicalAddress, data))] s₃) := by
  have halone : SameCaches s₁ s₂ → LineMove s (lineNo physicalAddress)
      (.storeFill c (l1ToOffset physicalAddress, data)) s₃ := by
    intro hsame
    have hrep₃ : s₃.rep = Function.update s.rep (lineNo physicalAddress)
        ((s.rep (lineNo physicalAddress)).claimed c v old) := by
      rw [hrep, hsame.rep, h₁.rep, Function.update_idem]
    refine lineMove_of_rep hin hp hrep₃ ?_ ?_ LineRep.exact_claimed ?_ ?_
    · rw [hmem, hsame.mem, h₁.mem]
    · rw [hstreams, hsame.streams, h₁.streams]
    · rw [LineRep.view_claimed]
      exact hstep
    · rw [hhistory₃, hsame.history, h₁.history]
      exact .store _ physicalAddress data rfl hfits id rfl
  refine ⟨halone, ?_⟩
  rcases hfrees.cases with hsame | ⟨b, hb, hdrop⟩
  · exact .inl (halone hsame)
  · have hne : b ≠ lineNo physicalAddress := by
      rintro rfl
      rw [h₁.rep_self] at hb
      exact hb hx₁
    exact .inr ⟨b, hne,
      evolves_drop_store hs h₁ hne hdrop trivial id hfrees.history hin hp hrep hmem
      hstreams hhistory₃ hfits hstep⟩

theorem WritesL2.writes {r : Sim × Option (List Byte)} (hs : s.Inv)
    (h : WritesL2 c physicalAddress data s r) : s.Writes physicalAddress data r := by
  obtain ⟨s₃, result⟩ := r
  obtain ⟨hfits, -, hmoves, -, hhistory, -, rfl⟩ := h
  rcases hmoves with hmove | ⟨b, -, hevolves⟩
  · exact writes_of_move hs hmove rfl id hfits
  · refine ⟨⟨⟨_, hevolves, ?_⟩, fun memory => ?_, ⟨_, hevolves, ?_⟩⟩, hfits, rfl⟩
    · intro e he hf
      simp only [List.mem_cons, List.not_mem_nil, or_false] at he
      rcases he with rfl | rfl
      · exact hf
      · exact hf
    · rw [hhistory, flatLines_store memory _ hfits]
    · intro b'
      have happend : System.storesTo b' ([(b, Action.dropD c)] ++ [(lineNo physicalAddress,
          Action.storeFill c (l1ToOffset physicalAddress, data))]) = _ := System.storesTo_append
      rw [List.singleton_append] at happend
      rw [happend, System.storesTo_singleton, System.storesTo_singleton]
      simp [Action.stored]

/-- When the line that has changed is not in the core's L1D, the lines that are there
are as they were. -/
theorem Rewrites.lineOk {a : LineNo} {x : LineRep} (hs : s.Inv) (h : Rewrites s a x s')
    (hx : x.l1 .data c = none) : ∀ b, (s'.rep b).l1 .data c ≠ none → s'.LineOk b := by
  intro b hb
  have hba : b ≠ a := by
    rintro rfl
    rw [h.rep_self] at hb
    exact hb hx
  have hrep : s'.rep b = s.rep b := by rw [h.rep, Function.update_of_ne hba]
  refine ⟨hrep ▸ hs.exact b, ?_, hrep ▸ hs.coherent b⟩
  rw [hrep, h.mem]
  exact hs.inRange b

/-- The snoop of a store leaves no data copy and hands out the value the store is
applied to. -/
theorem snoopForStore_spec (hs : s.Inv) (hc : (s.rep (lineNo physicalAddress)).l1 .data c = none)
    (hw : (s.l2 (l2Geometry.index (lineNo physicalAddress))).slots w =
      some (l2Geometry.tag (lineNo physicalAddress), e)) (line : Line) :
    (snoopInvalidatePeers s (e.validD &&& ~~~coreBit c) (l1Geometry.index (lineNo physicalAddress))
        (l1Geometry.tag (lineNo physicalAddress)) (some line)
        (l2Geometry.index (lineNo physicalAddress)) w).Sat
      (fun r => r.2 = some ((s.rep (lineNo physicalAddress)).peerData (CoreId.peer c) line) ∧
        ∃ y e₁, (s.rep (lineNo physicalAddress)).Cleared e.data y e₁ ∧
          Rewrites s (lineNo physicalAddress) y r.1)
      fun _ => False := by
  refine (snoopInvalidatePeers_spec hs.placed (hs.exact _) (some line) hw).imp fun r hr => ?_
  obtain ⟨hline, -, e₁, -, hdata, hvalidI, hrw⟩ := hr
  exact ⟨hline, _, e₁,
    LineRep.cleared_of_peer (hs.exact _) (hs.placed.l2_of_slots hw) hc hdata hvalidI, hrw⟩

/-- The state in which the snoop of the instruction copies starts: the line that is
stored to has been filled into L1D. -/
def storeFilled (s : Sim) (c : CoreId) (physicalAddress : Addr) (data : List Byte) (v : Fin 8)
    (line : Line) : Sim :=
  ((s.setL1 .data c (l1Geometry.index (lineNo physicalAddress))
    (l1CacheFill (s.l1 .data c (l1Geometry.index (lineNo physicalAddress)))
      (l1Geometry.tag (lineNo physicalAddress)) v line .modified)).record
    (.store physicalAddress data)).emit .l1dFill c 1 (l1Geometry.index (lineNo physicalAddress)) v
      physicalAddress .invalid .modified (some line)

section StoreFilled

variable {v : Fin 8} {line : Line}

@[simp]
theorem l2_storeFilled : (s.storeFilled c physicalAddress data v line).l2 = s.l2 := by
  rw [storeFilled, l2_emit, l2_record, l2_setL1]

@[simp]
theorem mem_storeFilled : (s.storeFilled c physicalAddress data v line).mem = s.mem := by
  rw [storeFilled, mem_emit, mem_record, mem_setL1]

@[simp]
theorem streams_storeFilled :
    (s.storeFilled c physicalAddress data v line).streams = s.streams := by
  rw [storeFilled, streams_emit, streams_record, streams_setL1]

@[simp]
theorem history_storeFilled : (s.storeFilled c physicalAddress data v line).history =
    s.history ++ [.store physicalAddress data] := by
  rw [storeFilled, history_emit, history_record, history_setL1]

theorem storeFilled_spec (data : List Byte) (line : Line) (hp : s.Placed)
    (hv : (s.l1 .data c (l1Geometry.index (lineNo physicalAddress))).state v = .invalid)
    (hc : (s.rep (lineNo physicalAddress)).l1 .data c = none) :
    (s.storeFilled c physicalAddress data v line).Placed ∧
      (s.storeFilled c physicalAddress data v line).rep =
        Function.update s.rep (lineNo physicalAddress)
          ((s.rep (lineNo physicalAddress)).setL1 .data c (some (.modified, line))) := by
  obtain ⟨hp', hrep⟩ := hp.fillL1 hv hc (MESIState.mode?_eq_modified.mpr rfl) line
  refine ⟨hp'.congr (by rw [storeFilled, l1_emit, l1_record])
    (by rw [storeFilled, l2_emit, l2_record]), ?_⟩
  rw [← hrep]
  exact rep_congr (by rw [storeFilled, l1_emit, l1_record])
    (by rw [storeFilled, l2_emit, l2_record]) (by rw [storeFilled, mem_emit, mem_record])

end StoreFilled

/-- The fill, the snoop of the instruction copies and the claim of the way leave a
cleared line to the core alone. -/
theorem claimAfterFill_spec {x y : LineRep} {v : Fin 8} {line old : Line} (hp : s.Placed)
    (hcleared : x.Cleared old y e) (hy : s.rep (lineNo physicalAddress) = y)
    (hw : (s.l2 (l2Geometry.index (lineNo physicalAddress))).slots w =
      some (l2Geometry.tag (lineNo physicalAddress), e))
    (hv : (s.l1 .data c (l1Geometry.index (lineNo physicalAddress))).state v = .invalid) :
    (snoopInvalidatePeersI (s.storeFilled c physicalAddress data v line)
      (((s.storeFilled c physicalAddress data v line).l2
        (l2Geometry.index (lineNo physicalAddress))).coreValidI w)
      (l1Geometry.index (lineNo physicalAddress)) (l1Geometry.tag (lineNo physicalAddress))).Sat
      (fun t => Rewrites (s.storeFilled c physicalAddress data v line) (lineNo physicalAddress)
        (x.claimed c line old)
        ((t.setL2 (l2Geometry.index (lineNo physicalAddress))
          ((claimForStore (t.l2 (l2Geometry.index (lineNo physicalAddress))) w c).touch
            w)).modifyPmc c fun pmc => { pmc with l2Hits := pmc.l2Hits + 1 }))
      fun _ => False := by
  obtain ⟨hp', hrep⟩ := storeFilled_spec data line hp hv
    (by rw [hy, hcleared.l1])
  have hl2 : (s.storeFilled c physicalAddress data v line).l2 = s.l2 := l2_storeFilled
  rw [← hl2] at hw
  have hself := congrFun hrep (lineNo physicalAddress)
  rw [Function.update_self, hy] at hself
  generalize s.storeFilled c physicalAddress data v line = t₀ at hp' hself hw ⊢
  have hmask : e.validI = maskOf ((t₀.rep (lineNo physicalAddress)).holders .instr) := by
    rw [hcleared.validI, hself, LineRep.holders_setL1, if_neg (by simp)]
  rw [L2Set.coreValidI_of_slots hw, hmask]
  refine (snoopInvalidatePeersI_spec hp' rfl).imp fun t ht => ?_
  obtain ⟨-, hdrop⟩ := ht
  have hw' := hdrop.slot hw (by rw [LineRep.dropInstr_l2, hp'.l2_of_slots hw])
  have hclaim := L2Set.becomes_claim hw' c
  have hset := hdrop.trans (Rewrites.setL2 hdrop.placed hw'
    (hclaim.trans (L2Set.becomes_touch hclaim.slots_self w)))
  have hclaimed : (y.setL1 .data c (some (.modified, line))).dropInstr.setL2
      (some ⟨.modified, coreBit c, 0, e.data⟩) = x.claimed c line old :=
    LineRep.eq_claimed hcleared.mem (by rw [LineRep.setL2_l2, hcleared.data]) (by simp)
      (by simp [LineRep.setL1_l1, hcleared.l1]) (by simp)
  rw [hdrop.rep_self, hself, hclaimed] at hset
  exact hset.congr (.modifyPmc _ c fun pmc => { pmc with l2Hits := pmc.l2Hits + 1 })

theorem writeL2Hit_writesL2 (hs : s.Inv)
    (hmiss : findL1Way (s.l1 .data c (l1ToIndex physicalAddress)) (l1ToTag physicalAddress) = none)
    (hfind : l2FindWay (s.l2 (l2ToIndex physicalAddress)) (l2ToTag physicalAddress) = some w) :
    (writeL2Hit s c physicalAddress w data).Sat (WritesL2 c physicalAddress data s)
      (s.AccessFault physicalAddress data.length) := by
  obtain ⟨e, hw⟩ := l2FindWay_eq_some hfind
  unfold writeL2Hit
  dsimp only
  simp only [← l1Geometry_index_lineNo physicalAddress, ← l1Geometry_tag_lineNo physicalAddress,
    ← l2Geometry_index_lineNo physicalAddress, ← l2Geometry_tag_lineNo physicalAddress]
    at hw hmiss ⊢
  have hc := l1_eq_none_of_find hmiss
  have he := hs.placed.l2_of_slots hw
  have hin := hs.inRange _ (by rw [he]; simp)
  have hcopy : (s.rep (lineNo physicalAddress)).view.l2 = some (e.mode, e.data) := by
    rw [LineRep.view_l2, he]
    rfl
  have hsame := SameCaches.emit s .l2Hit c 2 (l2Geometry.index (lineNo physicalAddress)) w
    physicalAddress ((s.l2 (l2Geometry.index (lineNo physicalAddress))).state w)
    ((s.l2 (l2Geometry.index (lineNo physicalAddress))).state w) none
  have hs₀ := hs.congr hsame
  rw [← hsame.l2] at hw
  rw [L2Set.coreValidD_of_slots hw, L2Set.data_of_slots hw]
  refine ((snoopForStore_spec hs₀ (by rw [hsame.rep, hc]) hw e.data).mono (fun r hr => hr)
    fun _ hf => hf.elim).bind fun r hr => ?_
  obtain ⟨s₁, lineOut⟩ := r
  obtain ⟨hline, x₁, e₁, hcleared, hrw₁⟩ := hr
  have hrw₀₁ := (Rewrites.of_sameCaches hs.placed hsame).trans hrw₁
  rw [hsame.rep] at hline hcleared
  dsimp only at hline ⊢
  rw [hline, Option.getD_some]
  -- the value the store is applied to
  have hvalue := LineRep.authoritative_peerData he (c := c) (by simp [hc])
  generalize (s.rep (lineNo physicalAddress)).peerData (CoreId.peer c) e.data = line at hvalue ⊢
  unfold Line.copyIn
  split
  swap
  · rename_i hfits
    exact accessFault_of_crossing hfits
  rename_i hfits
  change Except.Sat (evictL1 _ _ _ _ >>= _) _ _
  refine (((Except.sat_returned _).and (evictL1_spec hrw₁.placed
    (hrw₁.lineOk hs₀ (hcleared.l1 c)))).mono (fun r hr => hr) fun _ hf => hf.2.elim).bind
      fun r hr => ?_
  obtain ⟨s₂, v⟩ := r
  obtain ⟨hevict, hv, hfrees⟩ := hr
  dsimp only at hv hfrees ⊢
  have hp₂ := hfrees.placed hrw₁.placed
  have hrep₂ : s₂.rep (lineNo physicalAddress) = x₁ := by
    rw [hfrees.rep_eq (by rw [hrw₁.rep_self, hcleared.l1]), hrw₁.rep_self]
  have hw₂ := hfrees.tags.slots hp₂ (hrw₁.slot hw hcleared.l2) (by rw [hrep₂, hcleared.l2])
  have hrep₃ := (storeFilled_spec data
    (line.overlay (l1ToOffset physicalAddress) data) hp₂ hv (by rw [hrep₂, hcleared.l1])).2
  refine ((claimAfterFill_spec hp₂ hcleared hrep₂ hw₂ hv).mono (fun r hr => hr)
    fun _ hf => hf.elim).bind fun s₃ hrw₃ => ?_
  have hmoves := moves_of_frees (c := c) (v := Store.act (l1ToOffset physicalAddress, data) line) hs
    hrw₀₁ (hcleared.l1 c) hfrees hin hrw₃.placed
    (by rw [hrw₃.rep, hrep₃, Function.update_idem]; rfl) (by rw [hrw₃.mem, mem_storeFilled])
    (by rw [hrw₃.streams, streams_storeFilled]) (by rw [hrw₃.history, history_storeFilled]) hfits
    (.storeFill c (l1ToOffset physicalAddress, data) e.mode e.data line hc hcopy hvalue)
  refine ⟨hfits, hc, hmoves.2, ⟨_, s₁, s₂, v, hrw₀₁, hcleared.l1 c, hevict, hmoves.1⟩, ?_, ?_, rfl⟩
  · rw [hrw₃.history, history_storeFilled, hfrees.history, hrw₀₁.history]
  · rw [hrw₃.streams, streams_storeFilled, hfrees.streams, hrw₀₁.streams]

theorem writeL2Hit_spec (hs : s.Inv)
    (hmiss : findL1Way (s.l1 .data c (l1ToIndex physicalAddress)) (l1ToTag physicalAddress) = none)
    (hfind : l2FindWay (s.l2 (l2ToIndex physicalAddress)) (l2ToTag physicalAddress) = some w) :
    (writeL2Hit s c physicalAddress w data).Sat (s.Writes physicalAddress data)
      (s.AccessFault physicalAddress data.length) :=
  (writeL2Hit_writesL2 hs hmiss hfind).imp fun _ h => h.writes hs

end Sim

end CacheSimulator
