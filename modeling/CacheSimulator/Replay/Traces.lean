import CacheSimulator.Replay.Grid

/-!
# The simulator's steps as acts

`s.Traces p ls s'` says that the simulator goes from `s` to `s'` by acts that `p`
permits, with the labels `ls`, and that the events of the acts are the ones it
records when the callback is installed. The lemmas give the acts of the primitive
updates of the state.
-/

namespace CacheSimulator

namespace Sim

def grid (s : Sim) : Grid where
  l1d l := ⟨(s.l1 .data l.1 l.2.1).tag l.2.2, (s.l1 .data l.1 l.2.1).state l.2.2,
    (s.l1 .data l.1 l.2.1).data l.2.2⟩
  l2 l := ⟨(s.l2 l.1).tag l.2, (s.l2 l.1).state l.2⟩
  pmc c := (s.cpu.cores c).pmc
  events := s.events

structure Traces (p : Permit) (s : Sim) (ls : List Label) (s' : Sim) : Prop where
  callback : s'.callback = s.callback
  currentSeq : s'.currentSeq = s.currentSeq
  acts : s.callback = true → Acts s.currentSeq p s.grid ls s'.grid

/-- The two states show the same grid, and record alike. -/
structure SameGrid (s s' : Sim) : Prop where
  callback : s'.callback = s.callback
  currentSeq : s'.currentSeq = s.currentSeq
  grid : s'.grid = s.grid

variable {p q : Permit} {s s' s'' : Sim} {ls ls' : List Label}

theorem Traces.refl (p : Permit) (s : Sim) : s.Traces p [] s := ⟨rfl, rfl, fun _ => .refl⟩

theorem Traces.trans (h : s.Traces p ls s') (h' : s'.Traces p ls' s'') :
    s.Traces p (ls ++ ls') s'' where
  callback := h'.callback.trans h.callback
  currentSeq := h'.currentSeq.trans h.currentSeq
  acts hc := by
    have hacts := h'.acts (h.callback.trans hc)
    rw [h.currentSeq] at hacts
    exact (h.acts hc).trans hacts

theorem Traces.mono (hpq : p.Le q) (h : s.Traces p ls s') : s.Traces q ls s' :=
  ⟨h.callback, h.currentSeq, fun hc => (h.acts hc).mono hpq⟩

theorem SameGrid.traces (p : Permit) (h : SameGrid s s') : s.Traces p [] s' :=
  ⟨h.callback, h.currentSeq, fun _ => h.grid ▸ .refl⟩

theorem Traces.then (h : s.Traces p ls s') (h' : s'.Traces p [] s'') : s.Traces p ls s'' := by
  have := h.trans h'
  rwa [List.append_nil] at this

theorem Traces.same (h : s.Traces p ls s') (h' : SameGrid s' s'') : s.Traces p ls s'' :=
  h.then (h'.traces p)

/-! ## Updates that do not show -/

section Quiet

theorem currentSeq_emit (s : Sim) (type : CacheEventType) (coreId level set way : ℕ) (addr : Addr)
    (oldState newState : MESIState) (data : Option Line) :
    (s.emit type coreId level set way addr oldState newState data).currentSeq = s.currentSeq := by
  unfold emit
  split <;> rfl

theorem pmc_setL1 (s : Sim) (k : L1Kind) (c : CoreId) (i : Fin 64) (set : L1Set) (c' : CoreId) :
    ((s.setL1 k c i set).cpu.cores c').pmc = (s.cpu.cores c').pmc := by
  by_cases hc : c' = c
  · subst hc
    cases k <;> simp [setL1, modifyCore]
  · simp [setL1, modifyCore, hc]

theorem SameGrid.setL1_instr (s : Sim) (c : CoreId) (i : Fin 64) (set : L1Set) :
    SameGrid s (s.setL1 .instr c i set) := by
  refine ⟨rfl, rfl, ?_⟩
  simp only [Sim.grid, l1_setL1, reduceCtorEq, false_and, if_false, l2_setL1, events_setL1,
    pmc_setL1]

/-- Replacement bits do not show. -/
theorem SameGrid.setL1_data {c : CoreId} {i : Fin 64} {set : L1Set}
    (htag : set.tag = (s.l1 .data c i).tag) (hstate : set.state = (s.l1 .data c i).state)
    (hdata : set.data = (s.l1 .data c i).data) : SameGrid s (s.setL1 .data c i set) := by
  refine ⟨rfl, rfl, ?_⟩
  have hl1 : ∀ l : L1Loc, (⟨((s.setL1 .data c i set).l1 .data l.1 l.2.1).tag l.2.2,
      ((s.setL1 .data c i set).l1 .data l.1 l.2.1).state l.2.2,
      ((s.setL1 .data c i set).l1 .data l.1 l.2.1).data l.2.2⟩ : L1Cell) = s.grid.l1d l := by
    intro l
    rw [l1_setL1]
    split
    · rename_i h
      rw [htag, hstate, hdata, ← h.2.1, ← h.2.2]
      rfl
    · rfl
  simp only [Sim.grid, l2_setL1, events_setL1, pmc_setL1, Grid.mk.injEq, and_true]
  exact funext hl1

/-- Data, masks and replacement bits of L2 do not show. -/
theorem SameGrid.setL2 {i : Fin 4096} {set : L2Set} (htag : set.tag = (s.l2 i).tag)
    (hstate : set.state = (s.l2 i).state) : SameGrid s (s.setL2 i set) := by
  refine ⟨rfl, rfl, ?_⟩
  have hl2 : ∀ l : L2Loc, (⟨((s.setL2 i set).l2 l.1).tag l.2,
      ((s.setL2 i set).l2 l.1).state l.2⟩ : L2Cell) = s.grid.l2 l := by
    intro l
    rw [l2_setL2]
    split
    · rename_i h
      rw [htag, hstate, ← h]
      rfl
    · rfl
  simp only [Sim.grid, l1_setL2, events_setL2, Grid.mk.injEq, true_and]
  exact ⟨funext hl2, rfl, trivial⟩

theorem SameGrid.setData (s : Sim) (i : Fin 4096) (w : Fin 16) (line : Line) :
    SameGrid s (s.setL2 i ((s.l2 i).setData w line)) :=
  .setL2 rfl rfl

theorem SameGrid.setCoreValid (s : Sim) (i : Fin 4096) (k : L1Kind) (w : Fin 16)
    (mask : BitVec 8) : SameGrid s (s.setL2 i ((s.l2 i).setCoreValid k w mask)) := by
  cases k with
  | data => exact .setL2 rfl rfl
  | instr => exact .setL2 rfl rfl

theorem SameGrid.touch (s : Sim) (i : Fin 4096) (w : Fin 16) :
    SameGrid s (s.setL2 i ((s.l2 i).touch w)) :=
  .setL2 rfl rfl

theorem SameGrid.record (s : Sim) (op : MemOp) : SameGrid s (s.record op) := ⟨rfl, rfl, rfl⟩

theorem SameGrid.setMem (s : Sim) (mem : Memory) : SameGrid s { s with mem := mem } :=
  ⟨rfl, rfl, rfl⟩

theorem SameGrid.modifyCore (s : Sim) (c : CoreId) {f : Core → Core}
    (hd : ∀ core, (f core).l1d = core.l1d) (hpmc : ∀ core, (f core).pmc = core.pmc) :
    SameGrid s (s.modifyCore c f) := by
  refine ⟨rfl, rfl, ?_⟩
  have hcore : ∀ c', ((s.modifyCore c f).cpu.cores c').l1d = (s.cpu.cores c').l1d ∧
      ((s.modifyCore c f).cpu.cores c').pmc = (s.cpu.cores c').pmc := by
    intro c'
    by_cases hc : c' = c
    · subst hc
      simp [Sim.modifyCore, hd, hpmc]
    · simp [Sim.modifyCore, hc]
  simp only [Sim.grid, l1, (hcore _).1, (hcore _).2]
  rfl

theorem SameGrid.setStream (s : Sim) (c : CoreId) (i : Fin 8) (stream : Stream) :
    SameGrid s (s.setStream c i stream) :=
  .modifyCore s c (fun _ => rfl) fun _ => rfl

theorem SameGrid.translateData (s : Sim) (c : CoreId) (virtualAddress : Addr) :
    SameGrid s (translateData s c virtualAddress).2 := by
  generalize h : translate2 (s.cpu.cores c).l1Dtlb (s.cpu.cores c).l2Dtlb
    (s.pml4s (s.cpu.cores c).activePml4) s.mem virtualAddress = t
  simp only [CacheSimulator.translateData, h]
  exact .modifyCore s c (fun _ => rfl) fun _ => rfl

theorem SameGrid.translateInstr (s : Sim) (c : CoreId) (virtualAddress : Addr) :
    SameGrid s (translateInstr s c virtualAddress).2 := by
  generalize h : translate (s.cpu.cores c).itlb (s.pml4s (s.cpu.cores c).activePml4) s.mem
    virtualAddress = t
  simp only [CacheSimulator.translateInstr, h]
  exact .modifyCore s c (fun _ => rfl) fun _ => rfl

end Quiet

/-! ## Updates that show -/

section Shown

variable (s : Sim)

@[simp] theorem grid_l1d (l : L1Loc) : s.grid.l1d l = ⟨(s.l1 .data l.1 l.2.1).tag l.2.2,
    (s.l1 .data l.1 l.2.1).state l.2.2, (s.l1 .data l.1 l.2.1).data l.2.2⟩ := rfl

@[simp] theorem grid_l2 (l : L2Loc) :
    s.grid.l2 l = ⟨(s.l2 l.1).tag l.2, (s.l2 l.1).state l.2⟩ := rfl

theorem grid_setL1 {c : CoreId} {i : Fin 64} {w : Fin 8} {set : L1Set}
    (h : ∀ v, v ≠ w → set.tag v = (s.l1 .data c i).tag v ∧
      set.state v = (s.l1 .data c i).state v ∧ set.data v = (s.l1 .data c i).data v) :
    (s.setL1 .data c i set).grid =
      s.grid.setL1 (c, i, w) ⟨set.tag w, set.state w, set.data w⟩ := by
  have hl1 : ∀ l : L1Loc, (⟨((s.setL1 .data c i set).l1 .data l.1 l.2.1).tag l.2.2,
      ((s.setL1 .data c i set).l1 .data l.1 l.2.1).state l.2.2,
      ((s.setL1 .data c i set).l1 .data l.1 l.2.1).data l.2.2⟩ : L1Cell) =
      Function.update s.grid.l1d (c, i, w) ⟨set.tag w, set.state w, set.data w⟩ l := by
    rintro ⟨c', i', w'⟩
    rw [l1_setL1, Function.update_apply]
    by_cases hset : c' = c ∧ i' = i
    · obtain ⟨rfl, rfl⟩ := hset
      by_cases hw : w' = w
      · simp [hw]
      · simp [hw, h w' hw]
    · rw [if_neg fun h => hset h.2, if_neg fun h => hset (by simp_all)]
      rfl
  simp only [Sim.grid, Grid.setL1, l2_setL1, events_setL1, pmc_setL1, Grid.mk.injEq, and_true]
  exact funext hl1

theorem grid_setL2 {i : Fin 4096} {w : Fin 16} {set : L2Set}
    (h : ∀ v, v ≠ w → set.tag v = (s.l2 i).tag v ∧ set.state v = (s.l2 i).state v) :
    (s.setL2 i set).grid = s.grid.setL2 (i, w) ⟨set.tag w, set.state w⟩ := by
  have hl2 : ∀ l : L2Loc, (⟨((s.setL2 i set).l2 l.1).tag l.2,
      ((s.setL2 i set).l2 l.1).state l.2⟩ : L2Cell) =
      Function.update s.grid.l2 (i, w) ⟨set.tag w, set.state w⟩ l := by
    rintro ⟨i', w'⟩
    rw [l2_setL2, Function.update_apply]
    by_cases hset : i' = i
    · subst hset
      by_cases hw : w' = w
      · simp [hw]
      · simp [hw, h w' hw]
    · rw [if_neg hset, if_neg fun h => hset (by simp_all)]
      rfl
  simp only [Sim.grid, Grid.setL2, l1_setL2, events_setL2, Grid.mk.injEq, true_and]
  exact ⟨funext hl2, rfl, trivial⟩

theorem grid_emit_level1 (h : s.callback = true) (type : CacheEventType) (c : CoreId) (i : Fin 64)
    (w : Fin 8) (addr : Addr) (oldState newState : MESIState) (data : Option Line) :
    (s.emit type c 1 i w addr oldState newState data).grid =
      s.grid.emit (level1Event s.currentSeq type (c, i, w) addr oldState newState data) := by
  rw [emit, if_pos h]
  rfl

theorem grid_emit_level2 (h : s.callback = true) (type : CacheEventType) (c : CoreId)
    (i : Fin 4096) (w : Fin 16) (addr : Addr) (oldState newState : MESIState)
    (data : Option Line) :
    (s.emit type c 2 i w addr oldState newState data).grid =
      s.grid.emit (level2Event s.currentSeq type c (i, w) addr oldState newState data) := by
  rw [emit, if_pos h]
  rfl

theorem grid_emit_memFetch (h : s.callback = true) (c : CoreId) (addr : Addr)
    (data : Option Line) :
    (s.emit .memFetch c 3 0 0 addr .invalid .invalid data).grid =
      s.grid.emit (memFetchEvent s.currentSeq c addr data) := by
  rw [emit, if_pos h]
  rfl

theorem grid_modifyPmc (c : CoreId) (k : HitKind) :
    (s.modifyPmc c fun pmc => pmc.bump k).grid = s.grid.bump c k := by
  have hl1 : (s.modifyPmc c fun pmc => pmc.bump k).l1 = s.l1 :=
    l1_modifyCore s c (fun _ => rfl) fun _ => rfl
  have hpmc : ∀ c', ((s.modifyPmc c fun pmc => pmc.bump k).cpu.cores c').pmc =
      Function.update (fun c' => (s.cpu.cores c').pmc) c ((s.cpu.cores c).pmc.bump k) c' := by
    intro c'
    by_cases hc : c' = c
    · subst hc
      simp [modifyPmc, modifyCore]
    · simp [modifyPmc, modifyCore, hc]
  simp only [Sim.grid, Grid.bump, hl1, Grid.mk.injEq, true_and]
  exact ⟨rfl, funext hpmc, rfl⟩

end Shown

/-! ## Acts of the simulator -/

theorem Traces.of_act (hc : s'.callback = s.callback) (hseq : s'.currentSeq = s.currentSeq)
    (h : s.callback = true → Act s.currentSeq p s.grid s'.grid) : s.Traces p [] s' :=
  ⟨hc, hseq, fun hcallback => .act .refl (h hcallback)⟩

theorem Traces.of_hit {c : CoreId} {k : HitKind} (hc : s'.callback = s.callback)
    (hseq : s'.currentSeq = s.currentSeq)
    (h : s.callback = true → Hit s.currentSeq p c s.grid k s'.grid) :
    s.Traces p [.event c k] s' :=
  ⟨hc, hseq, fun hcallback => .hit .refl (h hcallback)⟩

theorem Traces.modifyPmc (p : Permit) (s : Sim) (c : CoreId) (k : HitKind) :
    s.Traces p [.bump c k] (s.modifyPmc c fun pmc => pmc.bump k) :=
  ⟨rfl, rfl, fun _ => by rw [grid_modifyPmc]; exact .bump c k .refl⟩

section Level1

variable {c : CoreId} {i : Fin 64} {w : Fin 8} {set : L1Set} {type : CacheEventType} {addr : Addr}
  (cell : L1Cell) {oldState : MESIState}
  (hoff : ∀ v, v ≠ w → set.tag v = (s.l1 .data c i).tag v ∧
    set.state v = (s.l1 .data c i).state v ∧ set.data v = (s.l1 .data c i).data v)
  (hcell : (⟨set.tag w, set.state w, set.data w⟩ : L1Cell) = cell)

include hoff hcell

theorem grid_emit_setL1 (h : s.callback = true) (oldState newState : MESIState) :
    ((s.emit type c 1 i w addr oldState newState (some cell.data)).setL1 .data c i set).grid =
      (s.grid.setL1 (c, i, w) cell).emit
        (level1Event s.currentSeq type (c, i, w) addr oldState newState (some cell.data)) := by
  rw [grid_setL1 (w := w) _ (by simpa using hoff), hcell, grid_emit_level1 s h]
  rfl

theorem grid_setL1_emit (h : s.callback = true) (oldState newState : MESIState) :
    ((s.setL1 .data c i set).emit type c 1 i w addr oldState newState (some cell.data)).grid =
      (s.grid.setL1 (c, i, w) cell).emit
        (level1Event s.currentSeq type (c, i, w) addr oldState newState (some cell.data)) := by
  rw [grid_emit_level1 (s.setL1 .data c i set) h, grid_setL1 _ hoff, hcell]
  rfl

variable (hold : (s.l1 .data c i).state w = oldState)
  (hrule : L1Rule p (c, i, w) (s.grid.l1d (c, i, w)) type addr cell) (hsets : p.sets c i)

include hold hrule hsets

/-- The event is emitted before the way changes. -/
theorem Traces.emit_setL1 :
    s.Traces p [] ((s.emit type c 1 i w addr oldState cell.state (some cell.data)).setL1 .data c i
      set) := by
  subst hold
  refine .of_act (by simp) (currentSeq_emit ..) fun h => ?_
  rw [grid_emit_setL1 cell hoff hcell h]
  exact .level1 hsets hrule

/-- The event is emitted after the way has changed. -/
theorem Traces.setL1_emit :
    s.Traces p [] ((s.setL1 .data c i set).emit type c 1 i w addr oldState cell.state
      (some cell.data)) := by
  subst hold
  refine .of_act (by simp) (currentSeq_emit ..) fun h => ?_
  rw [grid_setL1_emit cell hoff hcell h]
  exact .level1 hsets hrule

end Level1

section Level2

variable {c : CoreId} {i : Fin 4096} {w : Fin 16} {set : L2Set} {type : CacheEventType}
  {addr : Addr} {data : Line} (cell : L2Cell) {oldState : MESIState}
  (hoff : ∀ v, v ≠ w → set.tag v = (s.l2 i).tag v ∧ set.state v = (s.l2 i).state v)
  (hcell : (⟨set.tag w, set.state w⟩ : L2Cell) = cell) (hold : (s.l2 i).state w = oldState)
  (hways : p.ways (i, w)) (hrule : L2Rule p (i, w) (s.grid.l2 (i, w)) type addr cell)

include hoff hcell hold hways hrule

theorem Traces.emit_setL2 :
    s.Traces p [] ((s.emit type c 2 i w addr oldState cell.state (some data)).setL2 i set) := by
  subst hold
  refine .of_act (by simp) (currentSeq_emit ..) fun h => ?_
  rw [grid_setL2 (w := w) _ (by simpa using hoff), hcell, grid_emit_level2 s h]
  exact .level2 hways hrule

theorem Traces.setL2_emit :
    s.Traces p [] ((s.setL2 i set).emit type c 2 i w addr oldState cell.state (some data)) := by
  subst hold
  refine .of_act (by simp) (currentSeq_emit ..) fun h => ?_
  rw [grid_emit_level2 (s.setL2 i set) h, grid_setL2 _ hoff, hcell]
  exact .level2 hways hrule

end Level2

/-! ## What depends on the events recorded -/

/-- The state of the L2 way may change without an event as long as no event is about
the way. -/
def MayHide (p : Permit) (s : Sim) (l : L2Loc) : Prop :=
  s.callback = true → ∀ added, (∀ e ∈ added, ¬e.AtL2 l) → p.silent l (s.events ++ added)

/-- A hit may change the bytes of its way as long as there has been no hit. -/
def MayStore (p : Permit) (s : Sim) : Prop :=
  s.callback = true → ∀ added, (∀ e ∈ added, e.type ≠ .l1dHit) → p.stores (s.events ++ added)

theorem MayHide.silent {l : L2Loc} (h : MayHide p s l) (hc : s.callback = true) :
    p.silent l s.events := by
  have hnone := h hc [] (by simp)
  rwa [List.append_nil] at hnone

theorem MayStore.stores (h : MayStore p s) (hc : s.callback = true) : p.stores s.events := by
  have hnone := h hc [] (by simp)
  rwa [List.append_nil] at hnone

theorem MayHide.traces {l : L2Loc} (h : MayHide p s l) (ht : s.Traces q [] s')
    (hways : ¬q.ways l) : MayHide p s' l := by
  intro hc added hadded
  rw [ht.callback] at hc
  obtain ⟨before, hbefore, hall⟩ := (ht.acts hc).events_nil
  have hevents : s'.events = s.events ++ before := hbefore
  rw [hevents, List.append_assoc]
  refine h hc _ fun e he => ?_
  rcases List.mem_append.mp he with he | he
  · exact fun hat => hways ((hall e he).2 l hat)
  · exact hadded e he

theorem MayStore.traces (h : MayStore p s) (ht : s.Traces q [] s') : MayStore p s' := by
  intro hc added hadded
  rw [ht.callback] at hc
  obtain ⟨before, hbefore, hall⟩ := (ht.acts hc).events_nil
  have hevents : s'.events = s.events ++ before := hbefore
  rw [hevents, List.append_assoc]
  refine h hc _ fun e he => ?_
  rcases List.mem_append.mp he with he | he
  · exact (hall e he).1
  · exact hadded e he

theorem MayHide.same {l : L2Loc} (h : MayHide p s l) (hsame : SameGrid s s') :
    MayHide p s' l :=
  h.traces (hsame.traces (p.only fun _ => False)) id

theorem MayStore.same (h : MayStore p s) (hsame : SameGrid s s') : MayStore p s' :=
  h.traces (hsame.traces p)

theorem Traces.silentL2 {i : Fin 4096} {w : Fin 16} {set : L2Set} (state : MESIState)
    (htag : set.tag = (s.l2 i).tag)
    (hstate : set.state = Function.update (s.l2 i).state w state)
    (hvalid : (s.l2 i).state w ≠ .invalid) (hne : state ≠ .invalid)
    (hsilent : state = (s.l2 i).state w ∨ MayHide p s (i, w)) : s.Traces p [] (s.setL2 i set) := by
  rcases hsilent with rfl | hsilent
  · exact (SameGrid.setL2 htag (by rw [hstate, Function.update_eq_self])).traces p
  · refine .of_act rfl rfl fun hc => ?_
    rw [grid_setL2 (w := w) s fun v hv => ⟨by rw [htag], by rw [hstate, Function.update_of_ne hv]⟩,
      htag, hstate, Function.update_self]
    exact .silentL2 (hsilent.silent hc) hvalid hne

end Sim

end CacheSimulator
