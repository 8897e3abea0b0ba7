import CacheSimulator.Refinement.Read

/-!
# Misses

The paths that bring a line in from memory. Room is made in both levels first,
then the line is filled into both, then the prefetcher runs.
-/

namespace CacheSimulator

open Mesi

theorem lineBase_eq (physicalAddress : Addr) :
    toLineBase physicalAddress = lineAddr (lineNo physicalAddress) :=
  (lineAddr_lineNo physicalAddress).symm

namespace Sim

variable {s s' s₁ s₂ s₃ : Sim} {a : LineNo} {c : CoreId} {k : L1Kind} {physicalAddress : Addr}
  {size : ℕ} {w : Fin 16}

theorem Inv.l1_eq_none (hs : s.Inv) (ha : (s.rep a).l2 = none) (k : L1Kind) (c : CoreId) :
    (s.rep a).l1 k c = none := by
  by_contra hne
  obtain ⟨e, he⟩ := (hs.lineOk a).inclusion hne
  rw [ha] at he
  cases he

/-- After both evictions the ways are free and the missing line is as it was. -/
theorem room_of_frees {i : Fin 4096} (hs : s.Inv) (ha : (s.rep a).l2 = none)
    (h₁ : FreesL2 s s₁) (hw : (s₁.l2 i).state w = .invalid) (h₂ : FreesL1 s₁ k c s₂) :
    Background s s₂ ∧ s₂.rep a = s.rep a ∧ (s₂.l2 i).state w = .invalid := by
  have hbg := h₁.background hs
  have hrep := h₁.rep_eq ha
  refine ⟨hbg.trans (h₂.background hbg.inv), ?_, (h₂.tags.state_eq_invalid i w).mpr hw⟩
  rw [h₂.rep_eq (hbg.inv.l1_eq_none (by rw [hrep, ha]) k c), hrep]

theorem memoryRead_spec (line : LineNo) (offset : ℕ) :
    (s.mem.read (64 * line + offset) size).Sat
      (fun data => data = ((List.range size).map fun j => s.mem.data (64 * line + offset + j)) ∧
        (offset + size ≤ 64 → data = Line.slice (s.rep line).mem offset size))
      fun _ => ¬64 * (line : ℕ) + offset + size ≤ s.mem.size.toNat := by
  unfold Memory.read
  split
  · refine ⟨rfl, fun hsize => ?_⟩
    apply List.ext_getElem
    · simp only [Line.slice, List.length_map, List.length_range, List.length_take,
        List.length_drop, List.length_ofFn]
      omega
    · intro j h₁ h₂
      simp only [Line.slice, List.getElem_map, List.getElem_range, List.getElem_take,
        List.getElem_drop, List.getElem_ofFn, rep, memLine, Nat.add_assoc]
  · rename_i h
    exact h

theorem accessFault_of_memoryRead {f : Fault} (hsize : s'.mem.size = s.mem.size)
    (h : ¬64 * (lineNo physicalAddress : ℕ) + l1ToOffset physicalAddress + size ≤
      s'.mem.size.toNat) : s.AccessFault physicalAddress size f := by
  intro hfits hin _
  rw [hsize] at h
  omega

/-- The line a read or a fetch has brought in from memory has the bytes memory
holds. -/
theorem reads_of_load {α : Action CoreId Store} {data : List Byte} {forgets : Prop}
    (hbg : Background s s₁) (hstored : α.stored = none) (hforgets : ¬α.Forgets)
    (hm : LineMove s₁ (lineNo physicalAddress) α s₂) (hbg' : Background s₂ s₃)
    (hclean : ¬(s₂.rep (lineNo physicalAddress)).view.Dirty)
    (hdata : data = ((List.range size).map fun j =>
        s₃.mem.data (64 * lineNo physicalAddress + l1ToOffset physicalAddress + j)) ∧
      (l1ToOffset physicalAddress + size ≤ 64 →
        data = Line.slice (s₃.rep (lineNo physicalAddress)).mem
          (l1ToOffset physicalAddress) size)) :
    s.Reads physicalAddress size forgets (s₃, some data) := by
  have hinv := (hm.evolves hbg.inv).inv
  have hperforms := Performs.of_move hbg hm hbg'
  rw [hstored] at hperforms
  refine ⟨hperforms.mono fun h => absurd h hforgets, fun hsize => ?_, fun _ => ?_⟩
  swap
  · rw [hdata.1, toNat_eq_line_add_offset physicalAddress]
  refine ⟨(s₃.rep (lineNo physicalAddress)).mem, .inr ⟨?_, rfl⟩, by rw [hdata.2 hsize]⟩
  -- no background move makes the line dirty
  obtain ⟨fs, hfs, hrun⟩ := hbg'
  exact (hrun.run s.mem.data).not_dirty (hinv.system _) (fun e he _ => (hfs e he).stored) hclean

/-- The end of a read or a fetch that has missed: the bytes are copied from
memory. -/
theorem reads_after_load {α : Action CoreId Store} {forgets : Prop}
    {f : PerfCounters → PerfCounters}
    (hbg : Background s s₁) (hstored : α.stored = none) (hforgets : ¬α.Forgets)
    (hm : LineMove s₁ (lineNo physicalAddress) α s₂) (hbg' : Background s₂ s₃)
    (ha : (s₁.rep (lineNo physicalAddress)).l2 = none) :
    Except.Sat (do
        let data ← (s₃.modifyPmc c f).mem.read ((lineAddr (lineNo physicalAddress)).toNat +
          l1ToOffset physicalAddress) size
        .ok (s₃.modifyPmc c f, some data))
      (s.Reads physicalAddress size forgets) (s.AccessFault physicalAddress size) := by
  have hend := hbg'.trans (.of_sameCaches hbg'.inv (.modifyPmc s₃ c f))
  have hsize : (s₃.modifyPmc c f).mem.size = s.mem.size := by
    rw [hend.size, hm.size, hbg.size]
  rw [lineAddr_toNat]
  refine ((memoryRead_spec _ _).mono (fun _ h => h) fun e he =>
    accessFault_of_memoryRead hsize he).bind fun data hdata => ?_
  refine reads_of_load hbg hstored hforgets hm hend ?_ hdata
  exact hm.move.not_dirty (hbg.inv.coherent _) hstored
    (not_dirty_of_l2_none (by rw [LineRep.view_l2, ha]; rfl))

theorem sole_data_view {x : LineRep} {m m' : Mode} {line : Line} :
    ((x.setL2 (some (L2Set.soleEntry m .data c line))).setL1 .data c (some (m', line))).view =
      { x.view with
        d := Function.update x.view.d c (some (m', line))
        l2 := some (m, line) } := rfl

theorem sole_instr_view {x : LineRep} {m m' : Mode} {line : Line} :
    ((x.setL2 (some (L2Set.soleEntry m .instr c line))).setL1 .instr c (some (m', line))).view =
      { x.view with
        i := Function.update x.view.i c (some line)
        l2 := some (m, line) } := by
  rw [LineRep.view_setL1_instr]
  rfl

/-- The prefetcher after the move that has filled the missing line. -/
theorem pfStream_after_move {α : Action CoreId Store} (hs : s.Inv) (hm : LineMove s a α s₁)
    (hin : 64 * (a : ℕ) + 64 ≤ s.mem.size.toNat) :
    (pfStreamOnMiss s₁ c (lineAddr a)).Sat (fun s₂ => LineMove s a α s₁ ∧ Background s₁ s₂)
      s.HugeMemory :=
  (pfStreamOnMiss_spec (hm.evolves hs).inv (by rw [hm.size]; exact hin)).mono
    (fun _ hbg => ⟨hm, hbg⟩) fun _ hf => hf.of_size hm.size

theorem pfNextline_after_move {α : Action CoreId Store} (hs : s.Inv) (hm : LineMove s a α s₁)
    (hin : 64 * (a : ℕ) + 64 ≤ s.mem.size.toNat) :
    (pfNextlineOnMiss s₁ (lineAddr a)).Sat (fun s₂ => LineMove s a α s₁ ∧ Background s₁ s₂)
      s.HugeMemory :=
  (pfNextlineOnMiss_spec (hm.evolves hs).inv (by rw [hm.size]; exact hin)).mono
    (fun _ hbg => ⟨hm, hbg⟩) fun _ hf => hf.of_size hm.size

theorem l2_eq_none_of_miss
    (hmiss : l2FindWay (s.l2 (l2ToIndex physicalAddress)) (l2ToTag physicalAddress) = none) :
    (s.rep (lineNo physicalAddress)).l2 = none := by
  rw [← l2Geometry_index_lineNo, ← l2Geometry_tag_lineNo] at hmiss
  exact l2_eq_none_of_find hmiss

/-- Both evictions of a miss succeed, and leave the missing line as it was. -/
theorem sat_makeRoom {β : Type} {rest : Sim × Fin 16 → Sim × Fin 8 → Except Fault β}
    {Q : β → Prop} {F : Fault → Prop} (hs : s.Inv) (ha : (s.rep a).l2 = none)
    (h : ∀ s₁ s₂ w v, evictL2 s (l2Geometry.index a) = .ok (s₁, w) →
      evictL1 k s₁ (l1Geometry.index a) c = .ok (s₂, v) →
      Background s s₂ → s₂.rep a = s.rep a → s₂.streams = s.streams →
      (s₂.l2 (l2Geometry.index a)).state w = .invalid →
      (s₂.l1 k c (l1Geometry.index a)).state v = .invalid → (rest (s₁, w) (s₂, v)).Sat Q F) :
    Except.Sat (do
        let l2Room ← evictL2 s (l2Geometry.index a)
        let l1Room ← evictL1 k l2Room.1 (l1Geometry.index a) c
        rest l2Room l1Room) Q F := by
  refine Except.Sat.bind (((Except.sat_returned _).and (evictL2_spec hs)).mono (fun r hr => hr)
    fun _ hf => hf.2.elim) fun r hr => ?_
  obtain ⟨s₁, w⟩ := r
  obtain ⟨hevict₁, hw, hfrees₁⟩ := hr
  have hinv₁ := (hfrees₁.background hs).inv
  refine Except.Sat.bind (((Except.sat_returned _).and (evictL1_spec hinv₁.placed fun b _ =>
    hinv₁.lineOk b)).mono (fun r hr => hr) fun _ hf => hf.2.elim) fun r hr => ?_
  obtain ⟨s₂, v⟩ := r
  obtain ⟨hevict₂, hv, hfrees₂⟩ := hr
  obtain ⟨hbg, hrep, hw₂⟩ := room_of_frees hs ha hfrees₁ hw hfrees₂
  exact h s₁ s₂ w v hevict₁ hevict₂ hbg hrep (hfrees₂.streams.trans hfrees₁.streams) hw₂ hv

/-- The rest of the fills of a data miss, once the line is in L2, and the events. -/
def fillDemand (s : Sim) (c : CoreId) (a : LineNo) (w : Fin 16) (v : Fin 8) (line : Line)
    (st : MESIState) : Sim :=
  let s := s.emit .l2Fill c 2 (l2Geometry.index a) w (lineAddr a) .invalid st (some line)
  let s := s.setL1 .data c (l1Geometry.index a)
    (l1CacheFill (s.l1 .data c (l1Geometry.index a)) (l1Geometry.tag a) v line st)
  let s := s.emit .l1dFill c 1 (l1Geometry.index a) v (lineAddr a) .invalid st (some line)
  s.emit .memFetch c 3 0 0 (lineAddr a) .invalid .invalid (some line)

def MakesBothRooms (k : L1Kind) (c : CoreId) (a : LineNo) (s s₂ : Sim) : Prop :=
  ∃ s₁ w v, evictL2 s (l2Geometry.index a) = .ok (s₁, w) ∧
    evictL1 k s₁ (l1Geometry.index a) c = .ok (s₂, v)

/-- A data miss makes room for line `a` in both levels, which leads to `s₂`, and fills
it into both, which leads to `s₄`. -/
def BringsIn (c : CoreId) (a : LineNo) (s s₂ s₄ : Sim) : Prop :=
  ∃ s₁ w v, evictL2 s (l2Geometry.index a) = .ok (s₁, w) ∧
    evictL1 .data s₁ (l1Geometry.index a) c = .ok (s₂, v) ∧
    ∃ history l2Set line st, s₄ = fillDemand
      { s₂.setL2 (l2Geometry.index a) l2Set with history := history } c a w v line st

/-- The fills of a read that misses, up to the prefetcher. -/
theorem readMiss_sat {Q : Sim × Option (List Byte) → Prop} {F : Fault → Prop} (hs : s.Inv)
    (hmiss : l2FindWay (s.l2 (l2ToIndex physicalAddress)) (l2ToTag physicalAddress) = none)
    (hbounds : ¬lineAddr (lineNo physicalAddress) + 64#64 > s.mem.size)
    (hout : ¬64 * (lineNo physicalAddress : ℕ) + 64 ≤ s.mem.size.toNat → F .lineOutOfMemory)
    (h : 64 * (lineNo physicalAddress : ℕ) + 64 ≤ s.mem.size.toNat → ∀ s₂ s₄,
      BringsIn c (lineNo physicalAddress) s s₂ s₄ → Background s s₂ →
      s₂.rep (lineNo physicalAddress) = s.rep (lineNo physicalAddress) →
      s₂.streams = s.streams → LineMove s₂ (lineNo physicalAddress) (.loadD c) s₄ →
      Except.Sat (do
        let s₅ ← pfStreamOnMiss s₄ c (lineAddr (lineNo physicalAddress))
        let s₆ := s₅.modifyPmc c fun pmc => { pmc with memFetches := pmc.memFetches + 1 }
        let data ← s₆.mem.read ((lineAddr (lineNo physicalAddress)).toNat +
          l1ToOffset physicalAddress) size
        .ok (s₆, some data)) Q F) :
    (readMiss s c physicalAddress size).Sat Q F := by
  unfold readMiss
  dsimp only
  simp only [← l1Geometry_index_lineNo physicalAddress, ← l1Geometry_tag_lineNo physicalAddress,
    ← l2Geometry_index_lineNo physicalAddress, ← l2Geometry_tag_lineNo physicalAddress,
    lineBase_eq]
  have ha := l2_eq_none_of_miss hmiss
  rw [if_neg hbounds]
  refine sat_makeRoom hs ha fun s₁ s₂ w v hevict₁ hevict₂ hbg hrep hstreams hw hv => ?_
  dsimp only
  by_cases hin : 64 * (lineNo physicalAddress : ℕ) + 64 ≤ s₂.mem.size.toNat
  · rw [readLine_lineAddr hin]
    obtain ⟨l2Set, hl2Set, hset⟩ := L2Set.fill_spec (hbg.inv.placed.free _) hw c
      (l2Geometry.tag (lineNo physicalAddress)) (s₂.rep (lineNo physicalAddress)).mem
      (MESIState.mode?_eq_exclusive.mpr rfl) .data
    change Except.Sat (l2CacheFill _ _ _ _ _ _ _ >>= _) _ _
    rw [hl2Set]
    refine h (by rwa [← hbg.size]) s₂
      (fillDemand ((s₂.setL2 _ l2Set).record _) c _ w v _ .exclusive)
      ⟨s₁, w, v, hevict₁, hevict₂, _, l2Set, _, .exclusive, rfl⟩ hbg hrep hstreams ?_
    exact lineMove_fill (k := .data) hbg.inv hin hw hv (by rw [hrep, ha]) hset
      (MESIState.mode?_eq_exclusive.mpr rfl) (by simp)
      ((SameCaches.emit _ _ _ _ _ _ _ _ _ _).trans (.emit _ _ _ _ _ _ _ _ _ _))
      (by rw [sole_data_view]; exact .loadD c (by rw [LineRep.view_l2, hrep, ha]; rfl))
      (by simpa using Records.load (.loadD c) trivial rfl)
  · rw [readLine_error hin]
    exact hout (by rwa [← hbg.size])

theorem readMiss_spec (hs : s.Inv)
    (hmiss : l2FindWay (s.l2 (l2ToIndex physicalAddress)) (l2ToTag physicalAddress) = none)
    (forgets : Prop) :
    (readMiss s c physicalAddress size).Sat (s.Reads physicalAddress size forgets)
      (s.AccessFault physicalAddress size) := by
  by_cases hbounds : lineAddr (lineNo physicalAddress) + 64#64 > s.mem.size
  · unfold readMiss
    dsimp only
    rw [lineBase_eq, if_pos hbounds]
    exact fun _ hin _ => absurd hbounds (not_lineAddr_add_gt hin)
  · refine readMiss_sat hs hmiss hbounds (fun hout _ hin _ => absurd hin hout)
      fun hin s₂ s₄ _ hbg hrep _ hm => ?_
    rw [← hbg.size] at hin
    refine ((pfStream_after_move hbg.inv hm hin).mono (fun r hr => hr)
      fun f hf => hf.accessFault hbg.size _ _).bind fun s₅ hs₅ => ?_
    obtain ⟨hmove, hbg'⟩ := hs₅
    exact reads_after_load hbg rfl id hmove hbg' (by rw [hrep, l2_eq_none_of_miss hmiss])

/-- The fills of a fetch that misses, up to the prefetcher, with the evictions before
them. -/
theorem fetchMiss_sat_rooms {Q : Sim × Option (List Byte) → Prop} {F : Fault → Prop} (hs : s.Inv)
    (hmiss : l2FindWay (s.l2 (l2ToIndex physicalAddress)) (l2ToTag physicalAddress) = none)
    (hbounds : ¬lineAddr (lineNo physicalAddress) + 64#64 > s.mem.size)
    (hout : ¬64 * (lineNo physicalAddress : ℕ) + 64 ≤ s.mem.size.toNat → F .lineOutOfMemory)
    (h : 64 * (lineNo physicalAddress : ℕ) + 64 ≤ s.mem.size.toNat → ∀ s₂ s₄,
      MakesBothRooms .instr c (lineNo physicalAddress) s s₂ → Background s s₂ →
      s₂.rep (lineNo physicalAddress) = s.rep (lineNo physicalAddress) →
      s₂.streams = s.streams → LineMove s₂ (lineNo physicalAddress) (.loadI c) s₄ →
      Except.Sat (do
        let s₅ ← pfNextlineOnMiss s₄ (lineAddr (lineNo physicalAddress))
        let s₆ := s₅.modifyPmc c fun pmc => { pmc with memFetches := pmc.memFetches + 1 }
        let data ← s₆.mem.read ((lineAddr (lineNo physicalAddress)).toNat +
          l1ToOffset physicalAddress) size
        .ok (s₆, some data)) Q F) :
    (fetchMiss s c physicalAddress size).Sat Q F := by
  unfold fetchMiss
  dsimp only
  simp only [← l1Geometry_index_lineNo physicalAddress, ← l1Geometry_tag_lineNo physicalAddress,
    ← l2Geometry_index_lineNo physicalAddress, ← l2Geometry_tag_lineNo physicalAddress,
    lineBase_eq]
  have ha := l2_eq_none_of_miss hmiss
  rw [if_neg hbounds]
  refine sat_makeRoom hs ha fun s₁ s₂ w v hevict₁ hevict₂ hbg hrep hstreams hw hv => ?_
  dsimp only
  by_cases hin : 64 * (lineNo physicalAddress : ℕ) + 64 ≤ s₂.mem.size.toNat
  · rw [readLine_lineAddr hin]
    obtain ⟨l2Set, hl2Set, hset⟩ := L2Set.fill_spec (hbg.inv.placed.free _) hw c
      (l2Geometry.tag (lineNo physicalAddress)) (s₂.rep (lineNo physicalAddress)).mem
      (MESIState.mode?_eq_exclusive.mpr rfl) .instr
    change Except.Sat (l2CacheFill _ _ _ _ _ _ _ >>= _) _ _
    rw [hl2Set]
    refine h (by rwa [← hbg.size]) s₂ _ ⟨s₁, w, v, hevict₁, hevict₂⟩ hbg hrep hstreams ?_
    exact lineMove_fill (k := .instr) hbg.inv hin hw hv (by rw [hrep, ha]) hset
      (MESIState.mode?_eq_shared.mpr rfl) (by simp) (.refl _)
      (by rw [sole_instr_view]; exact .loadI c (by rw [LineRep.view_l2, hrep, ha]; rfl))
      (by simpa using Records.load (.loadI c) trivial rfl)
  · rw [readLine_error hin]
    exact hout (by rwa [← hbg.size])

theorem fetchMiss_sat {Q : Sim × Option (List Byte) → Prop} {F : Fault → Prop} (hs : s.Inv)
    (hmiss : l2FindWay (s.l2 (l2ToIndex physicalAddress)) (l2ToTag physicalAddress) = none)
    (hbounds : ¬lineAddr (lineNo physicalAddress) + 64#64 > s.mem.size)
    (hout : ¬64 * (lineNo physicalAddress : ℕ) + 64 ≤ s.mem.size.toNat → F .lineOutOfMemory)
    (h : 64 * (lineNo physicalAddress : ℕ) + 64 ≤ s.mem.size.toNat → ∀ s₂ s₄, Background s s₂ →
      s₂.rep (lineNo physicalAddress) = s.rep (lineNo physicalAddress) →
      LineMove s₂ (lineNo physicalAddress) (.loadI c) s₄ →
      Except.Sat (do
        let s₅ ← pfNextlineOnMiss s₄ (lineAddr (lineNo physicalAddress))
        let s₆ := s₅.modifyPmc c fun pmc => { pmc with memFetches := pmc.memFetches + 1 }
        let data ← s₆.mem.read ((lineAddr (lineNo physicalAddress)).toNat +
          l1ToOffset physicalAddress) size
        .ok (s₆, some data)) Q F) :
    (fetchMiss s c physicalAddress size).Sat Q F :=
  fetchMiss_sat_rooms hs hmiss hbounds hout fun hin s₂ s₄ _ hbg hrep _ hm => h hin s₂ s₄ hbg hrep hm

theorem fetchMiss_spec (hs : s.Inv)
    (hmiss : l2FindWay (s.l2 (l2ToIndex physicalAddress)) (l2ToTag physicalAddress) = none) :
    (fetchMiss s c physicalAddress size).Sat (s.Reads physicalAddress size False)
      (s.AccessFault physicalAddress size) := by
  by_cases hbounds : lineAddr (lineNo physicalAddress) + 64#64 > s.mem.size
  · unfold fetchMiss
    dsimp only
    rw [lineBase_eq, if_pos hbounds]
    exact fun _ hin _ => absurd hbounds (not_lineAddr_add_gt hin)
  · refine fetchMiss_sat hs hmiss hbounds (fun hout _ hin _ => absurd hin hout)
      fun hin s₂ s₄ hbg hrep hm => ?_
    rw [← hbg.size] at hin
    refine ((pfNextline_after_move hbg.inv hm hin).mono (fun r hr => hr)
      fun f hf => hf.accessFault hbg.size _ _).bind fun s₅ hs₅ => ?_
    obtain ⟨hmove, hbg'⟩ := hs₅
    exact reads_after_load hbg rfl id hmove hbg' (by rw [hrep, l2_eq_none_of_miss hmiss])

/-- The fills of a write that misses, up to the prefetcher. -/
theorem writeMiss_sat {data : List Byte} {Q : Sim × Option (List Byte) → Prop} {F : Fault → Prop}
    (hs : s.Inv)
    (hmiss : l2FindWay (s.l2 (l2ToIndex physicalAddress)) (l2ToTag physicalAddress) = none)
    (hbounds : ¬lineAddr (lineNo physicalAddress) + 64#64 > s.mem.size)
    (hout : ¬64 * (lineNo physicalAddress : ℕ) + 64 ≤ s.mem.size.toNat → F .lineOutOfMemory)
    (hcross : ¬l1ToOffset physicalAddress + data.length ≤ 64 → F .outOfBounds)
    (h : 64 * (lineNo physicalAddress : ℕ) + 64 ≤ s.mem.size.toNat →
      l1ToOffset physicalAddress + data.length ≤ 64 → ∀ s₂ s₄,
      BringsIn c (lineNo physicalAddress) s s₂ s₄ → Background s s₂ →
      s₂.rep (lineNo physicalAddress) = s.rep (lineNo physicalAddress) →
      s₂.streams = s.streams →
      LineMove s₂ (lineNo physicalAddress) (.loadStore c (l1ToOffset physicalAddress, data)) s₄ →
      Except.Sat (do
        let s₅ ← pfStreamOnMiss s₄ c (lineAddr (lineNo physicalAddress))
        let s₆ := s₅.modifyPmc c fun pmc => { pmc with memFetches := pmc.memFetches + 1 }
        .ok (s₆, some [])) Q F) :
    (writeMiss s c physicalAddress data).Sat Q F := by
  unfold writeMiss
  dsimp only
  simp only [← l1Geometry_index_lineNo physicalAddress, ← l1Geometry_tag_lineNo physicalAddress,
    ← l2Geometry_index_lineNo physicalAddress, ← l2Geometry_tag_lineNo physicalAddress,
    lineBase_eq]
  have ha := l2_eq_none_of_miss hmiss
  rw [if_neg hbounds]
  by_cases hin : 64 * (lineNo physicalAddress : ℕ) + 64 ≤ s.mem.size.toNat
  · rw [readLine_lineAddr hin]
    change Except.Sat (Line.copyIn _ _ _ >>= _) _ _
    unfold Line.copyIn
    split
    · rename_i hfits
      refine sat_makeRoom hs ha fun s₁ s₂ w v hevict₁ hevict₂ hbg hrep hstreams hw hv => ?_
      dsimp only
      have hin₂ := hin
      rw [← hbg.size] at hin₂
      -- the line read before the evictions is the line in memory after them
      rw [← hrep]
      obtain ⟨l2Set, hl2Set, hset⟩ := L2Set.fill_spec (hbg.inv.placed.free _) hw c
        (l2Geometry.tag (lineNo physicalAddress))
        (Line.overlay (s₂.rep (lineNo physicalAddress)).mem (l1ToOffset physicalAddress) data)
        (MESIState.mode?_eq_modified.mpr rfl) .data
      rw [hl2Set]
      have hrecords : Records s₂.history (lineNo physicalAddress)
          (s₂.rep (lineNo physicalAddress)).mem
          (.loadStore c (l1ToOffset physicalAddress, data)) _ :=
        .loadStore _ physicalAddress data rfl hfits trivial rfl
      refine h hin hfits s₂
        (fillDemand (((s₂.setL2 _ l2Set).record _).record _) c _ w v _ .modified)
        ⟨s₁, w, v, hevict₁, hevict₂, _, l2Set, _, .modified, rfl⟩ hbg hrep hstreams ?_
      exact lineMove_fill (k := .data) hbg.inv hin₂ hw hv (by rw [hrep, ha]) hset
        (MESIState.mode?_eq_modified.mpr rfl) (by simp)
        ((SameCaches.emit _ _ _ _ _ _ _ _ _ _).trans (.emit _ _ _ _ _ _ _ _ _ _))
        (by
          rw [sole_data_view]
          exact .loadStore c _ (by rw [LineRep.view_l2, hrep, ha]; rfl))
        (by simpa using hrecords)
    · rename_i hfits
      exact hcross hfits
  · rw [readLine_error hin]
    exact hout hin

theorem writeMiss_spec {data : List Byte} (hs : s.Inv)
    (hmiss : l2FindWay (s.l2 (l2ToIndex physicalAddress)) (l2ToTag physicalAddress) = none) :
    (writeMiss s c physicalAddress data).Sat (s.Writes physicalAddress data)
      (s.AccessFault physicalAddress data.length) := by
  by_cases hbounds : lineAddr (lineNo physicalAddress) + 64#64 > s.mem.size
  · unfold writeMiss
    dsimp only
    rw [lineBase_eq, if_pos hbounds]
    exact fun _ hin _ => absurd hbounds (not_lineAddr_add_gt hin)
  · refine writeMiss_sat hs hmiss hbounds (fun hout _ hin _ => absurd hin hout)
      (fun hfits => accessFault_of_crossing hfits) fun hin hfits s₂ s₄ _ hbg _ _ hm => ?_
    rw [← hbg.size] at hin
    refine ((pfStream_after_move hbg.inv hm hin).mono (fun r hr => hr)
      fun f hf => hf.accessFault hbg.size _ _).bind fun s₅ hs₅ => ?_
    obtain ⟨hmove, hbg'⟩ := hs₅
    refine ⟨.of_move hbg hmove (hbg'.trans (.of_sameCaches hbg'.inv ?_)), hfits, rfl⟩
    dsimp only
    exact .modifyPmc s₅ c _

end Sim

end CacheSimulator
