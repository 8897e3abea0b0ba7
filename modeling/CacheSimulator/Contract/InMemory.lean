import CacheSimulator.Contract.Residence
import CacheSimulator.Refinement.Call
import CacheSimulator.Prefetching.Window

/-!
# Accesses to physical memory

The page walk dereferences only tables that lie in memory. A line copy can leave
memory in one case: the bounds checks compute `line + LINE_SIZE` in 64 bits, so
the last line of the address space passes them.
-/

namespace CacheSimulator

/-! ## The page walk -/

/-- `reinterpret_cast<PageTable *>(&mem->data[pa])` of a table inside memory. -/
def Memory.tableAt (mem : Memory) (pa : Addr) : Except Fault PageTable :=
  if pa.toNat + pageTableSize ≤ mem.size.toNat then .ok (mem.pageTableAt pa)
  else .error .outOfBounds

/-- The level loop of `page_walk`, stopped by a dereference outside memory. -/
def checkedWalkFrom (mem : Memory) (virtualAddress : Addr) :
    ℕ → PageTable → Except Fault (Option Addr)
  | 0, table => .ok (pageWalkFrom mem virtualAddress 0 table)
  | level + 1, table =>
      let entry := table (pageIndex virtualAddress (level + 1))
      if !entry.present then .ok none
      else if mem.size.toNat < pageTableSize ∨
          entry.physicalAddress > mem.size - BitVec.ofNat 64 pageTableSize then .ok none
      else do
        let next ← mem.tableAt entry.physicalAddress
        checkedWalkFrom mem virtualAddress level next

theorem tableAt_of_check {mem : Memory} {pa : Addr}
    (h : ¬(mem.size.toNat < pageTableSize ∨ pa > mem.size - BitVec.ofNat 64 pageTableSize)) :
    mem.tableAt pa = .ok (mem.pageTableAt pa) := by
  rw [not_or, gt_iff_lt, BitVec.lt_def, BitVec.toNat_sub] at h
  simp only [BitVec.toNat_ofNat] at h
  obtain ⟨hsize, hpa⟩ := h
  have hlt := mem.size.isLt
  rw [Memory.tableAt, if_pos]
  omega

theorem checkedWalkFrom_eq (mem : Memory) (virtualAddress : Addr) (level : ℕ) (table : PageTable) :
    checkedWalkFrom mem virtualAddress level table =
      .ok (pageWalkFrom mem virtualAddress level table) := by
  induction level generalizing table with
  | zero => rfl
  | succ level ih =>
      unfold checkedWalkFrom pageWalkFrom
      dsimp only
      split
      · rfl
      · split
        · rfl
        · rename_i hcheck
          rw [tableAt_of_check hcheck]
          exact ih _

/-! ## Hits -/

theorem Line.copyIn_inside (line : Line) (offset : ℕ) (data : List Byte) :
    (line.copyIn offset data).Sat (fun _ => True) Fault.Inside := by
  unfold Line.copyIn
  split
  · exact trivial
  · exact Fault.inside (by simp)

theorem Line.copyOut_inside (line : Line) (offset size : ℕ) :
    (line.copyOut offset size).Sat (fun _ => True) Fault.Inside := by
  unfold Line.copyOut
  split
  · exact trivial
  · exact Fault.inside (by simp)

theorem Memory.read_inside (mem : Memory) (start size : ℕ) :
    (mem.read start size).Sat (fun _ => True) Fault.Inside := by
  unfold Memory.read
  split
  · exact trivial
  · exact Fault.inside (by simp)

theorem l1CacheReadWay_inside (set : L1Set) (w : Fin 8) (offset size : ℕ) :
    (l1CacheReadWay set w offset size).Sat (fun _ => True) Fault.Inside := by
  unfold l1CacheReadWay
  split
  · exact trivial
  · exact Fault.inside (by simp)

theorem l1CacheWriteWay_inside (set : L1Set) (w : Fin 8) (offset : ℕ) (data : List Byte) :
    (l1CacheWriteWay set w offset data).Sat (fun _ => True) Fault.Inside := by
  unfold l1CacheWriteWay
  split
  · exact trivial
  · exact Fault.inside (by simp)

/-- A loop over sharers whose rounds stop for other reasons only does so too. -/
theorem forEachSharer_inside {σ : Type} {body : CoreId → σ → Except Fault σ} {mask : BitVec 8}
    {t : σ} (h : ∀ c u, (body c u).Sat (fun _ => True) Fault.Inside) :
    (forEachSharer body 8 mask t).Sat (fun _ => True) Fault.Inside :=
  forEachSharer_keeps (Fault.inside (by simp)) (fun c u _ _ => h c u) 8 trivial

namespace Sim

variable {s s' : Sim} {c : CoreId} {physicalAddress : Addr} {size : ℕ} {data : List Byte}

theorem snoopDowngradePeers_inside {sharers : BitVec 8} {i : Fin 64} {tag : Addr} {line : Line}
    {j : Fin 4096} {w : Fin 16} :
    (snoopDowngradePeers s sharers i tag line j w).Sat (fun _ => True) Fault.Inside := by
  refine forEachSharer_inside fun b t => ?_
  unfold snoopDowngradePeer
  dsimp only
  split <;> exact trivial

theorem snoopInvalidatePeersI_inside {sharers : BitVec 8} {i : Fin 64} {tag : Addr} :
    (snoopInvalidatePeersI s sharers i tag).Sat (fun _ => True) Fault.Inside := by
  refine forEachSharer_inside fun b t => ?_
  unfold snoopInvalidatePeerI
  dsimp only
  split <;> exact trivial

theorem snoopInvalidatePeers_inside {sharers : BitVec 8} {i : Fin 64} {tag : Addr}
    {lineOut : Option Line} {j : Fin 4096} {w : Fin 16} :
    (snoopInvalidatePeers s sharers i tag lineOut j w).Sat (fun _ => True) Fault.Inside :=
  forEachSharer_inside fun _ _ => trivial

theorem busRead_inside {k : L1Kind} {w : Fin 16} :
    (busRead k s c physicalAddress w).Sat (fun _ => True) Fault.Inside := by
  unfold busRead
  dsimp only
  split
  · exact snoopDowngradePeers_inside.bind fun _ _ => trivial
  · exact trivial

theorem upgradeShared_inside {oldL1 : MESIState} {w : Fin 16} :
    (upgradeShared s c physicalAddress oldL1 w).Sat (fun _ => True) Fault.Inside := by
  unfold upgradeShared
  split
  · exact snoopInvalidatePeers_inside.bind fun _ _ => trivial
  · exact trivial

theorem readL1Hit_inside {w : Fin 8} :
    (readL1Hit s c physicalAddress w size).Sat (fun _ => True) Fault.Inside :=
  (l1CacheReadWay_inside _ _ _ _).bind fun _ _ => trivial

theorem readL2Hit_inside {w : Fin 16} :
    (readL2Hit s c physicalAddress w size).Sat (fun _ => True) Fault.Inside :=
  evictL1_keeps.bind fun _ _ => busRead_inside.bind fun _ _ =>
    (Line.copyOut_inside _ _ _).bind fun _ _ => trivial

theorem writeL1Hit_inside {w : Fin 8} :
    (writeL1Hit s c physicalAddress w data).Sat (fun _ => True) Fault.Inside := by
  unfold writeL1Hit
  dsimp only
  split
  · exact Fault.inside (by simp)
  · exact upgradeShared_inside.bind fun _ _ => snoopInvalidatePeersI_inside.bind fun _ _ =>
      (l1CacheWriteWay_inside _ _ _ _).bind fun _ _ => trivial

theorem writeL2Hit_inside {w : Fin 16} :
    (writeL2Hit s c physicalAddress w data).Sat (fun _ => True) Fault.Inside :=
  snoopInvalidatePeers_inside.bind fun _ _ => (Line.copyIn_inside _ _ _).bind fun _ _ =>
    evictL1_keeps.bind fun _ _ => snoopInvalidatePeersI_inside.bind fun _ _ => trivial

theorem fetchL1Hit_inside {w : Fin 8} :
    (fetchL1Hit s c physicalAddress w size).Sat (fun _ => True) Fault.Inside :=
  (l1CacheReadWay_inside _ _ _ _).bind fun _ _ => trivial

theorem fetchL2Hit_inside {w : Fin 16} :
    (fetchL2Hit s c physicalAddress w size).Sat (fun _ => True) Fault.Inside := by
  unfold fetchL2Hit
  dsimp only
  split
  · exact Fault.inside (by simp)
  · exact evictL1_keeps.bind fun _ _ => busRead_inside.bind fun _ _ =>
      (Line.copyOut_inside _ _ _).bind fun _ _ => trivial

/-! ## Misses -/

theorem l2CacheFill_inside (set : L2Set) (tag : Addr) (w : Fin 16) (line : Line)
    (state : MESIState) (k : L1Kind) :
    (l2CacheFill set c tag w line state k).Sat
      (fun set' => set'.tag = Function.update set.tag w tag ∧
        ∀ v, v ≠ w → set'.state v = set.state v) Fault.Inside := by
  unfold l2CacheFill
  split
  · exact Fault.inside (by simp)
  · cases k
    · exact ⟨rfl, fun v hv => Function.update_of_ne hv _ _⟩
    · exact ⟨rfl, fun v hv => Function.update_of_ne hv _ _⟩

def DemandPasses (s : Sim) (physicalAddress : Addr) : Prop :=
  ¬toLineBase physicalAddress + 64#64 > s.mem.size

theorem LinesInMemory.after_fill {t u : Sim} {v : Fin 16} {set : L2Set} (hs : s.LinesInMemory)
    (hin : (toLineBase physicalAddress).toNat + 64 ≤ s.mem.size.toNat) (ht : KeepsLines s t)
    (hset : set.tag = Function.update (t.l2 (l2ToIndex physicalAddress)).tag v
        (l2ToTag physicalAddress) ∧
      ∀ w, w ≠ v → set.state w = (t.l2 (l2ToIndex physicalAddress)).state w)
    (hu : KeepsLines (t.setL2 (l2ToIndex physicalAddress) set) u) : u.LinesInMemory := by
  rw [← ht.size] at hin
  exact ((hs.keep ht).fill hin hset.1 hset.2).keep hu

/-- The prefetcher after the fills of a read or a write that misses. -/
theorem pfStream_after_fill {t u : Sim} {v : Fin 16} {set : L2Set} (hs : s.LinesInMemory)
    (hin : (toLineBase physicalAddress).toNat + 64 ≤ s.mem.size.toNat)
    (hstream : ¬s.StreamWraps c (toLineBase physicalAddress)) (ht : KeepsLines s t)
    (hset : set.tag = Function.update (t.l2 (l2ToIndex physicalAddress)).tag v
        (l2ToTag physicalAddress) ∧
      ∀ w, w ≠ v → set.state w = (t.l2 (l2ToIndex physicalAddress)).state w)
    (hu : KeepsLines (t.setL2 (l2ToIndex physicalAddress) set) u) :
    (pfStreamOnMiss u c (toLineBase physicalAddress)).Sat (fun _ => True) Fault.Inside := by
  refine pfStreamOnMiss_inside (hs.after_fill hin ht hset hu) ?_
  rwa [StreamWraps.congr (hu.size.trans ht.size) (hu.streams.trans ht.streams)]

theorem readMiss_inside (hs : s.LinesInMemory)
    (h : s.DemandPasses physicalAddress → ¬Wraps (toLineBase physicalAddress) ∧
      ¬s.StreamWraps c (toLineBase physicalAddress)) :
    (readMiss s c physicalAddress size).Sat (fun _ => True) Fault.Inside := by
  unfold readMiss
  dsimp only
  split
  · exact Fault.inside (by simp)
  rename_i hpasses
  obtain ⟨hwraps, hstream⟩ := h hpasses
  have hin := toNat_of_passes hpasses hwraps
  refine (evictL2_keeps hs).bind fun r hr => evictL1_keeps.bind fun r' hr' => ?_
  have hkeeps := hr.trans hr'
  rw [Memory.readLine, if_pos (by rwa [hkeeps.size])]
  refine (l2CacheFill_inside _ _ _ _ _ _).bind fun set hset => ?_
  refine (pfStream_after_fill hs hin hstream hkeeps hset ?_).bind fun _ _ =>
    (Memory.read_inside _ _ _).bind fun _ _ => trivial
  refine KeepsLines.trans (KeepsLines.trans ?_ (.setL1 ..))
    (.of_sameCaches (.trans (.emit ..) (.emit ..)))
  exact KeepsLines.trans (.record ..) (.of_sameCaches (.emit ..))

theorem writeMiss_inside (hs : s.LinesInMemory)
    (h : s.DemandPasses physicalAddress → ¬Wraps (toLineBase physicalAddress) ∧
      (l1ToOffset physicalAddress + data.length ≤ 64 →
        ¬s.StreamWraps c (toLineBase physicalAddress))) :
    (writeMiss s c physicalAddress data).Sat (fun _ => True) Fault.Inside := by
  unfold writeMiss
  dsimp only
  split
  · exact Fault.inside (by simp)
  rename_i hpasses
  obtain ⟨hwraps, hstream⟩ := h hpasses
  have hin := toNat_of_passes hpasses hwraps
  rw [Memory.readLine, if_pos hin]
  change Except.Sat (Line.copyIn _ _ _ >>= _) _ _
  unfold Line.copyIn
  split
  swap
  · exact Fault.inside (by simp)
  rename_i hfits
  refine (evictL2_keeps hs).bind fun r hr => evictL1_keeps.bind fun r' hr' => ?_
  refine (l2CacheFill_inside _ _ _ _ _ _).bind fun set hset => ?_
  refine (pfStream_after_fill hs hin (hstream hfits) (hr.trans hr') hset ?_).bind
    fun _ _ => trivial
  refine KeepsLines.trans (KeepsLines.trans ?_ (.setL1 ..))
    (.of_sameCaches (.trans (.emit ..) (.emit ..)))
  exact KeepsLines.trans (.trans (.record ..) (.record ..)) (.of_sameCaches (.emit ..))

theorem fetchMiss_inside (hs : s.LinesInMemory)
    (h : s.DemandPasses physicalAddress → ¬Wraps (toLineBase physicalAddress) ∧
      ¬s.NextlineWraps (toLineBase physicalAddress)) :
    (fetchMiss s c physicalAddress size).Sat (fun _ => True) Fault.Inside := by
  unfold fetchMiss
  dsimp only
  split
  · exact Fault.inside (by simp)
  rename_i hpasses
  obtain ⟨hwraps, hnext⟩ := h hpasses
  have hin := toNat_of_passes hpasses hwraps
  refine (evictL2_keeps hs).bind fun r hr => evictL1_keeps.bind fun r' hr' => ?_
  have hkeeps := hr.trans hr'
  rw [Memory.readLine, if_pos (by rwa [hkeeps.size])]
  refine (l2CacheFill_inside _ _ _ _ _ _).bind fun set hset => ?_
  refine (pfNextlineOnMiss_inside (hs.after_fill hin hkeeps hset ?_) ?_).bind
    fun _ _ => (Memory.read_inside _ _ _).bind fun _ _ => trivial
  · exact KeepsLines.trans (.record ..) (.setL1 ..)
  · unfold NextlineWraps at hnext ⊢
    rwa [← hkeeps.size] at hnext

/-! ## Overflowing misses -/

theorem not_wraps_of_in (hin : 64 * (lineNo physicalAddress : ℕ) + 64 ≤ s.mem.size.toNat) :
    ¬Wraps (lineAddr (lineNo physicalAddress)) :=
  InMemory.not_wraps ⟨_, rfl, hin⟩

theorem readMiss_wraps (hs : s.Inv)
    (hmiss : l2FindWay (s.l2 (l2ToIndex physicalAddress)) (l2ToTag physicalAddress) = none)
    (hpasses : s.DemandPasses physicalAddress)
    (h : Wraps (toLineBase physicalAddress) ∨ s.StreamWraps c (toLineBase physicalAddress)) :
    (readMiss s c physicalAddress size).Sat (fun _ => False) (· = .lineOutOfMemory) := by
  rw [DemandPasses, lineBase_eq] at hpasses
  rw [lineBase_eq] at h
  refine readMiss_sat hs hmiss hpasses (fun _ => rfl) fun hin s₂ s₄ _ hbg _ hstreams hm => ?_
  have hstream := h.resolve_left (not_wraps_of_in hin)
  have hsize := hm.size.trans hbg.size
  refine (pfStreamOnMiss_wraps (hm.evolves hbg.inv).inv (by rwa [hsize]) ?_).bind
    fun _ hr => hr.elim
  rwa [StreamWraps.congr hsize (hm.streams.trans hstreams)]

theorem writeMiss_wraps (hs : s.Inv)
    (hmiss : l2FindWay (s.l2 (l2ToIndex physicalAddress)) (l2ToTag physicalAddress) = none)
    (hpasses : s.DemandPasses physicalAddress)
    (h : Wraps (toLineBase physicalAddress) ∨ l1ToOffset physicalAddress + data.length ≤ 64 ∧
      s.StreamWraps c (toLineBase physicalAddress)) :
    (writeMiss s c physicalAddress data).Sat (fun _ => False) (· = .lineOutOfMemory) := by
  rw [DemandPasses, lineBase_eq] at hpasses
  rw [lineBase_eq] at h
  by_cases hin : 64 * (lineNo physicalAddress : ℕ) + 64 ≤ s.mem.size.toNat
  · obtain ⟨hfits, hstream⟩ := h.resolve_left (not_wraps_of_in hin)
    refine writeMiss_sat hs hmiss hpasses (fun _ => rfl) (fun hcross => absurd hfits hcross)
      fun _ _ s₂ s₄ _ hbg _ hstreams hm => ?_
    have hsize := hm.size.trans hbg.size
    refine (pfStreamOnMiss_wraps (hm.evolves hbg.inv).inv (by rwa [hsize]) ?_).bind
      fun _ hr => hr.elim
    rwa [StreamWraps.congr hsize (hm.streams.trans hstreams)]
  · -- the line is read before its bytes are overlaid
    unfold writeMiss
    dsimp only
    rw [lineBase_eq, if_neg hpasses, readLine_error hin]
    exact rfl

theorem fetchMiss_wraps (hs : s.Inv)
    (hmiss : l2FindWay (s.l2 (l2ToIndex physicalAddress)) (l2ToTag physicalAddress) = none)
    (hpasses : s.DemandPasses physicalAddress)
    (h : Wraps (toLineBase physicalAddress) ∨ s.NextlineWraps (toLineBase physicalAddress)) :
    (fetchMiss s c physicalAddress size).Sat (fun _ => False) (· = .lineOutOfMemory) := by
  rw [DemandPasses, lineBase_eq] at hpasses
  rw [lineBase_eq] at h
  refine fetchMiss_sat hs hmiss hpasses (fun _ => rfl) fun hin s₂ s₄ hbg _ hm => ?_
  have hnext := h.resolve_left (not_wraps_of_in hin)
  have hsize := hm.size.trans hbg.size
  refine (pfNextlineOnMiss_wraps (hm.evolves hbg.inv).inv (by rwa [hsize]) ?_).bind
    fun _ hr => hr.elim
  unfold NextlineWraps at hnext ⊢
  rwa [hsize]

def Misses (s : Sim) (k : L1Kind) (c : CoreId) (physicalAddress : Addr) : Prop :=
  findL1Way (s.l1 k c (l1ToIndex physicalAddress)) (l1ToTag physicalAddress) = none ∧
    l2FindWay (s.l2 (l2ToIndex physicalAddress)) (l2ToTag physicalAddress) = none

end Sim

/-! ## Calls -/

open Sim

namespace Call

variable {s s' : Sim} {call : Call} {physicalAddress : Addr}

/-- A miss at `physicalAddress` reaches the last line of the address space, on
demand or by a prefetch. -/
def OverflowsAt (call : Call) (s : Sim) (physicalAddress : Addr) : Prop :=
  match call with
  | read c _ _ => s.Misses .data c physicalAddress ∧ s.DemandPasses physicalAddress ∧
      (Wraps (toLineBase physicalAddress) ∨ s.StreamWraps c (toLineBase physicalAddress))
  | write c _ data => s.Misses .data c physicalAddress ∧ s.DemandPasses physicalAddress ∧
      (Wraps (toLineBase physicalAddress) ∨ l1ToOffset physicalAddress + data.length ≤ 64 ∧
        s.StreamWraps c (toLineBase physicalAddress))
  | fetch c _ _ => s.Misses .instr c physicalAddress ∧ s.DemandPasses physicalAddress ∧
      (Wraps (toLineBase physicalAddress) ∨ s.NextlineWraps (toLineBase physicalAddress))

/-- The call reaches the last line of the address space. -/
def Overflows (call : Call) (s : Sim) : Prop :=
  ∃ physicalAddress ∈ call.physicalAddress s, call.OverflowsAt s physicalAddress

theorem OverflowsAt.congr (hsame : SameCaches s s') :
    call.OverflowsAt s' physicalAddress ↔ call.OverflowsAt s physicalAddress := by
  have hstream : ∀ c line, s'.StreamWraps c line ↔ s.StreamWraps c line := fun _ _ =>
    StreamWraps.congr (congrArg Memory.size hsame.mem) hsame.streams
  unfold OverflowsAt Misses DemandPasses
  cases call with
  | read c _ _ => simp only [hsame.l1, hsame.l2, hsame.mem, hstream]
  | write c _ _ => simp only [hsame.l1, hsame.l2, hsame.mem, hstream]
  | fetch c _ _ => simp only [hsame.l1, hsame.l2, hsame.mem, NextlineWraps]

/-- A call that does not overflow a bounds check copies no line outside memory. -/
theorem exec_inside (hs : s.LinesInMemory) (h : ¬call.Overflows s) :
    (call.exec s).Sat (fun _ => True) Fault.Inside := by
  cases hpa : call.physicalAddress s with
  | none =>
      obtain ⟨s', hexec, -⟩ := exec_pageFault hpa
      rw [hexec]
      exact trivial
  | some pa =>
      have hat : ¬call.OverflowsAt s pa := fun hat => h ⟨pa, hpa, hat⟩
      cases call with
      | read c virtualAddress size =>
          have hsame := SameCaches.translateData s c virtualAddress
          have hlines := hs.keep (.of_sameCaches hsame)
          rw [← OverflowsAt.congr hsame] at hat
          rw [exec, cpuRead, show translateData s c virtualAddress = (some pa, _) from
            Prod.ext hpa rfl]
          dsimp only
          split
          · exact readL1Hit_inside
          · rename_i hl1
            split
            · exact readL2Hit_inside
            · rename_i hl2
              exact readMiss_inside hlines fun hpasses => not_or.mp fun hwraps =>
                hat ⟨⟨hl1, hl2⟩, hpasses, hwraps⟩
      | write c virtualAddress data =>
          have hsame := SameCaches.translateData s c virtualAddress
          have hlines := hs.keep (.of_sameCaches hsame)
          rw [← OverflowsAt.congr hsame] at hat
          rw [exec, cpuWrite, show translateData s c virtualAddress = (some pa, _) from
            Prod.ext hpa rfl]
          dsimp only
          split
          · exact writeL1Hit_inside
          · rename_i hl1
            split
            · exact writeL2Hit_inside
            · rename_i hl2
              refine writeMiss_inside hlines fun hpasses => ?_
              exact ⟨fun hwraps => hat ⟨⟨hl1, hl2⟩, hpasses, .inl hwraps⟩,
                fun hfits hstream => hat ⟨⟨hl1, hl2⟩, hpasses, .inr ⟨hfits, hstream⟩⟩⟩
      | fetch c virtualAddress size =>
          have hsame := SameCaches.translateInstr s c virtualAddress
          have hlines := hs.keep (.of_sameCaches hsame)
          rw [← OverflowsAt.congr hsame] at hat
          rw [exec, cpuFetch, show translateInstr s c virtualAddress = (some pa, _) from
            Prod.ext hpa rfl]
          dsimp only
          split
          · exact fetchL1Hit_inside
          · rename_i hl1
            split
            · exact fetchL2Hit_inside
            · rename_i hl2
              exact fetchMiss_inside hlines fun hpasses => not_or.mp fun hwraps =>
                hat ⟨⟨hl1, hl2⟩, hpasses, hwraps⟩

/-- In a state with sound bookkeeping, a call that overflows a bounds check
copies a line from outside memory. -/
theorem exec_overflows (hs : s.Inv) (h : call.Overflows s) :
    call.exec s = .error .lineOutOfMemory := by
  suffices hsat : (call.exec s).Sat (fun _ => False) (· = .lineOutOfMemory) by
    cases hexec : call.exec s with
    | ok r => exact (hsat.of_eq_ok hexec).elim
    | error f => exact congrArg Except.error (hsat.of_eq_error hexec)
  obtain ⟨pa, hpa, hat⟩ := h
  rw [Option.mem_def] at hpa
  cases call with
  | read c virtualAddress size =>
      have hsame := SameCaches.translateData s c virtualAddress
      rw [← OverflowsAt.congr hsame] at hat
      obtain ⟨⟨hl1, hl2⟩, hpasses, hwraps⟩ := hat
      rw [exec, cpuRead, show translateData s c virtualAddress = (some pa, _) from
            Prod.ext hpa rfl]
      dsimp only
      rw [hl1, hl2]
      exact readMiss_wraps (hs.congr hsame) hl2 hpasses hwraps
  | write c virtualAddress data =>
      have hsame := SameCaches.translateData s c virtualAddress
      rw [← OverflowsAt.congr hsame] at hat
      obtain ⟨⟨hl1, hl2⟩, hpasses, hwraps⟩ := hat
      rw [exec, cpuWrite, show translateData s c virtualAddress = (some pa, _) from
            Prod.ext hpa rfl]
      dsimp only
      rw [hl1, hl2]
      exact writeMiss_wraps (hs.congr hsame) hl2 hpasses hwraps
  | fetch c virtualAddress size =>
      have hsame := SameCaches.translateInstr s c virtualAddress
      rw [← OverflowsAt.congr hsame] at hat
      obtain ⟨⟨hl1, hl2⟩, hpasses, hwraps⟩ := hat
      rw [exec, cpuFetch, show translateInstr s c virtualAddress = (some pa, _) from
            Prod.ext hpa rfl]
      dsimp only
      rw [hl1, hl2]
      exact fetchMiss_wraps (hs.congr hsame) hl2 hpasses hwraps

end Call

section Decidability

instance (line : Addr) : Decidable (Wraps line) := inferInstanceAs (Decidable (_ ≤ _))

instance decidableBurstWraps (size missLine : Addr) (stride : BitVec 64) :
    (fuel : ℕ) → (head : Addr) → Decidable (BurstWraps size missLine stride fuel head)
  | 0, _ => .isFalse id
  | fuel + 1, head =>
      have := decidableBurstWraps size missLine stride fuel (head + stride * 64#64)
      inferInstanceAs (Decidable (_ ∧ _ ∧ (_ ∨ _)))

instance (s : Sim) (c : CoreId) (missLine : Addr) : Decidable (s.StreamWraps c missLine) :=
  Call.decidableExistsMem _

instance (s : Sim) (missLine : Addr) : Decidable (s.NextlineWraps missLine) :=
  inferInstanceAs (Decidable (_ ∧ _))

instance (s : Sim) (k : L1Kind) (c : CoreId) (physicalAddress : Addr) :
    Decidable (s.Misses k c physicalAddress) := inferInstanceAs (Decidable (_ ∧ _))

instance (s : Sim) (physicalAddress : Addr) : Decidable (s.DemandPasses physicalAddress) :=
  inferInstanceAs (Decidable (¬_))

instance (call : Call) (s : Sim) (physicalAddress : Addr) :
    Decidable (call.OverflowsAt s physicalAddress) :=
  match call with
  | .read _ _ _ => inferInstanceAs (Decidable (_ ∧ _ ∧ (_ ∨ _)))
  | .write _ _ _ => inferInstanceAs (Decidable (_ ∧ _ ∧ (_ ∨ _ ∧ _)))
  | .fetch _ _ _ => inferInstanceAs (Decidable (_ ∧ _ ∧ (_ ∨ _)))

instance (call : Call) (s : Sim) : Decidable (call.Overflows s) := Call.decidableExistsMem _

end Decidability

variable {s : Sim} {call : Call}

/-- Some run of the simulator leads to the state. -/
def Sim.Reachable (s : Sim) : Prop :=
  ∃ s₀ trace, Sim.EmptyCaches s₀ ∧ Run Call.Any s₀ trace s

/-- From resident lines in memory, the page walk stays in memory, and so do the
line copies of a call that does not overflow a bounds check. In a reachable state
one that does leaves memory. -/
theorem Call.exec_inMemory (hs : s.LinesInMemory) :
    (∀ pml4 virtualAddress, checkedWalkFrom s.mem virtualAddress 3 pml4 =
        .ok (pageWalk pml4 s.mem virtualAddress)) ∧
      (¬call.Overflows s → call.exec s ≠ .error .lineOutOfMemory) ∧
      (s.Reachable → call.Overflows s → call.exec s = .error .lineOutOfMemory) := by
  refine ⟨fun pml4 virtualAddress => checkedWalkFrom_eq _ _ _ _, fun h hexec => ?_, ?_⟩
  · exact (exec_inside hs h).of_eq_error hexec rfl
  · rintro ⟨s₀, trace, h₀, hrun⟩ h
    exact exec_overflows (hrun.inv h₀) h

theorem Sim.EmptyCaches.linesInMemory (h : s.EmptyCaches) : s.LinesInMemory :=
  fun i w hw => absurd (h.l2 i w) hw

/-- A memory with the tables of `conflictMemory`, in which page 0 is the last page
of the address space. -/
def topMemory : Memory where
  size := 0x540000#64
  data n :=
    if 0x14001 ≤ n ∧ n < 0x14008 then if n = 0x14001 then 0xF0 else 0xFF
    else conflictMemory.data n

def topMachine : Sim := .initial topMemory conflictPml4 false

/-- A read of the last line of page 0 copies a line from the end of the address
space. -/
theorem read_top_line : topMachine.LinesInMemory ∧
    (Call.read 0 0xFC0 1).exec topMachine = .error .lineOutOfMemory := by
  refine ⟨(Sim.initial_emptyCaches _ _ _).linesInMemory, Except.throws_iff.mp ?_⟩
  decide +kernel

theorem exec_inMemory_conflict :
    ¬(Call.read 0 0x0 1).Overflows (conflictMachine false) ∧
      (Call.read 0 0x0 1).exec (conflictMachine false) ≠ .error .lineOutOfMemory ∧
        (Call.read 0 0xFC0 1).Overflows topMachine ∧
          (Call.read 0 0xFC0 1).exec topMachine = .error .lineOutOfMemory := by
  have hsound : ¬(Call.read 0 0x0 1).Overflows (conflictMachine false) := by decide +kernel
  have htop : (Call.read 0 0xFC0 1).Overflows topMachine := by decide +kernel
  have hconflict := Sim.initial_emptyCaches conflictMemory conflictPml4 false
  have hempty := Sim.initial_emptyCaches topMemory conflictPml4 false
  exact ⟨hsound, (Call.exec_inMemory hconflict.linesInMemory).2.1 hsound, htop,
    (Call.exec_inMemory hempty.linesInMemory).2.2 ⟨_, _, hempty, .start⟩ htop⟩

end CacheSimulator
