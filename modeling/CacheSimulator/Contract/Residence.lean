import CacheSimulator.Refinement.Miss
import CacheSimulator.Replay.Snoops

/-!
# Resident lines

Nothing is assumed about a state here except that the lines of L2 lie in memory:
masks, L1 tags and streams may be anything. An eviction then writes back inside
memory, if it does not abort, and the only line copies that can leave memory are
those whose bounds check overflows.
-/

namespace CacheSimulator

/-- The computation has stopped for another reason than a line outside memory. -/
def Fault.Inside (f : Fault) : Prop := f ≠ .lineOutOfMemory

theorem Fault.inside {f : Fault} (h : f ≠ .lineOutOfMemory) : f.Inside := h

namespace L2Set

/-- No way of the set has taken a new line. -/
def KeepsLines (set set' : L2Set) : Prop :=
  ∀ w, set'.tag w = set.tag w ∧ (set'.state w ≠ .invalid → set.state w ≠ .invalid)

variable {set set' set'' : L2Set}

theorem KeepsLines.refl (set : L2Set) : KeepsLines set set := fun _ => ⟨rfl, id⟩

theorem KeepsLines.trans (h : KeepsLines set set') (h' : KeepsLines set' set'') :
    KeepsLines set set'' :=
  fun w => ⟨(h' w).1.trans (h w).1, fun hw => (h w).2 ((h' w).2 hw)⟩

theorem KeepsLines.setCoreValid (set : L2Set) (k : L1Kind) (w : Fin 16) (mask : BitVec 8) :
    KeepsLines set (set.setCoreValid k w mask) := by
  cases k <;> exact .refl set

theorem KeepsLines.setState {w : Fin 16} (state : MESIState)
    (hw : state ≠ .invalid → set.state w ≠ .invalid) : KeepsLines set (set.setState w state) := by
  intro v
  refine ⟨rfl, fun hv => ?_⟩
  by_cases hvw : v = w
  · subst hvw
    exact hw (by simpa [L2Set.setState] using hv)
  · simpa [L2Set.setState, hvw] using hv

theorem KeepsLines.writeWay {w : Fin 16} (hw : set.state w ≠ .invalid) (c : CoreId) (line : Line) :
    KeepsLines set (l2CacheWriteWay set c w line) := by
  have hstate : KeepsLines (set.setData w line) ((set.setData w line).setState w .modified) :=
    .setState .modified fun _ => hw
  exact hstate.trans (.setCoreValid _ .data w _)

theorem KeepsLines.evictL1Clean {w : Fin 16} (hw : set.state w ≠ .invalid) (k : L1Kind)
    (c : CoreId) : KeepsLines set (evictL1Clean set k w c) := by
  have hclear := KeepsLines.setCoreValid set k w (set.coreValid k w &&& ~~~coreBit c)
  unfold CacheSimulator.evictL1Clean
  dsimp only
  split
  · refine hclear.trans (.setState .exclusive fun _ => ?_)
    cases k <;> exact hw
  · exact hclear

end L2Set

namespace Sim

variable {s s' s'' : Sim}

def LinesInMemory (s : Sim) : Prop :=
  ∀ i w, (s.l2 i).state w ≠ .invalid →
    (l2ToAddr ((s.l2 i).tag w) i).toNat + 64 ≤ s.mem.size.toNat

structure KeepsLines (s s' : Sim) : Prop where
  sets : ∀ i, (s.l2 i).KeepsLines (s'.l2 i)
  size : s'.mem.size = s.mem.size
  streams : s'.streams = s.streams

theorem KeepsLines.of_eq (hl2 : s'.l2 = s.l2) (hsize : s'.mem.size = s.mem.size)
    (hstreams : s'.streams = s.streams) : KeepsLines s s' :=
  ⟨fun _ => hl2 ▸ .refl _, hsize, hstreams⟩

theorem KeepsLines.of_sameCaches (h : SameCaches s s') : KeepsLines s s' :=
  .of_eq h.l2 (congrArg Memory.size h.mem) h.streams

theorem KeepsLines.refl (s : Sim) : KeepsLines s s := .of_sameCaches (.refl s)

theorem KeepsLines.trans (h : KeepsLines s s') (h' : KeepsLines s' s'') : KeepsLines s s'' :=
  ⟨fun i => (h.sets i).trans (h'.sets i), h'.size.trans h.size, h'.streams.trans h.streams⟩

theorem KeepsLines.setL1 (s : Sim) (k : L1Kind) (c : CoreId) (i : Fin 64) (set : L1Set) :
    KeepsLines s (s.setL1 k c i set) :=
  .of_eq rfl rfl (streams_setL1 ..)

theorem KeepsLines.record (s : Sim) (op : MemOp) : KeepsLines s (s.record op) := .of_eq rfl rfl rfl

theorem KeepsLines.setL2 {i : Fin 4096} {set : L2Set} (h : (s.l2 i).KeepsLines set) :
    KeepsLines s (s.setL2 i set) := by
  refine ⟨fun i' => ?_, rfl, rfl⟩
  rw [l2_setL2]
  split
  · rename_i hi
    exact hi ▸ h
  · exact .refl _

theorem LinesInMemory.keep (h : s.LinesInMemory) (hkeeps : KeepsLines s s') : s'.LinesInMemory := by
  intro i w hw
  obtain ⟨htag, hstate⟩ := hkeeps.sets i w
  rw [htag, hkeeps.size]
  exact h i w (hstate hw)

theorem LinesInMemory.fill (h : s.LinesInMemory) {line : Addr} {v : Fin 16} {set : L2Set}
    (hin : (toLineBase line).toNat + 64 ≤ s.mem.size.toNat)
    (htag : set.tag = Function.update (s.l2 (l2ToIndex line)).tag v (l2ToTag line))
    (hstate : ∀ w, w ≠ v → set.state w = (s.l2 (l2ToIndex line)).state w) :
    (s.setL2 (l2ToIndex line) set).LinesInMemory := by
  intro i w hw
  rw [l2_setL2] at hw ⊢
  rw [mem_setL2]
  split at hw
  · rename_i hi
    subst hi
    rw [if_pos rfl, htag]
    by_cases hwv : w = v
    · subst hwv
      rw [Function.update_self, ← l2Geometry_tag_lineNo, ← l2Geometry_index_lineNo,
        l2ToAddr_geometry, lineAddr_lineNo]
      exact hin
    · rw [Function.update_of_ne hwv]
      exact h _ w (hstate w hwv ▸ hw)
  · rename_i hi
    rw [if_neg hi]
    exact h i w hw

/-! ## Evictions -/

theorem evictL1_keeps {k : L1Kind} {i : Fin 64} {c : CoreId} :
    (evictL1 k s i c).Sat (fun r => KeepsLines s r.1) Fault.Inside := by
  unfold evictL1
  dsimp only
  split
  · exact .refl s
  · split
    · exact Fault.inside (by simp)
    · rename_i hfind
      have hway := (l2FindWay_found hfind).2
      refine ((KeepsLines.setL2 ?_).trans (.of_sameCaches (.emit ..))).trans (.setL1 ..)
      cases k with
      | data =>
          dsimp only
          split
          · exact .writeWay hway _ _
          · exact .evictL1Clean hway _ _
      | instr => exact .evictL1Clean hway _ _

theorem backInvalidateD_keeps {i : Fin 4096} {v : Fin 16} {addr : Addr} {c : CoreId}
    (hv : (s.l2 i).state v ≠ .invalid) (hkeeps : KeepsLines s s') :
    (backInvalidateD i v addr c s').Sat (KeepsLines s) Fault.Inside := by
  unfold backInvalidateD
  dsimp only
  split
  · exact Fault.inside (by simp)
  · refine KeepsLines.trans ?_ (.setL1 ..)
    refine KeepsLines.trans ?_ (.of_sameCaches (.emit ..))
    split
    · refine ⟨fun i' => ?_, hkeeps.size, hkeeps.streams⟩
      rw [l2_setL2]
      split
      · rename_i hi
        subst hi
        intro w
        refine ⟨(hkeeps.sets i' w).1, fun hw => ?_⟩
        by_cases hwv : w = v
        · exact hwv ▸ hv
        · refine (hkeeps.sets i' w).2 ?_
          simpa [L2Set.setState, L2Set.setData, hwv] using hw
      · exact hkeeps.sets i'
    · exact hkeeps

theorem backInvalidateI_keeps {addr : Addr} {c : CoreId} (hkeeps : KeepsLines s s') :
    (backInvalidateI addr c s').Sat (KeepsLines s) Fault.Inside := by
  unfold backInvalidateI
  dsimp only
  split
  · exact Fault.inside (by simp)
  · exact (hkeeps.trans (.of_sameCaches (.emit ..))).trans (.setL1 ..)

theorem backInvalidate_keeps {i : Fin 4096} {v : Fin 16} {addr : Addr} {validD validI : BitVec 8}
    {c : CoreId} (hv : (s.l2 i).state v ≠ .invalid) (hkeeps : KeepsLines s s') :
    (backInvalidate i v addr validD validI c s').Sat (KeepsLines s) Fault.Inside := by
  have hd : Except.Sat (if validD.getLsbD c then backInvalidateD i v addr c s' else .ok s')
      (KeepsLines s) Fault.Inside := by
    split
    · exact backInvalidateD_keeps hv hkeeps
    · exact hkeeps
  refine hd.bind fun t ht => ?_
  split
  · exact backInvalidateI_keeps ht
  · exact ht

theorem writeBack_keeps {i : Fin 4096} {v : Fin 16} {addr : Addr}
    (hin : addr.toNat + 64 ≤ s.mem.size.toNat) :
    (writeBack i v addr s).Sat (KeepsLines s) Fault.Inside := by
  unfold writeBack
  split
  · split
    · exact Fault.inside (by simp)
    · rw [Memory.writeLine, if_pos hin]
      exact .of_eq rfl rfl rfl
  · exact .refl s

theorem state_ne_invalid_of_full {i : Fin 4096}
    (hfull : ((List.finRange 16).find? fun w => (s.l2 i).state w == .invalid) = none) (w : Fin 16) :
    (s.l2 i).state w ≠ .invalid := by
  simpa using List.find?_eq_none.mp hfull w (List.mem_finRange w)

theorem evictL2_keeps {i : Fin 4096} (hs : s.LinesInMemory) :
    (evictL2 s i).Sat (fun r => KeepsLines s r.1) Fault.Inside := by
  unfold evictL2
  dsimp only
  split
  · exact .refl s
  · rename_i hfull
    generalize plruVictimWay 16 (s.l2 i).plruBits = v
    have hv := state_ne_invalid_of_full hfull v
    have hin := hs i v hv
    refine (forEachSharer_keeps (F := Fault.Inside) (Fault.inside (by simp))
      (fun c t _ ht => backInvalidate_keeps hv ht) 8 (.refl s)).bind fun t ht => ?_
    refine (writeBack_keeps (by rwa [ht.size])).bind fun u hu => ?_
    refine (ht.trans hu).trans (KeepsLines.trans (.of_sameCaches (.emit ..)) (.setL2 ?_))
    rw [l2_emit]
    exact ((L2Set.KeepsLines.setCoreValid _ .data v 0).trans (.setCoreValid _ .instr v 0)).trans
      (.setState .invalid fun h => absurd rfl h)

/-! ## Prefetches -/

theorem toNat_of_passes {size line : Addr} (hbounds : ¬line + 64#64 > size) (hwraps : ¬Wraps line) :
    line.toNat + 64 ≤ size.toNat := by
  unfold Wraps at hwraps
  rw [gt_iff_lt, BitVec.lt_def, BitVec.toNat_add] at hbounds
  simp only [BitVec.toNat_ofNat] at hbounds
  omega

theorem toLineBase_le (line : Addr) : (toLineBase line).toNat ≤ line.toNat := by
  rw [toLineBase_toNat]
  omega

theorem pfFillL2_keeps {fromLine nextLine : Addr} (hs : s.LinesInMemory)
    (hwraps : PrefetchPasses s.mem.size fromLine nextLine → ¬Wraps nextLine) :
    (pfFillL2 s fromLine nextLine).Sat
      (fun r => r.1.LinesInMemory ∧ r.1.mem.size = s.mem.size ∧
        (r.2 = true → PrefetchPasses s.mem.size fromLine nextLine)) Fault.Inside := by
  unfold pfFillL2
  split
  · exact ⟨hs, rfl, Bool.noConfusion⟩
  rename_i hpage
  split
  · exact ⟨hs, rfl, Bool.noConfusion⟩
  rename_i hbounds
  have hpasses : PrefetchPasses s.mem.size fromLine nextLine := ⟨not_not.mp hpage, hbounds⟩
  have hin := toNat_of_passes (not_or.mp hbounds).2 (hwraps hpasses)
  dsimp only
  split
  · exact ⟨hs, rfl, fun _ => hpasses⟩
  · refine (evictL2_keeps hs).bind fun r hr => ?_
    obtain ⟨t, v⟩ := r
    dsimp only at hr ⊢
    rw [← hr.size] at hin
    rw [Memory.readLine, if_pos hin]
    change Except.Sat (l2CacheFillPrefetch _ _ _ _ _ >>= _) _ _
    unfold l2CacheFillPrefetch
    split
    · exact Fault.inside (by simp)
    · refine ⟨?_, ?_, fun _ => hpasses⟩
      · refine LinesInMemory.keep ?_ (.of_sameCaches (.emit ..))
        have hline := (Nat.add_le_add_right (toLineBase_le nextLine) 64).trans hin
        refine (hs.keep hr).fill (v := v) hline rfl fun w hw => ?_
        simp [L2Set.touch, L2Set.setData, L2Set.setState, hw]
      · rw [mem_emit]
        exact hr.size

/-- A prefetch of a burst overflows its bounds check. -/
def BurstWraps (size missLine : Addr) (stride : BitVec 64) : ℕ → Addr → Prop
  | 0, _ => False
  | fuel + 1, head =>
      ¬((head - missLine) * stride).toInt ≥ 8 * 64 ∧
        PrefetchPasses size head (head + stride * 64#64) ∧
          (Wraps (head + stride * 64#64) ∨
            BurstWraps size missLine stride fuel (head + stride * 64#64))

theorem pfBurst_inside {missLine stride : Addr} {fuel : ℕ} {stream : Stream} (hs : s.LinesInMemory)
    (hwraps : ¬BurstWraps s.mem.size missLine stride fuel stream.prefetchHead) :
    (pfBurst missLine stride fuel stream s).Sat (fun _ => True) Fault.Inside := by
  induction fuel generalizing stream s with
  | zero => exact trivial
  | succ fuel ih =>
      unfold pfBurst
      dsimp only
      split
      · exact trivial
      · rename_i hgap
        refine (pfFillL2_keeps hs fun hpasses h => hwraps ⟨hgap, hpasses, .inl h⟩).bind
          fun r hr => ?_
        obtain ⟨t, filled⟩ := r
        obtain ⟨ht, hsize, hfilled⟩ := hr
        cases filled with
        | false => exact trivial
        | true =>
            refine ih ht fun h => hwraps ⟨hgap, hfilled rfl, .inr ?_⟩
            rwa [hsize] at h

theorem pfBurst_wraps {missLine stride : Addr} {fuel : ℕ} {stream : Stream} (hs : s.Inv)
    (hhead : s.InMemory stream.prefetchHead)
    (hwraps : BurstWraps s.mem.size missLine stride fuel stream.prefetchHead) :
    (pfBurst missLine stride fuel stream s).Sat (fun _ => False) (· = .lineOutOfMemory) := by
  induction fuel generalizing stream s with
  | zero => exact hwraps
  | succ fuel ih =>
      obtain ⟨hgap, hpasses, hnext⟩ := hwraps
      obtain ⟨a, ha, hin⟩ := hhead
      obtain ⟨b, hb⟩ := lineAddr_add_line (a := a) stride
      rw [ha, hb] at hpasses hnext
      rw [ha] at hgap
      unfold pfBurst
      dsimp only
      rw [ha, if_neg hgap, hb]
      refine ((pfFillL2_spec hs ⟨a, rfl, hin⟩).mono (fun _ hr => hr) fun _ hf => hf.1).bind
        fun r hr => ?_
      obtain ⟨t, filled⟩ := r
      obtain ⟨hbg, -, hfilled, hreports⟩ := hr
      obtain rfl : filled = true := hreports hpasses
      have hhead := hfilled rfl
      refine ih hbg.inv (hhead.of_size hbg.size) ?_
      rw [hbg.size]
      exact hnext.resolve_left hhead.not_wraps

/-- The stream that matches a miss, as the match leaves it. -/
def matchedStream (s : Sim) (c : CoreId) (missLine : Addr) : Option (Fin 8 × Stream) :=
  (List.finRange 8).findSome? fun i =>
    (((s.cpu.cores c).prefetcher.streams i).onMiss missLine).map fun stream => (i, stream)

/-- A prefetch of the burst that a miss triggers overflows its bounds check. -/
def StreamWraps (s : Sim) (c : CoreId) (missLine : Addr) : Prop :=
  ∃ p ∈ s.matchedStream c missLine,
    BurstWraps s.mem.size missLine p.2.direction.toInt64 9 p.2.prefetchHead

theorem StreamWraps.congr {c : CoreId} {missLine : Addr} (hsize : s'.mem.size = s.mem.size)
    (hstreams : s'.streams = s.streams) : s'.StreamWraps c missLine ↔ s.StreamWraps c missLine := by
  have h : (s'.cpu.cores c).prefetcher.streams = (s.cpu.cores c).prefetcher.streams :=
    congrFun hstreams c
  unfold StreamWraps matchedStream
  rw [h, hsize]

theorem pfStreamOnMiss_inside {c : CoreId} {missLine : Addr} (hs : s.LinesInMemory)
    (hwraps : ¬s.StreamWraps c missLine) :
    (pfStreamOnMiss s c missLine).Sat (fun _ => True) Fault.Inside := by
  unfold pfStreamOnMiss
  dsimp only
  rw [← matchedStream]
  cases hfind : s.matchedStream c missLine with
  | none => exact trivial
  | some p =>
      refine Except.Sat.bind (pfBurst_inside hs ?_) fun _ _ => trivial
      exact fun h => hwraps ⟨p, hfind, h⟩

theorem pfStreamOnMiss_wraps {c : CoreId} {a : LineNo} (hs : s.Inv)
    (hin : 64 * (a : ℕ) + 64 ≤ s.mem.size.toNat) (hwraps : s.StreamWraps c (lineAddr a)) :
    (pfStreamOnMiss s c (lineAddr a)).Sat (fun _ => False) (· = .lineOutOfMemory) := by
  obtain ⟨⟨i, stream⟩, hfind, hburst⟩ := hwraps
  obtain ⟨j, -, hj⟩ := List.exists_of_findSome?_eq_some hfind
  obtain ⟨stream', hstream, heq⟩ := Option.map_eq_some_iff.mp hj
  obtain ⟨rfl, rfl⟩ := Prod.mk.inj heq
  have hhead : s.InMemory stream'.prefetchHead := by
    rcases onMiss_head hstream with h | ⟨hconf, h⟩
    · exact h ▸ ⟨a, rfl, hin⟩
    · exact h ▸ hs.streams c j hconf
  unfold pfStreamOnMiss
  dsimp only
  rw [← matchedStream, Option.mem_def.mp hfind]
  refine Except.Sat.bind (pfBurst_wraps hs ?_ ?_) fun _ hr => hr.elim
  · exact hhead
  · exact hburst

/-- The next-line prefetch overflows its bounds check. -/
def NextlineWraps (s : Sim) (missLine : Addr) : Prop :=
  PrefetchPasses s.mem.size missLine (missLine + 64#64) ∧ Wraps (missLine + 64#64)

theorem pfNextlineOnMiss_inside {missLine : Addr} (hs : s.LinesInMemory)
    (hwraps : ¬s.NextlineWraps missLine) :
    (pfNextlineOnMiss s missLine).Sat (fun _ => True) Fault.Inside :=
  (pfFillL2_keeps hs fun hpasses h => hwraps ⟨hpasses, h⟩).bind fun _ _ => trivial

theorem pfNextlineOnMiss_wraps {a : LineNo} (hs : s.Inv)
    (hin : 64 * (a : ℕ) + 64 ≤ s.mem.size.toNat) (hwraps : s.NextlineWraps (lineAddr a)) :
    (pfNextlineOnMiss s (lineAddr a)).Sat (fun _ => False) (· = .lineOutOfMemory) := by
  obtain ⟨hpasses, hnext⟩ := hwraps
  obtain ⟨b, hb⟩ := lineAddr_add_line (a := a) 1
  unfold pfNextlineOnMiss
  rw [show lineAddr a + 64#64 = lineAddr b from hb] at hpasses hnext ⊢
  exact (pfFillL2_wraps hs ⟨a, rfl, hin⟩ hpasses hnext).bind fun _ hr => hr.elim

end Sim

end CacheSimulator
