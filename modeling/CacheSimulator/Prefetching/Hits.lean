import CacheSimulator.Prefetching.Frame

/-!
# Hits

An access that hits in L1 or in L2 leaves L2 with the lines it had. The only line
that can enter an L1 cache is the accessed one, in the L1D of the accessing core,
and the prefetcher is not consulted.
-/

namespace CacheSimulator

/-- The ways keep their tags, and the valid ones were valid before. -/
def L1Set.KeepsLines (set set' : L1Set) : Prop :=
  ∀ v, set'.tag v = set.tag v ∧ (set'.state v ≠ .invalid → set.state v ≠ .invalid)

theorem L1Set.keepsLines_setState {set : L1Set} {w : Fin 8} {st : MESIState}
    (h : st = .invalid ∨ set.state w ≠ .invalid) : set.KeepsLines (set.setState w st) := by
  refine fun v => ⟨rfl, fun hv => ?_⟩
  by_cases hvw : v = w
  · subst hvw
    rcases h with rfl | h
    · exact absurd (Function.update_self ..) hv
    · exact h
  · rwa [(L1Set.setState_off hvw).2.1] at hv

namespace L2Set

/-- The two sets hold the same lines in the same ways. -/
def SameLines (set set' : L2Set) : Prop :=
  ∀ w, set'.tag w = set.tag w ∧ (set'.state w = .invalid ↔ set.state w = .invalid)

variable {set set' set'' : L2Set} {w : Fin 16}

theorem SameLines.refl (set : L2Set) : set.SameLines set := fun _ => ⟨rfl, Iff.rfl⟩

theorem SameLines.trans (h : set.SameLines set') (h' : set'.SameLines set'') :
    set.SameLines set'' :=
  fun w => ⟨(h' w).1.trans (h w).1, (h' w).2.trans (h w).2⟩

theorem sameLines_setCoreValid (set : L2Set) (k : L1Kind) (w : Fin 16) (mask : BitVec 8) :
    set.SameLines (set.setCoreValid k w mask) := by
  cases k <;> exact .refl set

theorem sameLines_setState {st : MESIState} (hst : st ≠ .invalid) (hw : set.state w ≠ .invalid) :
    set.SameLines (set.setState w st) := by
  intro v
  refine ⟨rfl, ?_⟩
  by_cases hvw : v = w
  · subst hvw
    simp [L2Set.setState, hst, hw]
  · simp [L2Set.setState, hvw]

theorem sameLines_claimForStore (hw : set.state w ≠ .invalid) (c : CoreId) :
    set.SameLines (claimForStore set w c) := by
  refine ((sameLines_setCoreValid set .instr w 0).trans
    (sameLines_setCoreValid _ .data w (coreBit c))).trans (sameLines_setState (by decide) ?_)
  exact hw

theorem sameLines_writeWay (hw : set.state w ≠ .invalid) (c : CoreId) (line : Line) :
    set.SameLines (l2CacheWriteWay set c w line) :=
  (@sameLines_setState (set.setData w line) w .modified (by decide) hw).trans
    (sameLines_setCoreValid _ .data w _)

theorem sameLines_evictL1Clean (hw : set.state w ≠ .invalid) (k : L1Kind) (c : CoreId) :
    set.SameLines (evictL1Clean set k w c) := by
  have hclear := sameLines_setCoreValid set k w (set.coreValid k w &&& ~~~coreBit c)
  unfold evictL1Clean
  dsimp only
  split
  · refine hclear.trans (sameLines_setState (by decide) ?_)
    exact fun h => hw ((hclear w).2.mp h)
  · exact hclear

end L2Set

namespace Sim

/-- L2 holds the lines it held, no line but `a` has entered an L1 cache, and that
one only the L1D of core `c`; the prefetcher has not been consulted. -/
structure Quiet (c : CoreId) (a : LineNo) (s s' : Sim) : Prop where
  keeps : KeepsPrefetcher s s'
  l2 : ∀ i, (s.l2 i).SameLines (s'.l2 i)
  l1 : ∀ k b i v, (s'.l1 k b i).tag v = (s.l1 k b i).tag v ∧
      ((s'.l1 k b i).state v ≠ .invalid → (s.l1 k b i).state v ≠ .invalid) ∨
    k = .data ∧ b = c ∧ i = l1Geometry.index a ∧ (s'.l1 k b i).tag v = l1Geometry.tag a
  fills : s'.fills = s.fills

variable {s s' s'' t : Sim} {a : LineNo} {c : CoreId} {k : L1Kind}

namespace Quiet

theorem of_caches (hl1 : s'.l1 = s.l1) (hl2 : s'.l2 = s.l2) (hkeeps : KeepsPrefetcher s s')
    (hfills : s'.fills = s.fills) : Quiet c a s s' :=
  ⟨hkeeps, fun i => hl2 ▸ .refl _, fun _ _ _ _ => .inl (by rw [hl1]; exact ⟨rfl, id⟩), hfills⟩

theorem refl (s : Sim) : Quiet c a s s := .of_caches rfl rfl (.refl s) rfl

theorem trans (h : Quiet c a s s') (h' : Quiet c a s' s'') : Quiet c a s s'' := by
  refine ⟨h.keeps.trans h'.keeps, fun i => (h.l2 i).trans (h'.l2 i), fun k b i v => ?_,
    h'.fills.trans h.fills⟩
  rcases h'.l1 k b i v with ⟨htag, hstate⟩ | hnew
  · rw [htag]
    exact (h.l1 k b i v).imp_left fun ⟨htag', hstate'⟩ => ⟨htag', fun hv => hstate' (hstate hv)⟩
  · exact .inr hnew

theorem emit (type : CacheEventType) (htype : type ≠ .prefetchL2) (coreId level set way : ℕ)
    (addr : Addr) (oldState newState : MESIState) (data : Option Line) :
    Quiet c a s (s.emit type coreId level set way addr oldState newState data) :=
  .of_caches (l1_emit ..) (l2_emit ..) (.emit type htype ..)
    (by rw [Sim.fills, history_emit, Sim.fills])

theorem setL2 {i : Fin 4096} {set : L2Set} (hset : (s.l2 i).SameLines set) :
    Quiet c a s (s.setL2 i set) := by
  refine ⟨.setL2 .., fun j => ?_, fun _ _ _ _ => .inl ⟨rfl, id⟩, rfl⟩
  rw [l2_setL2]
  split
  · rename_i hj
    exact hj ▸ hset
  · exact .refl _

theorem setL1 {b : CoreId} {i : Fin 64} {set : L1Set} (hset : (s.l1 k b i).KeepsLines set) :
    Quiet c a s (s.setL1 k b i set) := by
  refine ⟨.setL1 .., fun _ => .refl _, fun k' b' i' v => .inl ?_, rfl⟩
  rw [l1_setL1]
  split
  · rename_i heq
    obtain ⟨rfl, rfl, rfl⟩ := heq
    exact hset v
  · exact ⟨rfl, id⟩

/-- A way of the accessing L1D that holds the accessed line may become valid. -/
theorem setL1_self {v : Fin 8} {set : L1Set} (hv : set.tag v = l1Geometry.tag a)
    (hset : ∀ u, u ≠ v → set.tag u = (s.l1 .data c (l1Geometry.index a)).tag u ∧
      set.state u = (s.l1 .data c (l1Geometry.index a)).state u) :
    Quiet c a s (s.setL1 .data c (l1Geometry.index a) set) := by
  refine ⟨.setL1 .., fun _ => .refl _, fun k' b' i' u => ?_, rfl⟩
  rw [l1_setL1]
  split
  · rename_i heq
    obtain ⟨rfl, rfl, rfl⟩ := heq
    by_cases huv : u = v
    · exact .inr ⟨rfl, rfl, rfl, huv ▸ hv⟩
    · obtain ⟨htag, hstate⟩ := hset u huv
      exact .inl ⟨htag, fun h => hstate ▸ h⟩
  · exact .inl ⟨rfl, id⟩

/-- The accessed line is filled into the L1D of the accessing core. -/
theorem fillL1 (v : Fin 8) (line : Line) (st : MESIState) :
    Quiet c a s (s.setL1 .data c (l1Geometry.index a)
      (l1CacheFill (s.l1 .data c (l1Geometry.index a)) (l1Geometry.tag a) v line st)) :=
  setL1_self (v := v) (Function.update_self ..) fun _ hu =>
    ⟨Function.update_of_ne hu _ _, Function.update_of_ne hu _ _⟩

theorem store (s : Sim) (address : Addr) (data : List Byte) :
    Quiet c a s (s.record (.store address data)) :=
  .of_caches rfl rfl (.record ..) (by simp [Sim.fills])

/-- Counting a hit changes nothing else. -/
theorem modifyPmc (h : Quiet c a s s') (b : CoreId) (f : PerfCounters → PerfCounters) :
    Quiet c a (s.modifyPmc b f) (s'.modifyPmc b f) := by
  have hl1 : ∀ t : Sim, (t.modifyPmc b f).l1 = t.l1 := fun t =>
    l1_modifyCore t b (fun _ => rfl) fun _ => rfl
  refine ⟨⟨fun b' => ?_, fun b' => ?_, h.keeps.callback, h.keeps.prefetchEvents⟩, h.l2, ?_, h.fills⟩
  · have := h.keeps.prefetcher b'
    by_cases hb : b' = b
    · subst hb
      simpa [Sim.modifyPmc, modifyCore] using this
    · simpa [Sim.modifyPmc, modifyCore, hb] using this
  · have := h.keeps.pmc b'
    by_cases hb : b' = b
    · subst hb
      simp [Sim.modifyPmc, modifyCore, this]
    · simpa [Sim.modifyPmc, modifyCore, hb] using this
  · rw [hl1, hl1]
    exact h.l1

theorem state_ne (h : Quiet c a s s') {i : Fin 4096} {w : Fin 16}
    (hw : (s.l2 i).state w ≠ .invalid) : (s'.l2 i).state w ≠ .invalid :=
  fun hinv => hw ((h.l2 i w).2.mp hinv)

theorem tag_eq (h : Quiet c a s s') {b : CoreId} {v : Fin 8}
    (hv : (s.l1 k b (l1Geometry.index a)).tag v = l1Geometry.tag a) :
    (s'.l1 k b (l1Geometry.index a)).tag v = l1Geometry.tag a := by
  rcases h.l1 k b (l1Geometry.index a) v with ⟨htag, -⟩ | ⟨-, -, -, htag⟩
  · rw [htag, hv]
  · exact htag

theorem resident_iff (h : Quiet c a s s') {b : LineNo} : s'.Resident b ↔ s.Resident b := by
  rw [Sim.resident_iff, Sim.resident_iff]
  refine exists_congr fun w => ?_
  obtain ⟨htag, hstate⟩ := h.l2 (l2Geometry.index b) w
  rw [htag, ne_eq, hstate]

theorem hasCopy (h : Quiet c a s s') {b : LineNo} {c' : CoreId} (hb : s'.HasCopy k c' b) :
    s.HasCopy k c' b ∨ k = .data ∧ c' = c ∧ b = a := by
  rw [hasCopy_iff] at hb ⊢
  obtain ⟨v, htag, hv⟩ := hb
  rcases h.l1 k c' _ v with ⟨htag', hstate⟩ | ⟨hk, hc, hi, ht⟩
  · exact .inl ⟨v, htag' ▸ htag, hstate hv⟩
  · exact .inr ⟨hk, hc, l1Geometry.injective _ _ hi (htag.symm.trans ht)⟩

end Quiet

/-! ## The parts of a hit -/

theorem evictL1_quiet {b : CoreId} {i : Fin 64} :
    (evictL1 k s i b).Sat (fun r => Quiet c a s r.1) fun _ => True := by
  have hfree : ∀ (j : Fin 4096) (set : L2Set) (v : Fin 8) (addr : Addr),
      (s.l2 j).SameLines set → Quiet c a s (((s.setL2 j set).emit .l1dEvict b 1 i v addr
        ((s.l1 k b i).state v) .invalid (some ((s.l1 k b i).data v))).setL1 k b i
          ((s.l1 k b i).setState v .invalid)) := by
    intro j set v addr hset
    refine ((Quiet.setL2 hset).trans (.emit _ (by decide) ..)).trans (.setL1 ?_)
    rw [l1_emit, l1_setL2]
    exact L1Set.keepsLines_setState (.inl rfl)
  unfold evictL1
  dsimp only
  split
  · exact .refl s
  · split
    · trivial
    · rename_i hfind
      have hway := (l2FindWay_found hfind).2
      refine hfree _ _ _ _ ?_
      cases k with
      | data =>
          dsimp only
          split
          · exact L2Set.sameLines_writeWay hway _ _
          · exact L2Set.sameLines_evictL1Clean hway _ _
      | instr => exact L2Set.sameLines_evictL1Clean hway _ _

theorem snoopDowngradePeer_quiet {b : CoreId} {i : Fin 64} {tag : Addr} {j : Fin 4096} {w : Fin 16}
    {line : Line} :
    (snoopDowngradePeer i tag j w b (s, line)).Sat (fun r => Quiet c a s r.1) fun _ => True := by
  unfold snoopDowngradePeer
  dsimp only
  split
  · exact .refl s
  · rename_i v hfind
    have hv := (findL1Way_found hfind).2
    split
    · rw [Except.sat_ok]
      dsimp only
      refine Quiet.trans ?_ (.setL1 ?_)
      · refine Quiet.trans ?_ (.emit _ ?_ ..)
        · exact .setL2 fun _ => ⟨rfl, Iff.rfl⟩
        · decide
      · rw [l1_emit, l1_setL2]
        exact L1Set.keepsLines_setState (.inr hv)
    · rw [Except.sat_ok]
      dsimp only
      refine (Quiet.emit _ (by decide) ..).trans (.setL1 ?_)
      rw [l1_emit]
      exact L1Set.keepsLines_setState (.inr hv)

theorem snoopDowngradePeers_quiet {sharers : BitVec 8} {i : Fin 64} {tag : Addr} {j : Fin 4096}
    {w : Fin 16} {line : Line} (hw : (s.l2 j).state w ≠ .invalid) :
    (snoopDowngradePeers s sharers i tag line j w).Sat (fun r => Quiet c a s r.1)
      fun _ => True := by
  unfold snoopDowngradePeers
  refine forEachSharer_keeps (P := fun r => Quiet c a s r.1) (F := fun _ => True) trivial
    (fun _ _ _ ht => snoopDowngradePeer_quiet.imp fun _ hu => ht.trans hu) 8 ?_
  exact .setL2 (L2Set.sameLines_setState (by decide) hw)

theorem snoopInvalidatePeerI_quiet {b : CoreId} {i : Fin 64} {tag : Addr} :
    (snoopInvalidatePeerI i tag b s).Sat (Quiet c a s) fun _ => True := by
  unfold snoopInvalidatePeerI
  dsimp only
  split
  · exact .refl s
  · refine (Quiet.emit _ (by decide) ..).trans (.setL1 ?_)
    rw [l1_emit]
    exact L1Set.keepsLines_setState (.inl rfl)

theorem snoopInvalidatePeersI_quiet {sharers : BitVec 8} {i : Fin 64} {tag : Addr} :
    (snoopInvalidatePeersI s sharers i tag).Sat (Quiet c a s) fun _ => True := by
  unfold snoopInvalidatePeersI
  exact forEachSharer_keeps (P := Quiet c a s) (F := fun _ => True) trivial
    (fun _ _ _ ht => snoopInvalidatePeerI_quiet.imp fun _ hu => ht.trans hu) 8 (.refl s)

theorem snoopInvalidatePeer_quiet {b : CoreId} {i : Fin 64} {tag : Addr} {j : Fin 4096} {w : Fin 16}
    {line : Option Line} :
    (snoopInvalidatePeer i tag j w b (s, line)).Sat (fun r => Quiet c a s r.1) fun _ => True := by
  unfold snoopInvalidatePeer
  dsimp only
  have hclear : ∀ t : Sim, Quiet c a t (t.setL2 j (l2ClearCoreValidWay (t.l2 j) .data w b)) :=
    fun t => .setL2 (L2Set.sameLines_setCoreValid _ .data w _)
  split
  · exact hclear s
  · refine Quiet.trans ((Quiet.emit _ (by decide) ..).trans (.setL1 ?_)) (hclear _)
    rw [l1_emit]
    exact L1Set.keepsLines_setState (.inl rfl)

theorem snoopInvalidatePeers_quiet {sharers : BitVec 8} {i : Fin 64} {tag : Addr} {j : Fin 4096}
    {w : Fin 16} {line : Option Line} :
    (snoopInvalidatePeers s sharers i tag line j w).Sat (fun r => Quiet c a s r.1)
      fun _ => True := by
  unfold snoopInvalidatePeers
  exact forEachSharer_keeps (s := (s, line)) (P := fun r => Quiet c a s r.1) (F := fun _ => True)
    trivial (fun _ _ _ ht => snoopInvalidatePeer_quiet.imp fun _ hu => ht.trans hu) 8 (.refl s)

theorem busRead_quiet {physicalAddress : Addr} {w : Fin 16}
    (hw : (s.l2 (l2ToIndex physicalAddress)).state w ≠ .invalid) :
    (busRead k s c physicalAddress w).Sat (fun r => Quiet c a s r.1) fun _ => True := by
  unfold busRead
  dsimp only
  have hread : Quiet c a s (s.setL2 (l2ToIndex physicalAddress)
      (l2CacheReadWay (s.l2 (l2ToIndex physicalAddress)) c w k).2) :=
    .setL2 (L2Set.sameLines_setCoreValid ((s.l2 _).touch w) k w _)
  split
  · exact (snoopDowngradePeers_quiet (hread.state_ne hw)).bind fun r hr => hread.trans hr
  · exact hread

theorem upgradeShared_quiet {physicalAddress : Addr} {st : MESIState} {w : Fin 16} :
    (upgradeShared s c physicalAddress st w).Sat (Quiet c a s) fun _ => True := by
  unfold upgradeShared
  split
  · exact snoopInvalidatePeers_quiet.bind fun r hr =>
      hr.trans (.setL2 fun _ => ⟨rfl, Iff.rfl⟩)
  · exact .refl s

/-! ## Hits -/

/-- The access has hit in cache `k`, and the line is in the L1D of the core. -/
structure Hits (k : HitKind) (c : CoreId) (a : LineNo) (s s' : Sim) : Prop where
  quiet : Quiet c a (s.modifyPmc c (·.bump k)) s'
  copy : s'.HasCopy .data c a

@[simp] theorem l1_modifyPmc (s : Sim) (c : CoreId) (f : PerfCounters → PerfCounters) :
    (s.modifyPmc c f).l1 = s.l1 :=
  l1_modifyCore s c (fun _ => rfl) fun _ => rfl

theorem l2_modifyPmc (s : Sim) (c : CoreId) (f : PerfCounters → PerfCounters) :
    (s.modifyPmc c f).l2 = s.l2 := rfl

theorem pmc_modifyPmc (s : Sim) (c : CoreId) (f : PerfCounters → PerfCounters) :
    ((s.modifyPmc c f).cpu.cores c).pmc = f (s.cpu.cores c).pmc := by
  simp [Sim.modifyPmc, modifyCore]

theorem HasCopy.congr (h : s.HasCopy k c a) (hl1 : s'.l1 k = s.l1 k) : s'.HasCopy k c a := by
  rw [hasCopy_iff] at h ⊢
  rwa [hl1]

namespace Hits

variable {kind : HitKind}

theorem fills (h : Hits kind c a s s') : s'.fills = s.fills := h.quiet.fills

theorem callback (h : Hits kind c a s s') : s'.callback = s.callback := h.quiet.keeps.callback

theorem prefetchEvents (h : Hits kind c a s s') : s'.prefetchEvents = s.prefetchEvents :=
  h.quiet.keeps.prefetchEvents

theorem streams (h : Hits kind c a s s') : s'.streams = s.streams :=
  h.quiet.keeps.streams.trans (streams_modifyCore s c fun _ => rfl)

theorem pmc (h : Hits kind c a s s') :
    (s'.cpu.cores c).pmc = (s.cpu.cores c).pmc.bump kind := by
  rw [h.quiet.keeps.pmc, pmc_modifyPmc]

theorem resident_iff (h : Hits kind c a s s') {b : LineNo} : s'.Resident b ↔ s.Resident b := by
  rw [h.quiet.resident_iff, Sim.resident_iff, Sim.resident_iff, l2_modifyPmc]

theorem hasCopy (h : Hits kind c a s s') {b : LineNo} {c' : CoreId} (hb : s'.HasCopy k c' b) :
    s.HasCopy k c' b ∨ k = .data ∧ c' = c ∧ b = a :=
  (h.quiet.hasCopy hb).imp_left fun h => h.congr (by rw [l1_modifyPmc])

end Hits

theorem readL1Hit_hits {physicalAddress : Addr} {v : Fin 8} {size : ℕ}
    (hfind : findL1Way (s.l1 .data c (l1ToIndex physicalAddress)) (l1ToTag physicalAddress) =
      some v) :
    (readL1Hit s c physicalAddress v size).Sat
      (fun r => Hits .l1d c (lineNo physicalAddress) s r.1) fun _ => True := by
  unfold readL1Hit
  dsimp only
  unfold l1CacheReadWay
  split
  · rw [Except.ok_bind, Except.sat_ok]
    dsimp only
    refine ⟨?_, ?_⟩
    · change Quiet c _ (s.modifyPmc c fun pmc => { pmc with l1dHits := pmc.l1dHits + 1 }) _
      refine Quiet.trans ?_ (.setL1 ?_)
      · exact (Quiet.emit _ (by decide) ..).modifyPmc c _
      · rw [l1_modifyPmc, l1_emit]
        exact fun _ => ⟨rfl, id⟩
    · rw [hasCopy_iff]
      simp only [l1Geometry_index_lineNo, l1Geometry_tag_lineNo]
      refine ⟨v, ?_⟩
      rw [l1_setL1_self]
      exact findL1Way_found hfind
  · trivial

theorem hasCopy_fillL1 (v : Fin 8) (line : Line) (st : MESIState) (hst : st ≠ .invalid) :
    (s.setL1 .data c (l1Geometry.index a)
      (l1CacheFill (s.l1 .data c (l1Geometry.index a)) (l1Geometry.tag a) v line st)).HasCopy
        .data c a := by
  rw [hasCopy_iff]
  refine ⟨v, ?_⟩
  rw [l1_setL1_self]
  exact ⟨Function.update_self .., by simpa [l1CacheFill] using hst⟩

theorem readL2Hit_hits {physicalAddress : Addr} {w : Fin 16} {size : ℕ}
    (hfind : l2FindWay (s.l2 (l2ToIndex physicalAddress)) (l2ToTag physicalAddress) = some w) :
    (readL2Hit s c physicalAddress w size).Sat
      (fun r => Hits .l2 c (lineNo physicalAddress) s r.1) fun _ => True := by
  have hway := (l2FindWay_found hfind).2
  have hemit : Quiet c (lineNo physicalAddress) s _ := .emit .l2Hit (by decide) c 2
    (l2ToIndex physicalAddress) w physicalAddress
    ((s.l2 (l2ToIndex physicalAddress)).state w) ((s.l2 (l2ToIndex physicalAddress)).state w) none
  unfold readL2Hit
  dsimp only
  refine (evictL1_quiet (c := c) (a := lineNo physicalAddress)).bind fun r₁ h₁ => ?_
  have hroom := hemit.trans h₁
  refine (busRead_quiet (a := lineNo physicalAddress) (hroom.state_ne hway)).bind fun r₂ h₂ => ?_
  have hread := (hroom.trans h₂).modifyPmc c fun pmc => { pmc with l2Hits := pmc.l2Hits + 1 }
  refine (Except.sat_returned _).bind fun data _ => ?_
  rw [Except.sat_ok, ← l1Geometry_index_lineNo, ← l1Geometry_tag_lineNo]
  have hst : (if r₂.2.2 then MESIState.shared else .exclusive) ≠ .invalid := by
    split <;> decide
  refine ⟨(hread.trans (.fillL1 ..)).trans (.emit _ (by decide) ..), ?_⟩
  dsimp only
  exact HasCopy.congr (hasCopy_fillL1 (s := r₂.1.modifyPmc c fun pmc =>
    { pmc with l2Hits := pmc.l2Hits + 1 }) r₁.2 r₂.2.1 _ hst) (by rw [l1_emit])

theorem writeL1Hit_hits {physicalAddress : Addr} {v : Fin 8} {data : List Byte}
    (hl1 : findL1Way (s.l1 .data c (l1ToIndex physicalAddress)) (l1ToTag physicalAddress) =
      some v) :
    (writeL1Hit s c physicalAddress v data).Sat
      (fun r => Hits .l1d c (lineNo physicalAddress) s r.1) fun _ => True := by
  unfold writeL1Hit
  dsimp only
  rw [← l2Geometry_index_lineNo, ← l2Geometry_tag_lineNo, ← l1Geometry_index_lineNo]
  rw [← l1Geometry_index_lineNo, ← l1Geometry_tag_lineNo] at hl1
  split
  · trivial
  · rename_i w hfind
    have hway := (l2FindWay_found hfind).2
    refine (upgradeShared_quiet (c := c) (a := lineNo physicalAddress)).bind fun t₁ h₁ => ?_
    refine (snoopInvalidatePeersI_quiet (c := c) (a := lineNo physicalAddress)).bind fun t₂ h₂ => ?_
    have hsnoop := h₁.trans h₂
    have hclaim := (hsnoop.trans (.setL2 (L2Set.sameLines_claimForStore
      (hsnoop.state_ne hway) c))).modifyPmc c fun pmc => { pmc with l1dHits := pmc.l1dHits + 1 }
    have htag := hclaim.tag_eq (b := c) (v := v)
      (by rw [l1_modifyPmc]; exact (findL1Way_found hl1).1)
    unfold l1CacheWriteWay
    split
    · rw [Except.ok_bind, Except.sat_ok]
      dsimp only
      refine ⟨?_, ?_⟩
      · refine Quiet.trans ?_ (.emit _ (by decide) ..)
        refine Quiet.trans ?_ (.store ..)
        exact hclaim.trans (.setL1_self (v := v) htag fun u hu =>
          ⟨rfl, Function.update_of_ne hu _ _⟩)
      · rw [hasCopy_iff]
        refine ⟨v, ?_⟩
        rw [l1_emit, l1_record, l1_setL1_self]
        exact ⟨htag, by simp⟩
    · trivial

theorem snoopInvalidatePeersI_l1d {sharers : BitVec 8} {i : Fin 64} {tag : Addr} :
    (snoopInvalidatePeersI s sharers i tag).Sat (fun t => t.l1 .data = s.l1 .data)
      fun _ => True := by
  unfold snoopInvalidatePeersI
  refine forEachSharer_keeps (P := fun t : Sim => t.l1 .data = s.l1 .data)
    (F := fun _ => True) trivial
    (fun b t _ ht => ?_) 8 rfl
  unfold snoopInvalidatePeerI
  dsimp only
  split
  · exact ht
  · rw [Except.sat_ok, ← ht]
    funext c i
    rw [l1_setL1, if_neg (by simp), l1_emit]

theorem writeL2Hit_hits {physicalAddress : Addr} {w : Fin 16} {data : List Byte}
    (hfind : l2FindWay (s.l2 (l2ToIndex physicalAddress)) (l2ToTag physicalAddress) = some w) :
    (writeL2Hit s c physicalAddress w data).Sat
      (fun r => Hits .l2 c (lineNo physicalAddress) s r.1) fun _ => True := by
  have hway := (l2FindWay_found hfind).2
  have hemit : Quiet c (lineNo physicalAddress) s _ := .emit .l2Hit (by decide) c 2
    (l2ToIndex physicalAddress) w physicalAddress
    ((s.l2 (l2ToIndex physicalAddress)).state w) ((s.l2 (l2ToIndex physicalAddress)).state w) none
  unfold writeL2Hit
  dsimp only
  refine (snoopInvalidatePeers_quiet (c := c) (a := lineNo physicalAddress)).bind fun r₁ h₁ => ?_
  refine (Except.sat_returned _).bind fun line _ => ?_
  refine (evictL1_quiet (c := c) (a := lineNo physicalAddress)).bind fun r₂ h₂ => ?_
  rw [← l1Geometry_index_lineNo, ← l1Geometry_tag_lineNo]
  have hfill := ((hemit.trans h₁).trans h₂).trans (.fillL1 r₂.2 line .modified)
  have hfilled := hfill.trans ((Quiet.store _ physicalAddress data).trans (.emit .l1dFill
    (by decide) c 1 (l1Geometry.index (lineNo physicalAddress)) r₂.2 physicalAddress .invalid
    .modified (some line)))
  refine ((snoopInvalidatePeersI_quiet (c := c) (a := lineNo physicalAddress)).both
    snoopInvalidatePeersI_l1d).bind fun t₃ h₃ => ?_
  obtain ⟨h₃, hl1d⟩ := h₃
  have hsnoop := hfilled.trans h₃
  rw [Except.sat_ok]
  dsimp only
  refine ⟨?_, ?_⟩
  · refine Quiet.modifyPmc (hsnoop.trans (.setL2 ?_)) c _
    rw [← l2Geometry_index_lineNo] at hway ⊢
    exact L2Set.sameLines_claimForStore (hsnoop.state_ne hway) c
  · refine HasCopy.congr (hasCopy_fillL1 (s := r₂.1) r₂.2 line .modified (by decide)) ?_
    rw [l1_modifyPmc, l1_setL2, hl1d, l1_emit, l1_record]

end Sim

end CacheSimulator
