import CacheSimulator.Replay.Snoops

/-!
# What an access leaves alone

After its translation a call changes the state only by the updates of sets,
streams, counters, events, the history variable and memory. A property that no
such update can break is kept by every access.
-/

namespace CacheSimulator

namespace Sim

structure UpdateClosed (P : Sim → Prop) : Prop where
  setL1 : ∀ {s} k c i set, P s → P (s.setL1 k c i set)
  setL2 : ∀ {s} i set, P s → P (s.setL2 i set)
  emit : ∀ {s} type coreId level set way addr oldState newState data, P s →
    P (s.emit type coreId level set way addr oldState newState data)
  record : ∀ {s} op, P s → P (s.record op)
  setMem : ∀ {s} mem, P s → P { s with mem := mem }
  modifyPmc : ∀ {s} c f, P s → P (s.modifyPmc c f)
  setStream : ∀ {s} c i stream, P s → P (s.setStream c i stream)

namespace UpdateClosed

variable {P : Sim → Prop} {s : Sim} {c : CoreId} {k : L1Kind}

/-! ## Snoops -/

theorem snoopDowngradePeers (hP : UpdateClosed P) (h : P s) {sharers : BitVec 8} {l1Index : Fin 64}
    {l1Tag : Addr} {line : Line} {l2Index : Fin 4096} {w : Fin 16} :
    (snoopDowngradePeers s sharers l1Index l1Tag line l2Index w).Sat (fun r => P r.1)
      fun _ => True := by
  unfold CacheSimulator.snoopDowngradePeers
  refine forEachSharer_keeps (P := fun r : Sim × Line => P r.1) trivial (fun b r _ hr => ?_) 8
    (hP.setL2 _ _ h)
  obtain ⟨t, line⟩ := r
  unfold snoopDowngradePeer
  dsimp only
  split
  · exact hr
  · rw [Except.sat_ok]
    dsimp only
    refine hP.setL1 _ _ _ _ (hP.emit _ _ _ _ _ _ _ _ _ ?_)
    split
    · exact hP.setL2 _ _ hr
    · exact hr

theorem snoopInvalidatePeersI (hP : UpdateClosed P) (h : P s) {sharers : BitVec 8}
    {l1Index : Fin 64} {l1Tag : Addr} :
    (snoopInvalidatePeersI s sharers l1Index l1Tag).Sat P fun _ => True := by
  refine forEachSharer_keeps trivial (fun b t _ ht => ?_) 8 h
  unfold snoopInvalidatePeerI
  dsimp only
  split
  · exact ht
  · exact hP.setL1 _ _ _ _ (hP.emit _ _ _ _ _ _ _ _ _ ht)

theorem snoopInvalidatePeers (hP : UpdateClosed P) (h : P s) {sharers : BitVec 8}
    {l1Index : Fin 64} {l1Tag : Addr} {lineOut : Option Line} {l2Index : Fin 4096} {w : Fin 16} :
    (snoopInvalidatePeers s sharers l1Index l1Tag lineOut l2Index w).Sat (fun r => P r.1)
      fun _ => True := by
  refine forEachSharer_keeps (P := fun r : Sim × Option Line => P r.1) trivial
    (fun b r _ hr => ?_) 8 h
  obtain ⟨t, lineOut⟩ := r
  unfold snoopInvalidatePeer
  dsimp only
  split
  · exact hP.setL2 _ _ hr
  · dsimp only
    exact hP.setL2 _ _ (hP.setL1 _ _ _ _ (hP.emit _ _ _ _ _ _ _ _ _ hr))

/-! ## Evictions -/

theorem evictL1 (hP : UpdateClosed P) (h : P s) {i : Fin 64} :
    (evictL1 k s i c).Sat (fun r => P r.1) fun _ => True := by
  unfold CacheSimulator.evictL1
  dsimp only
  split
  · exact h
  · split
    · trivial
    · exact hP.setL1 _ _ _ _ (hP.emit _ _ _ _ _ _ _ _ _ (hP.setL2 _ _ h))

theorem backInvalidate (hP : UpdateClosed P) (h : P s) {i : Fin 4096} {w : Fin 16} {addr : Addr}
    {validD validI : BitVec 8} :
    (backInvalidate i w addr validD validI c s).Sat P fun _ => True := by
  have hd : Except.Sat (if validD.getLsbD c then backInvalidateD i w addr c s else .ok s) P
      fun _ => True := by
    split
    · unfold backInvalidateD
      dsimp only
      split
      · trivial
      · refine hP.setL1 _ _ _ _ (hP.emit _ _ _ _ _ _ _ _ _ ?_)
        split
        · exact hP.setL2 _ _ h
        · exact h
    · exact h
  refine hd.bind fun t ht => ?_
  split
  · unfold backInvalidateI
    dsimp only
    split
    · trivial
    · exact hP.setL1 _ _ _ _ (hP.emit _ _ _ _ _ _ _ _ _ ht)
  · exact ht

theorem evictL2 (hP : UpdateClosed P) (h : P s) {i : Fin 4096} :
    (evictL2 s i).Sat (fun r => P r.1) fun _ => True := by
  unfold CacheSimulator.evictL2
  dsimp only
  split
  · exact h
  · refine (forEachSharer_keeps (P := P) (F := fun _ => True) trivial
      (fun b t _ ht => hP.backInvalidate ht) 8 h).bind fun t ht => ?_
    have hwriteBack : ∀ w addr, (writeBack i w addr t).Sat P fun _ => True := by
      intro w addr
      unfold writeBack
      split
      · split
        · trivial
        · exact (Except.sat_returned _).bind fun mem _ => hP.setMem mem ht
      · exact ht
    refine (hwriteBack _ _).bind fun u hu => ?_
    exact hP.setL2 _ _ (hP.emit _ _ _ _ _ _ _ _ _ hu)

/-! ## Prefetches -/

theorem pfFillL2 (hP : UpdateClosed P) (h : P s) {fromLine nextLine : Addr} :
    (pfFillL2 s fromLine nextLine).Sat (fun r => P r.1) fun _ => True := by
  unfold CacheSimulator.pfFillL2
  dsimp only
  split
  · exact h
  · split
    · exact h
    · split
      · exact h
      · refine (hP.evictL2 h).bind fun r hr => ?_
        refine (Except.sat_returned _).bind fun bytes _ => ?_
        refine (Except.sat_returned _).bind fun set _ => ?_
        exact hP.emit _ _ _ _ _ _ _ _ _ (hP.record _ (hP.setL2 _ _ hr))

theorem pfBurst (hP : UpdateClosed P) {missLine : Addr} {stride : BitVec 64} (fuel : ℕ)
    {stream : Stream} (h : P s) :
    (pfBurst missLine stride fuel stream s).Sat (fun r => P r.2) fun _ => True := by
  induction fuel generalizing stream s with
  | zero => exact h
  | succ fuel ih =>
      unfold CacheSimulator.pfBurst
      dsimp only
      split
      · exact h
      · refine (hP.pfFillL2 h).bind fun r hr => ?_
        obtain ⟨t, filled⟩ := r
        dsimp only
        split
        · exact hr
        · exact ih hr

theorem pfStreamOnMiss (hP : UpdateClosed P) (h : P s) {missLine : Addr} :
    (pfStreamOnMiss s c missLine).Sat P fun _ => True := by
  unfold CacheSimulator.pfStreamOnMiss
  dsimp only
  split
  · exact (hP.pfBurst 9 h).bind fun r hr => hP.setStream _ _ _ hr
  · exact hP.setStream _ _ _ h

/-! ## The paths of a read -/

variable {physicalAddress : Addr} {size : ℕ} {data : List Byte}

theorem busRead (hP : UpdateClosed P) (h : P s) {w : Fin 16} :
    (busRead k s c physicalAddress w).Sat (fun r => P r.1) fun _ => True := by
  unfold CacheSimulator.busRead
  dsimp only
  split
  · refine (hP.snoopDowngradePeers (hP.setL2 _ _ h)).bind fun r hr => ?_
    exact hr
  · exact hP.setL2 _ _ h

theorem readL1Hit (hP : UpdateClosed P) (h : P s) {w : Fin 8} :
    (readL1Hit s c physicalAddress w size).Sat (fun r => P r.1) fun _ => True := by
  unfold CacheSimulator.readL1Hit
  refine (Except.sat_returned _).bind fun r _ => ?_
  obtain ⟨bytes, set⟩ := r
  rw [Except.sat_ok]
  dsimp only
  exact hP.setL1 _ _ _ _ (hP.modifyPmc _ _ (hP.emit _ _ _ _ _ _ _ _ _ h))

theorem readL2Hit (hP : UpdateClosed P) (h : P s) {w : Fin 16} :
    (readL2Hit s c physicalAddress w size).Sat (fun r => P r.1) fun _ => True := by
  unfold CacheSimulator.readL2Hit
  refine (hP.evictL1 (hP.emit _ _ _ _ _ _ _ _ _ h)).bind fun r hr => ?_
  refine (hP.busRead hr).bind fun t ht => ?_
  refine (Except.sat_returned _).bind fun bytes _ => ?_
  exact hP.emit _ _ _ _ _ _ _ _ _ (hP.setL1 _ _ _ _ (hP.modifyPmc _ _ ht))

theorem readMiss (hP : UpdateClosed P) (h : P s) :
    (readMiss s c physicalAddress size).Sat (fun r => P r.1) fun _ => True := by
  unfold CacheSimulator.readMiss
  dsimp only
  split
  · trivial
  · refine (hP.evictL2 h).bind fun r hr => ?_
    refine (hP.evictL1 hr).bind fun r' hr' => ?_
    refine (Except.sat_returned _).bind fun line _ => ?_
    refine (Except.sat_returned _).bind fun set _ => ?_
    refine (hP.pfStreamOnMiss ?_).bind fun t ht => ?_
    · refine hP.emit _ _ _ _ _ _ _ _ _ (hP.emit _ _ _ _ _ _ _ _ _ (hP.setL1 _ _ _ _ ?_))
      exact hP.emit _ _ _ _ _ _ _ _ _ (hP.record _ (hP.setL2 _ _ hr'))
    · refine (Except.sat_returned _).bind fun bytes _ => ?_
      rw [Except.sat_ok]
      dsimp only
      exact hP.modifyPmc _ _ ht

/-! ## The paths of a write -/

theorem writeL1Hit (hP : UpdateClosed P) (h : P s) {w : Fin 8} :
    (writeL1Hit s c physicalAddress w data).Sat (fun r => P r.1) fun _ => True := by
  unfold CacheSimulator.writeL1Hit
  dsimp only
  split
  · trivial
  · rename_i l2Way _
    have hupgrade : ∀ st, (upgradeShared s c physicalAddress st l2Way).Sat P fun _ => True := by
      intro st
      unfold upgradeShared
      split
      · exact (hP.snoopInvalidatePeers h).bind fun r hr => hP.setL2 _ _ hr
      · exact h
    refine (hupgrade _).bind fun t ht => ?_
    refine (hP.snoopInvalidatePeersI ht).bind fun u hu => ?_
    refine (Except.sat_returned _).bind fun set _ => ?_
    refine hP.emit _ _ _ _ _ _ _ _ _ (hP.record _ (hP.setL1 _ _ _ _ ?_))
    exact hP.modifyPmc _ _ (hP.setL2 _ _ hu)

theorem writeL2Hit (hP : UpdateClosed P) (h : P s) {w : Fin 16} :
    (writeL2Hit s c physicalAddress w data).Sat (fun r => P r.1) fun _ => True := by
  unfold CacheSimulator.writeL2Hit
  refine (hP.snoopInvalidatePeers (hP.emit _ _ _ _ _ _ _ _ _ h)).bind fun r hr => ?_
  refine (Except.sat_returned _).bind fun line _ => ?_
  refine (hP.evictL1 hr).bind fun t ht => ?_
  refine (hP.snoopInvalidatePeersI ?_).bind fun u hu => ?_
  · exact hP.emit _ _ _ _ _ _ _ _ _ (hP.record _ (hP.setL1 _ _ _ _ ht))
  · rw [Except.sat_ok]
    dsimp only
    exact hP.modifyPmc _ _ (hP.setL2 _ _ hu)

theorem writeMiss (hP : UpdateClosed P) (h : P s) :
    (writeMiss s c physicalAddress data).Sat (fun r => P r.1) fun _ => True := by
  unfold CacheSimulator.writeMiss
  dsimp only
  split
  · trivial
  · refine (Except.sat_returned _).bind fun memLine _ => ?_
    refine (Except.sat_returned _).bind fun line _ => ?_
    refine (hP.evictL2 h).bind fun r hr => ?_
    refine (hP.evictL1 hr).bind fun r' hr' => ?_
    refine (Except.sat_returned _).bind fun set _ => ?_
    refine (hP.pfStreamOnMiss ?_).bind fun t ht => ?_
    · refine hP.emit _ _ _ _ _ _ _ _ _ (hP.emit _ _ _ _ _ _ _ _ _ (hP.setL1 _ _ _ _ ?_))
      exact hP.emit _ _ _ _ _ _ _ _ _ (hP.record _ (hP.record _ (hP.setL2 _ _ hr')))
    · rw [Except.sat_ok]
      dsimp only
      exact hP.modifyPmc _ _ ht

/-! ## Calls -/

/-- A data access keeps the property that its translation leaves behind. -/
theorem cpuRead (hP : UpdateClosed P) {virtualAddress : Addr}
    (h : P (translateData s c virtualAddress).2) :
    (cpuRead s c virtualAddress size).Sat (fun r => P r.1) fun _ => True := by
  unfold CacheSimulator.cpuRead
  generalize translateData s c virtualAddress = r at h ⊢
  obtain ⟨found, t⟩ := r
  cases found with
  | none => exact h
  | some pa =>
      dsimp only
      split
      · exact hP.readL1Hit h
      · split
        · exact hP.readL2Hit h
        · exact hP.readMiss h

theorem cpuWrite (hP : UpdateClosed P) {virtualAddress : Addr}
    (h : P (translateData s c virtualAddress).2) :
    (cpuWrite s c virtualAddress data).Sat (fun r => P r.1) fun _ => True := by
  unfold CacheSimulator.cpuWrite
  generalize translateData s c virtualAddress = r at h ⊢
  obtain ⟨found, t⟩ := r
  cases found with
  | none => exact h
  | some pa =>
      dsimp only
      split
      · exact hP.writeL1Hit h
      · split
        · exact hP.writeL2Hit h
        · exact hP.writeMiss h

end UpdateClosed

end Sim

end CacheSimulator
