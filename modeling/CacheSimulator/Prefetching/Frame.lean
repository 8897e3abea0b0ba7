import CacheSimulator.Refinement.Miss
import CacheSimulator.Replay.Snoops

/-!
# What an access leaves alone

Only the prefetcher changes the stream tables and emits prefetch events, and only
misses and prefetches bring lines into L2. `KeepsPrefetcher` and `Stays` say so of
the other parts of a call, whatever state they start from.
-/

namespace CacheSimulator

namespace Sim

def Resident (s : Sim) (a : LineNo) : Prop :=
  l2FindWay (s.l2 (l2Geometry.index a)) (l2Geometry.tag a) ≠ none

def HasCopy (s : Sim) (k : L1Kind) (c : CoreId) (a : LineNo) : Prop :=
  findL1Way (s.l1 k c (l1Geometry.index a)) (l1Geometry.tag a) ≠ none

instance (s : Sim) (a : LineNo) : Decidable (s.Resident a) := inferInstanceAs (Decidable (_ ≠ _))

instance (s : Sim) (k : L1Kind) (c : CoreId) (a : LineNo) : Decidable (s.HasCopy k c a) :=
  inferInstanceAs (Decidable (_ ≠ _))

/-- The cores that the prefetch events recorded so far name. -/
def prefetchEvents (s : Sim) : List (BitVec 8) :=
  s.events.filterMap fun e => if e.type = .prefetchL2 then some e.coreId else none

variable {s s' s'' : Sim} {a b : LineNo} {c : CoreId} {k : L1Kind}

theorem resident_iff : s.Resident a ↔ ∃ w, (s.l2 (l2Geometry.index a)).tag w = l2Geometry.tag a ∧
    (s.l2 (l2Geometry.index a)).state w ≠ .invalid := by
  rw [Resident, ne_eq, l2FindWay, List.find?_eq_none]
  simp

theorem hasCopy_iff : s.HasCopy k c a ↔
    ∃ v, (s.l1 k c (l1Geometry.index a)).tag v = l1Geometry.tag a ∧
      (s.l1 k c (l1Geometry.index a)).state v ≠ .invalid := by
  rw [HasCopy, ne_eq, findL1Way, List.find?_eq_none]
  simp

theorem Placed.resident_iff (h : s.Placed) : s.Resident a ↔ (s.rep a).l2 ≠ none := by
  rw [Resident, not_iff_not]
  refine ⟨l2_eq_none_of_find, fun hnone => ?_⟩
  cases hfind : l2FindWay (s.l2 (l2Geometry.index a)) (l2Geometry.tag a) with
  | none => rfl
  | some w =>
      obtain ⟨e, he⟩ := l2FindWay_eq_some hfind
      rw [h.l2_of_slots he] at hnone
      cases hnone

theorem Placed.hasCopy_iff (h : s.Placed) : s.HasCopy k c a ↔ (s.rep a).l1 k c ≠ none := by
  rw [HasCopy, not_iff_not]
  exact ⟨l1_eq_none_of_find, h.find_l1_none⟩

theorem Inv.resident_of_hasCopy (hs : s.Inv) (h : s.HasCopy k c a) : s.Resident a := by
  rw [hs.placed.hasCopy_iff] at h
  obtain ⟨e, he⟩ := (hs.lineOk a).inclusion h
  rw [hs.placed.resident_iff, he]
  exact Option.some_ne_none e

/-! ## Parts of a call that do not prefetch -/

/-- The stream tables, the counters and the prefetch events are as they were. -/
structure KeepsPrefetcher (s s' : Sim) : Prop where
  prefetcher : ∀ c, (s'.cpu.cores c).prefetcher = (s.cpu.cores c).prefetcher
  pmc : ∀ c, (s'.cpu.cores c).pmc = (s.cpu.cores c).pmc
  callback : s'.callback = s.callback
  prefetchEvents : s'.prefetchEvents = s.prefetchEvents

namespace KeepsPrefetcher

theorem refl (s : Sim) : KeepsPrefetcher s s := ⟨fun _ => rfl, fun _ => rfl, rfl, rfl⟩

theorem trans (h : KeepsPrefetcher s s') (h' : KeepsPrefetcher s' s'') : KeepsPrefetcher s s'' :=
  ⟨fun c => (h'.prefetcher c).trans (h.prefetcher c), fun c => (h'.pmc c).trans (h.pmc c),
    h'.callback.trans h.callback, h'.prefetchEvents.trans h.prefetchEvents⟩

theorem emit (type : CacheEventType) (htype : type ≠ .prefetchL2) (coreId level set way : ℕ)
    (addr : Addr) (oldState newState : MESIState) (data : Option Line) :
    KeepsPrefetcher s (s.emit type coreId level set way addr oldState newState data) := by
  refine ⟨fun c => by rw [cpu_emit], fun c => by rw [cpu_emit], callback_emit .., ?_⟩
  unfold Sim.emit Sim.prefetchEvents
  split
  · simp [htype]
  · rfl

theorem modifyCore {f : Core → Core} (hp : ∀ core, (f core).prefetcher = core.prefetcher)
    (hpmc : ∀ core, (f core).pmc = core.pmc) : KeepsPrefetcher s (s.modifyCore c f) := by
  refine ⟨fun b => ?_, fun b => ?_, rfl, rfl⟩
  · by_cases hb : b = c
    · subst hb
      simp [Sim.modifyCore, hp]
    · simp [Sim.modifyCore, hb]
  · by_cases hb : b = c
    · subst hb
      simp [Sim.modifyCore, hpmc]
    · simp [Sim.modifyCore, hb]

theorem setL1 (s : Sim) (k : L1Kind) (c : CoreId) (i : Fin 64) (set : L1Set) :
    KeepsPrefetcher s (s.setL1 k c i set) :=
  .modifyCore (fun _ => by cases k <;> rfl) fun _ => by cases k <;> rfl

theorem setL2 (s : Sim) (i : Fin 4096) (set : L2Set) : KeepsPrefetcher s (s.setL2 i set) :=
  ⟨fun _ => rfl, fun _ => rfl, rfl, rfl⟩

theorem record (s : Sim) (op : MemOp) : KeepsPrefetcher s (s.record op) :=
  ⟨fun _ => rfl, fun _ => rfl, rfl, rfl⟩

theorem setMem (s : Sim) (mem : Memory) : KeepsPrefetcher s { s with mem := mem } :=
  ⟨fun _ => rfl, fun _ => rfl, rfl, rfl⟩

theorem streams (h : KeepsPrefetcher s s') : s'.streams = s.streams :=
  funext fun c => congrArg Prefetcher.streams (h.prefetcher c)

end KeepsPrefetcher

/-! ## Evictions from L2 -/

theorem backInvalidateD_keepsPrefetcher {i : Fin 4096} {w : Fin 16} {addr : Addr} :
    (backInvalidateD i w addr c s).Sat (KeepsPrefetcher s) fun _ => True := by
  unfold backInvalidateD
  dsimp only
  split
  · trivial
  · refine KeepsPrefetcher.trans ?_ (.setL1 ..)
    refine KeepsPrefetcher.trans ?_ (.emit _ (by decide) ..)
    split
    · exact .setL2 ..
    · exact .refl s

theorem backInvalidateI_keepsPrefetcher {addr : Addr} :
    (backInvalidateI addr c s).Sat (KeepsPrefetcher s) fun _ => True := by
  unfold backInvalidateI
  dsimp only
  split
  · trivial
  · exact (KeepsPrefetcher.emit _ (by decide) ..).trans (.setL1 ..)

theorem backInvalidate_keepsPrefetcher {i : Fin 4096} {w : Fin 16} {addr : Addr}
    {validD validI : BitVec 8} :
    (backInvalidate i w addr validD validI c s).Sat (KeepsPrefetcher s) fun _ => True := by
  have hd : Except.Sat (if validD.getLsbD c then backInvalidateD i w addr c s else .ok s)
      (KeepsPrefetcher s) fun _ => True := by
    split
    · exact backInvalidateD_keepsPrefetcher
    · exact .refl s
  refine hd.bind fun t ht => ?_
  split
  · exact backInvalidateI_keepsPrefetcher.imp fun u hu => ht.trans hu
  · exact ht

theorem writeBack_keepsPrefetcher {i : Fin 4096} {w : Fin 16} {addr : Addr} :
    (writeBack i w addr s).Sat (KeepsPrefetcher s) fun _ => True := by
  unfold writeBack
  split
  · split
    · trivial
    · exact (Except.sat_returned _).bind fun mem _ => .setMem s mem
  · exact .refl s

theorem evictL2_keepsPrefetcher {i : Fin 4096} :
    (evictL2 s i).Sat (fun r => KeepsPrefetcher s r.1) fun _ => True := by
  unfold evictL2
  dsimp only
  split
  · exact .refl s
  · refine (forEachSharer_keeps (P := KeepsPrefetcher s) (F := fun _ => True) trivial
      (fun c t _ ht => backInvalidate_keepsPrefetcher.imp fun u hu => ht.trans hu) 8
      (.refl s)).bind fun t ht => ?_
    refine writeBack_keepsPrefetcher.bind fun u hu => ?_
    exact (ht.trans hu).trans ((KeepsPrefetcher.emit _ (by decide) ..).trans (.setL2 ..))

end Sim

end CacheSimulator
