import CacheSimulator.Prefetching.Hits
import CacheSimulator.Prefetching.Streams
import CacheSimulator.Refinement.Call

/-!
# Data accesses

A call of `cpu_read` or `cpu_write` that returns has hit in the L1D of its core, has
hit in L2, or has missed. A miss first brings in its own line and then makes one
call of `pf_stream_on_miss`.
-/

namespace CacheSimulator

open Mesi

namespace Sim

variable {s s' s₂ s₄ t : Sim} {a b : LineNo} {c : CoreId} {k : L1Kind} {physicalAddress : Addr}

/-- Line `a`, which was in no cache, is in L2 and in the L1D of core `c`. Lines of its L2
set may have gone, and the prefetcher has not been consulted. -/
structure Demands (c : CoreId) (a : LineNo) (s s' : Sim) : Prop where
  inv : s'.Inv
  keeps : KeepsPrefetcher s s'
  size : s'.mem.size = s.mem.size
  fills : s'.fills = s.fills ++ [lineAddr a]
  inMemory : s.InMemory (lineAddr a)
  absent : ¬s.Resident a
  present : s'.Resident a
  copy : s'.HasCopy .data c a
  frame : ∀ b, l2Geometry.index b ≠ l2Geometry.index a → (s'.Resident b ↔ s.Resident b)
  resident : ∀ b, s'.Resident b → s.Resident b ∨ b = a
  copies : ∀ k c' b, s'.HasCopy k c' b → s.HasCopy k c' b ∨ k = .data ∧ c' = c ∧ b = a

/-- The line a data miss brings in, in the caches. -/
structure BroughtIn (c : CoreId) (x y : LineState CoreId Line) : Prop where
  l2 : y.l2 ≠ none
  copy : y.d c ≠ none
  other : ∀ c', c' ≠ c → y.d c' = x.d c'
  instr : y.i = x.i

theorem broughtIn_of_loadD {x y : LineState CoreId Line}
    (h : Mesi.Step Store.act x (.loadD c) y) : BroughtIn c x y := by
  cases h with
  | loadD =>
      refine ⟨Option.some_ne_none _, ?_, fun c' hc' => Function.update_of_ne hc' _ _, rfl⟩
      simp

theorem broughtIn_of_loadStore {x y : LineState CoreId Line} {st : Store}
    (h : Mesi.Step Store.act x (.loadStore c st) y) : BroughtIn c x y := by
  cases h with
  | loadStore =>
      refine ⟨Option.some_ne_none _, ?_, fun c' hc' => Function.update_of_ne hc' _ _, rfl⟩
      simp

theorem fillDemand_keepsPrefetcher (s : Sim) (c : CoreId) (a : LineNo) (w : Fin 16) (v : Fin 8)
    (line : Line) (st : MESIState) : KeepsPrefetcher s (fillDemand s c a w v line st) := by
  unfold fillDemand
  refine KeepsPrefetcher.trans ?_ (.emit _ (by decide) ..)
  refine KeepsPrefetcher.trans ?_ (.emit _ (by decide) ..)
  exact (KeepsPrefetcher.emit _ (by decide) ..).trans (.setL1 ..)

theorem BringsIn.demands {α : Action CoreId Store} (hs : s.Inv) (ha : (s.rep a).l2 = none)
    (h : BringsIn c a s s₂ s₄) (hbg : Background s s₂) (hm : LineMove s₂ a α s₄) (hα : α.Enters)
    (hbrought : BroughtIn c (s₂.rep a).view (s₄.rep a).view) : Demands c a s s₄ := by
  obtain ⟨s₁, w, v, hevict₂, hevict₁, history, l2Set, line, st, hs₄⟩ := h
  obtain ⟨-, -, hroom⟩ := (evictL2_makesRoom hs).of_eq_ok hevict₂
  have hquiet : Quiet c a s₁ s₂ := evictL1_quiet.of_eq_ok hevict₁
  have hinv₄ := (hm.evolves hbg.inv).inv
  have hkeeps : KeepsPrefetcher s₂ s₄ := by
    have hset : KeepsPrefetcher s₂
        { s₂.setL2 (l2Geometry.index a) l2Set with history := history } :=
      ⟨fun _ => rfl, fun _ => rfl, rfl, rfl⟩
    rw [hs₄]
    exact hset.trans (fillDemand_keepsPrefetcher ..)
  have hrep : ∀ b, b ≠ a → s₄.rep b = s₂.rep b := hm.frame
  have hres : ∀ b, b ≠ a → (s₄.Resident b ↔ s₁.Resident b) := fun b hb => by
    rw [resident_congr hbg.inv.placed hinv₄.placed (hrep b hb), hquiet.resident_iff]
  have hpresent := view_l2_ne_none.mp hbrought.l2
  constructor
  · exact hinv₄
  · exact (hroom.keeps.trans hquiet.keeps).trans hkeeps
  · rw [hm.size, hbg.size]
  · rw [fills_of_records hm.records, if_pos hα, hquiet.fills, Sim.fills, hroom.history, Sim.fills]
  · exact ⟨a, rfl, by rw [← hbg.size]; exact hm.inRange hpresent⟩
  · rw [hs.placed.resident_iff]
    exact not_not.mpr ha
  · exact hinv₄.placed.resident_iff.mpr hpresent
  · exact hinv₄.placed.hasCopy_iff.mpr hbrought.copy
  · intro b hb
    have hba : b ≠ a := fun h => hb (by rw [h])
    rw [hres b hba]
    exact resident_congr hs.placed hroom.background.inv.placed (hroom.frame b hb)
  · intro b hb
    by_cases hba : b = a
    · exact .inr hba
    · exact .inl (hroom.resident b ((hres b hba).mp hb))
  · intro k c' b hb
    by_cases hba : b = a
    · subst hba
      by_cases hk : k = .data ∧ c' = c
      · exact .inr ⟨hk.1, hk.2, rfl⟩
      · -- the other copies of the line are as they were
        have hb₂ : s₂.HasCopy k c' b := by
          rw [hinv₄.placed.hasCopy_iff] at hb
          rw [hbg.inv.placed.hasCopy_iff]
          cases k with
          | data =>
              have hother := hbrought.other c' fun h => hk ⟨rfl, h⟩
              rw [LineRep.view_d, LineRep.view_d] at hother
              rwa [← hother]
          | instr =>
              have hinstr := congrFun hbrought.instr c'
              rw [LineRep.view_i, LineRep.view_i] at hinstr
              intro hnone
              rw [hnone, Option.map_none, Option.map_eq_none_iff] at hinstr
              exact hb hinstr
        exact (hquiet.hasCopy hb₂).imp_left (hroom.copies k c' b)
    · rw [hasCopy_congr hbg.inv.placed hinv₄.placed (hrep b hba)] at hb
      exact (hquiet.hasCopy hb).imp_left (hroom.copies k c' b)

def LoadsLine (c : CoreId) (a : LineNo) (s s' : Sim) : Prop :=
  ∃ t i stream lines u, Demands c a s t ∧
    pfStreamOnMiss t c (lineAddr a) = .ok (u.setStream c i stream) ∧
    t.Written c a i stream lines u ∧ s' = (u.setStream c i stream).modifyPmc c (·.bump .mem)

theorem pfStreamOnMiss_loadsLine (hok : s.StreamsOk) (hd : Demands c a s t) :
    (pfStreamOnMiss t c (lineAddr a)).Sat
      (fun u => LoadsLine c a s
        (u.modifyPmc c fun pmc => { pmc with memFetches := pmc.memFetches + 1 }))
      fun _ => True := by
  have hok' := hok.congr hd.keeps.streams hd.size
  refine ((Except.sat_returned _).both (pfStreamOnMiss_written hd.inv hok'
    (hd.inMemory.of_size hd.size))).imp fun u hu => ?_
  obtain ⟨hreturn, i, stream, lines, u', hwritten, rfl⟩ := hu
  exact ⟨t, i, stream, lines, u', hd, hreturn, hwritten, rfl⟩

theorem readMiss_loadsLine {size : ℕ} (hs : s.Inv) (hok : s.StreamsOk)
    (hmiss : l2FindWay (s.l2 (l2ToIndex physicalAddress)) (l2ToTag physicalAddress) = none) :
    (readMiss s c physicalAddress size).Sat (fun r => LoadsLine c (lineNo physicalAddress) s r.1)
      fun _ => True := by
  by_cases hbounds : lineAddr (lineNo physicalAddress) + 64#64 > s.mem.size
  · unfold readMiss
    dsimp only
    rw [lineBase_eq, if_pos hbounds]
    trivial
  · refine readMiss_sat hs hmiss hbounds (fun _ => trivial) fun _ s₂ s₄ hbrings hbg _ _ hm => ?_
    have hd := hbrings.demands hs (l2_eq_none_of_miss hmiss) hbg hm trivial
      (broughtIn_of_loadD hm.move)
    refine (pfStreamOnMiss_loadsLine hok hd).bind fun u hu => ?_
    exact (Except.sat_returned _).bind fun _ _ => hu

theorem writeMiss_loadsLine {data : List Byte} (hs : s.Inv) (hok : s.StreamsOk)
    (hmiss : l2FindWay (s.l2 (l2ToIndex physicalAddress)) (l2ToTag physicalAddress) = none) :
    (writeMiss s c physicalAddress data).Sat (fun r => LoadsLine c (lineNo physicalAddress) s r.1)
      fun _ => True := by
  by_cases hbounds : lineAddr (lineNo physicalAddress) + 64#64 > s.mem.size
  · unfold writeMiss
    dsimp only
    rw [lineBase_eq, if_pos hbounds]
    trivial
  · refine writeMiss_sat hs hmiss hbounds (fun _ => trivial) (fun _ => trivial)
      fun _ _ s₂ s₄ hbrings hbg _ _ hm => ?_
    have hd := hbrings.demands hs (l2_eq_none_of_miss hmiss) hbg hm trivial
      (broughtIn_of_loadStore hm.move)
    exact (pfStreamOnMiss_loadsLine hok hd).bind fun u hu => hu

/-! ## Calls -/

inductive Accesses (c : CoreId) (a : LineNo) (s s' : Sim) : Prop
  | l1 : s.HasCopy .data c a → Hits .l1d c a s s' → Accesses c a s s'
  | l2 : ¬s.HasCopy .data c a → s.Resident a → Hits .l2 c a s s' → Accesses c a s s'
  | miss : ¬s.HasCopy .data c a → ¬s.Resident a → LoadsLine c a s s' → Accesses c a s s'

/-- The caches, the history, the stream tables, the counters and the prefetch events
are as they were. -/
structure Untouched (s s' : Sim) : Prop where
  sameCaches : SameCaches s s'
  keeps : KeepsPrefetcher s s'

theorem untouched_translateData (s : Sim) (c : CoreId) (virtualAddress : Addr) :
    Untouched s (translateData s c virtualAddress).2 :=
  ⟨.translateData s c virtualAddress,
    .modifyCore (f := fun core => { core with
      l1Dtlb := (translate2 (s.cpu.cores c).l1Dtlb (s.cpu.cores c).l2Dtlb
        (s.pml4s (s.cpu.cores c).activePml4) s.mem virtualAddress).2.1
      l2Dtlb := (translate2 (s.cpu.cores c).l1Dtlb (s.cpu.cores c).l2Dtlb
        (s.pml4s (s.cpu.cores c).activePml4) s.mem virtualAddress).2.2 }) (fun _ => rfl)
        fun _ => rfl⟩

namespace Untouched

theorem resident (h : Untouched s t) : t.Resident a ↔ s.Resident a := by
  rw [resident_iff, resident_iff, h.sameCaches.l2]

theorem hasCopy (h : Untouched s t) : t.HasCopy k c a ↔ s.HasCopy k c a := by
  rw [hasCopy_iff, hasCopy_iff, h.sameCaches.l1]

theorem fills (h : Untouched s t) : t.fills = s.fills := by
  rw [Sim.fills, Sim.fills, h.sameCaches.history]

theorem hits {kind : HitKind} (h : Untouched s t) (hits : Hits kind c a t s') :
    Hits kind c a s s' := by
  have hquiet : Quiet c a s t :=
    .of_caches h.sameCaches.l1 h.sameCaches.l2 h.keeps h.fills
  exact ⟨(hquiet.modifyPmc c _).trans hits.quiet, hits.copy⟩

theorem demands (h : Untouched s t) (hd : Demands c a t s') : Demands c a s s' := by
  have hsize : t.mem.size = s.mem.size := by rw [h.sameCaches.mem]
  constructor
  · exact hd.inv
  · exact h.keeps.trans hd.keeps
  · exact hd.size.trans hsize
  · rw [hd.fills, h.fills]
  · exact hd.inMemory.of_size hsize.symm
  · exact fun ha => hd.absent (h.resident.mpr ha)
  · exact hd.present
  · exact hd.copy
  · exact fun b hb => (hd.frame b hb).trans h.resident
  · exact fun b hb => (hd.resident b hb).imp_left h.resident.mp
  · exact fun k c' b hb => (hd.copies k c' b hb).imp_left h.hasCopy.mp

theorem accesses (h : Untouched s t) (ha : Accesses c a t s') : Accesses c a s s' := by
  cases ha with
  | l1 hcopy hhits => exact .l1 (h.hasCopy.mp hcopy) (h.hits hhits)
  | l2 hcopy hres hhits =>
      exact .l2 (fun h' => hcopy (h.hasCopy.mpr h')) (h.resident.mp hres) (h.hits hhits)
  | miss hcopy hres hmiss =>
      obtain ⟨u, i, stream, lines, v, hd, hreturn, hwritten, rfl⟩ := hmiss
      exact .miss (fun h' => hcopy (h.hasCopy.mpr h')) (fun h' => hres (h.resident.mpr h'))
        ⟨u, i, stream, lines, v, h.demands hd, hreturn, hwritten, rfl⟩

end Untouched

theorem hasCopy_iff_find : s.HasCopy k c (lineNo physicalAddress) ↔
    findL1Way (s.l1 k c (l1ToIndex physicalAddress)) (l1ToTag physicalAddress) ≠ none := by
  rw [HasCopy, l1Geometry_index_lineNo, l1Geometry_tag_lineNo]

theorem resident_iff_find : s.Resident (lineNo physicalAddress) ↔
    l2FindWay (s.l2 (l2ToIndex physicalAddress)) (l2ToTag physicalAddress) ≠ none := by
  rw [Resident, l2Geometry_index_lineNo, l2Geometry_tag_lineNo]

/-- What a call of `cpu_read` or `cpu_write` does: nothing to the caches when it
page-faults, and else an access to the line of its physical address. -/
inductive DataCall (call : Call) (s s' : Sim) : Prop
  | fault : call.physicalAddress s = none → Untouched s s' → DataCall call s s'
  | access {physicalAddress : Addr} : call.physicalAddress s = some physicalAddress →
      Accesses call.coreId (lineNo physicalAddress) s s' → DataCall call s s'

theorem accesses_of_paths {l1Hit : Fin 8 → Except Fault (Sim × Option (List Byte))}
    {l2Hit : Fin 16 → Except Fault (Sim × Option (List Byte))}
    {miss : Except Fault (Sim × Option (List Byte))} (hs : s.Inv) (hok : s.StreamsOk)
    (hst : Untouched s t)
    (hl1 : ∀ v, findL1Way (t.l1 .data c (l1ToIndex physicalAddress)) (l1ToTag physicalAddress) =
      some v → (l1Hit v).Sat (fun r => Hits .l1d c (lineNo physicalAddress) t r.1) fun _ => True)
    (hl2 : ∀ w, l2FindWay (t.l2 (l2ToIndex physicalAddress)) (l2ToTag physicalAddress) = some w →
      (l2Hit w).Sat (fun r => Hits .l2 c (lineNo physicalAddress) t r.1) fun _ => True)
    (hmiss : t.Inv → t.StreamsOk →
      l2FindWay (t.l2 (l2ToIndex physicalAddress)) (l2ToTag physicalAddress) = none →
      miss.Sat (fun r => LoadsLine c (lineNo physicalAddress) t r.1) fun _ => True) :
    Except.Sat
      (match findL1Way (t.l1 .data c (l1ToIndex physicalAddress)) (l1ToTag physicalAddress) with
      | some v => l1Hit v
      | none =>
          match l2FindWay (t.l2 (l2ToIndex physicalAddress)) (l2ToTag physicalAddress) with
          | some w => l2Hit w
          | none => miss)
      (fun r => Accesses c (lineNo physicalAddress) s r.1) fun _ => True := by
  cases hfind : findL1Way (t.l1 .data c (l1ToIndex physicalAddress)) (l1ToTag physicalAddress) with
  | some v =>
      have hcopy : t.HasCopy .data c (lineNo physicalAddress) := by simp [hasCopy_iff_find, hfind]
      exact (hl1 v hfind).imp fun r hr => hst.accesses (.l1 hcopy hr)
  | none =>
      have hcopy : ¬t.HasCopy .data c (lineNo physicalAddress) := by simp [hasCopy_iff_find, hfind]
      dsimp only
      cases hfind' : l2FindWay (t.l2 (l2ToIndex physicalAddress)) (l2ToTag physicalAddress) with
      | some w =>
          have hres : t.Resident (lineNo physicalAddress) := by simp [resident_iff_find, hfind']
          exact (hl2 w hfind').imp fun r hr => hst.accesses (.l2 hcopy hres hr)
      | none =>
          have hres : ¬t.Resident (lineNo physicalAddress) := by simp [resident_iff_find, hfind']
          have hok' : t.StreamsOk := hok.congr hst.sameCaches.streams (by rw [hst.sameCaches.mem])
          exact (hmiss (hs.congr hst.sameCaches) hok' hfind').imp fun r hr =>
            hst.accesses (.miss hcopy hres hr)

theorem cpuRead_accesses {virtualAddress : Addr} {size : ℕ} (hs : s.Inv) (hok : s.StreamsOk)
    (hpa : (Call.read c virtualAddress size).physicalAddress s = some physicalAddress) :
    (cpuRead s c virtualAddress size).Sat
      (fun r => Accesses c (lineNo physicalAddress) s r.1) fun _ => True := by
  have hst := untouched_translateData s c virtualAddress
  unfold cpuRead
  rw [show translateData s c virtualAddress = (some physicalAddress, _) from Prod.ext hpa rfl]
  exact accesses_of_paths hs hok hst (fun _ => readL1Hit_hits) (fun _ => readL2Hit_hits)
    fun ht hok' => readMiss_loadsLine ht hok'

theorem cpuWrite_accesses {virtualAddress : Addr} {data : List Byte} (hs : s.Inv)
    (hok : s.StreamsOk)
    (hpa : (Call.write c virtualAddress data).physicalAddress s = some physicalAddress) :
    (cpuWrite s c virtualAddress data).Sat
      (fun r => Accesses c (lineNo physicalAddress) s r.1) fun _ => True := by
  have hst := untouched_translateData s c virtualAddress
  unfold cpuWrite
  rw [show translateData s c virtualAddress = (some physicalAddress, _) from Prod.ext hpa rfl]
  exact accesses_of_paths hs hok hst (fun _ => writeL1Hit_hits) (fun _ => writeL2Hit_hits)
    fun ht hok' => writeMiss_loadsLine ht hok'

theorem dataCall_of_exec {call : Call} {result : Option (List Byte)} (hs : s.Inv)
    (hok : s.StreamsOk) (hdata : call.IsData) (hexec : call.exec s = .ok (s', result)) :
    DataCall call s s' := by
  cases call with
  | read c virtualAddress size =>
      cases hpa : (Call.read c virtualAddress size).physicalAddress s with
      | none =>
          have hst := untouched_translateData s c virtualAddress
          rw [Call.exec, cpuRead, show translateData s c virtualAddress = (none, _) from
            Prod.ext hpa rfl] at hexec
          cases hexec
          exact .fault hpa hst
      | some pa => exact .access hpa ((cpuRead_accesses hs hok hpa).of_eq_ok hexec)
  | write c virtualAddress data =>
      cases hpa : (Call.write c virtualAddress data).physicalAddress s with
      | none =>
          have hst := untouched_translateData s c virtualAddress
          rw [Call.exec, cpuWrite, show translateData s c virtualAddress = (none, _) from
            Prod.ext hpa rfl] at hexec
          cases hexec
          exact .fault hpa hst
      | some pa => exact .access hpa ((cpuWrite_accesses hs hok hpa).of_eq_ok hexec)
  | fetch => exact hdata.elim

end Sim

end CacheSimulator
