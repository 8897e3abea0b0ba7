import CacheSimulator.Prefetching.Demand

/-!
# What comes into L2

A call brings no line into L2 that was there before it, and none twice: the lines it
fills are in one page, so they are in different sets, and what one fill evicts is not
filled again. This holds as long as the stream table is as it should be, and every call
leaves it so.
-/

namespace CacheSimulator

open Mesi

namespace Sim

variable {s₀ s s' s₂ t u : Sim} {a b : LineNo} {c : CoreId} {k : L1Kind} {i : Fin 8}
  {stream : Stream} {lines : List LineNo} {physicalAddress : Addr} {size : ℕ} {call : Call}

/-! ## The stream table -/

theorem EmptyCaches.streamsOk (h : s₀.EmptyCaches) : s₀.StreamsOk :=
  fun c i hconf => absurd (h.streams c i) hconf

theorem streams_modifyPmc (s : Sim) (c : CoreId) (f : PerfCounters → PerfCounters) :
    (s.modifyPmc c f).streams = s.streams :=
  streams_modifyCore s c fun _ => rfl

theorem LoadsLine.streamsOk (hok : s.StreamsOk) (h : LoadsLine c a s s') : s'.StreamsOk := by
  obtain ⟨t, i, stream, lines, u, hd, -, hwritten, rfl⟩ := h
  have hok' := hok.congr hd.keeps.streams hd.size
  exact (hwritten.streamsOk hd.inv hok' (hd.inMemory.of_size hd.size)).congr
    (streams_modifyPmc ..) rfl

/-- The step lemma: a data call keeps every entry of the table as it should be. -/
theorem DataCall.streamsOk (hok : s.StreamsOk) (hsize : s'.mem.size = s.mem.size)
    (h : DataCall call s s') : s'.StreamsOk := by
  cases h with
  | fault _ hst => exact hok.congr hst.sameCaches.streams hsize
  | access _ haccess =>
      cases haccess with
      | l1 _ hhits => exact hok.congr hhits.streams hsize
      | l2 _ _ hhits => exact hok.congr hhits.streams hsize
      | miss _ _ hloads => exact hloads.streamsOk hok

/-! ## Lines that come in once -/

/-- Lines have come into L2 that were not there, each of them once. -/
def EntersOnce (s s' : Sim) : Prop :=
  ∃ lines : List LineNo, s'.fills = s.fills ++ lines.map lineAddr ∧ lines.Nodup ∧
    ∀ b ∈ lines, ¬s.Resident b

theorem EntersOnce.of_fills (h : s'.fills = s.fills) : EntersOnce s s' :=
  ⟨[], by simp [h], List.nodup_nil, fun _ hb => absurd hb List.not_mem_nil⟩

/-- Line `a` comes in, then other lines of its page. -/
theorem EntersOnce.of_miss (hfills : t.fills = s.fills ++ [lineAddr a]) (ha : ¬s.Resident a)
    (hframe : ∀ b, l2Geometry.index b ≠ l2Geometry.index a → (t.Resident b ↔ s.Resident b))
    (hfills' : s'.fills = t.fills ++ lines.map lineAddr) (hnodup : lines.Nodup)
    (hlines : ∀ b ∈ lines, ¬t.Resident b ∧ OnePage b a ∧ b ≠ a) : EntersOnce s s' := by
  refine ⟨a :: lines, by rw [hfills', hfills, List.append_assoc]; rfl, ?_, fun b hb => ?_⟩
  · exact List.nodup_cons.mpr ⟨fun hmem => (hlines a hmem).2.2 rfl, hnodup⟩
  · rcases List.mem_cons.mp hb with rfl | hb
    · exact ha
    · obtain ⟨habsent, hpage, hne⟩ := hlines b hb
      rwa [← hframe b (hpage.index_ne hne)]

/-! ## Data calls -/

theorem Written.nodup (h : t.Written c a i stream lines u) : lines.Nodup := by
  cases h with
  | allocate => exact List.nodup_nil
  | advance _ hm hbursts =>
      refine hbursts.strides.nodup ?_
      rcases hm.stride with hd | hd
      · rw [hd]
        decide
      · rw [hd]
        decide

theorem LoadsLine.entersOnce (h : LoadsLine c a s s') : EntersOnce s s' := by
  obtain ⟨t, i, stream, lines, u, hd, -, hwritten, rfl⟩ := h
  refine .of_miss hd.fills hd.absent hd.frame (hwritten.prefetches hd.inv).fills
    (hwritten.nodup.filter _) fun b hb => ?_
  obtain ⟨hpage, hne⟩ := hwritten.onePage hd.present hb
  exact ⟨by simpa using (List.mem_filter.mp hb).2, hpage, hne⟩

theorem DataCall.entersOnce (h : DataCall call s s') : EntersOnce s s' := by
  cases h with
  | fault _ hst => exact .of_fills hst.fills
  | access _ haccess =>
      cases haccess with
      | l1 _ hhits => exact .of_fills hhits.fills
      | l2 _ _ hhits => exact .of_fills hhits.fills
      | miss _ _ hloads => exact hloads.entersOnce

/-! ## Fetches -/

/-- The call has brought in lines once, and left the streams alone. -/
def Fetches (s s' : Sim) : Prop := EntersOnce s s' ∧ s'.streams = s.streams

theorem fetchL1Hit_fetches {v : Fin 8} :
    (fetchL1Hit s c physicalAddress v size).Sat (fun r => Fetches s r.1) fun _ => True := by
  unfold fetchL1Hit
  refine (Except.sat_returned _).bind fun r _ => ⟨.of_fills ?_, ?_⟩
  · dsimp only
    rw [Sim.fills, history_setL1]
    rfl
  · dsimp only
    rw [streams_setL1, streams_modifyPmc]

theorem fetchL2Hit_fetches {w : Fin 16} (hs : s.Inv)
    (hmiss : findL1Way (s.l1 .instr c (l1ToIndex physicalAddress)) (l1ToTag physicalAddress) = none)
    (hfind : l2FindWay (s.l2 (l2ToIndex physicalAddress)) (l2ToTag physicalAddress) = some w) :
    (fetchL2Hit s c physicalAddress w size).Sat (fun r => Fetches s r.1) fun _ => True := by
  refine (fetchL2Hit_readsL2 hs hmiss hfind).mono (fun r hr => ?_) fun _ _ => trivial
  obtain ⟨α, -, hreads⟩ := hr
  obtain ⟨s₁, hroom, hrep, hmove⟩ := hreads.move
  obtain ⟨t, v, hsame, hevict⟩ := hroom
  have ht := hs.congr hsame
  obtain ⟨-, hfrees⟩ := (evictL1_spec ht.placed fun b _ => ht.lineOk b).of_eq_ok hevict
  have hres : s.Resident (lineNo physicalAddress) := by simp [resident_iff_find, hfind]
  -- the line is there, so its move does not bring it in
  have henters : ¬α.Enters := fun h => by
    have hnone := hmove.move.l2_none_of_enters h
    rw [hrep] at hnone
    exact hs.placed.resident_iff.mp hres (by simpa [LineRep.view] using hnone)
  refine ⟨.of_fills ?_, ?_⟩
  · rw [fills_of_records hmove.records, if_neg henters, List.append_nil, Sim.fills, hfrees.history,
      hsame.history]
    rfl
  · rw [hmove.streams, hfrees.streams, hsame.streams]

/-- Room in both levels changes only the set of the line in L2. -/
theorem MakesBothRooms.frame (hs : s.Inv) (h : MakesBothRooms k c a s s₂) : s₂.fills = s.fills ∧
    ∀ b, l2Geometry.index b ≠ l2Geometry.index a → (s₂.Resident b ↔ s.Resident b) := by
  obtain ⟨s₁, w, v, hevict₂, hevict₁⟩ := h
  obtain ⟨-, -, hroom⟩ := (evictL2_makesRoom hs).of_eq_ok hevict₂
  have hquiet : Quiet c a s₁ s₂ := evictL1_quiet.of_eq_ok hevict₁
  refine ⟨?_, fun b hb => ?_⟩
  · rw [hquiet.fills, Sim.fills, hroom.history]
    rfl
  · rw [hquiet.resident_iff]
    exact resident_congr hs.placed hroom.background.inv.placed (hroom.frame b hb)

/-- The next line is prefetched if it is in the page, in memory and not in L2. -/
theorem pfNextlineOnMiss_prefetches (hs : s.Inv) (ha : s.Resident a)
    (hin : s.InMemory (lineAddr a)) :
    (pfNextlineOnMiss s (lineAddr a)).Sat
      (fun s' => ∃ lines, Prefetches s lines s' ∧ lines.Nodup ∧
        ∀ b ∈ lines, ¬s.Resident b ∧ OnePage b a ∧ b ≠ a) fun _ => True := by
  obtain ⟨b, hb⟩ := lineAddr_add_line (a := a) 1
  unfold pfNextlineOnMiss
  rw [show lineAddr a + 64#64 = lineAddr a + 1 * 64#64 by rfl, hb]
  refine (pfFillL2_prefetches hs hin).bind fun r hr => ?_
  obtain ⟨-, hpasses, hfills⟩ := hr
  refine ⟨_, hfills, ?_, fun l hl => ?_⟩
  · split
    · exact (List.nodup_singleton b).filter _
    · exact List.nodup_nil
  · split at hl
    · rename_i hfilled
      obtain ⟨hmem, habsent⟩ := List.mem_filter.mp hl
      obtain rfl := List.mem_singleton.mp hmem
      have hnot : ¬s.Resident l := by simpa using habsent
      exact ⟨hnot, (prefetchPasses_iff.mp (hpasses.mp hfilled)).1, fun h => hnot (h ▸ ha)⟩
    · cases hl

theorem fetchMiss_fetches (hs : s.Inv)
    (hmiss : l2FindWay (s.l2 (l2ToIndex physicalAddress)) (l2ToTag physicalAddress) = none) :
    (fetchMiss s c physicalAddress size).Sat (fun r => Fetches s r.1) fun _ => True := by
  by_cases hbounds : lineAddr (lineNo physicalAddress) + 64#64 > s.mem.size
  · unfold fetchMiss
    dsimp only
    rw [lineBase_eq, if_pos hbounds]
    trivial
  · refine fetchMiss_sat_rooms hs hmiss hbounds (fun _ => trivial)
      fun hin s₂ s₄ hrooms hbg hrep hstreams hm => ?_
    have hinv₄ := (hm.evolves hbg.inv).inv
    obtain ⟨hfills₂, hframe₂⟩ := hrooms.frame hs
    have hpresent : s₄.Resident (lineNo physicalAddress) := by
      rw [hinv₄.placed.resident_iff, ← view_l2_ne_none]
      exact hm.move.l2_ne_none (hbg.inv.coherent _) (by simp)
    have habsent : ¬s.Resident (lineNo physicalAddress) := by
      rw [resident_iff_find]
      exact not_not.mpr hmiss
    have hframe : ∀ b, l2Geometry.index b ≠ l2Geometry.index (lineNo physicalAddress) →
        (s₄.Resident b ↔ s.Resident b) := by
      intro b hb
      rw [resident_congr hbg.inv.placed hinv₄.placed (hm.frame b fun h => hb (by rw [h])),
        hframe₂ b hb]
    have hfills : s₄.fills = s.fills ++ [lineAddr (lineNo physicalAddress)] := by
      rw [fills_of_records hm.records, hfills₂]
      rfl
    refine (pfNextlineOnMiss_prefetches hinv₄ hpresent ?_).bind fun s₅ hs₅ => ?_
    · exact ⟨_, rfl, by rwa [hm.size, hbg.size]⟩
    obtain ⟨lines, hprefetches, hnodup, hlines⟩ := hs₅
    refine (Except.sat_returned _).bind fun _ _ =>
      ⟨.of_miss hfills habsent hframe hprefetches.fills hnodup hlines, ?_⟩
    have hstreams₅ : s₅.streams = s₄.streams :=
      funext fun c => congrArg Prefetcher.streams (hprefetches.prefetcher c)
    dsimp only
    rw [streams_modifyPmc, hstreams₅, hm.streams, hstreams]

theorem Fetches.of_sameCaches (hsame : SameCaches s t) (h : Fetches t s') : Fetches s s' := by
  obtain ⟨⟨lines, hfills, hnodup, hlines⟩, hstreams⟩ := h
  refine ⟨⟨lines, ?_, hnodup, fun b hb => ?_⟩, hstreams.trans hsame.streams⟩
  · rw [hfills, Sim.fills, hsame.history]
    rfl
  · have hb' := hlines b hb
    rw [resident_iff] at hb' ⊢
    rwa [← hsame.l2]

theorem cpuFetch_fetches (hs : s.Inv) (virtualAddress : Addr) :
    (cpuFetch s c virtualAddress size).Sat (fun r => Fetches s r.1) fun _ => True := by
  have hsame := SameCaches.translateInstr s c virtualAddress
  unfold cpuFetch
  split
  · rename_i t htranslate
    rw [htranslate] at hsame
    exact ⟨.of_fills (by rw [Sim.fills, hsame.history]; rfl), hsame.streams⟩
  · rename_i physicalAddress t htranslate
    rw [htranslate] at hsame
    have ht := hs.congr hsame
    refine Except.Sat.imp ?_ fun r hr => Fetches.of_sameCaches hsame hr
    dsimp only
    split
    · exact fetchL1Hit_fetches
    · split
      · exact fetchL2Hit_fetches ht ‹_› ‹_›
      · exact fetchMiss_fetches ht ‹_›

end Sim

open Sim

variable {s₀ s s' : Sim} {call : Call} {result : Option (List Byte)} {trace : List CallRecord}
  {ok : Call → Sim → Prop}

/-- The step lemma: a call that returns brings lines in once, and keeps every entry of
the stream tables as it should be. -/
theorem Call.exec_entersOnce (hs : s.Inv) (hok : s.StreamsOk)
    (hexec : call.exec s = .ok (s', result)) : EntersOnce s s' ∧ s'.StreamsOk := by
  obtain ⟨es, hes, -⟩ := Call.exec_evolves hs hexec
  by_cases hdata : call.IsData
  · have hcall := dataCall_of_exec hs hok hdata hexec
    exact ⟨hcall.entersOnce, hcall.streamsOk hok hes.size⟩
  · cases call with
    | read => exact absurd trivial hdata
    | write => exact absurd trivial hdata
    | fetch c virtualAddress size =>
        obtain ⟨henters, hstreams⟩ := (cpuFetch_fetches hs virtualAddress).of_eq_ok hexec
        exact ⟨henters, hok.congr hstreams hes.size⟩

theorem Run.streamsOk (h₀ : s₀.EmptyCaches) (hrun : Run ok s₀ trace s) : s.StreamsOk := by
  induction hrun with
  | start => exact h₀.streamsOk
  | call call hrun _ hexec ih => exact (Call.exec_entersOnce (hrun.inv h₀) ih hexec).2
  | beginStep seq _ ih => exact ih.congr rfl rfl

end CacheSimulator
