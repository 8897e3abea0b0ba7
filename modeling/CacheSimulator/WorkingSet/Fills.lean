import CacheSimulator.Prefetching.Streams
import CacheSimulator.WorkingSet.Pages

/-!
# Prefetching into a working set that fits

A prefetch stays in the page of the line it starts from, and every stream is at a line
of the working set. So the prefetchers fill lines of the working set only, and evict
nothing.
-/

namespace CacheSimulator

open Mesi

namespace Sim

variable {pages : Finset ℕ} {s s' s'' : Sim} {a b : LineNo} {c : CoreId} {fromLine : Addr}
  {stream : Stream}

/-- The lines that come in are lines of the pages, and so are the heads of the streams. -/
theorem Evolves.within {es : List (LineNo × Action CoreId Store)} (h : Evolves s es s')
    (hs : s.Inv) (hw : s.Within pages) (hes : ∀ e ∈ es, e.2.Enters → pageOf e.1 ∈ pages)
    (hstreams : ∀ c i, (s'.streams c i).confidence ≠ .invalid →
      pageOf (lineNo (s'.streams c i).prefetchHead) ∈ pages) : s'.Within pages := by
  refine ⟨fun a ha => ?_, hstreams⟩
  rcases (h.run s.mem.data).entered (hs.system _) (a := a) (view_l2_ne_none.mpr ha) with
    hne | ⟨e, he, rfl, henters⟩
  · exact hw.resident a (view_l2_ne_none.mp hne)
  · exact hes e he henters

/-- The prefetchers have filled lines of the pages, and no line has been evicted. -/
def Prefetched (pages : Finset ℕ) (s s' : Sim) : Prop :=
  ∃ es, (∀ e ∈ es, e.2 = .prefetch ∧ pageOf e.1 ∈ pages) ∧ Evolves s es s'

namespace Prefetched

theorem inv (h : Prefetched pages s s') : s'.Inv := by
  obtain ⟨es, -, hes⟩ := h
  exact hes.inv

theorem size (h : Prefetched pages s s') : s'.mem.size = s.mem.size := by
  obtain ⟨es, -, hes⟩ := h
  exact hes.size

theorem of_sameCaches (hs : s.Inv) (h : SameCaches s s') : Prefetched pages s s' :=
  ⟨[], by simp, .of_sameCaches hs h⟩

theorem refl (hs : s.Inv) : Prefetched pages s s := .of_sameCaches hs (.refl s)

theorem trans (h : Prefetched pages s s') (h' : Prefetched pages s' s'') :
    Prefetched pages s s'' := by
  obtain ⟨es, hes, hrun⟩ := h
  obtain ⟨fs, hfs, hrun'⟩ := h'
  refine ⟨es ++ fs, fun e he => ?_, hrun.trans hrun'⟩
  rcases List.mem_append.mp he with he | he
  · exact hes e he
  · exact hfs e he

theorem within (h : Prefetched pages s s') (hs : s.Inv) (hw : s.Within pages)
    (hstreams : s'.streams = s.streams) : s'.Within pages := by
  obtain ⟨es, hes, hrun⟩ := h
  refine hrun.within hs hw (fun e he _ => (hes e he).2) fun c i => ?_
  rw [hstreams]
  exact hw.streams c i

end Prefetched

theorem pageOf_eq_of_same_page (h : lineAddr a &&& ~~~0xFFF#64 = fromLine &&& ~~~0xFFF#64) :
    pageOf a = pageOf (lineNo fromLine) := by
  have hpage := same_page h
  rw [lineAddr_toNat] at hpage
  unfold pageOf lineNo
  dsimp only
  omega

theorem pfFillL2_prefetched (hs : s.Inv) (hw : s.Within pages) (hfit : RoomInL2 pages)
    (hpage : pageOf (lineNo fromLine) ∈ pages) :
    (pfFillL2 s fromLine (lineAddr a)).Sat
      (fun r => Prefetched pages s r.1 ∧ (r.2 = true → pageOf a ∈ pages)) fun _ => True := by
  unfold pfFillL2
  split
  · exact ⟨.refl hs, Bool.noConfusion⟩
  rename_i hsame
  have hpa : pageOf a ∈ pages := by rwa [pageOf_eq_of_same_page (not_not.mp hsame)]
  split
  · exact ⟨.refl hs, Bool.noConfusion⟩
  dsimp only
  rw [l2ToIndex_lineAddr, l2ToTag_lineAddr]
  cases hfind : l2FindWay (s.l2 (l2Geometry.index a)) (l2Geometry.tag a) with
  | some w => exact ⟨.refl hs, fun _ => hpa⟩
  | none =>
      have ha := l2_eq_none_of_find hfind
      obtain ⟨w, hevict⟩ := hw.evictL2 hs.placed hfit hpa ha
      have hfree := ((evictL2_spec hs).of_eq_ok hevict).1
      dsimp only at hfree ⊢
      rw [hevict]
      dsimp only [Except.ok_bind]
      by_cases hin : 64 * (a : ℕ) + 64 ≤ s.mem.size.toNat
      · rw [readLine_lineAddr hin]
        obtain ⟨l2Set, hl2Set, hset⟩ := L2Set.fillPrefetch_spec (hs.placed.free _) hfree
          (l2Geometry.tag a) (s.rep a).mem (MESIState.mode?_eq_exclusive.mpr rfl)
        change Except.Sat (l2CacheFillPrefetch _ _ _ _ _ >>= _) _ _
        rw [hl2Set]
        have hmove := lineMove_prefetch hs hin hfree ha hset
        refine ⟨⟨[(a, .prefetch)], ?_, (hmove.evolves hs).congr (.emit _ _ _ _ _ _ _ _ _ _)⟩,
          fun _ => hpa⟩
        simpa using hpa
      · rw [readLine_error hin]
        trivial

theorem pfNextlineOnMiss_prefetched (hs : s.Inv) (hw : s.Within pages) (hfit : RoomInL2 pages)
    (hin : 64 * (a : ℕ) + 64 ≤ s.mem.size.toNat) (hpage : pageOf a ∈ pages) :
    (pfNextlineOnMiss s (lineAddr a)).Sat
      (fun s' => Prefetched pages s s' ∧ s'.streams = s.streams) fun _ => True := by
  obtain ⟨b, hb⟩ := lineAddr_add_line (a := a) 1
  unfold pfNextlineOnMiss
  rw [show lineAddr a + 64#64 = lineAddr a + 1 * 64#64 by rfl, hb]
  have hspec := (pfFillL2_spec (a := b) hs ⟨a, rfl, hin⟩).mono (fun r hr => hr.2.1)
    fun _ _ => trivial
  exact ((pfFillL2_prefetched hs hw hfit (by rwa [lineNo_lineAddr])).both hspec).bind
    fun r hr => ⟨hr.1.1, hr.2⟩

theorem pfBurst_prefetched {missLine stride : Addr} {fuel : ℕ} (hs : s.Inv) (hw : s.Within pages)
    (hfit : RoomInL2 pages) (hpage : pageOf (lineNo stream.prefetchHead) ∈ pages)
    (hhead : s.InMemory stream.prefetchHead) :
    (pfBurst missLine stride fuel stream s).Sat
      (fun r => Prefetched pages s r.2 ∧ pageOf (lineNo r.1.prefetchHead) ∈ pages)
      fun _ => True := by
  induction fuel generalizing stream s with
  | zero => exact ⟨.refl hs, hpage⟩
  | succ fuel ih =>
      obtain ⟨h, hh, hin⟩ := hhead
      obtain ⟨b, hb⟩ := lineAddr_add_line (a := h) stride
      unfold pfBurst
      dsimp only
      split
      · exact ⟨.refl hs, hpage⟩
      · rw [hh] at hpage ⊢
        rw [hb]
        have hspec := (pfFillL2_spec (a := b) hs ⟨h, rfl, hin⟩).mono
          (fun r hr => hr.2) fun _ _ => trivial
        refine ((pfFillL2_prefetched hs hw hfit hpage).both hspec).bind fun r hr => ?_
        obtain ⟨s₁, filled⟩ := r
        obtain ⟨⟨hfetched, hnext⟩, hstreams, hfilled, -⟩ := hr
        cases filled with
        | false => exact ⟨hfetched, hh ▸ hpage⟩
        | true =>
            have hpage' : pageOf (lineNo (lineAddr b)) ∈ pages := by
              rw [lineNo_lineAddr]
              exact hnext rfl
            refine (ih hfetched.inv (hfetched.within hs hw hstreams) hpage'
              ((hfilled rfl).of_size hfetched.size)).imp fun r hr => ?_
            exact ⟨hfetched.trans hr.1, hr.2⟩

theorem Prefetched.setStream {i : Fin 8} (h : Prefetched pages s s') (hs : s.Inv)
    (hw : s.Within pages) (hstreams : s'.streams = s.streams)
    (hhead : s.InMemory stream.prefetchHead) (hpage : pageOf (lineNo stream.prefetchHead) ∈ pages) :
    Prefetched pages s (s'.setStream c i stream) ∧ (s'.setStream c i stream).Within pages := by
  have hl1 : (s'.setStream c i stream).l1 = s'.l1 :=
    l1_modifyCore s' c (fun _ => rfl) fun _ => rfl
  have hrep : (s'.setStream c i stream).rep = s'.rep := rep_congr hl1 rfl rfl
  have hinv := (Background.setStream (c := c) (i := i) h.inv (hhead.of_size h.size)).inv
  have hset : Prefetched pages s' (s'.setStream c i stream) :=
    ⟨[], by simp, .of_rep h.inv (h.inv.placed.congr hl1 rfl) hrep rfl rfl hinv.streams⟩
  refine ⟨h.trans hset, fun a ha => ?_, fun c' i' hconf => ?_⟩
  · rw [hrep] at ha
    exact (h.within hs hw hstreams).resident a ha
  · rw [streams_setStream, hstreams] at hconf ⊢
    split
    · exact hpage
    · rename_i hne
      rw [if_neg hne] at hconf
      exact hw.streams c' i' hconf

theorem pfStreamOnMiss_prefetched (hs : s.Inv) (hw : s.Within pages) (hfit : RoomInL2 pages)
    (hin : 64 * (a : ℕ) + 64 ≤ s.mem.size.toNat) (hpage : pageOf a ∈ pages) :
    (pfStreamOnMiss s c (lineAddr a)).Sat
      (fun s' => Prefetched pages s s' ∧ s'.Within pages) fun _ => True := by
  have hmiss : s.InMemory (lineAddr a) := ⟨a, rfl, hin⟩
  have hmissPage : pageOf (lineNo (lineAddr a)) ∈ pages := by rwa [lineNo_lineAddr]
  unfold pfStreamOnMiss
  dsimp only
  cases hfind : (List.finRange 8).findSome? fun i =>
      (((s.cpu.cores c).prefetcher.streams i).onMiss (lineAddr a)).map fun stream =>
        (i, stream) with
  | none => exact (Prefetched.refl hs).setStream hs hw rfl hmiss hmissPage
  | some p =>
      obtain ⟨i, -, hi⟩ := List.exists_of_findSome?_eq_some hfind
      obtain ⟨stream, hstream, rfl⟩ := Option.map_eq_some_iff.mp hi
      have hhead : s.InMemory ({ stream with lastLine := lineAddr a } : Stream).prefetchHead ∧
          pageOf (lineNo ({ stream with lastLine := lineAddr a } : Stream).prefetchHead) ∈
            pages := by
        rcases onMiss_head hstream with h | ⟨hconf, h⟩
        · exact ⟨h ▸ hmiss, h ▸ hmissPage⟩
        · exact ⟨h ▸ hs.streams c i hconf, h ▸ hw.streams c i hconf⟩
      dsimp only
      have hspec : (pfBurst (lineAddr a) stream.direction.toInt64 9
          { stream with lastLine := lineAddr a } s).Sat
          (fun r => r.2.streams = s.streams ∧ s.InMemory r.1.prefetchHead) fun _ => True :=
        (pfBurst_spec hs hhead.1).mono (fun r hr => hr.2) fun _ _ => trivial
      refine ((pfBurst_prefetched hs hw hfit hhead.2 hhead.1).both hspec).bind fun r hr => ?_
      obtain ⟨⟨hfetched, hpage'⟩, hstreams, hhead'⟩ := hr
      exact hfetched.setStream hs hw hstreams hhead' hpage'

end Sim

end CacheSimulator
