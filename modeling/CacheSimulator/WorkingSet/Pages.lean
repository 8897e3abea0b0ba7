import CacheSimulator.Library.Capacity
import CacheSimulator.Prefetching.Bursts
import CacheSimulator.Refinement.Call

/-!
# Working sets that fit

The lines of a 4 KB page go to 64 different sets of each L1 cache, and to 64
different sets of L2, which they share with the pages of the same colour. When a
set of pages has no more than sixteen pages of a colour, L2 has room for all its
lines, and when it has no more than eight pages, so has an L1 cache. `Within` says
that the caches hold lines of these pages only; a search for a free way then always
finds one.
-/

namespace CacheSimulator

open Mesi SetAssociative

def pageOf (a : LineNo) : ℕ := a / 64

/-- L2 has a way for every line of the pages. -/
def RoomInL2 (pages : Finset ℕ) : Prop := ∀ colour, (pages.filter (· % 64 = colour)).card ≤ 16

/-- An L1 cache has a way for every line of the pages. -/
def RoomInL1 (pages : Finset ℕ) : Prop := pages.card ≤ 8

instance (pages : Finset ℕ) : Decidable (RoomInL1 pages) := inferInstanceAs (Decidable (_ ≤ 8))

theorem RoomInL1.roomInL2 {pages : Finset ℕ} (h : RoomInL1 pages) : RoomInL2 pages := fun colour =>
  (Finset.card_filter_le pages _).trans (Nat.le_trans h (by decide))

theorem l1Geometry_index_val (a : LineNo) : (l1Geometry.index a : ℕ) = a % 64 := by
  have h := l1ToIndex_val (lineAddr a)
  rw [lineAddr_toNat] at h
  change (l1ToIndex (lineAddr a) : ℕ) = _
  omega

theorem eq_of_pageOf_l1 {a b : LineNo} (hindex : l1Geometry.index a = l1Geometry.index b)
    (hpage : pageOf a = pageOf b) : a = b := by
  have hval := congrArg Fin.val hindex
  rw [l1Geometry_index_val, l1Geometry_index_val] at hval
  unfold pageOf at hpage
  exact Fin.ext (by omega)

theorem eq_of_pageOf_l2 {a b : LineNo} (hindex : l2Geometry.index a = l2Geometry.index b)
    (hpage : pageOf a = pageOf b) : a = b := by
  by_contra hne
  exact OnePage.index_ne hpage hne hindex

theorem colour_eq_of_index {a b : LineNo} (hindex : l2Geometry.index a = l2Geometry.index b) :
    pageOf a % 64 = pageOf b % 64 := by
  have hval := congrArg Fin.val hindex
  rw [l2Geometry_index_val, l2Geometry_index_val] at hval
  unfold pageOf
  omega

def Call.InPages (pages : Finset ℕ) (call : Call) (s : Sim) : Prop :=
  ∀ physicalAddress ∈ call.physicalAddress s, pageOf (lineNo physicalAddress) ∈ pages

instance (pages : Finset ℕ) (call : Call) (s : Sim) : Decidable (call.InPages pages s) :=
  Call.decidableForallMem _

namespace Sim

/-- The caches hold lines of the pages only, and the streams in use are at lines of
the pages. -/
structure Within (pages : Finset ℕ) (s : Sim) : Prop where
  resident : ∀ a, (s.rep a).l2 ≠ none → pageOf a ∈ pages
  streams : ∀ c i, (s.streams c i).confidence ≠ .invalid →
    pageOf (lineNo (s.streams c i).prefetchHead) ∈ pages

variable {pages : Finset ℕ} {s s' : Sim} {a b : LineNo} {c : CoreId} {k : L1Kind}

theorem Within.of_rep (h : s.Within pages) (hrep : s'.rep = s.rep)
    (hstreams : s'.streams = s.streams) : s'.Within pages := by
  refine ⟨fun a ha => h.resident a (by rwa [← hrep]), fun c i => ?_⟩
  rw [hstreams]
  exact h.streams c i

theorem Within.of_sameCaches (h : s.Within pages) (hs : SameCaches s s') : s'.Within pages :=
  h.of_rep hs.rep hs.streams

/-! ## Free ways -/

theorem evictL2_free_way {i : Fin 4096} (h : ∃ w, (s.l2 i).state w = .invalid) :
    ∃ w, evictL2 s i = .ok (s, w) := by
  unfold evictL2
  dsimp only
  cases hfree : (List.finRange 16).find? fun w => (s.l2 i).state w == .invalid with
  | some w => exact ⟨w, rfl⟩
  | none =>
      obtain ⟨w, hw⟩ := h
      have hnot := List.find?_eq_none.mp hfree w (List.mem_finRange w)
      rw [beq_iff_eq] at hnot
      exact absurd hw hnot

theorem evictL1_free_way {i : Fin 64} (h : ∃ v, (s.l1 k c i).state v = .invalid) :
    ∃ v, evictL1 k s i c = .ok (s, v) := by
  unfold evictL1
  dsimp only
  cases hfree : (List.finRange 8).find? fun v => (s.l1 k c i).state v == .invalid with
  | some v => exact ⟨v, rfl⟩
  | none =>
      obtain ⟨v, hv⟩ := h
      have hnot := List.find?_eq_none.mp hfree v (List.mem_finRange v)
      rw [beq_iff_eq] at hnot
      exact absurd hv hnot

theorem Within.evictL2 (h : s.Within pages) (hp : s.Placed) (hfit : RoomInL2 pages)
    (hpage : pageOf a ∈ pages) (ha : (s.rep a).l2 = none) :
    ∃ w, evictL2 s (l2Geometry.index a) = .ok (s, w) := by
  obtain ⟨w, hw⟩ := l2Geometry.exists_free (K := pages.filter (· % 64 = pageOf a % 64)) hp.l2
    (fun b b' hb hb' => eq_of_pageOf_l2 (hb.trans hb'.symm))
    (fun b hb hne => Finset.mem_filter.mpr ⟨h.resident b hne, colour_eq_of_index hb⟩)
    (by simpa using hfit (pageOf a % 64)) (Finset.mem_filter.mpr ⟨hpage, rfl⟩) ha
  exact evictL2_free_way ⟨w, L2Set.slots_eq_none.mp hw⟩

/-- A missing line of the pages finds a free way in an L1 cache that holds lines of
the pages only. -/
theorem evictL1_of_fits (hp : s.Placed) (hfit : RoomInL1 pages)
    (hcopies : ∀ b, (s.rep b).l1 k c ≠ none → pageOf b ∈ pages) (hpage : pageOf a ∈ pages)
    (ha : (s.rep a).l1 k c = none) : ∃ v, evictL1 k s (l1Geometry.index a) c = .ok (s, v) := by
  obtain ⟨v, hv⟩ := l1Geometry.exists_free (K := pages) (hp.l1 k c)
    (fun b b' hb hb' => eq_of_pageOf_l1 (hb.trans hb'.symm)) (fun b _ hne => hcopies b hne)
    (by rw [Fintype.card_fin]; exact hfit) hpage ha
  exact evictL1_free_way ⟨v, L1Set.slots_eq_none.mp hv⟩

theorem Within.copies (h : s.Within pages) (hs : s.Inv) (hb : (s.rep b).l1 k c ≠ none) :
    pageOf b ∈ pages := by
  obtain ⟨e, he⟩ := (hs.lineOk b).inclusion hb
  exact h.resident b (by rw [he]; exact Option.some_ne_none e)

end Sim

end CacheSimulator
