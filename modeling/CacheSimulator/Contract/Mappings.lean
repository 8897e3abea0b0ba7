import CacheSimulator.Paging.Mapping

/-!
# Mappings

A run of the operating system maps pages of one process and lets the program
store bytes in the frames it was given. The page walk finds every page that was
mapped, and no other one, as long as no entry used lies in the upper half of a
page table: a table is twice as long as the frame it is given.
-/

namespace CacheSimulator

open RadixTree

/-- Bits 47..12 of the two addresses agree. -/
def SamePage (a b : Addr) : Prop := a.extractLsb' 12 36 = b.extractLsb' 12 36

theorem pageIndex_val (virtualAddress : Addr) (level : ℕ) :
    (pageIndex virtualAddress level : ℕ) = virtualAddress.toNat / 2 ^ (12 + level * 9) % 512 := by
  unfold pageIndex
  dsimp only
  rw [BitVec.toNat_and, BitVec.toNat_ushiftRight, Nat.shiftRight_eq_div_pow]
  exact Nat.and_two_pow_sub_one_eq_mod _ 9

theorem pagePath_eq_iff {a b : Addr} : pagePath a = pagePath b ↔ SamePage a b := by
  have hpath : ∀ x, pagePath x = [pageIndex x 3, pageIndex x 2, pageIndex x 1, pageIndex x 0] :=
    fun _ => rfl
  have hpage : ∀ x : Addr, (x.extractLsb' 12 36).toNat = x.toNat / 4096 % 2 ^ 36 := fun x => by
    rw [BitVec.extractLsb'_toNat, Nat.shiftRight_eq_div_pow]
  have hiff : SamePage a b ↔ a.toNat / 4096 % 2 ^ 36 = b.toNat / 4096 % 2 ^ 36 := by
    unfold SamePage
    rw [← hpage, ← hpage, BitVec.toNat_inj]
  rw [hiff, hpath, hpath]
  simp only [List.cons.injEq, and_true, Fin.ext_iff, pageIndex_val]
  omega

/-! ## Runs -/

structure MapRecord where
  virtualAddress : Addr
  frame : Addr

/-- Calls of `alloc_and_map`, each in a state and for a page that satisfies `ok`,
and bytes stored in the frames they have returned. -/
inductive MapRun (ok : Os → Addr → Prop) (s₀ : Os) : List MapRecord → Os → Prop
  | start : MapRun ok s₀ [] s₀
  | map {trace : List MapRecord} {s s' : Os} {frame : Addr} (virtualAddress : Addr)
      (writable user : Bool) : MapRun ok s₀ trace s → ok s virtualAddress →
        s.allocAndMap virtualAddress writable user = .ok (frame, s') →
          MapRun ok s₀ (trace ++ [⟨virtualAddress, frame⟩]) s'
  | store {trace : List MapRecord} {s : Os} {r : MapRecord} {n : ℕ} (byte : Byte) :
      MapRun ok s₀ trace s → r ∈ trace → r.frame ≠ uint64Max → InFrame r.frame n →
        MapRun ok s₀ trace { s with mem := s.mem.storeByte n byte }

/-- A process that has just been created, and an allocator that has handed out no
frame yet. -/
structure Os.Fresh (s : Os) : Prop where
  proc : ∃ pid, s.proc = processCreate pid
  freeList : s.fa.freeList = []
  aligned : s.fa.watermark.toNat % 4096 = 0
  limit : s.fa.limit.toNat ≤ s.mem.size.toNat

/-- The entries of the page lie in the frames of its tables, and the frames taken
for it lie in memory. -/
def Os.MapsInside (s : Os) (virtualAddress : Addr) : Prop :=
  InFrames (pagePath virtualAddress) ∧ s.PageFits virtualAddress

/-- The slots of a page below the root lie in the frames of their tables when bits
38, 29 and 20 of the address are clear. -/
theorem inFrames_pagePath {virtualAddress : Addr} : InFrames (pagePath virtualAddress) ↔
    virtualAddress.getLsbD 38 = false ∧ virtualAddress.getLsbD 29 = false ∧
      virtualAddress.getLsbD 20 = false := by
  have hpath : (pagePath virtualAddress).tail =
      [pageIndex virtualAddress 2, pageIndex virtualAddress 1, pageIndex virtualAddress 0] := rfl
  have hbit : ∀ n, virtualAddress.getLsbD n = false ↔ virtualAddress.toNat / 2 ^ n % 2 = 0 := by
    intro n
    rw [BitVec.getLsbD, Nat.testBit_eq_decide_div_mod_eq, decide_eq_false_iff_not]
    omega
  unfold InFrames
  rw [hpath, hbit, hbit, hbit]
  simp only [List.forall_mem_cons, List.not_mem_nil, IsEmpty.forall_iff, implies_true, and_true,
    pageIndex_val]
  omega

theorem Os.mapsInside_iff {s : Os} {virtualAddress : Addr} : s.MapsInside virtualAddress ↔
    (virtualAddress.getLsbD 38 = false ∧ virtualAddress.getLsbD 29 = false ∧
      virtualAddress.getLsbD 20 = false) ∧ s.PageFits virtualAddress :=
  and_congr_left' inFrames_pagePath

def mappedBy (trace : List MapRecord) : List (Fin 512) → Option Addr :=
  trace.foldl (fun mapped r =>
    if r.frame = uint64Max then mapped
    else Function.update mapped (pagePath r.virtualAddress) (some r.frame)) fun _ => none

variable {s₀ s s' : Os} {trace : List MapRecord} {virtualAddress : Addr} {ok : Os → Addr → Prop}

theorem mappedBy_append (trace : List MapRecord) (r : MapRecord) :
    mappedBy (trace ++ [r]) = if r.frame = uint64Max then mappedBy trace
      else Function.update (mappedBy trace) (pagePath r.virtualAddress) (some r.frame) :=
  List.foldl_append

theorem mappedBy_eq_none
    (h : ∀ r ∈ trace, r.frame ≠ uint64Max → ¬SamePage r.virtualAddress virtualAddress) :
    mappedBy trace (pagePath virtualAddress) = none := by
  induction trace using List.reverseRecOn with
  | nil => rfl
  | append_singleton trace r ih =>
      have hinit := ih fun r' hr' => h r' (List.mem_append_left _ hr')
      rw [mappedBy_append]
      split
      · exact hinit
      · rename_i hframe
        rw [Function.update_of_ne, hinit]
        exact fun heq => h r (by simp) hframe (pagePath_eq_iff.mp heq.symm)

theorem mappedBy_eq_some {r : MapRecord}
    (hdistinct : trace.Pairwise fun a b => ¬SamePage a.virtualAddress b.virtualAddress)
    (hr : r ∈ trace) (hframe : r.frame ≠ uint64Max)
    (hpage : SamePage r.virtualAddress virtualAddress) :
    mappedBy trace (pagePath virtualAddress) = some r.frame := by
  induction trace using List.reverseRecOn with
  | nil => cases hr
  | append_singleton trace last ih =>
      rw [List.pairwise_append] at hdistinct
      obtain ⟨hinit, -, hlast⟩ := hdistinct
      rw [mappedBy_append]
      rcases List.mem_append.mp hr with hr | hr
      · split
        · exact ih hinit hr
        · rw [Function.update_of_ne, ih hinit hr]
          rw [← pagePath_eq_iff.mpr hpage]
          exact fun heq => hlast r hr last (by simp) (pagePath_eq_iff.mp heq)
      · obtain rfl := List.mem_singleton.mp hr
        rw [if_neg hframe, pagePath_eq_iff.mpr hpage, Function.update_self]

def rootOnly : List (Fin 512) → Option TablePtr := fun u => if u = [] then some .root else none

theorem Os.Fresh.maps (h : s.Fresh) :
    s.Maps s.fa.watermark.toNat rootOnly (fun _ => none) ∅ := by
  obtain ⟨⟨pid, hproc⟩, hfree, haligned, hlimit⟩ := h
  have hnode : ∀ {u p}, rootOnly u = some p → u = [] ∧ p = .root := by
    intro u p hu
    unfold rootOnly at hu
    split at hu
    · rename_i hnil
      exact ⟨hnil, (Option.some.inj hu).symm⟩
    · cases hu
  have hframes : tableFrames rootOnly = ∅ := by
    ext frame
    refine iff_of_false ?_ (by simp)
    rintro ⟨u, hu⟩
    exact absurd (hnode hu).2 (by simp)
  refine ⟨⟨rfl, ?_, ?_, ?_, ?_, ?_, ?_⟩, ?_, ?_, ?_⟩
  · intro u hu
    obtain ⟨p, hp⟩ := Option.ne_none_iff_exists'.mp hu
    obtain ⟨rfl, -⟩ := hnode hp
    exact ⟨by simp [InFrames], by decide⟩
  · intro u v p hu hv
    rw [(hnode hu).1, (hnode hv).1]
  · intro u p i hu _ _
    obtain ⟨rfl, rfl⟩ := hnode hu
    have hnone : rootOnly ([] ++ [i]) = none := if_neg (by simp)
    rw [hnone]
    refine if_neg ?_
    rw [Os.entry, hproc]
    simp [processCreate]
  · intro u p i hu hlength _
    obtain ⟨rfl, -⟩ := hnode hu
    exact absurd hlength (by decide)
  · intro u i hu
    exact absurd (if_neg (by simp)) hu
  · exact fun h => absurd rfl h
  · rw [hframes, Set.union_empty]
    refine ⟨haligned, Nat.le_refl _, hlimit, by simp, by simp [hfree], by simp [hfree], ?_⟩
    intro frame _ hbase hbelow
    omega
  · simp [hframes]
  · simp [hframes]

theorem MapRun.maps (h₀ : s₀.Fresh) (h : MapRun Os.MapsInside s₀ trace s) :
    ∃ node data, s.Maps s₀.fa.watermark.toNat node (mappedBy trace) data ∧
      ∀ r ∈ trace, r.frame ≠ uint64Max → r.frame ∈ data := by
  induction h with
  | start => exact ⟨rootOnly, ∅, h₀.maps, by simp⟩
  | @map trace s s' frame virtualAddress writable user _ hok hcall ih =>
      obtain ⟨node, data, hmaps, hdata⟩ := ih
      obtain ⟨node', hpage⟩ := (hmaps.allocAndMap_sat hok.1 hok.2).of_eq_ok hcall
      rcases hpage.maps with ⟨hframe, hmaps'⟩ | ⟨hframe, -, -, -, hmaps'⟩
      · dsimp only at hframe hmaps'
        refine ⟨node', data, ?_, fun r hr hne => ?_⟩
        · rwa [mappedBy_append, if_pos hframe]
        · rcases List.mem_append.mp hr with hr | hr
          · exact hdata r hr hne
          · obtain rfl := List.mem_singleton.mp hr
            exact absurd hframe hne
      · dsimp only at hframe hmaps'
        refine ⟨node', insert frame data, ?_, fun r hr hne => ?_⟩
        · rwa [mappedBy_append, if_neg hframe]
        · rcases List.mem_append.mp hr with hr | hr
          · exact .inr (hdata r hr hne)
          · obtain rfl := List.mem_singleton.mp hr
            exact .inl rfl
  | store byte _ hr hframe hn ih =>
      obtain ⟨node, data, hmaps, hdata⟩ := ih
      exact ⟨node, data, hmaps.storeByte (hdata _ hr hframe) hn, hdata⟩

theorem MapRun.inFrames (h : MapRun Os.MapsInside s₀ trace s) :
    ∀ r ∈ trace, InFrames (pagePath r.virtualAddress) := by
  induction h with
  | start => simp
  | map virtualAddress writable user _ hok _ ih =>
      intro r hr
      rcases List.mem_append.mp hr with hr | hr
      · exact ih r hr
      · obtain rfl := List.mem_singleton.mp hr
        exact hok.1
  | store byte _ _ _ _ ih => exact ih

/-! ## The mappings hold -/

/-- After the calls for distinct pages every page that was mapped is translated to
its frame, no other page is translated, and the next call returns. -/
theorem MapRun.mappings_hold (h₀ : s₀.Fresh) (h : MapRun Os.MapsInside s₀ trace s)
    (hdistinct : trace.Pairwise fun a b => ¬SamePage a.virtualAddress b.virtualAddress) :
    (∀ r ∈ trace, r.frame ≠ uint64Max → ∀ virtualAddress, SamePage r.virtualAddress virtualAddress →
      pageWalk s.proc.pml4 s.mem virtualAddress =
        some (r.frame ||| (virtualAddress &&& 0xFFF#64))) ∧
    (∀ virtualAddress, InFrames (pagePath virtualAddress) →
      (∀ r ∈ trace, r.frame ≠ uint64Max → ¬SamePage r.virtualAddress virtualAddress) →
        pageWalk s.proc.pml4 s.mem virtualAddress = none) ∧
    ∀ virtualAddress writable user, s.MapsInside virtualAddress →
      ∃ r, s.allocAndMap virtualAddress writable user = .ok r := by
  obtain ⟨node, data, hmaps, -⟩ := h.maps h₀
  refine ⟨fun r hr hframe virtualAddress hpage => ?_, fun virtualAddress hpath hnone => ?_,
    fun virtualAddress writable user hok => ?_⟩
  · have hpath : InFrames (pagePath virtualAddress) := by
      rw [← pagePath_eq_iff.mpr hpage]
      exact h.inFrames r hr
    rw [hmaps.pageWalk_eq hpath, mappedBy_eq_some hdistinct hr hframe hpage]
    rfl
  · rw [hmaps.pageWalk_eq hpath, mappedBy_eq_none hnone]
    rfl
  · obtain ⟨r, hr, -⟩ := (hmaps.allocAndMap_sat hok.1 hok.2).exists_ok
    exact ⟨r, hr⟩

def freshOs (limit : Addr) : Os :=
  ⟨processCreate 1, ⟨0x1000#64, limit, []⟩, ⟨fun _ => 0, 0x10000#64⟩⟩

theorem freshOs_fresh {limit : Addr} (h : limit.toNat ≤ 0x10000) : (freshOs limit).Fresh :=
  have haligned : (0x1000#64).toNat % 4096 = 0 := by decide
  ⟨⟨1, rfl⟩, rfl, haligned, h⟩

instance (a b : Addr) : Decidable (SamePage a b) := inferInstanceAs (Decidable (_ = _))

instance (frame : Addr) (n : ℕ) : Decidable (InFrame frame n) := inferInstanceAs (Decidable (_ ∧ _))

instance (path : List (Fin 512)) : Decidable (InFrames path) :=
  inferInstanceAs (Decidable (∀ i ∈ path.tail, i.val < 256))

instance (s : Os) (k : ℕ) : Decidable (s.TableFits k) := inferInstanceAs (Decidable (_ ∧ _))

instance (s : Os) (virtualAddress : Addr) : Decidable (s.PageFits virtualAddress) :=
  inferInstanceAs (Decidable (_ ∧ _))

instance (s : Os) (virtualAddress : Addr) : Decidable (s.MapsInside virtualAddress) :=
  decidable_of_iff _ Os.mapsInside_iff.symm

/-- Two pages of one table, with a byte stored in the first. -/
theorem mappings_hold_twoPages : ∃ trace s, MapRun Os.MapsInside (freshOs 0x10000) trace s ∧
    pageWalk s.proc.pml4 s.mem 0x123 = some 0x1123 ∧
    pageWalk s.proc.pml4 s.mem 0x1FFF = some 0x5FFF ∧
      pageWalk s.proc.pml4 s.mem 0x2000 = none := by
  have hcalls : ∃ r, (freshOs 0x10000).allocAndMap 0x0 true true = .ok r ∧
      r.1 = 0x1000#64 ∧ (freshOs 0x10000).MapsInside 0x0 ∧
        ∃ r', Os.allocAndMap { r.2 with mem := r.2.mem.storeByte 0x1008 1 } 0x1000 true true =
            .ok r' ∧
          r'.1 = 0x5000#64 ∧
            Os.MapsInside { r.2 with mem := r.2.mem.storeByte 0x1008 1 } 0x1000 := by
    decide +kernel
  obtain ⟨⟨_, s₁⟩, hfirst, rfl, hok₁, ⟨_, s₂⟩, hsecond, rfl, hok₂⟩ := hcalls
  dsimp only at hfirst hsecond hok₂
  have hone := MapRun.map 0x0 true true .start hok₁ hfirst
  have hstore := hone.store (r := ⟨0x0, 0x1000⟩) 1 (List.mem_singleton_self _) (by decide)
    (n := 0x1008) (by decide)
  have hrun := hstore.map 0x1000 true true hok₂ hsecond
  obtain ⟨hmapped, hnone, -⟩ := hrun.mappings_hold (freshOs_fresh (by decide)) (by decide)
  have hfirstPage := hmapped ⟨0x0, 0x1000⟩ (by simp) (by decide) 0x123 (by decide)
  have hsecondPage := hmapped ⟨0x1000, 0x5000⟩ (by simp) (by decide) 0x1FFF (by decide)
  exact ⟨_, s₂, hrun, hfirstPage, hsecondPage, hnone 0x2000 (by decide +kernel) (by decide)⟩

/-- The leaf of page 0x100 lies behind the frame of its table, in the next frame:
the page mapped next is given this frame, and page 0x100 is lost. -/
theorem mapping_lost : ∃ trace s, MapRun (fun _ _ => True) (freshOs 0x10000) trace s ∧
    (freshOs 0x10000).Fresh ∧
    (trace.Pairwise fun a b => ¬SamePage a.virtualAddress b.virtualAddress) ∧
    trace = [⟨0x100000, 0x1000⟩, ⟨0x0, 0x5000⟩] ∧
    pageWalk s.proc.pml4 s.mem 0x100000 = none := by
  have hcalls : ∃ r, (freshOs 0x10000).allocAndMap 0x100000 true true = .ok r ∧
      r.1 = 0x1000#64 ∧ ∃ r', r.2.allocAndMap 0x0 true true = .ok r' ∧ r'.1 = 0x5000#64 ∧
        pageWalk r'.2.proc.pml4 r'.2.mem 0x100000 = none := by
    decide +kernel
  obtain ⟨⟨_, s₁⟩, hfirst, rfl, ⟨_, s₂⟩, hsecond, rfl, hwalk⟩ := hcalls
  dsimp only at hfirst hsecond hwalk
  exact ⟨_, s₂, .map 0x0 true true (.map 0x100000 true true .start trivial hfirst) trivial hsecond,
    freshOs_fresh (by decide), by decide, rfl, hwalk⟩

/-! ## A call that fails -/

/-- The frame was free, or not yet handed out, before the call, and the watermark
has passed it after the call. -/
def Os.Taken (s s' : Os) (frame : Addr) : Prop :=
  frame.toNat % 4096 = 0 ∧ frame.toNat < s'.fa.watermark.toNat ∧
    (frame ∈ s.fa.freeList ∨ s.fa.watermark.toNat ≤ frame.toNat)

/-- A failed call changes no translation, and the frames it has taken are free
again or tables of the process. -/
theorem MapRun.allocAndMap_failed {writable user : Bool} (h₀ : s₀.Fresh)
    (h : MapRun Os.MapsInside s₀ trace s) (hok : s.MapsInside virtualAddress)
    (hcall : s.allocAndMap virtualAddress writable user = .ok (uint64Max, s')) :
    (∀ va, InFrames (pagePath va) →
      pageWalk s'.proc.pml4 s'.mem va = pageWalk s.proc.pml4 s.mem va) ∧
    ∀ frame, s.Taken s' frame → frame ∈ s'.fa.freeList ∨
      ∃ path, s'.tables.reach .root path = some (.inMemory frame) := by
  obtain ⟨node, data, hmaps, -⟩ := h.maps h₀
  obtain ⟨node', hpage⟩ := (hmaps.allocAndMap_sat hok.1 hok.2).of_eq_ok hcall
  have hmaps' : s'.Maps s₀.fa.watermark.toNat node' (mappedBy trace) data := by
    rcases hpage.maps with ⟨-, hmaps'⟩ | ⟨hne, -⟩
    · exact hmaps'
    · exact absurd rfl hne
  refine ⟨fun va hpath => ?_, fun frame ⟨haligned, hbelow, htaken⟩ => ?_⟩
  · rw [hmaps'.pageWalk_eq hpath, hmaps.pageWalk_eq hpath]
  · have hbase : s₀.fa.watermark.toNat ≤ frame.toNat := by
      rcases htaken with hfree | habove
      · exact (hmaps.owns.free frame hfree).above
      · exact hmaps.owns.start.trans habove
    rcases hmaps'.owns.accounts frame haligned hbase hbelow with (hdata | ⟨path, hpath⟩) | hfree
    · -- the data frames were in use before the call
      obtain ⟨hused, hnot⟩ := hmaps.owns.inUse frame (.inl hdata)
      rcases htaken with hfree | habove
      · exact absurd hfree hnot
      · have := hused.below
        omega
    · exact .inr ⟨path, hmaps'.tree.reach_eq (fun h => InFrames.of_append h) hmaps'.tree.root hpath⟩
    · exact .inl hfree

/-- The frames run out at the third level: two are taken, one becomes a table. -/
theorem allocAndMap_failed_outOfMemory : ∃ trace s s',
    MapRun Os.MapsInside (freshOs 0x7000) trace s ∧
      s.allocAndMap 0x40000000 true true = .ok (uint64Max, s') ∧
      pageWalk s'.proc.pml4 s'.mem 0x42 = pageWalk s.proc.pml4 s.mem 0x42 := by
  have hcalls : ∃ r, (freshOs 0x7000).allocAndMap 0x0 true true = .ok r ∧
      (freshOs 0x7000).MapsInside 0x0 ∧ r.2.MapsInside 0x40000000 ∧
        ∃ r', r.2.allocAndMap 0x40000000 true true = .ok r' ∧ r'.1 = uint64Max := by
    decide +kernel
  obtain ⟨⟨frame, s₁⟩, hfirst, hok₁, hok₂, ⟨_, s₂⟩, hsecond, rfl⟩ := hcalls
  dsimp only at hok₂ hsecond
  have hrun : MapRun Os.MapsInside (freshOs 0x7000) [⟨0x0, frame⟩] s₁ :=
    .map 0x0 true true .start hok₁ hfirst
  obtain ⟨hwalk, -⟩ := hrun.allocAndMap_failed (freshOs_fresh (by decide)) hok₂ hsecond
  exact ⟨_, s₁, s₂, hrun, hsecond, hwalk 0x42 (by decide +kernel)⟩

/-- The failed call zeroes the frame behind a table, where the leaf of page 0x100
lies. -/
theorem failed_call_unmaps : ∃ trace s s', MapRun (fun _ _ => True) (freshOs 0x6000) trace s ∧
    (freshOs 0x6000).Fresh ∧ s.allocAndMap 0x40000000 true true = .ok (uint64Max, s') ∧
      pageWalk s.proc.pml4 s.mem 0x100000 = some 0x1000 ∧
        pageWalk s'.proc.pml4 s'.mem 0x100000 = none := by
  have hcalls : ∃ r, (freshOs 0x6000).allocAndMap 0x100000 true true = .ok r ∧
      pageWalk r.2.proc.pml4 r.2.mem 0x100000 = some 0x1000 ∧
        ∃ r', r.2.allocAndMap 0x40000000 true true = .ok r' ∧ r'.1 = uint64Max ∧
          pageWalk r'.2.proc.pml4 r'.2.mem 0x100000 = none := by
    decide +kernel
  obtain ⟨⟨frame, s₁⟩, hfirst, hbefore, ⟨_, s₂⟩, hsecond, rfl, hafter⟩ := hcalls
  dsimp only at hbefore hsecond hafter
  exact ⟨_, s₁, s₂, .map 0x100000 true true .start trivial hfirst, freshOs_fresh (by decide),
    hsecond,
    hbefore, hafter⟩

end CacheSimulator
