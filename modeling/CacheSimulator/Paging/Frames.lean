import Mathlib.Data.Set.Insert
import CacheSimulator.Library.Outcome
import CacheSimulator.Os

/-!
# Ownership of frames

The allocator hands out each frame to one owner at a time: a frame in use is
neither free nor at or above the watermark.
-/

namespace CacheSimulator

def InFrame (frame : Addr) (n : ℕ) : Prop := frame.toNat ≤ n ∧ n < frame.toNat + 4096

namespace FrameAllocator

variable {fa : FrameAllocator} {base n : ℕ} {mem : Memory} {size frame pa : Addr}
  {used : Set Addr}

structure Allocated (fa : FrameAllocator) (base : ℕ) (frame : Addr) : Prop where
  aligned : frame.toNat % 4096 = 0
  above : base ≤ frame.toNat
  below : frame.toNat + 4096 ≤ fa.watermark.toNat
  inLimit : frame.toNat + 4096 ≤ fa.limit.toNat

/-- Of the frames handed out since the watermark was at `base`, those in `used`
are in use and the others are free, in a memory of `size` bytes. -/
structure Owns (fa : FrameAllocator) (base : ℕ) (size : Addr) (used : Set Addr) : Prop where
  aligned : fa.watermark.toNat % 4096 = 0
  start : base ≤ fa.watermark.toNat
  limit : fa.limit.toNat ≤ size.toNat
  inUse : ∀ frame ∈ used, fa.Allocated base frame ∧ frame ∉ fa.freeList
  free : ∀ frame ∈ fa.freeList, fa.Allocated base frame
  nodup : fa.freeList.Nodup
  accounts : ∀ frame : Addr, frame.toNat % 4096 = 0 → base ≤ frame.toNat →
    frame.toNat < fa.watermark.toNat → frame ∈ used ∨ frame ∈ fa.freeList

theorem Allocated.ne_uint64Max (h : fa.Allocated base frame) : frame ≠ uint64Max := by
  rintro rfl
  have := h.aligned
  revert this
  decide

theorem eq_of_inFrame {frame' : Addr} (h : frame.toNat % 4096 = 0) (h' : frame'.toNat % 4096 = 0)
    (hn : InFrame frame n) (hn' : InFrame frame' n) : frame = frame' := by
  unfold InFrame at hn hn'
  apply BitVec.eq_of_toNat_eq
  omega

/-- The address of the frame that the allocator takes after `k` other ones. -/
def frameTaken (fa : FrameAllocator) (k : ℕ) : ℕ :=
  (fa.freeList[k]?.map BitVec.toNat).getD (fa.watermark.toNat + 4096 * (k - fa.freeList.length))

structure Zeroes (mem : Memory) (frame : Addr) (mem' : Memory) : Prop where
  size : mem'.size = mem.size
  zero : ∀ n, InFrame frame n → mem'.data n = 0
  other : ∀ n, ¬InFrame frame n → mem'.data n = mem.data n

theorem zeroFrame_sat (h : frame.toNat + 4096 ≤ mem.size.toNat) :
    (mem.zeroFrame frame).Sat (Zeroes mem frame) fun _ => False := by
  unfold Memory.zeroFrame
  rw [if_pos h]
  exact ⟨rfl, fun n hn => if_pos hn, fun n hn => if_neg hn⟩

structure Takes (fa : FrameAllocator) (base : ℕ) (mem : Memory) (used : Set Addr)
    (r : Addr × FrameAllocator × Memory) : Prop where
  fresh : r.1 ∉ used
  owns : r.2.1.Owns base mem.size (insert r.1 used)
  zeroes : Zeroes mem r.1 r.2.2
  taken : r.1.toNat = fa.frameTaken 0
  next : ∀ k, r.2.1.frameTaken k = fa.frameTaken (k + 1)
  limit : r.2.1.limit = fa.limit

def Exhausted (fa : FrameAllocator) : Prop :=
  fa.freeList = [] ∧ fa.limit.toNat < fa.watermark.toNat + 4096

theorem takes_pop {rest : List Addr} {mem' : Memory} (h : fa.Owns base mem.size used)
    (hfree : fa.freeList = pa :: rest) (hzeroes : Zeroes mem pa mem') :
    fa.Takes base mem used (pa, { fa with freeList := rest }, mem') := by
  have hpa := h.free pa (by simp [hfree])
  have hnodup := h.nodup
  rw [hfree, List.nodup_cons] at hnodup
  constructor
  · exact fun hused => (h.inUse pa hused).2 (by simp [hfree])
  · refine ⟨h.aligned, h.start, h.limit, ?_, ?_, hnodup.2, ?_⟩
    · rintro frame (rfl | hframe)
      · exact ⟨⟨hpa.aligned, hpa.above, hpa.below, hpa.inLimit⟩, hnodup.1⟩
      · obtain ⟨⟨haligned, habove, hbelow, hlimit⟩, hnot⟩ := h.inUse frame hframe
        refine ⟨⟨haligned, habove, hbelow, hlimit⟩, fun hrest => hnot ?_⟩
        rw [hfree]
        exact List.mem_cons_of_mem _ hrest
    · intro frame hframe
      obtain ⟨haligned, habove, hbelow, hlimit⟩ :=
        h.free frame (hfree ▸ List.mem_cons_of_mem _ hframe)
      exact ⟨haligned, habove, hbelow, hlimit⟩
    · intro frame haligned hbase hbelow
      have haccounts := h.accounts frame haligned hbase hbelow
      rw [hfree] at haccounts
      rcases haccounts with hused | hmem
      · exact .inl (Set.mem_insert_of_mem _ hused)
      · rcases List.mem_cons.mp hmem with rfl | hrest
        · exact .inl (Set.mem_insert _ _)
        · exact .inr hrest
  · exact hzeroes
  · simp [frameTaken, hfree]
  · intro k
    simp [frameTaken, hfree]
  · rfl

theorem takes_bump {next : Addr} {mem' : Memory} (h : fa.Owns base mem.size used)
    (hfree : fa.freeList = []) (hnext : next.toNat = fa.watermark.toNat + 4096)
    (hlimit : next.toNat ≤ fa.limit.toNat) (hzeroes : Zeroes mem fa.watermark mem') :
    fa.Takes base mem used (fa.watermark, ⟨next, fa.limit, []⟩, mem') := by
  have haligned := h.aligned
  constructor
  · intro hused
    have hbelow := (h.inUse _ hused).1.below
    dsimp only at hbelow
    omega
  · refine ⟨by dsimp only; omega, h.start.trans (by dsimp only; omega), h.limit, ?_, by simp,
      List.nodup_nil, ?_⟩
    · rintro frame (rfl | hframe)
      · exact ⟨⟨haligned, h.start, hnext.ge, hnext ▸ hlimit⟩, List.not_mem_nil⟩
      · obtain ⟨hframe, habove, hbelow, hinLimit⟩ := (h.inUse frame hframe).1
        exact ⟨⟨hframe, habove, by dsimp only; omega, hinLimit⟩, List.not_mem_nil⟩
    · intro frame hframe hbase hbelow
      dsimp only at hbelow
      rcases Nat.lt_or_ge frame.toNat fa.watermark.toNat with hlt | hge
      · have haccounts := h.accounts frame hframe hbase hlt
        rw [hfree] at haccounts
        exact .inl (Set.mem_insert_of_mem _ (haccounts.resolve_right List.not_mem_nil))
      · have heq : frame = fa.watermark := BitVec.eq_of_toNat_eq (by omega)
        exact .inl (heq ▸ Set.mem_insert _ _)
  · exact hzeroes
  · simp [frameTaken, hfree]
  · intro k
    simp only [frameTaken, hfree, List.getElem?_nil, Option.map_none, Option.getD_none,
      List.length_nil, hnext]
    omega
  · rfl

/-- Below the last page of the address space an allocation takes a frame nobody
uses, or finds the allocator exhausted and changes nothing. -/
theorem allocFrame_sat (h : fa.Owns base mem.size used)
    (hwrap : fa.frameTaken 0 + 4096 < 2 ^ 64) :
    (allocFrame fa mem).Sat
      (fun r => r = (uint64Max, fa, mem) ∧ fa.Exhausted ∨
        r.1 ≠ uint64Max ∧ ¬fa.Exhausted ∧ fa.Takes base mem used r)
      fun _ => False := by
  unfold allocFrame
  cases hfree : fa.freeList with
  | cons pa rest =>
      have hpa := h.free pa (by simp [hfree])
      refine (zeroFrame_sat (hpa.inLimit.trans h.limit)).bind fun mem' hmem' =>
        .inr ⟨hpa.ne_uint64Max, fun hexhausted => ?_, takes_pop h hfree hmem'⟩
      rw [Exhausted, hfree] at hexhausted
      exact absurd hexhausted.1 (by simp)
  | nil =>
      have htaken : fa.frameTaken 0 = fa.watermark.toNat := by simp [frameTaken, hfree]
      rw [htaken] at hwrap
      have hsum : (fa.watermark + pageSize).toNat = fa.watermark.toNat + 4096 := by
        rw [BitVec.toNat_add]
        exact Nat.mod_eq_of_lt hwrap
      dsimp only
      generalize fa.watermark + pageSize = next at hsum ⊢
      split
      · rename_i hlimit
        rw [gt_iff_lt, BitVec.lt_def, hsum] at hlimit
        exact .inl ⟨rfl, hfree, hlimit⟩
      · rename_i hlimit
        rw [gt_iff_lt, BitVec.lt_def, Nat.not_lt] at hlimit
        have htakes := fun mem' (hmem' : Zeroes mem fa.watermark mem') =>
          takes_bump h hfree hsum hlimit hmem'
        have hin : fa.watermark.toNat + 4096 ≤ mem.size.toNat := hsum ▸ hlimit.trans h.limit
        refine (zeroFrame_sat hin).bind fun mem' hmem' =>
          .inr ⟨?_, fun hexhausted => ?_, htakes mem' hmem'⟩
        · exact ((htakes mem' hmem').owns.inUse _ (Set.mem_insert _ _)).1.ne_uint64Max
        · have := hexhausted.2
          omega

theorem Owns.freeFrame (h : fa.Owns base size (insert pa used)) (hpa : pa ∉ used) :
    (freeFrame fa pa).Owns base size used := by
  obtain ⟨⟨haligned, habove, hbelow, hlimit⟩, hnot⟩ := h.inUse pa (Set.mem_insert _ _)
  refine ⟨h.aligned, h.start, h.limit, fun frame hframe => ?_, fun frame hframe => ?_,
    List.nodup_cons.mpr ⟨hnot, h.nodup⟩, fun frame hframe hbase hlt => ?_⟩
  · obtain ⟨⟨haligned, habove, hbelow, hlimit⟩, hfree⟩ :=
      h.inUse frame (Set.mem_insert_of_mem _ hframe)
    refine ⟨⟨haligned, habove, hbelow, hlimit⟩, fun hmem => ?_⟩
    rcases List.mem_cons.mp hmem with rfl | hmem
    · exact hpa hframe
    · exact hfree hmem
  · rcases List.mem_cons.mp hframe with rfl | hmem
    · exact ⟨haligned, habove, hbelow, hlimit⟩
    · obtain ⟨haligned, habove, hbelow, hlimit⟩ := h.free frame hmem
      exact ⟨haligned, habove, hbelow, hlimit⟩
  · rcases h.accounts frame hframe hbase hlt with (rfl | hused) | hfree
    · exact .inr List.mem_cons_self
    · exact .inl hused
    · exact .inr (List.mem_cons_of_mem _ hfree)

section Counting

variable {held : List Addr}

theorem Owns.allocated (h : fa.Owns base size {frame | frame ∈ held})
    (hframe : frame ∈ held ++ fa.freeList) : fa.Allocated base frame := by
  rcases List.mem_append.mp hframe with hheld | hfree
  · exact (h.inUse frame hheld).1
  · exact h.free frame hfree

/-- Every frame below the watermark is held or free, and none is counted twice. -/
theorem Owns.length_add (h : fa.Owns base size {frame | frame ∈ held}) (hnodup : held.Nodup)
    (hbase : base % 4096 = 0) :
    held.length + fa.freeList.length = (fa.watermark.toNat - base) / 4096 := by
  have hframes : (held ++ fa.freeList).Nodup := by
    refine List.nodup_append.mpr ⟨hnodup, h.nodup, ?_⟩
    rintro frame hheld _ hfree rfl
    exact (h.inUse frame hheld).2 hfree
  have hperm : ((held ++ fa.freeList).map fun frame => (frame.toNat - base) / 4096).Perm
      (List.range ((fa.watermark.toNat - base) / 4096)) := by
    rw [List.perm_ext_iff_of_nodup ?_ List.nodup_range]
    · intro k
      rw [List.mem_map, List.mem_range]
      constructor
      · rintro ⟨frame, hframe, rfl⟩
        obtain ⟨haligned, habove, hbelow, -⟩ := h.allocated hframe
        omega
      · intro hk
        have hlt : base + 4096 * k < 2 ^ 64 := by
          have := fa.watermark.isLt
          omega
        have hval : (BitVec.ofNat 64 (base + 4096 * k)).toNat = base + 4096 * k := by
          rw [BitVec.toNat_ofNat]
          exact Nat.mod_eq_of_lt hlt
        refine ⟨BitVec.ofNat 64 (base + 4096 * k), List.mem_append.mpr ?_, by omega⟩
        exact h.accounts _ (by omega) (by omega) (by omega)
    · refine hframes.map_on fun frame hframe frame' hframe' heq => BitVec.eq_of_toNat_eq ?_
      obtain ⟨haligned, habove, -⟩ := h.allocated hframe
      obtain ⟨haligned', habove', -⟩ := h.allocated hframe'
      omega
  have hlength := hperm.length_eq
  rwa [List.length_map, List.length_append, List.length_range] at hlength

theorem Owns.watermark_le (h : fa.Owns base size used) (hbase : base % 4096 = 0)
    (hlimit : base ≤ fa.limit.toNat) : fa.watermark.toNat ≤ fa.limit.toNat := by
  rcases Nat.eq_or_lt_of_le h.start with heq | hlt
  · rwa [← heq]
  · -- the last frame below the watermark
    have haligned := h.aligned
    have hval : (fa.watermark - pageSize).toNat = fa.watermark.toNat - 4096 := by
      rw [BitVec.toNat_sub_of_le]
      · rfl
      · rw [BitVec.le_def]
        change 4096 ≤ _
        omega
    have hinLimit : (fa.watermark - pageSize).toNat + 4096 ≤ fa.limit.toNat := by
      rcases h.accounts (fa.watermark - pageSize) (by omega) (by omega) (by omega) with
        hused | hfree
      · exact (h.inUse _ hused).1.inLimit
      · exact (h.free _ hfree).inLimit
    omega

/-- The frames have run out when all those between `base` and the limit are held. -/
theorem Owns.exhausted_iff (h : fa.Owns base size {frame | frame ∈ held}) (hnodup : held.Nodup)
    (hbase : base % 4096 = 0) (hlimit : base ≤ fa.limit.toNat) :
    fa.Exhausted ↔ held.length = (fa.limit.toNat - base) / 4096 := by
  have hcount := h.length_add hnodup hbase
  have hle := h.watermark_le hbase hlimit
  have haligned := h.aligned
  have hstart := h.start
  unfold Exhausted
  rw [← List.length_eq_zero_iff]
  omega

end Counting

end FrameAllocator

end CacheSimulator
