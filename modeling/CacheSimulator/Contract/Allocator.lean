import CacheSimulator.Paging.Frames

/-!
# The frame allocator

A run of the allocator takes frames and gives some of the frames in use back. No
frame has two owners, and the allocator fails only when every frame is in use.
-/

namespace CacheSimulator

/-- Calls of `alloc_frame`, and of `free_frame` for frames in use. The frames in
`held` are in use. -/
inductive FrameRun (fa₀ : FrameAllocator) (mem₀ : Memory) :
    List Addr → FrameAllocator → Memory → Prop
  | start : FrameRun fa₀ mem₀ [] fa₀ mem₀
  | alloc {held : List Addr} {fa fa' : FrameAllocator} {mem mem' : Memory} {pa : Addr} :
      FrameRun fa₀ mem₀ held fa mem → allocFrame fa mem = .ok (pa, fa', mem') →
        FrameRun fa₀ mem₀ (if pa = uint64Max then held else pa :: held) fa' mem'
  | free {held : List Addr} {fa : FrameAllocator} {mem : Memory} {pa : Addr} :
      FrameRun fa₀ mem₀ held fa mem → pa ∈ held →
        FrameRun fa₀ mem₀ (held.erase pa) (freeFrame fa pa) mem

structure FrameAllocator.Ready (fa : FrameAllocator) (mem : Memory) : Prop where
  freeList : fa.freeList = []
  aligned : fa.watermark.toNat % 4096 = 0
  start : fa.watermark.toNat ≤ fa.limit.toNat
  limit : fa.limit.toNat ≤ mem.size.toNat
  size : mem.size.toNat < 2 ^ 63

namespace FrameRun

open FrameAllocator

variable {fa₀ fa : FrameAllocator} {mem₀ mem : Memory} {held : List Addr}

theorem Ready.owns (h : fa.Ready mem) : fa.Owns fa.watermark.toNat mem.size ∅ := by
  refine ⟨h.aligned, Nat.le_refl _, h.limit, by simp, by simp [h.freeList], by simp [h.freeList],
    ?_⟩
  intro frame _ habove hbelow
  omega

structure Held (fa₀ : FrameAllocator) (mem₀ : Memory) (held : List Addr) (fa : FrameAllocator)
    (mem : Memory) : Prop where
  owns : fa.Owns fa₀.watermark.toNat mem.size {frame | frame ∈ held}
  nodup : held.Nodup
  limit : fa.limit = fa₀.limit
  size : mem.size = mem₀.size

theorem Held.frameTaken_lt (h : Held fa₀ mem₀ held fa mem) (h₀ : fa₀.Ready mem₀) :
    fa.frameTaken 0 + 4096 < 2 ^ 64 := by
  have hlimit := h.owns.limit
  have hsize := h₀.size
  rw [← h.size] at hsize
  unfold frameTaken
  cases hfree : fa.freeList with
  | nil =>
      have hle := h.owns.watermark_le h₀.aligned (h.limit ▸ h₀.start)
      simp only [List.getElem?_nil, Option.map_none, Option.getD_none, List.length_nil]
      omega
  | cons pa rest =>
      have hin := (h.owns.free pa (by simp [hfree])).inLimit
      simp only [List.getElem?_cons_zero, Option.map_some, Option.getD_some]
      omega

theorem Held.allocFrame_sat (h : Held fa₀ mem₀ held fa mem) (h₀ : fa₀.Ready mem₀) :
    (allocFrame fa mem).Sat
      (fun r => (r = (uint64Max, fa, mem) ∧ fa.Exhausted ∨
        r.1 ≠ uint64Max ∧ ¬fa.Exhausted ∧ Zeroes mem r.1 r.2.2) ∧
          Held fa₀ mem₀ (if r.1 = uint64Max then held else r.1 :: held) r.2.1 r.2.2)
      fun _ => False := by
  refine (FrameAllocator.allocFrame_sat h.owns (h.frameTaken_lt h₀)).imp fun r hr => ?_
  rcases hr with ⟨rfl, hexhausted⟩ | ⟨hne, hnot, htakes⟩
  · refine ⟨.inl ⟨rfl, hexhausted⟩, ?_⟩
    rw [if_pos rfl]
    exact h
  · refine ⟨.inr ⟨hne, hnot, htakes.zeroes⟩, ?_⟩
    rw [if_neg hne]
    have hset : insert r.1 {frame | frame ∈ held} = {frame | frame ∈ r.1 :: held} := by
      ext frame
      simp
    refine ⟨?_, List.nodup_cons.mpr ⟨htakes.fresh, h.nodup⟩, htakes.limit.trans h.limit,
      htakes.zeroes.size.trans h.size⟩
    rw [htakes.zeroes.size, ← hset]
    exact htakes.owns

theorem Held.freeFrame {pa : Addr} (h : Held fa₀ mem₀ held fa mem) (hpa : pa ∈ held) :
    Held fa₀ mem₀ (held.erase pa) (freeFrame fa pa) mem := by
  have hset : insert pa {frame | frame ∈ held.erase pa} = {frame | frame ∈ held} := by
    ext frame
    change frame = pa ∨ frame ∈ held.erase pa ↔ frame ∈ held
    rw [h.nodup.mem_erase_iff]
    by_cases heq : frame = pa
    · simp [heq, hpa]
    · simp [heq]
  refine ⟨Owns.freeFrame (hset ▸ h.owns) ?_, h.nodup.erase pa, h.limit, h.size⟩
  exact h.nodup.not_mem_erase

theorem holds (h₀ : fa₀.Ready mem₀) (h : FrameRun fa₀ mem₀ held fa mem) :
    Held fa₀ mem₀ held fa mem := by
  induction h with
  | start =>
      refine ⟨?_, List.nodup_nil, rfl, rfl⟩
      have hset : {frame : Addr | frame ∈ ([] : List Addr)} = ∅ := by simp
      rw [hset]
      exact Ready.owns h₀
  | alloc _ hcall ih => exact ((ih.allocFrame_sat h₀).of_eq_ok hcall).2
  | free _ hpa ih => exact ih.freeFrame hpa

/-- The frames in use are distinct frames between the first watermark and the
limit, none of them is free, and an allocation zeroes exactly its frame, or finds
all frames in use. -/
theorem sound_and_complete (h₀ : fa₀.Ready mem₀) (h : FrameRun fa₀ mem₀ held fa mem) :
    held.Nodup ∧
    (∀ frame ∈ held, frame.toNat % 4096 = 0 ∧ fa₀.watermark.toNat ≤ frame.toNat ∧
      frame.toNat + 4096 ≤ fa₀.limit.toNat) ∧
    fa.freeList.Nodup ∧ (∀ frame ∈ fa.freeList, frame ∉ held) ∧
    ∃ pa fa' mem', allocFrame fa mem = .ok (pa, fa', mem') ∧
      (pa = uint64Max ↔ held.length = (fa₀.limit.toNat - fa₀.watermark.toNat) / 4096) ∧
      (pa ≠ uint64Max → Zeroes mem pa mem') ∧ (pa = uint64Max → mem' = mem) := by
  have hheld := h.holds h₀
  obtain ⟨howns, hnodup, hlimit, -⟩ := id hheld
  refine ⟨hnodup, fun frame hframe => ?_, howns.nodup, fun frame hfree hframe => ?_, ?_⟩
  · obtain ⟨haligned, habove, -, hin⟩ := (howns.inUse frame hframe).1
    exact ⟨haligned, habove, hlimit ▸ hin⟩
  · exact (howns.inUse frame hframe).2 hfree
  · have hexhausted := howns.exhausted_iff hnodup h₀.aligned (hlimit ▸ h₀.start)
    rw [hlimit] at hexhausted
    obtain ⟨⟨pa, fa', mem'⟩, hcall, hresult, -⟩ := (hheld.allocFrame_sat h₀).exists_ok
    refine ⟨pa, fa', mem', hcall, ?_⟩
    rw [← hexhausted]
    rcases hresult with ⟨hr, hout⟩ | ⟨hne, hnot, hzeroes⟩
    · obtain ⟨rfl, -, rfl⟩ : pa = uint64Max ∧ fa' = fa ∧ mem' = mem := by simpa using hr
      exact ⟨iff_of_true rfl hout, fun hne => absurd rfl hne, fun _ => rfl⟩
    · exact ⟨iff_of_false hne hnot, fun _ => hzeroes, fun heq => absurd heq hne⟩

/-- One frame below a limit inside the second one: it is taken, given back and
taken again, and then the frames have run out. -/
theorem sound_and_complete_oneFrame : ∃ fa mem,
    FrameRun ⟨0x1000#64, 0x2800#64, []⟩ ⟨fun _ => 7, 0x4000#64⟩ [0x1000#64] fa mem ∧
      ∃ pa fa' mem', allocFrame fa mem = .ok (pa, fa', mem') ∧
        (pa = uint64Max ↔ ([0x1000#64] : List Addr).length = (0x2800 - 0x1000) / 4096) := by
  have hcalls : ∃ r, allocFrame ⟨0x1000#64, 0x2800#64, []⟩ ⟨fun _ => 7, 0x4000#64⟩ = .ok r ∧
      r.1 = 0x1000#64 ∧ ∃ r', allocFrame (CacheSimulator.freeFrame r.2.1 r.1) r.2.2 = .ok r' ∧
        r'.1 = 0x1000#64 := by decide +kernel
  obtain ⟨⟨_, fa₁, mem₁⟩, hfirst, rfl, ⟨_, fa₂, mem₂⟩, hsecond, rfl⟩ := hcalls
  dsimp only at hfirst hsecond
  have hrun := ((FrameRun.start.alloc hfirst).free (List.mem_singleton_self _)).alloc hsecond
  obtain ⟨-, -, -, -, pa, fa', mem', hcall, hmax, -⟩ := hrun.sound_and_complete
    ⟨rfl, by decide, by decide, by decide, by decide⟩
  exact ⟨fa₂, mem₂, hrun, pa, fa', mem', hcall, hmax⟩

end FrameRun

end CacheSimulator
