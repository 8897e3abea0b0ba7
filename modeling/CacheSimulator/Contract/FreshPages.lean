import CacheSimulator.Paging.Allocations

/-!
# Fresh pages

Pages are mapped, stored to, read and freed in any order, and the frames of freed
pages are handed out again. A page that has not been stored to since it was mapped
reads as zeros, as long as nothing that the caches or the TLBs hold tells that its
frame was used before: `alloc_frame` clears memory only.
-/

namespace CacheSimulator

open Mesi

variable {σ₀ σ : PageSystem} {s s' : Sim} {frame pa va : Addr} {size : ℕ}

theorem inFrame_of_inPage (hval : pa.toNat = frame.toNat + (va &&& 0xFFF#64).toNat) {j : ℕ}
    (hj : (va &&& 0xFFF#64).toNat + j < 4096) : InFrame frame (pa.toNat + j) := by
  unfold InFrame
  omega

theorem Sim.Reads.zeroInPage {forgets : Prop} {result : Option (List Byte)}
    (h : Sim.Reads s pa size forgets (s', result)) (haligned : frame.toNat % 4096 = 0)
    (hval : pa.toNat = frame.toNat + (va &&& 0xFFF#64).toNat)
    (hzero : ∀ a, LineIn frame a → s'.ZeroLine a) :
    ∃ bytes, result = some bytes ∧ bytes.length = size ∧ ZeroInPage va bytes := by
  have hin : LineIn frame (lineNo pa) := by
    have hoffset := offset_lt va
    exact lineIn_lineNo haligned (inFrame_of_inPage hval (j := 0) hoffset)
  by_cases hline : l1ToOffset pa + size ≤ 64
  · obtain ⟨v, hv, rfl⟩ := h.result hline
    have hall := hzero _ hin
    have hv0 : v = fun _ => 0 := by
      rcases hv with hv | ⟨-, hmem⟩
      · exact hall.of_authoritative hv
      · exact hmem ▸ hall.mem
    refine ⟨_, rfl, ?_, fun j hj _ => ?_⟩
    · rw [Line.slice, List.length_take, List.length_drop, List.length_ofFn]
      omega
    · subst hv0
      simp only [Line.slice, List.getElem_take, List.getElem_drop, List.getElem_ofFn]
  · refine ⟨_, h.crossing hline, by simp, fun j hj hpage => ?_⟩
    rw [List.getElem_map, List.getElem_range]
    have hn := inFrame_of_inPage hval hpage
    have hlt := inFrame_lt haligned hn
    rw [data_eq_memLine hlt]
    have hall := hzero _ (lineIn_lineOfByte haligned hn hlt)
    exact congrFun hall.mem _

/-- In every state of a run a page that has been mapped and not been stored to
reads as zeros. -/
theorem PageRun.fresh_reads_zero (h₀ : σ₀.Initial)
    (h : PageRun PageSystem.MapsUnseen PageSystem.AccessesInside σ₀ σ) : σ.FreshReadsZero := by
  obtain ⟨base, used, node, mapped, hinv⟩ := h.inv h₀
  rintro c va size s result ⟨frame, hfresh⟩ hread
  have hframe : (σ.pages (σ.process c) (pagePath va)).frame? = some frame := by
    rw [hfresh]
    rfl
  have hne : σ.pages (σ.process c) (pagePath va) ≠ .freed := by
    rw [hfresh]
    exact PageStatus.noConfusion
  have hinside := hinv.inside _ _ _ hframe
  have haligned := hinv.aligned (hinv.data frame (hinv.page _ _ _ hframe).2).1
  have hexec : (Call.read c va size).exec σ.sim = .ok (s, result) := hread
  -- the page is mapped, so the call does not fault
  obtain ⟨hwalk, -⟩ := TLBCaches.translate2 (hinv.l1Dtlb c) (hinv.l2Dtlb c)
    (hinv.walkFinds hne hinside)
  have hpage := hwalk.trans ((hinv.maps (σ.process c)).pageWalk_eq hinside)
  rw [(hinv.page _ _ _ hframe).1] at hpage
  have hpa : (Call.read c va size).physicalAddress σ.sim = some (frame ||| (va &&& 0xFFF#64)) :=
    hpage
  have hreads := (Call.exec_spec hinv.caches hpa).of_eq_ok hexec
  refine Sim.Reads.zeroInPage hreads haligned (toNat_or_offset haligned va) fun a ha => ?_
  exact Call.exec_allIn hinv.caches hexec (fun hstore => hstore.elim)
    (hinv.zero _ _ frame hfresh a ha)

/-! ## A frame that is used again -/

instance (s : Sim) (frame : ℕ) : Decidable (s.HoldsZeros frame) :=
  inferInstanceAs (Decidable (∀ _ : Fin 64, _ ∧ _))

instance (s : Sim) (frame : ℕ) : Decidable (s.HoldsClean frame) :=
  inferInstanceAs (Decidable (∀ _ : Fin 64, _))

instance (set : TLBSet) (virtualAddress : Addr) (frame : ℕ) :
    Decidable (set.Agrees virtualAddress frame) :=
  inferInstanceAs (Decidable (∀ way, set.valid way = true → _ → _))

instance (σ : PageSystem) (p : ℕ) (virtualAddress : Addr) :
    Decidable (σ.MapsUnseen p virtualAddress) :=
  decidable_of_iff ((σ.os p).MapsInside virtualAddress ∧ σ.sim.HoldsZeros (σ.fa.frameTaken 0) ∧
    (∀ k < (σ.os p).missingFrom virtualAddress 3 .root,
      σ.sim.HoldsClean (σ.fa.frameTaken (k + 1))) ∧
    ∀ c, σ.process c = p →
      (∀ i, ((σ.sim.cpu.cores c).l1Dtlb i).Agrees virtualAddress (σ.fa.frameTaken 0)) ∧
        ∀ i, ((σ.sim.cpu.cores c).l2Dtlb i).Agrees virtualAddress (σ.fa.frameTaken 0))
    ⟨fun ⟨hinside, hpage, htables, htlbs⟩ => ⟨hinside, hpage, htables, htlbs⟩,
      fun h => ⟨h.inside, h.page, h.tables, h.tlbs⟩⟩

instance (σ : PageSystem) (call : Call) : Decidable (σ.AccessesInside call) :=
  inferInstanceAs (Decidable (InFrames _))

def smallSystem : PageSystem where
  sim := .initial ⟨fun _ => 0, 0x10000#64⟩ (fun _ => ⟨0, false, false, false⟩) false
  fa := ⟨0x1000#64, 0x10000#64, []⟩
  dataFrames := []
  pages _ _ := .unmapped

theorem smallSystem_initial : smallSystem.Initial := by
  have haligned : smallSystem.fa.watermark.toNat % 4096 = 0 := by decide
  have hlimit : smallSystem.fa.limit.toNat ≤ smallSystem.sim.mem.size.toNat := by decide
  exact ⟨Sim.initial_emptyCaches _ _ _, fun c => ⟨smallSystem.sim.cpu.cores c, rfl⟩,
    fun p => ⟨⟨_, rfl⟩, rfl, haligned, hlimit⟩, rfl, fun _ _ => rfl⟩

inductive PageRequest where
  | alloc (p : ℕ) (virtualAddress : Addr)
  | free (frame : Addr)
  | call (call : Call)

section Requests

variable {mapOk : PageSystem → ℕ → Addr → Prop} {callOk : PageSystem → Call → Prop}

def PageSystem.step (mapOk : PageSystem → ℕ → Addr → Prop) (callOk : PageSystem → Call → Prop)
    [∀ σ p va, Decidable (mapOk σ p va)] [∀ σ call, Decidable (callOk σ call)]
    (σ : PageSystem) : PageRequest → Option PageSystem
  | .alloc p va =>
      match (σ.os p).allocAndMap va true true with
      | .ok (frame, s) => if mapOk σ p va then some (σ.afterAlloc p va frame s) else none
      | .error _ => none
  | .free frame => if frame ∈ σ.dataFrames then some (σ.afterFree frame) else none
  | .call call =>
      match call.exec σ.sim with
      | .ok (s, _) =>
          if call.IsData ∧ σ.pageOf call ≠ .freed ∧ callOk σ call then some (σ.afterCall call s)
          else none
      | .error _ => none

variable [∀ σ p va, Decidable (mapOk σ p va)] [∀ σ call, Decidable (callOk σ call)]

theorem PageRun.step {σ' : PageSystem} {request : PageRequest} (h : PageRun mapOk callOk σ₀ σ)
    (hstep : σ.step mapOk callOk request = some σ') : PageRun mapOk callOk σ₀ σ' := by
  unfold PageSystem.step at hstep
  cases request with
  | alloc p va =>
      dsimp only at hstep
      split at hstep
      · rename_i frame s hcall
        obtain ⟨hok, heq⟩ := Option.ite_none_right_eq_some.mp hstep
        obtain rfl := Option.some.inj heq
        exact h.alloc p va true true hok hcall
      · cases hstep
  | free frame =>
      obtain ⟨hframe, heq⟩ := Option.ite_none_right_eq_some.mp hstep
      obtain rfl := Option.some.inj heq
      exact h.free frame hframe
  | call call =>
      dsimp only at hstep
      split at hstep
      · rename_i s result hexec
        obtain ⟨⟨hdata, hne, hok⟩, heq⟩ := Option.ite_none_right_eq_some.mp hstep
        obtain rfl := Option.some.inj heq
        exact h.call call hdata hne hok hexec
      · cases hstep

theorem PageRun.requests {requests : List PageRequest} {σ' : PageSystem}
    (h : PageRun mapOk callOk σ₀ σ)
    (hrequests : requests.foldlM (PageSystem.step mapOk callOk) σ = some σ') :
    PageRun mapOk callOk σ₀ σ' := by
  induction requests generalizing σ with
  | nil => exact Option.some.inj hrequests ▸ h
  | cons request requests ih =>
      obtain ⟨σ₁, hstep, hrest⟩ := Option.bind_eq_some_iff.mp hrequests
      exact ih (h.step hstep) hrest

end Requests

/-- Core 0 reads a page, the frame is freed and given to another page, and core 1
reads zeros there. -/
theorem fresh_reads_zero_reused : ∃ σ s bytes,
    PageRun PageSystem.MapsUnseen PageSystem.AccessesInside smallSystem σ ∧
    σ.pages (σ.process 1) (pagePath 0x1000) = .fresh 0x1000 ∧
    cpuRead σ.sim 1 0x1002 4 = .ok (s, some bytes) ∧ bytes.length = 4 ∧
      ZeroInPage 0x1002 bytes := by
  have hcalls : ∃ σ ∈ [.alloc 0 0x0, .call (.read 0 0x0 8), .free 0x1000, .alloc 0 0x1000].foldlM
      (PageSystem.step PageSystem.MapsUnseen PageSystem.AccessesInside) smallSystem,
      σ.pages (σ.process 1) (pagePath 0x1000) = .fresh 0x1000 ∧
      ∃ r, cpuRead σ.sim 1 0x1002 4 = .ok r ∧ r.2.isSome := by
    decide +kernel
  obtain ⟨σ, hrequests, hpage, ⟨s, result⟩, hread, -⟩ := hcalls
  have hrun := PageRun.start.requests hrequests
  obtain ⟨bytes, rfl, hbytes⟩ :=
    hrun.fresh_reads_zero smallSystem_initial 1 0x1002 4 s result ⟨0x1000, hpage⟩ hread
  exact ⟨σ, s, bytes, hrun, hpage, hread, hbytes⟩

/-- Core 0 stores 7 to a page. The frame is freed and given to another page, and the
line that the caches still hold is read there. -/
theorem fresh_page_reads_seven : ∃ σ, smallSystem.Initial ∧
    PageRun (fun _ _ _ => True) (fun _ _ => True) smallSystem σ ∧ ¬σ.FreshReadsZero := by
  have hcalls : ∃ σ ∈ [.alloc 0 0x0, .call (.write 0 0x0 [7]), .free 0x1000, .alloc 0 0x1000].foldlM
      (PageSystem.step (fun _ _ _ => True) fun _ _ => True) smallSystem,
      σ.pages (σ.process 1) (pagePath 0x1000) = .fresh 0x1000 ∧
      ∃ r, cpuRead σ.sim 1 0x1000 1 = .ok r ∧ r.2 = some [7] := by
    decide +kernel
  obtain ⟨σ, hrequests, hpage, ⟨s, result⟩, hread, hseven⟩ := hcalls
  refine ⟨σ, smallSystem_initial, PageRun.start.requests hrequests, fun hzero => ?_⟩
  obtain ⟨bytes, hbytes, -, hinPage⟩ := hzero 1 0x1000 1 s result ⟨0x1000, hpage⟩ hread
  obtain rfl : [7] = bytes := Option.some.inj (hseven.symm.trans hbytes)
  exact absurd (hinPage 0 (by decide) (by decide)) (by decide)

end CacheSimulator
