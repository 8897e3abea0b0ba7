import CacheSimulator.Contract.FreshPages
import CacheSimulator.Processes.Memory

/-!
# Processes and their memory

As long as the pages that have been mapped fit in L2, the two cores, the TLBs, the page
tables and the caches are a virtual memory: each process has pages of its own, which are
zero when they are mapped, and an access faults exactly when its process does not have
the page.
-/

namespace CacheSimulator

/-! ## Runs -/

theorem RoomInL2.mono {pages pages' : Finset ℕ} (h : RoomInL2 pages') (hsub : pages ⊆ pages') :
    RoomInL2 pages := fun colour =>
  (Finset.card_le_card (Finset.filter_subset_filter _ hsub)).trans (h colour)

theorem PageSystem.framePages_subset_afterAlloc (σ : PageSystem) (p : ℕ)
    (virtualAddress frame : Addr) (s : Os) :
    σ.framePages ⊆ (σ.afterAlloc p virtualAddress frame s).framePages := by
  intro page hpage
  obtain ⟨f, hf, rfl⟩ := List.mem_map.mp (List.mem_toFinset.mp hpage)
  refine List.mem_toFinset.mpr (List.mem_map.mpr ⟨f, ?_, rfl⟩)
  unfold PageSystem.afterAlloc
  dsimp only
  split
  · exact hf
  · exact List.mem_cons_of_mem _ hf

section Runs

variable {σ₀ σ : PageSystem} {trace : List ProcessEvent}

theorem ProcessRun.shows (h₀ : σ₀.Initial) (h : ProcessRun σ₀ trace σ)
    (hfit : RoomInL2 σ.framePages) : ∃ m, σ.Shows m ∧ σ.sim.mem.size = σ₀.sim.mem.size ∧
      VirtualMemory.Run 0 (ProcessMemory.start σ₀.process) trace m ∧
        ∃ base used node mapped, σ.Inv base used node mapped := by
  induction h with
  | start => exact ⟨_, h₀.shows, rfl, .start, _, _, _, _, h₀.inv⟩
  | alloc p virtualAddress writable user _ hunmapped hinside hcall ih =>
      obtain ⟨m, hm, hsize, hrun, base, used, node, mapped, hinv⟩ :=
        ih (hfit.mono (PageSystem.framePages_subset_afterAlloc _ _ _ _ _))
      obtain ⟨hallows, hshows, hinv'⟩ := hm.afterAlloc hinv hunmapped hinside hcall
      obtain ⟨node', hpage⟩ := ((hinv.maps p).allocAndMap_sat hinside.1 hinside.2).of_eq_ok hcall
      exact ⟨_, hshows, hpage.size.trans hsize, hrun.step hallows, base, hinv'⟩
  | switch p _ ih =>
      obtain ⟨m, hm, hsize, hrun, base, used, node, mapped, hinv⟩ := ih hfit
      exact ⟨_, hm.afterSwitch p, hsize, hrun.step trivial, _, _, _, _, hinv.afterSwitch p⟩
  | call call _ hcall hexec ih =>
      obtain ⟨m, hm, hsize, hrun, base, used, node, mapped, hinv⟩ := ih hfit
      obtain ⟨hallows, hshows⟩ := hm.step hinv hfit hcall hexec
      obtain ⟨es, hes, -⟩ := Call.exec_evolves hinv.caches hexec
      exact ⟨_, hshows, hes.size.trans hsize, hrun.step hallows, _, _, _, _,
        hinv.afterCall hcall.isData (hm.live _ _) hcall.inside hexec⟩

/-- As long as the mapped pages fit in L2, the processes run on a virtual memory, and no
request of theirs aborts. -/
theorem ProcessRun.virtual_memory (h₀ : σ₀.Initial) (hsize : σ₀.sim.mem.size.toNat < 2 ^ 63)
    (h : ProcessRun σ₀ trace σ) (hfit : RoomInL2 σ.framePages) :
    (∃ m, VirtualMemory.Run 0 (ProcessMemory.start σ₀.process) trace m) ∧
    (∀ call : Call, call.AccessesLine → ∃ s result, call.exec σ.sim = .ok (s, result)) ∧
    ∀ p virtualAddress writable user, (σ.os p).MapsInside virtualAddress →
      ∃ r, (σ.os p).allocAndMap virtualAddress writable user = .ok r := by
  obtain ⟨m, hm, hkept, hrun, base, used, node, mapped, hinv⟩ := h.shows h₀ hfit
  refine ⟨⟨m, hrun⟩, fun call hcall => hm.returns hinv (hkept ▸ hsize) hcall,
    fun p virtualAddress writable user hinside => ?_⟩
  have hsat : ((σ.os p).allocAndMap virtualAddress writable user).Sat _ fun _ => False :=
    (hinv.maps p).allocAndMap_sat hinside.1 hinside.2
  obtain ⟨r, hr, -⟩ := hsat.exists_ok
  exact ⟨r, hr⟩

/-- Each process runs as on a memory of its own, whatever the others do. -/
theorem ProcessRun.isolated (h₀ : σ₀.Initial) (h : ProcessRun σ₀ trace σ)
    (hfit : RoomInL2 σ.framePages) (p : ℕ) :
    ∃ m, VirtualMemory.Run 0 (⟨fun _ => (), fun _ _ => none⟩ :
      VirtualMemory.State Unit Unit (List (Fin 512)) Byte 4096)
        (VirtualMemory.eventsOf p σ₀.process trace) m := by
  obtain ⟨m, -, -, hrun, -⟩ := h.shows h₀ hfit
  exact ⟨_, hrun.only p⟩

end Runs

/-! ## Two processes -/

inductive ProcessRequest where
  | alloc (p : ℕ) (virtualAddress : Addr)
  | switch (p : ℕ)
  | call (call : Call)

instance (call : Call) : Decidable call.AccessesLine :=
  decidable_of_iff (call.IsData ∧ InFrames (pagePath call.virtualAddress) ∧
    l1ToOffset call.virtualAddress + call.dataSize ≤ 64)
    ⟨fun ⟨hdata, hinside, hline⟩ => ⟨hdata, hinside, hline⟩,
      fun h => ⟨h.isData, h.inside, h.line⟩⟩

/-- The state after the request, with the events so far, if a run may make it. -/
def performRequest (r : List ProcessEvent × PageSystem) :
    ProcessRequest → Option (List ProcessEvent × PageSystem)
  | .alloc p va =>
      match (r.2.os p).allocAndMap va true true with
      | .ok (frame, s) =>
          if r.2.pages p (pagePath va) = .unmapped ∧ (r.2.os p).MapsInside va then
            some (r.1 ++ [.map p (pagePath va) (frame != uint64Max)], r.2.afterAlloc p va frame s)
          else none
      | .error _ => none
  | .switch p => some (r.1 ++ [.switch p], r.2.afterSwitch p)
  | .call call =>
      match call.exec r.2.sim with
      | .ok (s, result) =>
          if call.AccessesLine then some (r.1 ++ [call.event result], r.2.afterCall call s)
          else none
      | .error _ => none

section Requests

variable {σ₀ : PageSystem} {r r' : List ProcessEvent × PageSystem}

theorem ProcessRun.performRequest {request : ProcessRequest} (h : ProcessRun σ₀ r.1 r.2)
    (hstep : CacheSimulator.performRequest r request = some r') : ProcessRun σ₀ r'.1 r'.2 := by
  unfold CacheSimulator.performRequest at hstep
  cases request with
  | alloc p va =>
      dsimp only at hstep
      split at hstep
      · rename_i frame s hcall
        obtain ⟨hok, heq⟩ := Option.ite_none_right_eq_some.mp hstep
        obtain rfl := Option.some.inj heq
        exact h.alloc p va true true hok.1 hok.2 hcall
      · cases hstep
  | switch p =>
      obtain rfl := Option.some.inj hstep
      exact h.switch p
  | call call =>
      dsimp only at hstep
      split at hstep
      · rename_i s result hexec
        obtain ⟨hok, heq⟩ := Option.ite_none_right_eq_some.mp hstep
        obtain rfl := Option.some.inj heq
        exact h.call call hok hexec
      · cases hstep

theorem ProcessRun.performRequests {requests : List ProcessRequest} (h : ProcessRun σ₀ r.1 r.2)
    (hrequests : requests.foldlM CacheSimulator.performRequest r = some r') :
    ProcessRun σ₀ r'.1 r'.2 := by
  induction requests generalizing r with
  | nil => exact Option.some.inj hrequests ▸ h
  | cons request requests ih =>
      obtain ⟨r₁, hstep, hrest⟩ := Option.bind_eq_some_iff.mp hrequests
      exact ih (h.performRequest hstep) hrest

end Requests

/-- Two processes with a page at one address: process 0 stores 7, process 1 loads zero,
and process 0, switched back to, loads its 7 on the other core. -/
def twoProcesses : List ProcessRequest :=
  [.alloc 0 0x0, .alloc 1 0x0, .call (.write 0 0x8 [7]), .switch 1, .call (.read 0 0x8 1),
    .call (.read 1 0x1000 1), .switch 0, .call (.read 1 0x8 1)]

def twoProcessesEvents : List ProcessEvent :=
  [.switch 1, .load 0 (pagePath 0x8) 8 1 (some [0]), .load 1 (pagePath 0x1000) 0 1 none, .switch 0,
    .load 1 (pagePath 0x8) 8 1 (some [7])]

theorem twoProcesses_run : ∃ trace σ, ProcessRun smallSystem trace σ ∧ RoomInL2 σ.framePages ∧
    trace.drop 3 = twoProcessesEvents := by
  have hrequests : ∃ r ∈ twoProcesses.foldlM performRequest ([], smallSystem),
      r.1.drop 3 = twoProcessesEvents ∧ RoomInL1 r.2.framePages := by
    decide +kernel
  obtain ⟨⟨trace, σ⟩, hrun, htrace, hroom⟩ := hrequests
  have hstart : ProcessRun smallSystem [] smallSystem := .start
  have hrun' := ProcessRun.performRequests (r := ([], smallSystem)) hstart hrun
  exact ⟨trace, σ, hrun', hroom.roomInL2, htrace⟩

theorem virtual_memory_twoProcesses : ∃ trace σ, ProcessRun smallSystem trace σ ∧
    trace.drop 3 = twoProcessesEvents ∧
    (∃ m, VirtualMemory.Run 0 (ProcessMemory.start smallSystem.process) trace m) ∧
    (∀ call : Call, call.AccessesLine → ∃ s result, call.exec σ.sim = .ok (s, result)) ∧
    ∀ p virtualAddress writable user, (σ.os p).MapsInside virtualAddress →
      ∃ r, (σ.os p).allocAndMap virtualAddress writable user = .ok r := by
  obtain ⟨trace, σ, hrun, hroom, htrace⟩ := twoProcesses_run
  exact ⟨trace, σ, hrun, htrace, hrun.virtual_memory smallSystem_initial (by decide) hroom⟩

theorem isolated_twoProcesses : ∃ trace σ, ProcessRun smallSystem trace σ ∧
    trace.drop 3 = twoProcessesEvents ∧ ∃ m, VirtualMemory.Run 0 (⟨fun _ => (), fun _ _ => none⟩ :
      VirtualMemory.State Unit Unit (List (Fin 512)) Byte 4096)
        (VirtualMemory.eventsOf 1 smallSystem.process trace) m := by
  obtain ⟨trace, σ, hrun, hroom, htrace⟩ := twoProcesses_run
  exact ⟨trace, σ, hrun, htrace, hrun.isolated smallSystem_initial hroom 1⟩

end CacheSimulator
