import CacheSimulator.Cpu
import CacheSimulator.Library.Outcome

/-!
# Reading the state after an update

What each primitive update of `Sim` leaves of the fields the proofs read: the L1
sets, the L2 sets, memory, the stream tables, the history variable and the
recorded events.
-/

namespace CacheSimulator

namespace Sim

def streams (s : Sim) (c : CoreId) : Fin 8 → Stream := (s.cpu.cores c).prefetcher.streams

section SetL1

variable (s : Sim) (k : L1Kind) (c : CoreId) (i : Fin 64) (set : L1Set)

theorem l1_setL1 (k' : L1Kind) (c' : CoreId) (i' : Fin 64) :
    (s.setL1 k c i set).l1 k' c' i' =
      if k' = k ∧ c' = c ∧ i' = i then set else s.l1 k' c' i' := by
  by_cases hc : c' = c
  · subst hc
    cases k <;> cases k' <;> simp [setL1, modifyCore, l1, Function.update_apply]
  · cases k' <;> simp [setL1, modifyCore, l1, hc]

@[simp] theorem l1_setL1_self : (s.setL1 k c i set).l1 k c i = set := by simp [l1_setL1]

@[simp] theorem l2_setL1 : (s.setL1 k c i set).l2 = s.l2 := rfl

@[simp] theorem mem_setL1 : (s.setL1 k c i set).mem = s.mem := rfl

@[simp] theorem history_setL1 : (s.setL1 k c i set).history = s.history := rfl

@[simp] theorem events_setL1 : (s.setL1 k c i set).events = s.events := rfl

@[simp] theorem callback_setL1 : (s.setL1 k c i set).callback = s.callback := rfl

@[simp] theorem streams_setL1 : (s.setL1 k c i set).streams = s.streams := by
  funext c'
  by_cases hc : c' = c
  · subst hc
    cases k <;> simp [streams, setL1, modifyCore]
  · simp [streams, setL1, modifyCore, hc]

end SetL1

section SetL2

variable (s : Sim) (i : Fin 4096) (set : L2Set)

theorem l2_setL2 (i' : Fin 4096) :
    (s.setL2 i set).l2 i' = if i' = i then set else s.l2 i' := by
  simp [setL2, l2, Function.update_apply]

@[simp] theorem l2_setL2_self : (s.setL2 i set).l2 i = set := by simp [l2_setL2]

@[simp] theorem l1_setL2 : (s.setL2 i set).l1 = s.l1 := rfl

@[simp] theorem mem_setL2 : (s.setL2 i set).mem = s.mem := rfl

@[simp] theorem history_setL2 : (s.setL2 i set).history = s.history := rfl

@[simp] theorem events_setL2 : (s.setL2 i set).events = s.events := rfl

@[simp] theorem callback_setL2 : (s.setL2 i set).callback = s.callback := rfl

@[simp] theorem streams_setL2 : (s.setL2 i set).streams = s.streams := rfl

end SetL2

section Emit

variable (s : Sim) (type : CacheEventType) (coreId level set way : ℕ) (addr : Addr)
  (oldState newState : MESIState) (data : Option Line)

@[simp] theorem cpu_emit :
    (s.emit type coreId level set way addr oldState newState data).cpu = s.cpu := by
  unfold emit
  split <;> rfl

@[simp] theorem mem_emit :
    (s.emit type coreId level set way addr oldState newState data).mem = s.mem := by
  unfold emit
  split <;> rfl

@[simp] theorem history_emit :
    (s.emit type coreId level set way addr oldState newState data).history = s.history := by
  unfold emit
  split <;> rfl

@[simp] theorem callback_emit :
    (s.emit type coreId level set way addr oldState newState data).callback = s.callback := by
  unfold emit
  split <;> rfl

@[simp] theorem l1_emit :
    (s.emit type coreId level set way addr oldState newState data).l1 = s.l1 := by
  funext k c i
  cases k <;> simp [l1]

@[simp] theorem l2_emit :
    (s.emit type coreId level set way addr oldState newState data).l2 = s.l2 := by
  funext i
  simp [l2]

@[simp] theorem streams_emit :
    (s.emit type coreId level set way addr oldState newState data).streams = s.streams := by
  funext c
  simp [streams]

end Emit

section Record

variable (s : Sim) (op : MemOp)

@[simp] theorem l1_record : (s.record op).l1 = s.l1 := rfl

@[simp] theorem l2_record : (s.record op).l2 = s.l2 := rfl

@[simp] theorem mem_record : (s.record op).mem = s.mem := rfl

@[simp] theorem streams_record : (s.record op).streams = s.streams := rfl

@[simp] theorem history_record : (s.record op).history = s.history ++ [op] := rfl

end Record

section Core

variable (s : Sim) (c : CoreId)

/-- An update of a core that leaves its L1 caches and its streams alone. -/
theorem l1_modifyCore {f : Core → Core} (hd : ∀ core, (f core).l1d = core.l1d)
    (hi : ∀ core, (f core).l1i = core.l1i) : (s.modifyCore c f).l1 = s.l1 := by
  funext k c' i
  by_cases hc : c' = c
  · subst hc
    cases k <;> simp [modifyCore, l1, hd, hi]
  · cases k <;> simp [modifyCore, l1, hc]

theorem streams_modifyCore {f : Core → Core}
    (hf : ∀ core, (f core).prefetcher.streams = core.prefetcher.streams) :
    (s.modifyCore c f).streams = s.streams := by
  funext c'
  by_cases hc : c' = c
  · subst hc
    simp [modifyCore, streams, hf]
  · simp [modifyCore, streams, hc]

@[simp] theorem l2_modifyCore (f : Core → Core) : (s.modifyCore c f).l2 = s.l2 := rfl

@[simp] theorem mem_modifyCore (f : Core → Core) : (s.modifyCore c f).mem = s.mem := rfl

@[simp] theorem history_modifyCore (f : Core → Core) : (s.modifyCore c f).history = s.history := rfl

@[simp] theorem events_modifyCore (f : Core → Core) : (s.modifyCore c f).events = s.events := rfl

@[simp] theorem callback_modifyCore (f : Core → Core) :
    (s.modifyCore c f).callback = s.callback := rfl

end Core

/-! ## States with the same caches -/

/-- The two states agree on everything the cache proofs read; they may differ in
the TLBs, the counters, the stream ages and the events. -/
structure SameCaches (s s' : Sim) : Prop where
  l1 : s'.l1 = s.l1
  l2 : s'.l2 = s.l2
  mem : s'.mem = s.mem
  history : s'.history = s.history
  streams : s'.streams = s.streams

namespace SameCaches

theorem refl (s : Sim) : SameCaches s s := ⟨rfl, rfl, rfl, rfl, rfl⟩

theorem trans {s s' s'' : Sim} (h : SameCaches s s') (h' : SameCaches s' s'') :
    SameCaches s s'' :=
  ⟨h'.l1.trans h.l1, h'.l2.trans h.l2, h'.mem.trans h.mem, h'.history.trans h.history,
    h'.streams.trans h.streams⟩

theorem emit (s : Sim) (type : CacheEventType) (coreId level set way : ℕ) (addr : Addr)
    (oldState newState : MESIState) (data : Option Line) :
    SameCaches s (s.emit type coreId level set way addr oldState newState data) := by
  constructor <;> simp

theorem modifyPmc (s : Sim) (c : CoreId) (f : PerfCounters → PerfCounters) :
    SameCaches s (s.modifyPmc c f) :=
  ⟨l1_modifyCore s c (fun _ => rfl) fun _ => rfl, rfl, rfl, rfl,
    streams_modifyCore s c fun _ => rfl⟩

theorem beginStep (s : Sim) (seq : BitVec 32) : SameCaches s { s with currentSeq := seq } :=
  ⟨rfl, rfl, rfl, rfl, rfl⟩

theorem translateData (s : Sim) (c : CoreId) (virtualAddress : Addr) :
    SameCaches s (translateData s c virtualAddress).2 :=
  ⟨l1_modifyCore s c (fun _ => rfl) fun _ => rfl, rfl, rfl, rfl,
    streams_modifyCore s c fun _ => rfl⟩

theorem translateInstr (s : Sim) (c : CoreId) (virtualAddress : Addr) :
    SameCaches s (translateInstr s c virtualAddress).2 :=
  ⟨l1_modifyCore s c (fun _ => rfl) fun _ => rfl, rfl, rfl, rfl,
    streams_modifyCore s c fun _ => rfl⟩

end SameCaches

end Sim

end CacheSimulator
