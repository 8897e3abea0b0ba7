import CacheSimulator.Paging.Pages

/-!
# The lines of a frame

A frame is 64 lines. What `HoldsZeros` and `HoldsClean` say of the sets is said here
of the lines, and a change of memory behind the caches is a change of the memory
part of the lines.
-/

namespace CacheSimulator

open Mesi

def LineIn (frame : Addr) (a : LineNo) : Prop := InFrame frame (64 * a)

def lineOfByte (n : ℕ) (h : n < 2 ^ 64) : LineNo := ⟨n / 64, by omega⟩

variable {frame frame' : Addr} {a : LineNo} {n : ℕ} {s s' : Sim}

theorem inFrame_lt (haligned : frame.toNat % 4096 = 0) (hn : InFrame frame n) : n < 2 ^ 64 := by
  have := frame.isLt
  unfold InFrame at hn
  omega

theorem lineIn_lineOfByte (haligned : frame.toNat % 4096 = 0) (hn : InFrame frame n)
    (hlt : n < 2 ^ 64) : LineIn frame (lineOfByte n hlt) := by
  unfold LineIn InFrame lineOfByte at *
  dsimp only
  omega

theorem inFrame_of_lineIn (haligned : frame.toNat % 4096 = 0) (ha : LineIn frame a) (j : Fin 64) :
    InFrame frame (64 * a + j) := by
  have hj := j.isLt
  unfold LineIn InFrame at *
  omega

theorem eq_of_lineIn (h : frame.toNat % 4096 = 0) (h' : frame'.toNat % 4096 = 0)
    (ha : LineIn frame a) (ha' : LineIn frame' a) : frame = frame' :=
  FrameAllocator.eq_of_inFrame h h' ha ha'

theorem lineIn_lineNo {address : Addr} (haligned : frame.toNat % 4096 = 0)
    (h : InFrame frame address.toNat) : LineIn frame (lineNo address) :=
  lineIn_lineOfByte haligned h address.isLt

theorem data_eq_memLine (hlt : n < 2 ^ 64) :
    s.mem.data n = s.memLine (lineOfByte n hlt) ⟨n % 64, Nat.mod_lt _ (by decide)⟩ := by
  unfold Sim.memLine lineOfByte
  dsimp only
  rw [Nat.div_add_mod]

theorem data_congr_of_lines (haligned : frame.toNat % 4096 = 0)
    (h : ∀ a, LineIn frame a → s'.memLine a = s.memLine a) (hn : InFrame frame n) :
    s'.mem.data n = s.mem.data n := by
  have hlt := inFrame_lt haligned hn
  rw [data_eq_memLine hlt, data_eq_memLine hlt, h _ (lineIn_lineOfByte haligned hn hlt)]

theorem memLine_congr (haligned : frame.toNat % 4096 = 0) (ha : LineIn frame a)
    (h : ∀ n, InFrame frame n → s'.mem.data n = s.mem.data n) : s'.memLine a = s.memLine a := by
  funext j
  exact h _ (inFrame_of_lineIn haligned ha j)

/-! ## The sets and the lines -/

namespace Sim

def ZeroLine (s : Sim) (a : LineNo) : Prop := (s.rep a).view.AllIn fun line => line = fun _ => 0

/-- A line of the frame is one of the 64 that `HoldsZeros` looks up. -/
theorem exists_lineAddr (haligned : frame.toNat % 4096 = 0) (ha : LineIn frame a) :
    ∃ j : Fin 64, BitVec.ofNat 64 (frame.toNat + 64 * j) = lineAddr a := by
  unfold LineIn InFrame at ha
  refine ⟨⟨(64 * a - frame.toNat) / 64, by omega⟩, ?_⟩
  unfold lineAddr
  congr 1
  dsimp only
  omega

theorem HoldsZeros.l1 (h : s.HoldsZeros frame.toNat) (hs : s.Inv)
    (haligned : frame.toNat % 4096 = 0) (ha : LineIn frame a) {c : CoreId} {e : Mode × Line}
    (he : (s.rep a).l1 .data c = some e) : e.2 = fun _ => 0 := by
  obtain ⟨j, hj⟩ := exists_lineAddr haligned ha
  obtain ⟨w, hw, hslot⟩ := hs.placed.find_l1 he
  have hzero := (h j).1 c
  rw [hj] at hzero
  obtain ⟨m, line⟩ := e
  obtain ⟨-, -, hdata⟩ := L1Set.slots_eq_some.mp hslot
  exact hdata.symm.trans (hzero w hw)

theorem HoldsZeros.l2 (h : s.HoldsZeros frame.toNat) (hs : s.Inv)
    (haligned : frame.toNat % 4096 = 0) (ha : LineIn frame a) {e : L2Entry}
    (he : (s.rep a).l2 = some e) : e.data = fun _ => 0 := by
  obtain ⟨j, hj⟩ := exists_lineAddr haligned ha
  obtain ⟨w, hw, hslot⟩ := hs.placed.find_l2 he
  have hzero := (h j).2
  rw [hj] at hzero
  exact (L2Set.data_of_slots hslot).symm.trans (hzero w hw)

/-- A frame that memory holds as zeros, and of which the caches hold nothing else. -/
theorem HoldsZeros.zeroLine (h : s.HoldsZeros frame.toNat) (hs : s.Inv)
    (haligned : frame.toNat % 4096 = 0) (ha : LineIn frame a) (hl1 : s'.l1 = s.l1)
    (hl2 : s'.l2 = s.l2) (hzero : ∀ n, InFrame frame n → s'.mem.data n = 0) : s'.ZeroLine a := by
  refine ⟨fun c e he => ?_, fun e he => ?_, ?_⟩
  · refine h.l1 hs haligned ha (c := c) ?_
    rw [← he]
    simp only [LineRep.view, rep, l1Lines, hl1]
  · obtain ⟨e', he', rfl⟩ := Option.map_eq_some_iff.mp he
    refine h.l2 hs haligned ha ?_
    rw [← he']
    simp only [rep, l2Lines, hl2]
  · funext j
    exact hzero _ (inFrame_of_lineIn haligned ha j)

theorem HoldsClean.not_dirty (h : s.HoldsClean frame.toNat) (hs : s.Inv)
    (haligned : frame.toNat % 4096 = 0) (ha : LineIn frame a) : ¬(s.rep a).view.Dirty := by
  rintro ⟨v, hv⟩
  obtain ⟨e, he, hcopy⟩ := Option.map_eq_some_iff.mp hv
  obtain ⟨j, hj⟩ := exists_lineAddr haligned ha
  obtain ⟨w, hw, hslot⟩ := hs.placed.find_l2 he
  have hclean := h j
  rw [hj] at hclean
  refine hclean w hw (MESIState.mode?_eq_modified.mp ?_)
  exact (L2Set.state_of_slots hslot).trans (congrArg (fun copy => some copy.1) hcopy)

/-! ## Memory changes behind the caches -/

/-- The same caches, over another memory of the same size. -/
structure SameButMemory (s s' : Sim) : Prop where
  l1 : s'.l1 = s.l1
  l2 : s'.l2 = s.l2
  streams : s'.streams = s.streams
  history : s'.history = s.history
  size : s'.mem.size = s.mem.size

theorem SameButMemory.rep (h : SameButMemory s s') (a : LineNo) :
    s'.rep a = { s.rep a with mem := s'.memLine a } := by
  refine LineRep.ext ?_ ?_ rfl
  · simp only [Sim.rep, l1Lines, h.l1]
  · simp only [Sim.rep, l2Lines, h.l2]

theorem SameButMemory.dirty (h : SameButMemory s s') :
    (s'.rep a).view.Dirty ↔ (s.rep a).view.Dirty := by
  rw [h.rep]
  rfl

theorem SameButMemory.zeroLine (h : SameButMemory s s') (hmem : s'.memLine a = s.memLine a)
    (ha : s.ZeroLine a) : s'.ZeroLine a := by
  unfold ZeroLine
  rw [h.rep, hmem]
  exact ha

theorem SameButMemory.inv (h : SameButMemory s s') (hs : s.Inv) : s'.Inv := by
  have hl2 : ∀ a, (s'.rep a).l2 = (s.rep a).l2 := fun a => by rw [h.rep]
  refine ⟨hs.placed.congr h.l1 h.l2, fun a => ?_, fun a ha => ?_, hs.streams.of_eq h.streams h.size,
    fun a => ?_, fun a ha => ?_⟩
  · rw [h.rep]
    exact hs.exact a
  · rw [h.size]
    exact hs.inRange a (hl2 a ▸ ha)
  · obtain ⟨⟨hincl, hexcl, hmod, hinstr, hsingle, hcleanD, hcleanI⟩, hsharers⟩ := hs.coherent a
    rw [h.rep]
    exact ⟨⟨hincl, hexcl, hmod, hinstr, hsingle, hcleanD, hcleanI⟩, hsharers⟩
  · have hvalue := hs.value a (hl2 a ▸ ha)
    rw [h.rep, h.history]
    exact hvalue

end Sim

end CacheSimulator
