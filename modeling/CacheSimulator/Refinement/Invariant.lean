import CacheSimulator.Refinement.Update

/-!
# The invariant of the caches

`Inv` holds in every reachable state: the caches are maps from lines, the masks
are exact, the lines of L2 are inside memory, and the lines are coherent in the
protocol with the value their history gives them. `LineMove` is one move of the
protocol made by the simulator, and `Evolves` is a sequence of moves; both keep
`Inv`.
-/

namespace CacheSimulator

open Mesi

/-! ## Histories -/

theorem lineHistory_fill (h : List MemOp) (address : Addr) (bytes : Line) :
    lineHistory (h ++ [.fill address bytes]) =
      Function.update (lineHistory h) (lineNo address) bytes := by
  funext b
  simp only [lineHistory, List.foldl_append, List.foldl_cons, List.foldl_nil,
    Function.update_apply, eq_comm (a := b)]

theorem lineHistory_store (h : List MemOp) (address : Addr) (data : List Byte) :
    lineHistory (h ++ [.store address data]) =
      Function.update (lineHistory h) (lineNo address)
        (Store.act (l1ToOffset address, data) (lineHistory h (lineNo address))) := by
  funext b
  by_cases hb : b = lineNo address
  · subst hb
    simp [lineHistory, Store.act]
  · simp [lineHistory, Function.update_of_ne hb, Ne.symm hb]

def flatLines (memory : ℕ → Byte) (h : List MemOp) (line : LineNo) : Line :=
  fun j => flatMemory memory h (64 * line + j)

theorem flatLines_fill (memory : ℕ → Byte) (h : List MemOp) (address : Addr) (bytes : Line) :
    flatLines memory (h ++ [.fill address bytes]) = flatLines memory h := by
  funext b j
  simp [flatLines, flatMemory]

/-- A store that does not cross a line changes one line of a flat memory. -/
theorem flatLines_store (memory : ℕ → Byte) (h : List MemOp) {address : Addr} {data : List Byte}
    (hdata : l1ToOffset address + data.length ≤ 64) :
    flatLines memory (h ++ [.store address data]) =
      Function.update (flatLines memory h) (lineNo address)
        (Store.act (l1ToOffset address, data) (flatLines memory h (lineNo address))) := by
  have haddress := toNat_eq_line_add_offset address
  funext b j
  have hj := j.isLt
  have hstore : flatLines memory (h ++ [.store address data]) b j =
      if address.toNat ≤ 64 * b + j then
        (data[64 * (b : ℕ) + j - address.toNat]?).getD (flatLines memory h b j)
      else flatLines memory h b j := by
    simp [flatLines, flatMemory]
  rw [hstore]
  by_cases hb : b = lineNo address
  · subst hb
    rw [Function.update_self]
    simp only [Store.act, Line.overlay]
    by_cases hle : l1ToOffset address ≤ j
    · have hsub : 64 * (lineNo address : ℕ) + j - address.toNat = j - l1ToOffset address := by
        omega
      rw [if_pos (by omega), if_pos hle, hsub]
    · rw [if_neg (by omega), if_neg hle]
  · rw [Function.update_of_ne hb]
    have hne : (b : ℕ) ≠ lineNo address := fun h => hb (Fin.ext h)
    split
    · -- the byte is past the end of the stored data
      rw [List.getElem?_eq_none (by omega)]
      rfl
    · rfl

/-- What a move of line `a`, which memory holds as `mem`, adds to the history
variable. -/
inductive Records (h : List MemOp) (a : LineNo) (mem : Line) :
    Action CoreId Store → List MemOp → Prop
  | quiet (α : Action CoreId Store) : ¬α.Enters → α.stored = none → Records h a mem α h
  | load (α : Action CoreId Store) : α.Enters → α.stored = none →
      Records h a mem α (h ++ [.fill (lineAddr a) mem])
  | store (α : Action CoreId Store) (address : Addr) (data : List Byte) : lineNo address = a →
      l1ToOffset address + data.length ≤ 64 → ¬α.Enters →
      α.stored = some (l1ToOffset address, data) → Records h a mem α (h ++ [.store address data])
  | loadStore (α : Action CoreId Store) (address : Addr) (data : List Byte) : lineNo address = a →
      l1ToOffset address + data.length ≤ 64 → α.Enters →
      α.stored = some (l1ToOffset address, data) →
      Records h a mem α ((h ++ [.fill (lineAddr a) mem]) ++ [.store address data])

theorem Records.tracked {h h' : List MemOp} {a : LineNo} {mem : Line} {α : Action CoreId Store}
    (hr : Records h a mem α h') : lineHistory h' =
      Function.update (lineHistory h) a (track Store.act α mem (lineHistory h a)) := by
  cases hr with
  | quiet henters hstored => simp [track, Mesi.flat, henters, hstored]
  | load henters hstored =>
      rw [lineHistory_fill, lineNo_lineAddr]
      simp [track, Mesi.flat, henters, hstored]
  | store address data ha hdata henters hstored =>
      rw [lineHistory_store, ha]
      simp [track, Mesi.flat, henters, hstored]
  | loadStore address data ha hdata henters hstored =>
      rw [lineHistory_store, lineHistory_fill, lineNo_lineAddr, ha, Function.update_idem]
      simp [track, Mesi.flat, henters, hstored]

theorem Records.flat {h h' : List MemOp} {a : LineNo} {mem : Line} {α : Action CoreId Store}
    (hr : Records h a mem α h') (memory : ℕ → Byte) : flatLines memory h' =
      Function.update (flatLines memory h) a (Mesi.flat Store.act α (flatLines memory h a)) := by
  cases hr with
  | quiet henters hstored => simp [Mesi.flat, hstored]
  | load henters hstored =>
      rw [flatLines_fill]
      simp [Mesi.flat, hstored]
  | store address data ha hdata henters hstored =>
      rw [flatLines_store memory h hdata, ha]
      simp [Mesi.flat, hstored]
  | loadStore address data ha hdata henters hstored =>
      rw [flatLines_store memory _ hdata, flatLines_fill, ha]
      simp [Mesi.flat, hstored]

@[simp] theorem system_lines (memory : ℕ → Byte) (s : Sim) (a : LineNo) :
    (s.system memory).lines a = (s.rep a).view := rfl

@[simp] theorem system_tracked (memory : ℕ → Byte) (s : Sim) :
    (s.system memory).tracked = lineHistory s.history := rfl

@[simp] theorem system_flat (memory : ℕ → Byte) (s : Sim) :
    (s.system memory).flat = flatLines memory s.history := rfl

namespace Sim

def fills (s : Sim) : List Addr :=
  s.history.filterMap fun op =>
    match op with
    | .fill line _ => some line
    | .store _ _ => none

theorem fills_of_records {s s' : Sim} {a : LineNo} {α : Action CoreId Store} {mem : Line}
    (h : Records s.history a mem α s'.history) :
    s'.fills = s.fills ++ if α.Enters then [lineAddr a] else [] := by
  unfold Sim.fills
  generalize s'.history = history at h ⊢
  cases h with
  | quiet henters => simp [henters]
  | load henters => simp [henters]
  | store _ _ _ _ henters => simp [henters]
  | loadStore _ _ _ _ henters => simp [henters]

/-! ## The invariant -/

def InMemory (s : Sim) (address : Addr) : Prop :=
  ∃ line : LineNo, address = lineAddr line ∧ 64 * (line : ℕ) + 64 ≤ s.mem.size.toNat

/-- A stream in use has its head at a line of memory. -/
def StreamsInMemory (s : Sim) : Prop :=
  ∀ c i, (s.streams c i).confidence ≠ .invalid → s.InMemory (s.streams c i).prefetchHead

structure Inv (s : Sim) : Prop where
  placed : s.Placed
  exact : ∀ a, (s.rep a).Exact
  inRange : ∀ a, (s.rep a).l2 ≠ none → 64 * (a : ℕ) + 64 ≤ s.mem.size.toNat
  streams : s.StreamsInMemory
  coherent : ∀ a, Mesi.Coherent (s.rep a).view
  value : ∀ a, (s.rep a).l2 ≠ none → (s.rep a).view.Authoritative (lineHistory s.history a)

variable {s s' s'' : Sim} {a b : LineNo}

theorem InMemory.of_size {address : Addr} (h : s.InMemory address)
    (hsize : s'.mem.size = s.mem.size) : s'.InMemory address := by
  obtain ⟨line, hline, hin⟩ := h
  exact ⟨line, hline, by rw [hsize]; exact hin⟩

theorem view_l2_ne_none {x : LineRep} : x.view.l2 ≠ none ↔ x.l2 ≠ none := by
  simp [LineRep.view]

theorem Inv.system (h : s.Inv) (memory : ℕ → Byte) : System.Coherent (s.system memory) :=
  ⟨h.coherent, fun a ha => h.value a (view_l2_ne_none.mp ha)⟩

/-- The invariant depends on the lines, the history and the heads of the
streams. -/
theorem Inv.of_rep (h : s.Inv) (hp : s'.Placed) (hrep : s'.rep = s.rep)
    (hsize : s'.mem.size = s.mem.size) (hh : s'.history = s.history)
    (hstreams : s'.StreamsInMemory) : s'.Inv := by
  constructor
  · exact hp
  · rw [hrep]
    exact h.exact
  · rw [hrep, hsize]
    exact h.inRange
  · exact hstreams
  · rw [hrep]
    exact h.coherent
  · rw [hrep, hh]
    exact h.value

theorem StreamsInMemory.of_eq (h : s.StreamsInMemory) (hstreams : s'.streams = s.streams)
    (hsize : s'.mem.size = s.mem.size) : s'.StreamsInMemory := by
  intro c i
  rw [hstreams]
  exact fun hc => (h c i hc).of_size hsize

theorem Inv.congr (h : s.Inv) (hs : SameCaches s s') : s'.Inv :=
  h.of_rep (hs.placed h.placed) hs.rep (by rw [hs.mem]) hs.history
    (h.streams.of_eq hs.streams (by rw [hs.mem]))

/-! ## Moves -/

structure LineMove (s : Sim) (b : LineNo) (α : Action CoreId Store) (s' : Sim) : Prop where
  placed : s'.Placed
  size : s'.mem.size = s.mem.size
  streams : s'.streams = s.streams
  frame : ∀ a, a ≠ b → s'.rep a = s.rep a
  exact : (s'.rep b).Exact
  inRange : (s'.rep b).l2 ≠ none → 64 * (b : ℕ) + 64 ≤ s.mem.size.toNat
  move : Mesi.Step Store.act (s.rep b).view α (s'.rep b).view
  records : Records s.history b (s.rep b).mem α s'.history

structure Evolves (s : Sim) (es : List (LineNo × Action CoreId Store)) (s' : Sim) : Prop where
  inv : s'.Inv
  size : s'.mem.size = s.mem.size
  run : ∀ memory, System.Run Store.act (s.system memory) es (s'.system memory)
  fills : s'.fills = s.fills ++ (System.entering es).map lineAddr

theorem LineMove.systemStep {α : Action CoreId Store} (h : LineMove s b α s') (memory : ℕ → Byte) :
    System.Step Store.act (s.system memory) (b, α) (s'.system memory) := by
  constructor
  · exact h.move
  · intro a ha
    rw [system_lines, system_lines, h.frame a ha]
  · exact h.records.tracked
  · exact h.records.flat memory

/-- A run of the protocol between two states carries the protocol's part of the
invariant over. -/
theorem Evolves.of_run {es : List (LineNo × Action CoreId Store)} (hs : s.Inv) (hp : s'.Placed)
    (hexact : ∀ a, (s'.rep a).Exact)
    (hin : ∀ a, (s'.rep a).l2 ≠ none → 64 * (a : ℕ) + 64 ≤ s.mem.size.toNat)
    (hstreams : s'.StreamsInMemory) (hsize : s'.mem.size = s.mem.size)
    (hrun : ∀ memory, System.Run Store.act (s.system memory) es (s'.system memory))
    (hfills : s'.fills = s.fills ++ (System.entering es).map lineAddr) : Evolves s es s' := by
  have hsystem : System.Coherent (s'.system s'.mem.data) := (hrun _).coherent (hs.system _)
  refine ⟨⟨hp, hexact, fun a ha => ?_, hstreams, hsystem.coherent, fun a ha => ?_⟩, hsize, hrun,
    hfills⟩
  · rw [hsize]
    exact hin a ha
  · exact hsystem.value a (view_l2_ne_none.mpr ha)

theorem LineMove.evolves {α : Action CoreId Store} (h : LineMove s b α s') (hs : s.Inv) :
    Evolves s [(b, α)] s' := by
  refine .of_run hs h.placed (fun a => ?_) (fun a ha => ?_) (hs.streams.of_eq h.streams h.size)
    h.size (fun memory => (h.systemStep memory).run) ?_
  · by_cases hab : a = b
    · exact hab ▸ h.exact
    · rw [h.frame a hab]
      exact hs.exact a
  · by_cases hab : a = b
    · subst hab
      exact h.inRange ha
    · rw [h.frame a hab] at ha
      exact hs.inRange a ha
  · rw [fills_of_records h.records, System.entering_singleton]
    split <;> rfl

/-- A change of streams, replacement bits, TLBs, counters and events is no
move. -/
theorem Evolves.of_rep (h : s.Inv) (hp : s'.Placed) (hrep : s'.rep = s.rep)
    (hsize : s'.mem.size = s.mem.size) (hh : s'.history = s.history)
    (hstreams : s'.StreamsInMemory) : Evolves s [] s' := by
  have hsystem : ∀ memory, s'.system memory = s.system memory := fun memory => by
    simp only [Sim.system, hrep, hh]
  refine ⟨h.of_rep hp hrep hsize hh hstreams, hsize, fun memory => ?_, ?_⟩
  · rw [hsystem]
    exact .nil _
  · rw [Sim.fills, hh]
    exact (List.append_nil _).symm

theorem Evolves.of_sameCaches (h : s.Inv) (hs : SameCaches s s') : Evolves s [] s' :=
  .of_rep h (hs.placed h.placed) hs.rep (by rw [hs.mem]) hs.history (h.congr hs).streams

theorem Evolves.refl (h : s.Inv) : Evolves s [] s := .of_sameCaches h (.refl s)

theorem Evolves.trans {es fs : List (LineNo × Action CoreId Store)} (h : Evolves s es s')
    (h' : Evolves s' fs s'') : Evolves s (es ++ fs) s'' :=
  ⟨h'.inv, h'.size.trans h.size, fun memory => (h.run memory).append (h'.run memory), by
    rw [h'.fills, h.fills, System.entering_append, List.map_append, List.append_assoc]⟩

theorem Evolves.congr {es : List (LineNo × Action CoreId Store)} (h : Evolves s es s')
    (hs : SameCaches s' s'') : Evolves s es s'' := by
  have := h.trans (.of_sameCaches h.inv hs)
  rwa [List.append_nil] at this

end Sim

end CacheSimulator
