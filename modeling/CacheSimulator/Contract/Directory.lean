import CacheSimulator.Refinement.Call

/-!
# The directory and the ownership of lines

What the ways of the caches hold in every reachable state: the L2 is inclusive
and its two masks name exactly the cores that hold a line, and the states of the
copies of a line agree on who owns it.
-/

namespace CacheSimulator

open Mesi

namespace Sim

variable {s : Sim} {k : L1Kind} {c : CoreId} {address : Addr} {st : MESIState} {m : Mode}
  {line : Line}

/-! ## The lines in the ways -/

def L1Copy (s : Sim) (k : L1Kind) (c : CoreId) (address : Addr) (st : MESIState) (line : Line) :
    Prop :=
  ∃ w, (s.l1 k c (l1ToIndex address)).tag w = l1ToTag address ∧
    (s.l1 k c (l1ToIndex address)).state w = st ∧ (s.l1 k c (l1ToIndex address)).data w = line

def L2Copy (s : Sim) (address : Addr) (st : MESIState) (line : Line) : Prop :=
  ∃ w, (s.l2 (l2ToIndex address)).tag w = l2ToTag address ∧
    (s.l2 (l2ToIndex address)).state w = st ∧ (s.l2 (l2ToIndex address)).data w = line

def InL1 (s : Sim) (k : L1Kind) (c : CoreId) (address : Addr) (st : MESIState) : Prop :=
  ∃ line, s.L1Copy k c address st line

def InL2 (s : Sim) (address : Addr) (st : MESIState) : Prop := ∃ line, s.L2Copy address st line

/-- The `k` cache of core `c` holds the line of `address` in a state other than
INVALID. -/
def HoldsL1 (s : Sim) (k : L1Kind) (c : CoreId) (address : Addr) : Prop :=
  ∃ st, st ≠ .invalid ∧ s.InL1 k c address st

def HoldsL2 (s : Sim) (address : Addr) : Prop := ∃ st, st ≠ .invalid ∧ s.InL2 address st

theorem Placed.l1Copy_iff (h : s.Placed) (hst : st.mode? = some m) :
    s.L1Copy k c address st line ↔ (s.rep (lineNo address)).l1 k c = some (m, line) := by
  unfold L1Copy
  rw [← l1Geometry_index_lineNo, ← l1Geometry_tag_lineNo]
  constructor
  · rintro ⟨w, htag, hstate, hdata⟩
    exact h.l1_of_slots (L1Set.slots_eq_some.mpr ⟨htag, hstate ▸ hst, hdata⟩)
  · intro hx
    obtain ⟨w, hw⟩ := h.exists_l1_way hx
    obtain ⟨htag, hm, hdata⟩ := L1Set.slots_eq_some.mp hw
    exact ⟨w, htag, MESIState.mode?_injective (hm.trans hst.symm), hdata⟩

theorem Placed.l2Copy_iff (h : s.Placed) (hst : st.mode? = some m) :
    s.L2Copy address st line ↔ (s.rep (lineNo address)).view.l2 = some (m, line) := by
  unfold L2Copy
  rw [← l2Geometry_index_lineNo, ← l2Geometry_tag_lineNo]
  constructor
  · rintro ⟨w, htag, hstate, hdata⟩
    have he := h.l2_of_slots (L2Set.slots_eq_some (e := ⟨m, _, _, line⟩).mpr
      ⟨htag, hstate ▸ hst, rfl, rfl, hdata⟩)
    rw [LineRep.view_l2, he]
    rfl
  · intro hx
    obtain ⟨e, he, hcopy⟩ := Option.map_eq_some_iff.mp hx
    obtain ⟨hmode, hline⟩ := Prod.mk.inj hcopy
    obtain ⟨w, hw⟩ := h.exists_l2_way he
    obtain ⟨htag, hm, -, -, hdata⟩ := L2Set.slots_eq_some.mp hw
    rw [hmode] at hm
    exact ⟨w, htag, MESIState.mode?_injective (hm.trans hst.symm), hdata.trans hline⟩

theorem exists_mode (hst : st ≠ .invalid) : ∃ m, st.mode? = some m :=
  Option.ne_none_iff_exists'.mp (mt MESIState.mode?_eq_none.mp hst)

theorem Placed.holdsL1_iff (h : s.Placed) :
    s.HoldsL1 k c address ↔ (s.rep (lineNo address)).l1 k c ≠ none := by
  constructor
  · rintro ⟨st, hst, line, hcopy⟩
    obtain ⟨m, hm⟩ := exists_mode hst
    rw [(h.l1Copy_iff hm).mp hcopy]
    simp
  · intro hne
    obtain ⟨⟨m, line⟩, hx⟩ := Option.ne_none_iff_exists'.mp hne
    exact ⟨.ofMode m, MESIState.ofMode_ne_invalid m, line,
      (h.l1Copy_iff (MESIState.mode?_ofMode m)).mpr hx⟩

theorem Placed.holdsL2_iff (h : s.Placed) :
    s.HoldsL2 address ↔ (s.rep (lineNo address)).l2 ≠ none := by
  rw [← view_l2_ne_none]
  constructor
  · rintro ⟨st, hst, line, hcopy⟩
    obtain ⟨m, hm⟩ := exists_mode hst
    rw [(h.l2Copy_iff hm).mp hcopy]
    simp
  · intro hne
    obtain ⟨⟨m, line⟩, hx⟩ := Option.ne_none_iff_exists'.mp hne
    exact ⟨.ofMode m, MESIState.ofMode_ne_invalid m, line,
      (h.l2Copy_iff (MESIState.mode?_ofMode m)).mpr hx⟩

theorem Placed.view_holds_iff (h : s.Placed) :
    (s.rep (lineNo address)).view.Holds c ↔ ∃ k, s.HoldsL1 k c address := by
  constructor
  · rintro (hd | hi)
    · exact ⟨.data, h.holdsL1_iff.mpr hd⟩
    · refine ⟨.instr, h.holdsL1_iff.mpr fun hnone => hi ?_⟩
      simp [LineRep.view, hnone]
  · rintro ⟨k, hk⟩
    have hne := h.holdsL1_iff.mp hk
    cases k with
    | data => exact .inl hne
    | instr => exact .inr fun hnone => hne (by simpa [LineRep.view] using hnone)

/-! ## Inclusion and exact masks -/

/-- Every set has at most one way per tag, the masks of a way of L2 name the
cores that hold its line, and every line of an L1 is in L2. -/
structure Directory (s : Sim) : Prop where
  l1Unique : ∀ k c i w w', (s.l1 k c i).state w ≠ .invalid → (s.l1 k c i).state w' ≠ .invalid →
    (s.l1 k c i).tag w = (s.l1 k c i).tag w' → w = w'
  l2Unique : ∀ i w w', (s.l2 i).state w ≠ .invalid → (s.l2 i).state w' ≠ .invalid →
    (s.l2 i).tag w = (s.l2 i).tag w' → w = w'
  exact : ∀ i w, (s.l2 i).state w ≠ .invalid → ∀ k (c : CoreId),
    ((s.l2 i).coreValid k w).getLsbD c = true ↔ s.HoldsL1 k c (l2ToAddr ((s.l2 i).tag w) i)
  inclusion : ∀ k c i w, (s.l1 k c i).state w ≠ .invalid →
    s.HoldsL2 (l1ToAddr ((s.l1 k c i).tag w) i)
  free : ∀ i w, (s.l2 i).state w = .invalid → ∀ k, (s.l2 i).coreValid k w = 0

theorem l1_slots_of_state {i : Fin 64} {w : Fin 8} (hw : (s.l1 k c i).state w ≠ .invalid) :
    ∃ x, (s.l1 k c i).slots w = some ((s.l1 k c i).tag w, x) := by
  obtain ⟨m, hm⟩ := exists_mode hw
  exact ⟨(m, (s.l1 k c i).data w), L1Set.slots_eq_some.mpr ⟨rfl, hm, rfl⟩⟩

theorem l2_slots_of_state {i : Fin 4096} {w : Fin 16} (hw : (s.l2 i).state w ≠ .invalid) :
    ∃ e, (s.l2 i).slots w = some ((s.l2 i).tag w, e) := by
  obtain ⟨m, hm⟩ := exists_mode hw
  exact ⟨⟨m, (s.l2 i).coreValidD w, (s.l2 i).coreValidI w, (s.l2 i).data w⟩,
    L2Set.slots_eq_some.mpr ⟨rfl, hm, rfl, rfl, rfl⟩⟩

theorem getLsbD_maskOf (f : CoreId → Bool) (c : CoreId) : (maskOf f).getLsbD c = f c := by
  rcases CoreId.eq_zero_or_one c with rfl | rfl <;>
    cases h0 : f 0 <;> cases h1 : f 1 <;> simp [maskOf, h0, h1]

theorem Inv.coreValid_eq (hs : s.Inv) {a : LineNo} {w : Fin 16} {e : L2Entry}
    (hw : (s.l2 (l2Geometry.index a)).slots w = some (l2Geometry.tag a, e)) (k : L1Kind) :
    (s.l2 (l2Geometry.index a)).coreValid k w = maskOf ((s.rep a).holders k) := by
  obtain ⟨hd, hi⟩ := hs.exact a e (hs.placed.l2_of_slots hw)
  cases k with
  | data => exact (L2Set.coreValidD_of_slots hw).trans hd
  | instr => exact (L2Set.coreValidI_of_slots hw).trans hi

theorem Inv.directory (hs : s.Inv) : s.Directory := by
  constructor
  · intro k c i w w' hw hw' htag
    obtain ⟨x, hx⟩ := l1_slots_of_state hw
    obtain ⟨x', hx'⟩ := l1_slots_of_state hw'
    exact (hs.placed.l1 k c).unique i w w' _ _ _ hx (htag ▸ hx')
  · intro i w w' hw hw' htag
    obtain ⟨e, he⟩ := l2_slots_of_state hw
    obtain ⟨e', he'⟩ := l2_slots_of_state hw'
    exact hs.placed.l2.unique i w w' _ _ _ he (htag ▸ he')
  · intro i w hw k c
    obtain ⟨e, he⟩ := l2_slots_of_state hw
    obtain ⟨a, rfl, htag⟩ := hs.placed.l2_line he
    rw [← htag] at he
    rw [hs.coreValid_eq he, getLsbD_maskOf, ← htag, l2ToAddr_geometry, hs.placed.holdsL1_iff,
      lineNo_lineAddr, LineRep.holders, Option.isSome_iff_ne_none]
  · intro k c i w hw
    obtain ⟨x, hx⟩ := l1_slots_of_state hw
    obtain ⟨a, rfl, htag⟩ := hs.placed.l1_line hx
    rw [← htag] at hx
    rw [← htag, l1ToAddr_geometry, hs.placed.holdsL2_iff, lineNo_lineAddr]
    obtain ⟨e, he⟩ := (hs.lineOk a).inclusion (by rw [hs.placed.l1_of_slots hx]; simp)
    rw [he]
    simp
  · intro i w hw k
    obtain ⟨hd, hi⟩ := hs.placed.free i w hw
    cases k with
    | data => exact hd
    | instr => exact hi

/-! ## Ownership -/

/-- What the states of the copies of a line say about the other copies. -/
structure Exclusivity (s : Sim) : Prop where
  owner : ∀ address c st, s.InL1 .data c address st → st = .modified ∨ st = .exclusive →
    ∀ b, b ≠ c → ∀ k, ¬s.HoldsL1 k b address
  modified : ∀ address c, s.InL1 .data c address .modified → s.InL2 address .modified
  noInstr : ∀ address c, s.InL2 address .modified → ¬s.HoldsL1 .instr c address
  single : ∀ address st, s.InL2 address st → st = .exclusive ∨ st = .modified →
    ∀ b c k k', s.HoldsL1 k b address → s.HoldsL1 k' c address → b = c
  sharers : ∀ address, s.InL2 address .shared → ∃ k c, s.HoldsL1 k c address

theorem Inv.exclusivity (hs : s.Inv) : s.Exclusivity := by
  have hp := hs.placed
  have hmode : ∀ {st : MESIState}, st = .modified ∨ st = .exclusive →
      ∃ m, st.mode? = some m ∧ m ≠ .shared := by
    rintro st (rfl | rfl)
    · exact ⟨_, rfl, by simp⟩
    · exact ⟨_, rfl, by simp⟩
  constructor
  · rintro address c st ⟨line, hcopy⟩ hst b hb k hk
    obtain ⟨m, hm, hne⟩ := hmode hst
    exact (hs.coherent _).exclusive c m line ((hp.l1Copy_iff hm).mp hcopy) hne b hb
      (hp.view_holds_iff.mpr ⟨k, hk⟩)
  · rintro address c ⟨line, hcopy⟩
    obtain ⟨u, hu⟩ := (hs.coherent _).modified c line ((hp.l1Copy_iff rfl).mp hcopy)
    exact ⟨u, (hp.l2Copy_iff rfl).mpr hu⟩
  · rintro address c ⟨line, hcopy⟩ hk
    have hnone := (hs.coherent _).noInstr line ((hp.l2Copy_iff rfl).mp hcopy) c
    exact hp.holdsL1_iff.mp hk (by simpa [LineRep.view] using hnone)
  · rintro address st ⟨line, hcopy⟩ hst b c k k' hb hc
    obtain ⟨m, hm, hne⟩ := hmode hst.symm
    exact (hs.coherent _).single m line ((hp.l2Copy_iff hm).mp hcopy) hne b c
      (hp.view_holds_iff.mpr ⟨k, hb⟩) (hp.view_holds_iff.mpr ⟨k', hc⟩)
  · rintro address ⟨line, hcopy⟩
    obtain ⟨c, hc⟩ := (hs.coherent _).sharers line ((hp.l2Copy_iff rfl).mp hcopy)
    obtain ⟨k, hk⟩ := hp.view_holds_iff.mp hc
    exact ⟨k, c, hk⟩

end Sim

variable {s₀ s : Sim} {trace : List CallRecord}

theorem Run.inclusive_exact_directory (h₀ : s₀.EmptyCaches) (h : Run Call.Any s₀ trace s) :
    s.Directory :=
  (h.inv h₀).directory

theorem inclusive_exact_directory_conflict : ∃ trace s,
    Run Call.Any (conflictMachine false) trace s ∧ trace.map CallRecord.call = conflictCalls ∧
      s.Directory := by
  have hexec : (runCalls Call.Any conflictCalls (conflictMachine false)).isSome := by decide +kernel
  obtain ⟨trace, s, hrun, hcalls⟩ := exists_run hexec
  exact ⟨trace, s, hrun, hcalls,
    hrun.inclusive_exact_directory (Sim.initial_emptyCaches _ _ _)⟩

theorem Run.mesi_exclusivity (h₀ : s₀.EmptyCaches) (h : Run Call.Any s₀ trace s) :
    s.Exclusivity :=
  (h.inv h₀).exclusivity

theorem mesi_exclusivity_conflict : ∃ trace s,
    Run Call.Any (conflictMachine false) trace s ∧ trace.map CallRecord.call = conflictCalls ∧
      s.Exclusivity := by
  have hexec : (runCalls Call.Any conflictCalls (conflictMachine false)).isSome := by decide +kernel
  obtain ⟨trace, s, hrun, hcalls⟩ := exists_run hexec
  exact ⟨trace, s, hrun, hcalls, hrun.mesi_exclusivity (Sim.initial_emptyCaches _ _ _)⟩

/-! ## Owners of a line that L2 holds SHARED -/

/-- A valid L1D copy of a line that is SHARED in L2 is SHARED, or it is the only
L1 copy that any core has and EXCLUSIVE. -/
def Sim.SharedOwners (s : Sim) : Prop :=
  ∀ address c st, s.InL2 address .shared → st ≠ .invalid → s.InL1 .data c address st →
    st = .shared ∨ st = .exclusive ∧ ∀ b, b ≠ c → ∀ k, ¬s.HoldsL1 k b address

theorem Sim.Inv.sharedOwners (hs : s.Inv) : s.SharedOwners := by
  intro address c st hl2 hst hl1
  have hown := hs.exclusivity
  cases st with
  | invalid => exact absurd rfl hst
  | shared => exact .inl rfl
  | exclusive => exact .inr ⟨rfl, hown.owner address c _ hl1 (.inr rfl)⟩
  | modified =>
      -- a MODIFIED copy makes the line MODIFIED in L2
      obtain ⟨line, hshared⟩ := hl2
      obtain ⟨line', hmodified⟩ := hown.modified address c hl1
      have h₁ := (hs.placed.l2Copy_iff rfl).mp hshared
      have h₂ := (hs.placed.l2Copy_iff rfl).mp hmodified
      rw [h₁, Option.some.injEq, Prod.mk.injEq] at h₂
      cases h₂.1

theorem Run.l2_shared_owner (h₀ : s₀.EmptyCaches) (h : Run Call.Any s₀ trace s) :
    s.SharedOwners :=
  (h.inv h₀).sharedOwners

/-- Both cores fetch a line, core 1 loses its copy, and core 0 reads the line. -/
def sharedOwnerCalls : List Call :=
  [.fetch 0 0x0 4, .fetch 1 0x0 4] ++
    (List.range 8).map (fun i => .fetch 1 (BitVec.ofNat 64 (0x1000 * (i + 1))) 4) ++ [.read 0 0x0 1]

theorem l2_shared_owner_conflict : ∃ trace s,
    Run Call.Any (conflictMachine false) trace s ∧
      trace.map CallRecord.call = sharedOwnerCalls ∧ s.SharedOwners := by
  have hexec : (runCalls Call.Any sharedOwnerCalls (conflictMachine false)).isSome := by
    decide +kernel
  obtain ⟨trace, s, hrun, hcalls⟩ := exists_run hexec
  exact ⟨trace, s, hrun, hcalls, hrun.l2_shared_owner (Sim.initial_emptyCaches _ _ _)⟩

theorem l2_shared_owner_exclusive : ∃ trace s, (conflictMachine false).EmptyCaches ∧
    Run Call.Any (conflictMachine false) trace s ∧
      trace.map CallRecord.call = sharedOwnerCalls ∧ s.InL2 0x100000#64 .shared ∧
        s.InL1 .data 0 0x100000#64 .exclusive := by
  have hexec : (runCalls Call.Any sharedOwnerCalls (conflictMachine false)).any fun r =>
      (r.2.l2 (l2ToIndex 0x100000#64)).tag 0 == l2ToTag 0x100000#64 &&
        ((r.2.l2 (l2ToIndex 0x100000#64)).state 0 == .shared &&
          ((r.2.l1 .data 0 (l1ToIndex 0x100000#64)).tag 0 == l1ToTag 0x100000#64 &&
            (r.2.l1 .data 0 (l1ToIndex 0x100000#64)).state 0 == .exclusive)) := by
    decide +kernel
  obtain ⟨⟨trace, s⟩, hcalls, hr⟩ := (Option.any_eq_true _ _).mp hexec
  simp only [Bool.and_eq_true, beq_iff_eq] at hr
  obtain ⟨htag₂, hstate₂, htag₁, hstate₁⟩ := hr
  exact ⟨trace, s, Sim.initial_emptyCaches _ _ _, .of_runCalls .start hcalls,
    runCalls_calls hcalls, ⟨_, 0, htag₂, hstate₂, rfl⟩, ⟨_, 0, htag₁, hstate₁, rfl⟩⟩

end CacheSimulator
