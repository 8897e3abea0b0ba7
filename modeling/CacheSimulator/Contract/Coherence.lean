import CacheSimulator.Contract.Directory
import CacheSimulator.Contract.FlatMemory
import CacheSimulator.Prefetching.Entries

/-!
# The bytes of resident lines

The copies of a line that L2 holds agree with the history of the line: the bytes
read from memory when it last entered L2, overlaid with the stores since then.
The history variable of the simulator records both kinds of events, and what it
records of a line is told by the calls alone: the line has come in during one of
them, and the stores are those of that call and of the calls after it.
-/

namespace CacheSimulator

open Mesi

namespace Sim

variable {s : Sim}

/-- The authoritative copy of a resident line is `lineHistory`, and the other
copies have the bytes of L2. -/
structure ResidentCoherence (s : Sim) : Prop where
  modified : ∀ address c line, s.L1Copy .data c address .modified line →
    line = lineHistory s.history (lineNo address)
  l2 : ∀ address st line, st ≠ .invalid → s.L2Copy address st line →
    (∀ c, ¬s.InL1 .data c address .modified) → line = lineHistory s.history (lineNo address)
  clean : ∀ k address c st line, st ≠ .invalid → (k = .data → st ≠ .modified) →
    s.L1Copy k c address st line → ∃ st', st' ≠ .invalid ∧ s.L2Copy address st' line

/-- The copies the protocol calls authoritative have the bytes of the history. -/
theorem Inv.eq_history (hs : s.Inv) {a : LineNo} {line : Line}
    (h : (s.rep a).view.Authoritative line) : line = lineHistory s.history a := by
  have hl2 : (s.rep a).l2 ≠ none := by
    intro hnone
    refine LineState.authoritative_of_l2_none (hs.coherent a).toSound ?_ h
    rw [LineRep.view_l2, hnone]
    rfl
  exact LineState.authoritative_unique (hs.coherent a).toSound h (hs.value a hl2)

theorem Inv.residentCoherence (hs : s.Inv) : s.ResidentCoherence := by
  have hp := hs.placed
  constructor
  · intro address c line hcopy
    exact hs.eq_history (.inl ⟨c, (hp.l1Copy_iff rfl).mp hcopy⟩)
  · intro address st line hst hcopy hno
    obtain ⟨m, hm⟩ := exists_mode hst
    refine hs.eq_history (.inr ⟨fun c u hu => ?_, m, (hp.l2Copy_iff hm).mp hcopy⟩)
    exact hno c ⟨u, (hp.l1Copy_iff rfl).mpr hu⟩
  · intro k address c st line hst hclean hcopy
    obtain ⟨m, hm⟩ := exists_mode hst
    have hx := (hp.l1Copy_iff hm).mp hcopy
    have hl2 : ∃ q, (s.rep (lineNo address)).view.l2 = some (q, line) := by
      cases k with
      | data =>
          refine (hs.coherent _).cleanD c m line hx fun hmod => hclean rfl ?_
          rw [hmod] at hm
          exact MESIState.mode?_eq_modified.mp hm
      | instr =>
          refine (hs.coherent _).cleanI c line ?_
          simp [LineRep.view, hx]
    obtain ⟨q, hq⟩ := hl2
    exact ⟨.ofMode q, MESIState.ofMode_ne_invalid q,
      (hp.l2Copy_iff (MESIState.mode?_ofMode q)).mpr hq⟩

end Sim

variable {s₀ s₁ s s' : Sim} {trace calls : List CallRecord} {call : Call} {a : LineNo}
  {result : Option (List Byte)} {ok : Call → Sim → Prop}

/-! ## The calls since a line came in -/

/-- The bytes of a line after more operations depend on what went before only through
the bytes the line had. -/
theorem lineHistory_append (history ops : List MemOp) (a : LineNo) :
    lineHistory (history ++ ops) a =
      lineHistory (.fill (lineAddr a) (lineHistory history a) :: ops) a := by
  simp [lineHistory, List.foldl_append]

theorem lineHistory_fill_nil (a : LineNo) (line : Line) :
    lineHistory [.fill (lineAddr a) line] a = line := by
  simp [lineHistory]

/-- The moves of a call store to the lines what the record of the call says. -/
theorem Call.exec_stores (hs : s.Inv) (hexec : call.exec s = .ok (s', result)) :
    ∃ es, s.Evolves es s' ∧ ∀ a line,
      (System.storesTo a es).foldl (fun v w => Store.act w v) line =
        lineHistory (.fill (lineAddr a) line ::
          CallRecord.stored ⟨call, call.physicalAddress s, result⟩) a := by
  cases hpa : call.physicalAddress s with
  | none =>
      obtain ⟨s₁, hok, hsame⟩ := Call.exec_pageFault hpa
      rw [hok] at hexec
      obtain ⟨rfl, rfl⟩ := Prod.mk.inj (Except.ok.inj hexec)
      refine ⟨[], .of_sameCaches hs hsame, fun a line => ?_⟩
      have hstored : CallRecord.stored ⟨call, none, none⟩ = [] := by cases call <;> rfl
      rw [hstored, lineHistory_fill_nil]
      rfl
  | some pa =>
      have hensures := (Call.exec_spec hs hpa).of_eq_ok hexec
      have hnone : ∀ {forgets}, s.Performs (lineNo pa) none forgets s' →
          CallRecord.stored ⟨call, some pa, result⟩ = [] → ∃ es, s.Evolves es s' ∧ ∀ a line,
            (System.storesTo a es).foldl (fun v w => Store.act w v) line =
              lineHistory (.fill (lineAddr a) line ::
                CallRecord.stored ⟨call, some pa, result⟩) a := by
        intro forgets hperforms hstored
        obtain ⟨es, hes, hstores⟩ := hperforms.stores
        refine ⟨es, hes, fun a line => ?_⟩
        rw [hstores, hstored, lineHistory_fill_nil]
        simp
      cases call with
      | read c virtualAddress size => exact hnone (Sim.Reads.performs hensures) rfl
      | fetch c virtualAddress size => exact hnone (Sim.Reads.performs hensures) rfl
      | write c virtualAddress data =>
          have hresult : result = some [] := Sim.Writes.result hensures
          obtain ⟨es, hes, hstores⟩ := (Sim.Writes.performs hensures).stores
          refine ⟨es, hes, fun a line => ?_⟩
          subst hresult
          rw [hstores]
          by_cases ha : a = lineNo pa
          · subst ha
            simp [lineHistory, CallRecord.stored, Store.act]
          · simp [lineHistory, CallRecord.stored, ha, Ne.symm ha]

/-- The step lemma: a line that is in L2 after a call has the bytes it had before the
call, or those of memory if it has come in, overlaid with the store of the call. -/
theorem Call.lineHistory_exec (hs : s.Inv) (hok : s.StreamsOk)
    (hexec : call.exec s = .ok (s', result)) (ha : s'.Resident a) :
    lineHistory s'.history a = lineHistory
      (.fill (lineAddr a) (if s.Resident a then lineHistory s.history a else s.memLine a) ::
        CallRecord.stored ⟨call, call.physicalAddress s, result⟩) a := by
  obtain ⟨es, hes, hstores⟩ := Call.exec_stores hs hexec
  obtain ⟨⟨lines, hfills, hnodup, habsent⟩, -⟩ := Call.exec_entersOnce hs hok hexec
  have hentering : System.entering es = lines := by
    have hmap := hes.fills.symm.trans hfills
    exact List.map_injective_iff.mpr (fun _ _ h => lineAddr_inj.mp h) (List.append_cancel_left hmap)
  have hl2 : ∀ b, ¬s.Resident b ↔ (s.rep b).view.l2 = none := fun b => by
    rw [hs.placed.resident_iff, ← Sim.view_l2_ne_none, not_not]
  have htracked := (hes.run s.mem.data).tracked_eq (hs.system _) (a := a)
    (by rwa [hentering]) (fun b hb => (hl2 b).mp (habsent b (hentering ▸ hb)))
    (Sim.view_l2_ne_none.mpr (hes.inv.placed.resident_iff.mp ha))
  rw [system_tracked, hstores, system_lines, system_tracked] at htracked
  rw [htracked]
  by_cases hres : s.Resident a
  · rw [if_pos hres, if_neg fun hnone => (hl2 a).mpr hnone hres]
  · rw [if_neg hres, if_pos ((hl2 a).mp hres)]
    rfl

/-- Line `a` has come into L2 in the first of `calls`, which was made in state `s₁`, and
has stayed there. -/
inductive ResidentSince (a : LineNo) (s₁ : Sim) : List CallRecord → Sim → Prop
  | enters {s : Sim} (call : Call) {result : Option (List Byte)} : ¬s₁.Resident a →
      call.exec s₁ = .ok (s, result) → s.Resident a →
      ResidentSince a s₁ [⟨call, call.physicalAddress s₁, result⟩] s
  | call {s s' : Sim} {calls : List CallRecord} (call : Call) {result : Option (List Byte)} :
      ResidentSince a s₁ calls s → call.exec s = .ok (s', result) → s'.Resident a →
      ResidentSince a s₁ (calls ++ [⟨call, call.physicalAddress s, result⟩]) s'
  | beginStep {s : Sim} {calls : List CallRecord} (seq : BitVec 32) :
      ResidentSince a s₁ calls s → ResidentSince a s₁ calls { s with currentSeq := seq }

def valueSince (s₁ : Sim) (calls : List CallRecord) (a : LineNo) : Line :=
  lineHistory (.fill (lineAddr a) (s₁.memLine a) :: calls.flatMap CallRecord.stored) a

theorem valueSince_concat (s₁ : Sim) (calls : List CallRecord) (r : CallRecord) (a : LineNo) :
    valueSince s₁ (calls ++ [r]) a =
      lineHistory (.fill (lineAddr a) (valueSince s₁ calls a) :: r.stored) a := by
  rw [valueSince, valueSince, List.flatMap_append, List.flatMap_singleton, ← List.cons_append,
    lineHistory_append]

/-- Every line of L2 has come in during a call of the trace, and its history is what
memory held then, overlaid with the stores of that call and of those after it. -/
def Sim.FollowsTrace (s s₀ : Sim) (trace : List CallRecord) : Prop :=
  ∀ a, s.Resident a → ∃ before since s₁, trace = before ++ since ∧ Run Call.Any s₀ before s₁ ∧
    ResidentSince a s₁ since s ∧ lineHistory s.history a = valueSince s₁ since a

theorem Run.followsTrace (h₀ : s₀.EmptyCaches) (h : Run Call.Any s₀ trace s) :
    s.FollowsTrace s₀ trace := by
  induction h with
  | start =>
      intro a ha
      rw [h₀.inv.placed.resident_iff] at ha
      exact absurd (h₀.l2_eq_none a) ha
  | @call trace s s' result call hrun hany hexec ih =>
      intro a ha
      have hvalue := Call.lineHistory_exec (hrun.inv h₀) (hrun.streamsOk h₀) hexec ha
      by_cases hres : s.Resident a
      · obtain ⟨before, since, s₁, htrace, hbefore, hsince, heq⟩ := ih a hres
        refine ⟨before, _, s₁, ?_, hbefore, hsince.call call hexec ha, ?_⟩
        · rw [htrace, List.append_assoc]
        · rw [hvalue, if_pos hres, heq, valueSince_concat]
      · refine ⟨trace, _, s, rfl, hrun, .enters call hres hexec ha, ?_⟩
        rw [hvalue, if_neg hres, valueSince, List.flatMap_singleton]
  | @beginStep trace s seq hrun ih =>
      intro a ha
      obtain ⟨before, since, s₁, htrace, hbefore, hsince, heq⟩ := ih a ha
      exact ⟨before, since, s₁, htrace, hbefore, hsince.beginStep seq, heq⟩

theorem Run.resident_coherence (h₀ : s₀.EmptyCaches) (h : Run Call.Any s₀ trace s) :
    s.ResidentCoherence ∧ s.FollowsTrace s₀ trace :=
  ⟨(h.inv h₀).residentCoherence, h.followsTrace h₀⟩

theorem resident_coherence_conflict : ∃ trace s,
    Run Call.Any (conflictMachine false) trace s ∧ trace.map CallRecord.call = conflictCalls ∧
      s.ResidentCoherence ∧ s.FollowsTrace (conflictMachine false) trace := by
  have hexec : (runCalls Call.Any conflictCalls (conflictMachine false)).isSome := by decide +kernel
  obtain ⟨trace, s, hrun, hcalls⟩ := exists_run hexec
  exact ⟨trace, s, hrun, hcalls, hrun.resident_coherence (Sim.initial_emptyCaches _ _ _)⟩

end CacheSimulator
