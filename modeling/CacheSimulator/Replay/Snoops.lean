import CacheSimulator.Replay.Traces
import CacheSimulator.Refinement.LineView

/-!
# The acts of the snoops

Each round of a snoop is at most one act. A loop over a sharer mask keeps what
every round keeps.
-/

namespace CacheSimulator

theorem findL1Way_found {set : L1Set} {tag : Addr} {w : Fin 8} (h : findL1Way set tag = some w) :
    set.tag w = tag ∧ set.state w ≠ .invalid := by
  have hw := List.find?_some h
  simpa using hw

theorem l2FindWay_found {set : L2Set} {tag : Addr} {w : Fin 16} (h : l2FindWay set tag = some w) :
    set.tag w = tag ∧ set.state w ≠ .invalid := by
  have hw := List.find?_some h
  simpa using hw

section Loop

variable {σ : Type} {body : CoreId → σ → Except Fault σ} {P : σ → Prop} {F : Fault → Prop}

theorem forEachSharer_keeps {mask : BitVec 8} (hbounds : F .outOfBounds)
    (h : ∀ (c : CoreId) t, mask.getLsbD c = true → P t → (body c t).Sat P F) (fuel : ℕ)
    {s : σ} (hs : P s) :
    (forEachSharer body fuel mask s).Sat P F := by
  induction fuel generalizing mask s with
  | zero => exact hs
  | succ fuel ih =>
      unfold forEachSharer
      split
      · exact hs
      · split
        · rename_i hne hlt
          have hbit : mask.getLsbD (countrZero mask) = true := by
            unfold countrZero at hlt ⊢
            cases hfind : (List.range 8).find? fun c => mask.getLsbD c with
            | none =>
                rw [hfind] at hlt
                exact absurd hlt (by decide)
            | some c => exact List.find?_some hfind
          refine (h ⟨countrZero mask, hlt⟩ s hbit hs).bind fun t ht => ?_
          refine ih (fun c u hc hu => h c u ?_ hu) ht
          rw [BitVec.getLsbD_and, Bool.and_eq_true] at hc
          exact hc.1
        · exact hbounds

end Loop

theorem L1Set.setState_off {set : L1Set} {w v : Fin 8} {state : MESIState} (hv : v ≠ w) :
    (set.setState w state).tag v = set.tag v ∧ (set.setState w state).state v = set.state v ∧
      (set.setState w state).data v = set.data v :=
  ⟨rfl, Function.update_of_ne hv _ _, rfl⟩

@[simp] theorem L1Set.setState_state_self (set : L1Set) (w : Fin 8) (state : MESIState) :
    (set.setState w state).state w = state := Function.update_self _ _ _

namespace Sim

variable {p : Permit} {s : Sim} {l1Index : Fin 64} {l1Tag : Addr} {l2Index : Fin 4096}
  {w : Fin 16}

theorem Traces.emit_setState {c : CoreId} {i : Fin 64} {v : Fin 8} {type : CacheEventType}
    {addr : Addr} {state : MESIState} (hsets : p.sets c i)
    (hrule : L1Rule p (c, i, v) (s.grid.l1d (c, i, v)) type addr
      { s.grid.l1d (c, i, v) with state := state }) :
    s.Traces p [] ((s.emit type c 1 i v addr ((s.l1 .data c i).state v) state
      (some ((s.l1 .data c i).data v))).setL1 .data c i ((s.l1 .data c i).setState v state)) :=
  .emit_setL1 { s.grid.l1d (c, i, v) with state := state }
    (fun _ hv => L1Set.setState_off hv) (by simp [L1Set.setState]) rfl hrule hsets

theorem snoopDowngradePeer_traces {c : CoreId} (hsets : p.sets c l1Index) (line : Line) :
    (snoopDowngradePeer l1Index l1Tag l2Index w c (s, line)).Sat
      (fun r => s.Traces p [] r.1) fun _ => True := by
  unfold snoopDowngradePeer
  dsimp only
  split
  · exact .refl p s
  · rename_i v hfind
    obtain ⟨-, hstate⟩ := findL1Way_found hfind
    have hrule := fun t : Sim => fun ht : (t.l1 .data c l1Index).state v ≠ .invalid =>
      Traces.emit_setState (p := p) (s := t) hsets (@L1Rule.snoopDowngrade p (c, l1Index, v) _ 0 ht)
    split
    · exact ((SameGrid.setData _ _ _ _).traces p).trans (hrule (s.setL2 l2Index _) hstate)
    · exact hrule s hstate

/-- The L2 line becomes SHARED without an event. -/
theorem snoopDowngradePeers_traces {sharers : BitVec 8}
    (hsets : ∀ c : CoreId, sharers.getLsbD c = true → p.sets c l1Index)
    (hvalid : (s.l2 l2Index).state w ≠ .invalid)
    (hsilent : .shared = (s.l2 l2Index).state w ∨ MayHide p s (l2Index, w)) (line : Line) :
    (snoopDowngradePeers s sharers l1Index l1Tag line l2Index w).Sat
      (fun r => s.Traces p [] r.1) fun _ => True := by
  unfold snoopDowngradePeers
  refine forEachSharer_keeps trivial (fun c r hc hr => ?_) 8
    (Traces.silentL2 (w := w) .shared rfl rfl hvalid (by simp) hsilent)
  exact (snoopDowngradePeer_traces (s := r.1) (hsets c hc) r.2).imp fun _ h => hr.then h

theorem snoopInvalidatePeerI_traces (c : CoreId) :
    (snoopInvalidatePeerI l1Index l1Tag c s).Sat (fun t => s.Traces p [] t) fun _ => True := by
  unfold snoopInvalidatePeerI
  dsimp only
  split
  · exact .refl p s
  · refine Traces.same (.of_act (by simp) (currentSeq_emit ..) fun h => ?_)
      (SameGrid.setL1_instr _ _ _ _)
    rw [grid_emit_level1 s h]
    exact .l1iSnoop

theorem snoopInvalidatePeersI_traces (iSharers : BitVec 8) :
    (snoopInvalidatePeersI s iSharers l1Index l1Tag).Sat (fun t => s.Traces p [] t)
      fun _ => True :=
  forEachSharer_keeps trivial (fun c _ _ ht =>
    (snoopInvalidatePeerI_traces c).imp fun _ h => ht.then h) 8 (.refl p s)

theorem snoopInvalidatePeer_traces {c : CoreId} (hsets : p.sets c l1Index)
    (lineOut : Option Line) :
    (snoopInvalidatePeer l1Index l1Tag l2Index w c (s, lineOut)).Sat
      (fun r => s.Traces p [] r.1) fun _ => True := by
  unfold snoopInvalidatePeer
  dsimp only
  cases hfind : findL1Way (s.l1 .data c l1Index) l1Tag with
  | none => exact (SameGrid.setCoreValid _ _ _ _ _).traces p
  | some v =>
      obtain ⟨-, hstate⟩ := findL1Way_found hfind
      exact (Traces.emit_setState hsets (.snoopInvalidate hstate)).same
        (SameGrid.setCoreValid _ _ .data _ _)

theorem snoopInvalidatePeers_traces {sharers : BitVec 8}
    (hsets : ∀ c : CoreId, sharers.getLsbD c = true → p.sets c l1Index) (lineOut : Option Line) :
    (snoopInvalidatePeers s sharers l1Index l1Tag lineOut l2Index w).Sat
      (fun r => s.Traces p [] r.1) fun _ => True :=
  forEachSharer_keeps trivial (fun c r hc hr =>
    (snoopInvalidatePeer_traces (s := r.1) (hsets c hc) r.2).imp fun _ h => hr.then h) 8
    (.refl p s)

theorem ne_of_getLsbD_others {mask : BitVec 8} {b c : CoreId}
    (h : (mask &&& ~~~coreBit c).getLsbD b = true) : b ≠ c := by
  rintro rfl
  rw [BitVec.getLsbD_and, Bool.and_eq_true] at h
  revert h
  cases mask.getLsbD b <;> revert b <;> decide

@[simp] theorem L2Set.setCoreValid_state (set : L2Set) (k : L1Kind) (w : Fin 16) (mask : BitVec 8) :
    (set.setCoreValid k w mask).state = set.state := by
  cases k <;> rfl

@[simp] theorem L2Set.setCoreValid_tag (set : L2Set) (k : L1Kind) (w : Fin 16) (mask : BitVec 8) :
    (set.setCoreValid k w mask).tag = set.tag := by
  cases k <;> rfl

theorem l2CacheReadWay_others (set : L2Set) (c : CoreId) (k : L1Kind) :
    ((l2CacheReadWay set c w k).2.coreValidD w &&& ~~~coreBit c) |||
        ((l2CacheReadWay set c w k).2.coreValidI w &&& ~~~coreBit c) =
      (set.coreValidD w &&& ~~~coreBit c) ||| (set.coreValidI w &&& ~~~coreBit c) := by
  have hor : ∀ mask : BitVec 8, (mask ||| coreBit c) &&& ~~~coreBit c = mask &&& ~~~coreBit c := by
    intro mask
    apply BitVec.eq_of_getLsbD_eq
    intro j _
    cases hj : (coreBit c).getLsbD j <;> simp [hj]
  cases k with
  | data => simp [l2CacheReadWay, L2Set.setCoreValid, L2Set.coreValid, L2Set.touch, hor]
  | instr => simp [l2CacheReadWay, L2Set.setCoreValid, L2Set.coreValid, L2Set.touch, hor]

/-- A read that finds other holders makes the L2 line SHARED without an event. -/
theorem busRead_traces {k : L1Kind} {c : CoreId} {physicalAddress : Addr}
    (hsets : ∀ b, b ≠ c → p.sets b (l1ToIndex physicalAddress))
    (hvalid : (s.l2 (l2ToIndex physicalAddress)).state w ≠ .invalid)
    (hsilent : ((s.l2 (l2ToIndex physicalAddress)).coreValidD w &&& ~~~coreBit c) |||
        ((s.l2 (l2ToIndex physicalAddress)).coreValidI w &&& ~~~coreBit c) ≠ 0 →
      .shared = (s.l2 (l2ToIndex physicalAddress)).state w ∨
        MayHide p s (l2ToIndex physicalAddress, w)) :
    (busRead k s c physicalAddress w).Sat (fun r => s.Traces p [] r.1) fun _ => True := by
  have hread : SameGrid s (s.setL2 (l2ToIndex physicalAddress)
      (l2CacheReadWay (s.l2 (l2ToIndex physicalAddress)) c w k).2) :=
    .setL2 (by simp [l2CacheReadWay, L2Set.touch]) (by simp [l2CacheReadWay, L2Set.touch])
  have hstate : (l2CacheReadWay (s.l2 (l2ToIndex physicalAddress)) c w k).2.state =
      (s.l2 (l2ToIndex physicalAddress)).state := by simp [l2CacheReadWay, L2Set.touch]
  unfold busRead
  dsimp only
  split
  · rename_i hothers
    rw [l2CacheReadWay_others] at hothers
    refine (snoopDowngradePeers_traces (fun b hb => hsets b (ne_of_getLsbD_others hb)) ?_ ?_ _).bind
      fun r hr => (hread.traces p).then hr
    · rwa [l2_setL2_self, hstate]
    · rw [l2_setL2_self, hstate]
      exact (hsilent hothers).imp_right fun h => h.same hread
  · exact hread.traces p

end Sim

end CacheSimulator
