import CacheSimulator.Library.Mesi.Protocol

/-!
# Coherence is preserved
-/

namespace Mesi

variable {κ δ ω : Type*}

theorem coherent_shared {x : LineState κ δ} {v : δ} (hl : x.l2 = some (.shared, v))
    (hd : ∀ c e, x.d c = some e → e = (.shared, v)) (hi : ∀ c u, x.i c = some u → u = v) {c : κ}
    (hc : x.Holds c) : Coherent x := by
  have hmode : ∀ p u, x.l2 = some (p, u) → p = .shared := by
    intro p u hp
    rw [hl, Option.some.injEq] at hp
    exact (Prod.mk.inj hp).1.symm
  refine ⟨⟨?_, ?_, ?_, ?_, ?_, ?_, ?_⟩, ?_⟩
  · exact fun _ _ => by simp [hl]
  · exact fun b p u hb hp => absurd (Prod.mk.inj (hd b _ hb)).1 hp
  · exact fun b u hb => by simpa using hd b _ hb
  · exact fun u hu => absurd (hmode _ u hu) (by simp)
  · exact fun p u hp hne => absurd (hmode p u hp) hne
  · exact fun b p u hb _ => ⟨.shared, by rw [hl, (Prod.mk.inj (hd b _ hb)).2]⟩
  · exact fun b u hb => ⟨.shared, by rw [hl, hi b u hb]⟩
  · exact fun _ _ => ⟨c, hc⟩

theorem coherent_share [DecidableEq κ] {x : LineState κ δ} (h : Sound x) {v : δ}
    (hv : x.Authoritative v) (c : κ) : Coherent (x.share c v) := by
  refine coherent_shared (c := c) rfl ?_ ?_ (.inl (by simp [LineState.share]))
  · intro b e hb
    simp only [LineState.share, Function.update_apply, downgradeOthers] at hb
    split at hb
    · exact (Option.some.inj hb).symm
    · obtain ⟨e', he', rfl⟩ := Option.map_eq_some_iff.mp hb
      rw [LineState.authoritative_unique h (LineState.authoritative_of_d h he') hv]
  · intro b u hb
    exact LineState.authoritative_unique h (LineState.authoritative_of_i h hb) hv

section Preservation

variable [DecidableEq κ] {act : ω → δ → δ} {x x' : LineState κ δ} {a : Action κ ω}

theorem Sound.dropD (h : Sound x) {c : κ} : Sound { x with d := Function.update x.d c none } := by
  obtain ⟨hincl, hexcl, hmod, hinstr, hsingle, hcleanD, hcleanI⟩ := h
  constructor <;> simp only [LineState.Holds, Function.update_apply] at * <;> grind

theorem Sound.dropI (h : Sound x) {c : κ} : Sound { x with i := Function.update x.i c none } := by
  obtain ⟨hincl, hexcl, hmod, hinstr, hsingle, hcleanD, hcleanI⟩ := h
  constructor <;> simp only [LineState.Holds, Function.update_apply] at * <;> grind

theorem Step.coherent (h : Coherent x) (hs : Step act x a x') : Coherent x' := by
  cases hs with
  | dropDirty c v hc =>
      -- the owner had the only copy, so none is left
      have hother : ∀ b, b ≠ c → ¬x.Holds b := h.exclusive c _ v hc (by simp)
      obtain ⟨u, hu⟩ := h.modified c v hc
      refine coherent_of_no_copies (fun b => ?_) (h.noInstr u hu) (by simp)
      by_cases hb : b = c
      · simp [hb]
      · simpa [hb] using not_not.mp fun hne => hother b hb (.inl hne)
  | dropClean c p v x' hc hp hs => exact hs.coherent h.toSound.dropD
  | dropInstr c v x' hc hs => exact hs.coherent h.toSound.dropI
  | evictDirty u v hu hv => exact coherent_of_no_copies (fun _ => rfl) (fun _ => rfl) (by simp)
  | evictClean p u hu hp => exact coherent_of_no_copies (fun _ => rfl) (fun _ => rfl) (by simp)
  | prefetch hl =>
      have hnone := h.no_copies hl
      exact coherent_of_no_copies (fun c => (hnone c).1) (fun c => (hnone c).2) (by simp)
  | loadD c hl =>
      have hnone := h.no_copies hl
      refine ⟨⟨?_, ?_, ?_, ?_, ?_, ?_, ?_⟩, ?_⟩ <;>
        simp only [LineState.Holds, Function.update_apply, Option.some.injEq, Prod.mk.injEq,
          exists_eq_left'] at * <;> grind
  | loadI c hl =>
      have hnone := h.no_copies hl
      refine ⟨⟨?_, ?_, ?_, ?_, ?_, ?_, ?_⟩, ?_⟩ <;>
        simp only [LineState.Holds, Function.update_apply, Option.some.injEq, Prod.mk.injEq,
          exists_eq_left'] at * <;> grind
  | loadStore c w hl =>
      have hnone := h.no_copies hl
      have hd : Function.update x.d c (some (.modified, act w x.mem)) =
          onlyD c (.modified, act w x.mem) := by
        funext b
        by_cases hb : b = c <;> simp [onlyD, hb, hnone]
      have hi : x.i = fun _ => none := funext fun b => (hnone b).2
      rw [hd, hi]
      exact coherent_onlyD c _ _ _
  | readAlone c p v hd hl hother =>
      obtain ⟨⟨hincl, hexcl, hmod, hinstr, hsingle, hcleanD, hcleanI⟩, hsharers⟩ := h
      refine ⟨⟨?_, ?_, ?_, ?_, ?_, ?_, ?_⟩, ?_⟩ <;>
        simp only [LineState.Holds, Function.update_apply] at * <;> grind
  | readShare c b v hd hv hb hholds hclean => exact coherent_share h.toSound hv c
  | readDirty c b v hd hv hb hholds hdirty => exact coherent_share h.toSound hv c
  | fetchAlone c p v hi hl hp hother =>
      obtain ⟨⟨hincl, hexcl, hmod, hinstr, hsingle, hcleanD, hcleanI⟩, hsharers⟩ := h
      refine ⟨⟨?_, ?_, ?_, ?_, ?_, ?_, ?_⟩, ?_⟩ <;>
        simp only [LineState.Holds, Function.update_apply] at * <;> grind
  | fetchShare c b p v hi hl hp hb hholds =>
      have hv := LineState.authoritative_of_clean h.toSound hl hp
      have hvalue : ∀ b e, x.d b = some e → e.2 = v := fun b e hb =>
        LineState.authoritative_unique h.toSound (LineState.authoritative_of_d h.toSound hb) hv
      refine coherent_shared (c := c) rfl ?_ ?_ (.inr (by simp))
      · intro b' e hb'
        simp only [downgradeOthers] at hb'
        split at hb'
        · -- a copy of `c` itself is shared, since another core has a copy
          rename_i hbc
          obtain ⟨q, u⟩ := e
          have hq : q = .shared := by
            by_contra hne
            exact h.exclusive b' q u hb' hne b (hbc ▸ hb) hholds
          rw [hq, ← hvalue b' _ hb']
        · obtain ⟨e', he', rfl⟩ := Option.map_eq_some_iff.mp hb'
          rw [hvalue b' e' he']
      · intro b' u hb'
        simp only [Function.update_apply] at hb'
        split at hb'
        · exact (Option.some.inj hb').symm
        · exact LineState.authoritative_unique h.toSound
            (LineState.authoritative_of_i h.toSound hb') hv
  | storeHit c w p q u v hd hl => exact coherent_onlyD c _ _ _
  | storeFill c w q u v hd hl hv => exact coherent_onlyD c _ _ _

end Preservation

end Mesi
