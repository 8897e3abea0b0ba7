import CacheSimulator.Library.Mesi.System
import CacheSimulator.Library.SetAssociative
import Mathlib.Data.Fintype.Card

/-!
# Stores that are large enough

A set of a set-associative store whose keys number no more than its ways has a
free way whenever one of these keys is missing. A hierarchy that never has to
evict a line from its second level is simpler than the protocol in general: what
has come in stays, memory does not change, and the value of a line is that of a
memory without caches, whatever has been downgraded.
-/

namespace SetAssociative

variable {ι I T W β κ : Type*}

/-- The keys of the set of `a` have different names in `K`, which has no more
elements than the set has ways. If `a` is missing, a way is free. -/
theorem Geometry.exists_free [Fintype W] (g : Geometry ι I T) {sets : I → W → Option (T × β)}
    (h : g.WellPlaced sets) {a : ι} {name : ι → κ} {K : Finset κ}
    (hname : ∀ b b', g.index b = g.index a → g.index b' = g.index a → name b = name b' → b = b')
    (hK : ∀ b, g.index b = g.index a → g.contents sets b ≠ none → name b ∈ K)
    (hcard : K.card ≤ Fintype.card W) (haK : name a ∈ K) (ha : g.contents sets a = none) :
    ∃ w, sets (g.index a) w = none := by
  classical
  by_contra hfull
  have hentry : ∀ w, ∃ b, g.index b = g.index a ∧ ∃ x, sets (g.index a) w = some (g.tag b, x) := by
    intro w
    obtain ⟨⟨t, x⟩, hx⟩ := Option.ne_none_iff_exists'.mp fun hw => hfull ⟨w, hw⟩
    obtain ⟨b, hb, rfl⟩ := h.placed _ w t x hx
    exact ⟨b, hb, x, hx⟩
  choose key hindex value hvalue using hentry
  have hcontents : ∀ w, g.contents sets (key w) = some (value w) := fun w =>
    (g.contents_eq_some_iff h).mpr ⟨w, by rw [hindex w]; exact hvalue w⟩
  have hmem : ∀ w ∈ Finset.univ, name (key w) ∈ K.erase (name a) := by
    intro w _
    refine Finset.mem_erase.mpr ⟨fun heq => ?_, hK _ (hindex w) (by rw [hcontents w]; simp)⟩
    have hka := hname _ _ (hindex w) rfl heq
    have hw := hcontents w
    rw [hka, ha] at hw
    cases hw
  have hinj : Set.InjOn (fun w => name (key w)) (Finset.univ : Finset W) := by
    intro w _ w' _ heq
    have hkey := hname _ _ (hindex w) (hindex w') heq
    exact h.unique _ w w' _ _ _ (hvalue w) (hkey ▸ hvalue w')
  have hle := Finset.card_le_card_of_injOn _ hmem hinj
  rw [Finset.card_erase_of_mem haK, Finset.card_univ] at hle
  have hpos := Finset.card_pos.mpr ⟨_, haK⟩
  omega

end SetAssociative

namespace Mesi

variable {ι κ δ ω : Type*} [DecidableEq κ] {act : ω → δ → δ} {x x' x'' : LineState κ δ}
  {α : Action κ ω}

/-! ## One line -/

theorem Step.mem_eq_of_ne_evict (hs : Step act x α x') (hα : α ≠ .evict) : x'.mem = x.mem := by
  cases hs with
  | dropClean c p v x' hc hp hsettle => exact hsettle.mem_eq
  | dropInstr c v x' hc hsettle => exact hsettle.mem_eq
  | evictDirty => exact absurd rfl hα
  | evictClean => exact absurd rfl hα
  | _ => rfl

/-- The action takes a copy away from the core that holds it. -/
def Action.Drops : Action κ ω → Prop
  | .dropD _ => True
  | .dropI _ => True
  | _ => False

omit [DecidableEq κ] in
theorem Action.Drops.not_enters (h : α.Drops) : ¬α.Enters := by
  cases α <;> first | exact id | exact h.elim

omit [DecidableEq κ] in
theorem Action.Drops.ne_evict (h : α.Drops) : α ≠ .evict := by
  rintro rfl
  exact h

/-- The cores with a data copy after an action, when `held` had one before. -/
def Action.holders (α : Action κ ω) (held : κ → Prop) : κ → Prop :=
  match α with
  | .loadD c | .readAlone c | .readShare c | .readDirty c => fun b => held b ∨ b = c
  | .loadStore c _ | .storeHit c _ | .storeFill c _ => fun b => b = c
  | _ => held

/-- A move that neither drops nor evicts changes the holders as its action says. -/
theorem Step.holds_iff (h : Coherent x) (hs : Step act x α x') (hα : α ≠ .evict)
    (hdrop : ¬α.Drops) (b : κ) : x'.d b ≠ none ↔ α.holders (fun b => x.d b ≠ none) b := by
  have hupdate : ∀ c e, Function.update x.d c (some e) b ≠ none ↔ x.d b ≠ none ∨ b = c := by
    intro c e
    by_cases hb : b = c
    · simp [hb]
    · simp [hb]
  have honly : ∀ c (e : Mode × δ), onlyD c e b ≠ none ↔ b = c := by
    intro c e
    simp [onlyD]
  have hdown : ∀ c, downgradeOthers x.d c b ≠ none ↔ x.d b ≠ none := by
    intro c
    unfold downgradeOthers
    split
    · rfl
    · simp
  have hshare : ∀ c v, (x.share c v).d b ≠ none ↔ x.d b ≠ none ∨ b = c := by
    intro c v
    by_cases hb : b = c
    · simp [LineState.share, hb]
    · simpa [LineState.share, hb] using hdown c
  cases hs with
  | dropDirty => exact absurd trivial hdrop
  | dropClean => exact absurd trivial hdrop
  | dropInstr => exact absurd trivial hdrop
  | evictDirty => exact absurd rfl hα
  | evictClean => exact absurd rfl hα
  | prefetch => exact Iff.rfl
  | loadD c hl => exact hupdate c _
  | loadI => exact Iff.rfl
  | loadStore c w hl =>
      have hnone := (h.no_copies hl b).1
      rw [hupdate]
      simp [Action.holders, hnone]
  | readAlone c p v => exact hupdate c _
  | readShare c b' v => exact hshare c v
  | readDirty c b' v => exact hshare c v
  | fetchAlone => exact Iff.rfl
  | fetchShare c => exact hdown c
  | storeHit c => exact honly c _
  | storeFill c => exact honly c _

omit [DecidableEq κ] in
theorem Settle.copies {y : LineState κ δ} (hs : Settle y x') : x'.d = y.d ∧ x'.i = y.i := by
  cases hs with
  | kept => exact ⟨rfl, rfl⟩
  | last => exact ⟨rfl, rfl⟩

/-- A core gets a data copy without storing only by a load. -/
theorem Step.gains_d (hs : Step act x α x') {c : κ} (hx : x.d c = none) (hx' : x'.d c ≠ none)
    (hstored : α.stored = none) :
    α ≠ .evict ∧ ¬α.Drops ∧ ∀ held, α.holders held = fun b => held b ∨ b = c := by
  have hupdate : ∀ c' e, Function.update x.d c' e c ≠ none → c' = c := by
    intro c' e h
    by_contra hne
    rw [Function.update_of_ne (Ne.symm hne)] at h
    exact h hx
  have hdrop : ∀ c', Function.update x.d c' none c = none := by
    intro c'
    by_cases hc : c = c'
    · simp [hc]
    · simp [hc, hx]
  have hdown : ∀ c', downgradeOthers x.d c' c = none := by
    intro c'
    simp [downgradeOthers, hx]
  have hshare : ∀ c' v, (x.share c' v).d c ≠ none → c' = c := by
    intro c' v h
    by_contra hne
    simp [LineState.share, Function.update_of_ne (Ne.symm hne), hdown] at h
  cases hs with
  | dropDirty c' v hc => exact absurd (hdrop c') hx'
  | dropClean c' p v _ hc hp hsettle =>
      exact absurd ((congrFun hsettle.copies.1 c).trans (hdrop c')) hx'
  | dropInstr c' v _ hc hsettle => exact absurd (by rw [hsettle.copies.1, hx]) hx'
  | evictDirty => exact absurd rfl hx'
  | evictClean => exact absurd rfl hx'
  | prefetch => exact absurd hx hx'
  | loadD c' =>
      obtain rfl := hupdate _ _ hx'
      exact ⟨by simp, id, fun _ => rfl⟩
  | loadI => exact absurd hx hx'
  | loadStore => cases hstored
  | readAlone c' =>
      obtain rfl := hupdate _ _ hx'
      exact ⟨by simp, id, fun _ => rfl⟩
  | readShare c' b v =>
      obtain rfl := hshare _ _ hx'
      exact ⟨by simp, id, fun _ => rfl⟩
  | readDirty c' b v =>
      obtain rfl := hshare _ _ hx'
      exact ⟨by simp, id, fun _ => rfl⟩
  | fetchAlone => exact absurd hx hx'
  | fetchShare c' => exact absurd (hdown c') hx'
  | storeHit => cases hstored
  | storeFill => cases hstored

/-- A core gets an instruction copy only by a fetch. -/
theorem Step.gains_i (hs : Step act x α x') {c : κ} (hx : x.i c = none) (hx' : x'.i c ≠ none) :
    α ≠ .evict ∧ ¬α.Drops ∧ ∀ held, α.holders held = held := by
  have hdrop : ∀ c', Function.update x.i c' none c = none := by
    intro c'
    by_cases hc : c = c'
    · simp [hc]
    · simp [hc, hx]
  cases hs with
  | dropDirty => exact absurd hx hx'
  | dropClean c' p v _ hc hp hsettle => exact absurd (by rw [hsettle.copies.2, hx]) hx'
  | dropInstr c' v _ hc hsettle => exact absurd ((congrFun hsettle.copies.2 c).trans (hdrop c')) hx'
  | loadI => exact ⟨by simp, id, fun _ => rfl⟩
  | fetchAlone => exact ⟨by simp, id, fun _ => rfl⟩
  | fetchShare => exact ⟨by simp, id, fun _ => rfl⟩
  | evictDirty => exact absurd rfl hx'
  | evictClean => exact absurd rfl hx'
  | storeHit => exact absurd rfl hx'
  | storeFill => exact absurd rfl hx'
  | _ => exact absurd hx hx'

/-! ## All lines together -/

namespace System

variable [DecidableEq ι] {σ σ' : System ι κ δ} {e : ι × Action κ ω} {es : List (ι × Action κ ω)}

theorem Run.of_append {fs : List (ι × Action κ ω)} (h : Run act σ (es ++ fs) σ') :
    ∃ τ, Run act σ es τ ∧ Run act τ fs σ' := by
  induction es generalizing σ with
  | nil => exact ⟨σ, .nil σ, h⟩
  | cons e es ih =>
      cases h with
      | cons hs hr =>
          obtain ⟨τ, hes, hfs⟩ := ih hr
          exact ⟨τ, .cons hs hes, hfs⟩

theorem Run.of_singleton (h : Run act σ [e] σ') : Step act σ e σ' := by
  cases h with
  | cons hs hr =>
      cases hr
      exact hs

/-- A line that is not in the second level has its flat value in memory, and one
that is there has it as its tracked value. -/
structure Settled (σ : System ι κ δ) : Prop where
  absent : ∀ a, (σ.lines a).l2 = none → (σ.lines a).mem = σ.flat a
  present : ∀ a, (σ.lines a).l2 ≠ none → σ.tracked a = σ.flat a

omit [DecidableEq ι] [DecidableEq κ] in
/-- The value of a line that has come in is its flat value. -/
theorem Settled.authoritative (h : Settled σ) (hc : Coherent σ) {a : ι}
    (ha : (σ.lines a).l2 ≠ none) : (σ.lines a).Authoritative (σ.flat a) := by
  rw [← h.present a ha]
  exact hc.value a ha

theorem Step.settled (hc : Coherent σ) (h : Settled σ) (hs : Step act σ e σ')
    (he : e.2 ≠ .evict) : Settled σ' := by
  have hpresent : (σ'.lines e.1).l2 ≠ none := hs.move.l2_ne_none (hc.coherent _) he
  refine ⟨fun a ha => ?_, fun a ha => ?_⟩
  · have hae : a ≠ e.1 := by
      rintro rfl
      exact hpresent ha
    rw [hs.frame a hae] at ha ⊢
    rw [hs.flat, Function.update_of_ne hae]
    exact h.absent a ha
  · rw [hs.tracked, hs.flat]
    by_cases hae : a = e.1
    · subst hae
      rw [Function.update_self, Function.update_self, track]
      by_cases henters : e.2.Enters
      · rw [if_pos henters, h.absent _ (hs.move.l2_none_of_enters henters)]
      · rw [if_neg henters,
          h.present _ (hs.move.l2_ne_none_of_not_enters (hc.coherent _) henters)]
    · rw [Function.update_of_ne hae, Function.update_of_ne hae]
      rw [hs.frame a hae] at ha
      exact h.present a ha

theorem Run.settled (hc : Coherent σ) (h : Settled σ) (hr : Run act σ es σ')
    (hes : ∀ e ∈ es, e.2 ≠ .evict) : Settled σ' := by
  induction hr with
  | nil σ => exact h
  | cons hs hr ih =>
      exact ih (hs.coherent hc) (hs.settled hc h (hes _ List.mem_cons_self))
        fun e he => hes e (List.mem_cons_of_mem _ he)

/-- Without evictions nothing leaves the second level, and memory stays as it is. -/
theorem Run.stays (hc : Coherent σ) (hr : Run act σ es σ') (hes : ∀ e ∈ es, e.2 ≠ .evict) (a : ι) :
    ((σ.lines a).l2 ≠ none → (σ'.lines a).l2 ≠ none) ∧ (σ'.lines a).mem = (σ.lines a).mem := by
  induction hr with
  | nil σ => exact ⟨id, rfl⟩
  | @cons σ σ₁ σ₂ e es hs hr ih =>
      obtain ⟨hl, hm⟩ := ih (hs.coherent hc) fun e he => hes e (List.mem_cons_of_mem _ he)
      have he := hes _ List.mem_cons_self
      by_cases hae : a = e.1
      · subst hae
        exact ⟨fun _ => hl (hs.move.l2_ne_none (hc.coherent _) he),
          hm.trans (hs.move.mem_eq_of_ne_evict he)⟩
      · rw [hs.frame a hae] at hl hm
        exact ⟨hl, hm⟩

theorem Run.frame (hr : Run act σ es σ') {a : ι} (hes : ∀ e ∈ es, e.1 ≠ a) :
    σ'.lines a = σ.lines a := by
  induction hr with
  | nil σ => rfl
  | cons hs hr ih =>
      rw [ih fun e he => hes e (List.mem_cons_of_mem _ he),
        hs.frame a (hes _ List.mem_cons_self).symm]

/-- Prefetches do not touch the lines that are in the second level already, and give
no core a copy. -/
theorem Run.prefetches (hc : Coherent σ) (hr : Run act σ es σ')
    (hes : ∀ e ∈ es, e.2 = .prefetch) (a : ι) :
    ((σ.lines a).l2 ≠ none → σ'.lines a = σ.lines a) ∧ (σ'.lines a).d = (σ.lines a).d := by
  induction hr with
  | nil σ => exact ⟨fun _ => rfl, rfl⟩
  | @cons σ σ₁ σ₂ e es hs hr ih =>
      obtain ⟨hkept, hd⟩ := ih (hs.coherent hc) fun e he => hes e (List.mem_cons_of_mem _ he)
      have he := hes _ List.mem_cons_self
      by_cases hae : a = e.1
      · subst hae
        have hmove := hs.move
        rw [he] at hmove
        have habsent : (σ.lines e.1).l2 = none := hmove.l2_none_of_enters trivial
        refine ⟨fun hne => absurd habsent hne, hd.trans ?_⟩
        generalize σ₁.lines e.1 = y at hmove
        cases hmove
        rfl
      · rw [hs.frame a hae] at hkept hd
        exact ⟨hkept, hd⟩

end System

end Mesi
