import CacheSimulator.Library.Mesi.Preservation

/-!
# Histories of a line

Two history variables follow a line: `track` the value the line had when it last
entered the second level and the stores since then, and `flat` the stores alone, as a
memory without caches would. The first always agrees with the authoritative copy. The
second does so as long as no line in state modified is downgraded, because that move
forgets that memory is out of date.
-/

namespace Mesi

variable {κ δ ω : Type*}

def Action.stored : Action κ ω → Option ω
  | .loadStore _ w => some w
  | .storeHit _ w => some w
  | .storeFill _ w => some w
  | _ => none

/-- The action brings the line into the second level. -/
def Action.Enters : Action κ ω → Prop
  | .prefetch => True
  | .loadD _ => True
  | .loadI _ => True
  | .loadStore _ _ => True
  | _ => False

instance (a : Action κ ω) : Decidable a.Enters := by
  cases a <;> unfold Action.Enters <;> infer_instance

/-- The action makes the second level forget that memory is out of date. -/
def Action.Forgets : Action κ ω → Prop
  | .readDirty _ => True
  | _ => False

/-- The moves that no access to the line makes: they make room or look ahead. -/
def Action.Background : Action κ ω → Prop
  | .dropD _ => True
  | .dropI _ => True
  | .evict => True
  | .prefetch => True
  | _ => False

theorem Action.Background.stored {a : Action κ ω} (ha : a.Background) : a.stored = none := by
  cases a <;> first | rfl | exact ha.elim

theorem Action.Background.not_forgets {a : Action κ ω} (ha : a.Background) : ¬a.Forgets := by
  cases a <;> first | exact id | exact ha.elim

theorem Settle.authoritative {y x' : LineState κ δ} (hs : Settle y x') {v : δ}
    (hv : y.Authoritative v) : x'.Authoritative v := by
  cases hs with
  | kept c hc => exact hv
  | last hlast =>
      rcases hv with hd | ⟨hno, p, hp⟩
      · exact .inl hd
      · exact .inr ⟨hno, p.promote, by simp [hp]⟩

theorem Settle.dirty_iff {y x' : LineState κ δ} (hs : Settle y x') : x'.Dirty ↔ y.Dirty := by
  cases hs with
  | kept c hc => rfl
  | last hlast =>
      constructor
      · rintro ⟨v, hv⟩
        obtain ⟨⟨p, u⟩, hp, he⟩ := Option.map_eq_some_iff.mp hv
        obtain ⟨hmode, rfl⟩ := Prod.mk.inj he
        exact ⟨_, by rw [hp, (Mode.promote_eq_modified p).mp hmode]⟩
      · rintro ⟨v, hv⟩
        exact ⟨v, by simp [hv, Mode.promote]⟩

theorem Settle.mem_eq {y x' : LineState κ δ} (hs : Settle y x') : x'.mem = y.mem := by
  cases hs <;> rfl

theorem not_dirty_of_l2_none {x : LineState κ δ} (hl : x.l2 = none) : ¬x.Dirty := by
  rintro ⟨v, hv⟩
  rw [hl] at hv
  cases hv

theorem not_dirty_of_mode {x : LineState κ δ} {p : Mode} {u : δ}
    (hl : x.l2 = some (p, u)) (hp : p ≠ .modified) :
    ¬x.Dirty := by
  rintro ⟨v, hv⟩
  rw [hl, Option.some.injEq] at hv
  exact hp (Prod.mk.inj hv).1

section Histories

variable (act : ω → δ → δ)

/-- The effect of an action's store, if it has one, on a value. -/
def flat (a : Action κ ω) (v : δ) : δ :=
  match a.stored with
  | some w => act w v
  | none => v

/-- The value the line had when it last entered the second level, with the
stores since then: `mem` is memory at the time of the action. -/
def track (a : Action κ ω) (mem h : δ) : δ :=
  flat act a (if a.Enters then mem else h)

variable [DecidableEq κ] {act : ω → δ → δ} {x x' : LineState κ δ} {a : Action κ ω}

theorem authoritative_onlyD (c : κ) (v u m : δ) :
    (⟨onlyD c (.modified, v), fun _ => none, some (.modified, u), m⟩ :
      LineState κ δ).Authoritative v :=
  .inl ⟨c, by simp [onlyD]⟩

/-- What a move does to the value of a line that the second level holds after
it: the value is the tracked one. -/
theorem Step.authoritative (h : Coherent x) (hs : Step act x a x') {v : δ}
    (hv : ∀ u, x.Authoritative u → u = v) (hl : x'.l2 ≠ none) :
    x'.Authoritative (track act a x.mem v) := by
  have hx' : Sound x' := (hs.coherent h).toSound
  cases hs with
  | dropDirty c u hc =>
      rw [← hv u (.inl ⟨c, hc⟩)]
      refine .inr ⟨fun b w hb => ?_, .modified, rfl⟩
      simp only [Function.update_apply] at hb
      split at hb
      · cases hb
      · rename_i hbc
        exact h.exclusive c _ u hc (by simp) b hbc (.inl (by simp [hb]))
  | dropClean c p u x' hc hp hs =>
      obtain ⟨q, hq⟩ := h.cleanD c p u hc hp
      rw [← hv u (LineState.authoritative_of_d h.toSound hc)]
      refine hs.authoritative (.inr ⟨fun b w hb => ?_, q, hq⟩)
      simp only [Function.update_apply] at hb
      split at hb
      · cases hb
      · rename_i hbc
        exact h.exclusive b _ w hb (by simp) c (Ne.symm hbc) (.inl (by simp [hc]))
  | dropInstr c u x' hc hs =>
      have hu := LineState.authoritative_of_i h.toSound hc
      rw [← hv u hu]
      exact hs.authoritative hu
  | evictDirty u w hu hw => exact absurd rfl hl
  | evictClean p u hu hp => exact absurd rfl hl
  | prefetch hn => exact LineState.authoritative_of_clean hx' rfl (by simp)
  | loadD c hn => exact LineState.authoritative_of_clean hx' rfl (by simp)
  | loadI c hn => exact LineState.authoritative_of_clean hx' rfl (by simp)
  | loadStore c w hn => exact .inl ⟨c, by simp [track, flat, Action.stored, Action.Enters]⟩
  | readAlone c p u hd hu hother =>
      have hall : x.Authoritative u := by
        refine .inr ⟨fun b w hb => ?_, p, hu⟩
        by_cases hbc : b = c
        · rw [hbc, hd] at hb
          cases hb
        · exact hother b hbc (.inl (by simp [hb]))
      rw [← hv u hall]
      exact LineState.authoritative_of_d hx' (c := c) (p := .exclusive) (v := u) (by simp)
  | readShare c b u hd hu hb hholds hclean =>
      rw [← hv u hu]
      exact LineState.authoritative_of_clean hx' rfl (by simp)
  | readDirty c b u hd hu hb hholds hdirty =>
      rw [← hv u hu]
      exact LineState.authoritative_of_clean hx' rfl (by simp)
  | fetchAlone c p u hi hu hp hother =>
      rw [← hv u (LineState.authoritative_of_clean h.toSound hu hp)]
      exact LineState.authoritative_of_clean hx' hu hp
  | fetchShare c b p u hi hu hp hb hholds =>
      rw [← hv u (LineState.authoritative_of_clean h.toSound hu hp)]
      exact LineState.authoritative_of_clean hx' rfl (by simp)
  | storeHit c w p q u u' hd hu =>
      rw [← hv u (LineState.authoritative_of_d h.toSound hd)]
      exact authoritative_onlyD c _ _ _
  | storeFill c w q u u' hd hu hu' =>
      rw [← hv u' hu']
      exact authoritative_onlyD c _ _ _

/-- A line whose value, wherever it is, is `f`: the authoritative copy has it,
and so has memory unless the line is dirty. -/
structure Faithful (x : LineState κ δ) (f : δ) : Prop where
  value : ∀ u, x.Authoritative u → u = f
  memory : ¬x.Dirty → x.mem = f

/-- A value the line is known to have: that of its authoritative copy, or that of
memory when it is not dirty. -/
def LineState.Value (x : LineState κ δ) (v : δ) : Prop :=
  x.Authoritative v ∨ ¬x.Dirty ∧ x.mem = v

omit [DecidableEq κ] in
theorem Faithful.eq_of_value {f v : δ} (h : Faithful x f) (hv : x.Value v) : v = f := by
  rcases hv with hv | ⟨hd, hmem⟩
  · exact h.value v hv
  · rw [← hmem]
    exact h.memory hd

theorem Step.l2_none_of_enters (hs : Step act x a x') (ha : a.Enters) : x.l2 = none := by
  cases hs <;> first | assumption | exact absurd ha id

/-- Only a line of the second level makes a move that does not bring it there. -/
theorem Step.l2_ne_none_of_not_enters (h : Coherent x) (hs : Step act x a x')
    (ha : ¬a.Enters) :
    x.l2 ≠ none := by
  have hd : ∀ c e, x.d c = some e → x.l2 ≠ none := fun c e hc =>
    h.inclusion c (.inl (by rw [hc]; exact Option.some_ne_none e))
  have hi : ∀ c v, x.i c = some v → x.l2 ≠ none := fun c v hc =>
    h.inclusion c (.inr (by rw [hc]; exact Option.some_ne_none v))
  have hsome : ∀ e, x.l2 = some e → x.l2 ≠ none := fun e he => by
    rw [he]
    exact Option.some_ne_none e
  have hvalue : ∀ v, x.Authoritative v → x.l2 ≠ none := fun v hv hn =>
    LineState.authoritative_of_l2_none h.toSound hn hv
  cases hs with
  | dropDirty c v hc => exact hd c _ hc
  | dropClean c p v _ hc => exact hd c _ hc
  | dropInstr c v _ hc => exact hi c v hc
  | evictDirty u v hu => exact hsome _ hu
  | evictClean p u hu => exact hsome _ hu
  | readAlone c p v _ hl => exact hsome _ hl
  | readShare c b v _ hv => exact hvalue v hv
  | readDirty c b v _ hv => exact hvalue v hv
  | fetchAlone c p v _ hl => exact hsome _ hl
  | fetchShare c b p v _ hl => exact hsome _ hl
  | storeHit c w p q u v _ hl => exact hsome _ hl
  | storeFill c w q u v _ hl => exact hsome _ hl
  | _ => exact absurd trivial ha

omit [DecidableEq κ] in
theorem Settle.l2_ne_none {y : LineState κ δ} (hs : Settle y x') (hy : y.l2 ≠ none) :
    x'.l2 ≠ none := by
  cases hs with
  | kept => exact hy
  | last => simpa using hy

theorem Step.l2_ne_none (h : Coherent x) (hs : Step act x a x') (ha : a ≠ .evict) :
    x'.l2 ≠ none := by
  have hl : ¬a.Enters → x.l2 ≠ none := hs.l2_ne_none_of_not_enters h
  cases hs with
  | dropClean c p v x' hc hp hsettle => exact hsettle.l2_ne_none (hl id)
  | dropInstr c v x' hc hsettle => exact hsettle.l2_ne_none (hl id)
  | evictDirty => exact absurd rfl ha
  | evictClean => exact absurd rfl ha
  | readAlone c p v _ hl' => simp [hl']
  | fetchAlone c p v _ hl' => simp [hl']
  | _ => exact Option.some_ne_none _

/-- No move loses the value of a line, except the downgrade of a dirty one. -/
theorem Step.faithful (h : Coherent x) (hs : Step act x a x') {f : δ} (hf : Faithful x f)
    (ha : ¬a.Forgets) : Faithful x' (flat act a f) := by
  have hx' : Sound x' := (hs.coherent h).toSound
  constructor
  · intro u hu
    have hl : x'.l2 ≠ none := fun hn => LineState.authoritative_of_l2_none hx' hn hu
    have htrack : track act a x.mem f = flat act a f := by
      unfold track
      split
      · rename_i henters
        rw [hf.memory (not_dirty_of_l2_none (hs.l2_none_of_enters henters))]
      · rfl
    rw [← htrack]
    exact LineState.authoritative_unique hx' hu (hs.authoritative h hf.value hl)
  · intro hd
    cases hs with
    | dropDirty c u hc => exact absurd ⟨u, rfl⟩ hd
    | dropClean c p u x' hc hp hs =>
        rw [hs.mem_eq]
        exact hf.memory fun hdirty => hd (hs.dirty_iff.mpr hdirty)
    | dropInstr c u x' hc hs =>
        rw [hs.mem_eq]
        exact hf.memory fun hdirty => hd (hs.dirty_iff.mpr hdirty)
    | evictDirty u w hu hw => exact hf.value w hw
    | evictClean p u hu hp => exact hf.memory (not_dirty_of_mode hu hp)
    | prefetch hn => exact hf.memory (not_dirty_of_l2_none hn)
    | loadD c hn => exact hf.memory (not_dirty_of_l2_none hn)
    | loadI c hn => exact hf.memory (not_dirty_of_l2_none hn)
    | loadStore c w hn => exact absurd ⟨_, rfl⟩ hd
    | readAlone c p u hdc hu hother => exact hf.memory hd
    | readShare c b u hdc hu hb hholds hclean => exact hf.memory hclean
    | readDirty c b u hdc hu hb hholds hdirty => exact absurd trivial ha
    | fetchAlone c p u hi hu hp hother => exact hf.memory hd
    | fetchShare c b p u hi hu hp hb hholds => exact hf.memory (not_dirty_of_mode hu hp)
    | storeHit c w p q u u' hdc hu => exact absurd ⟨_, rfl⟩ hd
    | storeFill c w q u u' hdc hu hu' => exact absurd ⟨_, rfl⟩ hd

/-- Only a store makes memory out of date. -/
theorem Step.not_dirty (h : Coherent x) (hs : Step act x a x') (ha : a.stored = none)
    (hx : ¬x.Dirty) : ¬x'.Dirty := by
  cases hs with
  | dropDirty c v hc => exact absurd (h.modified c v hc) hx
  | dropClean c p v x' hc hp hs => exact fun hd => hx (hs.dirty_iff.mp hd)
  | dropInstr c v x' hc hs => exact fun hd => hx (hs.dirty_iff.mp hd)
  | evictDirty u v hu hv => exact not_dirty_of_l2_none rfl
  | evictClean p u hu hp => exact not_dirty_of_l2_none rfl
  | prefetch hl => exact not_dirty_of_mode rfl (by simp)
  | loadD c hl => exact not_dirty_of_mode rfl (by simp)
  | loadI c hl => exact not_dirty_of_mode rfl (by simp)
  | loadStore c w hl => cases ha
  | readAlone c p v hd hl hother => exact hx
  | readShare c b v hd hv hb hholds hclean => exact not_dirty_of_mode rfl (by simp)
  | readDirty c b v hd hv hb hholds hdirty => exact not_dirty_of_mode rfl (by simp)
  | fetchAlone c p v hi hl hp hother => exact hx
  | fetchShare c b p v hi hl hp hb hholds => exact not_dirty_of_mode rfl (by simp)
  | storeHit c w p q u v hd hl => cases ha
  | storeFill c w q u v hd hl hv => cases ha

/-- Memory changes only when a dirty line is evicted. -/
theorem Step.mem_eq (hs : Step act x a x') (hx : ¬x.Dirty) : x'.mem = x.mem := by
  cases hs with
  | dropClean c p v x' hc hp hs => exact hs.mem_eq
  | dropInstr c v x' hc hs => exact hs.mem_eq
  | evictDirty u v hu hv => exact absurd ⟨u, hu⟩ hx
  | _ => rfl

/-- The values of the data copies, of the second level and of memory are in `P`. -/
structure LineState.AllIn (x : LineState κ δ) (P : δ → Prop) : Prop where
  d : ∀ c e, x.d c = some e → P e.2
  l2 : ∀ e, x.l2 = some e → P e.2
  mem : P x.mem

variable {P : δ → Prop}

omit [DecidableEq κ] in
theorem LineState.AllIn.of_authoritative (h : x.AllIn P) {v : δ} (hv : x.Authoritative v) :
    P v := by
  rcases hv with ⟨c, hc⟩ | ⟨-, p, hp⟩
  · exact h.d c _ hc
  · exact h.l2 _ hp

omit [DecidableEq κ] in
theorem Settle.allIn {y : LineState κ δ} (hs : Settle y x') (h : y.AllIn P) : x'.AllIn P := by
  cases hs with
  | kept c hc => exact h
  | last hlast =>
      refine ⟨h.d, fun e he => ?_, h.mem⟩
      obtain ⟨e', he', rfl⟩ := Option.map_eq_some_iff.mp he
      exact h.l2 e' he'

theorem LineState.AllIn.setD (h : x.AllIn P) {c : κ} {e : Option (Mode × δ)}
    (he : ∀ e' ∈ e, P e'.2) : ∀ b e', Function.update x.d c e b = some e' → P e'.2 := by
  intro b e' hb
  rw [Function.update_apply] at hb
  split at hb
  · exact he e' hb
  · exact h.d b e' hb

theorem LineState.AllIn.share (h : x.AllIn P) {v : δ} (hv : P v) (c : κ) :
    (x.share c v).AllIn P := by
  refine ⟨fun b e hb => ?_, fun e he => Option.some.inj he ▸ hv, h.mem⟩
  simp only [LineState.share, Function.update_apply, downgradeOthers] at hb
  split at hb
  · exact Option.some.inj hb ▸ hv
  · obtain ⟨e', he', rfl⟩ := Option.map_eq_some_iff.mp hb
    exact h.d b e' he'

/-- A line that is not stored to has no value it did not have before. -/
theorem Step.allIn (hs : Step act x a x') (ha : a.stored = none) (h : x.AllIn P) : x'.AllIn P := by
  cases hs with
  | dropDirty c v hc =>
      exact ⟨h.setD (by simp), fun e he => Option.some.inj he ▸ h.d c _ hc, h.mem⟩
  | dropClean c p v x' hc hp hs => exact hs.allIn ⟨h.setD (by simp), h.l2, h.mem⟩
  | dropInstr c v x' hc hs => exact hs.allIn ⟨h.d, h.l2, h.mem⟩
  | evictDirty u v hu hv => exact ⟨by simp, by simp, h.of_authoritative hv⟩
  | evictClean p u hu hp => exact ⟨by simp, by simp, h.mem⟩
  | prefetch hl => exact ⟨h.d, fun e he => Option.some.inj he ▸ h.mem, h.mem⟩
  | loadD c hl =>
      exact ⟨h.setD (by simpa using h.mem), fun e he => Option.some.inj he ▸ h.mem, h.mem⟩
  | loadI c hl => exact ⟨h.d, fun e he => Option.some.inj he ▸ h.mem, h.mem⟩
  | loadStore c w hl => cases ha
  | readAlone c p v hd hl hother => exact ⟨h.setD (by simpa using h.l2 _ hl), h.l2, h.mem⟩
  | readShare c b v hd hv hb hholds hclean => exact h.share (h.of_authoritative hv) c
  | readDirty c b v hd hv hb hholds hdirty => exact h.share (h.of_authoritative hv) c
  | fetchAlone c p v hi hl hp hother => exact ⟨h.d, h.l2, h.mem⟩
  | fetchShare c b p v hi hl hp hb hholds =>
      have hv : P v := h.l2 _ hl
      refine ⟨fun b' e he => ?_, fun e he => Option.some.inj he ▸ hv, h.mem⟩
      simp only [downgradeOthers] at he
      split at he
      · exact h.d b' e he
      · obtain ⟨e', he', rfl⟩ := Option.map_eq_some_iff.mp he
        exact h.d b' e' he'
  | storeHit c w p q u v hd hl => cases ha
  | storeFill c w q u v hd hl hv => cases ha

end Histories

end Mesi
