import CacheSimulator.Core
import CacheSimulator.Library.PlruTree
import CacheSimulator.Library.Recency

/-!
# Replacement

The stream table of the prefetcher replaces the stream that was updated longest
ago. The tree of a set with `2 ^ k` ways protects the ways of the last `k` updates.
-/

namespace CacheSimulator

section Streams

open Recency

def initialAges : Fin 8 → ℕ := fun i => 7 - i

theorem pfLruUpdate_eq_touch : pfLruUpdate = touch := rfl

theorem initialAges_ordered : Ordered [] initialAges := by
  intro i j
  unfold Older lastTouch initialAges
  simp only [List.length_nil, Nat.zero_sub, Nat.lt_irrefl, true_and, false_or]
  omega

theorem le_pfLruEvict (age : Fin 8 → ℕ) (i : Fin 8) : age i ≤ age (pfLruEvict age) :=
  le_foldl_oldest age ((List.finRange 8).drop 1) 0 i (List.mem_finRange i)

/-- Injective ages below eight are the numbers from 0 to 7 in some order. -/
theorem perm_range {age : Fin 8 → ℕ} (hinjective : Function.Injective age)
    (hlt : ∀ i, age i < 8) : ((List.finRange 8).map age).Perm (List.range 8) := by
  have hnodup : ((List.finRange 8).map age).Nodup := (List.nodup_finRange 8).map hinjective
  refine (hnodup.subperm fun a ha => ?_).perm_of_length_le (by simp)
  obtain ⟨i, -, rfl⟩ := List.mem_map.mp ha
  exact List.mem_range.mpr (hlt i)

/-- After any updates the ages are a permutation of 0..7, and the stream evicted is
older than all the others. -/
theorem pfLruEvict_oldest (history : List (Fin 8)) :
    ((List.finRange 8).map (history.foldl pfLruUpdate initialAges)).Perm (List.range 8) ∧
      ∀ i, i ≠ pfLruEvict (history.foldl pfLruUpdate initialAges) →
        Older history (pfLruEvict (history.foldl pfLruUpdate initialAges)) i := by
  rw [pfLruUpdate_eq_touch]
  have hordered := initialAges_ordered.foldl history
  have hlt := foldl_touch_lt (fun i => (by unfold initialAges; omega : initialAges i < 8)) history
  refine ⟨perm_range hordered.injective hlt, fun i hi => (hordered _ i).mp ?_⟩
  exact Nat.lt_of_le_of_ne (le_pfLruEvict _ i) fun heq => hi (hordered.injective heq)

end Streams

section Ways

open PlruTree

variable {n k : ℕ} {path : List Bool} {b : Bool}

/-- The bits of a set as bits of the inner nodes of a tree. -/
def treeBits (bits : BitVec n) : Bits := fun q => bits.getLsbD (nodeAt 0 q)

/-- A left child has an odd number. -/
theorem nodeAt_append_mod_two (path : List Bool) (b : Bool) :
    nodeAt 0 (path ++ [b]) % 2 = (!b).toNat := by
  rw [nodeAt_append]
  cases b with
  | false => simp
  | true =>
      simp
      omega

theorem getLsbD_ofNat_toNat (b : Bool) (i : ℕ) (hn : 0 < n) :
    (BitVec.ofNat n b.toNat).getLsbD i = (decide (i = 0) && b) := by
  rw [BitVec.getLsbD_ofNat]
  cases i with
  | zero => cases b <;> simp [hn]
  | succ i => cases b <;> simp [Nat.testBit_succ]

/-- A bit shifted to place 30 or below leaves the sign of an `int` clear. -/
theorem getLsbD_signExtend_shift {p : ℕ} (hsign : p < 31) (hp : p < n) (b : Bool) (i : ℕ) :
    ((BitVec.ofNat 32 b.toNat <<< p).signExtend n).getLsbD i = (decide (i = p) && b) := by
  have hbit : ∀ j, (BitVec.ofNat 32 b.toNat <<< p).getLsbD j = (decide (j = p) && b) := by
    intro j
    rw [BitVec.getLsbD_shiftLeft, getLsbD_ofNat_toNat b _ (by decide)]
    rcases Nat.lt_trichotomy j p with hlt | rfl | hgt
    · simp [hlt, hlt.ne]
    · simp [show j < 32 by omega]
    · simp [hgt.ne', show j - p ≠ 0 by omega]
  rw [BitVec.getLsbD_signExtend, BitVec.msb_eq_getLsbD_last, hbit, hbit]
  by_cases hi : i = p
  · simp [hi, hp, show p < 32 by omega]
  · simp [hi, show ¬31 = p by omega]

theorem getLsbD_set (bits : BitVec n) {p : ℕ} (hsign : p < 31) (hp : p < n) (b : Bool) (i : ℕ) :
    ((bits &&& ~~~(1#32 <<< p).signExtend n) |||
      (BitVec.ofNat 32 b.toNat <<< p).signExtend n).getLsbD i =
      if i = p then b else bits.getLsbD i := by
  have hmask := getLsbD_signExtend_shift hsign hp true i
  rw [Bool.toNat_true] at hmask
  rw [BitVec.getLsbD_or, BitVec.getLsbD_and, BitVec.getLsbD_not, hmask,
    getLsbD_signExtend_shift hsign hp]
  by_cases hi : i < n
  · by_cases hip : i = p <;> simp [hi, hip]
  · have hne : i ≠ p := by omega
    simp [hi, hne, BitVec.getLsbD_of_ge bits i (by omega)]

/-- The climb from a node turns the bits of its path. -/
theorem treeBits_plruClimb {fuel : ℕ} (bits : BitVec n) (hfuel : nodeAt 0 path ≤ fuel)
    (hlength : path.length ≤ k) (hk : k ≤ 5) (hn : 2 ^ k - 1 ≤ n) :
    (plruClimb fuel (nodeAt 0 path) bits).map treeBits = some (touch path (treeBits bits)) := by
  induction path using List.reverseRecOn generalizing fuel bits with
  | nil =>
      cases fuel with
      | zero => rfl
      | succ fuel => rfl
  | append_singleton path b ih =>
      rw [List.length_append, List.length_singleton] at hlength
      have happend := nodeAt_append 0 path b
      have hb : b.toNat ≤ 1 := Bool.toNat_le b
      obtain ⟨fuel, rfl⟩ : ∃ m, fuel = m + 1 := ⟨fuel - 1, by omega⟩
      have hparent : (nodeAt 0 (path ++ [b]) - 1) / 2 = nodeAt 0 path := by omega
      have hbound : nodeAt 0 path < n ∧ nodeAt 0 path < 31 := by
        have hnode := (nodeAt_root_bounds path).2
        have hpow : 2 ^ (path.length + 1) ≤ 2 ^ k := Nat.pow_le_pow_right (by omega) hlength
        have hpow' : 2 ^ k ≤ 2 ^ 5 := Nat.pow_le_pow_right (by omega) hk
        omega
      unfold plruClimb
      rw [if_pos (by omega)]
      dsimp only
      rw [hparent]
      simp only [shiftInt, if_pos (show nodeAt 0 path < 32 by omega), Option.bind_eq_bind,
        Option.bind_some]
      rw [ih _ (by omega) (by omega), touch_append]
      congr 2
      funext q
      unfold treeBits
      rw [nodeAt_append_mod_two, getLsbD_set _ hbound.2 hbound.1]
      by_cases hq : q = path
      · rw [hq, if_pos rfl, Function.update_self]
      · rw [if_neg fun heq => hq (nodeAt_root_injective heq), Function.update_of_ne hq]

theorem treeBits_plruUpdate (bits : BitVec n) {way : ℕ} (hway : way < 2 ^ k) (hk : k ≤ 5)
    (hn : 2 ^ k - 1 ≤ n) :
    (plruUpdate (2 ^ k) bits way).map treeBits = some (touch (leafPath k way) (treeBits bits)) := by
  have hfuel : nodeAt 0 (leafPath k way) ≤ nodeAt 0 (leafPath k way) := Nat.le_refl _
  have hclimb := treeBits_plruClimb bits hfuel (leafPath_length k way).le hk hn
  rwa [nodeAt_leafPath hway] at hclimb

theorem treeBits_foldlM (bits : BitVec n) {touched : List ℕ} (hways : ∀ way ∈ touched, way < 2 ^ k)
    (hk : k ≤ 5) (hn : 2 ^ k - 1 ≤ n) :
    (touched.foldlM (plruUpdate (2 ^ k)) bits).map treeBits =
      some ((touched.map (leafPath k)).foldl (fun bits p => touch p bits) (treeBits bits)) := by
  induction touched generalizing bits with
  | nil => rfl
  | cons way touched ih =>
      obtain ⟨next, hnext, htree⟩ := Option.map_eq_some_iff.mp
        (treeBits_plruUpdate bits (hways way List.mem_cons_self) hk hn)
      rw [List.foldlM_cons, hnext, Option.bind_eq_bind, Option.bind_some,
        ih next fun w hw => hways w (List.mem_cons_of_mem _ hw), htree, List.map_cons,
        List.foldl_cons]

/-- The descent from a node follows the bits. -/
theorem plruDescend_eq (bits : BitVec n) {fuel depth : ℕ} {u : List Bool}
    (hdepth : u.length + depth = k) (hfuel : depth ≤ fuel) :
    plruDescend (2 ^ k) bits fuel (nodeAt 0 u) =
      nodeAt 0 (u ++ victim depth ((treeBits bits).below u)) := by
  induction depth generalizing fuel u with
  | zero =>
      have hleaf := (nodeAt_root_bounds u).1
      rw [Nat.add_zero] at hdepth
      rw [victim, List.append_nil]
      cases fuel with
      | zero => rfl
      | succ fuel =>
          unfold plruDescend
          rw [if_neg]
          rw [hdepth] at hleaf
          omega
  | succ depth ih =>
      obtain ⟨fuel, rfl⟩ : ∃ m, fuel = m + 1 := ⟨fuel - 1, by omega⟩
      have hinner := (nodeAt_root_bounds u).2
      have hpow : 2 ^ (u.length + 1) ≤ 2 ^ k := Nat.pow_le_pow_right (by omega) (by omega)
      have hbit : (treeBits bits).below u [] = bits.getLsbD (nodeAt 0 u) := by
        unfold Bits.below treeBits
        rw [List.append_nil]
      have hbelow : ((treeBits bits).below u).below [bits.getLsbD (nodeAt 0 u)] =
          (treeBits bits).below (u ++ [bits.getLsbD (nodeAt 0 u)]) := by
        funext q
        unfold Bits.below
        rw [List.append_assoc]
      unfold plruDescend
      rw [if_pos (by omega), ← nodeAt_append, ih (by simp; omega) (by omega), victim, hbit, hbelow,
        List.append_assoc, List.singleton_append]

theorem nodeAt_victim (bits : BitVec n) :
    nodeAt 0 (victim k (treeBits bits)) = 2 ^ k - 1 + plruVictim (2 ^ k) bits := by
  have hdepth : ([] : List Bool).length + k = k := Nat.zero_add k
  have hdescend := plruDescend_eq bits hdepth (Nat.lt_two_pow_self (n := k)).le
  rw [List.nil_append, Bits.below_nil] at hdescend
  have hleaf := (nodeAt_root_bounds (victim k (treeBits bits))).1
  rw [victim_length] at hleaf
  unfold plruVictim
  change _ = 2 ^ k - 1 + (plruDescend (2 ^ k) bits (2 ^ k) (nodeAt 0 []) - (2 ^ k - 1))
  rw [hdescend]
  omega

/-- The updates are defined, and the victim after them is a way of the set that none
of the last `k` updates touched. -/
def ProtectsRecent (k : ℕ) (bits : BitVec n) (touched : List ℕ) : Prop :=
  ∃ final, touched.foldlM (plruUpdate (2 ^ k)) bits = some final ∧
    plruVictim (2 ^ k) final < 2 ^ k ∧
      plruVictim (2 ^ k) final ∉ touched.drop (touched.length - k)

theorem leafPath_plruVictim (bits : BitVec n) :
    leafPath k (plruVictim (2 ^ k) bits) = victim k (treeBits bits) := by
  refine nodeAt_root_injective ?_
  rw [nodeAt_leafPath (plruVictim_lt (Nat.two_pow_pos k) bits), nodeAt_victim]

theorem protectsRecent_of_le (bits : BitVec n) {touched : List ℕ} (hn : 2 ^ k - 1 ≤ n)
    (hways : ∀ way ∈ touched, way < 2 ^ k) (hk : k ≤ 5) : ProtectsRecent k bits touched := by
  obtain ⟨final, hfinal, htree⟩ := Option.map_eq_some_iff.mp (treeBits_foldlM bits hways hk hn)
  refine ⟨final, hfinal, plruVictim_lt (Nat.two_pow_pos k) _, fun hmem => ?_⟩
  have hrecent := victim_not_mem k (touched.map (leafPath k)) (treeBits bits)
  rw [← htree, List.length_map, ← List.map_drop] at hrecent
  exact hrecent (List.mem_map.mpr ⟨_, hmem, leafPath_plruVictim final⟩)

/-! With 64 ways the leaves of ways 0 and 1 hang below node 31, whose shift makes a
negative `int`. All other leaves hang below nodes whose shift is undefined. -/

theorem plruUpdate_eq_none {ways way : ℕ} (bits : BitVec n) (hnode : 64 < ways - 1 + way) :
    plruUpdate ways bits way = none := by
  obtain ⟨fuel, hfuel⟩ : ∃ m, ways - 1 + way = m + 1 := ⟨ways - 1 + way - 1, by omega⟩
  have hparent : ¬(fuel + 1 - 1) / 2 < 32 := by omega
  unfold plruUpdate
  simp only [hfuel, plruClimb, shiftInt, if_neg hparent, if_pos (Nat.succ_pos fuel),
    Option.bind_eq_bind, Option.bind_none]

theorem node_le_of_foldlM {ways : ℕ} {bits final : BitVec n} {touched : List ℕ}
    (h : touched.foldlM (plruUpdate ways) bits = some final) :
    ∀ way ∈ touched, ways - 1 + way ≤ 64 := by
  induction touched generalizing bits with
  | nil => simp
  | cons way touched ih =>
      rw [List.foldlM_cons, Option.bind_eq_bind, Option.bind_eq_some_iff] at h
      obtain ⟨next, hnext, hrest⟩ := h
      have hway : ways - 1 + way ≤ 64 := by
        by_contra hlt
        rw [plruUpdate_eq_none bits (by omega)] at hnext
        cases hnext
      exact List.forall_mem_cons.mpr ⟨hway, ih hrest⟩

/-- From node 31 on the climb is that of a set with 32 ways, and ends in the root. -/
theorem plruUpdate_left (bits : BitVec n) {way : ℕ} (hway : way ≤ 1) (hn : 2 ^ 5 - 1 ≤ n) :
    ∃ next, plruUpdate (2 ^ 6) bits way = some next ∧ treeBits next [] = true := by
  have hnode : nodeAt 0 (leafPath 5 0) = 31 := by decide
  have hparent : (62 + way + 1 - 1) / 2 = 31 := by omega
  have hfuel : nodeAt 0 (leafPath 5 0) ≤ 62 + way := by omega
  have hunfold : plruUpdate (2 ^ 6) bits way = plruClimb (62 + way) (nodeAt 0 (leafPath 5 0))
      ((bits &&& ~~~(1#32 <<< 31).signExtend n) |||
        (BitVec.ofNat 32 ((62 + way + 1) % 2) <<< 31).signExtend n) := by
    unfold plruUpdate
    simp only [show 2 ^ 6 - 1 + way = 62 + way + 1 by omega, plruClimb, hparent, hnode, shiftInt,
      if_pos (Nat.succ_pos (62 + way)), if_pos (show 31 < 32 by decide), Option.bind_eq_bind,
      Option.bind_some]
  obtain ⟨next, hnext, htree⟩ := Option.map_eq_some_iff.mp
    (treeBits_plruClimb _ hfuel (leafPath_length 5 0).le (Nat.le_refl 5) hn)
  refine ⟨next, hunfold.trans hnext, ?_⟩
  rw [htree]
  rfl

theorem foldlM_left (bits : BitVec n) {touched : List ℕ} (hways : ∀ way ∈ touched, way ≤ 1)
    (hn : 2 ^ 5 - 1 ≤ n) :
    ∃ final, touched.foldlM (plruUpdate (2 ^ 6)) bits = some final ∧
      (touched ≠ [] → treeBits final [] = true) := by
  induction touched using List.reverseRecOn with
  | nil => exact ⟨bits, rfl, fun hne => absurd rfl hne⟩
  | append_singleton touched way ih =>
      obtain ⟨hinit, hlast⟩ := List.forall_mem_append.mp hways
      obtain ⟨mid, hmid, -⟩ := ih hinit
      obtain ⟨final, hfinal, hroot⟩ := plruUpdate_left mid (hlast way (by simp)) hn
      refine ⟨final, ?_, fun _ => hroot⟩
      rw [List.foldlM_append, hmid, Option.bind_eq_bind, Option.bind_some, List.foldlM_cons, hfinal]
      rfl

theorem protectsRecent_left (bits : BitVec n) {touched : List ℕ} (hn : 2 ^ 5 - 1 ≤ n)
    (hne : touched ≠ []) (hways : ∀ way ∈ touched, way ≤ 1) : ProtectsRecent 6 bits touched := by
  obtain ⟨final, hfinal, hroot⟩ := foldlM_left bits hways hn
  refine ⟨final, hfinal, plruVictim_lt (by decide) _, fun hmem => ?_⟩
  have hvictim := hways _ (List.mem_of_mem_drop hmem)
  -- the root leads to the right, and both ways are on the left
  have hpath := congrArg List.head? (leafPath_plruVictim (k := 6) final)
  rw [victim, hroot hne] at hpath
  generalize plruVictim (2 ^ 6) final = way at hvictim hpath
  obtain rfl | rfl : way = 0 ∨ way = 1 := by omega
  · exact absurd hpath (by simp [leafPath])
  · exact absurd hpath (by simp [leafPath])

/-- The update stays within the `int` it shifts up to 32 ways, and with 64 ways for
the first two ways only. -/
theorem plruVictim_not_recent_iff (bits : BitVec n) (touched : List ℕ) (hk : 1 ≤ k)
    (hn : 2 ^ k - 1 ≤ n) (hlength : k ≤ touched.length) (hways : ∀ way ∈ touched, way < 2 ^ k) :
    ProtectsRecent k bits touched ↔ k ≤ 5 ∨ k = 6 ∧ ∀ way ∈ touched, way ≤ 1 := by
  have hne : touched ≠ [] := List.ne_nil_of_length_pos (by omega)
  constructor
  · rintro ⟨final, hfinal, -⟩
    by_contra hwide
    have hnode := node_le_of_foldlM hfinal
    have hk' : 2 ^ 6 ≤ 2 ^ k := Nat.pow_le_pow_right (by decide) (by omega)
    obtain ⟨way, hway⟩ := List.exists_mem_of_ne_nil touched hne
    have hsix : k = 6 := by
      by_contra hseven
      have hpow : 2 ^ 7 ≤ 2 ^ k := Nat.pow_le_pow_right (by decide) (by omega)
      have hfirst := hnode way hway
      omega
    refine hwide (.inr ⟨hsix, fun w hw => ?_⟩)
    have hw' := hnode w hw
    omega
  · rintro (hsmall | ⟨rfl, hleft⟩)
    · exact protectsRecent_of_le bits hn hways hsmall
    · exact protectsRecent_left bits (by omega) hne hleft

theorem plruVictim_not_recent_tlb : ProtectsRecent 2 0#8 [3, 0, 2] :=
  (plruVictim_not_recent_iff 0#8 [3, 0, 2] (by decide) (by decide) (by decide) (by decide)).mpr
    (.inl (by decide))

theorem plruVictim_not_recent_wide : ¬ProtectsRecent 6 0#64 [63, 60, 56, 48, 32, 0] := by
  rintro ⟨final, hfinal, -⟩
  rw [List.foldlM_cons, plruUpdate_eq_none _ (by decide)] at hfinal
  cases hfinal

end Ways

end CacheSimulator
