import CacheSimulator.Types

/-!
# Tree pseudo-LRU

`plru.h`. The replacement bits of a set with `ways` ways form a complete binary
tree stored in heap order: the inner nodes are `0 .. ways - 2`, way `w` is the
leaf `ways - 1 + w`, and the bit of an inner node is the low bit of the number
of the child last used. `plruUpdate` climbs from the leaf of a way to the root,
`plruVictim` descends from the root to a leaf.

The update shifts a 32-bit `int` and converts the result to the type of the bits,
whatever its width: it has no defined behaviour where a shift count reaches 32.
-/

namespace CacheSimulator

/-- `x << count` of an `int`. -/
def shiftInt (x : BitVec 32) (count : ℕ) : Option (BitVec 32) :=
  if count < 32 then some (x <<< count) else none

/-- The `while (node > 0)` loop of `plru_update`. The node number at least
halves on each round, so `fuel = node` rounds always reach the root. The
conversion of an `int` to a wider type extends its sign. -/
def plruClimb {n : ℕ} : ℕ → ℕ → BitVec n → Option (BitVec n)
  | 0, _, bits => some bits
  | fuel + 1, node, bits =>
      if 0 < node then do
        let parent := (node - 1) / 2
        let mask := (← shiftInt 1#32 parent).signExtend n
        let bit := (← shiftInt (BitVec.ofNat 32 (node % 2)) parent).signExtend n
        plruClimb fuel parent ((bits &&& ~~~mask) ||| bit)
      else some bits

def plruUpdate {n : ℕ} (ways : ℕ) (bits : BitVec n) (way : ℕ) : Option (BitVec n) :=
  let node := (ways - 1) + way
  plruClimb node node bits

/-- The `while (node < WAYS - 1)` loop of `plru_victim`. The node number grows
on each round, so `fuel = ways` rounds always reach a leaf. -/
def plruDescend {n : ℕ} (ways : ℕ) (bits : BitVec n) : ℕ → ℕ → ℕ
  | 0, node => node
  | fuel + 1, node =>
      if node < ways - 1 then
        plruDescend ways bits fuel (2 * node + 1 + (bits.getLsbD node).toNat)
      else node

def plruVictim {n : ℕ} (ways : ℕ) (bits : BitVec n) : ℕ :=
  plruDescend ways bits ways 0 - (ways - 1)

theorem plruClimb_isSome {n : ℕ} {fuel node : ℕ} (bits : BitVec n) (hnode : node ≤ 64) :
    (plruClimb fuel node bits).isSome := by
  induction fuel generalizing node bits with
  | zero => rfl
  | succ fuel ih =>
      unfold plruClimb
      split
      · have hparent : (node - 1) / 2 < 32 := by omega
        simp only [shiftInt, if_pos hparent, Option.bind_eq_bind, Option.bind_some]
        exact ih _ (by omega)
      · rfl

/-- `plru_update` of a way of a set with at most 32 ways, which is always defined
(`plruUpdate_eq_some`). -/
def plruUpdateWay {n : ℕ} (ways : ℕ) (bits : BitVec n) (way : Fin ways) : BitVec n :=
  (plruUpdate ways bits way).getD bits

theorem plruUpdate_eq_some {n : ℕ} {ways : ℕ} (bits : BitVec n) (way : Fin ways)
    (hways : ways ≤ 32) : plruUpdate ways bits way = some (plruUpdateWay ways bits way) := by
  have hway := way.isLt
  have hsome : (plruClimb (ways - 1 + way) (ways - 1 + way) bits).isSome :=
    plruClimb_isSome bits (by omega)
  obtain ⟨next, hnext⟩ := Option.isSome_iff_exists.mp hsome
  unfold plruUpdateWay
  rw [show plruUpdate ways bits way = some next from hnext, Option.getD_some]

theorem plruDescend_mem_leaves {n : ℕ} (ways : ℕ) (bits : BitVec n) :
    ∀ fuel node, node ≤ 2 * (ways - 1) → ways - 1 ≤ fuel + node →
      ways - 1 ≤ plruDescend ways bits fuel node ∧
        plruDescend ways bits fuel node ≤ 2 * (ways - 1) := by
  intro fuel
  induction fuel with
  | zero =>
      intro node hle hfuel
      rw [Nat.zero_add] at hfuel
      exact ⟨hfuel, hle⟩
  | succ fuel ih =>
      intro node hle hfuel
      unfold plruDescend
      split
      · rename_i hlt
        have hbit : (bits.getLsbD node).toNat ≤ 1 := Bool.toNat_le _
        exact ih _ (by omega) (by omega)
      · exact ⟨by omega, hle⟩

theorem plruVictim_lt {n : ℕ} {ways : ℕ} (hways : 0 < ways) (bits : BitVec n) :
    plruVictim ways bits < ways := by
  have h := plruDescend_mem_leaves ways bits ways 0 (by omega) (by omega)
  unfold plruVictim
  omega

/-- `plru_victim` as a way number of a set with `ways` ways. -/
def plruVictimWay {n : ℕ} (ways : ℕ) [h : NeZero ways] (bits : BitVec n) : Fin ways :=
  ⟨plruVictim ways bits, plruVictim_lt (Nat.pos_of_ne_zero h.out) bits⟩

end CacheSimulator
