import CacheSimulator.Contract.WorkingSet
import CacheSimulator.Processes.Runs
import CacheSimulator.Refinement.DataFaults

/-!
# The contents of the pages

The bytes of a mapped page are those of its frame, with what has been stored to them.
Memory keeps its bytes as long as the mapped pages fit in L2, and a frame that is handed
out has not been stored to, so a new page begins with the zeroes that `alloc_frame`
leaves in memory.
-/

namespace CacheSimulator

open Mesi

/-! ## Bytes -/

/-- Byte `n` of memory, with what has been stored to it. -/
def Sim.flatByte (s : Sim) (n : ℕ) : Byte := flatMemory s.mem.data s.history n

theorem flatMemory_congr {memory memory' : ℕ → Byte} {n : ℕ} (h : memory' n = memory n)
    (history : List MemOp) : flatMemory memory' history n = flatMemory memory history n := by
  unfold flatMemory
  induction history generalizing memory memory' with
  | nil => exact h
  | cons op history ih =>
      rw [List.foldl_cons, List.foldl_cons]
      refine ih ?_
      cases op with
      | fill => exact h
      | store address data =>
          dsimp only
          rw [h]

theorem flatMemory_store (memory : ℕ → Byte) (history : List MemOp) (address : Addr)
    (data : List Byte) (n : ℕ) : flatMemory memory (history ++ [.store address data]) n =
      if address.toNat ≤ n then (data[n - address.toNat]?).getD (flatMemory memory history n)
      else flatMemory memory history n := by
  simp [flatMemory]

theorem flatMemory_eq_of_lines {memory memory' : ℕ → Byte} {history history' : List MemOp}
    {n : ℕ} (hlt : n < 2 ^ 64)
    (h : flatLines memory' history' (lineOfByte n hlt) =
      flatLines memory history (lineOfByte n hlt)) :
    flatMemory memory' history' n = flatMemory memory history n := by
  have hbyte := congrFun h ⟨n % 64, Nat.mod_lt _ (by decide)⟩
  unfold flatLines lineOfByte at hbyte
  dsimp only at hbyte
  rwa [Nat.div_add_mod] at hbyte

namespace Sim

variable {pages pages' : Finset ℕ} {s s' s₀ : Sim} {a : LineNo}

theorem Fits.flatLines_eq (h : s.Fits pages s₀) (history : List MemOp) :
    flatLines s.mem.data history = flatLines s₀.mem.data history := by
  funext a j
  exact flatMemory_congr (congrFun (h.mem a) j) _

/-- The state may be taken for the first one, whose memory it has. -/
theorem Fits.anchor (h : s.Fits pages s₀) : s.Fits pages s := by
  have hsystem : s.system s.mem.data = s.system s₀.mem.data :=
    congrArg (Mesi.System.mk (fun a => (s.rep a).view) (lineHistory s.history))
      (h.flatLines_eq s.history)
  exact ⟨h.inv, h.within, hsystem ▸ h.settled, fun a => rfl⟩

/-- Only bytes of the pages have been stored to. -/
def StoredWithin (s : Sim) (pages : Finset ℕ) : Prop :=
  ∀ a, pageOf a ∉ pages → ∀ memory,
    flatLines memory s.history a = fun j : Fin 64 => memory (64 * a + j)

theorem StoredWithin.flatByte (h : s.StoredWithin pages) {n : ℕ} (hlt : n < 2 ^ 64)
    (hn : n / 4096 ∉ pages) : s.flatByte n = s.mem.data n := by
  have hpage : pageOf (lineOfByte n hlt) = n / 4096 := Nat.div_div_eq_div_mul n 64 64
  have hline := h (lineOfByte n hlt) (hpage ▸ hn) s.mem.data
  have hbyte := congrFun hline ⟨n % 64, Nat.mod_lt _ (by decide)⟩
  unfold flatLines lineOfByte at hbyte
  dsimp only at hbyte
  rwa [Nat.div_add_mod] at hbyte

theorem Fits.afterMemory (h : s.Fits pages s) (hstored : s.StoredWithin pages)
    (hsame : SameButMemory s s') (hkept : ∀ a, pageOf a ∈ pages → s'.memLine a = s.memLine a)
    (hsub : pages ⊆ pages') : s'.Fits pages' s' := by
  have hl2 : ∀ a, (s'.rep a).l2 = (s.rep a).l2 := fun a => by rw [hsame.rep]
  have hflat : ∀ a, pageOf a ∈ pages →
      flatLines s'.mem.data s'.history a = flatLines s.mem.data s.history a := by
    intro a ha
    rw [hsame.history]
    funext j
    exact flatMemory_congr (congrFun (hkept a ha) j) _
  refine ⟨hsame.inv h.inv, ⟨fun a ha => hsub (h.within.resident a (hl2 a ▸ ha)), fun c i => ?_⟩,
    ⟨fun a ha => ?_, fun a ha => ?_⟩, fun a => rfl⟩
  · rw [hsame.streams]
    exact fun hconf => hsub (h.within.streams c i hconf)
  · rw [system_lines, LineRep.view_l2, hl2] at ha
    rw [system_lines, system_flat, hsame.rep]
    by_cases hpage : pageOf a ∈ pages
    · have hmem := h.settled.absent a (by rw [system_lines, LineRep.view_l2]; exact ha)
      rw [system_lines, system_flat, ← hflat a hpage] at hmem
      exact (hkept a hpage).trans hmem
    · rw [hsame.history]
      exact (hstored a hpage s'.mem.data).symm
  · rw [system_lines, view_l2_ne_none, hl2] at ha
    have hpresent := h.settled.present a (by rw [system_lines, view_l2_ne_none]; exact ha)
    rw [system_flat] at hpresent ⊢
    rw [hflat a (h.within.resident a ha), ← hpresent]
    change lineHistory s'.history a = lineHistory s.history a
    rw [hsame.history]

/-! ## What calls do to the bytes -/

variable {physicalAddress : Addr} {size : ℕ} {data : List Byte} {forgets : Prop}
  {r : Sim × Option (List Byte)}

theorem StoredWithin.of_flat (h : s.StoredWithin pages)
    (hflat : ∀ a, pageOf a ∉ pages → ∀ memory, flatLines memory s'.history a =
      flatLines memory s.history a) : s'.StoredWithin pages :=
  fun a ha memory => (hflat a ha memory).trans (h a ha memory)

theorem Reads.storedWithin (h : Reads s physicalAddress size forgets r)
    (hw : s.StoredWithin pages) :
    r.1.StoredWithin pages :=
  hw.of_flat fun a _ memory => congrFun (h.performs.flat memory) a

theorem Writes.storedWithin (h : Writes s physicalAddress data r)
    (hpage : pageOf (lineNo physicalAddress) ∈ pages) (hw : s.StoredWithin pages) :
    r.1.StoredWithin pages := by
  refine hw.of_flat fun a ha memory => ?_
  have hne : a ≠ lineNo physicalAddress := by
    rintro rfl
    exact ha hpage
  have hflat := congrFun (h.performs.flat memory) a
  dsimp only at hflat
  rwa [Function.update_of_ne hne] at hflat

theorem Reads.flatByte (h : Reads s physicalAddress size forgets r) (hfits : r.1.Fits pages s)
    {n : ℕ} (hlt : n < 2 ^ 64) : r.1.flatByte n = s.flatByte n := by
  refine flatMemory_eq_of_lines hlt ?_
  rw [hfits.flatLines_eq]
  exact congrFun (h.performs.flat s.mem.data) _

theorem Writes.flatByte (h : Writes s physicalAddress data r) (hfits : r.1.Fits pages s)
    {n : ℕ} (hlt : n < 2 ^ 64) : r.1.flatByte n =
      if physicalAddress.toNat ≤ n then (data[n - physicalAddress.toNat]?).getD (s.flatByte n)
      else s.flatByte n := by
  unfold Sim.flatByte
  rw [← flatMemory_store]
  refine flatMemory_eq_of_lines hlt ?_
  rw [hfits.flatLines_eq, flatLines_store _ _ h.fits]
  exact congrFun (h.performs.flat s.mem.data) _

end Sim

end CacheSimulator
