import CacheSimulator.Library.LittleEndian
import CacheSimulator.Os

/-!
# Entries in memory

A page table entry that is stored is read back, and an entry whose bytes are not
written stays as it is.
-/

namespace CacheSimulator

namespace Memory

variable {mem mem' : Memory} {pa : Addr} {index : Fin 512} {entry : PageTableEntry}

theorem word_eq_decode (mem : Memory) (start : ℕ) :
    mem.word start = LittleEndian.decode 64 ((List.range 8).map fun j => mem.data (start + j)) := by
  rw [LittleEndian.decode_eq_foldr, List.foldr_map]
  rfl

theorem word_congr {start : ℕ}
    (h : ∀ n, start ≤ n → n < start + 8 → mem'.data n = mem.data n) :
    mem'.word start = mem.word start := by
  rw [word_eq_decode, word_eq_decode]
  congr 1
  apply List.map_congr_left
  intro j hj
  rw [List.mem_range] at hj
  exact h _ (by omega) (by omega)

theorem pageTableAt_congr
    (h : ∀ n, pa.toNat + 16 * index ≤ n → n < pa.toNat + 16 * index + 16 →
      mem'.data n = mem.data n) : mem'.pageTableAt pa index = mem.pageTableAt pa index := by
  unfold pageTableAt
  dsimp only [pageTableEntrySize]
  rw [word_congr fun n hn hlt => h n hn (by omega), h _ (by omega) (by omega),
    h _ (by omega) (by omega), h _ (by omega) (by omega)]

theorem data_storeEntry {start n : ℕ} (h : ¬(start ≤ n ∧ n < start + 16)) :
    (mem.storeEntry start entry).data n = mem.data n := by
  unfold storeEntry
  dsimp only
  rw [if_neg (by omega), if_neg (by omega), if_neg (by omega), if_neg (by omega)]

theorem word_storeEntry (mem : Memory) (start : ℕ) (entry : PageTableEntry) :
    (mem.storeEntry start entry).word start = entry.physicalAddress := by
  have hbytes : ((List.range 8).map fun j => (mem.storeEntry start entry).data (start + j)) =
      LittleEndian.encode 8 entry.physicalAddress := by
    rw [LittleEndian.encode_eq_map]
    apply List.map_congr_left
    intro j hj
    rw [List.mem_range] at hj
    unfold storeEntry
    dsimp only
    rw [if_pos (by omega), Nat.add_sub_cancel_left]
  rw [word_eq_decode, hbytes]
  exact LittleEndian.decode_encode_self (n := 8) entry.physicalAddress

theorem flag_ne_zero (flag : Bool) : ((BitVec.ofBool flag).setWidth 8 != (0 : Byte)) = flag := by
  cases flag <;> decide

theorem pageTableAt_storeEntry (mem : Memory) (pa : Addr) (index : Fin 512)
    (entry : PageTableEntry) :
    (mem.storeEntry (pa.toNat + pageTableEntrySize * index) entry).pageTableAt pa index =
      entry := by
  unfold pageTableAt
  dsimp only
  rw [word_storeEntry]
  generalize pa.toNat + pageTableEntrySize * index = start
  unfold storeEntry
  dsimp only
  rw [if_neg (by omega), if_pos rfl, if_neg (by omega), if_neg (by omega), if_pos rfl,
    if_neg (by omega), if_neg (by omega), if_neg (by omega), if_pos rfl, flag_ne_zero, flag_ne_zero,
    flag_ne_zero]

theorem not_present_of_zero
    (h : mem.data (pa.toNat + pageTableEntrySize * index + 8) = 0) :
    (mem.pageTableAt pa index).present = false := by
  unfold pageTableAt
  dsimp only
  rw [h]
  rfl

end Memory

end CacheSimulator
