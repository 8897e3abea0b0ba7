import CacheSimulator.Library.RadixTree
import CacheSimulator.Paging.Entries
import CacheSimulator.Paging.Frames

/-!
# The page tables as a radix tree

A table has 512 entries of 16 bytes, and its frame has room for 256 of them. As
long as only these are used, the tables of a process are a radix tree whose
tables and data frames are distinct frames.
-/

namespace CacheSimulator

open RadixTree

/-- The slots a walk of `virtualAddress` uses from `level` down. -/
def slotPath (virtualAddress : Addr) : ℕ → List (Fin 512)
  | 0 => [pageIndex virtualAddress 0]
  | level + 1 => pageIndex virtualAddress (level + 1) :: slotPath virtualAddress level

theorem slotPath_length (virtualAddress : Addr) (level : ℕ) :
    (slotPath virtualAddress level).length = level + 1 := by
  induction level with
  | zero => rfl
  | succ level ih => rw [slotPath, List.length_cons, ih]

theorem slotPath_ne_nil (virtualAddress : Addr) (level : ℕ) :
    slotPath virtualAddress level ≠ [] := by
  rw [← List.length_pos_iff, slotPath_length]
  exact Nat.succ_pos level

def pagePath (virtualAddress : Addr) : List (Fin 512) := slotPath virtualAddress 3

/-- The slots below the root table lie in the frames of their tables. -/
def InFrames (path : List (Fin 512)) : Prop := ∀ i ∈ path.tail, i.val < 256

theorem InFrames.of_append {u v : List (Fin 512)} (h : InFrames (u ++ v)) : InFrames u := by
  intro i hi
  cases u with
  | nil => cases hi
  | cons j u => exact h i (List.mem_append_left _ hi)

/-- The frames of the tables other than the root. -/
def tableFrames (node : List (Fin 512) → Option TablePtr) : Set Addr :=
  {frame | ∃ u, node u = some (.inMemory frame)}

theorem tableFrames_update {node : List (Fin 512) → Option TablePtr} {path : List (Fin 512)}
    (hnone : node path = none) (frame : Addr) :
    tableFrames (Function.update node path (some (.inMemory frame))) =
      insert frame (tableFrames node) := by
  ext table
  constructor
  · rintro ⟨v, hv⟩
    by_cases hvp : v = path
    · rw [hvp, Function.update_self, Option.some.injEq, TablePtr.inMemory.injEq] at hv
      exact .inl hv.symm
    · rw [Function.update_of_ne hvp] at hv
      exact .inr ⟨v, hv⟩
  · rintro (rfl | ⟨v, hv⟩)
    · exact ⟨path, Function.update_self _ _ _⟩
    · refine ⟨v, ?_⟩
      rw [Function.update_of_ne, hv]
      rintro rfl
      rw [hnone] at hv
      cases hv

namespace Os

variable {s s' : Os} {node : List (Fin 512) → Option TablePtr}
  {mapped : List (Fin 512) → Option Addr} {data data' : Set Addr} {u : List (Fin 512)}
  {p : TablePtr} {i : Fin 512} {frame pa : Addr} {base n : ℕ}

/-- The page tables of the process, slot by slot. -/
def tables (s : Os) : Tables TablePtr (Fin 512) Addr where
  child p i :=
    if (s.entry p i).present then some (.inMemory (s.entry p i).physicalAddress) else none
  leaf p i := if (s.entry p i).present then some (s.entry p i).physicalAddress else none

/-- The tables of the process are those at `node`, they map the pages `mapped`,
and `data` are other frames in use. -/
structure Maps (s : Os) (base : ℕ) (node : List (Fin 512) → Option TablePtr)
    (mapped : List (Fin 512) → Option Addr) (data : Set Addr) : Prop where
  tree : Represents s.tables 4 InFrames .root node mapped
  owns : s.fa.Owns base s.mem.size (data ∪ tableFrames node)
  disjoint : ∀ frame ∈ tableFrames node, frame ∉ data
  fits : ∀ frame ∈ tableFrames node, frame.toNat + pageTableSize ≤ s.mem.size.toNat

namespace Maps

theorem aligned (h : s.Maps base node mapped data) (hframe : frame ∈ data ∪ tableFrames node) :
    frame.toNat % 4096 = 0 := (h.owns.inUse frame hframe).1.aligned

theorem slot_lt (h : s.Maps base node mapped data) (hu : node u = some (.inMemory frame))
    (hi : InFrames (u ++ [i])) : i.val < 256 := by
  cases u with
  | nil =>
      rw [h.tree.root] at hu
      cases hu
  | cons j u => exact hi i (by simp)

theorem inFrame_of_slot (h : s.Maps base node mapped data) (hu : node u = some (.inMemory frame))
    (hi : InFrames (u ++ [i])) (hn : frame.toNat + 16 * i ≤ n)
    (hlt : n < frame.toNat + 16 * i + 16) : InFrame frame n := by
  have := h.slot_lt hu hi
  unfold InFrame
  omega

theorem entryInBounds (h : s.Maps base node mapped data) (hu : node u = some p) :
    s.EntryInBounds p i := by
  cases p with
  | root => exact trivial
  | inMemory frame =>
      have hfits : frame.toNat + 8192 ≤ s.mem.size.toNat := h.fits frame ⟨u, hu⟩
      have hi := i.isLt
      change frame.toNat + 16 * (i : ℕ) + 16 ≤ s.mem.size.toNat
      omega

theorem entry_congr (h : s.Maps base node mapped data) (hroot : s'.proc.pml4 = s.proc.pml4)
    (hbytes : ∀ frame ∈ tableFrames node, ∀ n, InFrame frame n → s'.mem.data n = s.mem.data n)
    (hu : node u = some p) (hi : InFrames (u ++ [i])) : s'.entry p i = s.entry p i := by
  cases p with
  | root => exact congrFun hroot i
  | inMemory frame =>
      exact Memory.pageTableAt_congr fun n hn hlt =>
        hbytes frame ⟨u, hu⟩ n (h.inFrame_of_slot hu hi hn hlt)

theorem transfer (h : s.Maps base node mapped data) (hroot : s'.proc.pml4 = s.proc.pml4)
    (hsize : s'.mem.size = s.mem.size)
    (hbytes : ∀ frame ∈ tableFrames node, ∀ n, InFrame frame n → s'.mem.data n = s.mem.data n)
    (howns : s'.fa.Owns base s.mem.size (data' ∪ tableFrames node))
    (hdisjoint : ∀ frame ∈ tableFrames node, frame ∉ data') : s'.Maps base node mapped data' := by
  refine ⟨h.tree.congr fun hu hi => ?_, hsize ▸ howns, hdisjoint, hsize ▸ h.fits⟩
  unfold tables
  dsimp only
  rw [h.entry_congr hroot hbytes hu hi]
  exact ⟨rfl, rfl⟩

theorem storeByte {byte : Byte} (h : s.Maps base node mapped data) (hframe : frame ∈ data)
    (hn : InFrame frame n) :
    { s with mem := s.mem.storeByte n byte }.Maps base node mapped data := by
  refine h.transfer rfl rfl (fun table htable m hm => ?_) h.owns h.disjoint
  refine Function.update_of_ne ?_ _ _
  rintro rfl
  have heq := FrameAllocator.eq_of_inFrame (h.aligned (.inr htable)) (h.aligned (.inl hframe)) hm hn
  exact h.disjoint table htable (heq ▸ hframe)

/-- A frame that has been allocated is a data frame until it becomes a table. -/
theorem allocFrame_sat (h : s.Maps base node mapped data)
    (hwrap : s.fa.frameTaken 0 + 4096 < 2 ^ 64) :
    (allocFrame s.fa s.mem).Sat
      (fun r => r = (uint64Max, s.fa, s.mem) ∧ s.fa.Exhausted ∨ r.1 ≠ uint64Max ∧
        s.fa.Takes base s.mem (data ∪ tableFrames node) r ∧
          { s with fa := r.2.1, mem := r.2.2 }.Maps base node mapped (insert r.1 data))
      fun _ => False := by
  refine (FrameAllocator.allocFrame_sat h.owns hwrap).imp fun r hr => ?_
  rcases hr with hr | ⟨hne, -, htakes⟩
  · exact .inl hr
  · refine .inr ⟨hne, htakes, h.transfer rfl htakes.zeroes.size (fun frame hframe n hn => ?_) ?_ ?_⟩
    · refine htakes.zeroes.other n fun hn' => htakes.fresh (.inr ?_)
      have haligned := (htakes.owns.inUse r.1 (Set.mem_insert _ _)).1.aligned
      rwa [FrameAllocator.eq_of_inFrame haligned (h.aligned (.inr hframe)) hn' hn]
    · rw [Set.insert_union]
      exact htakes.owns
    · rintro frame hframe (rfl | hdata)
      · exact htakes.fresh (.inr hframe)
      · exact h.disjoint frame hframe hdata

end Maps

/-! ## Storing an entry -/

@[simp] theorem entry_setEntry_self (s : Os) (p : TablePtr) (i : Fin 512) (e : PageTableEntry) :
    (s.setEntry p i e).entry p i = e := by
  cases p with
  | root => exact Function.update_self _ _ _
  | inMemory pa => exact Memory.pageTableAt_storeEntry _ _ _ _

@[simp] theorem size_setEntry (s : Os) (p : TablePtr) (i : Fin 512) (e : PageTableEntry) :
    (s.setEntry p i e).mem.size = s.mem.size := by
  cases p <;> rfl

@[simp] theorem fa_setEntry (s : Os) (p : TablePtr) (i : Fin 512) (e : PageTableEntry) :
    (s.setEntry p i e).fa = s.fa := by
  cases p <;> rfl

namespace Maps

variable {e : PageTableEntry}

theorem data_setEntry (h : s.Maps base node mapped data) (hu : node u = some p)
    (hi : InFrames (u ++ [i]))
    (hn : ∀ frame ∈ tableFrames node, ¬InFrame frame n) :
    (s.setEntry p i e).mem.data n = s.mem.data n := by
  cases p with
  | root => rfl
  | inMemory frame =>
      refine Memory.data_storeEntry fun hslot => hn frame ⟨u, hu⟩ ?_
      exact h.inFrame_of_slot hu hi hslot.1 hslot.2

theorem entry_setEntry_other {v : List (Fin 512)} {q : TablePtr} {j : Fin 512}
    (h : s.Maps base node mapped data) (hu : node u = some p) (hi : InFrames (u ++ [i]))
    (hv : node v = some q) (hj : InFrames (v ++ [j])) (hne : v ++ [j] ≠ u ++ [i]) :
    (s.setEntry p i e).entry q j = s.entry q j := by
  cases p with
  | root =>
      cases q with
      | root =>
          obtain rfl := h.tree.injective hu hv
          refine Function.update_of_ne ?_ _ _
          rintro rfl
          exact hne rfl
      | inMemory frame => rfl
  | inMemory table =>
      cases q with
      | root => rfl
      | inMemory frame =>
          refine Memory.pageTableAt_congr fun n hn hlt => Memory.data_storeEntry fun hslot => ?_
          dsimp only [pageTableEntrySize] at hslot
          have hframe := FrameAllocator.eq_of_inFrame (h.aligned (.inr ⟨v, hv⟩))
            (h.aligned (.inr ⟨u, hu⟩)) (h.inFrame_of_slot hv hj hn hlt)
            (h.inFrame_of_slot hu hi hslot.1 hslot.2)
          subst hframe
          obtain rfl := h.tree.injective hu hv
          have hij : j = i := Fin.ext (by omega)
          exact hne (by rw [hij])

theorem agreeExcept_setEntry (h : s.Maps base node mapped data) (hu : node u = some p)
    (hi : InFrames (u ++ [i])) :
    AgreeExcept s.tables (s.setEntry p i e).tables InFrames node (u ++ [i]) := by
  intro v q j hv hj hne
  unfold tables
  dsimp only
  rw [h.entry_setEntry_other hu hi hv hj hne]
  exact ⟨rfl, rfl⟩

theorem setLeaf (h : s.Maps base node mapped data) (hu : node u = some p)
    (hlength : u.length + 1 = 4)
    (hi : InFrames (u ++ [i])) (he : e.present = true) :
    (s.setEntry p i e).Maps base node (Function.update mapped (u ++ [i]) (some e.physicalAddress))
      data := by
  refine ⟨h.tree.addLeaf hu hlength ?_ (h.agreeExcept_setEntry hu hi), ?_, h.disjoint, ?_⟩
  · unfold tables
    dsimp only
    rw [entry_setEntry_self, if_pos he]
  · rw [fa_setEntry, size_setEntry]
    exact h.owns
  · rw [size_setEntry]
    exact h.fits

/-- A zeroed frame becomes a table. -/
theorem setTable (h : s.Maps base node mapped (insert frame data)) (hframe : frame ∉ data)
    (hzero : ∀ n, InFrame frame n → s.mem.data n = 0)
    (hfits : frame.toNat + pageTableSize ≤ s.mem.size.toNat) (hu : node u = some p)
    (hlength : u.length + 1 < 4) (hi : InFrames (u ++ [i])) (hnone : node (u ++ [i]) = none)
    (he : e.present = true) (hpa : e.physicalAddress = frame) :
    (s.setEntry p i e).Maps base (Function.update node (u ++ [i]) (some (.inMemory frame))) mapped
      data := by
  have hnew : ∀ v, node v ≠ some (.inMemory frame) := fun v hv =>
    h.disjoint frame ⟨v, hv⟩ (Set.mem_insert _ _)
  have hframes := tableFrames_update hnone frame
  refine ⟨h.tree.addTable hu hlength hi hnone hnew ?_ (h.agreeExcept_setEntry hu hi) ?_, ?_, ?_, ?_⟩
  · unfold tables
    dsimp only
    rw [entry_setEntry_self, if_pos he, hpa]
  · intro j hj
    -- the slots in the frame of the new table are still zero
    have hlow : j.val < 256 := hj j (by cases u <;> simp)
    have hbyte : InFrame frame (frame.toNat + pageTableEntrySize * j + 8) := by
      unfold InFrame
      dsimp only [pageTableEntrySize]
      omega
    have hdata : (s.setEntry p i e).mem.data (frame.toNat + pageTableEntrySize * j + 8) = 0 := by
      rw [h.data_setEntry hu hi fun table htable hn => ?_, hzero _ hbyte]
      have heq := FrameAllocator.eq_of_inFrame (h.aligned (.inr htable))
        (h.aligned (.inl (Set.mem_insert _ _))) hn hbyte
      exact h.disjoint table htable (heq ▸ Set.mem_insert _ _)
    have hpresent : ((s.setEntry p i e).entry (.inMemory frame) j).present = false :=
      Memory.not_present_of_zero hdata
    unfold tables
    dsimp only
    rw [hpresent]
    exact ⟨rfl, rfl⟩
  · rw [fa_setEntry, size_setEntry, hframes, Set.union_insert, ← Set.insert_union]
    exact h.owns
  · rw [hframes]
    rintro table (rfl | htable) hdata
    · exact hframe hdata
    · exact h.disjoint table htable (Set.mem_insert_of_mem _ hdata)
  · rw [size_setEntry, hframes]
    rintro table (rfl | htable)
    · exact hfits
    · exact h.fits table htable

end Maps

/-! ## Mapping a page -/

/-- How many tables of the path of `virtualAddress` are missing from `level`
down. -/
def missingFrom (s : Os) (virtualAddress : Addr) : ℕ → TablePtr → ℕ
  | 0, _ => 0
  | level + 1, table =>
      match s.tables.child table (pageIndex virtualAddress (level + 1)) with
      | some next => s.missingFrom virtualAddress level next
      | none => level + 1

/-- A table in the frame the allocator takes after `k` other ones lies in memory,
and the watermark does not pass the last page of the address space. -/
def TableFits (s : Os) (k : ℕ) : Prop :=
  s.fa.frameTaken k + 4096 < 2 ^ 64 ∧
    (s.fa.frameTaken k + 4096 ≤ s.fa.limit.toNat →
      s.fa.frameTaken k + pageTableSize ≤ s.mem.size.toNat)

/-- What mapping a page does besides: it adds at most `needed` tables, in the next
frames of the allocator, and writes to tables only. -/
structure AddsTables (s : Os) (node : List (Fin 512) → Option TablePtr) (needed : ℕ) (s' : Os)
    (node' : List (Fin 512) → Option TablePtr) : Prop where
  size : s'.mem.size = s.mem.size
  grows : ∀ frame ∈ tableFrames node, frame ∈ tableFrames node'
  taken : ∀ frame ∈ tableFrames node', frame ∈ tableFrames node ∨
    ∃ k < needed, frame.toNat = s.fa.frameTaken k
  bytes : ∀ n, (∀ frame ∈ tableFrames node', ¬InFrame frame n) → s'.mem.data n = s.mem.data n

theorem missingFrom_eq (h : s.Maps base node mapped data) (h' : s'.Maps base node mapped data')
    {virtualAddress : Addr} {level : ℕ} (hu : node u = some p) (hlength : u.length + level + 1 = 4)
    (hpath : InFrames (u ++ slotPath virtualAddress level)) :
    s'.missingFrom virtualAddress level p = s.missingFrom virtualAddress level p := by
  induction level generalizing u p with
  | zero => rfl
  | succ level ih =>
      rw [slotPath, List.append_cons] at hpath
      have hi := hpath.of_append
      unfold missingFrom
      rw [h.tree.child hu (by omega) hi, h'.tree.child hu (by omega) hi]
      cases hnext : node (u ++ [pageIndex virtualAddress (level + 1)]) with
      | none => rfl
      | some next =>
          refine ih hnext ?_ hpath
          rw [List.length_append, List.length_singleton]
          omega

theorem missingFrom_new (h : s.Maps base node mapped data) {virtualAddress : Addr} {level : ℕ}
    (hu : node u = some p) (hlength : u.length + level + 1 = 4)
    (hpath : InFrames (u ++ slotPath virtualAddress level)) (hbelow : ∀ j, node (u ++ [j]) = none) :
    s.missingFrom virtualAddress level p = level := by
  cases level with
  | zero => rfl
  | succ level =>
      rw [slotPath, List.append_cons] at hpath
      unfold missingFrom
      rw [h.tree.child hu (by omega) hpath.of_append, hbelow]

theorem addsTables_cons {r : Addr × FrameAllocator × Memory} {e : PageTableEntry} {needed : ℕ}
    {node' : List (Fin 512) → Option TablePtr}
    (hmaps : { s with fa := r.2.1, mem := r.2.2 }.Maps base node mapped data')
    (hu : node u = some p)
    (hi : InFrames (u ++ [i])) (hnone : node (u ++ [i]) = none)
    (htakes : s.fa.Takes base s.mem (data ∪ tableFrames node) r)
    (hadds : AddsTables ({ s with fa := r.2.1, mem := r.2.2 }.setEntry p i e)
      (Function.update node (u ++ [i]) (some (.inMemory r.1))) needed s' node') :
    s.AddsTables node (needed + 1) s' node' := by
  have hframes := tableFrames_update hnone r.1
  have hgrows := hadds.grows
  rw [hframes] at hgrows
  constructor
  · rw [hadds.size, size_setEntry, htakes.zeroes.size]
  · exact fun frame hframe => hgrows frame (.inr hframe)
  · intro frame hframe
    rcases hadds.taken frame hframe with hold | ⟨k, hk, htaken⟩
    · rw [hframes] at hold
      rcases hold with rfl | hold
      · exact .inr ⟨0, Nat.succ_pos needed, htakes.taken⟩
      · exact .inl hold
    · rw [fa_setEntry] at htaken
      exact .inr ⟨k + 1, Nat.succ_lt_succ hk, htaken.trans (htakes.next k)⟩
  · intro n hn
    rw [hadds.bytes n hn, hmaps.data_setEntry hu hi fun frame hframe =>
      hn frame (hgrows frame (.inr hframe))]
    exact htakes.zeroes.other n (hn r.1 (hgrows r.1 (.inl rfl)))

theorem Maps.mapPageFrom_sat {virtualAddress : Addr} {writable user : Bool} {level : ℕ}
    (h : s.Maps base node mapped data) (hu : node u = some p) (hlength : u.length + level + 1 = 4)
    (hpath : InFrames (u ++ slotPath virtualAddress level))
    (hfits : ∀ k < s.missingFrom virtualAddress level p, s.TableFits k) :
    (mapPageFrom virtualAddress pa writable user level p s).Sat
      (fun r => ∃ node',
        r.2.Maps base node' (if r.1 then
          Function.update mapped (u ++ slotPath virtualAddress level) (some pa) else mapped) data ∧
        s.AddsTables node (s.missingFrom virtualAddress level p) r.2 node')
      fun _ => False := by
  induction level generalizing s node u p with
  | zero =>
      unfold mapPageFrom
      dsimp only
      rw [if_pos (h.entryInBounds hu)]
      refine ⟨node, h.setLeaf hu (by omega) hpath rfl, ?_⟩
      refine ⟨size_setEntry .., fun _ hframe => hframe, fun _ hframe => .inl hframe, fun n hn => ?_⟩
      exact h.data_setEntry hu hpath hn
  | succ level ih =>
      rw [slotPath, List.append_cons] at hpath ⊢
      have hi := hpath.of_append
      have hlength' : (u ++ [pageIndex virtualAddress (level + 1)]).length + level + 1 = 4 := by
        rw [List.length_append, List.length_singleton]
        omega
      have hchild := h.tree.child hu (by omega) hi
      unfold mapPageFrom
      unfold missingFrom at hfits ⊢
      rw [hchild] at hfits ⊢
      dsimp only
      rw [if_pos (h.entryInBounds hu)]
      cases hpresent : (s.entry p (pageIndex virtualAddress (level + 1))).present with
      | true =>
          have hnext : node (u ++ [pageIndex virtualAddress (level + 1)]) =
              some (.inMemory
                (s.entry p (pageIndex virtualAddress (level + 1))).physicalAddress) := by
            rw [← hchild]
            exact if_pos hpresent
          rw [hnext] at hfits ⊢
          rw [if_pos rfl]
          exact ih h hnext hlength' hpath hfits
      | false =>
          have hnone : node (u ++ [pageIndex virtualAddress (level + 1)]) = none := by
            rw [← hchild]
            exact if_neg (by simp [hpresent])
          rw [hnone] at hfits ⊢
          rw [if_neg (by simp)]
          refine (h.allocFrame_sat (hfits 0 (Nat.succ_pos level)).1).bind fun r hr => ?_
          obtain ⟨table, fa, mem⟩ := r
          rcases hr with ⟨hr, -⟩ | ⟨hne, htakes, hmaps⟩
          · -- out of memory: nothing has changed
            obtain ⟨rfl, rfl, rfl⟩ : table = uint64Max ∧ fa = s.fa ∧ mem = s.mem := by
              simpa using hr
            rw [if_pos rfl]
            exact ⟨node, h, rfl, fun _ hframe => hframe, fun _ hframe => .inl hframe,
              fun _ _ => rfl⟩
          · rw [if_neg hne]
            have hdata : table ∉ data := fun hmem => htakes.fresh (.inl hmem)
            have hlimit : table.toNat + 4096 ≤ s.fa.limit.toNat := by
              have := (htakes.owns.inUse table (Set.mem_insert _ _)).1.inLimit
              rwa [htakes.limit] at this
            have htaken : table.toNat = s.fa.frameTaken 0 := htakes.taken
            have htable : table.toNat + pageTableSize ≤ mem.size.toNat := by
              have := (hfits 0 (Nat.succ_pos level)).2 (htaken ▸ hlimit)
              rwa [← htaken, ← htakes.zeroes.size] at this
            have hset := hmaps.setTable (e := ⟨table, true, true, user⟩) hdata
              htakes.zeroes.zero htable hu (by omega) hi hnone rfl rfl
            have hnew := Function.update_self (u ++ [pageIndex virtualAddress (level + 1)])
              (some (TablePtr.inMemory table)) node
            have hmissing := missingFrom_new hset hnew hlength' hpath fun j => by
              rw [Function.update_of_ne (by simp)]
              by_contra hbelow
              exact h.tree.parent hbelow hnone
            refine (ih hset hnew hlength' hpath fun k hk => ?_).imp fun r hr => ?_
            · rw [hmissing] at hk
              have hfit := hfits (k + 1) (Nat.succ_lt_succ hk)
              unfold TableFits at hfit ⊢
              rw [fa_setEntry, size_setEntry]
              rwa [htakes.next, htakes.limit, htakes.zeroes.size]
            · rw [hmissing] at hr
              obtain ⟨node', hmaps', hadds⟩ := hr
              exact ⟨node', hmaps', addsTables_cons hmaps hu hi hnone htakes hadds⟩

/-- The frames that `alloc_and_map` takes for a page do not pass the last page of
the address space, and its tables lie in memory. -/
def PageFits (s : Os) (virtualAddress : Addr) : Prop :=
  s.fa.frameTaken 0 + 4096 < 2 ^ 64 ∧
    ∀ k < s.missingFrom virtualAddress 3 .root, s.TableFits (k + 1)

/-- What `alloc_and_map` does: the page is mapped to a zeroed frame that was in
no use, or the translations stay as they were. -/
structure MapsPage (s : Os) (base : ℕ) (node : List (Fin 512) → Option TablePtr)
    (mapped : List (Fin 512) → Option Addr) (data : Set Addr) (virtualAddress : Addr)
    (r : Addr × Os) (node' : List (Fin 512) → Option TablePtr) : Prop where
  maps : r.1 = uint64Max ∧ r.2.Maps base node' mapped data ∨
    r.1 ≠ uint64Max ∧ r.1 ∉ data ∧ r.1.toNat = s.fa.frameTaken 0 ∧
      (∀ n, InFrame r.1 n → r.2.mem.data n = 0) ∧
        r.2.Maps base node' (Function.update mapped (pagePath virtualAddress) (some r.1))
          (insert r.1 data)
  size : r.2.mem.size = s.mem.size
  grows : ∀ frame ∈ tableFrames node, frame ∈ tableFrames node'
  taken : ∀ frame ∈ tableFrames node', frame ∈ tableFrames node ∨
    ∃ k < s.missingFrom virtualAddress 3 .root, frame.toNat = s.fa.frameTaken (k + 1)
  bytes : ∀ n, (∀ frame ∈ tableFrames node', ¬InFrame frame n) →
    ¬(s.fa.frameTaken 0 ≤ n ∧ n < s.fa.frameTaken 0 + 4096) → r.2.mem.data n = s.mem.data n

theorem Maps.allocAndMap_sat {virtualAddress : Addr} {writable user : Bool}
    (h : s.Maps base node mapped data) (hpath : InFrames (pagePath virtualAddress))
    (hfits : s.PageFits virtualAddress) :
    (s.allocAndMap virtualAddress writable user).Sat
      (fun r => ∃ node', s.MapsPage base node mapped data virtualAddress r node')
      fun _ => False := by
  unfold allocAndMap
  refine (h.allocFrame_sat hfits.1).bind fun r hr => ?_
  obtain ⟨pa, fa, mem⟩ := r
  rcases hr with ⟨hr, -⟩ | ⟨hne, htakes, hmaps⟩
  · obtain ⟨rfl, rfl, rfl⟩ : pa = uint64Max ∧ fa = s.fa ∧ mem = s.mem := by simpa using hr
    dsimp only
    rw [if_pos rfl]
    exact ⟨node, .inl ⟨rfl, h⟩, rfl, fun _ hframe => hframe, fun _ hframe => .inl hframe,
      fun _ _ _ => rfl⟩
  · dsimp only at hmaps ⊢
    rw [if_neg hne]
    have hroot : InFrames ([] ++ slotPath virtualAddress 3) := hpath
    have hmissing := missingFrom_eq h hmaps h.tree.root rfl hroot
    have htaken : pa.toNat = s.fa.frameTaken 0 := htakes.taken
    have hdata : pa ∉ data := fun hmem => htakes.fresh (.inl hmem)
    refine (hmaps.mapPageFrom_sat hmaps.tree.root rfl hroot fun k hk => ?_).bind fun r hr => ?_
    · rw [hmissing] at hk
      have hfit := hfits.2 k hk
      unfold TableFits at hfit ⊢
      rw [← htakes.next, ← htakes.limit, ← htakes.zeroes.size] at hfit
      exact hfit
    · obtain ⟨found, s'⟩ := r
      obtain ⟨node', hmaps', hadds⟩ := hr
      rw [hmissing] at hadds
      have htables : ∀ frame ∈ tableFrames node', frame ∈ tableFrames node ∨
          ∃ k < s.missingFrom virtualAddress 3 .root, frame.toNat = s.fa.frameTaken (k + 1) := by
        intro frame hframe
        refine (hadds.taken frame hframe).imp_right fun ⟨k, hk, hframe⟩ => ⟨k, hk, ?_⟩
        rw [hframe]
        exact htakes.next k
      have hbytes : ∀ n, (∀ frame ∈ tableFrames node', ¬InFrame frame n) →
          ¬(s.fa.frameTaken 0 ≤ n ∧ n < s.fa.frameTaken 0 + 4096) →
            s'.mem.data n = s.mem.data n := by
        intro n hn hpa
        rw [hadds.bytes n hn]
        refine htakes.zeroes.other n ?_
        rwa [InFrame, htaken]
      cases found with
      | true =>
          refine ⟨node', .inr ⟨hne, hdata, htaken, fun n hn => ?_, hmaps'⟩, ?_,
            hadds.grows, htables,
            hbytes⟩
          · -- the data frame is none of the tables
            rw [hadds.bytes n fun frame hframe hin => ?_]
            · exact htakes.zeroes.zero n hn
            · have heq := FrameAllocator.eq_of_inFrame (hmaps'.aligned (.inr hframe))
                (hmaps'.aligned (.inl (Set.mem_insert _ _))) hin hn
              exact hmaps'.disjoint frame hframe (heq ▸ Set.mem_insert _ _)
          · exact hadds.size.trans htakes.zeroes.size
      | false =>
          refine ⟨node', .inl ⟨rfl, ?_⟩, hadds.size.trans htakes.zeroes.size, hadds.grows, htables,
            hbytes⟩
          refine hmaps'.transfer rfl rfl (fun _ _ _ _ => rfl) ?_ fun frame hframe hmem =>
            hmaps'.disjoint frame hframe (Set.mem_insert_of_mem _ hmem)
          have howns := hmaps'.owns
          rw [Set.insert_union] at howns
          refine howns.freeFrame ?_
          rintro (hmem | hmem)
          · exact hdata hmem
          · exact hmaps'.disjoint pa hmem (Set.mem_insert _ _)

/-! ## The page walk -/

theorem pageWalkFrom_eq_walk {virtualAddress : Addr} {level : ℕ} (h : s.Maps base node mapped data)
    (hu : node u = some p) (hlength : u.length + level + 1 = 4)
    (hpath : InFrames (u ++ slotPath virtualAddress level)) :
    pageWalkFrom s.mem virtualAddress level (s.entry p) =
      (s.tables.walk p (slotPath virtualAddress level)).map
        (· ||| (virtualAddress &&& 0xFFF#64)) := by
  induction level generalizing u p with
  | zero =>
      unfold pageWalkFrom slotPath Tables.walk tables
      dsimp only
      cases (s.entry p (pageIndex virtualAddress 0)).present <;> rfl
  | succ level ih =>
      rw [slotPath, List.append_cons] at hpath
      have hchild := h.tree.child hu (by omega) hpath.of_append
      obtain ⟨j, path, hslots⟩ := List.exists_cons_of_ne_nil (slotPath_ne_nil virtualAddress level)
      rw [slotPath, hslots, Tables.walk, ← hslots]
      unfold pageWalkFrom
      dsimp only
      cases hpresent : (s.entry p (pageIndex virtualAddress (level + 1))).present with
      | false =>
          have hnone : s.tables.child p (pageIndex virtualAddress (level + 1)) = none :=
            if_neg (by simp [hpresent])
          rw [hnone]
          rfl
      | true =>
          have hsome : s.tables.child p (pageIndex virtualAddress (level + 1)) =
              some (.inMemory (s.entry p (pageIndex virtualAddress (level + 1))).physicalAddress) :=
            if_pos hpresent
          rw [hsome] at hchild ⊢
          have hfits : _ + 8192 ≤ _ := h.fits _ ⟨_, hchild.symm⟩
          rw [if_neg (by simp), if_neg]
          · refine ih hchild.symm ?_ hpath
            rw [List.length_append, List.length_singleton]
            omega
          · rw [not_or, gt_iff_lt, BitVec.lt_def, BitVec.toNat_sub]
            simp only [BitVec.toNat_ofNat, pageTableSize]
            omega

/-- The page walk finds the frame a page is mapped to. -/
theorem Maps.pageWalk_eq {virtualAddress : Addr} (h : s.Maps base node mapped data)
    (hpath : InFrames (pagePath virtualAddress)) :
    pageWalk s.proc.pml4 s.mem virtualAddress =
      (mapped (pagePath virtualAddress)).map (· ||| (virtualAddress &&& 0xFFF#64)) := by
  have hwalk := h.tree.walk_eq (fun h => InFrames.of_append h) h.tree.root
    (slotPath_ne_nil virtualAddress 3) rfl hpath
  have hroot : InFrames ([] ++ slotPath virtualAddress 3) := hpath
  have hfrom := pageWalkFrom_eq_walk h h.tree.root rfl hroot
  rw [hwalk] at hfrom
  exact hfrom

end Os

end CacheSimulator
