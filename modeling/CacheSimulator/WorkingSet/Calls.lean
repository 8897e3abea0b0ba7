import CacheSimulator.WorkingSet.Fills

/-!
# Calls on a working set that fits

What a call does to the lines when L2 has room for the working set: it may drop copies
from the L1 cache it fills, it makes the one move its path asks for, and it prefetches.
No line is evicted from L2. When L1 has room as well, nothing is dropped.
-/

namespace CacheSimulator

open Mesi

namespace Sim

variable {pages : Finset ℕ} {s s' s₁ s₂ : Sim} {a b : LineNo} {c : CoreId} {k : L1Kind}
  {α : Action CoreId Store}
  {demand : Option (Action CoreId Store)}

/-- A call has moved line `a` as `demand` says, after making room in L1 and before
prefetching. -/
structure Serves (pages : Finset ℕ) (s : Sim) (a : LineNo) (demand : Option (Action CoreId Store))
    (s' : Sim) : Prop where
  within : s'.Within pages
  keeps : ∀ α ∈ demand, α ≠ .evict ∧ ¬α.Drops
  evolves : ∃ room fills : List (LineNo × Action CoreId Store),
    (∀ e ∈ room, e.1 ≠ a ∧ e.2.Drops) ∧ (RoomInL1 pages → room = []) ∧
      (∀ e ∈ fills, e.2 = .prefetch ∧ pageOf e.1 ∈ pages) ∧
        Evolves s (room ++ demand.toList.map (fun α => (a, α)) ++ fills) s'

/-- Room for line `a` in the `k` cache of core `c` has cost at most a copy of another
line, and none when L1 has room for the pages. -/
def RoomMade (pages : Finset ℕ) (k : L1Kind) (c : CoreId) (a : LineNo) (s s₁ : Sim) : Prop :=
  SameCaches s s₁ ∨ ¬RoomInL1 pages ∧ ∃ b, b ≠ a ∧ LineMove s b (dropAction k c) s₁

theorem RoomMade.exists_drops (hs : s.Inv) (h : RoomMade pages k c a s s₁) :
    ∃ room : List (LineNo × Action CoreId Store), (∀ e ∈ room, e.1 ≠ a ∧ e.2.Drops) ∧
      (RoomInL1 pages → room = []) ∧ Evolves s room s₁ ∧ s₁.streams = s.streams := by
  rcases h with hsame | ⟨hnot, b, hb, hdrop⟩
  · exact ⟨[], by simp, fun _ => rfl, .of_sameCaches hs hsame, hsame.streams⟩
  · refine ⟨[(b, dropAction k c)], ?_, fun h => absurd h hnot, hdrop.evolves hs, hdrop.streams⟩
    intro e he
    obtain rfl := List.mem_singleton.mp he
    exact ⟨hb, by cases k <;> trivial⟩

/-- The move of a line of the pages, after room has been made, stays within them. -/
theorem RoomMade.within (hs : s.Inv) (hw : s.Within pages) (hpage : pageOf a ∈ pages)
    (h : RoomMade pages k c a s s₁) (hm : LineMove s₁ a α s₂) : s₂.Within pages := by
  obtain ⟨room, hdrops, -, hfirst, hstreams⟩ := h.exists_drops hs
  refine (hfirst.trans (hm.evolves hfirst.inv)).within hs hw (fun e he henters => ?_) fun c i => ?_
  · rcases List.mem_append.mp he with he | he
    · exact absurd henters (hdrops e he).2.not_enters
    · rw [List.mem_singleton.mp he]
      exact hpage
  · rw [hm.streams, hstreams]
    exact hw.streams c i

namespace Serves

theorem inv (h : Serves pages s a demand s') : s'.Inv := by
  obtain ⟨room, fills, -, -, -, hes⟩ := h.evolves
  exact hes.inv

theorem size (h : Serves pages s a demand s') : s'.mem.size = s.mem.size := by
  obtain ⟨room, fills, -, -, -, hes⟩ := h.evolves
  exact hes.size

theorem exists_run (h : Serves pages s a demand s') :
    ∃ es, (∀ e ∈ es, e.2 ≠ .evict) ∧ Evolves s es s' := by
  obtain ⟨room, fills, hroom, -, hfills, hes⟩ := h.evolves
  refine ⟨_, fun e he => ?_, hes⟩
  rcases List.mem_append.mp he with he | he
  · rcases List.mem_append.mp he with he | he
    · exact (hroom e he).2.ne_evict
    · obtain ⟨α, hα, rfl⟩ := List.mem_map.mp he
      exact (h.keeps α (Option.mem_toList.mp hα)).1
  · rw [(hfills e he).1]
    simp

theorem of_sameCaches (hs : s.Inv) (hsame : SameCaches s s₁) (h : Serves pages s₁ a demand s') :
    Serves pages s a demand s' := by
  obtain ⟨room, fills, hroom, hnone, hfills, hes⟩ := h.evolves
  exact ⟨h.within, h.keeps, room, fills, hroom, hnone, hfills,
    by simpa using (Evolves.of_sameCaches hs hsame).trans hes⟩

theorem of_move (hs : s.Inv) (hroom : RoomMade pages k c a s s₁) (hα : α ≠ .evict ∧ ¬α.Drops)
    (hm : LineMove s₁ a α s₂) (hpf : Prefetched pages s₂ s') (hw' : s'.Within pages) :
    Serves pages s a (some α) s' := by
  obtain ⟨fills, hfills, hrun⟩ := hpf
  obtain ⟨room, hdrops, hnone, hfirst, -⟩ := hroom.exists_drops hs
  refine ⟨hw', fun β hβ => ?_, room, fills, hdrops, hnone, hfills,
    (hfirst.trans (hm.evolves hfirst.inv)).trans hrun⟩
  obtain rfl := Option.some.inj hβ
  exact hα

/-- The move of the accessed line is the last but for the prefetches, which leave the
line alone. -/
theorem holders_self (h : Serves pages s a (some α) s') (hs : s.Inv) (b : CoreId) :
    (s'.rep a).l1 .data b ≠ none ↔ α.holders (fun b => (s.rep a).l1 .data b ≠ none) b := by
  obtain ⟨room, fills, hroom, -, hfills, hes⟩ := h.evolves
  obtain ⟨hevict, hdrop⟩ := h.keeps α rfl
  obtain ⟨σ, hr, hfill⟩ := (hes.run s.mem.data).of_append
  obtain ⟨σ', hr', hmove⟩ := hr.of_append
  have hc := hs.system s.mem.data
  have hc' := hr'.coherent hc
  have hframe := hr'.frame (a := a) fun e he => (hroom e he).1
  have hstep := hmove.of_singleton
  have hd := (hfill.prefetches (hr.coherent hc) (fun e he => (hfills e he).1) a).2
  have hiff := hstep.move.holds_iff (hc'.coherent a) hevict hdrop b
  rw [← hd] at hiff
  rw [hframe] at hiff
  exact hiff

theorem present (h : Serves pages s a (some α) s') (hs : s.Inv) : (s'.rep a).l2 ≠ none := by
  obtain ⟨room, fills, hroom, -, hfills, hes⟩ := h.evolves
  obtain ⟨σ, hr, hfill⟩ := (hes.run s.mem.data).of_append
  obtain ⟨σ', hr', hmove⟩ := hr.of_append
  have hc := hs.system s.mem.data
  have hstep := hmove.of_singleton
  have hσ := hstep.move.l2_ne_none ((hr'.coherent hc).coherent a) (h.keeps α rfl).1
  have hlines := (hfill.prefetches (hr.coherent hc) (fun e he => (hfills e he).1) a).1 hσ
  rw [← hlines] at hσ
  exact view_l2_ne_none.mp hσ

/-- When L1 has room, the holders of the other lines are as they were. -/
theorem holders_other (h : Serves pages s a demand s') (hs : s.Inv) (hfit : RoomInL1 pages)
    {l : LineNo} (hl : l ≠ a) (b : CoreId) : (s'.rep l).l1 .data b = (s.rep l).l1 .data b := by
  obtain ⟨room, fills, -, hroom, hfills, hes⟩ := h.evolves
  obtain rfl := hroom hfit
  rw [List.nil_append] at hes
  obtain ⟨σ, hr, hfill⟩ := (hes.run s.mem.data).of_append
  have hframe := hr.frame (a := l) fun e he => by
    obtain ⟨α, -, rfl⟩ := List.mem_map.mp he
    exact hl.symm
  have hd := (hfill.prefetches (hr.coherent (hs.system _)) (fun e he => (hfills e he).1) l).2
  rw [hframe] at hd
  exact congrFun hd b

end Serves

/-! ## The postconditions -/

structure Loads (pages : Finset ℕ) (k : L1Kind) (c : CoreId) (physicalAddress : Addr) (size : ℕ)
    (s : Sim) (r : Sim × Option (List Byte)) : Prop where
  serves : ∃ demand, s.Serves pages (lineNo physicalAddress) demand r.1
  holders : ∀ b, (r.1.rep (lineNo physicalAddress)).l1 .data b ≠ none ↔
    (s.rep (lineNo physicalAddress)).l1 .data b ≠ none ∨ k = .data ∧ b = c
  present : (r.1.rep (lineNo physicalAddress)).l2 ≠ none
  value : (s.rep (lineNo physicalAddress)).l2 ≠ none →
    ∃ v, (r.1.rep (lineNo physicalAddress)).view.Authoritative v ∧
      r.2 = some (v.slice (l1ToOffset physicalAddress) size)

structure Stores (pages : Finset ℕ) (c : CoreId) (physicalAddress : Addr) (data : List Byte)
    (s : Sim) (r : Sim × Option (List Byte)) : Prop where
  serves : ∃ demand, s.Serves pages (lineNo physicalAddress) demand r.1
  holders : ∀ b, (r.1.rep (lineNo physicalAddress)).l1 .data b ≠ none ↔ b = c

variable {physicalAddress : Addr} {size : ℕ} {data : List Byte} {w : Fin 16}
  {r : Sim × Option (List Byte)}

/-! ## Hits in L1 -/

theorem Evolves.readWay {v : Fin 8} {x : Mode × Line} {set : L1Set} (hs : s.Inv)
    (hsame : SameCaches s s₁)
    (hv : (s.l1 k c (l1Geometry.index a)).slots v = some (l1Geometry.tag a, x))
    (hset : set.slots = (s.l1 k c (l1Geometry.index a)).slots) :
    Evolves s [] (s₁.setL1 k c (l1Geometry.index a) set) ∧
      (s₁.setL1 k c (l1Geometry.index a) set).rep = s.rep ∧
        (s₁.setL1 k c (l1Geometry.index a) set).streams = s.streams := by
  obtain ⟨hbg, hrep⟩ := Background.readWay hs hsame hv hset
  refine ⟨.of_rep hs hbg.inv.placed hrep hbg.size ?_ hbg.inv.streams, hrep, ?_⟩
  · rw [history_setL1, hsame.history]
  · rw [streams_setL1, hsame.streams]

theorem loads_of_copy {m : Mode} {line : Line} (hs : s.Inv) (hw : s.Within pages)
    (hevolves : Evolves s [] s') (hrep : s'.rep = s.rep) (hstreams : s'.streams = s.streams)
    (hcopy : (s.rep (lineNo physicalAddress)).l1 k c = some (m, line)) :
    Loads pages k c physicalAddress size s
      (s', some (line.slice (l1ToOffset physicalAddress) size)) := by
  refine ⟨⟨none, hw.of_rep hrep hstreams, by simp, [], [], by simp, fun _ => rfl, by simp, ?_⟩,
    fun b => ?_, ?_, fun _ => ⟨line, ?_, rfl⟩⟩
  · simpa using hevolves
  · rw [hrep]
    refine ⟨.inl, fun h => h.elim id ?_⟩
    rintro ⟨rfl, rfl⟩
    rw [hcopy]
    exact Option.some_ne_none _
  · obtain ⟨e, he⟩ := (hs.lineOk (lineNo physicalAddress)).inclusion (k := k) (c := c)
      (by rw [hcopy]; exact Option.some_ne_none _)
    rw [hrep, he]
    exact Option.some_ne_none e
  · rw [hrep]
    cases k with
    | data => exact LineState.authoritative_of_d (hs.coherent _).toSound hcopy
    | instr =>
        refine LineState.authoritative_of_i (hs.coherent _).toSound (c := c) ?_
        rw [LineRep.view_i, hcopy]
        rfl

theorem readL1Hit_loads {v : Fin 8} (hs : s.Inv) (hw : s.Within pages)
    (hfind : findL1Way (s.l1 .data c (l1ToIndex physicalAddress)) (l1ToTag physicalAddress) =
      some v) :
    (readL1Hit s c physicalAddress v size).Sat (Loads pages .data c physicalAddress size s)
      fun _ => True := by
  obtain ⟨m, hv⟩ := findL1Way_eq_some hfind
  unfold readL1Hit
  dsimp only
  refine ((l1CacheReadWay_spec _ _ _ _).mono (fun r hr => hr) fun _ _ => trivial).bind
    fun r hr => ?_
  obtain ⟨-, hdata, hslots⟩ := hr
  simp only [← l1Geometry_index_lineNo physicalAddress, ← l1Geometry_tag_lineNo physicalAddress]
    at hv hslots hdata ⊢
  obtain ⟨hevolves, hrep, hstreams⟩ := Evolves.readWay hs
    ((SameCaches.emit s .l1dHit c 1 _ v _ _ _ _).trans (.modifyPmc _ c _)) hv hslots
  rw [Except.sat_ok, hdata]
  exact loads_of_copy hs hw hevolves hrep hstreams (hs.placed.l1_of_slots hv)

theorem fetchL1Hit_loads {v : Fin 8} (hs : s.Inv) (hw : s.Within pages)
    (hfind : findL1Way (s.l1 .instr c (l1ToIndex physicalAddress)) (l1ToTag physicalAddress) =
      some v) :
    (fetchL1Hit s c physicalAddress v size).Sat (Loads pages .instr c physicalAddress size s)
      fun _ => True := by
  obtain ⟨m, hv⟩ := findL1Way_eq_some hfind
  unfold fetchL1Hit
  dsimp only
  refine ((l1CacheReadWay_spec _ _ _ _).mono (fun r hr => hr) fun _ _ => trivial).bind
    fun r hr => ?_
  obtain ⟨-, hdata, hslots⟩ := hr
  have hsame := SameCaches.modifyPmc s c fun pmc => { pmc with l1iHits := pmc.l1iHits + 1 }
  simp only [← l1Geometry_index_lineNo physicalAddress, ← l1Geometry_tag_lineNo physicalAddress]
    at hv hslots hdata ⊢
  rw [hsame.l1] at hdata hslots
  obtain ⟨hevolves, hrep, hstreams⟩ := Evolves.readWay hs hsame hv hslots
  rw [Except.sat_ok, hdata]
  exact loads_of_copy hs hw hevolves hrep hstreams (hs.placed.l1_of_slots hv)

theorem writeL1Hit_stores {v : Fin 8} (hs : s.Inv) (hw : s.Within pages)
    (hpage : pageOf (lineNo physicalAddress) ∈ pages)
    (hfind : findL1Way (s.l1 .data c (l1ToIndex physicalAddress)) (l1ToTag physicalAddress) =
      some v) :
    (writeL1Hit s c physicalAddress v data).Sat (Stores pages c physicalAddress data s)
      fun _ => True := by
  refine (writeL1Hit_writesL1 hs hfind).mono (fun r hr => ?_) fun _ _ => trivial
  have hserves : s.Serves pages (lineNo physicalAddress) _ r.1 :=
    .of_move (k := .data) (c := c) hs (.inl (.refl s)) ⟨by simp, id⟩ hr.move
      (.refl (hr.move.evolves hs).inv)
      (RoomMade.within (k := .data) (c := c) hs hw hpage (.inl (.refl s)) hr.move)
  exact ⟨⟨_, hserves⟩, hserves.holders_self hs⟩

/-! ## Room in L1 -/

theorem LineMove.of_sameCaches {t : Sim} (hsame : SameCaches s t) (h : LineMove t b α s') :
    LineMove s b α s' := by
  constructor
  · exact h.placed
  · rw [h.size, hsame.mem]
  · rw [h.streams, hsame.streams]
  · intro l hl
    rw [h.frame l hl, hsame.rep]
  · exact h.exact
  · rw [← hsame.mem]
    exact h.inRange
  · rw [← hsame.rep]
    exact h.move
  · rw [← hsame.history, ← hsame.rep]
    exact h.records

/-- The eviction that makes room for a line of the pages in L1 drops nothing when L1 has
room for the pages. -/
theorem MakesL1Room.roomMade (hs : s.Inv) (hw : s.Within pages) (hpage : pageOf a ∈ pages)
    (ha : (s.rep a).l1 k c = none) (h : MakesL1Room k c a s s₁) : RoomMade pages k c a s s₁ := by
  obtain ⟨t, v, hsame, hevict⟩ := h
  have ht := hs.congr hsame
  rw [← hsame.rep] at ha
  by_cases hfit : RoomInL1 pages
  · obtain ⟨v', hevict'⟩ := evictL1_of_fits ht.placed hfit
      (fun b => (hw.of_sameCaches hsame).copies ht) hpage ha
    rw [hevict'] at hevict
    obtain ⟨rfl, -⟩ := Prod.mk.inj (Except.ok.inj hevict)
    exact .inl hsame
  · obtain ⟨-, hfrees⟩ := (evictL1_spec ht.placed fun b _ => ht.lineOk b).of_eq_ok hevict
    rcases hfrees.cases with hsame' | ⟨b, hb, hdrop⟩
    · exact .inl (hsame.trans hsame')
    · refine .inr ⟨hfit, b, ?_, hdrop.of_sameCaches hsame⟩
      rintro rfl
      exact hb ha

/-! ## Hits in L2 -/

theorem ReadsL2.loads (hs : s.Inv) (hw : s.Within pages)
    (hpage : pageOf (lineNo physicalAddress) ∈ pages)
    (h : ReadsL2 k c physicalAddress size s α r) : Loads pages k c physicalAddress size s r := by
  obtain ⟨s₁, hroom, hrep, hmove⟩ := h.move
  obtain ⟨m, line, hcopy, hr⟩ := h.copy
  have hbg := hroom.background hs
  have hinv := (hmove.evolves hbg.inv).inv
  have hstep := hmove.move
  rw [hrep] at hstep
  -- the core had no copy and now has one, so the move is a load
  have hgains : (α ≠ .evict ∧ ¬α.Drops) ∧ ∀ held b, α.holders held b ↔
      held b ∨ k = .data ∧ b = c := by
    cases k with
    | data =>
        obtain ⟨hevict, hdrop, hholders⟩ := hstep.gains_d (c := c) h.absent
          (by rw [LineRep.view_d, hcopy]; exact Option.some_ne_none _) h.stored
        exact ⟨⟨hevict, hdrop⟩, fun held b => by simp [hholders]⟩
    | instr =>
        obtain ⟨hevict, hdrop, hholders⟩ := hstep.gains_i (c := c)
          (by rw [LineRep.view_i, h.absent]; rfl)
          (by rw [LineRep.view_i, hcopy]; exact Option.some_ne_none _)
        exact ⟨⟨hevict, hdrop⟩, fun held b => by simp [hholders]⟩
  have hserves : s.Serves pages (lineNo physicalAddress) (some α) r.1 :=
    .of_move hs (hroom.roomMade hs hw hpage h.absent) hgains.1 hmove (.refl hinv)
      ((hroom.roomMade hs hw hpage h.absent).within hs hw hpage hmove)
  refine ⟨⟨_, hserves⟩, fun b => ?_, hserves.present hs, fun _ => ⟨line, ?_, hr⟩⟩
  · rw [hserves.holders_self hs, hgains.2]
  · cases k with
    | data => exact LineState.authoritative_of_d (hinv.coherent _).toSound hcopy
    | instr =>
        refine LineState.authoritative_of_i (hinv.coherent _).toSound (c := c) ?_
        rw [LineRep.view_i, hcopy]
        rfl

theorem WritesL2.stores (hs : s.Inv) (hw : s.Within pages)
    (hpage : pageOf (lineNo physicalAddress) ∈ pages)
    (h : WritesL2 c physicalAddress data s r) : Stores pages c physicalAddress data s r := by
  suffices hserves : s.Serves pages (lineNo physicalAddress)
      (some (.storeFill c (l1ToOffset physicalAddress, data))) r.1 from
    ⟨⟨_, hserves⟩, hserves.holders_self hs⟩
  have halone : LineMove s (lineNo physicalAddress)
      (.storeFill c (l1ToOffset physicalAddress, data)) r.1 →
        s.Serves pages (lineNo physicalAddress)
          (some (.storeFill c (l1ToOffset physicalAddress, data))) r.1 := fun hmove =>
    .of_move (k := .data) (c := c) hs (.inl (.refl s)) ⟨by simp, id⟩ hmove
      (.refl (hmove.evolves hs).inv)
      (RoomMade.within (k := .data) (c := c) hs hw hpage (.inl (.refl s)) hmove)
  by_cases hfit : RoomInL1 pages
  · -- the eviction after the snoop finds a free way
    obtain ⟨x, t₁, t₂, v, hrewrites, hx, hevict, hmove⟩ := h.room
    have hcopies : ∀ b, (t₁.rep b).l1 .data c ≠ none → pageOf b ∈ pages := by
      intro b hb
      by_cases hba : b = lineNo physicalAddress
      · exact hba ▸ hpage
      · rw [hrewrites.rep, Function.update_of_ne hba] at hb
        exact hw.copies hs hb
    obtain ⟨v', hevict'⟩ := evictL1_of_fits hrewrites.placed hfit hcopies hpage
      (by rw [hrewrites.rep_self, hx])
    rw [hevict'] at hevict
    obtain ⟨rfl, -⟩ := Prod.mk.inj (Except.ok.inj hevict)
    exact halone (hmove (.refl t₁))
  · rcases h.moves with hmove | ⟨b, hb, hevolves⟩
    · exact halone hmove
    · refine ⟨?_, fun β hβ => ?_, [(b, .dropD c)], [], ?_, fun h => absurd h hfit, by simp, ?_⟩
      · refine hevolves.within hs hw (fun e he henters => ?_) fun c i => ?_
        · simp only [List.mem_cons, List.not_mem_nil, or_false] at he
          rcases he with rfl | rfl
          · exact absurd henters id
          · exact absurd henters id
        · rw [h.streams]
          exact hw.streams c i
      · obtain rfl := Option.some.inj hβ
        exact ⟨by simp, id⟩
      · intro e he
        obtain rfl := List.mem_singleton.mp he
        exact ⟨hb, trivial⟩
      · simpa using hevolves

/-! ## Misses -/

/-- The evictions that make room for a missing line of the pages leave L2 alone. -/
theorem MakesBothRooms.roomMade (hs : s.Inv) (hw : s.Within pages) (hfit : RoomInL2 pages)
    (hpage : pageOf a ∈ pages) (ha : (s.rep a).l2 = none) (h : MakesBothRooms k c a s s₂) :
    RoomMade pages k c a s s₂ := by
  obtain ⟨s₁, w, v, hevict₂, hevict₁⟩ := h
  obtain ⟨w', hevict⟩ := hw.evictL2 hs.placed hfit hpage ha
  rw [hevict] at hevict₂
  obtain ⟨rfl, -⟩ := Prod.mk.inj (Except.ok.inj hevict₂)
  exact MakesL1Room.roomMade hs hw hpage (hs.l1_eq_none ha k c) ⟨s, v, .refl s, hevict₁⟩

theorem BringsIn.makesBothRooms {s₄ : Sim} (h : BringsIn c a s s₂ s₄) :
    MakesBothRooms .data c a s s₂ := by
  obtain ⟨s₁, w, v, hevict₂, hevict₁, -⟩ := h
  exact ⟨s₁, w, v, hevict₂, hevict₁⟩

theorem serves_of_miss {s₄ s₅ s₆ : Sim} (hs : s.Inv) (hroom : RoomMade pages k c a s s₂)
    (hα : α ≠ .evict ∧ ¬α.Drops) (hm : LineMove s₂ a α s₄) (hpf : Prefetched pages s₄ s₅)
    (hw₅ : s₅.Within pages) (hsame : SameCaches s₅ s₆) : s.Serves pages a (some α) s₆ :=
  .of_move hs hroom hα hm (hpf.trans (.of_sameCaches hpf.inv hsame)) (hw₅.of_sameCaches hsame)

theorem readMiss_loads (hs : s.Inv) (hw : s.Within pages) (hfit : RoomInL2 pages)
    (hpage : pageOf (lineNo physicalAddress) ∈ pages)
    (hmiss : l2FindWay (s.l2 (l2ToIndex physicalAddress)) (l2ToTag physicalAddress) = none) :
    (readMiss s c physicalAddress size).Sat (Loads pages .data c physicalAddress size s)
      fun _ => True := by
  have ha := l2_eq_none_of_miss hmiss
  by_cases hbounds : lineAddr (lineNo physicalAddress) + 64#64 > s.mem.size
  · unfold readMiss
    dsimp only
    rw [lineBase_eq, if_pos hbounds]
    trivial
  · refine readMiss_sat hs hmiss hbounds (fun _ => trivial) fun hin s₂ s₄ hbrings hbg _ _ hm => ?_
    have hroom := hbrings.makesBothRooms.roomMade hs hw hfit hpage ha
    have hinv₄ := (hm.evolves hbg.inv).inv
    refine (pfStreamOnMiss_prefetched hinv₄ (hroom.within hs hw hpage hm) hfit
      (by rwa [hm.size, hbg.size]) hpage).bind fun s₅ hs₅ => ?_
    refine (Except.sat_returned _).bind fun data _ => ?_
    have hserves := serves_of_miss hs hroom ⟨by simp, id⟩ hm hs₅.1 hs₅.2
      (.modifyPmc s₅ c fun pmc => { pmc with memFetches := pmc.memFetches + 1 })
    refine ⟨⟨_, hserves⟩, fun b => ?_, hserves.present hs, fun hne => absurd ha hne⟩
    rw [hserves.holders_self hs]
    simp [Action.holders]

theorem writeMiss_stores (hs : s.Inv) (hw : s.Within pages) (hfit : RoomInL2 pages)
    (hpage : pageOf (lineNo physicalAddress) ∈ pages)
    (hmiss : l2FindWay (s.l2 (l2ToIndex physicalAddress)) (l2ToTag physicalAddress) = none) :
    (writeMiss s c physicalAddress data).Sat (Stores pages c physicalAddress data s)
      fun _ => True := by
  have ha := l2_eq_none_of_miss hmiss
  by_cases hbounds : lineAddr (lineNo physicalAddress) + 64#64 > s.mem.size
  · unfold writeMiss
    dsimp only
    rw [lineBase_eq, if_pos hbounds]
    trivial
  · refine writeMiss_sat hs hmiss hbounds (fun _ => trivial) (fun _ => trivial)
      fun hin _ s₂ s₄ hbrings hbg _ _ hm => ?_
    have hroom := hbrings.makesBothRooms.roomMade hs hw hfit hpage ha
    have hinv₄ := (hm.evolves hbg.inv).inv
    refine (pfStreamOnMiss_prefetched hinv₄ (hroom.within hs hw hpage hm) hfit
      (by rwa [hm.size, hbg.size]) hpage).bind fun s₅ hs₅ => ?_
    have hserves := serves_of_miss hs hroom ⟨by simp, id⟩ hm hs₅.1 hs₅.2
      (.modifyPmc s₅ c fun pmc => { pmc with memFetches := pmc.memFetches + 1 })
    exact ⟨⟨_, hserves⟩, hserves.holders_self hs⟩

theorem fetchMiss_loads (hs : s.Inv) (hw : s.Within pages) (hfit : RoomInL2 pages)
    (hpage : pageOf (lineNo physicalAddress) ∈ pages)
    (hmiss : l2FindWay (s.l2 (l2ToIndex physicalAddress)) (l2ToTag physicalAddress) = none) :
    (fetchMiss s c physicalAddress size).Sat (Loads pages .instr c physicalAddress size s)
      fun _ => True := by
  have ha := l2_eq_none_of_miss hmiss
  by_cases hbounds : lineAddr (lineNo physicalAddress) + 64#64 > s.mem.size
  · unfold fetchMiss
    dsimp only
    rw [lineBase_eq, if_pos hbounds]
    trivial
  · refine fetchMiss_sat_rooms hs hmiss hbounds (fun _ => trivial)
      fun hin s₂ s₄ hrooms hbg _ _ hm => ?_
    have hroom := hrooms.roomMade hs hw hfit hpage ha
    have hinv₄ := (hm.evolves hbg.inv).inv
    have hw₄ := hroom.within hs hw hpage hm
    refine (pfNextlineOnMiss_prefetched hinv₄ hw₄ hfit (by rwa [hm.size, hbg.size]) hpage).bind
      fun s₅ hs₅ => ?_
    refine (Except.sat_returned _).bind fun data _ => ?_
    have hserves := serves_of_miss hs hroom ⟨by simp, id⟩ hm hs₅.1
      (hs₅.1.within hinv₄ hw₄ hs₅.2)
      (.modifyPmc s₅ c fun pmc => { pmc with memFetches := pmc.memFetches + 1 })
    refine ⟨⟨_, hserves⟩, fun b => ?_, hserves.present hs, fun hne => absurd ha hne⟩
    rw [hserves.holders_self hs]
    simp [Action.holders]

end Sim

/-! ## One call -/

open Sim

variable {pages : Finset ℕ} {s s' : Sim} {physicalAddress : Addr} {c : CoreId}

def Call.EnsuresFit (pages : Finset ℕ) (call : Call) (s : Sim) (physicalAddress : Addr)
    (r : Sim × Option (List Byte)) : Prop :=
  match call with
  | .read c _ size => Loads pages .data c physicalAddress size s r
  | .write c _ data => Stores pages c physicalAddress data s r
  | .fetch c _ size => Loads pages .instr c physicalAddress size s r

theorem Call.EnsuresFit.serves {call : Call} {r : Sim × Option (List Byte)}
    (h : call.EnsuresFit pages s physicalAddress r) :
    ∃ demand, s.Serves pages (lineNo physicalAddress) demand r.1 := by
  cases call with
  | read => exact Sim.Loads.serves h
  | write => exact Sim.Stores.serves h
  | fetch => exact Sim.Loads.serves h

theorem Call.EnsuresFit.present {call : Call} {r : Sim × Option (List Byte)} (hr : r.1.Inv)
    (h : call.EnsuresFit pages s physicalAddress r) :
    (r.1.rep (lineNo physicalAddress)).l2 ≠ none := by
  cases call with
  | read => exact Sim.Loads.present h
  | write c virtualAddress data =>
      obtain ⟨e, he⟩ := (hr.lineOk _).inclusion (k := .data) ((Sim.Stores.holders h c).mpr rfl)
      rw [he]
      exact Option.some_ne_none e
  | fetch => exact Sim.Loads.present h

theorem Sim.Loads.of_sameCaches {k : L1Kind} {size : ℕ} {t : Sim} {r : Sim × Option (List Byte)}
    (hs : s.Inv) (hsame : SameCaches s t) (h : Loads pages k c physicalAddress size t r) :
    Loads pages k c physicalAddress size s r := by
  obtain ⟨⟨demand, hserves⟩, hholders, hpresent, hvalue⟩ := h
  rw [hsame.rep] at hholders hvalue
  exact ⟨⟨demand, hserves.of_sameCaches hs hsame⟩, hholders, hpresent, hvalue⟩

theorem Sim.Stores.of_sameCaches {data : List Byte} {t : Sim} {r : Sim × Option (List Byte)}
    (hs : s.Inv) (hsame : SameCaches s t) (h : Stores pages c physicalAddress data t r) :
    Stores pages c physicalAddress data s r := by
  obtain ⟨⟨demand, hserves⟩, hholders⟩ := h
  exact ⟨⟨demand, hserves.of_sameCaches hs hsame⟩, hholders⟩

theorem Call.exec_fits {call : Call} (hs : s.Inv) (hw : s.Within pages) (hfit : RoomInL2 pages)
    (hpa : call.physicalAddress s = some physicalAddress)
    (hpage : pageOf (lineNo physicalAddress) ∈ pages) :
    (call.exec s).Sat (call.EnsuresFit pages s physicalAddress) fun _ => True := by
  cases call with
  | read c virtualAddress size =>
      have hsame := SameCaches.translateData s c virtualAddress
      rw [exec, cpuRead, show translateData s c virtualAddress = (some physicalAddress, _) from
        Prod.ext hpa rfl]
      have ht := hs.congr hsame
      have hwt := hw.of_sameCaches hsame
      refine Except.Sat.imp ?_ fun _ h => Loads.of_sameCaches hs hsame h
      dsimp only
      split
      · exact readL1Hit_loads ht hwt ‹_›
      · split
        · refine (readL2Hit_readsL2 ht ‹_› ‹_›).mono (fun _ hreads => ?_) fun _ _ => trivial
          obtain ⟨_, h⟩ := hreads
          exact h.loads ht hwt hpage
        · exact readMiss_loads ht hwt hfit hpage ‹_›
  | write c virtualAddress data =>
      have hsame := SameCaches.translateData s c virtualAddress
      rw [exec, cpuWrite, show translateData s c virtualAddress = (some physicalAddress, _) from
        Prod.ext hpa rfl]
      have ht := hs.congr hsame
      have hwt := hw.of_sameCaches hsame
      refine Except.Sat.imp ?_ fun _ h => Stores.of_sameCaches hs hsame h
      dsimp only
      split
      · exact writeL1Hit_stores ht hwt hpage ‹_›
      · split
        · exact (writeL2Hit_writesL2 ht ‹_› ‹_›).mono
            (fun _ h => h.stores ht hwt hpage) fun _ _ => trivial
        · exact writeMiss_stores ht hwt hfit hpage ‹_›
  | fetch c virtualAddress size =>
      have hsame := SameCaches.translateInstr s c virtualAddress
      rw [exec, cpuFetch, show translateInstr s c virtualAddress = (some physicalAddress, _) from
        Prod.ext hpa rfl]
      have ht := hs.congr hsame
      have hwt := hw.of_sameCaches hsame
      refine Except.Sat.imp ?_ fun _ h => Loads.of_sameCaches hs hsame h
      dsimp only
      split
      · exact fetchL1Hit_loads ht hwt ‹_›
      · split
        · refine (fetchL2Hit_readsL2 ht ‹_› ‹_›).mono (fun _ hreads => ?_) fun _ _ => trivial
          obtain ⟨_, _, h⟩ := hreads
          exact h.loads ht hwt hpage
        · exact fetchMiss_loads ht hwt hfit hpage ‹_›

end CacheSimulator
