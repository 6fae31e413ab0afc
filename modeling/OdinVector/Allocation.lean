/-
This file proves what the slot allocator does to a layout. A layout is well
formed when its tail is aligned, its pages lie below the tail, and the queue of
empty pages holds each page once and only pages without a record. `alloc_loc`
hands out distinct free slots of a well-formed layout and marks exactly these;
its crash on a page that is not empty does not occur. `erase_and_set_loc` gives
new slots their ids and frees the old ones.
-/

import OdinVector.PageLayout

namespace OdinVector

namespace Layout

variable (geometry : Geometry)

/-- The invariant of the allocator. -/
structure WellFormed (layout : Layout) : Prop where
  aligned : geometry.nnodesPerSector ∣ layout.curLoc
  below : ∀ page slots, layout.pageLayout page = some slots →
    1 ≤ page ∧ page ≤ layout.curLoc / geometry.nnodesPerSector
  queueNodup : layout.emptyPages.Nodup
  queueEmpty : ∀ page ∈ layout.emptyPages, ∃ slots, layout.pageLayout page = some slots ∧
    ∀ slot < geometry.nnodesPerSector, slots slot = .kInvalidID

variable {geometry} {layout : Layout}

/-! ### Single slots -/

theorem loc2id_sectorToLoc {page slot : Nat} {slots : PageArr}
    (stored : layout.pageLayout page = some slots) (data : 1 ≤ page)
    (inside : slot < geometry.nnodesPerSector) :
    layout.loc2id geometry (geometry.sectorToLoc page slot) = slots slot := by
  rw [loc2id, Geometry.locSectorNo_sectorToLoc data inside, stored]
  show slots (geometry.slotOf _) = slots slot
  rw [Geometry.slotOf_sectorToLoc page inside]

/-- A slot that is not a hole lies on a page of the layout. -/
theorem exists_page {loc : Nat} (used : layout.loc2id geometry loc ≠ .kInvalidID) :
    ∃ slots, layout.pageLayout (geometry.locSectorNo loc) = some slots ∧
      slots (geometry.slotOf loc) = layout.loc2id geometry loc := by
  unfold loc2id at used ⊢
  cases stored : layout.pageLayout (geometry.locSectorNo loc) with
  | none => simp [stored] at used
  | some slots => exact ⟨slots, rfl, rfl⟩

/-- Slots in use lie below the tail. -/
theorem WellFormed.lt_curLoc (wellFormed : layout.WellFormed geometry) {loc : Nat}
    (used : layout.loc2id geometry loc ≠ .kInvalidID) : loc < layout.curLoc := by
  obtain ⟨slots, stored, _⟩ := exists_page used
  exact Geometry.lt_of_locSectorNo_le wellFormed.aligned (wellFormed.below _ _ stored).2

/-- A page in the queue has no slot in use. -/
theorem WellFormed.not_mem_queue (wellFormed : layout.WellFormed geometry) {loc : Nat}
    (used : layout.loc2id geometry loc ≠ .kInvalidID) :
    geometry.locSectorNo loc ∉ layout.emptyPages := by
  intro queued
  obtain ⟨slots, stored, holes⟩ := wellFormed.queueEmpty _ queued
  obtain ⟨others, same, slot⟩ := exists_page used
  rw [stored, Option.some.injEq] at same
  subst same
  exact used (slot ▸ holes _ (geometry.slotOf_lt loc))

/-- `set_loc2id` writes one slot. -/
theorem loc2id_setLoc2id (layout : Layout) (loc : Nat) (id : SlotId) (other : Nat) :
    (layout.setLoc2id geometry loc id).loc2id geometry other =
      if other = loc then id else layout.loc2id geometry other := by
  unfold loc2id setLoc2id
  by_cases page : geometry.locSectorNo other = geometry.locSectorNo loc
  · rw [page]
    simp only [Function.update_self]
    by_cases slot : geometry.slotOf other = geometry.slotOf loc
    · rw [if_pos (Geometry.eq_of_sector_of_slot page slot), slot, Function.update_self]
    · rw [if_neg fun same => slot (congrArg geometry.slotOf same),
        Function.update_of_ne slot]
      cases layout.pageLayout (geometry.locSectorNo loc) <;> rfl
  · simp only [Function.update_of_ne page]
    rw [if_neg fun same => page (congrArg geometry.locSectorNo same)]

theorem setLoc2id_pageLayout {loc page : Nat} {id : SlotId} {slots : PageArr}
    (stored : (layout.setLoc2id geometry loc id).pageLayout page = some slots) :
    page = geometry.locSectorNo loc ∨ layout.pageLayout page = some slots := by
  by_cases same : page = geometry.locSectorNo loc
  · exact .inl same
  · refine .inr ?_
    simpa only [setLoc2id, Function.update_of_ne same] using stored

/-- Writing a slot in use keeps the invariant. -/
theorem WellFormed.setLoc2id (wellFormed : layout.WellFormed geometry) {loc : Nat} (id : SlotId)
    (used : layout.loc2id geometry loc ≠ .kInvalidID) :
    (layout.setLoc2id geometry loc id).WellFormed geometry where
  aligned := wellFormed.aligned
  below page slots stored := by
    rcases setLoc2id_pageLayout stored with rfl | before
    · obtain ⟨slots, before, _⟩ := exists_page used
      exact wellFormed.below _ _ before
    · exact wellFormed.below page slots before
  queueNodup := wellFormed.queueNodup
  queueEmpty page queued := by
    have other : page ≠ geometry.locSectorNo loc := by
      rintro rfl
      exact wellFormed.not_mem_queue used queued
    obtain ⟨slots, stored, holes⟩ := wellFormed.queueEmpty page queued
    exact ⟨slots, by simpa only [Layout.setLoc2id, Function.update_of_ne other] using stored, holes⟩

/-- `erase_loc2id` frees one slot in use. -/
theorem loc2id_eraseLoc2id {loc : Nat} (used : layout.loc2id geometry loc ≠ .kInvalidID)
    (other : Nat) : (layout.eraseLoc2id geometry loc).loc2id geometry other =
      if other = loc then .kInvalidID else layout.loc2id geometry other := by
  obtain ⟨slots, stored, _⟩ := exists_page used
  unfold loc2id eraseLoc2id
  simp only [stored]
  by_cases page : geometry.locSectorNo other = geometry.locSectorNo loc
  · rw [page]
    simp only [Function.update_self, stored]
    by_cases slot : geometry.slotOf other = geometry.slotOf loc
    · rw [if_pos (Geometry.eq_of_sector_of_slot page slot), slot, Function.update_self]
    · rw [if_neg fun same => slot (congrArg geometry.slotOf same), Function.update_of_ne slot]
  · simp only [Function.update_of_ne page]
    rw [if_neg fun same => page (congrArg geometry.locSectorNo same)]

theorem pageIsEmpty_iff {slots : PageArr} :
    pageIsEmpty geometry slots = true ↔
      ∀ slot < geometry.nnodesPerSector, slots slot = .kInvalidID := by
  simp [pageIsEmpty]

/-- Freeing a slot in use keeps the invariant: its page may join the queue. -/
theorem WellFormed.eraseLoc2id (wellFormed : layout.WellFormed geometry) {loc : Nat}
    (used : layout.loc2id geometry loc ≠ .kInvalidID) :
    (layout.eraseLoc2id geometry loc).WellFormed geometry := by
  obtain ⟨slots, stored, _⟩ := exists_page used
  have unqueued := wellFormed.not_mem_queue used
  have queueEmpty : ∀ page ∈ layout.emptyPages, ∃ slots,
      (layout.eraseLoc2id geometry loc).pageLayout page = some slots ∧
        ∀ slot < geometry.nnodesPerSector, slots slot = .kInvalidID := by
    intro page queued
    have other : page ≠ geometry.locSectorNo loc := fun same => unqueued (same ▸ queued)
    obtain ⟨slots, before, holes⟩ := wellFormed.queueEmpty page queued
    refine ⟨slots, ?_, holes⟩
    simpa only [Layout.eraseLoc2id, stored, Function.update_of_ne other] using before
  refine ⟨?_, ?_, ?_, ?_⟩
  · simpa only [Layout.eraseLoc2id, stored] using wellFormed.aligned
  · intro page others after
    simp only [Layout.eraseLoc2id, stored] at after ⊢
    by_cases same : page = geometry.locSectorNo loc
    · subst same
      exact wellFormed.below _ _ stored
    · rw [Function.update_of_ne same] at after
      exact wellFormed.below _ _ after
  · simp only [Layout.eraseLoc2id, stored]
    split
    · rw [List.nodup_append_comm]
      exact wellFormed.queueNodup.cons unqueued
    · exact wellFormed.queueNodup
  · intro page queued
    simp only [Layout.eraseLoc2id, stored] at queued
    split at queued
    · rename_i empty
      rcases List.mem_append.mp queued with old | new
      · exact queueEmpty page old
      · rw [List.mem_singleton.mp new]
        refine ⟨_, ?_, pageIsEmpty_iff.mp empty⟩
        simp only [Layout.eraseLoc2id, stored, Function.update_self]
    · exact queueEmpty page queued

/-! ### `erase_and_set_loc` -/

/-- The first loop of `erase_and_set_loc` on slots in use. -/
theorem setAll {locs ids : List Nat} (wellFormed : layout.WellFormed geometry)
    (same : locs.length = ids.length) (distinct : locs.Nodup)
    (used : ∀ loc ∈ locs, layout.loc2id geometry loc ≠ .kInvalidID) :
    let after := (locs.zip ids).foldl
      (fun current pair => current.setLoc2id geometry pair.1 (.real pair.2)) layout
    after.WellFormed geometry ∧ after.id2loc = layout.id2loc ∧ after.curLoc = layout.curLoc ∧
      (∀ pair ∈ locs.zip ids, after.loc2id geometry pair.1 = .real pair.2) ∧
      ∀ loc ∉ locs, after.loc2id geometry loc = layout.loc2id geometry loc := by
  induction locs generalizing ids layout with
  | nil => exact ⟨wellFormed, rfl, rfl, nofun, fun _ _ => rfl⟩
  | cons loc rest inductionHypothesis =>
    cases ids with
    | nil => cases same
    | cons id others =>
      rw [List.nodup_cons] at distinct
      have usedAfter : ∀ other ∈ rest,
          (layout.setLoc2id geometry loc (.real id)).loc2id geometry other ≠ .kInvalidID := by
        intro other member
        have different : other ≠ loc := by
          rintro rfl
          exact distinct.1 member
        rw [loc2id_setLoc2id, if_neg different]
        exact used other (List.mem_cons_of_mem _ member)
      obtain ⟨formed, id2loc, curLoc, pairs, outside⟩ :=
        inductionHypothesis (wellFormed.setLoc2id (.real id) (used loc List.mem_cons_self))
          (Nat.succ.inj same) distinct.2 usedAfter
      refine ⟨formed, id2loc, curLoc, fun pair member => ?_, fun other absent => ?_⟩
      · rcases List.mem_cons.mp member with rfl | later
        · rw [List.zip_cons_cons, List.foldl_cons, outside loc distinct.1, loc2id_setLoc2id,
            if_pos rfl]
        · exact pairs pair later
      · rw [List.mem_cons, not_or] at absent
        rw [List.zip_cons_cons, List.foldl_cons, outside other absent.2, loc2id_setLoc2id,
          if_neg absent.1]

/-- The second loop of `erase_and_set_loc` on slots in use. -/
theorem eraseAll {locs : List Nat} (wellFormed : layout.WellFormed geometry)
    (distinct : locs.Nodup) (used : ∀ loc ∈ locs, layout.loc2id geometry loc ≠ .kInvalidID) :
    let after := locs.foldl (fun current loc => current.eraseLoc2id geometry loc) layout
    after.WellFormed geometry ∧ after.id2loc = layout.id2loc ∧ after.curLoc = layout.curLoc ∧
      (∀ loc ∈ locs, after.loc2id geometry loc = .kInvalidID) ∧
      ∀ loc ∉ locs, after.loc2id geometry loc = layout.loc2id geometry loc := by
  induction locs generalizing layout with
  | nil => exact ⟨wellFormed, rfl, rfl, nofun, fun _ _ => rfl⟩
  | cons loc rest inductionHypothesis =>
    rw [List.nodup_cons] at distinct
    have here := used loc List.mem_cons_self
    have usedAfter : ∀ other ∈ rest,
        (layout.eraseLoc2id geometry loc).loc2id geometry other ≠ .kInvalidID := by
      intro other member
      have different : other ≠ loc := by
        rintro rfl
        exact distinct.1 member
      rw [loc2id_eraseLoc2id here, if_neg different]
      exact used other (List.mem_cons_of_mem _ member)
    obtain ⟨slots, stored, _⟩ := exists_page here
    have fields : (layout.eraseLoc2id geometry loc).id2loc = layout.id2loc ∧
        (layout.eraseLoc2id geometry loc).curLoc = layout.curLoc := by
      simp only [Layout.eraseLoc2id, stored, and_self]
    obtain ⟨formed, id2loc, curLoc, erased, outside⟩ :=
      inductionHypothesis (wellFormed.eraseLoc2id here) distinct.2 usedAfter
    refine ⟨formed, id2loc.trans fields.1, curLoc.trans fields.2, fun other member => ?_,
      fun other absent => ?_⟩
    · rcases List.mem_cons.mp member with rfl | later
      · rw [List.foldl_cons, outside other distinct.1, loc2id_eraseLoc2id here, if_pos rfl]
      · exact erased other later
    · rw [List.mem_cons, not_or] at absent
      rw [List.foldl_cons, outside other absent.2, loc2id_eraseLoc2id here, if_neg absent.1]

/-- `erase_and_set_loc` leaves the locations of the ids. -/
theorem eraseAndSetLoc_id2loc (layout : Layout) (oldLocs newLocs ids : List Nat) :
    (layout.eraseAndSetLoc geometry oldLocs newLocs ids).id2loc = layout.id2loc := by
  have sets : ∀ (pairs : List (Nat × Nat)) (current : Layout), (pairs.foldl
      (fun current pair => current.setLoc2id geometry pair.1 (.real pair.2)) current).id2loc =
        current.id2loc := by
    intro pairs
    induction pairs with
    | nil => exact fun _ => rfl
    | cons pair rest inductionHypothesis => exact fun current => inductionHypothesis _
  have erases : ∀ (locs : List Nat) (current : Layout), (locs.foldl
      (fun current loc => current.eraseLoc2id geometry loc) current).id2loc = current.id2loc := by
    intro locs
    induction locs with
    | nil => exact fun _ => rfl
    | cons loc rest inductionHypothesis =>
      intro current
      rw [List.foldl_cons, inductionHypothesis, eraseLoc2id]
      split <;> rfl
  rw [eraseAndSetLoc, erases, sets]

/-- `erase_and_set_loc` on distinct slots in use: the new ones get their ids, the old ones
become holes, and the other slots stay. -/
theorem eraseAndSetLoc_spec {oldLocs newLocs ids : List Nat}
    (wellFormed : layout.WellFormed geometry) (same : newLocs.length = ids.length)
    (newDistinct : newLocs.Nodup) (oldDistinct : oldLocs.Nodup)
    (disjoint : ∀ loc ∈ oldLocs, loc ∉ newLocs)
    (newUsed : ∀ loc ∈ newLocs, layout.loc2id geometry loc ≠ .kInvalidID)
    (oldUsed : ∀ loc ∈ oldLocs, layout.loc2id geometry loc ≠ .kInvalidID) :
    let after := layout.eraseAndSetLoc geometry oldLocs newLocs ids
    after.WellFormed geometry ∧ after.id2loc = layout.id2loc ∧ after.curLoc = layout.curLoc ∧
      (∀ pair ∈ newLocs.zip ids, after.loc2id geometry pair.1 = .real pair.2) ∧
      (∀ loc ∈ oldLocs, after.loc2id geometry loc = .kInvalidID) ∧
      ∀ loc ∉ newLocs, loc ∉ oldLocs → after.loc2id geometry loc = layout.loc2id geometry loc := by
  obtain ⟨setFormed, setId2loc, setCurLoc, pairs, unset⟩ :=
    setAll wellFormed same newDistinct newUsed
  obtain ⟨formed, id2loc, curLoc, erased, kept⟩ := eraseAll setFormed oldDistinct
    fun loc member => unset loc (disjoint loc member) ▸ oldUsed loc member
  refine ⟨formed, id2loc.trans setId2loc, curLoc.trans setCurLoc, fun pair member => ?_, erased,
    fun loc new old => (kept loc old).trans (unset loc new)⟩
  have new : pair.1 ∈ newLocs := (List.of_mem_zip member).1
  exact (kept pair.1 fun old => disjoint _ old new).trans (pairs pair member)

/-! ### `alloc_loc` -/

variable (geometry) in
/-- What handing out slots does: the slots were holes, and exactly they are marked. On a page
that needs no read every slot was a hole. -/
structure Takes (before after : Layout) (locs needRead : List Nat) : Prop where
  formed : after.WellFormed geometry
  id2loc : after.id2loc = before.id2loc
  tail : before.curLoc ≤ after.curLoc
  distinct : locs.Nodup
  free : ∀ loc ∈ locs, before.loc2id geometry loc = .kInvalidID
  taken : ∀ loc, after.loc2id geometry loc =
    if loc ∈ locs then .kAllocatedID else before.loc2id geometry loc
  unread : ∀ loc ∈ locs, geometry.locSectorNo loc ∉ needRead → ∀ other,
    geometry.locSectorNo other = geometry.locSectorNo loc →
      before.loc2id geometry other = .kInvalidID

namespace Takes

variable {before middle after : Layout} {locs others needRead moreRead : List Nat}

theorem nothing (formed : layout.WellFormed geometry) : Takes geometry layout layout [] [] where
  formed := formed
  id2loc := rfl
  tail := Nat.le_refl _
  distinct := .nil
  free := nofun
  taken _ := (if_neg List.not_mem_nil).symm
  unread := nofun

/-- Slots are handed out twice. -/
theorem trans (first : Takes geometry before middle locs needRead)
    (second : Takes geometry middle after others moreRead) :
    Takes geometry before after (locs ++ others) (needRead ++ moreRead) := by
  have freeBefore : ∀ loc, middle.loc2id geometry loc = .kInvalidID →
      loc ∉ locs ∧ before.loc2id geometry loc = .kInvalidID := by
    intro loc free
    rw [first.taken] at free
    split at free
    · cases free
    · exact ⟨‹_›, free⟩
  refine ⟨second.formed, second.id2loc.trans first.id2loc, first.tail.trans second.tail,
    ?_, ?_, fun loc => ?_, ?_⟩
  · refine List.nodup_append.mpr ⟨first.distinct, second.distinct, ?_⟩
    rintro loc early _ late rfl
    exact (freeBefore loc (second.free loc late)).1 early
  · intro loc member
    rcases List.mem_append.mp member with early | late
    · exact first.free loc early
    · exact (freeBefore loc (second.free loc late)).2
  · rw [second.taken, first.taken]
    by_cases late : loc ∈ others
    · rw [if_pos late, if_pos (List.mem_append_right _ late)]
    · rw [if_neg late]
      simp only [List.mem_append, late, or_false]
  · intro loc member unread other same
    rw [List.mem_append, not_or] at unread
    rcases List.mem_append.mp member with early | late
    · exact first.unread loc early unread.1 other same
    · exact (freeBefore other (second.unread loc late unread.2 other same)).2

end Takes

/-- The scan of a page takes holes of it and marks exactly these. -/
theorem takeHoles_spec {places : List Nat} (distinct : places.Nodup) {remaining : Nat}
    (positive : 0 < remaining) (slots : PageArr) :
    let result := takeHoles places remaining slots
    result.2.Sublist places ∧ result.2.length ≤ remaining ∧
      (∀ slot ∈ result.2, slots slot = .kInvalidID) ∧
      ∀ slot, result.1 slot = if slot ∈ result.2 then .kAllocatedID else slots slot := by
  induction places generalizing remaining slots with
  | nil => exact ⟨.refl _, Nat.zero_le _, nofun, fun _ => (if_neg List.not_mem_nil).symm⟩
  | cons place rest inductionHypothesis =>
    rw [List.nodup_cons] at distinct
    rw [takeHoles]
    split
    · rename_i hole
      split
      · refine ⟨List.singleton_sublist.mpr List.mem_cons_self, by simp; omega, ?_, fun slot => ?_⟩
        · simpa using hole
        · simp only [Function.update_apply, List.mem_singleton]
      · obtain ⟨sublist, length, holes, marked⟩ := inductionHypothesis distinct.2
          (by omega : 0 < remaining - 1) (Function.update slots place .kAllocatedID)
        refine ⟨sublist.cons_cons place, by simp only [List.length_cons]; omega, ?_, fun slot => ?_⟩
        · intro slot member
          rcases List.mem_cons.mp member with rfl | later
          · exact hole
          · have before := holes slot later
            rwa [Function.update_of_ne] at before
            rintro rfl
            exact distinct.1 (sublist.subset later)
        · simp only [marked, List.mem_cons, Function.update_apply]
          grind
    · obtain ⟨sublist, length, holes, marked⟩ := inductionHypothesis distinct.2 positive slots
      exact ⟨sublist.cons place, length, holes, marked⟩

/-- A page without records is scanned like a hint page. -/
theorem takeEmptyPage_eq {places : List Nat} (distinct : places.Nodup) (remaining : Nat)
    {slots : PageArr} (holes : ∀ slot ∈ places, slots slot = .kInvalidID) :
    takeEmptyPage places remaining slots = some (takeHoles places remaining slots) := by
  induction places generalizing remaining slots with
  | nil => rfl
  | cons place rest inductionHypothesis =>
    rw [List.nodup_cons] at distinct
    rw [takeEmptyPage, takeHoles, if_pos (holes place List.mem_cons_self),
      if_pos (holes place List.mem_cons_self)]
    split
    · rfl
    · have later : ∀ slot ∈ rest,
          Function.update slots place .kAllocatedID slot = .kInvalidID := by
        intro slot member
        rw [Function.update_of_ne]
        · exact holes slot (List.mem_cons_of_mem _ member)
        · rintro rfl
          exact distinct.1 member
      dsimp only
      rw [inductionHypothesis distinct.2 _ later]
      rfl

/-- Taking the slots of one page. A page that stays in the queue is another one. -/
theorem takes_page (formed : layout.WellFormed geometry) {page remaining : Nat}
    {slots : PageArr} {queue needRead : List Nat} (stored : layout.pageLayout page = some slots)
    (positive : 0 < remaining) (queued : queue.Sublist layout.emptyPages) (left : page ∉ queue)
    (read : page ∈ needRead ∨ ∀ slot < geometry.nnodesPerSector, slots slot = .kInvalidID) :
    let result := takeHoles (List.range geometry.nnodesPerSector) remaining slots
    Takes geometry layout { layout.storePage page result.1 with emptyPages := queue }
      (result.2.map (geometry.sectorToLoc page)) needRead := by
  intro result
  obtain ⟨sublist, _, holes, marked⟩ := takeHoles_spec List.nodup_range positive slots
  have data := (formed.below _ _ stored).1
  have inside : ∀ slot ∈ result.2, slot < geometry.nnodesPerSector :=
    fun slot member => List.mem_range.mp (sublist.subset member)
  have sector : ∀ loc ∈ result.2.map (geometry.sectorToLoc page),
      geometry.locSectorNo loc = page := by
    intro loc member
    obtain ⟨slot, taken, rfl⟩ := List.mem_map.mp member
    exact Geometry.locSectorNo_sectorToLoc data (inside slot taken)
  have before : ∀ other, geometry.locSectorNo other = page →
      layout.loc2id geometry other = slots (geometry.slotOf other) := by
    intro other same
    rw [loc2id, same, stored]
  refine ⟨⟨formed.aligned, ?_, formed.queueNodup.sublist queued, ?_⟩, rfl, Nat.le_refl _, ?_, ?_,
    fun loc => ?_, ?_⟩
  · intro other others after
    by_cases same : other = page
    · subst same
      exact formed.below _ _ stored
    · refine formed.below other others ?_
      simpa only [storePage, Function.update_of_ne same] using after
  · intro other member
    obtain ⟨others, present, empty⟩ := formed.queueEmpty other (queued.subset member)
    have different : other ≠ page := by
      rintro rfl
      exact left member
    exact ⟨others, by simpa only [storePage, Function.update_of_ne different] using present, empty⟩
  · exact (List.nodup_range.sublist sublist).map fun _ _ => Geometry.sectorToLoc_injective
  · intro loc member
    obtain ⟨slot, taken, rfl⟩ := List.mem_map.mp member
    rw [loc2id_sectorToLoc stored data (inside slot taken)]
    exact holes slot taken
  · by_cases same : geometry.locSectorNo loc = page
    · have after : Layout.loc2id geometry
          { layout.storePage page result.1 with emptyPages := queue } loc =
            result.1 (geometry.slotOf loc) := by
        rw [loc2id, storePage, same]
        simp only [Function.update_self]
      have here : loc ∈ result.2.map (geometry.sectorToLoc page) ↔
          geometry.slotOf loc ∈ result.2 := by
        rw [List.mem_map]
        constructor
        · rintro ⟨slot, taken, rfl⟩
          rwa [Geometry.slotOf_sectorToLoc page (inside slot taken)]
        · refine fun taken => ⟨_, taken, ?_⟩
          rw [← same, geometry.sectorToLoc_locSectorNo]
      rw [after, marked, before loc same]
      simp only [here]
      rfl
    · rw [if_neg fun member => same (sector loc member), loc2id, storePage, loc2id]
      simp only [Function.update_of_ne same]
  · intro loc member unread other same
    rw [sector loc member] at unread same
    rw [before other same]
    exact (read.resolve_left unread) _ (geometry.slotOf_lt other)

/-- The first loop of `alloc_loc` takes slots of the pages in the queue, and the crash on a
page that is not empty does not occur. -/
theorem popEmptyPages_spec {queue : List Nat} {remaining : Nat} (positive : 0 < remaining)
    (formed : ({ layout with emptyPages := queue } : Layout).WellFormed geometry) :
    ∃ after locs, popEmptyPages geometry remaining queue layout = some (after, locs) ∧
      locs.length ≤ remaining ∧ (locs.length < remaining → after.emptyPages = []) ∧
      Takes geometry { layout with emptyPages := queue } after locs [] := by
  induction queue generalizing remaining layout with
  | nil => exact ⟨_, [], rfl, Nat.zero_le _, fun _ => rfl, .nothing formed⟩
  | cons page queue inductionHypothesis =>
    obtain ⟨slots, stored, holes⟩ := formed.queueEmpty page List.mem_cons_self
    have present : layout.pageLayout page = some slots := stored
    have left := (List.nodup_cons.mp formed.queueNodup).1
    obtain ⟨_, length, _, _⟩ :=
      takeHoles_spec (List.nodup_range (n := geometry.nnodesPerSector)) positive slots
    have taken := takes_page formed stored positive (List.sublist_cons_self page queue) left
      (.inr holes : page ∈ [] ∨ _)
    rw [popEmptyPages]
    simp only [present, takeEmptyPage_eq List.nodup_range remaining fun slot member =>
      holes slot (List.mem_range.mp member)]
    split
    · rename_i full
      exact ⟨_, _, rfl, by rw [List.length_map]; exact length,
        fun short => by rw [List.length_map] at short; omega, taken⟩
    · rename_i short
      obtain ⟨after, locs, popped, bound, empty, later⟩ :=
        @inductionHypothesis (layout.storePage page _) _
          (Nat.sub_pos_of_lt (lt_of_le_of_ne length short)) taken.formed
      refine ⟨after, _, by rw [popped]; rfl, ?_, ?_, taken.trans later⟩
      · simp only [List.length_append, List.length_map]
        omega
      · intro few
        simp only [List.length_append, List.length_map] at few
        exact empty (by omega)

theorem holes_of_holeCount {slots : PageArr}
    (full : ¬ holeCount geometry slots < geometry.nnodesPerSector) :
    ∀ slot < geometry.nnodesPerSector, slots slot = .kInvalidID := by
  have length : (List.range geometry.nnodesPerSector).length = geometry.nnodesPerSector :=
    List.length_range
  have all := (List.length_filter_eq_length_iff
    (p := fun slot => decide (slots slot = .kInvalidID))
    (l := List.range geometry.nnodesPerSector)).mp <|
      Nat.le_antisymm (List.length_filter_le _ _) (by rw [length]; exact Nat.le_of_not_lt full)
  exact fun slot inside => by simpa using all slot (List.mem_range.mpr inside)

/-- The second loop of `alloc_loc` takes holes of hint pages, and reads the pages that are not
all holes. -/
theorem useHintPages_spec {hints : List Nat} {remaining : Nat} (positive : 0 < remaining)
    (formed : layout.WellFormed geometry) (drained : layout.emptyPages = []) :
    let result := useHintPages geometry remaining hints layout
    result.2.1.length ≤ remaining ∧ Takes geometry layout result.1 result.2.1 result.2.2 := by
  induction hints generalizing remaining layout with
  | nil => exact ⟨Nat.zero_le _, .nothing formed⟩
  | cons page hints inductionHypothesis =>
    rw [useHintPages]
    cases stored : layout.pageLayout page with
    | none => exact inductionHypothesis positive formed drained
    | some slots =>
      dsimp only
      split
      · exact inductionHypothesis positive formed drained
      · have read : page ∈ (if holeCount geometry slots < geometry.nnodesPerSector then [page]
            else []) ∨ ∀ slot < geometry.nnodesPerSector, slots slot = .kInvalidID := by
          split
          · exact .inl List.mem_cons_self
          · exact .inr (holes_of_holeCount ‹_›)
        have taken := takes_page formed stored positive (.refl _)
          (by rw [drained]; exact List.not_mem_nil) read
        obtain ⟨_, length, _, _⟩ :=
          takeHoles_spec (List.nodup_range (n := geometry.nnodesPerSector)) positive slots
        split
        · exact ⟨by rw [List.length_map]; exact length, taken⟩
        · rename_i short
          obtain ⟨bound, later⟩ :=
            inductionHypothesis (Nat.sub_pos_of_lt (lt_of_le_of_ne length short)) taken.formed
            (by exact drained)
          refine ⟨?_, taken.trans later⟩
          simp only [List.length_append, List.length_map]
          exact (Nat.add_le_add_left bound _).trans (by omega)

variable (geometry) in
/-- Marking slots at the tail. -/
theorem reserveAll (locs : List Nat) (layout : Layout) :
    let after := locs.foldl (fun current loc => current.setLoc2id geometry loc .kAllocatedID) layout
    after.id2loc = layout.id2loc ∧ after.emptyPages = layout.emptyPages ∧
      (∀ loc, after.loc2id geometry loc =
        if loc ∈ locs then .kAllocatedID else layout.loc2id geometry loc) ∧
      (∀ page, page ∉ locs.map geometry.locSectorNo →
        after.pageLayout page = layout.pageLayout page) := by
  induction locs generalizing layout with
  | nil => exact ⟨rfl, rfl, fun _ => (if_neg List.not_mem_nil).symm, fun _ _ => rfl⟩
  | cons loc rest inductionHypothesis =>
    obtain ⟨id2loc, emptyPages, slots, pages⟩ :=
      inductionHypothesis (layout.setLoc2id geometry loc .kAllocatedID)
    refine ⟨id2loc, emptyPages, fun other => ?_, fun page absent => ?_⟩
    · rw [List.foldl_cons, slots, loc2id_setLoc2id]
      grind
    · rw [List.map_cons, List.mem_cons, not_or] at absent
      rw [List.foldl_cons, pages page absent.2]
      exact Function.update_of_ne absent.1 _ _

variable (geometry) in
/-- Rounding up to a full sector. -/
theorem aligned_tail (tail : Nat) :
    ∃ aligned, (if tail % geometry.nnodesPerSector ≠ 0 then
        tail + (geometry.nnodesPerSector - tail % geometry.nnodesPerSector) else tail) = aligned ∧
      tail ≤ aligned ∧ geometry.nnodesPerSector ∣ aligned := by
  refine ⟨_, rfl, ?_⟩
  split
  · have below := Nat.mod_lt tail geometry.nnodesPerSector_pos
    refine ⟨Nat.le_add_right _ _, (Nat.dvd_iff_mod_eq_zero).mpr ?_⟩
    rw [Nat.add_mod, Nat.mod_eq_of_lt (by omega : geometry.nnodesPerSector -
      tail % geometry.nnodesPerSector < geometry.nnodesPerSector),
      Nat.add_sub_cancel' (Nat.le_of_lt below), Nat.mod_self]
  · exact ⟨Nat.le_refl _, Nat.dvd_of_mod_eq_zero (not_not.mp ‹_›)⟩

/-- The last part of `alloc_loc` takes slots of new pages and keeps the tail aligned. -/
theorem reserveTail_spec (remaining : Nat) (formed : layout.WellFormed geometry) :
    let result := reserveTail geometry remaining layout
    result.2.length = remaining ∧ Takes geometry layout result.1 result.2 [] := by
  intro result
  obtain ⟨id2loc, emptyPages, slots, pages⟩ :=
    reserveAll geometry ((List.range remaining).map (layout.curLoc + ·)) layout
  obtain ⟨tail, tail_eq, tail_le, aligned⟩ :=
    aligned_tail geometry (layout.curLoc + remaining)
  have curLoc : result.1.curLoc = tail := tail_eq
  have grown : layout.curLoc / geometry.nnodesPerSector ≤ tail / geometry.nnodesPerSector :=
    Nat.div_le_div_right ((Nat.le_add_right _ _).trans tail_le)
  have fresh : ∀ loc ∈ result.2, layout.curLoc ≤ loc ∧ loc < tail := by
    intro loc member
    obtain ⟨offset, inside, rfl⟩ := List.mem_map.mp member
    have := List.mem_range.mp inside
    omega
  have unused : ∀ loc, layout.curLoc ≤ loc → layout.loc2id geometry loc = .kInvalidID := by
    intro loc above
    by_contra used
    exact absurd (formed.lt_curLoc used) (Nat.not_lt.mpr above)
  have above : ∀ loc ∈ result.2, ∀ other, geometry.locSectorNo other = geometry.locSectorNo loc →
      layout.curLoc ≤ other := by
    intro loc member other same
    by_contra below
    have early := Geometry.locSectorNo_le_of_lt formed.aligned (Nat.lt_of_not_le below)
    rw [same] at early
    exact absurd (Geometry.lt_of_locSectorNo_le formed.aligned early)
      (Nat.not_lt.mpr (fresh loc member).1)
  refine ⟨by simp [result, reserveTail], ⟨?_, ?_, ?_, ?_⟩, id2loc, ?_, ?_, ?_, slots, ?_⟩
  · rw [curLoc]
    exact aligned
  · intro page others stored
    rw [curLoc]
    by_cases new : page ∈ result.2.map geometry.locSectorNo
    · obtain ⟨loc, member, rfl⟩ := List.mem_map.mp new
      exact ⟨geometry.locSectorNo_pos loc,
        Geometry.locSectorNo_le_of_lt aligned (fresh loc member).2⟩
    · have before := formed.below page others ((pages page new).symm.trans stored)
      exact ⟨before.1, before.2.trans grown⟩
  · exact emptyPages ▸ formed.queueNodup
  · intro page queued
    obtain ⟨others, stored, holes⟩ := formed.queueEmpty page (emptyPages ▸ queued)
    refine ⟨others, (pages page fun new => ?_).trans stored, holes⟩
    obtain ⟨loc, member, rfl⟩ := List.mem_map.mp new
    exact absurd (Geometry.lt_of_locSectorNo_le formed.aligned (formed.below _ _ stored).2)
      (Nat.not_lt.mpr (fresh loc member).1)
  · rw [curLoc]
    exact (Nat.le_add_right _ _).trans tail_le
  · exact List.nodup_range.map fun _ _ => Nat.add_left_cancel
  · exact fun loc member => unused loc (fresh loc member).1
  · exact fun loc member _ other same => unused other (above loc member other same)

/-- `alloc_loc` never crashes on a well-formed layout and hands out as many slots as it is
asked for. -/
theorem allocLoc_spec (formed : layout.WellFormed geometry) {count : Nat} (positive : 0 < count)
    (hints : List Nat) :
    ∃ after locs needRead, layout.allocLoc geometry count hints = some (after, locs, needRead) ∧
      locs.length = count ∧ Takes geometry layout after locs needRead := by
  obtain ⟨popped, emptyLocs, pops, emptyBound, drained, takesEmpty⟩ :=
    @popEmptyPages_spec _ layout layout.emptyPages _ positive formed
  rw [allocLoc, pops]
  dsimp only
  split
  · exact ⟨_, _, _, rfl, ‹_›, takesEmpty⟩
  · rename_i short
    have few : emptyLocs.length < count := lt_of_le_of_ne emptyBound short
    obtain ⟨hintBound, takesHints⟩ := @useHintPages_spec _ _ hints _
      (Nat.sub_pos_of_lt few) takesEmpty.formed (drained few)
    have both := takesEmpty.trans takesHints
    split
    · exact ⟨_, _, _, rfl, by rw [List.length_append]; assumption, both⟩
    · obtain ⟨freshCount, takesFresh⟩ := reserveTail_spec
        (count - (emptyLocs.length + (useHintPages geometry (count - emptyLocs.length) hints
          popped).2.1.length)) both.formed
      refine ⟨_, _, _, rfl, ?_, ?_⟩
      · rw [List.length_append, List.length_append, freshCount]
        exact Nat.add_sub_cancel'
          ((Nat.add_le_add_left hintBound _).trans (Nat.add_sub_cancel' emptyBound).le)
      · have all := both.trans takesFresh
        rwa [List.append_nil] at all

end Layout

end OdinVector
