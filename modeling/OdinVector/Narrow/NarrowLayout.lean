/-
This file models the maps between ids and locations with the widths of the source: the
maps, the queue and the parameters of `loc2id`, `set_loc2id` and `erase_loc2id` have 32
bits, `cur_loc` and the locations that `alloc_loc` returns have 64. The two largest
numbers stand for a hole and for a slot that is handed out.

While ids, locations and pages are small these functions do what those of `Layout` do.
Counters of 64 bits do not wrap here.
-/

import OdinVector.Loading

namespace OdinVector

/-- A conversion to `uint32_t`. -/
def low32 (value : Nat) : Nat := value % 2 ^ 32

/-- The maps of an index as the source stores them. -/
@[ext] structure NarrowLayout where
  pageLayout : Nat → Option (Nat → Nat)
  id2loc : Nat → Option Nat
  emptyPages : List Nat
  curLoc : Nat

namespace NarrowLayout

/-- `kInvalidID`. -/
def kInvalidID : Nat := 2 ^ 32 - 1

/-- `kAllocatedID`. -/
def kAllocatedID : Nat := 2 ^ 32 - 2

variable (geometry : Geometry)

/-! ### Reading and writing slots -/

/-- `id2page`; `id2loc` crashes for an id that is not mapped. -/
def id2page (layout : NarrowLayout) (id : Nat) : Option Nat :=
  (layout.id2loc id).map fun loc =>
    if loc = kInvalidID then kInvalidID else geometry.locSectorNo loc

/-- `loc2id`. -/
def loc2id (layout : NarrowLayout) (loc : Nat) : Nat :=
  let loc := low32 loc
  let page := low32 (geometry.locSectorNo loc)
  match layout.pageLayout page with
  | some slots => slots (geometry.slotOf loc)
  | none => kInvalidID

/-- A page of `page_layout` is replaced. -/
def storePage (layout : NarrowLayout) (page : Nat) (slots : Nat → Nat) : NarrowLayout :=
  { layout with pageLayout := Function.update layout.pageLayout page (some slots) }

/-- `set_loc2id`. -/
def setLoc2id (layout : NarrowLayout) (loc id : Nat) : NarrowLayout :=
  let loc := low32 loc
  let page := low32 (geometry.locSectorNo loc)
  let slots := (layout.pageLayout page).getD fun _ => kInvalidID
  layout.storePage page (Function.update slots (geometry.slotOf loc) (low32 id))

/-- `erase_loc2id`. -/
def eraseLoc2id (layout : NarrowLayout) (loc : Nat) : NarrowLayout :=
  let loc := low32 loc
  let page := low32 (geometry.locSectorNo loc)
  match layout.pageLayout page with
  | none => layout.storePage page fun _ => 0
  | some slots =>
    let erased := Function.update slots (geometry.slotOf loc) kInvalidID
    let stored := layout.storePage page erased
    if (List.range geometry.nnodesPerSector).all fun slot => erased slot = kInvalidID then
      { stored with emptyPages := stored.emptyPages ++ [page] }
    else stored

/-- `erase_and_set_loc`. -/
def eraseAndSetLoc (layout : NarrowLayout) (oldLocs newLocs newIds : List Nat) : NarrowLayout :=
  let set := (newLocs.zip newIds).foldl
    (fun current pair => current.setLoc2id geometry pair.1 pair.2) layout
  oldLocs.foldl (fun current loc => current.eraseLoc2id geometry loc) set

/-! ### Handing out slots -/

/-- The scan of a hint page. -/
def takeHoles : List Nat → Nat → (Nat → Nat) → (Nat → Nat) × List Nat
  | [], _, slots => (slots, [])
  | slot :: rest, remaining, slots =>
    if slots slot = kInvalidID then
      let marked := Function.update slots slot kAllocatedID
      if remaining = 1 then (marked, [slot])
      else
        let (final, taken) := takeHoles rest (remaining - 1) marked
        (final, slot :: taken)
    else takeHoles rest remaining slots

/-- The scan of a page of the queue; `none` is the crash on a slot that is not a hole. -/
def takeEmptyPage : List Nat → Nat → (Nat → Nat) → Option ((Nat → Nat) × List Nat)
  | [], _, slots => some (slots, [])
  | slot :: rest, remaining, slots =>
    if slots slot = kInvalidID then
      let marked := Function.update slots slot kAllocatedID
      if remaining = 1 then some (marked, [slot])
      else (takeEmptyPage rest (remaining - 1) marked).map fun result =>
        (result.1, slot :: result.2)
    else none

/-- The first loop of `alloc_loc`. A page `kInvalidID` means that the queue is empty. -/
def popEmptyPages : Nat → List Nat → NarrowLayout → Option (NarrowLayout × List Nat)
  | _, [], layout => some ({ layout with emptyPages := [] }, [])
  | remaining, page :: queue, layout =>
    if page = kInvalidID then some ({ layout with emptyPages := queue }, [])
    else
      match layout.pageLayout page with
      | none => popEmptyPages remaining queue layout
      | some slots =>
        match takeEmptyPage (List.range geometry.nnodesPerSector) remaining slots with
        | none => none
        | some (marked, taken) =>
          let stored := layout.storePage page marked
          let locs := taken.map (geometry.sectorToLoc page)
          if taken.length = remaining then some ({ stored with emptyPages := queue }, locs)
          else (popEmptyPages (remaining - taken.length) queue stored).map fun result =>
            (result.1, locs ++ result.2)

/-- The second loop of `alloc_loc`; the pages have 64 bits and the keys of `page_layout` 32. -/
def useHintPages : Nat → List Nat → NarrowLayout → NarrowLayout × List Nat × List Nat
  | _, [], layout => (layout, [], [])
  | remaining, page :: hints, layout =>
    match layout.pageLayout (low32 page) with
    | none => useHintPages remaining hints layout
    | some slots =>
      let cnt := ((List.range geometry.nnodesPerSector).filter fun slot =>
        slots slot = kInvalidID).length
      if cnt < Layout.threshold geometry then useHintPages remaining hints layout
      else
        let read := if cnt < geometry.nnodesPerSector then [page] else []
        let (marked, taken) := takeHoles (List.range geometry.nnodesPerSector) remaining slots
        let stored := layout.storePage (low32 page) marked
        let locs := taken.map (geometry.sectorToLoc page)
        if taken.length = remaining then (stored, locs, read)
        else
          let (final, moreLocs, moreRead) :=
            useHintPages (remaining - taken.length) hints stored
          (final, locs ++ moreLocs, read ++ moreRead)

/-- The last part of `alloc_loc`: the locations that are returned have 64 bits, those that are
marked 32. -/
def reserveTail (remaining : Nat) (layout : NarrowLayout) : NarrowLayout × List Nat :=
  let locs := (List.range remaining).map (layout.curLoc + ·)
  let marked := locs.foldl (fun current loc => current.setLoc2id geometry loc kAllocatedID) layout
  ({ marked with curLoc := Layout.alignedTail geometry (layout.curLoc + remaining) }, locs)

/-- `alloc_loc`. -/
def allocLoc (count : Nat) (hintPages : List Nat) (layout : NarrowLayout) :
    Option (NarrowLayout × List Nat × List Nat) :=
  match popEmptyPages geometry count layout.emptyPages layout with
  | none => none
  | some (popped, emptyLocs) =>
    if emptyLocs.length = count then some (popped, emptyLocs, [])
    else
      let (hinted, hintLocs, needRead) :=
        useHintPages geometry (count - emptyLocs.length) hintPages popped
      if emptyLocs.length + hintLocs.length = count then
        some (hinted, emptyLocs ++ hintLocs, needRead)
      else
        let (extended, freshLocs) :=
          reserveTail geometry (count - (emptyLocs.length + hintLocs.length)) hinted
        some (extended, emptyLocs ++ hintLocs ++ freshLocs, needRead)

end NarrowLayout

/-! ### What is stored for a layout -/

/-- The number that stands for a slot. -/
def SlotId.narrow : SlotId → Nat
  | .kInvalidID => NarrowLayout.kInvalidID
  | .kAllocatedID => NarrowLayout.kAllocatedID
  | .real id => low32 id

namespace Layout

/-- A layout as the source stores it. -/
def narrow (layout : Layout) : NarrowLayout where
  pageLayout page := (layout.pageLayout page).map fun slots slot => (slots slot).narrow
  id2loc := layout.id2loc
  emptyPages := layout.emptyPages
  curLoc := layout.curLoc

/-- Ids that do not look like a sentinel. -/
def SmallSlots (slots : PageArr) : Prop :=
  ∀ slot id, slots slot = .real id → id < NarrowLayout.kAllocatedID

/-- Ids, locations and pages that 32 bits can hold and that are no sentinel. -/
structure Fits (layout : Layout) : Prop where
  pages : ∀ page slots, layout.pageLayout page = some slots →
    1 ≤ page ∧ page < NarrowLayout.kInvalidID
  slots : ∀ page slots, layout.pageLayout page = some slots → SmallSlots slots
  ids : ∀ id loc, layout.id2loc id = some loc →
    id < NarrowLayout.kAllocatedID ∧ loc < NarrowLayout.kAllocatedID
  queue : ∀ page ∈ layout.emptyPages, page < NarrowLayout.kInvalidID

end Layout

/-! ### Numbers that fit -/

section Numbers

theorem low32_of_lt {value : Nat} (small : value < 2 ^ 32) : low32 value = value :=
  Nat.mod_eq_of_lt small

theorem low32_of_lt_kAllocatedID {value : Nat} (small : value < NarrowLayout.kAllocatedID) :
    low32 value = value :=
  low32_of_lt (small.trans (by decide))

theorem low32_of_lt_kInvalidID {value : Nat} (small : value < NarrowLayout.kInvalidID) :
    low32 value = value :=
  low32_of_lt (small.trans (by decide))

/-- The page of a small location. -/
theorem locSectorNo_lt {geometry : Geometry} {loc : Nat}
    (small : loc < NarrowLayout.kAllocatedID) :
    geometry.locSectorNo loc < NarrowLayout.kInvalidID := by
  have quotient := Nat.div_le_self loc geometry.nnodesPerSector
  unfold Geometry.locSectorNo
  unfold NarrowLayout.kAllocatedID at small
  unfold NarrowLayout.kInvalidID
  omega

theorem narrow_eq_kInvalidID {slots : PageArr} (small : Layout.SmallSlots slots) (slot : Nat) :
    (slots slot).narrow = NarrowLayout.kInvalidID ↔ slots slot = .kInvalidID := by
  cases held : slots slot with
  | kInvalidID => exact ⟨fun _ => rfl, fun _ => rfl⟩
  | kAllocatedID =>
    refine ⟨fun same => absurd same (by decide), fun same => by cases same⟩
  | real id =>
    have below := small slot id held
    refine ⟨fun same => ?_, fun same => by cases same⟩
    have number : low32 id = NarrowLayout.kInvalidID := same
    rw [low32_of_lt_kAllocatedID below] at number
    rw [number] at below
    exact absurd below (by decide)

theorem low32_narrow (slot : SlotId) : low32 slot.narrow = slot.narrow := by
  cases slot with
  | kInvalidID => rfl
  | kAllocatedID => rfl
  | real id => exact Nat.mod_mod _ _

end Numbers

/-! ### Pages -/

namespace Layout

variable {geometry : Geometry} {layout : Layout}

theorem narrow_update (slots : PageArr) (place : Nat) (id : SlotId) :
    (fun slot => (Function.update slots place id slot).narrow) =
      Function.update (fun slot => (slots slot).narrow) place id.narrow := by
  funext slot
  by_cases same : slot = place
  · rw [same, Function.update_self, Function.update_self]
  · rw [Function.update_of_ne same, Function.update_of_ne same]

theorem storePage_self (layout : Layout) (page : Nat) (slots : PageArr) :
    (layout.storePage page slots).pageLayout page = some slots :=
  Function.update_self _ _ _

theorem storePage_other {page other : Nat} (differ : other ≠ page) (slots : PageArr) :
    (layout.storePage page slots).pageLayout other = layout.pageLayout other :=
  Function.update_of_ne differ _ _

theorem narrow_storePage (layout : Layout) (page : Nat) (slots : PageArr) :
    (layout.storePage page slots).narrow =
      layout.narrow.storePage page fun slot => (slots slot).narrow := by
  have pages : (layout.storePage page slots).narrow.pageLayout =
      (layout.narrow.storePage page fun slot => (slots slot).narrow).pageLayout := by
    funext other
    show (Function.update layout.pageLayout page (some slots) other).map _ =
      Function.update layout.narrow.pageLayout page _ other
    by_cases same : other = page
    · rw [same, Function.update_self, Function.update_self, Option.map_some]
    · rw [Function.update_of_ne same, Function.update_of_ne same]
      rfl
  exact NarrowLayout.ext pages rfl rfl rfl

/-! ### Small values stay small -/

theorem SmallSlots.update {slots : PageArr} (small : SmallSlots slots) (place : Nat) {id : SlotId}
    (fits : ∀ number, id = .real number → number < NarrowLayout.kAllocatedID) :
    SmallSlots (Function.update slots place id) := by
  intro slot number held
  by_cases same : slot = place
  · rw [same, Function.update_self] at held
    exact fits number held
  · rw [Function.update_of_ne same] at held
    exact small slot number held

theorem Fits.storePage (fits : layout.Fits) {page : Nat} {slots : PageArr}
    (inside : 1 ≤ page ∧ page < NarrowLayout.kInvalidID) (small : SmallSlots slots) :
    (layout.storePage page slots).Fits where
  pages other stored held := by
    by_cases same : other = page
    · rw [same]
      exact inside
    · rw [storePage_other same] at held
      exact fits.pages other stored held
  slots other stored held := by
    by_cases same : other = page
    · rw [same, storePage_self] at held
      exact Option.some.inj held ▸ small
    · rw [storePage_other same] at held
      exact fits.slots other stored held
  ids := fits.ids
  queue := fits.queue

theorem smallSlots_getD (fits : layout.Fits) (page : Nat) :
    SmallSlots ((layout.pageLayout page).getD fun _ => .kInvalidID) := by
  cases stored : layout.pageLayout page with
  | none => exact fun slot id held => by cases held
  | some slots => exact fits.slots page slots stored

theorem Fits.setLoc2id (fits : layout.Fits) {loc : Nat} (small : loc < NarrowLayout.kAllocatedID)
    {id : SlotId} (real : ∀ number, id = .real number → number < NarrowLayout.kAllocatedID) :
    (layout.setLoc2id geometry loc id).Fits :=
  fits.storePage ⟨geometry.locSectorNo_pos loc, locSectorNo_lt small⟩
    ((smallSlots_getD fits _).update _ real)

/-! ### Slots -/

theorem setLoc2id_narrow (layout : Layout) {loc : Nat} (small : loc < NarrowLayout.kAllocatedID)
    (id : SlotId) :
    layout.narrow.setLoc2id geometry loc id.narrow = (layout.setLoc2id geometry loc id).narrow := by
  unfold NarrowLayout.setLoc2id
  dsimp only
  rw [low32_of_lt_kAllocatedID small, low32_of_lt_kInvalidID (locSectorNo_lt small), low32_narrow]
  show _ = (layout.storePage _ _).narrow
  rw [narrow_storePage, narrow_update]
  congr 2
  show (Option.map _ (layout.pageLayout (geometry.locSectorNo loc))).getD _ = _
  cases layout.pageLayout (geometry.locSectorNo loc) <;> rfl

/-- A small location is looked up as it is. -/
theorem loc2id_narrow (fits : layout.Fits) {loc : Nat} (small : loc < 2 ^ 32) :
    layout.narrow.loc2id geometry loc = (layout.loc2id geometry loc).narrow := by
  have quotient := Nat.div_le_self loc geometry.nnodesPerSector
  unfold NarrowLayout.loc2id Layout.loc2id
  dsimp only
  rw [low32_of_lt small]
  have there : layout.narrow.pageLayout (low32 (geometry.locSectorNo loc)) =
      (layout.pageLayout (geometry.locSectorNo loc)).map fun slots slot => (slots slot).narrow := by
    obtain below | above := Nat.lt_or_ge (geometry.locSectorNo loc) (2 ^ 32)
    · rw [low32_of_lt below]
      rfl
    · -- The page behind the last one is looked up as page 0; neither is there.
      have last : geometry.locSectorNo loc = 2 ^ 32 := by
        unfold Geometry.locSectorNo at above ⊢
        omega
      have first : layout.pageLayout 0 = none := by
        by_contra there
        obtain ⟨slots, stored⟩ := Option.ne_none_iff_exists'.mp there
        exact absurd (fits.pages 0 slots stored).1 (by decide)
      have behind : layout.pageLayout (2 ^ 32) = none := by
        by_contra there
        obtain ⟨slots, stored⟩ := Option.ne_none_iff_exists'.mp there
        exact absurd (fits.pages _ slots stored).2 (by decide)
      rw [last, behind]
      show (layout.pageLayout 0).map _ = _
      rw [first]
  rw [there]
  cases layout.pageLayout (geometry.locSectorNo loc) <;> rfl

theorem eraseLoc2id_narrow (fits : layout.Fits) {loc : Nat}
    (small : loc < NarrowLayout.kAllocatedID) :
    layout.narrow.eraseLoc2id geometry loc = (layout.eraseLoc2id geometry loc).narrow := by
  have there : layout.narrow.pageLayout (geometry.locSectorNo loc) =
      (layout.pageLayout (geometry.locSectorNo loc)).map fun slots slot => (slots slot).narrow :=
    rfl
  unfold NarrowLayout.eraseLoc2id Layout.eraseLoc2id
  dsimp only
  rw [low32_of_lt_kAllocatedID small, low32_of_lt_kInvalidID (locSectorNo_lt small), there]
  cases stored : layout.pageLayout (geometry.locSectorNo loc) with
  | none =>
    rw [Option.map_none]
    exact (narrow_storePage layout _ fun _ => .real 0).symm
  | some slots =>
    have erasedSmall : SmallSlots (Function.update slots (geometry.slotOf loc) .kInvalidID) :=
      (fits.slots _ slots stored).update _ fun number held => by cases held
    have isEmpty : ((List.range geometry.nnodesPerSector).all fun slot =>
        Function.update (fun slot => (slots slot).narrow) (geometry.slotOf loc)
          NarrowLayout.kInvalidID slot = NarrowLayout.kInvalidID) =
        pageIsEmpty geometry (Function.update slots (geometry.slotOf loc) .kInvalidID) := by
      unfold pageIsEmpty
      congr 1
      funext slot
      rw [← decide_eq_decide.mpr (narrow_eq_kInvalidID erasedSmall slot)]
      exact congrArg (fun stored : Nat → Nat => decide (stored slot = NarrowLayout.kInvalidID))
        (narrow_update slots (geometry.slotOf loc) .kInvalidID).symm
    have page := narrow_storePage layout (geometry.locSectorNo loc)
      (Function.update slots (geometry.slotOf loc) .kInvalidID)
    rw [narrow_update] at page
    rw [Option.map_some]
    dsimp only
    rw [isEmpty]
    split
    · exact congrArg (fun current : NarrowLayout =>
        { current with emptyPages := current.emptyPages ++ [geometry.locSectorNo loc] }) page.symm
    · exact page.symm

theorem Fits.eraseLoc2id (fits : layout.Fits) {loc : Nat}
    (small : loc < NarrowLayout.kAllocatedID) : (layout.eraseLoc2id geometry loc).Fits := by
  have page := @locSectorNo_lt geometry loc small
  unfold Layout.eraseLoc2id
  dsimp only
  cases stored : layout.pageLayout (geometry.locSectorNo loc) with
  | none =>
    refine fits.storePage ⟨geometry.locSectorNo_pos loc, page⟩ fun slot number held => ?_
    cases held
    decide
  | some slots =>
    have erased := fits.storePage ⟨geometry.locSectorNo_pos loc, page⟩
      ((fits.slots _ slots stored).update (geometry.slotOf loc) fun number (held :
        SlotId.kInvalidID = .real number) => by cases held)
    refine ⟨erased.pages, erased.slots, erased.ids, fun queued member => ?_⟩
    dsimp only at member
    split at member
    · obtain before | last := List.mem_append.mp member
      · exact fits.queue queued before
      · exact List.mem_singleton.mp last ▸ page
    · exact fits.queue queued member

end Layout

end OdinVector
