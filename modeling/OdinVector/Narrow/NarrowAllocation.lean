/-
This file proves that `alloc_loc` and `erase_and_set_loc` do with 32 bits what they do
with numbers of any size, while the pages of the layout are small and the locations that
are handed out are below `kAllocatedID`.
-/

import OdinVector.Narrow.NarrowLayout

namespace OdinVector

namespace Layout

variable {geometry : Geometry} {layout : Layout}

/-! ### Scanning a page -/

theorem takeHoles_narrow (places : List Nat) (remaining : Nat) {slots : PageArr}
    (small : SmallSlots slots) :
    NarrowLayout.takeHoles places remaining (fun slot => (slots slot).narrow) =
        ((fun slot => ((takeHoles places remaining slots).1 slot).narrow),
          (takeHoles places remaining slots).2) ∧
      SmallSlots (takeHoles places remaining slots).1 := by
  induction places generalizing remaining slots with
  | nil => exact ⟨rfl, small⟩
  | cons slot rest inductionHypothesis =>
    have marked : SmallSlots (Function.update slots slot .kAllocatedID) :=
      small.update slot fun number held => by cases held
    unfold NarrowLayout.takeHoles takeHoles
    by_cases hole : slots slot = .kInvalidID
    · rw [if_pos ((narrow_eq_kInvalidID small slot).mpr hole), if_pos hole,
        show NarrowLayout.kAllocatedID = SlotId.kAllocatedID.narrow from rfl, ← narrow_update]
      by_cases last : remaining = 1
      · rw [if_pos last, if_pos last]
        exact ⟨rfl, marked⟩
      · rw [if_neg last, if_neg last]
        obtain ⟨same, after⟩ := inductionHypothesis (remaining - 1) marked
        rw [same]
        exact ⟨rfl, after⟩
    · rw [if_neg fun same => hole ((narrow_eq_kInvalidID small slot).mp same), if_neg hole]
      exact inductionHypothesis remaining small

theorem takeEmptyPage_narrow (places : List Nat) (remaining : Nat) {slots : PageArr}
    (small : SmallSlots slots) :
    NarrowLayout.takeEmptyPage places remaining (fun slot => (slots slot).narrow) =
        (takeEmptyPage places remaining slots).map (fun result =>
          ((fun slot => (result.1 slot).narrow), result.2)) ∧
      ∀ result, takeEmptyPage places remaining slots = some result → SmallSlots result.1 := by
  induction places generalizing remaining slots with
  | nil =>
    refine ⟨rfl, fun result taken => ?_⟩
    obtain rfl := Option.some.inj taken
    exact small
  | cons slot rest inductionHypothesis =>
    have marked : SmallSlots (Function.update slots slot .kAllocatedID) :=
      small.update slot fun number held => by cases held
    unfold NarrowLayout.takeEmptyPage takeEmptyPage
    by_cases hole : slots slot = .kInvalidID
    · rw [if_pos ((narrow_eq_kInvalidID small slot).mpr hole), if_pos hole,
        show NarrowLayout.kAllocatedID = SlotId.kAllocatedID.narrow from rfl, ← narrow_update]
      by_cases last : remaining = 1
      · rw [if_pos last, if_pos last]
        refine ⟨rfl, fun result taken => ?_⟩
        obtain rfl := Option.some.inj taken
        exact marked
      · rw [if_neg last, if_neg last]
        obtain ⟨same, after⟩ := inductionHypothesis (remaining - 1) marked
        rw [same, Option.map_map, Option.map_map]
        refine ⟨rfl, fun result taken => ?_⟩
        obtain ⟨inner, found, rfl⟩ := Option.map_eq_some_iff.mp taken
        exact after inner found
    · rw [if_neg fun same => hole ((narrow_eq_kInvalidID small slot).mp same), if_neg hole]
      exact ⟨rfl, fun result taken => by cases taken⟩

theorem holeCount_narrow {slots : PageArr} (small : SmallSlots slots) :
    ((List.range geometry.nnodesPerSector).filter fun slot =>
      (slots slot).narrow = NarrowLayout.kInvalidID).length = holeCount geometry slots := by
  unfold holeCount
  congr 2
  funext slot
  exact decide_eq_decide.mpr (narrow_eq_kInvalidID small slot)

/-! ### The three sources of slots -/

theorem popEmptyPages_narrow (remaining : Nat) {queue : List Nat}
    (small : ∀ page ∈ queue, page < NarrowLayout.kInvalidID) (fits : layout.Fits) :
    NarrowLayout.popEmptyPages geometry remaining queue layout.narrow =
        (popEmptyPages geometry remaining queue layout).map (fun result =>
          (result.1.narrow, result.2)) ∧
      ∀ result, popEmptyPages geometry remaining queue layout = some result →
        result.1.Fits := by
  induction queue generalizing remaining layout with
  | nil =>
    refine ⟨rfl, fun result popped => ?_⟩
    obtain rfl := Option.some.inj popped
    exact ⟨fits.pages, fits.slots, fits.ids, fun page none => absurd none List.not_mem_nil⟩
  | cons page queue inductionHypothesis =>
    have rest : ∀ other ∈ queue, other < NarrowLayout.kInvalidID :=
      fun other member => small other (List.mem_cons_of_mem _ member)
    have here : layout.narrow.pageLayout page =
        (layout.pageLayout page).map fun slots slot => (slots slot).narrow := rfl
    unfold NarrowLayout.popEmptyPages popEmptyPages
    rw [if_neg (small page List.mem_cons_self).ne, here]
    cases stored : layout.pageLayout page with
    | none => exact inductionHypothesis remaining rest fits
    | some slots =>
      rw [Option.map_some]
      dsimp only
      obtain ⟨same, after⟩ := takeEmptyPage_narrow (List.range geometry.nnodesPerSector) remaining
        (fits.slots page slots stored)
      rw [same]
      cases taken : takeEmptyPage (List.range geometry.nnodesPerSector) remaining slots with
      | none => exact ⟨rfl, fun result popped => by cases popped⟩
      | some marked =>
        have next := fits.storePage (fits.pages page slots stored) (after marked taken)
        rw [Option.map_some]
        dsimp only
        rw [← narrow_storePage]
        by_cases enough : marked.2.length = remaining
        · rw [if_pos enough, if_pos enough]
          refine ⟨rfl, fun result popped => ?_⟩
          obtain rfl := Option.some.inj popped
          exact ⟨next.pages, next.slots, next.ids, rest⟩
        · rw [if_neg enough, if_neg enough]
          obtain ⟨later, fitsAfter⟩ := inductionHypothesis (remaining - marked.2.length) rest next
          rw [later, Option.map_map, Option.map_map]
          refine ⟨rfl, fun result popped => ?_⟩
          obtain ⟨inner, found, rfl⟩ := Option.map_eq_some_iff.mp popped
          exact fitsAfter inner found

theorem useHintPages_narrow (remaining : Nat) {hints : List Nat}
    (small : ∀ page ∈ hints, page < 2 ^ 32) (fits : layout.Fits) :
    NarrowLayout.useHintPages geometry remaining hints layout.narrow =
        ((useHintPages geometry remaining hints layout).1.narrow,
          (useHintPages geometry remaining hints layout).2) ∧
      (useHintPages geometry remaining hints layout).1.Fits := by
  induction hints generalizing remaining layout with
  | nil => exact ⟨rfl, fits⟩
  | cons page hints inductionHypothesis =>
    have rest : ∀ other ∈ hints, other < 2 ^ 32 :=
      fun other member => small other (List.mem_cons_of_mem _ member)
    have here : layout.narrow.pageLayout page =
        (layout.pageLayout page).map fun slots slot => (slots slot).narrow := rfl
    unfold NarrowLayout.useHintPages useHintPages
    rw [low32_of_lt (small page List.mem_cons_self), here]
    cases stored : layout.pageLayout page with
    | none => exact inductionHypothesis remaining rest fits
    | some slots =>
      have slotsSmall := fits.slots page slots stored
      rw [Option.map_some]
      dsimp only
      rw [holeCount_narrow slotsSmall]
      by_cases few : holeCount geometry slots < threshold geometry
      · rw [if_pos few, if_pos few]
        exact inductionHypothesis remaining rest fits
      · rw [if_neg few, if_neg few]
        obtain ⟨same, after⟩ := takeHoles_narrow (List.range geometry.nnodesPerSector) remaining
          slotsSmall
        rw [same]
        dsimp only
        have next := fits.storePage (fits.pages page slots stored) after
        rw [← narrow_storePage]
        by_cases enough :
            (takeHoles (List.range geometry.nnodesPerSector) remaining slots).2.length = remaining
        · rw [if_pos enough, if_pos enough]
          exact ⟨rfl, next⟩
        · rw [if_neg enough, if_neg enough]
          obtain ⟨later, fitsAfter⟩ := inductionHypothesis (remaining -
            (takeHoles (List.range geometry.nnodesPerSector) remaining slots).2.length) rest next
          rw [later]
          exact ⟨rfl, fitsAfter⟩

/-- Slots of small locations are written in turn. -/
theorem setAll_narrow {pairs : List (Nat × SlotId)} (fits : layout.Fits)
    (small : ∀ pair ∈ pairs, pair.1 < NarrowLayout.kAllocatedID ∧
      ∀ number, pair.2 = .real number → number < NarrowLayout.kAllocatedID) :
    pairs.foldl (fun current pair => NarrowLayout.setLoc2id geometry current pair.1 pair.2.narrow)
        layout.narrow =
        (pairs.foldl (fun current pair => current.setLoc2id geometry pair.1 pair.2) layout).narrow ∧
      (pairs.foldl (fun current pair => current.setLoc2id geometry pair.1 pair.2) layout).Fits := by
  induction pairs generalizing layout with
  | nil => exact ⟨rfl, fits⟩
  | cons pair rest inductionHypothesis =>
    obtain ⟨location, real⟩ := small pair List.mem_cons_self
    rw [List.foldl_cons, List.foldl_cons, setLoc2id_narrow layout location]
    exact inductionHypothesis (fits.setLoc2id location real)
      fun other member => small other (List.mem_cons_of_mem _ member)

theorem eraseAll_narrow {locs : List Nat} (fits : layout.Fits)
    (small : ∀ loc ∈ locs, loc < NarrowLayout.kAllocatedID) :
    locs.foldl (fun current loc => NarrowLayout.eraseLoc2id geometry current loc) layout.narrow =
        (locs.foldl (fun current loc => current.eraseLoc2id geometry loc) layout).narrow ∧
      (locs.foldl (fun current loc => current.eraseLoc2id geometry loc) layout).Fits := by
  induction locs generalizing layout with
  | nil => exact ⟨rfl, fits⟩
  | cons loc rest inductionHypothesis =>
    have location := small loc List.mem_cons_self
    rw [List.foldl_cons, List.foldl_cons, eraseLoc2id_narrow fits location]
    exact inductionHypothesis (fits.eraseLoc2id location)
      fun other member => small other (List.mem_cons_of_mem _ member)

theorem reserveTail_narrow (remaining : Nat) (fits : layout.Fits)
    (small : ∀ loc ∈ (reserveTail geometry remaining layout).2, loc < NarrowLayout.kAllocatedID) :
    NarrowLayout.reserveTail geometry remaining layout.narrow =
        ((reserveTail geometry remaining layout).1.narrow,
          (reserveTail geometry remaining layout).2) ∧
      (reserveTail geometry remaining layout).1.Fits := by
  obtain ⟨same, after⟩ := @setAll_narrow geometry layout
    (((List.range remaining).map (layout.curLoc + ·)).map fun loc => (loc, .kAllocatedID)) fits
    fun pair member => by
      obtain ⟨loc, inside, rfl⟩ := List.mem_map.mp member
      exact ⟨small loc inside, fun number held => by cases held⟩
  simp only [List.foldl_map] at same after
  unfold NarrowLayout.reserveTail reserveTail
  simp only [List.foldl_map]
  refine ⟨Prod.ext ?_ rfl, after.pages, after.slots, after.ids, after.queue⟩
  exact congrArg (fun current : NarrowLayout =>
    { current with curLoc := alignedTail geometry (layout.curLoc + remaining) }) same

/-! ### The allocator -/

/-- `alloc_loc` hands out the same locations, when these and the hint pages are small. -/
theorem allocLoc_narrow (count : Nat) {hints : List Nat}
    (hintsSmall : ∀ page ∈ hints, page < 2 ^ 32) (fits : layout.Fits)
    (small : ∀ result, allocLoc geometry count hints layout = some result →
      ∀ loc ∈ result.2.1, loc < NarrowLayout.kAllocatedID) :
    NarrowLayout.allocLoc geometry count hints layout.narrow =
        (allocLoc geometry count hints layout).map (fun result => (result.1.narrow, result.2)) ∧
      ∀ result, allocLoc geometry count hints layout = some result → result.1.Fits := by
  obtain ⟨pops, fitsPopped⟩ := @popEmptyPages_narrow geometry _ count _ fits.queue fits
  unfold NarrowLayout.allocLoc
  unfold allocLoc at small ⊢
  rw [show layout.narrow.emptyPages = layout.emptyPages from rfl, pops]
  cases popped : popEmptyPages geometry count layout.emptyPages layout with
  | none => exact ⟨rfl, fun result wrong => by cases wrong⟩
  | some first =>
    have fitsFirst := fitsPopped first popped
    rw [popped] at small
    rw [Option.map_some]
    dsimp only at small ⊢
    by_cases full : first.2.length = count
    · rw [if_pos full, if_pos full]
      refine ⟨rfl, fun result found => ?_⟩
      obtain rfl := Option.some.inj found
      exact fitsFirst
    · rw [if_neg full] at small
      rw [if_neg full, if_neg full]
      obtain ⟨uses, fitsHinted⟩ := @useHintPages_narrow geometry _
        (count - first.2.length) _ hintsSmall fitsFirst
      rw [uses]
      generalize useHintPages geometry (count - first.2.length) hints first.1 = second
        at small fitsHinted ⊢
      dsimp only at small ⊢
      by_cases enough : first.2.length + second.2.1.length = count
      · rw [if_pos enough, if_pos enough]
        refine ⟨rfl, fun result found => ?_⟩
        obtain rfl := Option.some.inj found
        exact fitsHinted
      · rw [if_neg enough] at small
        rw [if_neg enough, if_neg enough]
        obtain ⟨reserves, fitsTail⟩ := @reserveTail_narrow geometry _
          (count - (first.2.length + second.2.1.length)) fitsHinted
          fun loc member => small _ rfl loc (List.mem_append_right _ member)
        rw [reserves]
        refine ⟨rfl, fun result found => ?_⟩
        obtain rfl := Option.some.inj found
        exact fitsTail

/-- `erase_and_set_loc` keeps small values small. -/
theorem eraseAndSetLoc_narrow {oldLocs newLocs ids : List Nat} (fits : layout.Fits)
    (old : ∀ loc ∈ oldLocs, loc < NarrowLayout.kAllocatedID)
    (new : ∀ loc ∈ newLocs, loc < NarrowLayout.kAllocatedID)
    (real : ∀ id ∈ ids, id < NarrowLayout.kAllocatedID) :
    layout.narrow.eraseAndSetLoc geometry oldLocs newLocs ids =
        (layout.eraseAndSetLoc geometry oldLocs newLocs ids).narrow ∧
      (layout.eraseAndSetLoc geometry oldLocs newLocs ids).Fits := by
  obtain ⟨sets, fitsSet⟩ := @setAll_narrow geometry layout
    ((newLocs.zip ids).map fun pair => (pair.1, .real pair.2)) fits fun pair member => by
      obtain ⟨⟨loc, id⟩, inside, rfl⟩ := List.mem_map.mp member
      refine ⟨new loc (List.of_mem_zip inside).1, fun number held => ?_⟩
      cases held
      exact real _ (List.of_mem_zip inside).2
  rw [List.foldl_map, List.foldl_map] at sets
  rw [List.foldl_map] at fitsSet
  obtain ⟨erases, fitsErased⟩ := @eraseAll_narrow geometry _ _ fitsSet old
  have numbers : (newLocs.zip ids).foldl (fun current pair =>
      NarrowLayout.setLoc2id geometry current pair.1 pair.2) layout.narrow =
        (newLocs.zip ids).foldl (fun current pair =>
          NarrowLayout.setLoc2id geometry current pair.1 (SlotId.real pair.2).narrow)
            layout.narrow := by
    refine List.foldl_ext _ _ _ fun current pair _ => ?_
    unfold NarrowLayout.setLoc2id
    rw [low32_narrow]
    rfl
  refine ⟨?_, fitsErased⟩
  unfold NarrowLayout.eraseAndSetLoc
  dsimp only
  rw [numbers, sets]
  exact erases

end Layout

end OdinVector
