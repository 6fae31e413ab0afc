/-
This file states what holds of the in-memory `Index` of a sequential caller between its
calls, and proves that deletions keep it. The points are at the first locations, each with
a tag or deleted; lists name points and the frozen point only.
-/

import OdinVector.InMemory.Insertion
import Mathlib.Data.Set.Card

namespace OdinVector

open Binary

variable {Component Tag : Type}

/-! ### Tables -/

namespace IndexTables

/-- Tables between calls. -/
structure Settled (tables : IndexTables Tag) : Prop where
  bounded : tables.nd ≤ tables.maxPoints
  compacted : tables.dataCompacted = true
  eager : tables.eagerDone = false
  slots : tables.emptySlots = Finset.Ico tables.nd tables.maxPoints
  deleted : ∀ location ∈ tables.deleteSet, location < tables.nd
  live : ∀ location < tables.nd,
    (tables.locationToTag location = none ↔ location ∈ tables.deleteSet)
  tagged : ∀ location tag, tables.locationToTag location = some tag → location < tables.nd
  inverse : ∀ tag location,
    tables.tagToLocation tag = some location ↔ tables.locationToTag location = some tag

variable {tables : IndexTables Tag} {tag : Tag} {location : Nat}

theorem Settled.lt_nd (settled : tables.Settled)
    (has : tables.tagToLocation tag = some location) : location < tables.nd :=
  settled.tagged location tag ((settled.inverse tag location).mp has)

/-- No two tags have one location. -/
theorem Settled.apart (settled : tables.Settled) {other : Tag}
    (has : tables.tagToLocation tag = some location)
    (also : tables.tagToLocation other = some location) : tag = other :=
  Option.some.inj (((settled.inverse tag location).mp has).symm.trans
    ((settled.inverse other location).mp also))

/-- Empty slots and points fill the index. -/
theorem Settled.slots_card (settled : tables.Settled) :
    tables.emptySlots.card + tables.nd = tables.maxPoints := by
  rw [settled.slots, Nat.card_Ico]
  exact Nat.sub_add_cancel settled.bounded

/-- The locations with tags. -/
theorem Settled.isSome_iff (settled : tables.Settled) :
    (tables.locationToTag location).isSome ↔ location < tables.nd ∧ location ∉ tables.deleteSet := by
  constructor
  · intro some
    obtain ⟨tag, has⟩ := Option.isSome_iff_exists.mp some
    have inside := settled.tagged location tag has
    exact ⟨inside, fun gone => nomatch has.symm.trans ((settled.live location inside).mpr gone)⟩
  · rintro ⟨inside, kept⟩
    rw [Option.isSome_iff_ne_none]
    exact fun none => kept ((settled.live location inside).mp none)

/-- Tags and deleted locations fill the locations of the points. -/
theorem Settled.tags_card (settled : tables.Settled) :
    { tag | tables.tagToLocation tag ≠ none }.ncard + tables.deleteSet.card = tables.nd := by
  have inside : tables.deleteSet ⊆ Finset.range tables.nd := fun location gone =>
    Finset.mem_range.mpr (settled.deleted location gone)
  have image : (fun tag => (tables.tagToLocation tag).getD 0) ''
      { tag | tables.tagToLocation tag ≠ none } =
        ↑(Finset.range tables.nd \ tables.deleteSet) := by
    ext location
    rw [Finset.mem_coe, Finset.mem_sdiff, Finset.mem_range, ← settled.isSome_iff]
    constructor
    · rintro ⟨tag, has, rfl⟩
      obtain ⟨place, there⟩ := Option.ne_none_iff_exists'.mp has
      dsimp only
      rw [there, Option.getD_some, (settled.inverse tag place).mp there]
      rfl
    · intro some
      obtain ⟨tag, has⟩ := Option.isSome_iff_exists.mp some
      have there := (settled.inverse tag location).mpr has
      refine ⟨tag, ?_, ?_⟩
      · show tables.tagToLocation tag ≠ none
        rw [there]
        exact Option.some_ne_none _
      · dsimp only
        rw [there, Option.getD_some]
  have apart : Set.InjOn (fun tag => (tables.tagToLocation tag).getD 0)
      { tag | tables.tagToLocation tag ≠ none } := by
    intro first hasFirst second hasSecond same
    obtain ⟨place, there⟩ := Option.ne_none_iff_exists'.mp hasFirst
    obtain ⟨other, also⟩ := Option.ne_none_iff_exists'.mp hasSecond
    dsimp only at same
    rw [there, also, Option.getD_some, Option.getD_some] at same
    exact settled.apart there (same ▸ also)
  rw [← apart.ncard_image, image, Set.ncard_coe_finset, Finset.card_sdiff_of_subset inside,
    Finset.card_range]
  have few := Finset.card_le_card inside
  rw [Finset.card_range] at few
  exact Nat.sub_add_cancel few

section Delete

variable [DecidableEq Tag]

/-- A tag that is deleted leaves its location deleted. -/
theorem Settled.replaceTag (settled : tables.Settled)
    (has : tables.tagToLocation tag = some location) : (tables.replaceTag tag).Settled := by
  have inside := settled.lt_nd has
  have there := (settled.inverse tag location).mp has
  rw [replaceTag_eq has]
  refine ⟨settled.bounded, settled.compacted, settled.eager, settled.slots, fun other gone => ?_,
    fun other below => ?_, fun other another entered => ?_, fun another other => ?_⟩
  · obtain rfl | before := Finset.mem_insert.mp gone
    · exact inside
    · exact settled.deleted other before
  · dsimp only
    rw [Finset.mem_insert]
    by_cases here : other = location
    · rw [here, Function.update_self]
      exact iff_of_true rfl (Or.inl rfl)
    · rw [Function.update_of_ne here, or_iff_right here]
      exact settled.live other below
  · dsimp only at entered
    by_cases here : other = location
    · exact here ▸ inside
    · rw [Function.update_of_ne here] at entered
      exact settled.tagged other another entered
  · dsimp only
    by_cases here : other = location
    · rw [here, Function.update_self]
      refine iff_of_false (fun entered => ?_) nofun
      by_cases this : another = tag
      · rw [this, Function.update_self] at entered
        exact nomatch entered
      · rw [Function.update_of_ne this] at entered
        exact this (settled.apart entered has)
    · rw [Function.update_of_ne here]
      by_cases this : another = tag
      · rw [this, Function.update_self]
        refine iff_of_false nofun fun entered => here ?_
        exact Option.some.inj (((settled.inverse tag other).mpr entered).symm.trans has)
      · rw [Function.update_of_ne this]
        exact settled.inverse another other

end Delete

end IndexTables

/-! ### The index -/

namespace Index

/-- Lists of points and of the frozen point that name nothing else. -/
structure LinksPoints (index : Index Component Tag) (lists : Nat → List Nat) : Prop where
  linked : ∀ location, index.IsPoint location → ∀ nbr ∈ lists location, index.IsPoint nbr
  empty : ∀ location, ¬ index.IsPoint location → lists location = []

/-- A dynamic index between calls. -/
structure Settled (index : Index Component Tag) : Prop
    extends index.toIndexTables.Settled where
  two : 2 ≤ index.maxPoints
  frozen : index.numFrozenPts = 1
  tagsEnabled : index.enableTags = true
  entry : index.ep = index.maxPoints
  links : index.LinksPoints index.finalGraph

/-- The map from tags to vectors that an index stands for. -/
def vectors (index : Index Component Tag) (tag : Tag) : Option (List Component) :=
  (index.getVectorByTag tag).map (List.take index.dim)

variable {index : Index Component Tag} {tag : Tag}

theorem isPoint_iff (frozen : index.numFrozenPts = 1) (location : Nat) :
    index.IsPoint location ↔ location < index.nd ∨ location = index.maxPoints := by
  unfold IsPoint
  rw [frozen]
  exact or_congr_right (and_iff_right Nat.one_pos)

section Delete

variable [DecidableEq Tag]

/-- The index after the sections that delete a tag. -/
theorem Settled.replaceTag (settled : index.Settled) {location : Nat}
    (has : index.tagToLocation tag = some location) :
    Settled { index with toIndexTables := index.toIndexTables.replaceTag tag } ∧
      vectors { index with toIndexTables := index.toIndexTables.replaceTag tag } =
        Function.update index.vectors tag none := by
  have tables := settled.toSettled.replaceTag has
  rw [IndexTables.replaceTag_eq has] at tables ⊢
  refine ⟨⟨tables, settled.two, settled.frozen, settled.tagsEnabled, settled.entry,
    settled.links.linked, settled.links.empty⟩, ?_⟩
  funext other
  unfold vectors getVectorByTag
  dsimp only
  by_cases this : other = tag
  · rw [this, Function.update_self, Function.update_self]
    rfl
  · rw [Function.update_of_ne this, Function.update_of_ne this]

/-- `eagerdelete` takes a tag out of the map. -/
theorem Settled.lazyDelete (settled : index.Settled) (tag : Tag) :
    (index.lazyDelete tag).Settled ∧
      (index.lazyDelete tag).vectors = Function.update index.vectors tag none := by
  unfold Index.lazyDelete
  have proceeds : ¬ (index.eagerDone = true ∧ index.dataCompacted = false) := fun both =>
    nomatch settled.eager.symm.trans both.1
  rw [if_neg proceeds]
  by_cases none : index.tagToLocation tag = none
  · rw [if_pos none]
    have absent : index.vectors tag = Option.none := by
      unfold vectors getVectorByTag
      rw [none]
      rfl
    refine ⟨⟨⟨settled.bounded, settled.compacted, settled.eager, settled.slots, settled.deleted,
      settled.live, settled.tagged, settled.inverse⟩, settled.two, settled.frozen,
      settled.tagsEnabled, settled.entry, settled.links.linked, settled.links.empty⟩, ?_⟩
    rw [← absent, Function.update_eq_self]
    rfl
  · obtain ⟨location, has⟩ := Option.ne_none_iff_exists'.mp none
    rw [if_neg none]
    exact settled.replaceTag has

end Delete

end Index

end OdinVector
