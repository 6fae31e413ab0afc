/-
This file proves that `consolidate` keeps the map of an index between calls, when a call
that deleted a location has set `_lazy_done`: the lists of the points that are left name no
deleted location, so that `compact_data` moves the points together.
-/

import OdinVector.InMemory.Compaction
import OdinVector.InMemory.Settled

namespace OdinVector

variable {Component Tag : Type}

namespace Index

variable {index : Index Component Tag} {occluded : Nat → List Nat}

/-- What holds after a consolidation: the points have tags, and no list names a location that is
deleted or empty. -/
structure Tidy (index : Index Component Tag) : Prop where
  live : ∀ location, index.locationToTag location ≠ none ↔ location < index.nd
  lists : ∀ location, ∀ nbr ∈ index.finalGraph location,
    nbr ∉ index.deleteSet ∧ nbr ∉ index.emptySlots

/-- Without deleted locations an index is tidy. -/
theorem Settled.tidy (settled : index.Settled) (none : index.deleteSet = ∅) : index.Tidy := by
  refine ⟨fun location => ?_, fun location nbr member => ?_⟩
  · rw [← Option.isSome_iff_ne_none, settled.isSome_iff, none]
    exact and_iff_left (Finset.notMem_empty location)
  · rw [none, settled.slots, Finset.mem_Ico]
    refine ⟨Finset.notMem_empty nbr, fun slot => ?_⟩
    by_cases point : index.IsPoint location
    · obtain inside | last :=
        (isPoint_iff settled.frozen nbr).mp (settled.links.linked location point nbr member)
      · omega
      · omega
    · rw [settled.links.empty location point] at member
      exact List.not_mem_nil member

/-! ### Splicing -/

/-- The index after `consolidate_deletes`. -/
def splicedIndex (index : Index Component Tag) (occluded : Nat → List Nat) :
    Index Component Tag :=
  { index with
    finalGraph := index.spliced occluded
    emptySlots := index.emptySlots ∪ index.deleteSet
    nd := index.nd - index.deleteSet.card
    dataCompacted := index.deleteSet = ∅ }

theorem Settled.consolidateDeletes_eq (settled : index.Settled) {after : Index Component Tag}
    (done : index.consolidateDeletes occluded = some after) :
    after = index.splicedIndex occluded ∧
      ∀ location < index.maxPoints + index.numFrozenPts, index.Modified location →
        ∀ id ∈ occluded location, id ∈ index.candidates (index.finalGraph location) := by
  have eager : ¬ index.eagerDone = true := fun done => nomatch settled.eager.symm.trans done
  unfold consolidateDeletes at done
  rw [if_neg eager] at done
  obtain ⟨candidates, same⟩ := Option.ite_none_right_eq_some.mp done
  exact ⟨(Option.some.inj same).symm, candidates⟩

/-- Without deleted locations nothing changes. -/
theorem Settled.splicedIndex_of_none (settled : index.Settled) (none : index.deleteSet = ∅) :
    index.splicedIndex occluded = index := by
  have lists : index.spliced occluded = index.finalGraph := by
    funext location
    refine if_neg fun modified => ?_
    obtain ⟨-, -, -, ngh, -, gone⟩ := modified
    rw [none] at gone
    exact Finset.notMem_empty ngh gone
  have compacted : decide (index.deleteSet = ∅) = index.dataCompacted := by
    rw [settled.compacted]
    exact decide_eq_true none
  have slots : index.emptySlots ∪ index.deleteSet = index.emptySlots := by
    rw [none, Finset.union_empty]
  have points : index.nd - index.deleteSet.card = index.nd := by
    rw [none, Finset.card_empty, Nat.sub_zero]
  unfold splicedIndex
  rw [lists, compacted, slots, points]

section Spliced

variable (settled : index.Settled)
include settled

theorem Settled.tagged_iff (location : Nat) :
    index.Tagged location ↔ location < index.nd ∧ location ∉ index.deleteSet :=
  settled.isSome_iff

/-- A point that is not deleted has a tag, or it is the frozen point. -/
theorem Settled.tagged_or_frozen {location : Nat} (point : index.IsPoint location)
    (kept : location ∉ index.deleteSet) :
    index.Tagged location ∨ location = index.maxPoints := by
  rw [settled.tagged_iff]
  exact ((isPoint_iff settled.frozen location).mp point).imp_left fun inside => ⟨inside, kept⟩

/-- A list of a point that is left names points that are left. -/
theorem Settled.spliced_named (candidates : ∀ location < index.maxPoints + index.numFrozenPts,
      index.Modified location → ∀ id ∈ occluded location,
        id ∈ index.candidates (index.finalGraph location)) {location : Nat}
    (point : index.Tagged location ∨ location = index.maxPoints) :
    ∀ nbr ∈ index.spliced occluded location, index.Tagged nbr ∨ nbr = index.maxPoints := by
  have bounded := settled.bounded
  have isPoint : index.IsPoint location := by
    rw [isPoint_iff settled.frozen]
    exact point.imp_left fun tagged => ((settled.tagged_iff location).mp tagged).1
  have kept : location ∉ index.deleteSet := by
    obtain tagged | rfl := point
    · exact ((settled.tagged_iff location).mp tagged).2
    · exact fun gone => Nat.not_lt.mpr bounded (settled.deleted _ gone)
  have visited : location < index.maxPoints + index.numFrozenPts := by
    have place := (isPoint_iff settled.frozen location).mp isPoint
    rw [settled.frozen]
    omega
  have occupied : location ∉ index.emptySlots := by
    have place := (isPoint_iff settled.frozen location).mp isPoint
    rw [settled.slots, Finset.mem_Ico]
    omega
  intro nbr member
  unfold spliced at member
  split at member
  · rename_i modified
    obtain ⟨left, choice⟩ := List.mem_filter.mp member
    have alive : nbr ∉ index.deleteSet := (of_decide_eq_true choice).2
    refine settled.tagged_or_frozen ?_ alive
    obtain ⟨ngh, there, found⟩ :=
      List.mem_flatMap.mp (candidates location visited modified nbr left)
    have point := settled.links.linked location isPoint ngh there
    split at found
    · exact settled.links.linked ngh point nbr (List.mem_filter.mp found).1
    · rw [List.mem_singleton.mp found]
      exact point
  · rename_i unmodified
    refine settled.tagged_or_frozen (settled.links.linked location isPoint nbr member)
      fun gone => unmodified ⟨visited, kept, occupied, nbr, member, gone⟩

/-- How many points are left. -/
theorem Settled.count_tagged :
    Nat.count index.Tagged index.maxPoints = index.nd - index.deleteSet.card := by
  have inside : index.deleteSet ⊆ Finset.range index.nd := fun location gone =>
    Finset.mem_range.mpr (settled.deleted location gone)
  have left : (Finset.range index.maxPoints).filter index.Tagged =
      Finset.range index.nd \ index.deleteSet := by
    ext location
    rw [Finset.mem_filter, Finset.mem_sdiff, Finset.mem_range, Finset.mem_range,
      settled.tagged_iff]
    exact and_iff_right_of_imp fun both => both.1.trans_le settled.bounded
  rw [Nat.count_eq_card_filter_range, left, Finset.card_sdiff_of_subset inside,
    Finset.card_range]

/-- The compaction of a settled index whose lists are repaired. -/
theorem Settled.compactable (candidates : ∀ location < index.maxPoints + index.numFrozenPts,
      index.Modified location → ∀ id ∈ occluded location,
        id ∈ index.candidates (index.finalGraph location)) :
    (index.splicedIndex occluded).Compactable :=
  ⟨settled.frozen,
    fun location tagged =>
      ((settled.tagged_iff location).mp tagged).1.trans_le settled.bounded,
    fun _ point => settled.spliced_named candidates point⟩

/-- A point that is left moves to a place below the number of points that are left. -/
theorem Settled.newPlace (compactable : (index.splicedIndex occluded).Compactable)
    {location : Nat} (tagged : index.Tagged location) :
    (index.splicedIndex occluded).newLocation location = Nat.count index.Tagged location ∧
      Nat.count index.Tagged location < index.nd - index.deleteSet.card := by
  refine ⟨newLocation_tagged compactable tagged, ?_⟩
  rw [← settled.count_tagged]
  exact Nat.count_strict_mono tagged (compactable.below location tagged)

/-- A point that is left moves to each of these places. -/
theorem Settled.oldPlace (new : Nat) (inside : new < index.nd - index.deleteSet.card) :
    ∃ old, index.Tagged old ∧ Nat.count index.Tagged old = new := by
  rw [← settled.count_tagged] at inside
  obtain ⟨old, -, tagged, same⟩ := exists_count_eq inside
  exact ⟨old, tagged, same⟩

/-- A list of a point that is left names points that are left, at their new places. -/
theorem Settled.spliced_renamed (candidates : ∀ location < index.maxPoints + index.numFrozenPts,
      index.Modified location → ∀ id ∈ occluded location,
        id ∈ index.candidates (index.finalGraph location)) {location : Nat}
    (point : index.Tagged location ∨ location = index.maxPoints) :
    ∀ nbr ∈ (index.spliced occluded location).map (index.splicedIndex occluded).newLocation,
      nbr < index.nd - index.deleteSet.card ∨ nbr = index.maxPoints := by
  have compactable := settled.compactable candidates
  intro nbr member
  obtain ⟨old, there, rfl⟩ := List.mem_map.mp member
  obtain tagged | rfl := settled.spliced_named candidates point old there
  · obtain ⟨same, inside⟩ := settled.newPlace compactable tagged
    rw [same]
    exact Or.inl inside
  · exact Or.inr (newLocation_maxPoints compactable)

end Spliced

/-! ### `consolidate` -/

variable [DecidableEq Tag]

/-- The points that are left move together. -/
theorem Settled.compactData (settled : index.Settled) (some_ : index.deleteSet ≠ ∅)
    (lazy_ : index.lazyDone = true)
    (candidates : ∀ location < index.maxPoints + index.numFrozenPts, index.Modified location →
      ∀ id ∈ occluded location, id ∈ index.candidates (index.finalGraph location)) :
    ∃ next, (index.splicedIndex occluded).compactData = .running next ∧ next.Settled ∧
      next.Tidy ∧ next.vectors = index.vectors := by
  have inverse : ∀ tag location, (index.splicedIndex occluded).tagToLocation tag =
      some location ↔ (index.splicedIndex occluded).locationToTag location = some tag :=
    settled.inverse
  have compactable := settled.compactable candidates
  have entry : (index.splicedIndex occluded).ep ∉ (index.splicedIndex occluded).deleteSet := by
    show index.ep ∉ index.deleteSet
    rw [settled.entry]
    exact fun gone => Nat.not_lt.mpr settled.bounded (settled.deleted _ gone)
  have scattered : (index.splicedIndex occluded).dataCompacted = false :=
    decide_eq_false some_
  obtain ⟨lists, data, done, cleared, moved, last, beyond, vectors⟩ :=
    compactData_eq compactable lazy_ scattered entry
  have few : index.nd - index.deleteSet.card ≤ index.maxPoints :=
    (Nat.sub_le _ _).trans settled.bounded
  have newPlace (location : Nat) (tagged : index.Tagged location) :=
    settled.newPlace compactable tagged
  have newMap : ∀ tag location, (index.splicedIndex occluded).newTagToLocation tag =
      some location ↔ (index.splicedIndex occluded).newLocationToTag location = some tag :=
    newInverse inverse compactable
  let next : Index Component Tag := { index.splicedIndex occluded with
    finalGraph := lists
    data := data
    tagToLocation := (index.splicedIndex occluded).newTagToLocation
    locationToTag := (index.splicedIndex occluded).newLocationToTag
    deleteSet := ∅
    emptySlots := Finset.Ico (index.nd - index.deleteSet.card) index.maxPoints
    lazyDone := false
    eagerDone := false
    dataCompacted := true }
  have tagged (location : Nat) (tag : Tag) (has : next.locationToTag location = some tag) :
      location < next.nd := by
    have entered := (newMap tag location).mpr has
    rw [newTagToLocation_eq inverse compactable] at entered
    obtain ⟨old, there, rfl⟩ := Option.map_eq_some_iff.mp entered
    have one : index.Tagged old := by
      unfold Tagged
      rw [(settled.inverse tag old).mp there]
      rfl
    rw [(newPlace old one).1]
    exact (newPlace old one).2
  have live (location : Nat) (inside : location < next.nd) :
      next.locationToTag location ≠ none := by
    obtain ⟨old, one, rfl⟩ := settled.oldPlace location inside
    obtain ⟨tag, has⟩ := Option.isSome_iff_exists.mp one
    have entered : next.tagToLocation tag = some (Nat.count index.Tagged old) := by
      show (index.splicedIndex occluded).newTagToLocation tag = _
      rw [newTagToLocation_eq inverse compactable]
      show (index.tagToLocation tag).map _ = _
      rw [(settled.inverse tag old).mpr has, Option.map_some, (newPlace old one).1]
    show (index.splicedIndex occluded).newLocationToTag _ ≠ none
    rw [(newMap tag _).mp entered]
    exact Option.some_ne_none tag
  have nextPoint (location : Nat) :
      next.IsPoint location ↔ location < next.nd ∨ location = index.maxPoints :=
    @isPoint_iff _ _ next settled.frozen location
  have settledNext : next.Settled := by
    refine ⟨⟨few, rfl, rfl, rfl, fun _ => nofun, fun location inside => ?_, tagged, newMap⟩,
      settled.two, settled.frozen, settled.tagsEnabled, settled.entry,
      fun location point nbr member => ?_, fun location outside => ?_⟩
    · exact iff_of_false (live location inside) nofun
    · rw [nextPoint]
      obtain inside | rfl := (nextPoint location).mp point
      · obtain ⟨old, one, rfl⟩ := settled.oldPlace location inside
        exact settled.spliced_renamed candidates (Or.inl one) nbr (moved old one inside ▸ member)
      · exact settled.spliced_renamed candidates (Or.inr rfl) nbr (last few ▸ member)
    · rw [nextPoint, not_or] at outside
      obtain behind | later := Nat.lt_or_ge index.maxPoints location
      · refine (beyond location behind).trans ?_
        have unmodified : ¬ index.Modified location := by
          intro modified
          have visited := modified.1
          rw [settled.frozen] at visited
          omega
        refine (if_neg unmodified).trans (settled.links.empty location ?_)
        have bounded := settled.bounded
        rw [isPoint_iff settled.frozen]
        omega
      · exact cleared location (Nat.not_lt.mp outside.1) (lt_of_le_of_ne later outside.2)
  refine ⟨next, done, settledNext, settledNext.tidy rfl, ?_⟩
  funext tag
  unfold Index.vectors getVectorByTag
  show (((index.splicedIndex occluded).newTagToLocation tag).map data).map
    (List.take index.dim) = ((index.tagToLocation tag).map index.data).map (List.take index.dim)
  rw [newTagToLocation_eq inverse compactable]
  cases has : index.tagToLocation tag with
  | none =>
    have also : (index.splicedIndex occluded).tagToLocation tag = none := has
    rw [also]
    rfl
  | some location =>
    have also : (index.splicedIndex occluded).tagToLocation tag = some location := has
    have one : index.Tagged location := by
      unfold Tagged
      rw [(settled.inverse tag location).mp has]
      rfl
    rw [also, Option.map_some, Option.map_some, (newPlace location one).1]
    exact congrArg (fun vector => some (vector.take index.dim)) (vectors location one)

/-- `consolidate` does not crash; it keeps the vectors and leaves the index tidy. -/
theorem Settled.consolidate (settled : index.Settled)
    (noticed : index.deleteSet ≠ ∅ → index.lazyDone = true)
    {after : IndexProcess Component Tag} (done : index.consolidate occluded = some after) :
    ∃ next, after = .running next ∧ next.Settled ∧ next.Tidy ∧
      next.vectors = index.vectors := by
  unfold Index.consolidate at done
  obtain ⟨spliced, first, rfl⟩ := Option.map_eq_some_iff.mp done
  obtain ⟨rfl, candidates⟩ := settled.consolidateDeletes_eq first
  by_cases none : index.deleteSet = ∅
  · rw [settled.splicedIndex_of_none none]
    refine ⟨index, ?_, settled, settled.tidy none, rfl⟩
    unfold Index.compactData
    have dynamic : index.numFrozenPts ≠ 0 := by
      rw [settled.frozen]
      exact Nat.one_ne_zero
    rw [if_neg dynamic, if_pos settled.compacted]
    exact ite_self _
  · exact settled.compactData none (noticed none) candidates

end Index

end OdinVector
