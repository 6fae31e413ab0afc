/-
This file models `consolidate`: `consolidate_deletes` takes the deleted locations out of the
lists, and `compact_data` moves the points that are left to the first locations.

A list with deleted entries is pruned from its candidates; pruning leaves any part of them, in
any order. A location is deleted or not throughout the parallel loop, and only lists of
locations that are not deleted are written, so every list is made of the old ones.
-/

import OdinVector.InMemory.Insertion
import Mathlib.Data.Nat.Count

namespace OdinVector

variable {Component Tag : Type}

namespace Index

variable (index : Index Component Tag)

/-! ### `consolidate_deletes` -/

/-- `candidate_set`. -/
def candidates (nbrs : List Nat) : List Nat :=
  nbrs.flatMap fun ngh =>
    if ngh ∈ index.deleteSet then (index.finalGraph ngh).filter (· ∉ index.deleteSet) else [ngh]

/-- `modify` at a location that the loop visits. -/
def Modified (location : Nat) : Prop :=
  location < index.maxPoints + index.numFrozenPts ∧ location ∉ index.deleteSet ∧
    location ∉ index.emptySlots ∧ ∃ ngh ∈ index.finalGraph location, ngh ∈ index.deleteSet

instance (location : Nat) : Decidable (index.Modified location) :=
  inferInstanceAs (Decidable (_ ∧ _))

/-- The list of a location after the loop, with what `occlude_list` leaves. -/
def spliced (occluded : Nat → List Nat) (location : Nat) : List Nat :=
  if index.Modified location then
    (occluded location).filter fun j => j ≠ location ∧ j ∉ index.deleteSet
  else index.finalGraph location

/-- `consolidate_deletes`. -/
def consolidateDeletes (occluded : Nat → List Nat) : Option (Index Component Tag) :=
  if index.eagerDone then some index
  else if ∀ location < index.maxPoints + index.numFrozenPts, index.Modified location →
      ∀ id ∈ occluded location, id ∈ index.candidates (index.finalGraph location) then
    some { index with
      finalGraph := index.spliced occluded
      emptySlots := index.emptySlots ∪ index.deleteSet
      nd := index.nd - index.deleteSet.card
      dataCompacted := index.deleteSet = ∅ }
  else none

/-! ### `compact_data` -/

/-- A location has a tag. -/
def Tagged (location : Nat) : Prop := (index.locationToTag location).isSome

instance : DecidablePred index.Tagged := fun _ => inferInstanceAs (Decidable (_ = true))

/-- `new_location`. -/
def newLocation (location : Nat) : Nat :=
  if location < index.maxPoints + index.numFrozenPts ∧ index.Tagged location then
    Nat.count index.Tagged location
  else index.maxPoints

/-- The entry point, when it is not deleted or another one is found. -/
def replacedEntry : Option Nat :=
  if index.ep ∈ index.deleteSet then
    match (index.finalGraph index.ep).find? (· ∈ index.deleteSet) with
    | none => none
    | some iter => if iter = index.ep then none else some iter
  else some index.ep

/-- A round of the loop over the lists and the vectors; it crashes when a neighbour moves up. -/
def compactRound (state : (Nat → List Nat) × (Nat → List Component)) (old : Nat) :
    Option ((Nat → List Nat) × (Nat → List Component)) :=
  if index.newLocation old < index.maxPoints ∨ old = index.maxPoints then
    if ∃ ngh ∈ state.1 old, ngh < index.newLocation ngh then none
    else
      let lists := Function.update state.1 old ((state.1 old).map index.newLocation)
      if index.newLocation old = old then some (lists, state.2)
      else
        some (Function.update (Function.update lists (index.newLocation old) (lists old)) old
          (lists (index.newLocation old)),
            Function.update state.2 (index.newLocation old) (state.2 old))
  else some (Function.update state.1 old [], state.2)

section Tags

variable [DecidableEq Tag]

/-- A round of the loop that fills `_tag_to_location`. -/
def enterNewLocation (tagToLocation : Tag → Option Nat) (old : Nat) : Tag → Option Nat :=
  (index.locationToTag old).elim tagToLocation fun tag =>
    Function.update tagToLocation tag (some (index.newLocation old))

/-- `_tag_to_location` after the loop over `_location_to_tag`. -/
def newTagToLocation : Tag → Option Nat :=
  (List.range (index.maxPoints + index.numFrozenPts)).foldl index.enterNewLocation fun _ => none

/-- A round of the loop that fills `_location_to_tag` from `_tag_to_location`. -/
def enterTagBack (locationToTag : Nat → Option Tag) (tag : Tag) : Nat → Option Tag :=
  (index.newTagToLocation tag).elim locationToTag fun location =>
    Function.update locationToTag location (some tag)

/-- `_location_to_tag` after that loop. -/
def newLocationToTag : Nat → Option Tag :=
  ((List.range (index.maxPoints + index.numFrozenPts)).filterMap index.locationToTag).foldl
    index.enterTagBack fun _ => none

/-- `compact_data`; an index without a frozen point is not dynamic. -/
def compactData : IndexProcess Component Tag :=
  if index.numFrozenPts = 0 then .running index
  else if index.lazyDone = false ∧ index.eagerDone = false then .running index
  else if index.dataCompacted then .running index
  else
    match index.replacedEntry with
    | none => .crashed
    | some ep =>
      match (List.range (index.maxPoints + 1)).foldlM index.compactRound
        (index.finalGraph, index.data) with
      | none => .crashed
      | some (lists, data) =>
        .running { index with
          ep := ep
          finalGraph := fun location =>
            if index.nd ≤ location ∧ location < index.maxPoints then [] else lists location
          data := data
          tagToLocation := index.newTagToLocation
          locationToTag := index.newLocationToTag
          deleteSet := ∅
          emptySlots := Finset.Ico index.nd index.maxPoints
          lazyDone := false
          eagerDone := false
          dataCompacted := true }

/-- `consolidate`. -/
def consolidate (occluded : Nat → List Nat) : Option (IndexProcess Component Tag) :=
  (index.consolidateDeletes occluded).map fun spliced => spliced.compactData

end Tags

end Index

end OdinVector
