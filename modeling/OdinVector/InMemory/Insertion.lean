/-
This file models `insert_point`, `lazy_delete`, `enable_delete` and `get_vector_by_tag` of
the in-memory `Index`, for a caller that makes one call after the other.

Distances between vectors decide which locations a search expands and which of them are
left when a pool is pruned. Here a search expands any locations that it can reach, and
pruning leaves any part of its pool, in any order.
-/

import OdinVector.InMemory.Index

namespace OdinVector

open Binary

variable {Component Tag : Type}

/-- An index in use, or a process that has called `crash()`. -/
inductive IndexProcess (Component Tag : Type)
  | running (index : Index Component Tag)
  | crashed

/-- The parameters of `insert_point`. -/
structure InsertParams where
  /-- `R`. -/
  range : Nat
  /-- `(_u64) (SLACK_FACTOR * range)`. -/
  slack : Nat

/-- What `insert_point` does not decide by its arguments and the tables. -/
structure InsertPicks where
  /-- `*_empty_slots.begin()`. -/
  slot : Nat
  /-- `expanded_nodes_info` in `get_expanded_nodes`. -/
  expanded : List Nat
  /-- What `prune_neighbors` leaves for a location. -/
  pruned : Nat → List Nat

/-- Locations that a search expands after earlier ones: the entry point, or entries of the lists
of those before. -/
def Expands (lists : Nat → List Nat) (ep : Nat) : List Nat → List Nat → Prop
  | _, [] => True
  | earlier, id :: later =>
    (id = ep ∨ ∃ n ∈ earlier, id ∈ lists n) ∧ Expands lists ep (id :: earlier) later

instance decidableExpands (lists : Nat → List Nat) (ep : Nat) :
    ∀ earlier later, Decidable (Expands lists ep earlier later)
  | _, [] => inferInstanceAs (Decidable True)
  | earlier, id :: later =>
    have := decidableExpands lists ep (id :: earlier) later
    inferInstanceAs (Decidable (_ ∧ _))

/-- `prune_neighbors` leaves a part of the pool, without the location itself. -/
def Prunes (location : Nat) (pool left : List Nat) : Prop :=
  ∀ id ∈ left, id ∈ pool ∧ id ≠ location

instance (location : Nat) (pool left : List Nat) : Decidable (Prunes location pool left) :=
  inferInstanceAs (Decidable (∀ id ∈ left, _))

/-- A round of `inter_insert`: `n` enters the list of `des`, which is pruned when it is full. The
pool is not empty, since `n` is in it. -/
def interInsertInto (slack n : Nat) (pruned : Nat → List Nat) (lists : Nat → List Nat)
    (des : Nat) : Option (Nat → List Nat) :=
  if n ∈ lists des then some lists
  else if (lists des).length < slack then some (Function.update lists des (lists des ++ [n]))
  else if Prunes des (lists des ++ [n]) (pruned des) then
    some (Function.update lists des (pruned des))
  else none

namespace Index

variable (format : Format Component) (index : Index Component Tag)

/-- `get_vector_by_tag`. -/
def getVectorByTag (tag : Tag) : Option (List Component) :=
  (index.tagToLocation tag).map index.data

/-- `enable_delete`. -/
def enableDelete : Index Component Tag :=
  if index.enableTags then
    { index with
      emptySlots :=
        if index.dataCompacted then index.emptySlots ∪ Finset.Ico index.nd index.maxPoints
        else index.emptySlots
      lazyDone := false
      eagerDone := false }
  else index

/-- The growth section of `insert_point`. -/
def growIfFull : Index Component Tag :=
  if index.maxPoints ≤ index.nd then index.resizeTo format (grown index.maxPoints % 2 ^ 32)
  else index

/-- The links of `insert_point` at a location that has its vector. -/
def linkPoint (params : InsertParams) (picks : InsertPicks) (location : Nat) :
    Option (IndexProcess Component Tag) :=
  if Expands index.finalGraph index.ep [] picks.expanded ∧ picks.expanded ≠ [] then
    let pool := picks.expanded.erase location
    if pool = [] then some .crashed
    else
      let prunedList := picks.pruned location
      if Prunes location pool prunedList then
        (prunedList.foldlM (interInsertInto params.slack location picks.pruned)
          (Function.update index.finalGraph location prunedList)).map fun lists =>
            .running { index with
              width := max index.width params.range
              finalGraph := lists }
      else none
  else none

section Tags

variable [DecidableEq Tag]

/-- `lazy_delete` of a tag. -/
def lazyDelete (tag : Tag) : Index Component Tag :=
  if index.eagerDone = true ∧ index.dataCompacted = false then index
  else if index.tagToLocation tag = none then { index with lazyDone := true }
  else { index with toIndexTables := index.toIndexTables.replaceTag tag }

/-- The sections of `insert_point` that enter the tag and write the vector. -/
def enterPoint (point : List Component) (tag : Tag) (location : Nat) : Index Component Tag :=
  { index with
    toIndexTables := index.toIndexTables.setTag tag location
    data := Function.update index.data location
      (point ++ List.replicate (index.alignedDim - index.dim) (zeroComponent format)) }

/-- The section of `insert_point` that deletes the tag first. -/
def deleteFirst (tag : Tag) : Index Component Tag :=
  if index.enableTags = true ∧ index.tagToLocation tag ≠ none then
    { index with toIndexTables := index.toIndexTables.replaceTag tag }
  else index

/-- `insert_point`. -/
def insertPoint (params : InsertParams) (point : List Component) (tag : Tag)
    (picks : InsertPicks) : Option (IndexProcess Component Tag) :=
  let deleted := index.deleteFirst tag
  (deleted.toIndexTables.reserveLocation picks.slot).bind fun
    | .location location tables =>
      ({ deleted with toIndexTables := tables }.enterPoint format point tag location).linkPoint
        params picks location
    | .noSlot => some .crashed
    | .full =>
      let bigger := deleted.growIfFull format
      (bigger.toIndexTables.reserveLocation picks.slot).bind fun
        | .location location tables =>
          ({ bigger with toIndexTables := tables }.enterPoint format point tag location).linkPoint
            params picks location
        | _ => some .crashed

end Tags

end Index

end OdinVector
