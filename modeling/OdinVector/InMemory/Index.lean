/-
This file models the in-memory `Index` with its graph and its vectors, and the functions
that move the frozen point: `compact_frozen_point` puts it behind the points,
`reposition_frozen_point_to_end` puts it back behind all locations, and `resize` behind
the new ones.

The frozen point of a dynamic index is at location `_max_points`. Memory that is not
written has any contents.
-/

import OdinVector.Binary
import OdinVector.Geometry
import OdinVector.InMemory.GraphFile
import OdinVector.InMemory.Tables

namespace OdinVector

open Binary

variable {Component Tag : Type}

/-- The component whose bytes are 0. -/
def zeroComponent (format : Format Component) : Component :=
  format.decode (List.replicate format.width 0)

/-- An `Index`. -/
structure Index (Component Tag : Type) extends IndexTables Tag, IndexGraph where
  /-- `_dim`. -/
  dim : Nat
  enableTags : Bool
  saveAsOneFile : Bool
  /-- `_data`: `_aligned_dim` components for a location. -/
  data : Nat → List Component

namespace Index

variable (format : Format Component) (index : Index Component Tag)

/-- `_aligned_dim`. -/
def alignedDim : Nat := roundUp index.dim 8

/-- A location after `memset`. -/
def zeroVector : List Component := List.replicate index.alignedDim (zeroComponent format)

/-- The lists of the points, with one location renamed. -/
def renamed (old new : Nat) (location : Nat) : List Nat :=
  if location < index.nd then
    (index.finalGraph location).map fun nbr => if nbr = old then new else nbr
  else index.finalGraph location

/-- `reposition_point`: as many entries of the old list are copied as the list at `_nd` has. -/
def repositionPoint (old new : Nat) : Index Component Tag :=
  let cleared := Function.update (index.renamed old new) new []
  let copied := Function.update cleared new ((cleared old).take (cleared index.nd).length)
  { index with
    finalGraph := Function.update copied old []
    data := Function.update (Function.update index.data new (index.data old)) old
      (index.zeroVector format) }

/-- `reposition_frozen_point_to_end`. -/
def repositionFrozenPointToEnd : Index Component Tag :=
  if index.numFrozenPts = 0 then index
  else if index.nd = index.maxPoints then index
  else { index.repositionPoint format index.nd index.maxPoints with ep := index.maxPoints }

/-- `resize`. -/
def resizeTo (newMaxPoints : Nat) : Index Component Tag :=
  let moved := index.repositionPoint format index.maxPoints newMaxPoints
  { moved with
    maxPoints := newMaxPoints
    ep := newMaxPoints
    emptySlots := index.emptySlots ∪ Finset.Ico index.nd newMaxPoints }

/-- `compact_frozen_point`: the vector is copied without what aligns it. -/
def compactFrozenPoint : Index Component Tag :=
  if index.nd < index.maxPoints then
    if 0 < index.numFrozenPts then
      if index.finalGraph index.maxPoints = [] then { index with ep := index.nd }
      else
        let lists := index.renamed index.maxPoints index.nd
        { index with
          ep := index.nd
          finalGraph := Function.update
            (Function.update lists index.nd (lists index.maxPoints)) index.maxPoints []
          data := Function.update
            (Function.update index.data index.nd
              ((index.data index.maxPoints).take index.dim ++
                (index.data index.nd).drop index.dim))
            index.maxPoints (index.zeroVector format) }
    else index
  else index

/-- A location of a point, deleted or not, or of the frozen point. -/
def IsPoint (location : Nat) : Prop :=
  location < index.nd ∨ 0 < index.numFrozenPts ∧ location = index.maxPoints

instance (location : Nat) : Decidable (index.IsPoint location) :=
  inferInstanceAs (Decidable (_ ∨ _))

/-- An index between calls. -/
structure WellFormed : Prop where
  dimension : index.dim < 2 ^ 32
  bounded : index.nd ≤ index.maxPoints
  locations : index.maxPoints + 1 < 2 ^ 32
  frozen : index.numFrozenPts ≤ 1
  linked : ∀ location, index.IsPoint location → ∀ nbr ∈ index.finalGraph location,
    index.IsPoint nbr ∧ nbr ≠ location
  lengths : ∀ location, index.IsPoint location →
    (index.finalGraph location).length + 1 < 2 ^ 32
  empty : ∀ location, ¬ index.IsPoint location → index.finalGraph location = []
  aligned : ∀ location, (index.data location).length = index.alignedDim
  padded : ∀ location, index.IsPoint location → (index.data location).drop index.dim =
    List.replicate (index.alignedDim - index.dim) (zeroComponent format)
  deleted : ∀ location ∈ index.deleteSet, location < index.nd
  tagged : ∀ location tag, index.locationToTag location = some tag → location < index.nd
  inverse : ∀ tag location,
    index.tagToLocation tag = some location ↔ index.locationToTag location = some tag
  live : index.enableTags = true → ∀ location < index.nd,
    (index.locationToTag location = none ↔ location ∈ index.deleteSet)
  untagged : index.enableTags = false →
    (∀ location, index.locationToTag location = none) ∧ index.deleteSet = ∅
  entry : index.ep < 2 ^ 32
  entryFrozen : 0 < index.numFrozenPts → index.ep = index.maxPoints

end Index

end OdinVector
