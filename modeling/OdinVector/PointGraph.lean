/-
This file is the abstract view of an index: a graph of points. It says which
record, tag and PQ code an id has and forgets where the record is stored. An
insert adds a node and links it with its neighbours.
-/

import OdinVector.Update.State

namespace OdinVector

variable {Point Code Distance : Type}

/-- The points of an index by their ids. -/
structure PointGraph (Point Code : Type) where
  record : Nat → Option (DiskNode Point)
  tags : Nat → Option Nat
  data : Nat → Code
  /-- The ids below are given out. -/
  nextId : Nat

namespace PointGraph

/-- Two graphs are equal when they agree on every id. -/
@[ext] theorem ext_ids {first second : PointGraph Point Code}
    (record : ∀ id, first.record id = second.record id)
    (tags : ∀ id, first.tags id = second.tags id)
    (data : ∀ id, first.data id = second.data id)
    (nextId : first.nextId = second.nextId) : first = second := by
  obtain ⟨_, _, _, _⟩ := first
  obtain ⟨_, _, _, _⟩ := second
  simp only [mk.injEq]
  exact ⟨funext record, funext tags, funext data, nextId⟩

variable [LinearOrder Distance] (params : IndexParams Point Code Distance)

/-- The distance between two ids by their PQ codes. -/
def pqDistance (data : Nat → Code) (first second : Nat) : Distance :=
  params.codeDistance (data first) (data second)

/-- The record of a neighbour with a new node in its list. -/
def link (data : Nat → Code) (target id : Nat) (node : DiskNode Point) : DiskNode Point :=
  ⟨node.coords, boundedNhood params.prune (pqDistance params data) id (node.nbrs ++ [target])⟩

/-- A new point gets the next id and the neighbours that were chosen for it, and each of them
gets the point as a neighbour. -/
def insertPoint (graph : PointGraph Point Code) (point : Point) (tag : Nat) (nhood : List Nat) :
    PointGraph Point Code where
  record id :=
    if id = graph.nextId then some ⟨point, nhood⟩
    else if id ∈ nhood then
      (graph.record id).map (link params
        (Function.update graph.data graph.nextId (params.deflateVector point)) graph.nextId id)
    else graph.record id
  tags := Function.update graph.tags graph.nextId (some tag)
  data := Function.update graph.data graph.nextId (params.deflateVector point)
  nextId := graph.nextId + 1

end PointGraph

end OdinVector
