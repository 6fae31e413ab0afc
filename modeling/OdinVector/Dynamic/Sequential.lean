/-
This file models a `DynamicSSDIndex` whose calls come one after the other: the constructor,
`insert`, `lazy_delete` and `final_merge`. The next call starts when the one before it has
returned and its pages are written.

An insert goes to the index that is loaded. A deletion stays in the active set until a merge
retires the set, writes an index without its tags under the other prefix and exchanges the
prefixes.
-/

import OdinVector.AlphaRng
import OdinVector.Dynamic.DeletionSets
import OdinVector.Merge.LiveData
import OdinVector.StepRuns

namespace OdinVector

variable {Point Code Distance : Type}

/-! ### The points of an index -/

/-- A point with its tag and its code. -/
structure StoredPoint (Point Code : Type) where
  tag : Nat
  point : Point
  code : Code
  deriving DecidableEq

namespace IndexContents

/-- The points of an index by their ids. -/
def graphView (params : IndexParams Point Code Distance) (index : IndexContents Point Code) :
    PointGraph Point Code where
  record := index.record? params.geometry
  tags := index.tags
  data := index.data
  nextId := index.curId

end IndexContents

namespace PointGraph

/-- The point of an id. -/
def stored? (graph : PointGraph Point Code) (id : Nat) : Option (StoredPoint Point Code) :=
  (graph.record id).map fun node => ⟨(graph.tags id).getD id, node.coords, graph.data id⟩

/-- All points, without their ids. -/
def points (graph : PointGraph Point Code) : Multiset (StoredPoint Point Code) :=
  ((List.range graph.nextId).filterMap graph.stored? : List (StoredPoint Point Code))

/-- The lists of a graph: they fit, name no id twice and not their own one. -/
structure ListsFit (range : Nat) (graph : PointGraph Point Code) : Prop where
  bounded : ∀ id node, graph.record id = some node → node.nbrs.length ≤ range
  nodup : ∀ id node, graph.record id = some node → node.nbrs.Nodup
  notSelf : ∀ id node, graph.record id = some node → id ∉ node.nbrs

end PointGraph

/-! ### The calls -/

/-- An insert that has returned and whose pages are written. It chooses the neighbours that
`prune_neighbors` leaves of what its search has found. -/
structure Inserts [LinearOrder Distance] (params : IndexParams Point Code Distance)
    (before : IndexContents Point Code) (point : Point) (tag : Nat)
    (after : IndexContents Point Code) : Prop where
  ran : ∃ (first last : IndexState Point Code) (number : Nat) (buffer : Nat → PageImage Point)
      (actions : List (Action Point)) (distance : Nat → Nat → Distance)
      (pool : List (Neighbor Distance)),
    first.WellFormed params ∧ first.contents before.numPoints before.medoid = before ∧
      InsertsAlone params first number point tag buffer actions last ∧
        (last.threads (.caller number)).newNhood =
          pruneNeighbors params.prune distance before.medoid [] pool ++ [first.curId] ∧
          last.settle.contents before.numPoints before.medoid = after

/-- A `DynamicSSDIndex` between two calls. -/
structure DynamicIndex (Point Code : Type) where
  index : IndexContents Point Code
  mergeLock : MergeMutex
  sets : DeletionSets Nat
  /-- The files under `_disk_index_prefix_in`. -/
  filesIn : IndexFiles Point Code
  /-- The files under `_disk_index_prefix_out`. -/
  filesOut : IndexFiles Point Code

/-- `copy_index`: a partition file stays when there is none to copy. -/
def copyIndex (source target : IndexFiles Point Code) : IndexFiles Point Code :=
  { source with partition := source.partition <|> target.partition }

/-- The constructor works on a copy of the index under another prefix. -/
def DynamicIndex.construct [Inhabited Code] (geometry : Geometry)
    (given shadow out : IndexFiles Point Code) : Option (DynamicIndex Point Code) :=
  (IndexContents.load geometry (copyIndex given shadow)).map fun index =>
    { index := index
      mergeLock := .free
      sets := .init
      filesIn := copyIndex given shadow
      filesOut := out }

/-- What a call asks for. -/
inductive DynamicCall (Point : Type)
  | insert (point : Point) (tag : Nat)
  | lazyDelete (tag : Nat)
  | finalMerge

/-- What a call does. -/
inductive DynamicStep [LinearOrder Distance] [Inhabited Code]
    (params : IndexParams Point Code Distance) :
    DynamicIndex Point Code → DynamicCall Point → DynamicIndex Point Code → Prop
  | insert {before : DynamicIndex Point Code} {point : Point} {tag : Nat}
      {after : IndexContents Point Code} (inserts : Inserts params before.index point tag after) :
      DynamicStep params before (.insert point tag)
        { before with
          index := after
          filesIn := { before.filesIn with graph := after.graph } }
  | lazyDelete {before : DynamicIndex Point Code} {tag : Nat} :
      DynamicStep params before (.lazyDelete tag)
        { before with sets := before.sets.lazyDelete tag }
  /-- `save_del_set`, `merge`, the exchange of the prefixes and `reload`. -/
  | finalMerge {before : DynamicIndex Point Code} {fuel : Nat} {merged : Merged Point Code}
      (call : MergeCall Point Code Distance) (params_eq : call.params = params)
      (index_eq : call.index = before.index) (before_eq : call.before = before.filesOut)
      (deleted_eq : call.deletedNodesSet =
        (before.sets.saveDelSet (1 - before.sets.activeDeleteSet)
          before.sets.activeDeleteSet).deletionSets
            (1 - (before.sets.saveDelSet (1 - before.sets.activeDeleteSet)
              before.sets.activeDeleteSet).activeDeleteSet))
      (done : call.mergeDeletes fuel before.mergeLock = some merged) :
      DynamicStep params before .finalMerge
        { index := (merged.reload params.geometry).index
          mergeLock := (merged.reload params.geometry).mergeLock
          sets := before.sets.saveDelSet (1 - before.sets.activeDeleteSet)
            before.sets.activeDeleteSet
          filesIn := merged.files
          filesOut := before.filesIn }

end OdinVector
