/-
This file models what an index consists of when nothing runs on it, and the files
that it is stored in under a prefix: the graph with its header, the tags, the PQ
codes and the partition. `load` reads the files; `reload` opens the graph that a
merge has written and resets the counters.

The pivots of the codes are the same under every prefix and left out, and so are
the entries of the header that no operation changes.
-/

import OdinVector.Loading
import OdinVector.Update.Alone

namespace OdinVector

variable {Point Code Distance : Type}

/-! ### Files -/

/-- The entries of the header of a graph file that differ from merge to merge. -/
structure Header where
  npoints : Nat
  medoid : Nat
  fileSize : Nat
  deriving DecidableEq

/-- `_partition.bin.aligned`. -/
structure PartitionFile where
  /-- `C`. -/
  nodesPerPage : Nat
  pages : List Layout.PartitionPage

/-- The files under a prefix. -/
structure IndexFiles (Point Code : Type) where
  /-- The header of `_disk.index`. -/
  header : Header
  /-- The sectors of `_disk.index` after the header. -/
  graph : Nat → PageImage Point
  /-- `_disk.index.tags`, which may be missing. -/
  tags : Option (List Nat)
  /-- `_pq_compressed.bin`. -/
  pqCompressed : List Code
  /-- `_partition.bin.aligned`, which may be missing. -/
  partition : Option PartitionFile

/-- `SECTOR_LEN`. -/
def sectorLen : Nat := 4096

/-- `SECTOR_LEN + ROUND_UP(npoints, nnodes_per_sector) / nnodes_per_sector * SECTOR_LEN`. -/
def fileSizeOf (geometry : Geometry) (npoints : Nat) : Nat :=
  sectorLen + (npoints + geometry.nnodesPerSector - 1) / geometry.nnodesPerSector * sectorLen

/-! ### An index at rest -/

/-- The fields of `SSDIndex` that merges, `load` and `reload` work on. -/
structure IndexContents (Point Code : Type) where
  numPoints : Nat
  /-- `medoids[0]`. -/
  medoid : Nat
  layout : Layout
  /-- The sectors of the graph file that is open. -/
  graph : Nat → PageImage Point
  /-- `data`: the PQ codes. -/
  data : Nat → Code
  tags : Nat → Option Nat
  curId : Nat

namespace IndexContents

variable (geometry : Geometry)

/-- `id2tag`. -/
def id2tag (index : IndexContents Point Code) (id : Nat) : Nat := (index.tags id).getD id

/-- The record at a location. -/
def recordAtLoc (index : IndexContents Point Code) (loc : Nat) : DiskNode Point :=
  recordAt geometry index.graph loc

/-- The record of an id, when it has a location. -/
def record? (index : IndexContents Point Code) (id : Nat) : Option (DiskNode Point) :=
  (index.layout.id2loc id).map (index.recordAtLoc geometry)

/-- An index in which ids and slots agree, the neighbours in the lists are mapped, and so is the
medoid. -/
structure WellFormed (index : IndexContents Point Code) : Prop where
  consistent : index.layout.Consistent geometry
  linked : ∀ id loc, index.layout.id2loc id = some loc →
    ∀ nbr ∈ (index.recordAtLoc geometry loc).nbrs, index.layout.id2loc nbr ≠ none
  medoid : index.layout.id2loc index.medoid ≠ none

/-- `load`. A header and a code file of different lengths, or a partition with another number of
records to a page, end it. -/
def load [Inhabited Code] (files : IndexFiles Point Code) : Option (IndexContents Point Code) :=
  let numPoints := files.pqCompressed.length
  if files.header.npoints ≠ numPoints then none
  else
    let contents (layout : Layout) : IndexContents Point Code :=
      { numPoints := numPoints
        medoid := files.header.medoid
        layout := layout
        graph := files.graph
        data := fun id => (files.pqCompressed[id]?).getD default
        tags := fun id => files.tags.bind fun tags => tags[id]?
        curId := numPoints }
    match files.partition with
    | none => some (contents (.loadIdentity geometry numPoints))
    | some partition =>
      if numPoints ≠ 0 ∧ partition.nodesPerPage ≠ geometry.nnodesPerSector then none
      else some (contents (.loadPartition geometry partition.pages))

/-- `reload` up to the unlock: the graph file is opened, and the counters restart after the points
of the index. -/
def reload (graph : Nat → PageImage Point) (index : IndexContents Point Code) :
    IndexContents Point Code :=
  { index with
    graph := graph
    curId := index.numPoints
    layout :=
      { index.layout with
        curLoc := Layout.alignedTail geometry index.numPoints
        emptyPages := [] } }

end IndexContents

/-! ### `merge_lock` -/

/-- The state of `merge_lock` as far as one merge and the `reload` after it are concerned. -/
inductive MergeMutex
  | free
  | locked
  /-- It was unlocked while it was free. -/
  | overReleased
  deriving DecidableEq

namespace MergeMutex

/-- `lock()`, which waits while it is locked. -/
def lock : MergeMutex → Option MergeMutex
  | .free => some .locked
  | .locked => none
  | .overReleased => none

/-- `unlock()`. -/
def unlock : MergeMutex → MergeMutex
  | .locked => .free
  | .free => .overReleased
  | .overReleased => .overReleased

end MergeMutex

/-! ### The index that the update path works on -/

namespace IndexState

/-- The fields of an index that nothing runs on. -/
def contents (state : IndexState Point Code) (numPoints medoid : Nat) :
    IndexContents Point Code where
  numPoints := numPoints
  medoid := medoid
  layout := state.layout
  graph := state.disk
  data := state.data
  tags := state.tags
  curId := state.curId

theorem WellFormed.contents {params : IndexParams Point Code Distance}
    {state : IndexState Point Code} (fresh : state.WellFormed params) {medoid : Nat}
    (numPoints : Nat) (mapped : state.layout.id2loc medoid ≠ none) :
    (state.contents numPoints medoid).WellFormed params.geometry where
  consistent := fresh.records.loaded.consistent
  linked id loc here nbr listed := by
    have here : state.layout.id2loc id = some loc := here
    have record : recordAt params.geometry state.disk loc = state.record id := by
      rw [fresh.disk]
      exact fresh.records.recorded id loc here
    have known : state.layout.id2loc id ≠ none := by
      rw [here]
      nofun
    refine fresh.linked id known nbr ?_
    rw [← record]
    exact listed
  medoid := mapped

end IndexState

end OdinVector
