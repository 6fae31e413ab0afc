/-
This file models `load_from_disk_index`, which fills an `Index` from a disk index. It
copies a vector to `id * data_dim` of `_data`, where the other functions of the class look
for it at `id * _aligned_dim`, and takes the last node of the file for the frozen point.

`_data` is memory that the constructor allocates and does not write.
-/

import OdinVector.Build.DiskRoundTrip
import OdinVector.InMemory.Insertion

namespace OdinVector

open Binary

variable {Component Tag : Type}

/-! ### Memory -/

/-- `memcpy` of values to a place. -/
def copyTo (memory : Nat → Component) (place : Nat) (values : List Component) :
    Nat → Component :=
  fun position =>
    if place ≤ position then values[position - place]?.getD (memory position)
    else memory position

/-- A location of `_data`, as the functions of `Index` read it. -/
def rowAt (memory : Nat → Component) (alignedDim location : Nat) : List Component :=
  (List.range alignedDim).map fun place => memory (location * alignedDim + place)

section Memory

variable {memory : Nat → Component} {place : Nat} {values : List Component}

theorem copyTo_inside {position : Nat} {value : Component}
    (there : values[position]? = some value) :
    copyTo memory place values (place + position) = value := by
  unfold copyTo
  rw [if_pos (Nat.le_add_right _ _), Nat.add_sub_cancel_left, there, Option.getD_some]

theorem copyTo_outside {position : Nat}
    (outside : position < place ∨ place + values.length ≤ position) :
    copyTo memory place values position = memory position := by
  unfold copyTo
  split
  · rw [List.getElem?_eq_none (by omega), Option.getD_none]
  · rfl

@[simp] theorem length_rowAt (memory : Nat → Component) (alignedDim location : Nat) :
    (rowAt memory alignedDim location).length = alignedDim := by
  unfold rowAt
  rw [List.length_map, List.length_range]

theorem getElem?_rowAt {alignedDim location : Nat} (inside : place < alignedDim) :
    (rowAt memory alignedDim location)[place]? = some (memory (location * alignedDim + place)) := by
  unfold rowAt
  rw [List.getElem?_map, List.getElem?_range inside, Option.map_some]

end Memory

/-! ### Loading -/

namespace Index

/-- The constructor of `Index`. -/
def create (dim maxPoints : Nat) (dynamicIndex saveIndexInOneFile enableTags : Bool)
    (memory : Nat → Component) : Index Component Tag where
  maxPoints := if maxPoints = 0 then 1 else maxPoints
  nd := 0
  emptySlots := ∅
  deleteSet := ∅
  tagToLocation _ := none
  locationToTag _ := none
  dataCompacted := true
  lazyDone := false
  eagerDone := false
  numFrozenPts := if dynamicIndex then 1 else 0
  width := 0
  ep := if maxPoints = 0 then 1 else maxPoints
  finalGraph _ := []
  dim := dim
  enableTags := enableTags || dynamicIndex
  saveAsOneFile := saveIndexInOneFile
  data := rowAt memory (roundUp dim 8)

end Index

/-- What the loop over the nodes writes. -/
structure Imported (Component : Type) where
  data : Nat → Component
  finalGraph : Nat → List Nat
  locationToTag : Nat → Option Nat
  tagToLocation : Nat → Option Nat

/-- `kSectorsPerRead`. -/
def kSectorsPerRead : Nat := 65536

namespace DiskHeader

variable (format : Format Component) (header : DiskHeader)

/-- `n_sectors` in `load_from_disk_index`. -/
def nSectors : Nat := roundUp header.diskNnodes header.nnodesPerSector / header.nnodesPerSector

/-- A node of the sectors that `buf` has from `stSector` on. -/
def importNode (stSector : Nat) (buf : Bytes) (state : Imported Component) (loc : Nat) :
    Imported Component :=
  let pageRbuf := buf.drop ((loc / header.nnodesPerSector - stSector) * sectorLen)
  let node := header.diskNode format pageRbuf loc
  { data := copyTo state.data (loc * header.dataDim) node.coords
    finalGraph := Function.update state.finalGraph loc node.nbrs
    locationToTag := Function.update state.locationToTag loc loc
    tagToLocation := Function.update state.tagToLocation loc loc }

/-- The loop over reads of `kSectorsPerRead` sectors. -/
def importSectors : Nat → Nat → Bytes → Imported Component → Option (Imported Component)
  | 0, _, _, state => some state
  | left + 1, stSector, stream, state =>
    if stSector < header.nSectors then
      let edSector := min (stSector + kSectorsPerRead) header.nSectors
      let locSt := stSector * header.nnodesPerSector
      let locEd := min header.diskNnodes (edSector * header.nnodesPerSector)
      (readBytes ((edSector - stSector) * sectorLen) stream).bind fun (buf, rest) =>
        importSectors left (stSector + kSectorsPerRead) rest
          ((List.range' locSt (locEd - locSt)).foldl (header.importNode format stSector buf) state)
    else some state

end DiskHeader

namespace Index

variable (format : Format Component)

/-- The fields that `load_from_disk_index` sets. -/
def install (index : Index Component Nat) (header : DiskHeader) (state : Imported Component) :
    Index Component Nat :=
  let nd := header.diskNnodes - index.numFrozenPts
  { index with
    ep := header.medoid
    nd := nd
    emptySlots := Finset.Ico nd index.maxPoints
    locationToTag := state.locationToTag
    tagToLocation := state.tagToLocation
    finalGraph := state.finalGraph
    data := rowAt state.data index.alignedDim }

/-- `load_from_disk_index` over what `_data` has. The loop that fills `_empty_slots` counts with
32 bits. -/
def loadFromDiskIndex (index : Index Component Nat) (memory : Nat → Component) (file : Bytes) :
    Option (Index Component Nat) :=
  (loadHeader format.width file).bind fun (header, _) =>
    (header.importSectors format header.nSectors 0 (file.drop sectorLen)
      ⟨memory, index.finalGraph, index.locationToTag, index.tagToLocation⟩).bind fun state =>
        let installed := index.install header state
        if installed.nd < index.maxPoints ∧ 2 ^ 32 ≤ index.maxPoints then none
        else some (installed.repositionFrozenPointToEnd format)

end Index

end OdinVector
