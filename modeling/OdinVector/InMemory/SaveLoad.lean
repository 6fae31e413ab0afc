/-
This file models `save` and `load`. The sections of a saved index are the graph, the
vectors, the tags and the delete set: each in a file of its own, which is removed first,
or one behind the other in one file, with their offsets in its first page.

The delete set is written in the order in which its iteration gives it. Of the tag array
an entry that is not set is written as zeros.
-/

import OdinVector.InMemory.Index

namespace OdinVector

open Binary

variable {Component Tag : Type}

/-- `METADATA_SIZE`. -/
def metadataSize : Nat := 4096

/-- A section of `save_bin`. -/
def binBytes (npts ndims : Nat) (body : Bytes) : Bytes :=
  bytesOf 4 npts ++ bytesOf 4 ndims ++ body

/-- The files of a saved index. -/
inductive SavedFiles
  | oneFile (file : Bytes)
  | files (graph data : Bytes) (tags del : Option Bytes)

namespace Index

variable (format : Format Component) (tagFormat : Format Tag)

/-! ### Saving -/

section Save

variable (index : Index Component Tag)

/-- The locations that are saved. -/
def savedLocations : List Nat := List.range (index.nd + index.numFrozenPts)

/-- The lists that are saved. -/
def savedLists : List (List Nat) := index.savedLocations.map index.finalGraph

/-- The longest of lists. -/
def maxDegree (lists : List (List Nat)) : Nat :=
  lists.foldl (fun longest nbrs => max longest nbrs.length) 0

/-- `index_size` in `save_graph`; a length with its list is counted in 32 bits. -/
def graphSize : Nat :=
  24 + (index.savedLists.map fun nbrs => 4 * ((nbrs.length + 1) % 2 ^ 32)).sum

/-- `save_graph`: the size and the width are written again in the end. -/
def saveGraph (file : Bytes) (offset : Nat) : Bytes :=
  let section_ := graphHeader 24 index.width index.ep index.numFrozenPts ++
    graphRecords index.savedLists
  writeAt (writeAt file offset section_) offset
    (bytesOf 8 index.graphSize ++ bytesOf 4 (maxDegree index.savedLists))

/-- `save_data`. -/
def dataBytes : Bytes :=
  binBytes (index.nd + index.numFrozenPts) index.dim
    (index.savedLocations.flatMap fun location =>
      ((index.data location).take index.dim).flatMap format.encode)

/-- `tag_data` at a location. -/
def tagBytes (location : Nat) : Bytes :=
  if 0 < index.numFrozenPts ∧ location = index.ep then List.replicate tagFormat.width 0
  else (index.locationToTag location).elim (List.replicate tagFormat.width 0) tagFormat.encode

/-- `save_tags`. -/
def tagsBytes : Bytes :=
  if index.enableTags then
    binBytes (index.nd + index.numFrozenPts) 1
      (index.savedLocations.flatMap (index.tagBytes tagFormat))
  else []

/-- `save_delete_list`, with the order of the iteration. -/
def deleteBytes (deleteList : List Nat) : Bytes :=
  if index.deleteSet = ∅ then [] else binBytes deleteList.length 1 (wordsOf 4 deleteList)

/-- `save`: the files, and the index after it. -/
def save (deleteList : List Nat) : SavedFiles × Index Component Tag :=
  let compact := index.compactFrozenPoint format
  let after := compact.repositionFrozenPointToEnd format
  if index.saveAsOneFile then
    let graph := compact.saveGraph [] metadataSize
    let first := metadataSize + compact.graphSize
    let data := writeAt graph first (compact.dataBytes format)
    let second := first + (compact.dataBytes format).length
    let tags := if index.enableTags then writeAt data second (compact.tagsBytes tagFormat) else data
    let third := second + (compact.tagsBytes tagFormat).length
    let del := if index.deleteSet = ∅ then tags
      else writeAt tags third (compact.deleteBytes deleteList)
    let fourth := third + (compact.deleteBytes deleteList).length
    (.oneFile (writeAt del 0
      (binBytes 5 1 (wordsOf 8 [metadataSize, first, second, third, fourth]))), after)
  else
    (.files (compact.saveGraph [] 0) (compact.dataBytes format)
      (if index.enableTags then some (compact.tagsBytes tagFormat) else none)
      (if index.deleteSet = ∅ then none else some (compact.deleteBytes deleteList)), after)

end Save

/-! ### Loading -/

section Load

variable [DecidableEq Tag]

/-- The counts of a section of `save_bin`, and what follows. -/
def readBin (file : Bytes) (offset : Nat) : Option ((Nat × Nat) × Bytes) :=
  (readWord 4 (file.drop offset)).bind fun (npts, rest) =>
    (readWord 4 rest).map fun (dim, rest) => ((npts, dim), rest)

/-- `load_data`: an index with too few locations grows. -/
def loadData (file : Bytes) (offset : Nat) (index : Index Component Tag) :
    Option (Index Component Tag × Nat) :=
  (readBin file offset).bind fun ((npts, dim), rest) =>
    if dim ≠ index.dim then none
    else
      let cleared := { index with emptySlots := ∅ }
      let grown :=
        if index.maxPoints + index.numFrozenPts < npts then cleared.resizeTo format npts
        else cleared
      (readAll (readBytes (dim * format.width)) npts rest).map fun (rows, _) =>
        ({ grown with
            data := fun location =>
              (rows[location]?).elim (grown.data location) fun row =>
                arrayAt format.decode format.width dim row ++
                  List.replicate (index.alignedDim - dim) (zeroComponent format) }, npts)

/-- `load_delete_set`. -/
def loadDeleteSet (file : Bytes) (offset : Nat) (index : Index Component Tag) :
    Option (Index Component Tag) :=
  (readBin file offset).bind fun ((npts, ndim), rest) =>
    (readAll (readWord 4) (npts * ndim) rest).map fun (deleteList, _) =>
      { index with deleteSet := index.deleteSet ∪ (deleteList.take npts).toFinset }

/-- A round of the loop of `load_tags`. -/
def enterTag (tags : List Tag) (index : Index Component Tag) (location : Nat) :
    Index Component Tag :=
  (tags[location]?).elim index fun tag =>
    if location ∈ index.deleteSet then index
    else
      { index with
        locationToTag := Function.update index.locationToTag location (some tag)
        tagToLocation := Function.update index.tagToLocation tag (some location) }

/-- `load_tags`, when tags are enabled. -/
def loadTags (file : Bytes) (offset : Nat) (index : Index Component Tag) :
    Option (Index Component Tag × Nat) :=
  (readBin file offset).bind fun ((npts, dim), rest) =>
    (readAll (readBytes tagFormat.width) (npts * dim) rest).bind fun (tags, _) =>
      if dim ≠ 1 then none
      else
        let numDataPoints := if 0 < index.numFrozenPts then npts - 1 else npts
        some ((List.range numDataPoints).foldl (enterTag (tags.map tagFormat.decode)) index, npts)

/-- `load_graph` of an index. -/
def loadGraphInto (file : Bytes) (expectedNumPoints offset : Nat) (index : Index Component Tag) :
    Option (Index Component Tag × Nat) :=
  (index.toIndexGraph.loadGraph file expectedNumPoints offset).map fun (graph, nodes) =>
    ({ index with
        maxPoints := graph.maxPoints
        width := graph.width
        ep := graph.ep
        finalGraph := graph.finalGraph }, nodes)

/-- What `load` does when the sections are read. -/
def finishLoad (index : Index Component Tag) (dataNum graphNum tagsNum : Nat) :
    Option (Index Component Tag) :=
  if dataNum ≠ graphNum ∨ dataNum ≠ tagsNum ∧ index.enableTags = true then none
  else
    let nd := dataNum - index.numFrozenPts
    some (({ index with
      nd := nd
      emptySlots := Finset.Ico nd index.maxPoints
      lazyDone := index.deleteSet ≠ ∅ } :
        Index Component Tag).repositionFrozenPointToEnd format)

/-- `load`. -/
def load (files : SavedFiles) (index : Index Component Tag) : Option (Index Component Tag) :=
  match files, index.saveAsOneFile with
  | .files graph data tags del, false =>
    (index.loadData format data 0).bind fun (index, dataNum) =>
      (del.elim (some index) fun del => index.loadDeleteSet del 0).bind fun index =>
        (if index.enableTags then tags.bind fun tags => index.loadTags tagFormat tags 0
          else some (index, 0)).bind fun (index, tagsNum) =>
          (index.loadGraphInto graph dataNum 0).bind fun (index, graphNum) =>
            index.finishLoad format dataNum graphNum tagsNum
  | .oneFile file, true =>
    (readBin file 0).bind fun ((nr, nc), rest) =>
      (readAll (readWord 8) (nr * nc) rest).bind fun (offsets, _) =>
        (index.loadData format file (offsets.getD 1 0)).bind fun (index, dataNum) =>
          (index.loadGraphInto file dataNum (offsets.getD 0 0)).bind fun (index, graphNum) =>
            (if offsets.getD 3 0 ≠ offsets.getD 4 0 then
                index.loadDeleteSet file (offsets.getD 3 0)
              else some index).bind fun index =>
              (if index.enableTags then index.loadTags tagFormat file (offsets.getD 2 0)
                else some (index, 0)).bind fun (index, tagsNum) =>
                index.finishLoad format dataNum graphNum tagsNum
  | _, _ => none

end Load

end Index

end OdinVector
