/-
This file proves that every section of a saved index is read back by its loader, where
it lies in a file and whatever follows it.
-/

import OdinVector.InMemory.SaveLoad

namespace OdinVector

open Binary

variable {Component Tag : Type}

namespace Index

variable (format : Format Component) (tagFormat : Format Tag)

/-- An index whose frozen point is behind the points, as `save` writes it. -/
structure Savable (index : Index Component Tag) : Prop where
  dimension : index.dim < 2 ^ 32
  count : index.nd + index.numFrozenPts < 2 ^ 32
  frozen : index.numFrozenPts ≤ 1
  storable : ∀ nbrs ∈ index.savedLists, Storable nbrs
  lengths : ∀ nbrs ∈ index.savedLists, nbrs.length + 1 < 2 ^ 32
  aligned : ∀ location, (index.data location).length = index.alignedDim
  deleted : ∀ location ∈ index.deleteSet, location < index.nd
  tagged : ∀ location tag, index.locationToTag location = some tag → location < index.nd
  inverse : ∀ tag location,
    index.tagToLocation tag = some location ↔ index.locationToTag location = some tag
  live : index.enableTags = true → ∀ location < index.nd,
    (index.locationToTag location = none ↔ location ∈ index.deleteSet)
  entry : index.ep < 2 ^ 32
  behind : 0 < index.numFrozenPts → index.ep = index.nd

variable {format tagFormat}
variable {index loading : Index Component Tag}

@[simp] theorem length_savedLists (index : Index Component Tag) :
    index.savedLists.length = index.nd + index.numFrozenPts := by
  unfold savedLists savedLocations
  rw [List.length_map, List.length_range]

theorem dim_le_alignedDim (index : Index Component Tag) : index.dim ≤ index.alignedDim :=
  le_divRoundUp_mul _ (by decide)

/-! ### The graph -/

theorem graphSize_eq (lengths : ∀ nbrs ∈ index.savedLists, nbrs.length + 1 < 2 ^ 32) :
    index.graphSize = 24 + (graphRecords index.savedLists).length := by
  unfold graphSize graphRecords
  rw [List.length_flatMap]
  congr 2
  refine List.map_congr_left fun nbrs member => ?_
  rw [length_graphRecord, Nat.mod_eq_of_lt (lengths nbrs member)]

theorem saveGraph_eq (lengths : ∀ nbrs ∈ index.savedLists, nbrs.length + 1 < 2 ^ 32)
    (offset : Nat) :
    index.saveGraph [] offset = List.replicate offset 0 ++
      (graphHeader (24 + (graphRecords index.savedLists).length) (maxDegree index.savedLists)
        index.ep index.numFrozenPts ++ graphRecords index.savedLists) := by
  unfold saveGraph
  dsimp only
  have hole : writeAt [] offset (graphHeader 24 index.width index.ep index.numFrozenPts ++
      graphRecords index.savedLists) = List.replicate offset 0 ++
        (bytesOf 8 24 ++ bytesOf 4 index.width) ++ (bytesOf 4 index.ep ++
          bytesOf 8 index.numFrozenPts ++ graphRecords index.savedLists) := by
    rw [writeAt_hole (Nat.zero_le _), List.nil_append, List.length_nil, Nat.sub_zero]
    unfold graphHeader
    simp only [List.append_assoc]
  have same : (bytesOf 8 24 ++ bytesOf 4 index.width).length =
      (bytesOf 8 index.graphSize ++ bytesOf 4 (maxDegree index.savedLists)).length := by
    simp only [List.length_append, length_bytesOf]
  rw [hole, writeAt_over List.length_replicate same, graphSize_eq lengths]
  unfold graphHeader
  simp only [List.append_assoc]

theorem loadGraphInto_section (savable : index.Savable)
    (fits : 24 + (graphRecords index.savedLists).length < 2 ^ 64)
    (same : loading.numFrozenPts = index.numFrozenPts) (room : index.nd ≤ loading.maxPoints)
    (widthFits : maxDegree index.savedLists < 2 ^ 32) {file tail : Bytes} {offset : Nat}
    (place : file.drop offset = graphHeader (24 + (graphRecords index.savedLists).length)
      (maxDegree index.savedLists) index.ep index.numFrozenPts ++ graphRecords index.savedLists ++
        tail) :
    loading.loadGraphInto file (index.nd + index.numFrozenPts) offset =
      some ({ loading with
        width := maxDegree index.savedLists
        ep := index.ep
        finalGraph := placed index.savedLists 0 loading.finalGraph },
          index.nd + index.numFrozenPts) := by
  have frozen := savable.frozen
  have count := savable.count
  have frozenSame : loading.toIndexGraph.numFrozenPts = index.numFrozenPts := same
  have pointsSame : loading.toIndexGraph.maxPoints = loading.maxPoints := rfl
  have most : max loading.maxPoints (index.nd + index.numFrozenPts - index.numFrozenPts) =
      loading.maxPoints := by
    rw [Nat.add_sub_cancel]
    exact Nat.max_eq_left room
  have read := @IndexGraph.loadGraph_section loading.toIndexGraph file tail offset
    (maxDegree index.savedLists) index.ep (index.nd + index.numFrozenPts) index.savedLists fits
    widthFits savable.entry (by rw [frozenSame]; omega) savable.storable
    (by rw [frozenSame]; omega)
    (by rw [length_savedLists, frozenSame, pointsSame, most]; omega)
    (by rw [frozenSame]; exact place)
  unfold loadGraphInto
  rw [read, Option.map_some]
  dsimp only
  rw [same, most, length_savedLists, Nat.mod_eq_of_lt count]

/-! ### The vectors -/

theorem readBin_section {npts ndims : Nat} {body tail file : Bytes} {offset : Nat}
    (nptsFits : npts < 2 ^ 32) (ndimsFits : ndims < 2 ^ 32)
    (place : file.drop offset = binBytes npts ndims body ++ tail) :
    readBin file offset = some ((npts, ndims), body ++ tail) := by
  unfold readBin
  rw [place]
  unfold binBytes
  rw [List.append_assoc, List.append_assoc, readWord_append (by exact nptsFits), Option.bind_some]
  dsimp only
  rw [readWord_append (by exact ndimsFits), Option.map_some]

/-- The vectors of an index after `load_data`. -/
def loadedData (format : Format Component) (index loading : Index Component Tag)
    (location : Nat) : List Component :=
  if location < index.nd + index.numFrozenPts then
    (index.data location).take index.dim ++
      List.replicate (index.alignedDim - index.dim) (zeroComponent format)
  else loading.data location

theorem loadData_section (savable : index.Savable) (dimension : loading.dim = index.dim)
    (room : index.nd + index.numFrozenPts ≤ loading.maxPoints + loading.numFrozenPts)
    {file tail : Bytes} {offset : Nat}
    (place : file.drop offset = index.dataBytes format ++ tail) :
    loading.loadData format file offset =
      some ({ loading with
        emptySlots := ∅
        data := loadedData format index loading }, index.nd + index.numFrozenPts) := by
  let row (location : Nat) : Bytes :=
    ((index.data location).take index.dim).flatMap format.encode
  have coords (location : Nat) : ((index.data location).take index.dim).length = index.dim := by
    rw [List.length_take, savable.aligned]
    exact Nat.min_eq_left index.dim_le_alignedDim
  have rowLength (location : Nat) : (row location).length = index.dim * format.width := by
    show (((index.data location).take index.dim).flatMap format.encode).length = _
    rw [length_flatMap_const fun value _ => format.length_encode value, coords]
  have bin := readBin_section savable.count savable.dimension place
  have rows : readAll (readBytes (index.dim * format.width)) index.savedLocations.length
      (index.savedLocations.flatMap row ++ tail) =
        some (index.savedLocations.map row, tail) := by
    have each : ∀ bytes ∈ index.savedLocations.map row, ∀ rest,
        readBytes (index.dim * format.width) (id bytes ++ rest) = some (bytes, rest) := by
      intro bytes member rest
      obtain ⟨location, -, rfl⟩ := List.mem_map.mp member
      exact readBytes_append (rowLength location) rest
    have all := readAll_append each tail
    rw [List.length_map, List.flatMap_map] at all
    exact all
  have length : index.savedLocations.length = index.nd + index.numFrozenPts := List.length_range
  rw [length] at rows
  unfold loadData
  rw [bin, Option.bind_some]
  dsimp only
  rw [if_neg (not_not.mpr dimension.symm), if_neg (Nat.not_lt.mpr room), rows, Option.map_some]
  dsimp only
  congr 3
  funext location
  unfold loadedData
  split
  · rename_i inside
    have there : (index.savedLocations.map row)[location]? = some (row location) := by
      unfold savedLocations
      rw [List.getElem?_map, List.getElem?_range inside]
      rfl
    have decoded : arrayAt format.decode format.width ((index.data location).take index.dim).length
        (row location ++ []) = (index.data location).take index.dim :=
      arrayAt_flatMap (fun value _ => format.length_encode value)
        (fun value _ => format.decode_encode value) []
    rw [List.append_nil, coords] at decoded
    have aligned : loading.alignedDim = index.alignedDim := by
      unfold alignedDim
      rw [dimension]
    rw [there, Option.elim_some, decoded, aligned]
  · rename_i outside
    have none : (index.savedLocations.map row)[location]? = none := by
      rw [List.getElem?_eq_none_iff, List.length_map, length]
      exact Nat.not_lt.mp outside
    rw [none]
    rfl

/-! ### The delete set -/

theorem loadDeleteSet_section {deleteList : List Nat} (few : deleteList.length < 2 ^ 32)
    (ids : ∀ location ∈ deleteList, location < 2 ^ 32) (empty : loading.deleteSet = ∅)
    {file tail : Bytes} {offset : Nat}
    (place : file.drop offset = binBytes deleteList.length 1 (wordsOf 4 deleteList) ++ tail) :
    loading.loadDeleteSet file offset =
      some { loading with deleteSet := deleteList.toFinset } := by
  have bin := readBin_section few (by decide : 1 < 2 ^ 32) place
  have fit : ∀ location ∈ deleteList, location < 256 ^ 4 := fun location member =>
    ids location member
  have words := readWords_append fit tail
  unfold loadDeleteSet
  rw [bin, Option.bind_some]
  dsimp only
  rw [Nat.mul_one, words, Option.map_some]
  dsimp only
  rw [empty, Finset.empty_union, List.take_length]

/-! ### The tags -/

section Tags

variable [DecidableEq Tag]

/-- The tags of the first locations. -/
theorem foldl_enterTag {tags : List Tag} (deleteSet : loading.deleteSet = index.deleteSet)
    (noTags : ∀ tag, loading.tagToLocation tag = none)
    (noLocations : ∀ location, loading.locationToTag location = none)
    (inverse : ∀ tag location,
      index.tagToLocation tag = some location ↔ index.locationToTag location = some tag)
    {count : Nat} (dead : ∀ location < count, location ∈ index.deleteSet →
      index.locationToTag location = none)
    (live : ∀ location < count, location ∉ index.deleteSet →
      tags[location]? = index.locationToTag location)
    (given : ∀ location < count, tags[location]? ≠ none) :
    (List.range count).foldl (enterTag tags) loading =
      { loading with
        locationToTag := fun location =>
          if location < count then index.locationToTag location else none
        tagToLocation := fun tag => (index.tagToLocation tag).bind fun location =>
          if location < count then some location else none } := by
  induction count with
  | zero =>
    have first : (fun location =>
        if location < 0 then index.locationToTag location else none) = loading.locationToTag := by
      funext location
      rw [noLocations, if_neg (Nat.not_lt_zero location)]
    have second : (fun tag => (index.tagToLocation tag).bind fun location =>
        if location < 0 then some location else none) = loading.tagToLocation := by
      funext tag
      rw [noTags, Option.bind_eq_none_iff]
      intro location _
      exact if_neg (Nat.not_lt_zero location)
    rw [first, second]
    rfl
  | succ count inductionHypothesis =>
    rw [List.range_succ, List.foldl_append, inductionHypothesis
      (fun location below => dead location (Nat.lt_succ_of_lt below))
      (fun location below => live location (Nat.lt_succ_of_lt below))
      (fun location below => given location (Nat.lt_succ_of_lt below)), List.foldl_cons,
      List.foldl_nil]
    obtain ⟨tag, there⟩ := Option.ne_none_iff_exists'.mp (given count (Nat.lt_succ_self count))
    unfold enterTag
    rw [there, Option.elim_some]
    dsimp only
    by_cases gone : count ∈ index.deleteSet
    · have none := dead count (Nat.lt_succ_self count) gone
      rw [deleteSet, if_pos gone]
      congr 2
      · funext other
        cases place : index.tagToLocation other with
        | none => rfl
        | some location =>
          have differ : location ≠ count := by
            intro same
            have known := (inverse other location).mp place
            rw [same, none] at known
            exact nomatch known
          have bounds : location < count ↔ location < count + 1 := by omega
          rw [Option.bind_some, Option.bind_some, if_congr bounds rfl rfl]
      · funext location
        by_cases same : location = count
        · subst same
          rw [if_neg (Nat.lt_irrefl _), if_pos (Nat.lt_succ_self _), none]
        · by_cases below : location < count
          · rw [if_pos below, if_pos (Nat.lt_succ_of_lt below)]
          · rw [if_neg below, if_neg (by omega)]
    · have entered := live count (Nat.lt_succ_self count) gone
      rw [there] at entered
      have place := (inverse tag count).mpr entered.symm
      rw [deleteSet, if_neg gone]
      congr 2
      · funext other
        by_cases same : other = tag
        · subst same
          rw [Function.update_self, place, Option.bind_some, if_pos (Nat.lt_succ_self count)]
        · rw [Function.update_of_ne same]
          cases elsewhere : index.tagToLocation other with
          | none => rfl
          | some location =>
            have differ : location ≠ count := by
              intro here
              have known := (inverse other location).mp elsewhere
              rw [here, ← entered] at known
              exact same (Option.some.inj known).symm
            have bounds : location < count ↔ location < count + 1 := by omega
            rw [Option.bind_some, Option.bind_some, if_congr bounds rfl rfl]
      · funext location
        by_cases same : location = count
        · subst same
          rw [Function.update_self, if_pos (Nat.lt_succ_self _), entered]
        · rw [Function.update_of_ne same]
          by_cases below : location < count
          · rw [if_pos below, if_pos (Nat.lt_succ_of_lt below)]
          · rw [if_neg below, if_neg (by omega)]

theorem loadTags_section (savable : index.Savable) (enabled : index.enableTags = true)
    (same : loading.numFrozenPts = index.numFrozenPts)
    (deleteSet : loading.deleteSet = index.deleteSet)
    (noTags : ∀ tag, loading.tagToLocation tag = none)
    (noLocations : ∀ location, loading.locationToTag location = none)
    {file tail : Bytes} {offset : Nat}
    (place : file.drop offset = index.tagsBytes tagFormat ++ tail) :
    loading.loadTags tagFormat file offset =
      some ({ loading with
        locationToTag := index.locationToTag
        tagToLocation := index.tagToLocation }, index.nd + index.numFrozenPts) := by
  have section_ : index.tagsBytes tagFormat = binBytes (index.nd + index.numFrozenPts) 1
      (index.savedLocations.flatMap (index.tagBytes tagFormat)) := if_pos enabled
  have tagLength (location : Nat) :
      (index.tagBytes tagFormat location).length = tagFormat.width := by
    unfold tagBytes
    split
    · exact List.length_replicate
    · cases index.locationToTag location with
      | none => exact List.length_replicate
      | some tag => exact tagFormat.length_encode tag
  rw [section_] at place
  have bin := readBin_section savable.count (by decide : 1 < 2 ^ 32) place
  have rows : readAll (readBytes tagFormat.width) index.savedLocations.length
      (index.savedLocations.flatMap (index.tagBytes tagFormat) ++ tail) =
        some (index.savedLocations.map (index.tagBytes tagFormat), tail) := by
    have each : ∀ bytes ∈ index.savedLocations.map (index.tagBytes tagFormat), ∀ rest,
        readBytes tagFormat.width (id bytes ++ rest) = some (bytes, rest) := by
      intro bytes member rest
      obtain ⟨location, -, rfl⟩ := List.mem_map.mp member
      exact readBytes_append (tagLength location) rest
    have all := readAll_append each tail
    rw [List.length_map, List.flatMap_map] at all
    exact all
  have length : index.savedLocations.length = index.nd + index.numFrozenPts := List.length_range
  rw [length] at rows
  have points : (if 0 < loading.numFrozenPts then index.nd + index.numFrozenPts - 1
      else index.nd + index.numFrozenPts) = index.nd := by
    have frozen := savable.frozen
    rw [same]
    split <;> omega
  have there (location : Nat) (inside : location < index.nd) :
      ((index.savedLocations.map (index.tagBytes tagFormat)).map tagFormat.decode)[location]? =
        some (tagFormat.decode (index.tagBytes tagFormat location)) := by
    unfold savedLocations
    rw [List.getElem?_map, List.getElem?_map, List.getElem?_range (by omega)]
    rfl
  have entered := @foldl_enterTag _ _ index loading _
    ((index.savedLocations.map (index.tagBytes tagFormat)).map tagFormat.decode) deleteSet noTags
    noLocations savable.inverse index.nd
    (fun location inside dead => (savable.live enabled location inside).mpr dead)
    (fun location inside alive => by
      have known := (savable.live enabled location inside).not.mpr alive
      obtain ⟨tag, named⟩ := Option.ne_none_iff_exists'.mp known
      have point : ¬ (0 < index.numFrozenPts ∧ location = index.ep) := fun frozen => by
        have behind := savable.behind frozen.1
        omega
      rw [there location inside, named]
      unfold tagBytes
      rw [if_neg point, named, Option.elim_some, tagFormat.decode_encode])
    (fun location inside none => by
      rw [there location inside] at none
      exact nomatch none)
  have locations : (fun location =>
      if location < index.nd then index.locationToTag location else none) =
        index.locationToTag := by
    funext location
    split
    · rfl
    · rename_i outside
      cases named : index.locationToTag location with
      | none => rfl
      | some tag => exact absurd (savable.tagged location tag named) outside
  have tags : (fun tag => (index.tagToLocation tag).bind fun location =>
      if location < index.nd then some location else none) = index.tagToLocation := by
    funext tag
    cases place : index.tagToLocation tag with
    | none => rfl
    | some location =>
      have named := (savable.inverse tag location).mp place
      rw [Option.bind_some, if_pos (savable.tagged location tag named)]
  unfold loadTags
  rw [bin, Option.bind_some]
  dsimp only
  rw [Nat.mul_one, rows, Option.bind_some]
  dsimp only
  rw [if_neg (not_not.mpr rfl), points, entered, locations, tags]

end Tags

end Index

end OdinVector
