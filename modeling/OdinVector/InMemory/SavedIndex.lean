/-
This file proves what `load` makes of the files of an index whose frozen point is behind
its points, in both modes: the index with its frozen point at the end.
-/

import OdinVector.InMemory.Sections

namespace OdinVector

open Binary

variable {Component Tag : Type}

namespace Index

/-- An index before `load`, with the parameters of the saved one and no fewer locations. -/
structure FreshFor (index fresh : Index Component Tag) : Prop where
  dim : fresh.dim = index.dim
  numFrozenPts : fresh.numFrozenPts = index.numFrozenPts
  enableTags : fresh.enableTags = index.enableTags
  saveAsOneFile : fresh.saveAsOneFile = index.saveAsOneFile
  room : index.maxPoints ≤ fresh.maxPoints
  locations : fresh.maxPoints + 1 < 2 ^ 32
  noDeleted : fresh.deleteSet = ∅
  noTags : ∀ tag, fresh.tagToLocation tag = none
  noLocations : ∀ location, fresh.locationToTag location = none
  noLists : ∀ location, fresh.finalGraph location = []

variable (format : Format Component) (tagFormat : Format Tag)

/-- The index before `load` moves the frozen point. -/
def loadedBase (index fresh : Index Component Tag) : Index Component Tag :=
  { fresh with
    nd := index.nd
    emptySlots := Finset.Ico index.nd fresh.maxPoints
    deleteSet := index.deleteSet
    tagToLocation := index.tagToLocation
    locationToTag := index.locationToTag
    lazyDone := index.deleteSet ≠ ∅
    width := maxDegree index.savedLists
    ep := index.ep
    finalGraph := placed index.savedLists 0 fresh.finalGraph
    data := loadedData format index fresh }

variable {format tagFormat}
variable {index fresh loading : Index Component Tag} {deleteList : List Nat}

theorem maxDegree_lt {lists : List (List Nat)} {bound : Nat} (positive : 0 < bound)
    (lengths : ∀ nbrs ∈ lists, nbrs.length < bound) : maxDegree lists < bound := by
  unfold maxDegree
  have each (longest : Nat) (small : longest < bound) :
      lists.foldl (fun longest nbrs => max longest nbrs.length) longest < bound := by
    induction lists generalizing longest with
    | nil => exact small
    | cons nbrs rest inductionHypothesis =>
      exact inductionHypothesis (fun other member => lengths other (List.mem_cons_of_mem _ member))
        _ (max_lt small (lengths nbrs List.mem_cons_self))
  exact each 0 positive

/-- What `save` takes of an index. -/
structure Saved (format : Format Component) (tagFormat : Format Tag)
    (index : Index Component Tag) (deleteList : List Nat) : Prop where
  savable : index.Savable
  untagged : index.enableTags = false →
    (∀ location, index.locationToTag location = none) ∧ index.deleteSet = ∅
  order : deleteList.toFinset = index.deleteSet
  once : deleteList.Nodup
  fits : metadataSize + index.graphSize + (index.dataBytes format).length +
    (index.tagsBytes tagFormat).length + (index.deleteBytes deleteList).length < 2 ^ 64

theorem Saved.deleteSection (saved : Saved format tagFormat index deleteList)
    (noDeleted : loading.deleteSet = ∅) (some : index.deleteSet ≠ ∅) {file tail : Bytes}
    {offset : Nat} (place : file.drop offset = index.deleteBytes deleteList ++ tail) :
    loading.loadDeleteSet file offset =
      Option.some { loading with deleteSet := index.deleteSet } := by
  have count := saved.savable.count
  have inside : ∀ location ∈ deleteList, location < index.nd := fun location member =>
    saved.savable.deleted location (by
      rw [← saved.order]
      exact List.mem_toFinset.mpr member)
  have few : deleteList.length < 2 ^ 32 := by
    have subset : deleteList.toFinset ⊆ Finset.range index.nd := fun location member =>
      Finset.mem_range.mpr (inside location (List.mem_toFinset.mp member))
    have card := Finset.card_le_card subset
    rw [List.toFinset_card_of_nodup saved.once, Finset.card_range] at card
    omega
  have bytes : index.deleteBytes deleteList =
      binBytes deleteList.length 1 (wordsOf 4 deleteList) := if_neg some
  rw [bytes] at place
  rw [loadDeleteSet_section few (fun location member => by
    have below := inside location member
    omega) noDeleted place, saved.order]

/-- An empty delete set is not written. -/
theorem Saved.deleteNothing (noDeleted : loading.deleteSet = ∅) (none : index.deleteSet = ∅) :
    loading = { loading with deleteSet := index.deleteSet } := by
  rw [none, ← noDeleted]

/-- Tags that are not enabled are not written. -/
theorem Saved.tagNothing (saved : Saved format tagFormat index deleteList)
    (disabled : index.enableTags = false) (noTags : ∀ tag, loading.tagToLocation tag = none)
    (noLocations : ∀ location, loading.locationToTag location = none) :
    loading = { loading with
      locationToTag := index.locationToTag
      tagToLocation := index.tagToLocation } := by
  have locations : index.locationToTag = loading.locationToTag := by
    funext location
    rw [noLocations, (saved.untagged disabled).1]
  have tags : index.tagToLocation = loading.tagToLocation := by
    funext tag
    rw [noTags]
    cases place : index.tagToLocation tag with
    | none => rfl
    | some location =>
      have named := (saved.savable.inverse tag location).mp place
      rw [(saved.untagged disabled).1] at named
      exact nomatch named
  rw [locations, tags]

/-- The tags are read back, or there are none. -/
theorem Saved.tagSection [DecidableEq Tag] (saved : Saved format tagFormat index deleteList)
    (loading : Index Component Tag) (enables : loading.enableTags = index.enableTags)
    (frozen : loading.numFrozenPts = index.numFrozenPts)
    (deleted : loading.deleteSet = index.deleteSet)
    (noTags : ∀ tag, loading.tagToLocation tag = none)
    (noLocations : ∀ location, loading.locationToTag location = none) {file tail : Bytes}
    {offset : Nat} (place : file.drop offset = index.tagsBytes tagFormat ++ tail) :
    (if loading.enableTags then loading.loadTags tagFormat file offset else some (loading, 0)) =
      some ({ loading with
        locationToTag := index.locationToTag
        tagToLocation := index.tagToLocation },
          if index.enableTags then index.nd + index.numFrozenPts else 0) := by
  rw [← enables]
  by_cases enabled : loading.enableTags = true
  · rw [if_pos enabled, if_pos enabled]
    exact loadTags_section saved.savable (enables ▸ enabled) frozen deleted noTags noLocations
      place
  · have disabled : index.enableTags = false := enables ▸ Bool.eq_false_of_not_eq_true enabled
    rw [if_neg enabled, if_neg enabled, ← saved.tagNothing disabled noTags noLocations]

/-- The numbers of points in the sections agree. -/
theorem counts_agree (points : Nat) (enableTags : Bool) :
    ¬ (points ≠ points ∨ points ≠ (if enableTags then points else 0) ∧ enableTags = true) := by
  rintro (wrong | ⟨wrong, enabled⟩)
  · exact wrong rfl
  · rw [if_pos enabled] at wrong
    exact wrong rfl

theorem Saved.graphFits (saved : Saved format tagFormat index deleteList) :
    24 + (graphRecords index.savedLists).length < 2 ^ 64 := by
  have fits := saved.fits
  rw [graphSize_eq saved.savable.lengths] at fits
  omega

theorem Saved.widthFits (saved : Saved format tagFormat index deleteList) :
    maxDegree index.savedLists < 2 ^ 32 :=
  maxDegree_lt (by decide) fun nbrs member => (saved.savable.storable nbrs member).length

theorem FreshFor.points_le (fresh_ : index.FreshFor fresh) (bounded : index.nd ≤ index.maxPoints) :
    index.nd + index.numFrozenPts ≤ fresh.maxPoints + fresh.numFrozenPts ∧
      index.nd ≤ fresh.maxPoints := by
  have room := fresh_.room
  rw [fresh_.numFrozenPts]
  omega

/-! ### A file for each section -/

theorem load_files [DecidableEq Tag] (saved : Saved format tagFormat index deleteList)
    (fresh_ : index.FreshFor fresh) (bounded : index.nd ≤ index.maxPoints)
    (many : index.saveAsOneFile = false) :
    fresh.load format tagFormat (.files (index.saveGraph [] 0) (index.dataBytes format)
      (if index.enableTags then some (index.tagsBytes tagFormat) else none)
      (if index.deleteSet = ∅ then none else some (index.deleteBytes deleteList))) =
        some ((loadedBase format index fresh).repositionFrozenPointToEnd format) := by
  obtain ⟨points, locations⟩ := fresh_.points_le bounded
  have whole (bytes : Bytes) : bytes.drop 0 = bytes ++ [] := (List.append_nil bytes).symm
  have data := loadData_section saved.savable fresh_.dim points (whole (index.dataBytes format))
  have mode : fresh.saveAsOneFile = false := fresh_.saveAsOneFile.trans many
  have graphFile : (index.saveGraph [] 0).drop 0 =
      graphHeader (24 + (graphRecords index.savedLists).length) (maxDegree index.savedLists)
        index.ep index.numFrozenPts ++ graphRecords index.savedLists ++ [] := by
    rw [whole, saveGraph_eq saved.savable.lengths]
    rfl
  let first : Index Component Tag :=
    { fresh with emptySlots := ∅, data := loadedData format index fresh }
  let second : Index Component Tag := { first with deleteSet := index.deleteSet }
  let third : Index Component Tag :=
    { second with
      locationToTag := index.locationToTag
      tagToLocation := index.tagToLocation }
  have del : ((if index.deleteSet = ∅ then none
      else some (index.deleteBytes deleteList)).elim (some first)
        fun del => first.loadDeleteSet del 0) = some second := by
    by_cases none : index.deleteSet = ∅
    · rw [if_pos none]
      exact congrArg some (Saved.deleteNothing fresh_.noDeleted none)
    · rw [if_neg none]
      show first.loadDeleteSet (index.deleteBytes deleteList) 0 = some second
      have empty : first.deleteSet = ∅ := fresh_.noDeleted
      exact saved.deleteSection empty none (whole _)
  have tags : (if second.enableTags then
      (if index.enableTags then some (index.tagsBytes tagFormat) else none).bind fun tags =>
        second.loadTags tagFormat tags 0
      else some (second, 0)) = some (third,
        if index.enableTags then index.nd + index.numFrozenPts else 0) := by
    have enables : second.enableTags = index.enableTags := fresh_.enableTags
    have part := saved.tagSection second enables fresh_.numFrozenPts rfl fresh_.noTags
      fresh_.noLocations (whole (index.tagsBytes tagFormat))
    rw [← enables] at part ⊢
    by_cases enabled : second.enableTags = true
    · rw [if_pos enabled] at part
      rw [if_pos enabled, if_pos enabled, Option.bind_some]
      exact part
    · rw [if_neg enabled] at part
      rw [if_neg enabled]
      exact part
  have frozen : third.numFrozenPts = index.numFrozenPts := fresh_.numFrozenPts
  have room : index.nd ≤ third.maxPoints := locations
  have graph := loadGraphInto_section saved.savable saved.graphFits frozen room saved.widthFits
    graphFile
  unfold load
  rw [mode]
  dsimp only
  rw [data, Option.bind_some]
  dsimp only
  rw [del, Option.bind_some, tags, Option.bind_some]
  dsimp only
  rw [graph, Option.bind_some]
  unfold finishLoad
  have complete : ¬ (index.nd + index.numFrozenPts ≠ index.nd + index.numFrozenPts ∨
      index.nd + index.numFrozenPts ≠
        (if index.enableTags then index.nd + index.numFrozenPts else 0) ∧
          third.enableTags = true) := by
    have same : third.enableTags = index.enableTags := fresh_.enableTags
    rw [same]
    exact counts_agree _ index.enableTags
  have count : index.nd + index.numFrozenPts - third.numFrozenPts = index.nd := by
    rw [frozen, Nat.add_sub_cancel]
  dsimp only
  rw [if_neg complete, count]
  rfl

/-! ### One file -/

/-- The bytes of the graph section. -/
def graphSection (index : Index Component Tag) : Bytes :=
  graphHeader (24 + (graphRecords index.savedLists).length) (maxDegree index.savedLists)
    index.ep index.numFrozenPts ++ graphRecords index.savedLists

/-- The offsets in the first page. -/
def sectionOffsets (format : Format Component) (tagFormat : Format Tag)
    (index : Index Component Tag) (deleteList : List Nat) : List Nat :=
  let first := metadataSize + index.graphSize
  let second := first + (index.dataBytes format).length
  let third := second + (index.tagsBytes tagFormat).length
  [metadataSize, first, second, third, third + (index.deleteBytes deleteList).length]

/-- The file that `save` writes, section after section. -/
def oneFile (format : Format Component) (tagFormat : Format Tag) (index : Index Component Tag)
    (deleteList : List Nat) : Bytes :=
  let graph := index.saveGraph [] metadataSize
  let first := metadataSize + index.graphSize
  let data := writeAt graph first (index.dataBytes format)
  let second := first + (index.dataBytes format).length
  let tags := if index.enableTags then writeAt data second (index.tagsBytes tagFormat) else data
  let third := second + (index.tagsBytes tagFormat).length
  let del := if index.deleteSet = ∅ then tags
    else writeAt tags third (index.deleteBytes deleteList)
  writeAt del 0 (binBytes 5 1 (wordsOf 8 (sectionOffsets format tagFormat index deleteList)))

theorem length_sectionOffsets :
    (binBytes 5 1 (wordsOf 8 (sectionOffsets format tagFormat index deleteList))).length = 48 := by
  unfold binBytes
  rw [List.length_append, List.length_append, length_bytesOf, length_bytesOf, length_wordsOf]
  rfl

theorem oneFile_eq (savable : index.Savable) :
    oneFile format tagFormat index deleteList =
      binBytes 5 1 (wordsOf 8 (sectionOffsets format tagFormat index deleteList)) ++
        List.replicate (metadataSize - 48) 0 ++ (index.graphSection ++ (index.dataBytes format ++
          (index.tagsBytes tagFormat ++ index.deleteBytes deleteList))) := by
  have graph : index.saveGraph [] metadataSize =
      List.replicate metadataSize 0 ++ index.graphSection := saveGraph_eq savable.lengths _
  have graphLength : (index.saveGraph [] metadataSize).length =
      metadataSize + index.graphSize := by
    rw [graph, List.length_append, List.length_replicate, graphSize_eq savable.lengths]
    unfold graphSection
    rw [List.length_append, length_graphHeader]
  have data : writeAt (index.saveGraph [] metadataSize) (metadataSize + index.graphSize)
      (index.dataBytes format) = index.saveGraph [] metadataSize ++ index.dataBytes format :=
    writeAt_end graphLength
  have dataLength : (index.saveGraph [] metadataSize ++ index.dataBytes format).length =
      metadataSize + index.graphSize + (index.dataBytes format).length := by
    rw [List.length_append, graphLength]
  have tags : (if index.enableTags then
      writeAt (index.saveGraph [] metadataSize ++ index.dataBytes format)
        (metadataSize + index.graphSize + (index.dataBytes format).length)
          (index.tagsBytes tagFormat)
      else index.saveGraph [] metadataSize ++ index.dataBytes format) =
        index.saveGraph [] metadataSize ++ index.dataBytes format ++
          index.tagsBytes tagFormat := by
    split
    · exact writeAt_end dataLength
    · rename_i disabled
      unfold tagsBytes
      rw [if_neg disabled, List.append_nil]
  have tagsLength : (index.saveGraph [] metadataSize ++ index.dataBytes format ++
      index.tagsBytes tagFormat).length = metadataSize + index.graphSize +
        (index.dataBytes format).length + (index.tagsBytes tagFormat).length := by
    rw [List.length_append, dataLength]
  have del : (if index.deleteSet = ∅ then index.saveGraph [] metadataSize ++
        index.dataBytes format ++ index.tagsBytes tagFormat
      else writeAt (index.saveGraph [] metadataSize ++ index.dataBytes format ++
          index.tagsBytes tagFormat) (metadataSize + index.graphSize +
            (index.dataBytes format).length + (index.tagsBytes tagFormat).length)
              (index.deleteBytes deleteList)) =
        index.saveGraph [] metadataSize ++ index.dataBytes format ++ index.tagsBytes tagFormat ++
          index.deleteBytes deleteList := by
    split
    · rename_i none
      unfold deleteBytes
      rw [if_pos none, List.append_nil]
    · exact writeAt_end tagsLength
  unfold oneFile
  dsimp only
  rw [data, tags, del, graph, writeAt_zero, length_sectionOffsets]
  have inside : 48 ≤ (List.replicate metadataSize (0 : UInt8)).length := by
    rw [List.length_replicate]
    decide
  simp only [List.append_assoc]
  rw [List.drop_append_of_le_length inside, List.drop_replicate]

/-- Each section is at its offset. -/
theorem oneFile_places (savable : index.Savable) :
    let file := oneFile format tagFormat index deleteList
    file.drop metadataSize = index.graphSection ++ (index.dataBytes format ++
        (index.tagsBytes tagFormat ++ index.deleteBytes deleteList)) ∧
      file.drop (metadataSize + index.graphSize) = index.dataBytes format ++
        (index.tagsBytes tagFormat ++ index.deleteBytes deleteList) ∧
      file.drop (metadataSize + index.graphSize + (index.dataBytes format).length) =
        index.tagsBytes tagFormat ++ index.deleteBytes deleteList ∧
      file.drop (metadataSize + index.graphSize + (index.dataBytes format).length +
        (index.tagsBytes tagFormat).length) = index.deleteBytes deleteList ++ [] := by
  intro file
  have headLength : (binBytes 5 1 (wordsOf 8 (sectionOffsets format tagFormat index
      deleteList)) ++ List.replicate (metadataSize - 48) 0).length = metadataSize := by
    rw [List.length_append, length_sectionOffsets, List.length_replicate]
    rfl
  have graphLength : index.graphSection.length = index.graphSize := by
    unfold graphSection
    rw [List.length_append, length_graphHeader, graphSize_eq savable.lengths]
  have graphPlace : file.drop metadataSize = index.graphSection ++ (index.dataBytes format ++
      (index.tagsBytes tagFormat ++ index.deleteBytes deleteList)) := by
    show (oneFile format tagFormat index deleteList).drop metadataSize = _
    rw [oneFile_eq savable, List.drop_left' headLength]
  have dataPlace : file.drop (metadataSize + index.graphSize) = index.dataBytes format ++
      (index.tagsBytes tagFormat ++ index.deleteBytes deleteList) := by
    rw [← List.drop_drop, graphPlace, List.drop_left' graphLength]
  have tagsPlace : file.drop (metadataSize + index.graphSize +
      (index.dataBytes format).length) =
        index.tagsBytes tagFormat ++ index.deleteBytes deleteList := by
    rw [← List.drop_drop, dataPlace, List.drop_left]
  refine ⟨graphPlace, dataPlace, tagsPlace, ?_⟩
  rw [← List.drop_drop, tagsPlace, List.drop_left, List.append_nil]

/-- The offsets are read back from the first page. -/
theorem Saved.readOffsets (saved : Saved format tagFormat index deleteList) (rest : Bytes) :
    readAll (readWord 8) (5 * 1)
        (wordsOf 8 (sectionOffsets format tagFormat index deleteList) ++ rest) =
      some (sectionOffsets format tagFormat index deleteList, rest) := by
  have count : 5 * 1 = (sectionOffsets format tagFormat index deleteList).length := rfl
  rw [count]
  refine readWords_append (fun offset member => ?_) _
  have fits := saved.fits
  unfold sectionOffsets at member
  simp only [List.mem_cons, List.not_mem_nil, or_false] at member
  omega

theorem load_oneFile [DecidableEq Tag] (saved : Saved format tagFormat index deleteList)
    (fresh_ : index.FreshFor fresh) (bounded : index.nd ≤ index.maxPoints)
    (one : index.saveAsOneFile = true) :
    fresh.load format tagFormat (.oneFile (oneFile format tagFormat index deleteList)) =
        some ((loadedBase format index fresh).repositionFrozenPointToEnd format) := by
  obtain ⟨points, locations⟩ := fresh_.points_le bounded
  have mode : fresh.saveAsOneFile = true := fresh_.saveAsOneFile.trans one
  let file := oneFile format tagFormat index deleteList
  have content : file = binBytes 5 1 (wordsOf 8 (sectionOffsets format tagFormat index
      deleteList)) ++ List.replicate (metadataSize - 48) 0 ++ (index.graphSection ++
        (index.dataBytes format ++ (index.tagsBytes tagFormat ++ index.deleteBytes deleteList))) :=
    oneFile_eq saved.savable
  obtain ⟨graphPlace, dataPlace, tagsPlace, delPlace⟩ := oneFile_places saved.savable
  have meta_ : readBin file 0 = some ((5, 1),
      wordsOf 8 (sectionOffsets format tagFormat index deleteList) ++
        (List.replicate (metadataSize - 48) 0 ++ (index.graphSection ++
          (index.dataBytes format ++ (index.tagsBytes tagFormat ++
            index.deleteBytes deleteList))))) := by
    refine readBin_section (by decide) (by decide) ?_
    rw [List.drop_zero, content]
    exact List.append_assoc _ _ _
  have offsets := saved.readOffsets (List.replicate (metadataSize - 48) 0 ++
    (index.graphSection ++ (index.dataBytes format ++ (index.tagsBytes tagFormat ++
      index.deleteBytes deleteList))))
  have data := loadData_section saved.savable fresh_.dim points dataPlace
  let first : Index Component Tag :=
    { fresh with emptySlots := ∅, data := loadedData format index fresh }
  let second : Index Component Tag :=
    { first with
      width := maxDegree index.savedLists
      ep := index.ep
      finalGraph := placed index.savedLists 0 first.finalGraph }
  let third : Index Component Tag := { second with deleteSet := index.deleteSet }
  let fourth : Index Component Tag :=
    { third with
      locationToTag := index.locationToTag
      tagToLocation := index.tagToLocation }
  have frozen : first.numFrozenPts = index.numFrozenPts := fresh_.numFrozenPts
  have room : index.nd ≤ first.maxPoints := locations
  have graph := loadGraphInto_section saved.savable saved.graphFits frozen room saved.widthFits
    graphPlace
  have del : (if metadataSize + index.graphSize + (index.dataBytes format).length +
        (index.tagsBytes tagFormat).length ≠ metadataSize + index.graphSize +
          (index.dataBytes format).length + (index.tagsBytes tagFormat).length +
            (index.deleteBytes deleteList).length then
      second.loadDeleteSet file (metadataSize + index.graphSize +
        (index.dataBytes format).length + (index.tagsBytes tagFormat).length)
      else some second) = some third := by
    have empty : second.deleteSet = ∅ := fresh_.noDeleted
    by_cases none : index.deleteSet = ∅
    · have nothing : index.deleteBytes deleteList = [] := if_pos none
      rw [nothing, List.length_nil, Nat.add_zero, if_neg (not_not.mpr rfl)]
      exact congrArg some (Saved.deleteNothing empty none)
    · have something : 0 < (index.deleteBytes deleteList).length := by
        unfold deleteBytes binBytes
        rw [if_neg none, List.length_append, List.length_append, length_bytesOf]
        omega
      rw [if_pos (by omega)]
      exact saved.deleteSection empty none delPlace
  have tags : (if third.enableTags then third.loadTags tagFormat file
        (metadataSize + index.graphSize + (index.dataBytes format).length)
      else some (third, 0)) = some (fourth,
        if index.enableTags then index.nd + index.numFrozenPts else 0) :=
    saved.tagSection third fresh_.enableTags fresh_.numFrozenPts rfl fresh_.noTags
      fresh_.noLocations tagsPlace
  have complete : ¬ (index.nd + index.numFrozenPts ≠ index.nd + index.numFrozenPts ∨
      index.nd + index.numFrozenPts ≠
        (if index.enableTags then index.nd + index.numFrozenPts else 0) ∧
          fourth.enableTags = true) := by
    have same : fourth.enableTags = index.enableTags := fresh_.enableTags
    rw [same]
    exact counts_agree _ index.enableTags
  have count : index.nd + index.numFrozenPts - fourth.numFrozenPts = index.nd := by
    have same : fourth.numFrozenPts = index.numFrozenPts := fresh_.numFrozenPts
    rw [same, Nat.add_sub_cancel]
  unfold load
  rw [mode]
  dsimp only
  rw [meta_, Option.bind_some]
  dsimp only
  rw [offsets, Option.bind_some]
  show ((fresh.loadData format file (metadataSize + index.graphSize)).bind _) = _
  rw [data, Option.bind_some]
  show ((first.loadGraphInto file (index.nd + index.numFrozenPts) metadataSize).bind _) = _
  rw [graph, Option.bind_some]
  show ((if metadataSize + index.graphSize + (index.dataBytes format).length +
      (index.tagsBytes tagFormat).length ≠ metadataSize + index.graphSize +
        (index.dataBytes format).length + (index.tagsBytes tagFormat).length +
          (index.deleteBytes deleteList).length then
      second.loadDeleteSet file (metadataSize + index.graphSize +
        (index.dataBytes format).length + (index.tagsBytes tagFormat).length)
      else some second).bind _) = _
  rw [del, Option.bind_some]
  show ((if third.enableTags then third.loadTags tagFormat file
        (metadataSize + index.graphSize + (index.dataBytes format).length)
      else some (third, 0)).bind _) = _
  rw [tags, Option.bind_some]
  unfold finishLoad
  dsimp only
  rw [if_neg complete, count]
  rfl

end Index

end OdinVector
