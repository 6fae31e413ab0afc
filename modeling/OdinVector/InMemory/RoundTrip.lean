/-
This file proves when `load` gives back the index that `save` has written, and `save`
leaves it as it was. The frozen point goes behind the points and back; when it has no
neighbours its vector and the edges to it do not go with it, and what aligns its vector
does not go in any case.
-/

import OdinVector.InMemory.FrozenPoint
import OdinVector.InMemory.SavedIndex

namespace OdinVector

open Binary

variable {Component Tag : Type}

namespace Index

/-! ### What should be kept -/

/-- The location of a neighbour in another index: the frozen point is at its end. -/
def movedTo (index loaded : Index Component Tag) (nbr : Nat) : Nat :=
  if 0 < index.numFrozenPts ∧ nbr = index.maxPoints then loaded.maxPoints else nbr

/-- Two indexes with the same points. -/
structure Restored (index loaded : Index Component Tag) : Prop where
  nd : loaded.nd = index.nd
  lists : ∀ location < index.nd,
    loaded.finalGraph location = (index.finalGraph location).map (index.movedTo loaded)
  vectors : ∀ location < index.nd, loaded.data location = index.data location
  tags : loaded.tagToLocation = index.tagToLocation
  locations : loaded.locationToTag = index.locationToTag
  deleteSet : loaded.deleteSet = index.deleteSet
  entry : index.numFrozenPts = 0 → loaded.ep = index.ep
  frozen : 0 < index.numFrozenPts → loaded.ep = loaded.maxPoints ∧
    loaded.finalGraph loaded.maxPoints = index.finalGraph index.maxPoints ∧
      loaded.data loaded.maxPoints = index.data index.maxPoints
  width : IsGreatest (insert 0 ((fun location => (index.finalGraph location).length) ''
    { location | index.IsPoint location })) loaded.width

/-- An index that differs in memory without points at most. -/
structure Unchanged (before after : Index Component Tag) : Prop where
  tables : after.toIndexTables = before.toIndexTables
  numFrozenPts : after.numFrozenPts = before.numFrozenPts
  width : after.width = before.width
  ep : after.ep = before.ep
  dim : after.dim = before.dim
  enableTags : after.enableTags = before.enableTags
  saveAsOneFile : after.saveAsOneFile = before.saveAsOneFile
  lists : ∀ location, before.IsPoint location →
    after.finalGraph location = before.finalGraph location
  vectors : ∀ location, before.IsPoint location → after.data location = before.data location

/-- The frozen point survives its moves: there is none, it is behind the points already, it has
neighbours and the location behind the points has the same alignment, or that location has the
same vector and no edge needs to be renamed. -/
def FrozenIntact (index fresh : Index Component Tag) : Prop :=
  index.numFrozenPts = 0 ∨ index.nd = index.maxPoints ∨
    (index.finalGraph index.maxPoints ≠ [] ∧
      (index.data index.nd).drop index.dim = (index.data index.maxPoints).drop index.dim) ∨
    (index.finalGraph index.maxPoints = [] ∧
      index.data index.nd = index.data index.maxPoints ∧
        (fresh.maxPoints = index.maxPoints ∨
          ∀ location < index.nd, index.maxPoints ∉ index.finalGraph location))

variable {format : Format Component} {tagFormat : Format Tag}
variable {index fresh : Index Component Tag} {deleteList : List Nat}

/-! ### What is loaded -/

/-- How many bytes `save` writes into one file. -/
def savedSize (format : Format Component) (tagFormat : Format Tag) (index : Index Component Tag)
    (deleteList : List Nat) : Nat :=
  let compact := index.compactFrozenPoint format
  metadataSize + compact.graphSize + (compact.dataBytes format).length +
    (compact.tagsBytes tagFormat).length + (compact.deleteBytes deleteList).length

/-- The index that `load` makes of what `save` writes. -/
def loadedIndex (format : Format Component) (index fresh : Index Component Tag) :
    Index Component Tag :=
  (loadedBase format (index.compactFrozenPoint format) fresh).repositionFrozenPointToEnd format

section Loaded

variable [DecidableEq Tag] (wellFormed : index.WellFormed format) (fresh_ : index.FreshFor fresh)
include wellFormed fresh_

theorem load_save (order : deleteList.toFinset = index.deleteSet) (once : deleteList.Nodup)
    (fits : index.savedSize format tagFormat deleteList < 2 ^ 64) :
    fresh.load format tagFormat (index.save format tagFormat deleteList).1 =
      some (loadedIndex format index fresh) := by
  obtain ⟨tables, frozenSame, -, dimSame, tagsSame, modeSame⟩ :=
    @compactFrozenPoint_tables _ _ format index
  have deleteSame : (index.compactFrozenPoint format).deleteSet = index.deleteSet :=
    congrArg IndexTables.deleteSet tables
  have locationSame : (index.compactFrozenPoint format).locationToTag = index.locationToTag :=
    congrArg IndexTables.locationToTag tables
  have ndSame : (index.compactFrozenPoint format).nd = index.nd :=
    congrArg IndexTables.nd tables
  have maxSame : (index.compactFrozenPoint format).maxPoints = index.maxPoints :=
    congrArg IndexTables.maxPoints tables
  have saved : Saved format tagFormat (index.compactFrozenPoint format) deleteList := by
    refine ⟨wellFormed.savable, ?_, ?_, once, fits⟩
    · rw [tagsSame, locationSame, deleteSame]
      exact wellFormed.untagged
    · rw [deleteSame]
      exact order
  have freshC : (index.compactFrozenPoint format).FreshFor fresh := by
    refine ⟨?_, ?_, ?_, ?_, ?_, fresh_.locations, fresh_.noDeleted, fresh_.noTags,
      fresh_.noLocations, fresh_.noLists⟩
    · rw [dimSame]
      exact fresh_.dim
    · rw [frozenSame]
      exact fresh_.numFrozenPts
    · rw [tagsSame]
      exact fresh_.enableTags
    · rw [modeSame]
      exact fresh_.saveAsOneFile
    · rw [maxSame]
      exact fresh_.room
  have bounded : (index.compactFrozenPoint format).nd ≤
      (index.compactFrozenPoint format).maxPoints := by
    rw [ndSame, maxSame]
    exact wellFormed.bounded
  by_cases mode : index.saveAsOneFile = true
  · have loaded := load_oneFile saved freshC bounded (modeSame.trans mode)
    unfold oneFile at loaded
    unfold save loadedIndex
    dsimp only at loaded ⊢
    rw [if_pos mode, ← tagsSame, ← deleteSame]
    exact loaded
  · have many : index.saveAsOneFile = false := Bool.not_eq_true _ ▸ mode
    have loaded := load_files saved freshC bounded (modeSame.trans many)
    unfold save loadedIndex
    dsimp only
    rw [if_neg mode, ← tagsSame, ← deleteSame]
    exact loaded

end Loaded

/-- The parts of the index that do not move. -/
theorem loadedIndex_tables (wellFormed : index.WellFormed format) (fresh : Index Component Tag) :
    (loadedIndex format index fresh).nd = index.nd ∧
      (loadedIndex format index fresh).maxPoints = fresh.maxPoints ∧
      (loadedIndex format index fresh).tagToLocation = index.tagToLocation ∧
      (loadedIndex format index fresh).locationToTag = index.locationToTag ∧
      (loadedIndex format index fresh).deleteSet = index.deleteSet ∧
      IsGreatest (insert 0 ((fun location => (index.finalGraph location).length) ''
        { location | index.IsPoint location })) (loadedIndex format index fresh).width := by
  obtain ⟨moved, -, widthSame, -⟩ := @repositionFrozenPointToEnd_tables _ _ format
    (loadedBase format (index.compactFrozenPoint format) fresh)
  obtain ⟨tables, -⟩ := @compactFrozenPoint_tables _ _ format index
  have width : (loadedIndex format index fresh).width =
      maxDegree (index.compactFrozenPoint format).savedLists := widthSame
  rw [width]
  unfold loadedIndex
  rw [moved]
  unfold loadedBase
  dsimp only
  rw [tables]
  exact ⟨rfl, rfl, rfl, rfl, rfl, isGreatest_width wellFormed⟩

/-- The lists and vectors of the points in the files. -/
theorem loadedBase_point {compact : Index Component Tag} {location : Nat}
    (inside : location < compact.nd + compact.numFrozenPts) :
    (loadedBase format compact fresh).finalGraph location = compact.finalGraph location ∧
      (loadedBase format compact fresh).data location =
        (compact.data location).take compact.dim ++
          List.replicate (compact.alignedDim - compact.dim) (zeroComponent format) := by
  constructor
  · show placed compact.savedLists 0 fresh.finalGraph location = _
    unfold placed savedLists savedLocations
    rw [if_neg (Nat.not_lt_zero _), Nat.sub_zero, List.getElem?_map, List.getElem?_range inside]
    rfl
  · exact if_pos inside

/-- A vector of an index between calls, from its components. -/
theorem WellFormed.take_append (wellFormed : index.WellFormed format) {location : Nat}
    (point : index.IsPoint location) :
    (index.data location).take index.dim ++
      List.replicate (index.alignedDim - index.dim) (zeroComponent format) =
        index.data location := by
  rw [← wellFormed.padded location point, List.take_append_drop]

section Frozen

variable (wellFormed : index.WellFormed format) (frozen : 0 < index.numFrozenPts)
include wellFormed frozen

/-- The frozen point is behind the points when it is saved. -/
theorem compactFrozenPoint_behind :
    (index.compactFrozenPoint format).ep = (index.compactFrozenPoint format).nd := by
  obtain ⟨-, frozenSame, -⟩ := @compactFrozenPoint_tables _ _ format index
  exact wellFormed.savable.behind (by rw [frozenSame]; exact frozen)

/-- When the loaded index is the saved one. -/
theorem restored_iff (fresh_ : index.FreshFor fresh) :
    Restored index (loadedIndex format index fresh) ↔
      (∀ location < index.nd, ((index.compactFrozenPoint format).finalGraph location).map
          (fun nbr => if nbr = index.nd then fresh.maxPoints else nbr) =
        (index.finalGraph location).map
          fun nbr => if nbr = index.maxPoints then fresh.maxPoints else nbr) ∧
      (index.compactFrozenPoint format).finalGraph index.nd = index.finalGraph index.maxPoints ∧
      (∀ location < index.nd, ((index.compactFrozenPoint format).data location).take index.dim =
        (index.data location).take index.dim) ∧
      ((index.compactFrozenPoint format).data index.nd).take index.dim =
        (index.data index.maxPoints).take index.dim := by
  obtain ⟨nd, most, tags, locations, deleted, width⟩ := loadedIndex_tables wellFormed fresh
  obtain ⟨tables, frozenSame, -, dimSame, -⟩ := @compactFrozenPoint_tables _ _ format index
  have ndSame : (index.compactFrozenPoint format).nd = index.nd :=
    congrArg IndexTables.nd tables
  have alignedSame : (index.compactFrozenPoint format).alignedDim = index.alignedDim := by
    unfold alignedDim
    rw [dimSame]
  have bounded : (loadedBase format (index.compactFrozenPoint format) fresh).nd ≤
      (loadedBase format (index.compactFrozenPoint format) fresh).maxPoints := by
    show (index.compactFrozenPoint format).nd ≤ fresh.maxPoints
    rw [ndSame]
    exact wellFormed.bounded.trans fresh_.room
  have frozen' : 0 < (loadedBase format (index.compactFrozenPoint format) fresh).numFrozenPts := by
    show 0 < fresh.numFrozenPts
    rw [fresh_.numFrozenPts]
    exact frozen
  obtain ⟨entry, lists, last, vectors, lastVector⟩ :=
    repositionFrozenPointToEnd_frozen bounded frozen' (compactFrozenPoint_behind wellFormed frozen)
  have baseNd : (loadedBase format (index.compactFrozenPoint format) fresh).nd = index.nd := ndSame
  have baseMax : (loadedBase format (index.compactFrozenPoint format) fresh).maxPoints =
      fresh.maxPoints := rfl
  rw [baseNd] at lists last vectors lastVector
  rw [baseMax] at entry lists last lastVector
  have place (location : Nat) (inside : location < index.nd + 1) :=
    @loadedBase_point _ _ format fresh (index.compactFrozenPoint format) location (by
      rw [ndSame, frozenSame]
      omega)
  have moved : index.movedTo (loadedIndex format index fresh) =
      fun nbr => if nbr = index.maxPoints then fresh.maxPoints else nbr := by
    funext nbr
    unfold movedTo
    rw [most]
    exact if_congr (and_iff_right frozen) rfl rfl
  have pointOf (location : Nat) (inside : location < index.nd) : index.IsPoint location :=
    Or.inl inside
  have end_ : index.IsPoint index.maxPoints := Or.inr ⟨frozen, rfl⟩
  have padding (first : List Component) (location : Nat) (point : index.IsPoint location)
      (short : first.length = index.dim) :
      first ++ List.replicate (index.alignedDim - index.dim) (zeroComponent format) =
        index.data location ↔ first = (index.data location).take index.dim := by
    constructor
    · intro same
      rw [← same, List.take_left' short]
    · intro same
      rw [same]
      exact wellFormed.take_append point
  have coords (location : Nat) :
      (((index.compactFrozenPoint format).data location).take index.dim).length = index.dim := by
    have dim := index.dim_le_alignedDim
    rw [List.length_take, wellFormed.savable.aligned, alignedSame]
    omega
  constructor
  · intro restored
    obtain ⟨-, lastSame, lastVectorSame⟩ := restored.frozen frozen
    refine ⟨fun location inside => ?_, ?_, fun location inside => ?_, ?_⟩
    · have same := restored.lists location inside
      rw [moved] at same
      rw [← same, ← (place location (by omega)).1]
      exact (lists location inside).symm
    · rw [most] at lastSame
      rw [← lastSame, ← (place index.nd (by omega)).1]
      exact last.symm
    · have same := restored.vectors location inside
      refine (padding _ location (pointOf location inside) (coords location)).mp ?_
      rw [← same, ← dimSame, ← alignedSame, ← (place location (by omega)).2]
      exact (vectors location inside).symm
    · rw [most] at lastVectorSame
      refine (padding _ index.maxPoints end_ (coords index.nd)).mp ?_
      rw [← lastVectorSame, ← dimSame, ← alignedSame, ← (place index.nd (by omega)).2]
      exact lastVector.symm
  · rintro ⟨listsSame, lastSame, vectorsSame, lastVectorSame⟩
    refine ⟨nd, fun location inside => ?_, fun location inside => ?_, tags, locations, deleted,
      fun none => absurd none frozen.ne', fun _ => ⟨?_, ?_, ?_⟩, width⟩
    · rw [moved, ← listsSame location inside, ← (place location (by omega)).1]
      exact lists location inside
    · refine Eq.trans (vectors location inside) ?_
      rw [(place location (by omega)).2, dimSame, alignedSame]
      exact (padding _ location (pointOf location inside) (coords location)).mpr
        (vectorsSame location inside)
    · rw [most]
      exact entry
    · rw [most, ← lastSame, ← (place index.nd (by omega)).1]
      exact last
    · rw [most]
      refine Eq.trans lastVector ?_
      rw [(place index.nd (by omega)).2, dimSame, alignedSame]
      exact (padding _ index.maxPoints end_ (coords index.nd)).mpr lastVectorSame

/-- When `save` leaves the index as it was. -/
theorem unchanged_iff :
    Unchanged index ((index.compactFrozenPoint format).repositionFrozenPointToEnd format) ↔
      (∀ location < index.nd, ((index.compactFrozenPoint format).finalGraph location).map
          (fun nbr => if nbr = index.nd then index.maxPoints else nbr) =
        index.finalGraph location) ∧
      (index.compactFrozenPoint format).finalGraph index.nd = index.finalGraph index.maxPoints ∧
      (∀ location < index.nd, (index.compactFrozenPoint format).data location =
        index.data location) ∧
      (index.compactFrozenPoint format).data index.nd = index.data index.maxPoints := by
  obtain ⟨tables, frozenSame, widthSame, dimSame, tagsSame, modeSame⟩ :=
    @compactFrozenPoint_tables _ _ format index
  obtain ⟨tables', frozenSame', widthSame', dimSame', tagsSame', modeSame'⟩ :=
    @repositionFrozenPointToEnd_tables _ _ format (index.compactFrozenPoint format)
  have ndSame : (index.compactFrozenPoint format).nd = index.nd :=
    congrArg IndexTables.nd tables
  have maxSame : (index.compactFrozenPoint format).maxPoints = index.maxPoints :=
    congrArg IndexTables.maxPoints tables
  have bounded : (index.compactFrozenPoint format).nd ≤
      (index.compactFrozenPoint format).maxPoints := by
    rw [ndSame, maxSame]
    exact wellFormed.bounded
  have frozen' : 0 < (index.compactFrozenPoint format).numFrozenPts := by
    rw [frozenSame]
    exact frozen
  obtain ⟨entry, lists, last, vectors, lastVector⟩ :=
    repositionFrozenPointToEnd_frozen bounded frozen' (compactFrozenPoint_behind wellFormed frozen)
  rw [maxSame] at entry lists last lastVector
  rw [ndSame] at lists last vectors lastVector
  have end_ : index.IsPoint index.maxPoints := Or.inr ⟨frozen, rfl⟩
  constructor
  · intro unchanged
    refine ⟨fun location inside => ?_, ?_, fun location inside => ?_, ?_⟩
    · exact (lists location inside).symm.trans (unchanged.lists location (Or.inl inside))
    · exact last.symm.trans (unchanged.lists _ end_)
    · exact (vectors location inside).symm.trans (unchanged.vectors location (Or.inl inside))
    · exact lastVector.symm.trans (unchanged.vectors _ end_)
  · rintro ⟨listsSame, lastSame, vectorsSame, lastVectorSame⟩
    refine ⟨tables'.trans tables, frozenSame'.trans frozenSame, widthSame'.trans widthSame,
      entry.trans (wellFormed.entryFrozen frozen).symm, dimSame'.trans dimSame,
      tagsSame'.trans tagsSame, modeSame'.trans modeSame, fun location point => ?_,
      fun location point => ?_⟩
    · obtain inside | ⟨-, rfl⟩ := point
      · exact (lists location inside).trans (listsSame location inside)
      · exact last.trans lastSame
    · obtain inside | ⟨-, rfl⟩ := point
      · exact (vectors location inside).trans (vectorsSame location inside)
      · exact lastVector.trans lastVectorSame

end Frozen

/-! ### Renaming a location -/

theorem map_rename {nbrs : List Nat} {mid : Nat} (absent : mid ∉ nbrs) (old new : Nat) :
    (nbrs.map fun nbr => if nbr = old then mid else nbr).map
        (fun nbr => if nbr = mid then new else nbr) =
      nbrs.map fun nbr => if nbr = old then new else nbr := by
  rw [List.map_map]
  refine List.map_congr_left fun nbr member => ?_
  have other : nbr ≠ mid := fun same => absent (same ▸ member)
  show (if (if nbr = old then mid else nbr) = mid then new
    else if nbr = old then mid else nbr) = _
  by_cases here : nbr = old
  · rw [if_pos here, if_pos here, if_pos rfl]
  · rw [if_neg here, if_neg here, if_neg other]

theorem map_rename_eq_self {nbrs : List Nat} {old new : Nat} :
    (nbrs.map fun nbr => if nbr = old then new else nbr) = nbrs ↔ new = old ∨ old ∉ nbrs := by
  constructor
  · intro same
    by_contra neither
    obtain ⟨other, member⟩ := not_or.mp neither
    have each := List.map_inj_left.mp (same.trans (List.map_id nbrs).symm) old (not_not.mp member)
    rw [if_pos rfl] at each
    exact other each
  · intro either
    refine (List.map_congr_left fun nbr member => ?_).trans (List.map_id nbrs)
    by_cases here : nbr = old
    · rw [if_pos here]
      obtain same | absent := either
      · exact same.trans here.symm
      · exact absurd (here ▸ member) absent
    · exact if_neg here

/-! ### The round trip -/

section RoundTrip

variable (wellFormed : index.WellFormed format) (fresh_ : index.FreshFor fresh)
include wellFormed fresh_

/-- An index without a frozen point is kept as it is. -/
theorem restored_unfrozen (none : index.numFrozenPts = 0) :
    Restored index (loadedIndex format index fresh) ∧
      Unchanged index ((index.compactFrozenPoint format).repositionFrozenPointToEnd format) := by
  have stays : index.compactFrozenPoint format = index :=
    compactFrozenPoint_of_not fun moves => moves.2.ne' none
  have still : index.repositionFrozenPointToEnd format = index := if_pos none
  obtain ⟨nd, -, tags, locations, deleted, width⟩ := loadedIndex_tables wellFormed fresh
  have base : loadedIndex format index fresh = loadedBase format index fresh := by
    unfold loadedIndex
    rw [stays]
    exact if_pos (fresh_.numFrozenPts.trans none)
  have place (location : Nat) (inside : location < index.nd) :=
    @loadedBase_point _ _ format fresh index location (Nat.lt_add_right _ inside)
  have unmoved : index.movedTo (loadedIndex format index fresh) = id := by
    funext nbr
    exact if_neg fun moves => moves.1.ne' none
  constructor
  · refine ⟨nd, fun location inside => ?_, fun location inside => ?_, tags, locations, deleted,
      fun _ => ?_, fun frozen => absurd none frozen.ne', width⟩
    · rw [unmoved, List.map_id, base]
      exact (place location inside).1
    · rw [base, (place location inside).2]
      exact wellFormed.take_append (Or.inl inside)
    · rw [base]
      rfl
  · rw [stays, still]
    exact ⟨rfl, rfl, rfl, rfl, rfl, rfl, rfl, fun _ _ => rfl, fun _ _ => rfl⟩

/-- A frozen point that is behind the points already is kept. -/
theorem restored_full (frozen : 0 < index.numFrozenPts) (full : index.nd = index.maxPoints) :
    Restored index (loadedIndex format index fresh) ∧
      Unchanged index ((index.compactFrozenPoint format).repositionFrozenPointToEnd format) := by
  rw [restored_iff wellFormed frozen fresh_, unchanged_iff wellFormed frozen,
    compactFrozenPoint_of_not fun moves => moves.1.ne full, full]
  exact ⟨⟨fun _ _ => rfl, rfl, fun _ _ => rfl, rfl⟩,
    ⟨fun _ _ => map_rename_eq_self.mpr (Or.inl rfl), rfl, fun _ _ => rfl, rfl⟩⟩

omit fresh_ in
/-- No list names the location behind the points. -/
theorem nd_not_mem (below : index.nd < index.maxPoints) {location : Nat}
    (inside : location < index.nd) : index.nd ∉ index.finalGraph location := by
  intro member
  obtain before | ⟨-, last⟩ := (wellFormed.linked location (Or.inl inside) _ member).1
  · exact Nat.lt_irrefl _ before
  · exact below.ne last

section Moves

variable (frozen : 0 < index.numFrozenPts) (below : index.nd < index.maxPoints)
include frozen below

/-- A frozen point with neighbours is kept when the location behind the points has the same
alignment. -/
theorem restored_linked (linked : index.finalGraph index.maxPoints ≠ []) :
    (Restored index (loadedIndex format index fresh) ∧
      Unchanged index ((index.compactFrozenPoint format).repositionFrozenPointToEnd format)) ↔
        (index.data index.nd).drop index.dim = (index.data index.maxPoints).drop index.dim := by
  rw [restored_iff wellFormed frozen fresh_, unchanged_iff wellFormed frozen]
  obtain ⟨lists, last⟩ := @compactFrozenPoint_lists _ _ format index below frozen linked
  obtain ⟨vectors, lastVector⟩ := @compactFrozenPoint_data _ _ format index below frozen linked
  have back (location new : Nat) (inside : location < index.nd) :
      ((index.compactFrozenPoint format).finalGraph location).map
          (fun nbr => if nbr = index.nd then new else nbr) =
        (index.finalGraph location).map
          fun nbr => if nbr = index.maxPoints then new else nbr := by
    rw [lists location inside]
    exact map_rename (nd_not_mem wellFormed below inside) _ _
  have coords : ((index.data index.maxPoints).take index.dim).length = index.dim := by
    have dim := index.dim_le_alignedDim
    rw [List.length_take, wellFormed.aligned]
    omega
  constructor
  · rintro ⟨-, -, -, -, same⟩
    rw [lastVector] at same
    have behind := congrArg (List.drop index.dim) same
    rwa [List.drop_left' coords] at behind
  · intro same
    refine ⟨⟨fun location inside => back location _ inside, last, fun location inside => ?_, ?_⟩,
      ⟨fun location inside => ?_, last, vectors, ?_⟩⟩
    · rw [vectors location inside]
    · rw [lastVector, List.take_left' coords]
    · rw [back location _ inside]
      exact map_rename_eq_self.mpr (Or.inl rfl)
    · rw [lastVector, same, List.take_append_drop]

/-- A frozen point without neighbours is kept when the location behind the points has its vector
and no edge to it needs another name. -/
theorem restored_alone (alone : index.finalGraph index.maxPoints = []) :
    (Restored index (loadedIndex format index fresh) ∧
      Unchanged index ((index.compactFrozenPoint format).repositionFrozenPointToEnd format)) ↔
        index.data index.nd = index.data index.maxPoints ∧
          (fresh.maxPoints = index.maxPoints ∨
            ∀ location < index.nd, index.maxPoints ∉ index.finalGraph location) := by
  rw [restored_iff wellFormed frozen fresh_, unchanged_iff wellFormed frozen,
    compactFrozenPoint_nil below frozen alone]
  have gap : ¬ index.IsPoint index.nd := by
    rintro (wrong | ⟨-, wrong⟩)
    · exact Nat.lt_irrefl _ wrong
    · exact below.ne wrong
  have last : index.finalGraph index.nd = index.finalGraph index.maxPoints := by
    rw [alone]
    exact wellFormed.empty _ gap
  have still (location new : Nat) (inside : location < index.nd) :
      (index.finalGraph location).map (fun nbr => if nbr = index.nd then new else nbr) =
        index.finalGraph location :=
    map_rename_eq_self.mpr (Or.inr (nd_not_mem wellFormed below inside))
  show ((∀ location < index.nd, (index.finalGraph location).map
      (fun nbr => if nbr = index.nd then fresh.maxPoints else nbr) = _) ∧
    index.finalGraph index.nd = _ ∧ (∀ location < index.nd,
      (index.data location).take index.dim = _) ∧ (index.data index.nd).take index.dim = _) ∧
    ((∀ location < index.nd, (index.finalGraph location).map
      (fun nbr => if nbr = index.nd then index.maxPoints else nbr) = _) ∧
    index.finalGraph index.nd = _ ∧ (∀ location < index.nd, index.data location = _) ∧
      index.data index.nd = _) ↔ _
  constructor
  · rintro ⟨⟨renamed, -⟩, -, -, -, same⟩
    refine ⟨same, ?_⟩
    have each (location : Nat) (inside : location < index.nd) :
        fresh.maxPoints = index.maxPoints ∨ index.maxPoints ∉ index.finalGraph location := by
      refine map_rename_eq_self.mp ?_
      rw [← renamed location inside]
      exact still location _ inside
    by_cases equal : fresh.maxPoints = index.maxPoints
    · exact Or.inl equal
    · exact Or.inr fun location inside => (each location inside).resolve_left equal
  · rintro ⟨same, named⟩
    refine ⟨⟨fun location inside => ?_, last, fun _ _ => rfl, by rw [same]⟩,
      ⟨fun location inside => still location _ inside, last, fun _ _ => rfl, same⟩⟩
    rw [still location _ inside]
    refine (map_rename_eq_self.mpr ?_).symm
    exact named.imp_right fun absent => absent location inside

end Moves

/-- When an index comes back and stays. -/
theorem restored_and_unchanged_iff :
    (Restored index (loadedIndex format index fresh) ∧
      Unchanged index ((index.compactFrozenPoint format).repositionFrozenPointToEnd format)) ↔
        FrozenIntact index fresh := by
  unfold FrozenIntact
  obtain none | frozen := Nat.eq_zero_or_pos index.numFrozenPts
  · exact iff_of_true (restored_unfrozen wellFormed fresh_ none) (Or.inl none)
  · obtain full | below := wellFormed.bounded.eq_or_lt
    · exact iff_of_true (restored_full wellFormed fresh_ frozen full) (Or.inr (Or.inl full))
    · rw [or_iff_right frozen.ne', or_iff_right below.ne]
      by_cases alone : index.finalGraph index.maxPoints = []
      · rw [restored_alone wellFormed fresh_ frozen below alone]
        exact ⟨fun kept => Or.inr ⟨alone, kept⟩,
          fun kept => kept.elim (fun linked => absurd alone linked.1) fun kept => kept.2⟩
      · rw [restored_linked wellFormed fresh_ frozen below alone]
        exact ⟨fun kept => Or.inl ⟨alone, kept⟩,
          fun kept => kept.elim (fun linked => linked.2) fun kept => absurd kept.1 alone⟩

end RoundTrip

/-- `load` gives back an index that `save` has written, and `save` leaves it as it was, exactly
when the frozen point survives its moves. -/
theorem load_save_restores_iff [DecidableEq Tag] (wellFormed : index.WellFormed format)
    (fresh_ : index.FreshFor fresh) (order : deleteList.toFinset = index.deleteSet)
    (once : deleteList.Nodup) (fits : index.savedSize format tagFormat deleteList < 2 ^ 64) :
    ((∃ loaded, fresh.load format tagFormat (index.save format tagFormat deleteList).1 =
        some loaded ∧ Restored index loaded) ∧
      Unchanged index (index.save format tagFormat deleteList).2) ↔ FrozenIntact index fresh := by
  have after : (index.save format tagFormat deleteList).2 =
      (index.compactFrozenPoint format).repositionFrozenPointToEnd format := by
    unfold save
    dsimp only
    split <;> rfl
  rw [load_save wellFormed fresh_ order once fits, after,
    ← restored_and_unchanged_iff wellFormed fresh_]
  refine and_congr_left' ⟨?_, fun restored => ⟨_, rfl, restored⟩⟩
  rintro ⟨loaded, same, restored⟩
  exact Option.some.inj same ▸ restored

/-! ### Two indexes -/

/-- A point and the frozen point, each in the list of the other. -/
def linkedPair : Index (BitVec 8) (BitVec 32) where
  maxPoints := 2
  nd := 1
  emptySlots := {1}
  deleteSet := ∅
  tagToLocation tag := if tag = 5 then some 0 else none
  locationToTag location := if location = 0 then some 5 else none
  dataCompacted := true
  lazyDone := false
  eagerDone := false
  numFrozenPts := 1
  width := 1
  ep := 2
  finalGraph location := if location = 0 then [2] else if location = 2 then [0] else []
  dim := 8
  enableTags := true
  saveAsOneFile := true
  data location := List.replicate 8 (BitVec.ofNat 8 location)

/-- An index whose point has been deleted; the location behind the frozen point's vector is
what is left of it. -/
def emptied : Index (BitVec 8) (BitVec 32) :=
  { linkedPair with
    nd := 0
    emptySlots := {0, 1}
    tagToLocation := fun _ => none
    locationToTag := fun _ => none
    finalGraph := fun _ => [] }

/-- Before `load`. -/
def unloaded : Index (BitVec 8) (BitVec 32) := { emptied with data := fun _ => List.replicate 8 0 }

theorem linkedPair_wellFormed : linkedPair.WellFormed (Format.bits 1) where
  dimension := by decide
  bounded := by decide
  locations := by decide
  frozen := by decide
  linked location point := by
    obtain before | ⟨-, rfl⟩ := point
    · obtain rfl : location = 0 := Nat.lt_one_iff.mp before
      decide
    · decide
  lengths location _ := by
    show (if location = 0 then [2] else if location = 2 then [0] else [] : List Nat).length + 1 < _
    split
    · decide
    · split <;> decide
  empty location other := by
    have first : location ≠ 0 := fun same => other (Or.inl (same ▸ Nat.one_pos))
    have last : location ≠ 2 := fun same => other (Or.inr ⟨Nat.one_pos, same⟩)
    exact (if_neg first).trans (if_neg last)
  aligned _ := List.length_replicate
  padded _ _ := rfl
  deleted := nofun
  tagged location tag has := by
    by_contra outside
    have other : location ≠ 0 := fun same => outside (same ▸ Nat.one_pos)
    exact nomatch (if_neg other).symm.trans has
  inverse tag location := by
    show (if tag = 5 then some 0 else none) = some location ↔
      (if location = 0 then some 5 else none) = some tag
    constructor
    · intro has
      obtain ⟨rfl, same⟩ := Option.ite_none_right_eq_some.mp has
      rw [if_pos (Option.some.inj same).symm]
    · intro has
      obtain ⟨rfl, same⟩ := Option.ite_none_right_eq_some.mp has
      rw [if_pos (Option.some.inj same).symm]
  live _ location inside := by
    obtain rfl : location = 0 := Nat.lt_one_iff.mp inside
    exact iff_of_false nofun nofun
  untagged := nofun
  entry := by decide
  entryFrozen _ := rfl

theorem emptied_wellFormed : emptied.WellFormed (Format.bits 1) where
  dimension := by decide
  bounded := by decide
  locations := by decide
  frozen := by decide
  linked _ _ := nofun
  lengths _ _ := by
    show 0 + 1 < 2 ^ 32
    decide
  empty _ _ := rfl
  aligned _ := List.length_replicate
  padded _ _ := rfl
  deleted := nofun
  tagged _ _ := nofun
  inverse _ _ := iff_of_false nofun nofun
  live _ location inside := absurd inside (Nat.not_lt_zero location)
  untagged := nofun
  entry := by decide
  entryFrozen _ := rfl

/-- An index before `load` is one for each of the two. -/
theorem freshFor_unloaded {index : Index (BitVec 8) (BitVec 32)} (dim : index.dim = 8)
    (frozen : index.numFrozenPts = 1) (tags : index.enableTags = true)
    (mode : index.saveAsOneFile = true) (room : index.maxPoints = 2) :
    index.FreshFor unloaded where
  dim := dim.symm
  numFrozenPts := frozen.symm
  enableTags := tags.symm
  saveAsOneFile := mode.symm
  room := room.le
  locations := by decide
  noDeleted := rfl
  noTags _ := rfl
  noLocations _ := rfl
  noLists _ := rfl

/-- The point and the frozen point come back. -/
theorem load_save_linkedPair :
    (∃ loaded, unloaded.load (Format.bits 1) (Format.bits 4)
      (linkedPair.save (Format.bits 1) (Format.bits 4) []).1 = some loaded ∧
        Restored linkedPair loaded) ∧
      Unchanged linkedPair (linkedPair.save (Format.bits 1) (Format.bits 4) []).2 :=
  (load_save_restores_iff linkedPair_wellFormed (freshFor_unloaded rfl rfl rfl rfl rfl) rfl
    List.nodup_nil (by decide +kernel)).mpr
      (Or.inr (Or.inr (Or.inl ⟨by decide, rfl⟩)))

/-- An index whose only point has been deleted does not keep the frozen point's vector. -/
theorem not_load_save_restores : ¬ ∀ (index fresh : Index (BitVec 8) (BitVec 32))
    (deleteList : List Nat), index.WellFormed (Format.bits 1) → index.FreshFor fresh →
      deleteList.toFinset = index.deleteSet → deleteList.Nodup →
      index.savedSize (Format.bits 1) (Format.bits 4) deleteList < 2 ^ 64 →
        (∃ loaded, fresh.load (Format.bits 1) (Format.bits 4)
          (index.save (Format.bits 1) (Format.bits 4) deleteList).1 = some loaded ∧
            Restored index loaded) ∧
          Unchanged index (index.save (Format.bits 1) (Format.bits 4) deleteList).2 := by
  intro always
  have unchanged := (always emptied unloaded [] emptied_wellFormed
    (freshFor_unloaded rfl rfl rfl rfl rfl) rfl List.nodup_nil (by decide +kernel)).2
  have vector := unchanged.vectors 2 (Or.inr ⟨Nat.one_pos, rfl⟩)
  exact absurd vector (by decide +kernel)

end Index

end OdinVector
