/-
This file proves what `compact_frozen_point` and `reposition_frozen_point_to_end` do to
the lists and the vectors, and that an index between calls is saved with its frozen point
behind its points.
-/

import OdinVector.InMemory.Sections

namespace OdinVector

open Binary

variable {Component Tag : Type}

namespace Index

variable {format : Format Component}
variable {index : Index Component Tag}

/-! ### The frozen point behind the points -/

section Compact

theorem compactFrozenPoint_tables (index : Index Component Tag) :
    (index.compactFrozenPoint format).toIndexTables = index.toIndexTables ∧
      (index.compactFrozenPoint format).numFrozenPts = index.numFrozenPts ∧
      (index.compactFrozenPoint format).width = index.width ∧
      (index.compactFrozenPoint format).dim = index.dim ∧
      (index.compactFrozenPoint format).enableTags = index.enableTags ∧
      (index.compactFrozenPoint format).saveAsOneFile = index.saveAsOneFile := by
  unfold compactFrozenPoint
  split
  · split
    · split
      · exact ⟨rfl, rfl, rfl, rfl, rfl, rfl⟩
      · exact ⟨rfl, rfl, rfl, rfl, rfl, rfl⟩
    · exact ⟨rfl, rfl, rfl, rfl, rfl, rfl⟩
  · exact ⟨rfl, rfl, rfl, rfl, rfl, rfl⟩

/-- The frozen point stays where it is. -/
theorem compactFrozenPoint_of_not (stays : ¬ (index.nd < index.maxPoints ∧ 0 < index.numFrozenPts)) :
    index.compactFrozenPoint format = index := by
  unfold compactFrozenPoint
  split
  · rename_i below
    exact if_neg fun frozen => stays ⟨below, frozen⟩
  · rfl

section Moved

variable (below : index.nd < index.maxPoints) (frozen : 0 < index.numFrozenPts)
include below frozen

theorem compactFrozenPoint_ep : (index.compactFrozenPoint format).ep = index.nd := by
  unfold compactFrozenPoint
  rw [if_pos below, if_pos frozen]
  split <;> rfl

/-- A frozen point without neighbours is left behind. -/
theorem compactFrozenPoint_nil (alone : index.finalGraph index.maxPoints = []) :
    index.compactFrozenPoint format = { index with ep := index.nd } := by
  unfold compactFrozenPoint
  rw [if_pos below, if_pos frozen, if_pos alone]

theorem compactFrozenPoint_lists (linked : index.finalGraph index.maxPoints ≠ []) :
    (∀ location < index.nd, (index.compactFrozenPoint format).finalGraph location =
        (index.finalGraph location).map fun nbr =>
          if nbr = index.maxPoints then index.nd else nbr) ∧
      (index.compactFrozenPoint format).finalGraph index.nd =
        index.finalGraph index.maxPoints := by
  unfold compactFrozenPoint
  rw [if_pos below, if_pos frozen, if_neg linked]
  dsimp only
  constructor
  · intro location inside
    rw [Function.update_of_ne (by omega), Function.update_of_ne (by omega)]
    exact if_pos inside
  · rw [Function.update_of_ne (by omega), Function.update_self]
    exact if_neg (by omega)

theorem compactFrozenPoint_data (linked : index.finalGraph index.maxPoints ≠ []) :
    (∀ location < index.nd, (index.compactFrozenPoint format).data location =
        index.data location) ∧
      (index.compactFrozenPoint format).data index.nd =
        (index.data index.maxPoints).take index.dim ++ (index.data index.nd).drop index.dim := by
  unfold compactFrozenPoint
  rw [if_pos below, if_pos frozen, if_neg linked]
  dsimp only
  constructor
  · intro location inside
    rw [Function.update_of_ne (by omega), Function.update_of_ne (by omega)]
  · rw [Function.update_of_ne (by omega), Function.update_self]

end Moved

/-- A list that is saved is the list of a point. -/
theorem compactFrozenPoint_savedLists (wellFormed : index.WellFormed format) :
    ∀ nbrs ∈ (index.compactFrozenPoint format).savedLists,
      (∃ location, index.IsPoint location ∧
        nbrs.length = (index.finalGraph location).length) ∧ ∀ nbr ∈ nbrs, nbr < 2 ^ 32 := by
  intro nbrs member
  have locations := wellFormed.locations
  have bounded := wellFormed.bounded
  have small (location : Nat) (point : index.IsPoint location) : location < 2 ^ 32 := by
    obtain below | ⟨-, rfl⟩ := point
    · omega
    · omega
  obtain ⟨tables, frozenSame, -⟩ := @compactFrozenPoint_tables _ _ format index
  have ndSame : (index.compactFrozenPoint format).nd = index.nd :=
    congrArg IndexTables.nd tables
  unfold savedLists savedLocations at member
  rw [ndSame, frozenSame] at member
  obtain ⟨location, inside, rfl⟩ := List.mem_map.mp member
  rw [List.mem_range] at inside
  have few := wellFormed.frozen
  by_cases moves : index.nd < index.maxPoints ∧ 0 < index.numFrozenPts
  · obtain ⟨below, frozen⟩ := moves
    by_cases alone : index.finalGraph index.maxPoints = []
    · rw [compactFrozenPoint_nil below frozen alone]
      show (∃ _, _ ∧ (index.finalGraph location).length = _) ∧
        ∀ nbr ∈ index.finalGraph location, _
      by_cases point : index.IsPoint location
      · exact ⟨⟨location, point, rfl⟩, fun nbr there =>
          small nbr (wellFormed.linked location point nbr there).1⟩
      · rw [wellFormed.empty location point]
        exact ⟨⟨index.maxPoints, Or.inr ⟨frozen, rfl⟩, by rw [alone]⟩, nofun⟩
    · obtain ⟨lists, last⟩ := @compactFrozenPoint_lists _ _ format index below frozen alone
      obtain before | here := Nat.lt_or_ge location index.nd
      · rw [lists location before]
        refine ⟨⟨location, Or.inl before, List.length_map _⟩, fun nbr there => ?_⟩
        obtain ⟨old, inList, rfl⟩ := List.mem_map.mp there
        split
        · omega
        · exact small old (wellFormed.linked location (Or.inl before) old inList).1
      · obtain rfl : location = index.nd := by omega
        rw [last]
        have point : index.IsPoint index.maxPoints := Or.inr ⟨frozen, rfl⟩
        exact ⟨⟨_, point, rfl⟩, fun nbr there =>
          small nbr (wellFormed.linked _ point nbr there).1⟩
  · rw [compactFrozenPoint_of_not moves]
    have point : index.IsPoint location := by
      obtain none | some := Nat.eq_zero_or_pos index.numFrozenPts
      · exact Or.inl (by omega)
      · have full : ¬ index.nd < index.maxPoints := fun below => moves ⟨below, some⟩
        obtain before | here := Nat.lt_or_ge location index.nd
        · exact Or.inl before
        · exact Or.inr ⟨some, by omega⟩
    exact ⟨⟨location, point, rfl⟩, fun nbr there =>
      small nbr (wellFormed.linked location point nbr there).1⟩

/-- An index between calls is saved with its frozen point behind the points. -/
theorem WellFormed.savable (wellFormed : index.WellFormed format) :
    (index.compactFrozenPoint format).Savable := by
  have locations := wellFormed.locations
  have bounded := wellFormed.bounded
  have few := wellFormed.frozen
  have lists := compactFrozenPoint_savedLists wellFormed
  obtain ⟨tables, frozenSame, -, dimSame, tagsSame, -⟩ :=
    @compactFrozenPoint_tables _ _ format index
  have ndSame : (index.compactFrozenPoint format).nd = index.nd :=
    congrArg IndexTables.nd tables
  have deleteSame : (index.compactFrozenPoint format).deleteSet = index.deleteSet :=
    congrArg IndexTables.deleteSet tables
  have locationSame : (index.compactFrozenPoint format).locationToTag = index.locationToTag :=
    congrArg IndexTables.locationToTag tables
  have tagSame : (index.compactFrozenPoint format).tagToLocation = index.tagToLocation :=
    congrArg IndexTables.tagToLocation tables
  have alignedSame : (index.compactFrozenPoint format).alignedDim = index.alignedDim := by
    unfold alignedDim
    rw [dimSame]
  have lengths : ∀ nbrs ∈ (index.compactFrozenPoint format).savedLists,
      nbrs.length + 1 < 2 ^ 32 := fun nbrs member => by
    obtain ⟨⟨location, point, same⟩, -⟩ := lists nbrs member
    rw [same]
    exact wellFormed.lengths location point
  have entry : (index.compactFrozenPoint format).ep < 2 ^ 32 ∧
      (0 < index.numFrozenPts → (index.compactFrozenPoint format).ep = index.nd) := by
    by_cases moves : index.nd < index.maxPoints ∧ 0 < index.numFrozenPts
    · rw [compactFrozenPoint_ep moves.1 moves.2]
      exact ⟨by omega, fun _ => rfl⟩
    · rw [compactFrozenPoint_of_not moves]
      refine ⟨wellFormed.entry, fun frozen => ?_⟩
      have full : ¬ index.nd < index.maxPoints := fun below => moves ⟨below, frozen⟩
      rw [wellFormed.entryFrozen frozen]
      omega
  have dim := index.dim_le_alignedDim
  have aligned : ∀ location, ((index.compactFrozenPoint format).data location).length =
      index.alignedDim := by
    intro location
    unfold compactFrozenPoint
    split
    · split
      · split
        · exact wellFormed.aligned location
        · dsimp only
          by_cases last : location = index.maxPoints
          · subst last
            rw [Function.update_self]
            exact List.length_replicate
          · rw [Function.update_of_ne last]
            by_cases here : location = index.nd
            · subst here
              rw [Function.update_self, List.length_append, List.length_take, List.length_drop,
                wellFormed.aligned, wellFormed.aligned]
              omega
            · rw [Function.update_of_ne here]
              exact wellFormed.aligned location
      · exact wellFormed.aligned location
    · exact wellFormed.aligned location
  refine ⟨by rw [dimSame]; exact wellFormed.dimension, by rw [ndSame, frozenSame]; omega,
    by rw [frozenSame]; exact few, fun nbrs member => ⟨?_, (lists nbrs member).2⟩, lengths,
    fun location => by rw [alignedSame]; exact aligned location, ?_, ?_, ?_, ?_, entry.1, ?_⟩
  · exact Nat.lt_of_succ_lt (lengths nbrs member)
  · rw [deleteSame, ndSame]
    exact wellFormed.deleted
  · rw [locationSame, ndSame]
    exact wellFormed.tagged
  · rw [tagSame, locationSame]
    exact wellFormed.inverse
  · rw [tagsSame, ndSame, locationSame, deleteSame]
    exact wellFormed.live
  · rw [frozenSame, ndSame]
    exact entry.2

end Compact

/-! ### The frozen point at the end -/

section Reposition

theorem repositionFrozenPointToEnd_tables (index : Index Component Tag) :
    (index.repositionFrozenPointToEnd format).toIndexTables = index.toIndexTables ∧
      (index.repositionFrozenPointToEnd format).numFrozenPts = index.numFrozenPts ∧
      (index.repositionFrozenPointToEnd format).width = index.width ∧
      (index.repositionFrozenPointToEnd format).dim = index.dim ∧
      (index.repositionFrozenPointToEnd format).enableTags = index.enableTags ∧
      (index.repositionFrozenPointToEnd format).saveAsOneFile = index.saveAsOneFile := by
  unfold repositionFrozenPointToEnd
  split
  · exact ⟨rfl, rfl, rfl, rfl, rfl, rfl⟩
  · split
    · exact ⟨rfl, rfl, rfl, rfl, rfl, rfl⟩
    · exact ⟨rfl, rfl, rfl, rfl, rfl, rfl⟩

/-- The frozen point moves from behind the points to the end. -/
theorem repositionFrozenPointToEnd_frozen (bounded : index.nd ≤ index.maxPoints)
    (frozen : 0 < index.numFrozenPts) (behind : index.ep = index.nd) :
    let after := index.repositionFrozenPointToEnd format
    after.ep = index.maxPoints ∧
      (∀ location < index.nd, after.finalGraph location =
        (index.finalGraph location).map fun nbr =>
          if nbr = index.nd then index.maxPoints else nbr) ∧
      after.finalGraph index.maxPoints = index.finalGraph index.nd ∧
      (∀ location < index.nd, after.data location = index.data location) ∧
      after.data index.maxPoints = index.data index.nd := by
  unfold repositionFrozenPointToEnd
  dsimp only
  rw [if_neg frozen.ne']
  obtain full | below := bounded.eq_or_lt
  · rw [if_pos full, ← full]
    refine ⟨behind, fun location _ => ?_, rfl, fun _ _ => rfl, rfl⟩
    have same : (fun nbr => if nbr = index.nd then index.nd else nbr) = id := by
      funext nbr
      split
      · rename_i here
        exact here.symm
      · rfl
    rw [same, List.map_id]
  · rw [if_neg below.ne]
    unfold repositionPoint
    dsimp only
    have nd (location : Nat) (inside : location < index.nd) :
        location ≠ index.maxPoints ∧ location ≠ index.nd := ⟨by omega, by omega⟩
    refine ⟨rfl, fun location inside => ?_, ?_, fun location inside => ?_, ?_⟩
    · rw [Function.update_of_ne (nd location inside).2, Function.update_of_ne (nd location inside).1,
        Function.update_of_ne (nd location inside).1]
      exact if_pos inside
    · rw [Function.update_of_ne below.ne', Function.update_self, Function.update_of_ne below.ne,
        List.take_length]
      exact if_neg (Nat.lt_irrefl _)
    · rw [Function.update_of_ne (nd location inside).2,
        Function.update_of_ne (nd location inside).1]
    · rw [Function.update_of_ne below.ne', Function.update_self]

end Reposition

/-! ### The longest list -/

theorem isGreatest_maxDegree (lists : List (List Nat)) :
    IsGreatest (insert 0 (List.length '' { nbrs | nbrs ∈ lists })) (maxDegree lists) := by
  unfold maxDegree
  have each (longest : Nat) : IsGreatest (insert longest (List.length '' { nbrs | nbrs ∈ lists }))
      (lists.foldl (fun longest nbrs => max longest nbrs.length) longest) := by
    induction lists generalizing longest with
    | nil =>
      refine ⟨Set.mem_insert _ _, ?_⟩
      rintro length (rfl | ⟨nbrs, member, -⟩)
      · exact Nat.le_refl _
      · exact absurd member List.not_mem_nil
    | cons nbrs rest inductionHypothesis =>
      obtain ⟨inside, above⟩ := inductionHypothesis (max longest nbrs.length)
      refine ⟨?_, ?_⟩
      · obtain first | ⟨other, member, same⟩ := inside
        · rw [List.foldl_cons, first]
          obtain left | right := max_choice longest nbrs.length
          · exact Or.inl left
          · exact Or.inr ⟨nbrs, List.mem_cons_self, right.symm⟩
        · exact Or.inr ⟨other, List.mem_cons_of_mem _ member, same⟩
      · rintro length (rfl | ⟨other, member, rfl⟩)
        · exact (le_max_left _ _).trans (above (Or.inl rfl))
        · obtain rfl | later := List.mem_cons.mp member
          · exact (le_max_right _ _).trans (above (Or.inl rfl))
          · exact above (Or.inr ⟨other, later, rfl⟩)
  exact each 0

/-- The longest of the lists that are saved is the longest of the points. -/
theorem isGreatest_width (wellFormed : index.WellFormed format) : IsGreatest (insert 0 ((fun location =>
    (index.finalGraph location).length) '' { location | index.IsPoint location }))
      (maxDegree (index.compactFrozenPoint format).savedLists) := by
  have same : List.length '' { nbrs | nbrs ∈ (index.compactFrozenPoint format).savedLists } =
      (fun location => (index.finalGraph location).length) ''
        { location | index.IsPoint location } := by
    obtain ⟨tables, frozenSame, -⟩ := @compactFrozenPoint_tables _ _ format index
    have ndSame : (index.compactFrozenPoint format).nd = index.nd :=
      congrArg IndexTables.nd tables
    have saved (location : Nat) (inside : location < index.nd + index.numFrozenPts) :
        (index.compactFrozenPoint format).finalGraph location ∈
          (index.compactFrozenPoint format).savedLists := by
      unfold savedLists savedLocations
      rw [ndSame, frozenSame]
      exact List.mem_map.mpr ⟨location, List.mem_range.mpr inside, rfl⟩
    have few := wellFormed.frozen
    ext length
    constructor
    · rintro ⟨nbrs, member, rfl⟩
      obtain ⟨⟨location, point, same⟩, -⟩ := compactFrozenPoint_savedLists wellFormed nbrs member
      exact ⟨location, point, same.symm⟩
    · rintro ⟨location, point, rfl⟩
      by_cases moves : index.nd < index.maxPoints ∧ 0 < index.numFrozenPts
      · obtain ⟨below, frozen⟩ := moves
        by_cases alone : index.finalGraph index.maxPoints = []
        · have list : (index.compactFrozenPoint format).finalGraph = index.finalGraph := by
            rw [compactFrozenPoint_nil below frozen alone]
          obtain before | ⟨-, rfl⟩ := point
          · exact ⟨_, saved location (by omega), by rw [list]⟩
          · refine ⟨_, saved index.nd (by omega), ?_⟩
            have gap : ¬ index.IsPoint index.nd := by
              rintro (wrong | ⟨-, wrong⟩) <;> omega
            rw [list, wellFormed.empty index.nd gap]
            exact congrArg List.length alone.symm
        · obtain ⟨lists, last⟩ := @compactFrozenPoint_lists _ _ format index below frozen alone
          obtain before | ⟨-, rfl⟩ := point
          · refine ⟨_, saved location (by omega), ?_⟩
            rw [lists location before]
            exact List.length_map _
          · refine ⟨_, saved index.nd (by omega), ?_⟩
            rw [last]
      · have stays : index.compactFrozenPoint format = index := compactFrozenPoint_of_not moves
        have inside : location < index.nd + index.numFrozenPts := by
          have bounded := wellFormed.bounded
          obtain before | ⟨frozen, rfl⟩ := point
          · omega
          · have full : ¬ index.nd < index.maxPoints := fun below => moves ⟨below, frozen⟩
            omega
        refine ⟨_, saved location inside, ?_⟩
        rw [stays]
  rw [← same]
  exact isGreatest_maxDegree _

end Index

end OdinVector
