/-
This file proves what `compact_data` does: the points keep their order, their vectors and
their tags, and their lists are renumbered. No neighbour moves up, so it does not crash.
-/

import OdinVector.InMemory.Consolidation

namespace OdinVector

variable {Component Tag : Type}

namespace Index

variable {index : Index Component Tag}

/-- Lists of locations with tags and of the frozen point that name nothing else. -/
structure Compactable (index : Index Component Tag) : Prop where
  frozen : index.numFrozenPts = 1
  below : ∀ location, index.Tagged location → location < index.maxPoints
  named : ∀ location, index.Tagged location ∨ location = index.maxPoints →
    ∀ nbr ∈ index.finalGraph location, index.Tagged nbr ∨ nbr = index.maxPoints

/-! ### The new locations -/

section NewLocation

variable (compactable : index.Compactable)
include compactable

theorem newLocation_tagged {location : Nat} (tagged : index.Tagged location) :
    index.newLocation location = Nat.count index.Tagged location := by
  have below := compactable.below location tagged
  exact if_pos ⟨Nat.lt_add_right _ below, tagged⟩

theorem newLocation_maxPoints : index.newLocation index.maxPoints = index.maxPoints :=
  if_neg fun both => Nat.lt_irrefl _ (compactable.below _ both.2)

/-- No neighbour moves up. -/
theorem newLocation_le {location : Nat}
    (point : index.Tagged location ∨ location = index.maxPoints) :
    index.newLocation location ≤ location := by
  obtain tagged | rfl := point
  · rw [newLocation_tagged compactable tagged]
    exact Nat.count_le _
  · exact (newLocation_maxPoints compactable).le

omit compactable in
theorem newLocation_untagged {location : Nat} (free : ¬ index.Tagged location) :
    index.newLocation location = index.maxPoints :=
  if_neg fun both => free both.2

/-- Points stay apart. -/
theorem newLocation_injective {first second : Nat} (one : index.Tagged first)
    (other : index.Tagged second)
    (same : index.newLocation first = index.newLocation second) : first = second := by
  rw [newLocation_tagged compactable one, newLocation_tagged compactable other] at same
  exact Nat.count_injective one other same

end NewLocation

/-! ### The loop -/

/-- The lists and vectors after some rounds. -/
structure Compacting (index : Index Component Tag) (rounds : Nat)
    (state : (Nat → List Nat) × (Nat → List Component)) : Prop where
  moved : ∀ location < rounds, index.Tagged location →
    state.1 (Nat.count index.Tagged location) =
        (index.finalGraph location).map index.newLocation ∧
      state.2 (Nat.count index.Tagged location) = index.data location
  cleared : ∀ location, Nat.count index.Tagged rounds ≤ location → location < rounds →
    state.1 location = []
  rest : ∀ location, rounds ≤ location →
    state.1 location = index.finalGraph location ∧ state.2 location = index.data location

section Loop

variable {state : (Nat → List Nat) × (Nat → List Component)} {rounds : Nat}
variable (compactable : index.Compactable) (compacting : index.Compacting rounds state)
include compactable compacting

/-- The check of a round passes. -/
theorem Compacting.noneMovesUp
    (point : index.Tagged rounds ∨ rounds = index.maxPoints) :
    ¬ ∃ ngh ∈ state.1 rounds, ngh < index.newLocation ngh := by
  rintro ⟨ngh, member, up⟩
  rw [(compacting.rest rounds (Nat.le_refl _)).1] at member
  exact Nat.not_lt.mpr (newLocation_le compactable (compactable.named rounds point ngh member)) up

omit compactable in
/-- A location without a tag is cleared. -/
theorem Compacting.free (below : rounds < index.maxPoints) (free : ¬ index.Tagged rounds) :
    ∃ next, index.compactRound state rounds = some next ∧
      index.Compacting (rounds + 1) next := by
  have count : Nat.count index.Tagged (rounds + 1) = Nat.count index.Tagged rounds := by
    rw [Nat.count_succ, if_neg free, Nat.add_zero]
  have gone : ¬ (index.newLocation rounds < index.maxPoints ∨ rounds = index.maxPoints) := by
    rw [newLocation_untagged free]
    exact fun either => either.elim (Nat.lt_irrefl _) below.ne
  refine ⟨(Function.update state.1 rounds [], state.2), if_neg gone,
    fun location earlier tagged => ?_, fun location from_ earlier => ?_, fun location later => ?_⟩
  · have other : location ≠ rounds := fun same => free (same ▸ tagged)
    have before : location < rounds := by omega
    have moves : Nat.count index.Tagged location ≤ location := Nat.count_le _
    dsimp only
    rw [Function.update_of_ne (by omega)]
    exact compacting.moved location before tagged
  · by_cases here : location = rounds
    · rw [here]
      exact Function.update_self _ _ _
    · show Function.update state.1 rounds [] location = []
      rw [Function.update_of_ne here]
      exact compacting.cleared location (count ▸ from_) (by omega)
  · show Function.update state.1 rounds [] location = _ ∧ _
    rw [Function.update_of_ne (by omega)]
    exact compacting.rest location (by omega)

/-- A point moves to the location behind those that moved before. -/
theorem Compacting.point (below : rounds < index.maxPoints) (tagged : index.Tagged rounds) :
    ∃ next, index.compactRound state rounds = some next ∧
      index.Compacting (rounds + 1) next := by
  have new := newLocation_tagged compactable tagged
  have moves : Nat.count index.Tagged rounds ≤ rounds := Nat.count_le _
  have count : Nat.count index.Tagged (rounds + 1) = Nat.count index.Tagged rounds + 1 := by
    rw [Nat.count_succ, if_pos tagged]
  have stays : index.newLocation rounds < index.maxPoints ∨ rounds = index.maxPoints := by
    left
    omega
  have earlierMoves (location : Nat) (before : location < rounds)
      (one : index.Tagged location) :
      Nat.count index.Tagged location < Nat.count index.Tagged rounds :=
    Nat.count_strict_mono one before
  obtain ⟨list, vector⟩ := compacting.rest rounds (Nat.le_refl _)
  unfold compactRound
  rw [if_pos stays, if_neg (compacting.noneMovesUp compactable (Or.inl tagged))]
  dsimp only
  by_cases still : index.newLocation rounds = rounds
  · rw [if_pos still]
    refine ⟨_, rfl, fun location earlier one => ?_, fun location from_ earlier => ?_,
      fun location later => ?_⟩
    · by_cases here : location = rounds
      · rw [here, ← new, still]
        dsimp only
        rw [Function.update_self, list]
        exact ⟨rfl, vector⟩
      · have less := earlierMoves location (by omega) one
        dsimp only
        rw [Function.update_of_ne (by omega)]
        exact compacting.moved location (by omega) one
    · omega
    · show Function.update state.1 rounds _ location = _ ∧ _
      rw [Function.update_of_ne (by omega)]
      exact compacting.rest location (by omega)
  · rw [if_neg still, Function.update_self, Function.update_of_ne still, list, vector]
    have empty : state.1 (index.newLocation rounds) = [] :=
      compacting.cleared _ new.ge (by omega)
    refine ⟨_, rfl, fun location earlier one => ?_, fun location from_ earlier => ?_,
      fun location later => ?_⟩
    · by_cases here : location = rounds
      · rw [here, ← new]
        dsimp only
        rw [Function.update_of_ne still, Function.update_self, Function.update_self]
        exact ⟨rfl, rfl⟩
      · have less := earlierMoves location (by omega) one
        dsimp only
        rw [Function.update_of_ne (by omega), Function.update_of_ne (by omega),
          Function.update_of_ne (by omega), Function.update_of_ne (by omega)]
        exact compacting.moved location (by omega) one
    · dsimp only
      by_cases here : location = rounds
      · rw [here, Function.update_self]
        exact empty
      · rw [Function.update_of_ne here, Function.update_of_ne (by omega),
          Function.update_of_ne here]
        exact compacting.cleared location (by omega) (by omega)
    · dsimp only
      rw [Function.update_of_ne (by omega), Function.update_of_ne (by omega),
        Function.update_of_ne (by omega), Function.update_of_ne (by omega)]
      exact compacting.rest location (by omega)

/-- In the last round the list of the frozen point is renumbered. -/
theorem Compacting.last (done : rounds = index.maxPoints) :
    index.compactRound state rounds = some (Function.update state.1 index.maxPoints
      ((index.finalGraph index.maxPoints).map index.newLocation), state.2) := by
  have still := newLocation_maxPoints compactable
  unfold compactRound
  rw [if_pos (Or.inr done), if_neg (compacting.noneMovesUp compactable (Or.inr done)), done,
    if_pos still, (compacting.rest _ done.le).1]

end Loop

/-- What is before the first round. -/
theorem compacting_zero (index : Index Component Tag) :
    index.Compacting 0 (index.finalGraph, index.data) :=
  ⟨fun _ => nofun, fun _ _ => nofun, fun _ _ => ⟨rfl, rfl⟩⟩

/-- The rounds over all points. -/
theorem foldlM_compactRound (compactable : index.Compactable) {rounds : Nat}
    (bounded : rounds ≤ index.maxPoints) :
    ∃ state, (List.range rounds).foldlM index.compactRound (index.finalGraph, index.data) =
      some state ∧ index.Compacting rounds state := by
  induction rounds with
  | zero => exact ⟨_, rfl, compacting_zero index⟩
  | succ rounds inductionHypothesis =>
    obtain ⟨state, before, compacting⟩ := inductionHypothesis (Nat.le_of_succ_le bounded)
    have round : ∃ next, index.compactRound state rounds = some next ∧
        index.Compacting (rounds + 1) next := by
      by_cases tagged : index.Tagged rounds
      · exact compacting.point compactable bounded tagged
      · exact compacting.free bounded tagged
    obtain ⟨next, taken, after⟩ := round
    refine ⟨next, ?_, after⟩
    rw [List.range_succ, List.foldlM_append, before]
    show (index.compactRound state rounds).bind some = some next
    rw [taken, Option.bind_some]

/-! ### The tags -/

section Tags

variable [DecidableEq Tag]
variable (inverse : ∀ tag location,
  index.tagToLocation tag = some location ↔ index.locationToTag location = some tag)
include inverse

/-- The loop over `_location_to_tag`. -/
theorem foldl_enterNewLocation (count : Nat) :
    (List.range count).foldl index.enterNewLocation (fun _ => none) = fun tag =>
      (index.tagToLocation tag).bind fun location =>
        if location < count then some (index.newLocation location) else none := by
  induction count with
  | zero =>
    funext tag
    exact (Option.bind_eq_none_iff.mpr fun location _ => if_neg (Nat.not_lt_zero location)).symm
  | succ count inductionHypothesis =>
    rw [List.range_succ, List.foldl_append, inductionHypothesis, List.foldl_cons, List.foldl_nil]
    funext tag
    have bound (location : Nat) (other : location ≠ count) :
        (if location < count then some (index.newLocation location) else none) =
          if location < count + 1 then some (index.newLocation location) else none :=
      if_congr (by omega) rfl rfl
    unfold enterNewLocation
    cases there : index.locationToTag count with
    | none =>
      rw [Option.elim_none]
      refine Option.bind_congr fun location has => bound location fun same => ?_
      have entered := (inverse tag location).mp has
      rw [same, there] at entered
      exact nomatch entered
    | some last =>
      rw [Option.elim_some]
      by_cases this : tag = last
      · rw [this, Function.update_self, (inverse last count).mpr there, Option.bind_some,
          if_pos (Nat.lt_succ_self count)]
      · rw [Function.update_of_ne this]
        refine Option.bind_congr fun location has => bound location fun same => this ?_
        exact Option.some.inj (((inverse tag location).mp has).symm.trans (same ▸ there))

/-- A tag moves with its location. -/
theorem newTagToLocation_eq (compactable : index.Compactable) (tag : Tag) :
    index.newTagToLocation tag = (index.tagToLocation tag).map index.newLocation := by
  unfold newTagToLocation
  rw [foldl_enterNewLocation inverse]
  dsimp only
  cases has : index.tagToLocation tag with
  | none => rfl
  | some location =>
    have tagged : index.Tagged location := by
      unfold Tagged
      rw [(inverse tag location).mp has]
      rfl
    exact if_pos (Nat.lt_add_right _ (compactable.below location tagged))

omit inverse in
/-- The loop over `_tag_to_location`. -/
theorem foldl_enterTagBack (apart : ∀ first second location,
      index.newTagToLocation first = some location →
        index.newTagToLocation second = some location → first = second)
    (tags : List Tag) (location : Nat) (tag : Tag) :
    tags.foldl index.enterTagBack (fun _ => none) location = some tag ↔
      tag ∈ tags ∧ index.newTagToLocation tag = some location := by
  induction tags using List.reverseRecOn with
  | nil => exact iff_of_false nofun fun both => List.not_mem_nil both.1
  | append_singleton tags last inductionHypothesis =>
    rw [List.foldl_append, List.foldl_cons, List.foldl_nil, List.mem_append,
      List.mem_singleton]
    unfold enterTagBack
    cases has : index.newTagToLocation last with
    | none =>
      rw [Option.elim_none]
      refine inductionHypothesis.trans (and_congr_left fun new => (or_iff_left ?_).symm)
      rintro rfl
      exact nomatch has.symm.trans new
    | some place =>
      rw [Option.elim_some]
      by_cases here : location = place
      · rw [here, Function.update_self, Option.some_inj]
        constructor
        · rintro rfl
          exact ⟨Or.inr rfl, has⟩
        · exact fun both => apart last tag place has both.2
      · rw [Function.update_of_ne here]
        refine inductionHypothesis.trans (and_congr_left fun new => (or_iff_left ?_).symm)
        rintro rfl
        exact here (Option.some.inj (new.symm.trans has))

/-- The new maps are inverse to each other. -/
theorem newInverse (compactable : index.Compactable) (tag : Tag) (location : Nat) :
    index.newTagToLocation tag = some location ↔ index.newLocationToTag location = some tag := by
  have taggedAt {tag : Tag} {old : Nat} (has : index.tagToLocation tag = some old) :
      index.Tagged old := by
    unfold Tagged
    rw [(inverse tag old).mp has]
    rfl
  have apart (first second : Tag) (place : Nat)
      (one : index.newTagToLocation first = some place)
      (other : index.newTagToLocation second = some place) : first = second := by
    rw [newTagToLocation_eq inverse compactable] at one other
    obtain ⟨firstOld, hasFirst, rfl⟩ := Option.map_eq_some_iff.mp one
    obtain ⟨secondOld, hasSecond, same⟩ := Option.map_eq_some_iff.mp other
    have old : secondOld = firstOld :=
      newLocation_injective compactable (taggedAt hasSecond) (taggedAt hasFirst) same
    have tag := (inverse second secondOld).mp hasSecond
    rw [old] at tag
    exact Option.some.inj (((inverse first firstOld).mp hasFirst).symm.trans tag)
  unfold newLocationToTag
  rw [foldl_enterTagBack apart]
  refine (and_iff_right_of_imp fun new => ?_).symm
  rw [newTagToLocation_eq inverse compactable] at new
  obtain ⟨old, has, -⟩ := Option.map_eq_some_iff.mp new
  have below := compactable.below old (taggedAt has)
  exact List.mem_filterMap.mpr
    ⟨old, List.mem_range.mpr (Nat.lt_add_right _ below), (inverse tag old).mp has⟩

end Tags

/-! ### The result -/

/-- Every new location is one of a point. -/
theorem exists_count_eq {p : Nat → Prop} [DecidablePred p] {bound new : Nat}
    (below : new < Nat.count p bound) : ∃ old < bound, p old ∧ Nat.count p old = new := by
  induction bound with
  | zero => exact absurd below (Nat.not_lt_zero new)
  | succ bound inductionHypothesis =>
    by_cases earlier : new < Nat.count p bound
    · obtain ⟨old, inside, holds, same⟩ := inductionHypothesis earlier
      exact ⟨old, Nat.lt_succ_of_lt inside, holds, same⟩
    · by_cases holds : p bound
      · rw [Nat.count_succ, if_pos holds] at below
        exact ⟨bound, Nat.lt_succ_self bound, holds, by omega⟩
      · rw [Nat.count_succ, if_neg holds] at below
        omega

/-- What `compact_data` makes of an index with deleted locations. -/
theorem compactData_eq [DecidableEq Tag] (compactable : index.Compactable)
    (lazy_ : index.lazyDone = true) (scattered : index.dataCompacted = false)
    (entry : index.ep ∉ index.deleteSet) :
    ∃ lists data, index.compactData = .running { index with
        finalGraph := lists
        data := data
        tagToLocation := index.newTagToLocation
        locationToTag := index.newLocationToTag
        deleteSet := ∅
        emptySlots := Finset.Ico index.nd index.maxPoints
        lazyDone := false
        eagerDone := false
        dataCompacted := true } ∧
      (∀ location, index.nd ≤ location → location < index.maxPoints → lists location = []) ∧
      (∀ location, index.Tagged location → Nat.count index.Tagged location < index.nd →
        lists (Nat.count index.Tagged location) =
          (index.finalGraph location).map index.newLocation) ∧
      (index.nd ≤ index.maxPoints →
        lists index.maxPoints = (index.finalGraph index.maxPoints).map index.newLocation) ∧
      (∀ location, index.maxPoints < location → lists location = index.finalGraph location) ∧
      ∀ location, index.Tagged location →
        data (Nat.count index.Tagged location) = index.data location := by
  obtain ⟨state, loop, compacting⟩ := foldlM_compactRound compactable (Nat.le_refl _)
  have rounds : (List.range (index.maxPoints + 1)).foldlM index.compactRound
      (index.finalGraph, index.data) = some (Function.update state.1 index.maxPoints
        ((index.finalGraph index.maxPoints).map index.newLocation), state.2) := by
    rw [List.range_succ, List.foldlM_append, loop]
    show (index.compactRound state index.maxPoints).bind some = _
    rw [compacting.last compactable rfl, Option.bind_some]
  have entryStays : index.replacedEntry = some index.ep := if_neg entry
  have dynamic : index.numFrozenPts ≠ 0 := by
    rw [compactable.frozen]
    exact Nat.one_ne_zero
  have some : ¬ (index.lazyDone = false ∧ index.eagerDone = false) := fun none =>
    nomatch lazy_.symm.trans none.1
  have not : ¬ index.dataCompacted = true := fun compacted =>
    nomatch scattered.symm.trans compacted
  refine ⟨fun location => if index.nd ≤ location ∧ location < index.maxPoints then []
    else Function.update state.1 index.maxPoints
      ((index.finalGraph index.maxPoints).map index.newLocation) location, state.2, ?_,
    fun location behind below => if_pos ⟨behind, below⟩, fun location tagged inside => ?_,
    fun _ => ?_, fun location beyond => ?_, fun location tagged => ?_⟩
  · unfold compactData
    rw [if_neg dynamic, if_neg some, if_neg not, entryStays]
    dsimp only
    rw [rounds]
  · have below := compactable.below location tagged
    have moves : Nat.count index.Tagged location ≤ location := Nat.count_le _
    dsimp only
    rw [if_neg (by omega), Function.update_of_ne (by omega)]
    exact (compacting.moved location below tagged).1
  · dsimp only
    rw [if_neg (by omega), Function.update_self]
  · dsimp only
    rw [if_neg (by omega), Function.update_of_ne (by omega)]
    exact (compacting.rest location beyond.le).1
  · exact (compacting.moved location (compactable.below location tagged) tagged).2

end Index

end OdinVector
