/-
This file proves that the in-memory dynamic `Index` is a map from tags to vectors along every
sequential run of `insert_point`, `lazy_delete` and `consolidate`.

Two steps are left out. A growth to 2^32 locations or more is truncated, and the insertion that
waits for it crashes. A consolidation with deleted locations whose `_lazy_done` has been reset
by `enable_delete` skips `compact_data` and counts the deleted locations twice.
-/

import OdinVector.InMemory.Consolidated
import OdinVector.InMemory.InsertPoint
import OdinVector.Transition

namespace OdinVector

open Binary Transition

variable {Component Tag : Type}

/-! ### Runs -/

/-- A call on an index. -/
inductive IndexCall (Component Tag : Type)
  | insertPoint (params : InsertParams) (point : List Component) (tag : Tag) (picks : InsertPicks)
  | lazyDelete (tag : Tag)
  | consolidate (occluded : Nat → List Nat)

variable [DecidableEq Tag]

/-- What a call does to a map from tags to vectors. -/
def IndexCall.apply (map : Tag → Option (List Component)) :
    IndexCall Component Tag → Tag → Option (List Component)
  | .insertPoint _ point tag _ => Function.update map tag (some point)
  | .lazyDelete tag => Function.update map tag none
  | .consolidate _ => map

namespace IndexProcess

variable (format : Format Component)

/-- A call of a sequential caller; a point has as many components as the index says. -/
def step : IndexProcess Component Tag → IndexCall Component Tag →
    Option (IndexProcess Component Tag)
  | .crashed, _ => none
  | .running index, .insertPoint params point tag picks =>
    if point.length = index.dim then index.insertPoint format params point tag picks else none
  | .running index, .lazyDelete tag => some (.running (index.lazyDelete tag))
  | .running index, .consolidate occluded => index.consolidate occluded

/-- The runs from an index. -/
def system (start : Index Component Tag) :
    System (IndexProcess Component Tag) (IndexCall Component Tag) where
  initial process := process = .running start
  step := step format

omit [DecidableEq Tag] in
/-- A growth fits 32 bits, and deleted locations have been noticed when they are consolidated. -/
def Admits : IndexProcess Component Tag → IndexCall Component Tag → Prop
  | .running index, .insertPoint _ _ _ _ =>
    index.maxPoints ≤ index.nd → grown index.maxPoints < 2 ^ 32
  | .running index, .consolidate _ => index.deleteSet ≠ ∅ → index.lazyDone = true
  | _, _ => True

omit [DecidableEq Tag] in
instance (process : IndexProcess Component Tag) (call : IndexCall Component Tag) :
    Decidable (process.Admits call) :=
  match process, call with
  | .running _, .insertPoint _ _ _ _ => inferInstanceAs (Decidable (_ → _))
  | .running _, .consolidate _ => inferInstanceAs (Decidable (_ → _))
  | .running _, .lazyDelete _ => isTrue trivial
  | .crashed, _ => isTrue trivial

end IndexProcess

namespace Index

variable {format : Format Component} {index : Index Component Tag}

omit [DecidableEq Tag] in
/-- A dynamic index as it is built or loaded: the points are at the first locations, and edges
lead to points, deleted or not, and to the frozen point. -/
structure Dynamic (index : Index Component Tag) : Prop where
  two : 2 ≤ index.maxPoints
  frozen : index.numFrozenPts = 1
  tagsEnabled : index.enableTags = true
  compacted : index.dataCompacted = true
  bounded : index.nd ≤ index.maxPoints
  slots : index.emptySlots ⊆ Finset.Ico index.nd index.maxPoints
  deleted : ∀ location ∈ index.deleteSet, location < index.nd
  live : ∀ location < index.nd,
    (index.locationToTag location = none ↔ location ∈ index.deleteSet)
  tagged : ∀ location tag, index.locationToTag location = some tag → location < index.nd
  inverse : ∀ tag location,
    index.tagToLocation tag = some location ↔ index.locationToTag location = some tag
  entry : index.ep = index.maxPoints
  links : index.LinksPoints index.finalGraph

omit [DecidableEq Tag] in
/-- `enable_delete` fills the empty slots. -/
theorem Dynamic.enableDelete (dynamic : index.Dynamic) :
    index.enableDelete.Settled ∧ index.enableDelete.vectors = index.vectors := by
  have slots : index.emptySlots ∪ Finset.Ico index.nd index.maxPoints =
      Finset.Ico index.nd index.maxPoints := Finset.union_eq_right.mpr dynamic.slots
  unfold Index.enableDelete
  rw [if_pos dynamic.tagsEnabled, if_pos dynamic.compacted, slots]
  exact ⟨⟨⟨dynamic.bounded, dynamic.compacted, rfl, rfl, dynamic.deleted, dynamic.live,
    dynamic.tagged, dynamic.inverse⟩, dynamic.two, dynamic.frozen, dynamic.tagsEnabled,
    dynamic.entry, dynamic.links.linked, dynamic.links.empty⟩, rfl⟩

omit [DecidableEq Tag] in
/-- What an index keeps between calls. -/
structure Represents (index : Index Component Tag) (map : Tag → Option (List Component)) :
    Prop where
  vectors : ∀ tag, (index.getVectorByTag tag).map (List.take index.dim) = map tag
  inverse : ∀ tag location,
    index.tagToLocation tag = some location ↔ index.locationToTag location = some tag
  apart : ∀ first second location, index.tagToLocation first = some location →
    index.tagToLocation second = some location → first = second
  tags : { tag | index.tagToLocation tag ≠ none }.ncard + index.deleteSet.card = index.nd
  slots : index.emptySlots.card + index.nd = index.maxPoints

omit [DecidableEq Tag] in
theorem Settled.represents (settled : index.Settled) : index.Represents index.vectors :=
  ⟨fun _ => rfl, settled.inverse, fun _ _ _ => settled.apart, settled.tags_card,
    settled.slots_card⟩

/-! ### One call and a run -/

/-- A call does to the map of an index what it says. -/
theorem Settled.step (settled : index.Settled) {call : IndexCall Component Tag}
    (admits : IndexProcess.Admits (.running index) call) {after : IndexProcess Component Tag}
    (taken : IndexProcess.step format (.running index) call = some after) :
    ∃ next, after = .running next ∧ next.Settled ∧ next.vectors = call.apply index.vectors ∧
      ∀ occluded, call = .consolidate occluded → next.Tidy := by
  cases call with
  | insertPoint params point tag picks =>
    obtain ⟨length, done⟩ := Option.ite_none_right_eq_some.mp taken
    obtain ⟨next, same, settledNext, map⟩ := settled.insertPoint admits length done
    exact ⟨next, same, settledNext, map, fun _ => nofun⟩
  | lazyDelete tag =>
    obtain ⟨settledNext, map⟩ := settled.lazyDelete tag
    exact ⟨_, (Option.some.inj taken).symm, settledNext, map, fun _ => nofun⟩
  | consolidate occluded =>
    obtain ⟨next, same, settledNext, tidy, map⟩ := settled.consolidate admits taken
    exact ⟨next, same, settledNext, map, fun _ _ => tidy⟩

/-- A run does to the map what its calls say. -/
theorem Settled.run {start : Index Component Tag} {calls : List (IndexCall Component Tag)} :
    ∀ {index : Index Component Tag} {last : IndexProcess Component Tag}, index.Settled →
      (IndexProcess.system format start).Along IndexProcess.Admits (.running index) calls →
      (IndexProcess.system format start).run (.running index) calls = some last →
      ∃ after, last = .running after ∧ after.Settled ∧
        after.vectors = calls.foldl IndexCall.apply index.vectors ∧
        ∀ occluded, calls.getLast? = some (.consolidate occluded) → after.Tidy := by
  induction calls with
  | nil =>
    intro index last settled _ run
    exact ⟨index, (Option.some.inj run).symm, settled, rfl, fun _ => nofun⟩
  | cons call rest inductionHypothesis =>
    intro index last settled along run
    obtain ⟨between, taken, others⟩ := System.run_cons run
    obtain ⟨next, rfl, settledNext, map, tidy⟩ := settled.step along.1 taken
    obtain ⟨after, rfl, settledAfter, mapAfter, tidyAfter⟩ :=
      inductionHypothesis settledNext (along.2 _ taken) others
    refine ⟨after, rfl, settledAfter, ?_, fun occluded ends => ?_⟩
    · rw [mapAfter, map]
      rfl
    · cases rest with
      | nil =>
        obtain rfl : next = after := IndexProcess.running.inj (Option.some.inj others)
        exact tidy occluded (Option.some.inj ends)
      | cons second later => exact tidyAfter occluded ends

/-- A dynamic index is a map from tags to vectors in every run whose steps are admitted, and it
does not crash. -/
theorem run_represents (dynamic : index.Dynamic) {calls : List (IndexCall Component Tag)}
    {last : IndexProcess Component Tag}
    (admitted : (IndexProcess.system format index.enableDelete).Along IndexProcess.Admits
      (.running index.enableDelete) calls)
    (run : (IndexProcess.system format index.enableDelete).run
      (.running index.enableDelete) calls = some last) :
    ∃ after, last = .running after ∧
      after.Represents (calls.foldl IndexCall.apply index.vectors) ∧
      ∀ occluded, calls.getLast? = some (.consolidate occluded) → after.Tidy := by
  obtain ⟨settled, map⟩ := dynamic.enableDelete
  obtain ⟨after, same, settledAfter, mapAfter, tidy⟩ := settled.run admitted run
  rw [map] at mapAfter
  exact ⟨after, same, mapAfter ▸ settledAfter.represents, tidy⟩

/-! ### Two indexes -/

/-- A point and the frozen point, each in the list of the other. -/
def onePoint : Index (BitVec 8) (BitVec 32) where
  maxPoints := 2
  nd := 1
  emptySlots := ∅
  deleteSet := ∅
  tagToLocation tag := if tag = 5 then some 0 else none
  locationToTag location := if location = 0 then some 5 else none
  dataCompacted := true
  lazyDone := false
  eagerDone := false
  numFrozenPts := 1
  width := 4
  ep := 2
  finalGraph location := if location = 0 then [2] else if location = 2 then [0] else []
  dim := 8
  enableTags := true
  saveAsOneFile := true
  data _ := List.replicate 8 1

/-- The point is deleted, and `_lazy_done` is as `load` sets it. -/
def deletedPoint : Index (BitVec 8) (BitVec 32) :=
  { onePoint with
    deleteSet := {0}
    tagToLocation := fun _ => none
    locationToTag := fun _ => none
    lazyDone := true }

theorem onePoint_links : onePoint.LinksPoints onePoint.finalGraph := by
  refine ⟨fun location point => ?_, fun location outside => ?_⟩
  · obtain before | ⟨-, rfl⟩ := point
    · obtain rfl : location = 0 := Nat.lt_one_iff.mp before
      decide
    · decide
  · have first : location ≠ 0 := fun same => outside (Or.inl (same ▸ Nat.one_pos))
    have last : location ≠ 2 := fun same => outside (Or.inr ⟨Nat.one_pos, same⟩)
    exact (if_neg first).trans (if_neg last)

theorem onePoint_dynamic : onePoint.Dynamic where
  two := le_rfl
  frozen := rfl
  tagsEnabled := rfl
  compacted := rfl
  bounded := by decide
  slots := Finset.empty_subset _
  deleted := nofun
  live location inside := by
    obtain rfl : location = 0 := Nat.lt_one_iff.mp inside
    exact iff_of_false nofun nofun
  tagged location tag has := by
    by_contra outside
    have other : location ≠ 0 := fun same => outside (same ▸ Nat.one_pos)
    exact nomatch (if_neg other).symm.trans has
  inverse tag location := by
    show (if tag = 5 then some 0 else none) = some location ↔
      (if location = 0 then some 5 else none) = some tag
    constructor
    · intro has
      obtain ⟨rfl, same⟩ := Option.ite_none_right_eq_some.mp has
      rw [if_pos (Option.some.inj same).symm]
    · intro has
      obtain ⟨rfl, same⟩ := Option.ite_none_right_eq_some.mp has
      rw [if_pos (Option.some.inj same).symm]
  entry := rfl
  links := onePoint_links

theorem deletedPoint_dynamic : deletedPoint.Dynamic where
  two := le_rfl
  frozen := rfl
  tagsEnabled := rfl
  compacted := rfl
  bounded := by decide
  slots := Finset.empty_subset _
  deleted location gone := by
    rw [Finset.mem_singleton.mp gone]
    exact Nat.one_pos
  live location inside := by
    obtain rfl : location = 0 := Nat.lt_one_iff.mp inside
    exact iff_of_true rfl (Finset.mem_singleton_self 0)
  tagged _ _ := nofun
  inverse _ _ := iff_of_false nofun nofun
  entry := rfl
  links := ⟨onePoint_links.linked, onePoint_links.empty⟩

/-- The point is deleted, the index consolidated, and another point inserted. -/
def replacingCalls : List (IndexCall (BitVec 8) (BitVec 32)) :=
  [.lazyDelete 5, .consolidate fun _ => [],
    .insertPoint ⟨4, 5⟩ (List.replicate 8 3) 7 ⟨0, [2], fun _ => [2]⟩]

theorem run_represents_onePoint :
    ∃ after, (IndexProcess.system (Format.bits 1) onePoint.enableDelete).after
        (.running onePoint.enableDelete) replacingCalls = .running after ∧
      after.Represents (replacingCalls.foldl IndexCall.apply onePoint.vectors) ∧
      ∀ occluded, replacingCalls.getLast? = some (.consolidate occluded) → after.Tidy :=
  run_represents onePoint_dynamic (by decide +kernel) (System.run_after (by decide +kernel))

/-- After `enable_delete` a consolidation of a deleted point keeps it in the delete set, but no
longer counts it in `_nd`. -/
theorem not_run_represents : ¬ ∀ (index : Index (BitVec 8) (BitVec 32)), index.Dynamic →
    ∀ (calls : List (IndexCall (BitVec 8) (BitVec 32)))
      (last : IndexProcess (BitVec 8) (BitVec 32)),
      (IndexProcess.system (Format.bits 1) index.enableDelete).run
          (.running index.enableDelete) calls = some last →
        ∃ after, last = .running after ∧
          after.Represents (calls.foldl IndexCall.apply index.vectors) ∧
          ∀ occluded, calls.getLast? = some (.consolidate occluded) → after.Tidy := by
  intro always
  obtain ⟨after, same, represents, -⟩ := always deletedPoint deletedPoint_dynamic
    [.consolidate fun _ => []]
    (.running (deletedPoint.enableDelete.splicedIndex fun _ => [])) rfl
  obtain rfl := IndexProcess.running.inj same
  have counted : 1 ≤ 0 := (Nat.le_add_left _ _).trans represents.tags.le
  exact absurd counted (Nat.not_lt_zero 0)

end Index

end OdinVector
