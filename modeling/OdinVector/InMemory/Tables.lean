/-
This file models the tables of the in-memory `Index` that say which locations are
taken and which tags they have, with the critical sections that `reserve_location`,
`resize`, `lazy_delete` and `insert_point` run on them. The maps are read with
`operator[]`, which gives a tag without an entry the location 0.

The tables are plain data here; the graph and the vectors stand in other modules.
-/

import Mathlib.Data.Finset.Interval
import Mathlib.Data.Nat.Log
import Mathlib.Order.Interval.Finset.Nat

namespace OdinVector

/-! ### Growth -/

/-- The `float` next to a natural number: 24 bits are kept, and ties go to even. -/
def toFloat (n : Nat) : Nat :=
  let unit := 2 ^ (Nat.log 2 n - 23)
  let quotient := n / unit
  let rest := n % unit
  if unit < 2 * rest ∨ unit = 2 * rest ∧ quotient % 2 = 1 then (quotient + 1) * unit
  else quotient * unit

/-- `(size_t) (_max_points * INDEX_GROWTH_FACTOR)`, before `resize` keeps 32 bits of it. -/
def grown (maxPoints : Nat) : Nat :=
  toFloat (3 * toFloat maxPoints) / 2

theorem toFloat_error (n : Nat) : 2 ^ 24 * n ≤ 2 ^ 24 * toFloat n + n := by
  unfold toFloat
  dsimp only
  obtain small | large := Nat.lt_or_ge (Nat.log 2 n) 23
  · have unit : 2 ^ (Nat.log 2 n - 23) = 1 := by
      rw [Nat.sub_eq_zero_of_le small.le, pow_zero]
    rw [unit, Nat.div_one, Nat.mod_one]
    split <;> omega
  · have positive : n ≠ 0 := by
      rintro rfl
      rw [Nat.log_zero_right] at large
      omega
    have below : 2 ^ 23 * 2 ^ (Nat.log 2 n - 23) ≤ n := by
      rw [← pow_add, Nat.add_sub_cancel' large]
      exact Nat.pow_log_le_self 2 positive
    have some : 0 < 2 ^ (Nat.log 2 n - 23) := Nat.two_pow_pos _
    generalize 2 ^ (Nat.log 2 n - 23) = unit at below some ⊢
    have division : unit * (n / unit) + n % unit = n := Nat.div_add_mod n unit
    rw [mul_comm unit] at division
    have inside : n % unit < unit := Nat.mod_lt n some
    split
    · rw [Nat.add_mul, one_mul]
      omega
    · omega

/-- An index of at least two points grows. -/
theorem lt_grown {maxPoints : Nat} (two : 2 ≤ maxPoints) : maxPoints < grown maxPoints := by
  obtain rfl | three := Nat.eq_or_lt_of_le two
  · decide
  · have first := toFloat_error maxPoints
    have second := toFloat_error (3 * toFloat maxPoints)
    unfold grown
    omega

/-! ### The tables -/

/-- The tables and flags of an `Index`. -/
structure IndexTables (Tag : Type) where
  maxPoints : Nat
  nd : Nat
  emptySlots : Finset Nat
  deleteSet : Finset Nat
  tagToLocation : Tag → Option Nat
  locationToTag : Nat → Option Tag
  dataCompacted : Bool
  lazyDone : Bool
  eagerDone : Bool

variable {Tag : Type}

namespace IndexTables

/-- The locations that are reserved. -/
def used (tables : IndexTables Tag) : Finset Nat :=
  if tables.dataCompacted then Finset.range tables.nd
  else Finset.range tables.maxPoints \ tables.emptySlots

/-- What `reserve_location` gives. -/
inductive Reserved (Tag : Type)
  /-- `return -1`. -/
  | full
  /-- `_empty_slots.begin()` of an empty set. -/
  | noSlot
  | location (location : Nat) (tables : IndexTables Tag)

/-- `reserve_location`, with the slot that `_empty_slots.begin()` gives. -/
def reserveLocation (tables : IndexTables Tag) (slot : Nat) : Option (Reserved Tag) :=
  if tables.maxPoints ≤ tables.nd then some .full
  else if tables.dataCompacted then
    some (.location tables.nd
      { tables with emptySlots := tables.emptySlots.erase tables.nd, nd := tables.nd + 1 })
  else if tables.emptySlots = ∅ then some .noSlot
  else if slot ∈ tables.emptySlots then
    some (.location slot
      { tables with
        emptySlots := tables.emptySlots.erase slot
        deleteSet := tables.deleteSet.erase slot
        nd := tables.nd + 1 })
  else none

/-- The tables in `resize`. -/
def resize (tables : IndexTables Tag) (newMaxPoints : Nat) : IndexTables Tag :=
  { tables with
    maxPoints := newMaxPoints
    emptySlots := tables.emptySlots ∪ Finset.Ico tables.nd newMaxPoints }

/-- The growth section of `insert_point`. -/
def grow (tables : IndexTables Tag) : IndexTables Tag :=
  if tables.maxPoints ≤ tables.nd then tables.resize (grown tables.maxPoints % 2 ^ 32)
  else tables

section Tags

variable [DecidableEq Tag]

/-- `_tag_to_location[tag]`, and the entry that it makes when there is none. -/
def locationOf (tables : IndexTables Tag) (tag : Tag) : Nat :=
  (tables.tagToLocation tag).getD 0

/-- The section of `lazy_delete` under `_delete_lock`. -/
def markDeleted (tables : IndexTables Tag) (tag : Tag) : IndexTables Tag :=
  { tables with
    deleteSet := insert (tables.locationOf tag) tables.deleteSet
    tagToLocation := Function.update tables.tagToLocation tag (some (tables.locationOf tag)) }

/-- The last section of `lazy_delete`. -/
def eraseTag (tables : IndexTables Tag) (tag : Tag) : IndexTables Tag :=
  { tables with
    locationToTag := Function.update tables.locationToTag (tables.locationOf tag) none
    tagToLocation := Function.update tables.tagToLocation tag none }

/-- The section of `insert_point` that deletes the tag first. -/
def replaceTag (tables : IndexTables Tag) (tag : Tag) : IndexTables Tag :=
  { (tables.markDeleted tag).eraseTag tag with lazyDone := true }

/-- The section of `insert_point` that enters the tag. -/
def setTag (tables : IndexTables Tag) (tag : Tag) (location : Nat) : IndexTables Tag :=
  { tables with
    tagToLocation := Function.update tables.tagToLocation tag (some location)
    locationToTag := Function.update tables.locationToTag location (some tag) }

variable {tables : IndexTables Tag} {tag : Tag} {location : Nat}

omit [DecidableEq Tag] in
theorem locationOf_eq (present : tables.tagToLocation tag = some location) :
    tables.locationOf tag = location := by
  unfold locationOf
  rw [present, Option.getD_some]

theorem markDeleted_eq (present : tables.tagToLocation tag = some location) :
    tables.markDeleted tag = { tables with deleteSet := insert location tables.deleteSet } := by
  unfold markDeleted
  rw [locationOf_eq present, ← present, Function.update_eq_self]

theorem eraseTag_eq (present : tables.tagToLocation tag = some location) :
    tables.eraseTag tag =
      { tables with
        locationToTag := Function.update tables.locationToTag location none
        tagToLocation := Function.update tables.tagToLocation tag none } := by
  unfold eraseTag
  rw [locationOf_eq present]

theorem replaceTag_eq (present : tables.tagToLocation tag = some location) :
    tables.replaceTag tag =
      { tables with
        deleteSet := insert location tables.deleteSet
        locationToTag := Function.update tables.locationToTag location none
        tagToLocation := Function.update tables.tagToLocation tag none
        lazyDone := true } := by
  have marked : (tables.markDeleted tag).tagToLocation tag = some location := by
    rw [markDeleted_eq present]
    exact present
  unfold replaceTag
  rw [eraseTag_eq marked, markDeleted_eq present]

end Tags

end IndexTables

end OdinVector
