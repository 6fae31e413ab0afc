/-
This file is a small library of lists of the nearest items. Items are seen one after
the other; the list is sorted by a key, has no item twice, and holds as many of the
items that were seen as the limit allows, those with the least keys.

A new item goes in at a place where it keeps the list sorted, and the list is cut to
the limit again. Ties may be broken in any way.
-/

import Mathlib.Data.Finset.Card
import Mathlib.Data.List.Nodup
import Mathlib.Order.Defs.LinearOrder

namespace NearestList

variable {Item Key : Type}

/-! ### Insertion at a place -/

/-- An item at a place of a list, with what was there behind it. -/
def insertAt (list : List Item) (place : Nat) (item : Item) : List Item :=
  list.take place ++ item :: list.drop place

theorem perm_insertAt (list : List Item) (place : Nat) (item : Item) :
    (insertAt list place item).Perm (item :: list) := by
  have middle : (insertAt list place item).Perm (item :: (list.take place ++ list.drop place)) :=
    List.perm_middle
  rwa [List.take_append_drop] at middle

theorem mem_insertAt {list : List Item} {place : Nat} {item other : Item} :
    other ∈ insertAt list place item ↔ other = item ∨ other ∈ list :=
  (perm_insertAt list place item).mem_iff.trans List.mem_cons

@[simp] theorem length_insertAt (list : List Item) (place : Nat) (item : Item) :
    (insertAt list place item).length = list.length + 1 :=
  (perm_insertAt list place item).length_eq

/-- What is before the place stays. -/
theorem take_insertAt {list : List Item} {place count : Nat} {item : Item} (before : count ≤ place)
    (inside : place ≤ list.length) : (insertAt list place item).take count = list.take count := by
  unfold insertAt
  rw [List.take_append_of_le_length (by rw [List.length_take]; omega), List.take_take,
    Nat.min_eq_left before]

theorem map_insertAt {Other : Type} (map : Item → Other) (list : List Item) (place : Nat)
    (item : Item) : (insertAt list place item).map map = insertAt (list.map map) place (map item) := by
  unfold insertAt
  rw [List.map_append, List.map_take, List.map_cons, List.map_drop]

variable [LinearOrder Key] (key : Item → Key)

/-- The keys do not fall. -/
def Sorted (list : List Item) : Prop :=
  list.Pairwise fun first second => key first ≤ key second

/-- A place where an item keeps the list sorted. -/
structure Fits (list : List Item) (place : Nat) (item : Item) : Prop where
  inside : place ≤ list.length
  before : ∀ other ∈ list.take place, key other ≤ key item
  behind : ∀ other ∈ list.drop place, key item ≤ key other

variable {key}
variable {list : List Item} {place : Nat} {item : Item}

theorem Fits.sorted (fits : Fits key list place item) (sorted : Sorted key list) :
    Sorted key (insertAt list place item) := by
  unfold Sorted insertAt
  have halves : (list.take place ++ list.drop place).Pairwise
      fun first second => key first ≤ key second := by
    rw [List.take_append_drop]
    exact sorted
  rw [List.pairwise_append] at halves ⊢
  obtain ⟨first, second, between⟩ := halves
  refine ⟨first, List.pairwise_cons.mpr ⟨fits.behind, second⟩, fun low inFirst high member => ?_⟩
  obtain rfl | inSecond := List.mem_cons.mp member
  · exact fits.before low inFirst
  · exact between low inFirst high inSecond

theorem Sorted.take_le_drop (sorted : Sorted key list) (count : Nat) :
    ∀ low ∈ list.take count, ∀ high ∈ list.drop count, key low ≤ key high := by
  have halves : (list.take count ++ list.drop count).Pairwise
      fun first second => key first ≤ key second := by
    rw [List.take_append_drop]
    exact sorted
  exact (List.pairwise_append.mp halves).2.2

/-! ### The nearest items -/

/-- The list of the nearest items of those that were seen. -/
structure Nearest (key : Item → Key) (limit : Nat) (seen : Finset Item) (list : List Item) :
    Prop where
  sorted : Sorted key list
  nodup : list.Nodup
  subset : ∀ item ∈ list, item ∈ seen
  length : list.length = min limit seen.card
  nearest : ∀ item ∈ seen, item ∉ list → ∀ near ∈ list, key near ≤ key item

variable {limit : Nat} {seen : Finset Item}

theorem nearest_singleton (some : 0 < limit) (item : Item) : Nearest key limit {item} [item] where
  sorted := List.pairwise_singleton _ item
  nodup := List.nodup_singleton item
  subset other member := Finset.mem_singleton.mpr (List.mem_singleton.mp member)
  length := by
    rw [Finset.card_singleton, Nat.min_eq_right some]
    rfl
  nearest other isSeen absent :=
    absurd (List.mem_singleton.mpr (Finset.mem_singleton.mp isSeen)) absent

variable [DecidableEq Item]

/-- While the list is shorter than the limit it has all that was seen. -/
theorem Nearest.mem_of_short (nearest : Nearest key limit seen list) (short : list.length < limit)
    (isSeen : item ∈ seen) : item ∈ list := by
  have all : list.toFinset = seen := by
    refine Finset.eq_of_subset_of_card_le (fun other member =>
      nearest.subset other (List.mem_toFinset.mp member)) ?_
    rw [List.toFinset_card_of_nodup nearest.nodup, nearest.length]
    have length := nearest.length
    omega
  exact List.mem_toFinset.mp (all ▸ isSeen)

/-- An item that is not nearer than those of a full list is left out. -/
theorem Nearest.skip (nearest : Nearest key limit seen list) (full : list.length = limit)
    (fresh : item ∉ seen) (far : ∀ near ∈ list, key near ≤ key item) :
    Nearest key limit (insert item seen) list where
  sorted := nearest.sorted
  nodup := nearest.nodup
  subset other member := Finset.mem_insert_of_mem (nearest.subset other member)
  length := by
    have length := nearest.length
    rw [Finset.card_insert_of_notMem fresh]
    omega
  nearest other isSeen absent near member := by
    obtain rfl | before := Finset.mem_insert.mp isSeen
    · exact far near member
    · exact nearest.nearest other before absent near member

/-- A nearer item goes in, and the list is cut to the limit. -/
theorem Nearest.insertAt (nearest : Nearest key limit seen list) (fresh : item ∉ seen)
    (fits : Fits key list place item)
    (room : list.length < limit ∨ ∃ near ∈ list, key item < key near) :
    Nearest key limit (insert item seen) ((insertAt list place item).take
      (if list.length < limit then list.length + 1 else list.length)) := by
  have length := nearest.length
  have sorted := fits.sorted nearest.sorted
  have all := perm_insertAt list place item
  have absent : item ∉ list := fun member => fresh (nearest.subset item member)
  have nodup : (NearestList.insertAt list place item).Nodup :=
    all.nodup_iff.mpr (List.nodup_cons.mpr ⟨absent, nearest.nodup⟩)
  generalize size : (if list.length < limit then list.length + 1 else list.length) = count
  have cut := List.take_sublist count (NearestList.insertAt list place item)
  refine ⟨sorted.sublist cut, nodup.sublist cut, fun other member => ?_, ?_,
    fun other isSeen left near member => ?_⟩
  · obtain rfl | before := mem_insertAt.mp (cut.subset member)
    · exact Finset.mem_insert_self other seen
    · exact Finset.mem_insert_of_mem (nearest.subset other before)
  · rw [List.length_take, length_insertAt, Finset.card_insert_of_notMem fresh, ← size]
    split <;> omega
  · by_cases inside : other ∈ NearestList.insertAt list place item
    · -- It is behind the cut.
      rw [← List.take_append_drop count (NearestList.insertAt list place item),
        List.mem_append] at inside
      exact sorted.take_le_drop count near member other (inside.resolve_left left)
    · have outside : other ≠ item ∧ other ∉ list := not_or.mp fun either =>
        inside (mem_insertAt.mpr either)
      have before := (Finset.mem_insert.mp isSeen).resolve_left outside.1
      obtain short | ⟨farther, there, less⟩ := room
      · exact absurd (nearest.mem_of_short short before) outside.2
      · obtain rfl | old := mem_insertAt.mp (cut.subset member)
        · exact less.le.trans (nearest.nearest other before outside.2 farther there)
        · exact nearest.nearest other before outside.2 near old

end NearestList
