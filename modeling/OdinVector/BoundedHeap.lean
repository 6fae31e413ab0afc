/-
This file is a small library of heaps that keep the least elements pushed to them. A
heap is the sorted list of its elements, so the greatest one is the last. Once the heap
is full, an element goes in for the greatest one when its key is less than the key of
that one.

The order may be finer than the keys; what is kept is least in the keys.
-/

import Mathlib.Data.List.Sort
import Mathlib.Order.Defs.LinearOrder

namespace BoundedHeap

variable {Element Key : Type} [LinearOrder Key] (key : Element → Key)
variable (order : Element → Element → Prop) [DecidableRel order]

/-- Push an element to a heap that keeps at most `size`. -/
def push (size : Nat) (heap : List Element) (element : Element) : List Element :=
  if heap.length < size then heap.orderedInsert order element
  else
    match heap.getLast? with
    | none => heap
    | some top =>
      if key element < key top then heap.dropLast.orderedInsert order element else heap

/-- Push elements in turn. -/
def pushAll (size : Nat) (heap : List Element) (elements : List Element) : List Element :=
  elements.foldl (push key order size) heap

variable {key order} in
/-- What is in a heap was there or is pushed. -/
theorem mem_push {size : Nat} {heap : List Element} {element other : Element}
    (member : other ∈ push key order size heap element) : other = element ∨ other ∈ heap := by
  unfold push at member
  split at member
  · exact (List.mem_orderedInsert order).mp member
  split at member
  · exact Or.inr member
  split at member
  · obtain rfl | before := (List.mem_orderedInsert order).mp member
    · exact Or.inl rfl
    · exact Or.inr ((List.dropLast_sublist heap).subset before)
  · exact Or.inr member

/-- The heap has the least `size` of all the elements that were pushed. -/
structure KeepsLeast (size : Nat) (pushed : List Element) (heap : List Element) : Prop where
  sorted : heap.Pairwise order
  length : heap.length = min size pushed.length
  split : ∃ dropped, (heap ++ dropped).Perm pushed ∧
    ∀ kept ∈ heap, ∀ element ∈ dropped, key kept ≤ key element

omit [DecidableRel order] in
theorem keepsLeast_nil (size : Nat) : KeepsLeast key order size [] [] where
  sorted := List.Pairwise.nil
  length := (Nat.min_zero size).symm
  split := ⟨[], List.Perm.refl _, nofun⟩

variable {key order}
variable {size : Nat} {pushed heap : List Element}

omit [DecidableRel order] in
/-- A heap that is not full has dropped nothing. -/
theorem KeepsLeast.perm (keeps : KeepsLeast key order size pushed heap)
    (room : heap.length < size) : heap.Perm pushed := by
  obtain ⟨dropped, all, -⟩ := keeps.split
  have length := all.length_eq
  rw [List.length_append] at length
  have nothing : dropped = [] := by
    apply List.eq_nil_of_length_eq_zero
    have kept := keeps.length
    omega
  rw [nothing, List.append_nil] at all
  exact all

section

variable [Std.Total order] [IsTrans Element order]
variable (finer : ∀ first second, order first second → key first ≤ key second)
include finer

theorem KeepsLeast.push (keeps : KeepsLeast key order size pushed heap) (element : Element) :
    KeepsLeast key order size (pushed ++ [element]) (push key order size heap element) := by
  have length := keeps.length
  unfold BoundedHeap.push
  split
  · rename_i room
    have all := keeps.perm room
    refine ⟨keeps.sorted.orderedInsert element heap, ?_, [], ?_, nofun⟩
    · rw [List.orderedInsert_length, List.length_append, List.length_singleton]
      omega
    · rw [List.append_nil]
      refine (List.perm_orderedInsert order element heap).trans ?_
      exact (all.cons element).trans (List.perm_append_singleton element pushed).symm
  · rename_i full
    obtain ⟨dropped, all, least⟩ := keeps.split
    have tail : (pushed ++ [element]).length = pushed.length + 1 := List.length_append
    split
    · rename_i none
      have empty : heap = [] := List.getLast?_eq_none_iff.mp none
      subst empty
      refine ⟨keeps.sorted, ?_, dropped ++ [element], ?_, nofun⟩
      · rw [tail]
        omega
      · exact (all.append_right [element])
    · rename_i top last
      have shape : heap = heap.dropLast ++ [top] := (List.dropLast_append_getLast? top last).symm
      have below : ∀ kept ∈ heap, key kept ≤ key top := by
        intro kept member
        have sorted := keeps.sorted
        rw [shape] at member sorted
        obtain before | top' := List.mem_append.mp member
        · exact finer kept top (List.pairwise_append.mp sorted |>.2.2 kept before top
            (List.mem_singleton_self top))
        · rw [List.mem_singleton.mp top']
      have topIn : top ∈ heap := by
        rw [shape]
        exact List.mem_append_right _ (List.mem_singleton_self top)
      split
      · rename_i nearer
        have sub : heap.dropLast ⊆ heap := (List.dropLast_sublist heap).subset
        have cut : heap.length = heap.dropLast.length + 1 := by
          conv_lhs => rw [shape]
          exact List.length_append
        refine ⟨(keeps.sorted.sublist (List.dropLast_sublist heap)).orderedInsert element _, ?_,
          top :: dropped, ?_, ?_⟩
        · rw [List.orderedInsert_length, tail]
          omega
        · have moved : (heap.dropLast ++ (top :: dropped)).Perm pushed := by
            rw [List.append_cons, ← shape]
            exact all
          refine ((List.perm_orderedInsert order element heap.dropLast).append_right _).trans ?_
          exact (moved.cons element).trans (List.perm_append_singleton element pushed).symm
        · intro kept member other gone
          have bound : key kept ≤ key top := by
            obtain rfl | before := (List.mem_orderedInsert order).mp member
            · exact nearer.le
            · exact below kept (sub before)
          obtain rfl | before := List.mem_cons.mp gone
          · exact bound
          · exact bound.trans (least top topIn other before)
      · rename_i farther
        refine ⟨keeps.sorted, ?_, element :: dropped, ?_, ?_⟩
        · rw [tail]
          omega
        · refine List.perm_middle.trans ?_
          exact (all.cons element).trans (List.perm_append_singleton element pushed).symm
        · intro kept member other gone
          obtain rfl | before := List.mem_cons.mp gone
          · exact (below kept member).trans (not_lt.mp farther)
          · exact least kept member other before

theorem KeepsLeast.pushAll (keeps : KeepsLeast key order size pushed heap)
    (elements : List Element) :
    KeepsLeast key order size (pushed ++ elements) (pushAll key order size heap elements) := by
  induction elements generalizing pushed heap with
  | nil =>
    rw [List.append_nil]
    exact keeps
  | cons element rest inductionHypothesis =>
    rw [List.append_cons]
    exact inductionHypothesis (keeps.push finer element)

end

end BoundedHeap
