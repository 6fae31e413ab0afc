/-
This file is a small library of rings of slots. The values that are sent take the slots in
turn, so a slot keeps a value until as many more were sent as there are slots. What was
sent is a list here, and the slots are a function of the number of the slot.
-/

import Mathlib.Data.List.Nodup
import Mathlib.Data.List.Range
import Mathlib.Data.Nat.ModEq
import Mathlib.Logic.Function.Basic

namespace SlotRing

variable {Value : Type} {size : Nat} {log : List Value} {slots : Nat → Value}

/-- The slots hold the values that were sent last. -/
def Holds (size : Nat) (log : List Value) (slots : Nat → Value) : Prop :=
  ∀ k value, log[k]? = some value → log.length ≤ k + size → slots (k % size) = value

/-- Two of as many turns in a row as there are slots have different slots. -/
theorem mod_injOn {first second start count : Nat} (narrow : count ≤ size)
    (inFirst : start ≤ first ∧ first < start + count)
    (inSecond : start ≤ second ∧ second < start + count)
    (same : first % size = second % size) : first = second := by
  have close : ∀ {low high : Nat}, low ≤ high → high < low + size → low % size = high % size →
      low = high := by
    intro low high ordered near equal
    have split : size ∣ high - low := (Nat.modEq_iff_dvd' ordered).mp equal
    have zero := Nat.eq_zero_of_dvd_of_lt split (by omega)
    omega
  obtain ordered | ordered := Nat.le_total first second
  · exact close ordered (by omega) same
  · exact (close ordered (by omega) same.symm).symm

/-- The slots of as many turns in a row as there are slots are different. -/
theorem nodup_turns (start : Nat) {count : Nat} (narrow : count ≤ size) :
    ((List.range' start count).map (· % size)).Nodup := by
  refine (List.nodup_map_iff_inj_on List.nodup_range').mpr ?_
  intro first inFirst second inSecond same
  exact mod_injOn narrow (List.mem_range'_1.mp inFirst) (List.mem_range'_1.mp inSecond) same

theorem Holds.send (holds : Holds size log slots) (value : Value) :
    Holds size (log ++ [value]) (Function.update slots (log.length % size) value) := by
  intro k other there near
  rw [List.length_append, List.length_singleton] at near
  obtain before | last := Nat.lt_or_ge k log.length
  · rw [List.getElem?_append_left before] at there
    have different : k % size ≠ log.length % size := by
      intro same
      have span : log.length + 1 - k ≤ size := by omega
      have equal : k = log.length :=
        mod_injOn span ⟨le_rfl, by omega⟩ ⟨before.le, by omega⟩ same
      exact absurd equal before.ne
    rw [Function.update_of_ne different]
    exact holds k other there (by omega)
  · rw [List.getElem?_append_right last, List.getElem?_singleton] at there
    obtain ⟨none, same⟩ := Option.ite_none_right_eq_some.mp there
    have place : k = log.length := by omega
    rw [place, Function.update_self]
    exact Option.some.inj same

/-- Where no value is sent twice, a slot has a value no longer than that. -/
theorem Holds.slot_eq_iff (holds : Holds size log slots) (once : log.Nodup) (positive : 0 < size)
    {k : Nat} {value : Value} (there : log[k]? = some value) :
    slots (k % size) = value ↔ log.length ≤ k + size := by
  refine ⟨fun same => ?_, holds k value there⟩
  by_contra later
  -- The last turn that had the slot of this one.
  let last := log.length - 1 - (log.length - 1 - k) % size
  have below := Nat.mod_lt (log.length - 1 - k) positive
  have inside : last < log.length := by omega
  have multiple : last = k + size * ((log.length - 1 - k) / size) := by
    have split := Nat.div_add_mod (log.length - 1 - k) size
    omega
  have slot : last % size = k % size := by
    rw [multiple, Nat.add_mul_mod_self_left]
  have held := holds last log[last] (List.getElem?_eq_getElem inside) (by omega)
  rw [slot, same] at held
  obtain ⟨here, rfl⟩ := List.getElem?_eq_some_iff.mp there
  have place := (List.Nodup.getElem_inj_iff once).mp held
  omega

end SlotRing
