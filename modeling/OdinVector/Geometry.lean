/-
This file is the arithmetic of the disk layout: which sector holds a location
and which record of the sector it is. A location counts records from the first
data sector; sector 0 is the file header. Only layouts that put whole records
into a sector are described (`nnodes_per_sector` positive): with longer records
`load_page_layout` already divides by zero.

Identifiers, locations and page numbers are natural numbers here. The source
keeps them in 32-bit fields.
-/

import Mathlib.Tactic.Common
import Mathlib.Algebra.Order.Ring.Nat

namespace OdinVector

/-- `DIV_ROUND_UP`. -/
def divRoundUp (x y : Nat) : Nat := x / y + if x % y = 0 then 0 else 1

/-- `ROUND_UP`. -/
def roundUp (x y : Nat) : Nat := divRoundUp x y * y

theorem le_divRoundUp_mul (x : Nat) {y : Nat} (positive : 0 < y) : x ≤ divRoundUp x y * y := by
  unfold divRoundUp
  have whole := Nat.div_add_mod x y
  have below := Nat.mod_lt x positive
  rw [Nat.add_mul, Nat.mul_comm (x / y)]
  split <;> omega

theorem divRoundUp_mul_lt (x : Nat) {y : Nat} (positive : 0 < y) :
    divRoundUp x y * y < x + y := by
  unfold divRoundUp
  have whole := Nat.div_add_mod x y
  rw [Nat.add_mul, Nat.mul_comm (x / y)]
  split <;> omega

/-- How many records a sector holds. -/
structure Geometry where
  /-- `nnodes_per_sector` of the index header. -/
  nnodesPerSector : Nat
  nnodesPerSector_pos : 0 < nnodesPerSector

namespace Geometry

variable (geometry : Geometry)

/-- `loc_sector_no`: the sector that holds a location. -/
def locSectorNo (loc : Nat) : Nat := 1 + loc / geometry.nnodesPerSector

/-- `sector_to_loc`: the location of a record of a sector. -/
def sectorToLoc (sectorNo sectorOff : Nat) : Nat :=
  (sectorNo - 1) * geometry.nnodesPerSector + sectorOff

/-- The record of its sector that a location is. `offset_to_loc` scales it by the record
length. -/
def slotOf (loc : Nat) : Nat := loc % geometry.nnodesPerSector

theorem locSectorNo_pos (loc : Nat) : 1 ≤ geometry.locSectorNo loc :=
  Nat.le_add_right 1 _

theorem locSectorNo_zero : geometry.locSectorNo 0 = 1 := by
  rw [locSectorNo, Nat.zero_div]

theorem locSectorNo_sub (loc : Nat) :
    geometry.locSectorNo loc - geometry.locSectorNo 0 = loc / geometry.nnodesPerSector := by
  rw [locSectorNo_zero, locSectorNo, Nat.add_sub_cancel_left]

theorem slotOf_lt (loc : Nat) : geometry.slotOf loc < geometry.nnodesPerSector :=
  Nat.mod_lt _ geometry.nnodesPerSector_pos

/-- A location is read back from its sector and its place in it. -/
theorem sectorToLoc_locSectorNo (loc : Nat) :
    geometry.sectorToLoc (geometry.locSectorNo loc) (geometry.slotOf loc) = loc := by
  rw [sectorToLoc, locSectorNo, slotOf, Nat.add_sub_cancel_left, Nat.mul_comm]
  exact Nat.div_add_mod loc geometry.nnodesPerSector

variable {geometry} in
theorem locSectorNo_sectorToLoc {sectorNo sectorOff : Nat} (data : 1 ≤ sectorNo)
    (inside : sectorOff < geometry.nnodesPerSector) :
    geometry.locSectorNo (geometry.sectorToLoc sectorNo sectorOff) = sectorNo := by
  rw [locSectorNo, sectorToLoc, Nat.mul_comm, Nat.mul_add_div geometry.nnodesPerSector_pos,
    Nat.div_eq_of_lt inside]
  omega

variable {geometry} in
theorem slotOf_sectorToLoc (sectorNo : Nat) {sectorOff : Nat}
    (inside : sectorOff < geometry.nnodesPerSector) :
    geometry.slotOf (geometry.sectorToLoc sectorNo sectorOff) = sectorOff := by
  rw [slotOf, sectorToLoc, Nat.add_comm, Nat.add_mul_mod_self_right, Nat.mod_eq_of_lt inside]

variable {geometry} in
/-- A location is determined by its sector and its place in it. -/
theorem eq_of_sector_of_slot {first second : Nat}
    (sector : geometry.locSectorNo first = geometry.locSectorNo second)
    (slot : geometry.slotOf first = geometry.slotOf second) : first = second := by
  rw [← geometry.sectorToLoc_locSectorNo first, sector, slot,
    geometry.sectorToLoc_locSectorNo second]

variable {geometry} in
theorem sectorToLoc_injective {sectorNo first second : Nat}
    (same : geometry.sectorToLoc sectorNo first = geometry.sectorToLoc sectorNo second) :
    first = second :=
  Nat.add_left_cancel same

variable {geometry} in
/-- With the tail aligned, the sectors up to the last full one hold the locations below it. -/
theorem lt_of_locSectorNo_le {loc tail : Nat} (aligned : geometry.nnodesPerSector ∣ tail)
    (sector : geometry.locSectorNo loc ≤ tail / geometry.nnodesPerSector) : loc < tail := by
  obtain ⟨count, rfl⟩ := aligned
  rw [Nat.mul_div_cancel_left _ geometry.nnodesPerSector_pos, locSectorNo] at sector
  have below : loc / geometry.nnodesPerSector < count := by omega
  rw [Nat.mul_comm]
  exact (Nat.div_lt_iff_lt_mul geometry.nnodesPerSector_pos).mp below

variable {geometry} in
/-- With the tail aligned, locations below it lie in the sectors up to the last full one. -/
theorem locSectorNo_le_of_lt {loc tail : Nat} (aligned : geometry.nnodesPerSector ∣ tail)
    (below : loc < tail) : geometry.locSectorNo loc ≤ tail / geometry.nnodesPerSector := by
  obtain ⟨count, rfl⟩ := aligned
  rw [Nat.mul_comm] at below
  have quotient : loc / geometry.nnodesPerSector < count :=
    (Nat.div_lt_iff_lt_mul geometry.nnodesPerSector_pos).mpr below
  rw [Nat.mul_div_cancel_left _ geometry.nnodesPerSector_pos, locSectorNo]
  omega

end Geometry

end OdinVector
