/-
This file models `FixedChunkPQTable` in exact arithmetic: its arrays as they are loaded, the
encoder `deflate_vec` and the scan for the nearest centre that all encoders use.

An array is a function of the place in it. The scan starts from the largest `float`, so that
a vector that is farther from every centre leaves what was there.
-/

import OdinVector.Pq.PqArray
import Mathlib.Algebra.BigOperators.Intervals
import Mathlib.Tactic.Ring

namespace OdinVector

open Finset

/-- `FixedChunkPQTable`, as `load_pq_pivots_new` reads it from a file of `generate_pq_pivots`:
the chunks are not empty and have all dimensions, and the rearrangement is a permutation. -/
structure PqTable (Scalar : Type*) where
  tables : Nat → Scalar
  centroid : Nat → Scalar
  ndims : Nat
  nChunks : Nat
  chunkOffsets : Nat → Nat
  rearrangement : Nat → Nat
  offsets_zero : chunkOffsets 0 = 0
  offsets_lt : ∀ chunk < nChunks, chunkOffsets chunk < chunkOffsets (chunk + 1)
  offsets_last : chunkOffsets nChunks = ndims
  rearrangement_lt : ∀ dim < ndims, rearrangement dim < ndims
  rearrangement_injective : ∀ first < ndims, ∀ second < ndims,
    rearrangement first = rearrangement second → first = second

/-! ### Flat arrays -/

/-- The row of a place in a flat array. -/
theorem div_row {columns column : Nat} (inside : column < columns) (row : Nat) :
    (row * columns + column) / columns = row := by
  have positive : 0 < columns := (Nat.zero_le column).trans_lt inside
  rw [Nat.mul_comm, Nat.mul_add_div positive, Nat.div_eq_of_lt inside, Nat.add_zero]

/-- Blocks behind each other have all that they share out. -/
theorem flatMap_blocks {Entry : Type*} (entry : Nat → Entry) (size total count : Nat) :
    ((List.range count).flatMap fun block =>
      (List.range (min ((block + 1) * size) total - block * size)).map fun index =>
        entry (block * size + index)) = (List.range (min (count * size) total)).map entry := by
  induction count with
  | zero => rw [Nat.zero_mul, Nat.zero_min, List.range_zero, List.flatMap_nil, List.map_nil]
  | succ count inductionHypothesis =>
    rw [List.range_succ, List.flatMap_append, inductionHypothesis, List.flatMap_singleton]
    have grows : count * size ≤ (count + 1) * size := Nat.mul_le_mul_right size (Nat.le_succ count)
    obtain behind | within := Nat.le_total total (count * size)
    · rw [Nat.min_eq_right behind, Nat.min_eq_right (behind.trans grows),
        Nat.sub_eq_zero_of_le behind, List.range_zero, List.map_nil, List.append_nil]
    · have last : count * size + (min ((count + 1) * size) total - count * size) =
          min ((count + 1) * size) total := by omega
      rw [Nat.min_eq_left within]
      conv_rhs => rw [← last, List.range_add, List.map_append, List.map_map]
      rfl

/-! ### The nearest centre -/

section Scan

variable {Scalar : Type*} [LinearOrder Scalar]

/-- The scan over some centres, with the best of them and its distance. -/
def scanCenters (dist : Nat → Scalar) (start : Nat × Scalar) (count : Nat) : Nat × Scalar :=
  (List.range count).foldl (fun best center =>
    if dist center < best.2 then (center, dist center) else best) start

variable {dist : Nat → Scalar}

theorem scanCenters_succ (start : Nat × Scalar) (count : Nat) :
    scanCenters dist start (count + 1) =
      if dist count < (scanCenters dist start count).2 then (count, dist count)
      else scanCenters dist start count := by
  unfold scanCenters
  rw [List.range_succ, List.foldl_append, List.foldl_cons, List.foldl_nil]

theorem scanCenters_congr {other : Nat → Scalar} {count : Nat} (start : Nat × Scalar)
    (same : ∀ center < count, dist center = other center) :
    scanCenters dist start count = scanCenters other start count := by
  refine List.foldl_ext _ _ _ fun best center member => ?_
  rw [same center (List.mem_range.mp member)]

/-- Two scans that start from one distance find one, and one centre once there is a nearer one. -/
theorem scanCenters_start {fltMax : Scalar} (first second count : Nat) :
    (scanCenters dist (first, fltMax) count).2 = (scanCenters dist (second, fltMax) count).2 ∧
      ((∃ center < count, dist center < fltMax) →
        (scanCenters dist (first, fltMax) count).1 =
          (scanCenters dist (second, fltMax) count).1) ∧
      ((scanCenters dist (first, fltMax) count).2 = fltMax ∨
        ∃ center < count, dist center < fltMax) := by
  induction count with
  | zero =>
    exact ⟨rfl, fun ⟨center, below, _⟩ => absurd below (Nat.not_lt_zero center), Or.inl rfl⟩
  | succ count inductionHypothesis =>
    obtain ⟨distances, centers, bound⟩ := inductionHypothesis
    rw [scanCenters_succ, scanCenters_succ, ← distances]
    by_cases nearer : dist count < (scanCenters dist (first, fltMax) count).2
    · rw [if_pos nearer, if_pos nearer]
      refine ⟨rfl, fun _ => rfl, Or.inr ?_⟩
      obtain start | ⟨center, below, near⟩ := bound
      · exact ⟨count, Nat.lt_succ_self count, start ▸ nearer⟩
      · exact ⟨center, below.trans (Nat.lt_succ_self count), near⟩
    · rw [if_neg nearer, if_neg nearer]
      refine ⟨distances, fun ⟨center, below, near⟩ => centers ?_, bound.imp_right
        fun ⟨center, below, near⟩ => ⟨center, below.trans (Nat.lt_succ_self count), near⟩⟩
      obtain inside | rfl := Nat.lt_succ_iff_lt_or_eq.mp below
      · exact ⟨center, inside, near⟩
      · exact bound.resolve_left fun start => nearer (near.trans_eq start.symm)

/-- No centre is nearer than the start. -/
theorem scanCenters_far {start : Nat × Scalar} {count : Nat}
    (far : ∀ center < count, ¬ dist center < start.2) : scanCenters dist start count = start := by
  induction count with
  | zero => rfl
  | succ count inductionHypothesis =>
    have before := inductionHypothesis fun center below =>
      far center (below.trans (Nat.lt_succ_self count))
    rw [scanCenters_succ, before, if_neg (far count (Nat.lt_succ_self count))]

end Scan

/-! ### Chunks -/

namespace PqTable

section Chunks

variable {Scalar : Type*}

/-- The places of a chunk in the rearranged vector. -/
def dims (table : PqTable Scalar) (chunk : Nat) : Finset Nat :=
  Ico (table.chunkOffsets chunk) (table.chunkOffsets (chunk + 1))

variable {table : PqTable Scalar}

theorem chunkOffsets_mono {first second : Nat} (le : first ≤ second)
    (inside : second ≤ table.nChunks) : table.chunkOffsets first ≤ table.chunkOffsets second := by
  induction second, le using Nat.le_induction with
  | base => exact le_rfl
  | succ second _ inductionHypothesis =>
    exact (inductionHypothesis (Nat.le_of_succ_le inside)).trans
      (table.offsets_lt second inside).le

theorem lt_ndims_of_mem_dims {chunk dim : Nat} (inside : chunk < table.nChunks)
    (member : dim ∈ table.dims chunk) : dim < table.ndims := by
  have last := @chunkOffsets_mono _ table _ _ inside le_rfl
  rw [table.offsets_last] at last
  exact (mem_Ico.mp member).2.trans_le last

end Chunks

/-! ### The encoder of inserts -/

variable {Scalar : Type*} [CommRing Scalar] [LinearOrder Scalar] (table : PqTable Scalar)

/-- `cur_dist` in `deflate_vec`. -/
def deflateDist (vec : Nat → Scalar) (chunk center : Nat) : Scalar :=
  ∑ dim ∈ table.dims chunk,
    (table.tables (center * table.ndims + dim) -
      (vec (table.rearrangement dim) - table.centroid (table.rearrangement dim))) *
    (table.tables (center * table.ndims + dim) -
      (vec (table.rearrangement dim) - table.centroid (table.rearrangement dim)))

/-- `deflate_vec` into an array. -/
def deflateVec (fltMax : Scalar) (vec : Nat → Scalar) (outPqVec : Nat → UInt8) (chunk : Nat) :
    UInt8 :=
  UInt8.ofNat (scanCenters (table.deflateDist vec chunk) ((outPqVec chunk).toNat, fltMax) 256).1

/-- `deflate_vector`. -/
def deflateVector (fltMax : Scalar) (vec : Nat → Scalar) : List UInt8 :=
  (List.range table.nChunks).map (table.deflateVec fltMax vec fun _ => 0)

end PqTable

end OdinVector
