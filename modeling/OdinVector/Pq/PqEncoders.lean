/-
This file models the encoder of the build, `generate_pq_data_from_pivots` with
`compute_closest_centers`, in exact arithmetic, and proves when it writes the code that
`deflate_vector` gives an inserted vector.

A block of vectors is centred and permuted, each chunk of it is copied to its own array, and
the squared distances are `‖x‖² + ‖c‖² - 2 x·c`, summed up by three matrix products. Memory
that is allocated without being written has arbitrary contents.
-/

import OdinVector.Pq.PqTable
import Mathlib.Algebra.BigOperators.Ring.Finset

namespace OdinVector

open Finset

section Blas

variable {Scalar : Type*} [CommRing Scalar]

/-- `cblas_sgemm` of a matrix with the transpose of another one, both with rows of `inner`
entries, added to a matrix with rows of `columns` entries. -/
def sgemm (columns inner : Nat) (alpha : Scalar) (a b : Nat → Scalar) (beta : Scalar)
    (c : Nat → Scalar) (index : Nat) : Scalar :=
  alpha * ∑ place ∈ range inner,
    a (index / columns * inner + place) * b (index % columns * inner + place) + beta * c index

/-- `compute_vecs_l2sq`. -/
def computeVecsL2sq (data : Nat → Scalar) (dim row : Nat) : Scalar :=
  ∑ place ∈ range dim, data (row * dim + place) * data (row * dim + place)

/-- `dist_matrix` in `compute_closest_centers_in_block`. -/
def distMatrix (data : Nat → Scalar) (dim : Nat) (centers : Nat → Scalar) (numCenters : Nat)
    (docsL2sq centersL2sq memory : Nat → Scalar) : Nat → Scalar :=
  let docs := sgemm numCenters 1 1 docsL2sq (fun _ => 1) 0 memory
  let norms := sgemm numCenters 1 1 (fun _ => 1) centersL2sq 1 docs
  sgemm numCenters dim (-2) data centers 1 norms

end Blas

section Centers

variable {Scalar : Type*} [CommRing Scalar] [LinearOrder Scalar] (fltMax : Scalar)

/-- `compute_closest_centers_in_block` with `k = 1`. -/
def computeClosestCentersInBlock (data : Nat → Scalar) (numPoints dim : Nat)
    (centers : Nat → Scalar) (numCenters : Nat) (docsL2sq centersL2sq : Nat → Scalar)
    (centerIndex : Nat → Nat) (memory : Nat → Scalar) (point : Nat) : Nat :=
  let current := distMatrix data dim centers numCenters docsL2sq centersL2sq memory
  if point < numPoints then
    (scanCenters (fun center => current (point * numCenters + center)) (centerIndex point, fltMax)
      numCenters).1
  else centerIndex point

/-- `closest_centers` in `compute_closest_centers` after a block, with what the array held when it
was allocated. The blocks are written over each other. -/
def closestCenters (data : Nat → Scalar) (numPoints dim : Nat) (pivotData : Nat → Scalar)
    (numCenters parBlockSize : Nat) (allocated : Nat → Nat) (memory : Nat → Nat → Scalar) :
    Nat → Nat → Nat
  | 0 => computeClosestCentersInBlock fltMax data (min parBlockSize numPoints) dim pivotData
      numCenters (computeVecsL2sq data dim) (computeVecsL2sq pivotData dim) allocated (memory 0)
  | curBlk + 1 =>
    computeClosestCentersInBlock fltMax
      (fun index => data ((curBlk + 1) * parBlockSize * dim + index))
      (min parBlockSize (numPoints - (curBlk + 1) * parBlockSize)) dim pivotData numCenters
      (fun point => computeVecsL2sq data dim ((curBlk + 1) * parBlockSize + point))
      (computeVecsL2sq pivotData dim)
      (closestCenters data numPoints dim pivotData numCenters parBlockSize allocated memory curBlk)
      (memory (curBlk + 1))

/-- `compute_closest_centers` with `k = 1`. -/
def computeClosestCenters (data : Nat → Scalar) (numPoints dim : Nat) (pivotData : Nat → Scalar)
    (numCenters : Nat) (allocated : Nat → Nat) (memory : Nat → Nat → Scalar) (point : Nat) : Nat :=
  let parBlockSize := min (2 ^ 23) numPoints
  closestCenters fltMax data numPoints dim pivotData numCenters parBlockSize allocated memory
    (point / parBlockSize) (point - point / parBlockSize * parBlockSize)

end Centers

/-! ### The encoder of the build -/

/-- The arrays that `compute_closest_centers` allocates for a block and a chunk. -/
structure Allocations (Scalar : Type*) where
  closestCenters : Nat → Nat → Nat → Nat
  distanceMatrix : Nat → Nat → Nat → Nat → Scalar

namespace PqTable

variable {Scalar : Type*} [CommRing Scalar] [LinearOrder Scalar] (fltMax : Scalar)
  (table : PqTable Scalar) (base : Nat → Scalar) (numPoints : Nat)

/-- `MAX_BLOCK_SIZE`. -/
def maxBlockSize : Nat := 16384

/-- `block_size`. -/
def blockSize : Nat :=
  if numPoints ≤ min maxBlockSize numPoints then numPoints else min maxBlockSize numPoints

/-- `cur_blk_size`. -/
def curBlkSize (block : Nat) : Nat :=
  min ((block + 1) * blockSize numPoints) numPoints - block * blockSize numPoints

/-- `block_data_tmp`: the vectors of a block less the centroid. -/
def blockDataTmp (block index : Nat) : Scalar :=
  base (block * blockSize numPoints * table.ndims + index) - table.centroid (index % table.ndims)

/-- `block_data_float`: the vectors of a block, permuted. -/
def blockDataFloat (block index : Nat) : Scalar :=
  table.blockDataTmp base numPoints block
    (index / table.ndims * table.ndims + table.rearrangement (index % table.ndims))

/-- `cur_chunk_size`. -/
def curChunkSize (chunk : Nat) : Nat := table.chunkOffsets (chunk + 1) - table.chunkOffsets chunk

/-- `cur_data`. -/
def curData (block chunk index : Nat) : Scalar :=
  table.blockDataFloat base numPoints block
    (index / table.curChunkSize chunk * table.ndims + table.chunkOffsets chunk +
      index % table.curChunkSize chunk)

/-- `cur_pivot_data`. -/
def curPivotData (chunk index : Nat) : Scalar :=
  table.tables (index / table.curChunkSize chunk * table.ndims + table.chunkOffsets chunk +
    index % table.curChunkSize chunk)

/-- `closest_center` for a block and a chunk. -/
def closestCenter (allocations : Allocations Scalar) (block chunk : Nat) : Nat → Nat :=
  computeClosestCenters fltMax (table.curData base numPoints block chunk)
    (curBlkSize numPoints block) (table.curChunkSize chunk) (table.curPivotData chunk) 256
    (allocations.closestCenters block chunk) (allocations.distanceMatrix block chunk)

/-- `generate_pq_data_from_pivots`: what follows the header of the file. -/
def generatePqData (allocations : Allocations Scalar) : List UInt8 :=
  (List.range (divRoundUp numPoints (blockSize numPoints))).flatMap fun block =>
    (List.range (curBlkSize numPoints block * table.nChunks)).map fun index =>
      UInt8.ofNat (table.closestCenter fltMax base numPoints allocations block
        (index % table.nChunks) (index / table.nChunks))

end PqTable

/-! ### Distances from norms and inner products -/

section Blas

variable {Scalar : Type*} [CommRing Scalar]

theorem sgemm_apply {columns column : Nat} (inside : column < columns) (row inner : Nat)
    (alpha : Scalar) (a b : Nat → Scalar) (beta : Scalar) (c : Nat → Scalar) :
    sgemm columns inner alpha a b beta c (row * columns + column) =
      alpha * ∑ place ∈ range inner, a (row * inner + place) * b (column * inner + place) +
        beta * c (row * columns + column) := by
  rw [sgemm, div_row inside, Nat.mul_add_mod_of_lt inside]

/-- The three products add up to the squared distances. -/
theorem distMatrix_apply {center numCenters : Nat} (inside : center < numCenters)
    (data : Nat → Scalar) (dim : Nat) (centers memory : Nat → Scalar) (point : Nat) :
    distMatrix data dim centers numCenters (computeVecsL2sq data dim)
        (computeVecsL2sq centers dim) memory (point * numCenters + center) =
      ∑ place ∈ range dim, (centers (center * dim + place) - data (point * dim + place)) *
        (centers (center * dim + place) - data (point * dim + place)) := by
  unfold distMatrix
  rw [sgemm_apply inside, sgemm_apply inside, sgemm_apply inside, sum_range_one, sum_range_one,
    Nat.mul_one, Nat.mul_one, Nat.add_zero, Nat.add_zero, computeVecsL2sq, computeVecsL2sq]
  have expanded : ∀ place ∈ range dim,
      (centers (center * dim + place) - data (point * dim + place)) *
        (centers (center * dim + place) - data (point * dim + place)) =
      -2 * (data (point * dim + place) * centers (center * dim + place)) +
        (centers (center * dim + place) * centers (center * dim + place) +
          data (point * dim + place) * data (point * dim + place)) :=
    fun place _ => by ring
  rw [sum_congr rfl expanded, sum_add_distrib, sum_add_distrib, mul_sum]
  ring

end Blas

namespace PqTable

variable {Scalar : Type*} [CommRing Scalar] [LinearOrder Scalar] {fltMax : Scalar}
  {table : PqTable Scalar} {base : Nat → Scalar} {numPoints : Nat}

/-! ### Blocks and chunks -/

theorem blockSize_eq (numPoints : Nat) : blockSize numPoints = min maxBlockSize numPoints := by
  unfold blockSize
  split <;> omega

/-- The row of a vector that is in a block. -/
theorem lt_curBlkSize {row : Nat} (inside : row < numPoints) :
    row % blockSize numPoints < curBlkSize numPoints (row / blockSize numPoints) := by
  have positive : 0 < blockSize numPoints := by
    rw [blockSize_eq]
    exact lt_min (by decide) ((Nat.zero_le row).trans_lt inside)
  have whole := Nat.div_add_mod' row (blockSize numPoints)
  have below := Nat.mod_lt row positive
  unfold curBlkSize
  rw [Nat.succ_mul]
  omega

theorem curBlkSize_le (numPoints block : Nat) : curBlkSize numPoints block ≤ maxBlockSize := by
  have small := blockSize_eq numPoints
  unfold curBlkSize
  rw [Nat.succ_mul]
  omega

omit [LinearOrder Scalar] in
/-- The centred and permuted copy of a vector. -/
theorem curData_apply {chunk place : Nat} (within : chunk < table.nChunks)
    (inside : place < table.curChunkSize chunk) (block point : Nat) :
    table.curData base numPoints block chunk (point * table.curChunkSize chunk + place) =
      base ((block * blockSize numPoints + point) * table.ndims +
        table.rearrangement (table.chunkOffsets chunk + place)) -
        table.centroid (table.rearrangement (table.chunkOffsets chunk + place)) := by
  have dim : table.chunkOffsets chunk + place < table.ndims := by
    refine lt_ndims_of_mem_dims within (mem_Ico.mpr ⟨Nat.le_add_right _ _, ?_⟩)
    unfold curChunkSize at inside
    omega
  have permuted := table.rearrangement_lt _ dim
  rw [curData, div_row inside, Nat.mul_add_mod_of_lt inside, Nat.add_assoc, blockDataFloat,
    div_row dim, Nat.mul_add_mod_of_lt dim, blockDataTmp, Nat.mul_add_mod_of_lt permuted,
    Nat.add_mul, Nat.add_assoc]

omit [CommRing Scalar] [LinearOrder Scalar] in
theorem curPivotData_apply {chunk place : Nat} (inside : place < table.curChunkSize chunk)
    (center : Nat) :
    table.curPivotData chunk (center * table.curChunkSize chunk + place) =
      table.tables (center * table.ndims + (table.chunkOffsets chunk + place)) := by
  rw [curPivotData, div_row inside, Nat.mul_add_mod_of_lt inside, Nat.add_assoc]

omit [LinearOrder Scalar] in
/-- The distance that the build computes is the one that `deflate_vec` computes. -/
theorem distMatrix_eq_deflateDist {chunk center : Nat} (within : chunk < table.nChunks)
    (inside : center < 256) (block point : Nat) (memory : Nat → Scalar) :
    distMatrix (table.curData base numPoints block chunk) (table.curChunkSize chunk)
        (table.curPivotData chunk) 256
        (computeVecsL2sq (table.curData base numPoints block chunk) (table.curChunkSize chunk))
        (computeVecsL2sq (table.curPivotData chunk) (table.curChunkSize chunk)) memory
        (point * 256 + center) =
      table.deflateDist (fun dim => base ((block * blockSize numPoints + point) * table.ndims + dim))
        chunk center := by
  rw [distMatrix_apply inside, deflateDist, dims, sum_Ico_eq_sum_range]
  refine sum_congr rfl fun place member => ?_
  have position := mem_range.mp member
  rw [curPivotData_apply position, curData_apply within position]

/-- The centre that the build finds for a chunk of a vector. -/
theorem closestCenter_eq {chunk block point : Nat} (allocations : Allocations Scalar)
    (within : chunk < table.nChunks) (inside : point < curBlkSize numPoints block) :
    table.closestCenter fltMax base numPoints allocations block chunk point =
      (scanCenters (table.deflateDist
        (fun dim => base ((block * blockSize numPoints + point) * table.ndims + dim)) chunk)
          (allocations.closestCenters block chunk point, fltMax) 256).1 := by
  have small : curBlkSize numPoints block ≤ 2 ^ 23 :=
    (curBlkSize_le numPoints block).trans (by decide)
  unfold closestCenter computeClosestCenters
  dsimp only
  rw [Nat.min_eq_right small, Nat.div_eq_of_lt inside, Nat.zero_mul, Nat.sub_zero, closestCenters,
    Nat.min_self, computeClosestCentersInBlock, if_pos inside]
  exact congrArg Prod.fst (scanCenters_congr _ fun center below =>
    distMatrix_eq_deflateDist within below block point _)

/-! ### Rows of the file -/

/-- The byte of a row and a chunk. -/
def byteAt (fltMax : Scalar) (table : PqTable Scalar) (base : Nat → Scalar) (numPoints : Nat)
    (allocations : Allocations Scalar) (row chunk : Nat) : UInt8 :=
  UInt8.ofNat (table.closestCenter fltMax base numPoints allocations
    (row / blockSize numPoints) chunk (row % blockSize numPoints))

theorem generatePqData_eq (allocations : Allocations Scalar) (some : 0 < numPoints) :
    table.generatePqData fltMax base numPoints allocations =
      (List.range (numPoints * table.nChunks)).map fun index =>
        byteAt fltMax table base numPoints allocations (index / table.nChunks)
          (index % table.nChunks) := by
  have positive : 0 < blockSize numPoints := by
    rw [blockSize_eq]
    exact lt_min (by decide) some
  have covered := le_divRoundUp_mul numPoints positive
  have blocks := flatMap_blocks (fun index => byteAt fltMax table base numPoints allocations
    (index / table.nChunks) (index % table.nChunks)) (blockSize numPoints * table.nChunks)
    (numPoints * table.nChunks) (divRoundUp numPoints (blockSize numPoints))
  rw [← Nat.mul_assoc, Nat.min_eq_right (Nat.mul_le_mul_right _ covered)] at blocks
  rw [← blocks, generatePqData]
  refine List.flatMap_congr fun block _ => ?_
  have size : min ((block + 1) * (blockSize numPoints * table.nChunks))
      (numPoints * table.nChunks) - block * (blockSize numPoints * table.nChunks) =
        curBlkSize numPoints block * table.nChunks := by
    rw [curBlkSize, Nat.sub_mul, ← Nat.mul_min_mul_right, Nat.mul_assoc, Nat.mul_assoc]
  rw [size]
  refine List.map_congr_left fun index member => ?_
  have inside := List.mem_range.mp member
  have chunks : 0 < table.nChunks := Nat.pos_of_mul_pos_left ((Nat.zero_le index).trans_lt inside)
  have point : index / table.nChunks < blockSize numPoints := by
    refine ((Nat.div_lt_iff_lt_mul chunks).mpr inside).trans_le ?_
    unfold curBlkSize
    rw [Nat.succ_mul]
    omega
  have row : (block * (blockSize numPoints * table.nChunks) + index) / table.nChunks =
      block * blockSize numPoints + index / table.nChunks := by
    rw [← Nat.mul_assoc, Nat.add_comm, Nat.add_mul_div_right _ _ chunks, Nat.add_comm]
  have column : (block * (blockSize numPoints * table.nChunks) + index) % table.nChunks =
      index % table.nChunks := by
    rw [← Nat.mul_assoc, Nat.add_comm, Nat.add_mul_mod_self_right]
  rw [row, column, byteAt, div_row point, Nat.mul_add_mod_of_lt point]

/-- The code of a row of the file. -/
theorem codeOf_generatePqData (allocations : Allocations Scalar) (row : Fin numPoints) :
    codeOf table.nChunks (table.generatePqData fltMax base numPoints allocations) row =
      (List.range table.nChunks).map fun chunk => UInt8.ofNat (scanCenters
        (table.deflateDist (fun dim => base (row * table.ndims + dim)) chunk)
        (allocations.closestCenters (row / blockSize numPoints) chunk
          (row % blockSize numPoints), fltMax) 256).1 := by
  have covered : (row + 1) * table.nChunks ≤ numPoints * table.nChunks :=
    Nat.mul_le_mul_right _ row.isLt
  rw [Nat.succ_mul] at covered
  rw [generatePqData_eq allocations ((Nat.zero_le _).trans_lt row.isLt), codeOf, List.take_drop,
    ← List.map_take, List.take_range, Nat.min_eq_left covered, List.range_add, List.map_append,
    List.drop_left' (List.length_map _ |>.trans List.length_range), List.map_map]
  refine List.map_congr_left fun chunk member => ?_
  have within := List.mem_range.mp member
  show byteAt _ _ _ _ _ ((row * table.nChunks + chunk) / table.nChunks)
    ((row * table.nChunks + chunk) % table.nChunks) = _
  rw [div_row within, Nat.mul_add_mod_of_lt within, byteAt,
    closestCenter_eq allocations within (lt_curBlkSize row.isLt), Nat.div_add_mod']

/-- With every centre of a chunk as far as the largest `float`, the build writes what the memory
held and `deflate_vector` leaves a zero. -/
theorem codes_differ {row : Fin numPoints} {chunk : Nat} (within : chunk < table.nChunks)
    (far : ∀ center < 256, ¬ table.deflateDist (fun dim => base (row * table.ndims + dim))
      chunk center < fltMax) :
    codeOf table.nChunks (table.generatePqData fltMax base numPoints
        ⟨fun _ _ _ => 1, fun _ _ _ _ => 0⟩) row ≠
      table.deflateVector fltMax fun dim => base (row * table.ndims + dim) := by
  intro same
  rw [codeOf_generatePqData, deflateVector, List.map_inj_left] at same
  have bytes := same chunk (List.mem_range.mpr within)
  rw [deflateVec, scanCenters_far far, scanCenters_far far] at bytes
  have numbers : UInt8.ofNat 1 = UInt8.ofNat 0 := bytes
  exact absurd numbers (by decide)

/-- For every table, file of vectors and place in it: the encoder of the build writes the code of
`deflate_vector` whatever the memory holds that it allocates, exactly if every chunk of the vector
has a centre that is nearer than the largest `float`. -/
theorem generatePqData_eq_deflateVector_iff (fltMax : Scalar) (table : PqTable Scalar)
    (base : Nat → Scalar) (numPoints : Nat) (row : Fin numPoints) :
    (∀ allocations : Allocations Scalar,
      codeOf table.nChunks (table.generatePqData fltMax base numPoints allocations) row =
        table.deflateVector fltMax fun dim => base (row * table.ndims + dim)) ↔
    ∀ chunk < table.nChunks, ∃ center < 256,
      table.deflateDist (fun dim => base (row * table.ndims + dim)) chunk center < fltMax := by
  refine ⟨fun agree chunk within => ?_, fun near allocations => ?_⟩
  · by_contra far
    exact codes_differ within (fun center below near => far ⟨center, below, near⟩) (agree _)
  · rw [codeOf_generatePqData, deflateVector]
    refine List.map_congr_left fun chunk member => ?_
    have within := List.mem_range.mp member
    exact congrArg UInt8.ofNat ((scanCenters_start _ _ 256).2.1 (near chunk within))

/-- One dimension, one chunk and all centres at zero. -/
def zeroTable : PqTable Int where
  tables _ := 0
  centroid _ := 0
  ndims := 1
  nChunks := 1
  chunkOffsets chunk := chunk
  rearrangement dim := dim
  offsets_zero := rfl
  offsets_lt chunk _ := Nat.lt_succ_self chunk
  offsets_last := rfl
  rearrangement_lt _ inside := inside
  rearrangement_injective _ _ _ _ same := same

/-- The vector `2 ^ 64` is `2 ^ 128` away from all centres, which no `float` is. -/
theorem codes_differ_two_pow : ∃ allocations : Allocations Int,
    codeOf 1 (zeroTable.generatePqData (2 ^ 128 - 2 ^ 104) (fun _ => 2 ^ 64) 1 allocations) 0 ≠
      zeroTable.deflateVector (2 ^ 128 - 2 ^ 104) fun _ => 2 ^ 64 := by
  refine ⟨_, @codes_differ Int _ _ _ zeroTable (fun _ => 2 ^ 64) 1 0 0 Nat.one_pos ?_⟩
  intro center _ near
  have distance : zeroTable.deflateDist (fun _ => 2 ^ 64) 0 center = 2 ^ 128 := rfl
  rw [distance] at near
  exact absurd near (by decide)

end PqTable

end OdinVector
