/-
This file models the distances between PQ codes in exact arithmetic: the transposed table
and the table of all pairs of centres, `populate_chunk_distances`, `aggregate_coords`,
`pq_dist_lookup`, `compute_distances_alltoall`, `compute_pq_dists` and
`compute_pq_dists_batch`. It proves that all paths give one function of the codes.

Arrays are functions of the flat index, as the source addresses them.
-/

import OdinVector.Pq.PqTable

namespace OdinVector

open Finset

namespace PqTable

variable {Scalar : Type*} [CommRing Scalar] (table : PqTable Scalar)

/-! ### Tables -/

/-- `tables_T`. -/
def tablesT (index : Nat) : Scalar := table.tables (index % 256 * table.ndims + index / 256)

/-- `all_to_all_dists`. -/
def allToAllDists (index : Nat) : Scalar :=
  let chunk := index % table.nChunks
  let first := index / table.nChunks / 256
  let second := index / table.nChunks % 256
  ∑ dim ∈ table.dims chunk,
    (table.tables (first * table.ndims + dim) - table.tables (second * table.ndims + dim)) *
      (table.tables (first * table.ndims + dim) - table.tables (second * table.ndims + dim))

/-- `populate_chunk_distances`. -/
def populateChunkDistances (queryVec : Nat → Scalar) (index : Nat) : Scalar :=
  let chunk := index / 256
  let center := index % 256
  ∑ dim ∈ table.dims chunk,
    (table.tablesT (256 * dim + center) -
      (queryVec (table.rearrangement dim) - table.centroid (table.rearrangement dim))) *
    (table.tablesT (256 * dim + center) -
      (queryVec (table.rearrangement dim) - table.centroid (table.rearrangement dim)))

/-- `compute_distances_alltoall`. -/
def computeDistancesAlltoall (compSrc compDsts : Nat → UInt8) (count : Nat) : List Scalar :=
  (List.range count).map fun point => ∑ chunk ∈ range table.nChunks,
    table.allToAllDists ((compSrc chunk).toNat * 256 * table.nChunks +
      (compDsts (point * table.nChunks + chunk)).toNat * table.nChunks + chunk)

end PqTable

/-! ### Distances of gathered codes -/

/-- `aggregate_coords`. -/
def aggregateCoords (ids : List Nat) (allCoords : Nat → UInt8) (ndims index : Nat) : UInt8 :=
  allCoords (ids.getD (index / ndims) 0 * ndims + index % ndims)

/-- `pq_dist_lookup`. -/
def pqDistLookup {Scalar : Type*} [CommRing Scalar] (pqIds : Nat → UInt8) (nPts pqNchunks : Nat)
    (pqDists : Nat → Scalar) : List Scalar :=
  (List.range nPts).map fun point => ∑ chunk ∈ range pqNchunks,
    pqDists (256 * chunk + (pqIds (pqNchunks * point + chunk)).toNat)

namespace PqTable

variable {Scalar : Type*} [CommRing Scalar] (table : PqTable Scalar) (data : Nat → UInt8)

/-- `compute_pq_dists` of a point and some others; `none` is the crash without a scratch buffer or
with too many ids. -/
def computePqDists (src : Nat) (ids : List Nat) (alignedScratch : Bool) : Option (List Scalar) :=
  if alignedScratch = false ∨ 32768 ≤ ids.length then none
  else some (table.computeDistancesAlltoall (fun chunk => data (table.nChunks * src + chunk))
    (aggregateCoords ids data table.nChunks) ids.length)

/-- The loops over the chunks of a code: four at a time, then one at a time. -/
def sumChunks (dist : Nat → Scalar) (nChunks chunk : Nat) (sum : Scalar) : Scalar :=
  if chunk + 4 ≤ nChunks then
    sumChunks dist nChunks (chunk + 4)
      (sum + dist (chunk + 0) + dist (chunk + 1) + dist (chunk + 2) + dist (chunk + 3))
  else if chunk < nChunks then sumChunks dist nChunks (chunk + 1) (sum + dist chunk)
  else sum
termination_by nChunks - chunk

/-- `compute_pq_dists_batch`. -/
def computePqDistsBatch (query : Nat → Scalar) (candidateIds : List Nat) : List Scalar :=
  let pqDists := table.populateChunkDistances query
  if candidateIds.length = 0 then []
  else (List.range (divRoundUp candidateIds.length 256)).flatMap fun block =>
    let blk := block * 256
    let blkEnd := min (blk + 256) candidateIds.length
    let localBuf := fun index =>
      data (candidateIds.getD (blk + index / table.nChunks) 0 * table.nChunks +
        index % table.nChunks)
    (List.range (blkEnd - blk)).map fun point => sumChunks (fun chunk =>
      pqDists (256 * chunk + (localBuf (point * table.nChunks + chunk)).toNat)) table.nChunks 0 0

/-! ### What a code stands for -/

/-- The chunk of a place in the rearranged vector. -/
def chunkOf (dim : Nat) : Nat :=
  ((List.range table.nChunks).find? fun chunk => dim < table.chunkOffsets (chunk + 1)).getD 0

/-- The vector that a code stands for. -/
def reconstruct (code : Nat → UInt8) (dim : Nat) : Scalar :=
  let place := ((List.range table.ndims).find? fun place => table.rearrangement place = dim).getD 0
  table.tables ((code (table.chunkOf place)).toNat * table.ndims + place) + table.centroid dim

/-- The squared distance of two codes. -/
def codeDist (first second : Nat → UInt8) : Scalar :=
  ∑ chunk ∈ range table.nChunks, ∑ dim ∈ table.dims chunk,
    (table.tables ((first chunk).toNat * table.ndims + dim) -
      table.tables ((second chunk).toNat * table.ndims + dim)) *
    (table.tables ((first chunk).toNat * table.ndims + dim) -
      table.tables ((second chunk).toNat * table.ndims + dim))

variable {table data}

theorem codeDist_comm (first second : Nat → UInt8) :
    table.codeDist first second = table.codeDist second first :=
  sum_congr rfl fun _ _ => sum_congr rfl fun _ _ => by ring

theorem codeDist_self {first second : Nat → UInt8}
    (same : ∀ chunk < table.nChunks, first chunk = second chunk) :
    table.codeDist first second = 0 := by
  refine sum_eq_zero fun chunk member => sum_eq_zero fun dim _ => ?_
  rw [same chunk (mem_range.mp member), sub_self, zero_mul]

/-! ### Addresses -/

omit [CommRing Scalar] in
theorem tablesT_apply {center : Nat} (inside : center < 256) (dim : Nat) :
    table.tablesT (256 * dim + center) = table.tables (center * table.ndims + dim) := by
  rw [tablesT, Nat.mul_comm 256, Nat.mul_add_mod_of_lt inside, div_row inside]

theorem allToAllDists_apply {second chunk : Nat} (inside : second < 256)
    (within : chunk < table.nChunks) (first : Nat) :
    table.allToAllDists (first * 256 * table.nChunks + second * table.nChunks + chunk) =
      ∑ dim ∈ table.dims chunk,
        (table.tables (first * table.ndims + dim) - table.tables (second * table.ndims + dim)) *
          (table.tables (first * table.ndims + dim) -
            table.tables (second * table.ndims + dim)) := by
  have row : first * 256 * table.nChunks + second * table.nChunks + chunk =
      (first * 256 + second) * table.nChunks + chunk := by
    rw [Nat.add_mul]
  unfold allToAllDists
  rw [row, div_row within, Nat.mul_add_mod_of_lt within, div_row inside,
    Nat.mul_add_mod_of_lt inside]

/-- A lookup in the table of a query. -/
theorem populateChunkDistances_apply {center : Nat} (inside : center < 256)
    (queryVec : Nat → Scalar) (chunk : Nat) :
    table.populateChunkDistances queryVec (256 * chunk + center) = ∑ dim ∈ table.dims chunk,
      (table.tables (center * table.ndims + dim) -
        (queryVec (table.rearrangement dim) - table.centroid (table.rearrangement dim))) *
      (table.tables (center * table.ndims + dim) -
        (queryVec (table.rearrangement dim) - table.centroid (table.rearrangement dim))) := by
  unfold populateChunkDistances
  rw [Nat.mul_comm 256, div_row inside, Nat.mul_add_mod_of_lt inside]
  exact sum_congr rfl fun dim _ => by rw [tablesT_apply inside]

theorem aggregateCoords_apply {ids : List Nat} {ndims place : Nat} (inside : place < ndims)
    (point : Nat) : aggregateCoords ids data ndims (point * ndims + place) =
      data (ids.getD point 0 * ndims + place) := by
  rw [aggregateCoords, div_row inside, Nat.mul_add_mod_of_lt inside]

/-! ### Reconstruction -/

omit [CommRing Scalar] in
theorem chunkOf_eq {chunk dim : Nat} (within : chunk < table.nChunks)
    (member : dim ∈ table.dims chunk) : table.chunkOf dim = chunk := by
  obtain ⟨above, below⟩ := mem_Ico.mp member
  have found : (List.range table.nChunks).find? (fun chunk =>
      dim < table.chunkOffsets (chunk + 1)) = some chunk := by
    refine List.find?_range_eq_some.mpr ⟨decide_eq_true below, List.mem_range.mpr within,
      fun other before => ?_⟩
    have first := @chunkOffsets_mono _ table (other + 1) chunk before within.le
    simpa using first.trans above
  rw [chunkOf, found, Option.getD_some]

/-- The vector of a code has its centres, back in the places of the vector. -/
theorem reconstruct_apply {code : Nat → UInt8} {chunk dim : Nat} (within : chunk < table.nChunks)
    (member : dim ∈ table.dims chunk) :
    table.reconstruct code (table.rearrangement dim) =
      table.tables ((code chunk).toNat * table.ndims + dim) +
        table.centroid (table.rearrangement dim) := by
  have inside := lt_ndims_of_mem_dims within member
  have found : (List.range table.ndims).find? (fun place =>
      table.rearrangement place = table.rearrangement dim) = some dim := by
    refine List.find?_range_eq_some.mpr ⟨decide_eq_true rfl, List.mem_range.mpr inside,
      fun other before => ?_⟩
    have differ : table.rearrangement other ≠ table.rearrangement dim := fun same =>
      before.ne (table.rearrangement_injective _ (before.trans inside) _ inside same)
    simpa using differ
  unfold reconstruct
  rw [found, Option.getD_some]
  dsimp only
  rw [chunkOf_eq within member]

/-! ### All paths agree -/

/-- The code of an id in the array of all codes. -/
def codeAt (table : PqTable Scalar) (data : Nat → UInt8) (id chunk : Nat) : UInt8 :=
  data (id * table.nChunks + chunk)

/-- The loops over the chunks add each of them once, whatever is left over. -/
theorem sumChunks_eq (dist : Nat → Scalar) (nChunks chunk : Nat) (sum : Scalar) :
    sumChunks dist nChunks chunk sum = sum + ∑ place ∈ Ico chunk nChunks, dist place := by
  fun_induction sumChunks dist nChunks chunk sum with
  | case1 chunk sum four inductionHypothesis =>
    rw [inductionHypothesis, sum_eq_sum_Ico_succ_bot (by omega : chunk < nChunks),
      sum_eq_sum_Ico_succ_bot (by omega : chunk + 1 < nChunks),
      sum_eq_sum_Ico_succ_bot (by omega : chunk + 1 + 1 < nChunks),
      sum_eq_sum_Ico_succ_bot (by omega : chunk + 1 + 1 + 1 < nChunks)]
    simp only [Nat.add_assoc, Nat.reduceAdd, Nat.add_zero]
    ring
  | case2 chunk sum _ one inductionHypothesis =>
    rw [inductionHypothesis, sum_eq_sum_Ico_succ_bot one]
    ring
  | case3 chunk sum _ none =>
    rw [Ico_eq_empty_of_le (Nat.le_of_not_lt none), sum_empty, add_zero]

/-- The distances of a point to some others are those of their codes. -/
theorem computePqDists_eq {ids : List Nat} (few : ids.length < 32768) (src : Nat) :
    table.computePqDists data src ids true = some ((List.range ids.length).map fun point =>
      table.codeDist (table.codeAt data src) (table.codeAt data (ids.getD point 0))) := by
  have usable : ¬ (true = false ∨ 32768 ≤ ids.length) := by
    rw [not_or]
    exact ⟨Bool.noConfusion, few.not_ge⟩
  rw [computePqDists, if_neg usable]
  refine congrArg some (List.map_congr_left fun point _ => ?_)
  refine sum_congr rfl fun chunk member => ?_
  have within := mem_range.mp member
  rw [aggregateCoords_apply within, allToAllDists_apply (UInt8.toNat_lt _) within,
    Nat.mul_comm table.nChunks]
  rfl

/-- A lookup in the table of a query adds the distances of the centres of a code. -/
theorem pqDistLookup_eq (query : Nat → Scalar) (ids : List Nat) :
    pqDistLookup (aggregateCoords ids data table.nChunks) ids.length table.nChunks
        (table.populateChunkDistances query) =
      (List.range ids.length).map fun point => ∑ chunk ∈ range table.nChunks,
        table.populateChunkDistances query
          (256 * chunk + (table.codeAt data (ids.getD point 0) chunk).toNat) := by
  refine List.map_congr_left fun point _ => sum_congr rfl fun chunk member => ?_
  rw [Nat.mul_comm table.nChunks, aggregateCoords_apply (mem_range.mp member)]
  rfl

/-- The table of a reconstructed vector has the distances to its code. -/
theorem sum_populate_reconstruct (first second : Nat → UInt8) :
    ∑ chunk ∈ range table.nChunks,
        table.populateChunkDistances (table.reconstruct first)
          (256 * chunk + (second chunk).toNat) =
      table.codeDist first second := by
  refine sum_congr rfl fun chunk member => ?_
  rw [populateChunkDistances_apply (UInt8.toNat_lt _)]
  refine sum_congr rfl fun dim inside => ?_
  rw [reconstruct_apply (mem_range.mp member) inside]
  ring

theorem computePqDistsBatch_eq (query : Nat → Scalar) (ids : List Nat) :
    table.computePqDistsBatch data query ids =
      pqDistLookup (aggregateCoords ids data table.nChunks) ids.length table.nChunks
        (table.populateChunkDistances query) := by
  have covered := le_divRoundUp_mul ids.length (show 0 < 256 by decide)
  have blocks := flatMap_blocks (fun point => ∑ chunk ∈ range table.nChunks,
    table.populateChunkDistances query
      (256 * chunk + (table.codeAt data (ids.getD point 0) chunk).toNat)) 256 ids.length
        (divRoundUp ids.length 256)
  rw [Nat.min_eq_right covered] at blocks
  rw [pqDistLookup_eq, ← blocks, computePqDistsBatch]
  by_cases none : ids.length = 0
  · rw [if_pos none, none]
    rfl
  · rw [if_neg none]
    refine List.flatMap_congr fun block _ => ?_
    rw [Nat.succ_mul]
    refine List.map_congr_left fun point _ => ?_
    rw [sumChunks_eq, zero_add, ← range_eq_Ico]
    refine sum_congr rfl fun chunk member => ?_
    have within := mem_range.mp member
    dsimp only
    rw [div_row within, Nat.mul_add_mod_of_lt within]
    rfl

/-- For every table and array of codes: below 32768 ids `compute_pq_dists` is the lookup in the
table of the reconstructed code, from there on it crashes; it is symmetric and zero on equal codes;
and `compute_pq_dists_batch` is the lookup for every query and number of candidates. -/
theorem pqDists_agree (table : PqTable Scalar) (data : Nat → UInt8) :
    (∀ src ids, table.computePqDists data src ids true =
      if ids.length < 32768 then
        some (pqDistLookup (aggregateCoords ids data table.nChunks) ids.length table.nChunks
          (table.populateChunkDistances (table.reconstruct (table.codeAt data src))))
      else none) ∧
    (∀ first second, table.computePqDists data first [second] true =
      table.computePqDists data second [first] true) ∧
    (∀ first second, (∀ chunk < table.nChunks,
        table.codeAt data first chunk = table.codeAt data second chunk) →
      table.computePqDists data first [second] true = some [0]) ∧
    ∀ query ids, table.computePqDistsBatch data query ids =
      pqDistLookup (aggregateCoords ids data table.nChunks) ids.length table.nChunks
        (table.populateChunkDistances query) := by
  have single (first second : Nat) : table.computePqDists data first [second] true =
      some [table.codeDist (table.codeAt data first) (table.codeAt data second)] :=
    @computePqDists_eq _ _ table data [second] (show 1 < 32768 by decide) first
  refine ⟨fun src ids => ?_, fun first second => ?_, fun first second same => ?_,
    computePqDistsBatch_eq⟩
  · by_cases few : ids.length < 32768
    · rw [if_pos few, computePqDists_eq few, pqDistLookup_eq]
      exact congrArg some (List.map_congr_left fun point _ =>
        (sum_populate_reconstruct _ _).symm)
    · rw [if_neg few, computePqDists, if_pos (Or.inr (Nat.le_of_not_lt few))]
  · rw [single, single, codeDist_comm]
  · rw [single, codeDist_self same]

/-- Two dimensions in one chunk, with the centres on a line. -/
def lineTable : PqTable Int where
  tables index := index
  centroid _ := 0
  ndims := 2
  nChunks := 1
  chunkOffsets chunk := 2 * chunk
  rearrangement dim := 1 - dim
  offsets_zero := rfl
  offsets_lt chunk _ := Nat.mul_lt_mul_of_pos_left (Nat.lt_succ_self chunk) Nat.two_pos
  offsets_last := rfl
  rearrangement_lt dim inside := by
    show 1 - dim < 2
    omega
  rearrangement_injective first inside second within same := by
    have places : 1 - first = 1 - second := same
    have below : first < 2 ∧ second < 2 := ⟨inside, within⟩
    omega

/-- Ids 1 and 3 have equal codes. -/
theorem pqDists_lineTable :
    lineTable.computePqDists (fun id => if id = 0 then 7 else 5) 1 [3] true = some [0] :=
  (pqDists_agree lineTable fun id => if id = 0 then 7 else 5).2.2.1 1 3 fun chunk within => by
    have first : chunk = 0 := Nat.lt_one_iff.mp within
    rw [first]
    rfl

/-- With 32768 ids there is no distance. -/
theorem computePqDists_crash :
    lineTable.computePqDists (fun _ => 0) 0 (List.replicate 32768 0) true = none := by
  rw [computePqDists, if_pos (Or.inr (List.length_replicate).ge)]

end PqTable

end OdinVector
