/-
This file models how `partition_with_ram_budget` chooses the number of shards: from three on,
until the largest shard that the sample leads to expect is within the budget. The pivots of a
round are what k-means leaves, any for each number of parts.

Equal vectors have the same nearest centres, however many there are.
-/

import Mathlib.Algebra.BigOperators.Group.List.Basic
import Mathlib.Algebra.Group.Action.Defs
import Mathlib.Algebra.Order.BigOperators.Group.List
import Mathlib.Algebra.Order.Floor.Semiring
import Mathlib.Algebra.Order.Ring.Unbundled.Rat
import Mathlib.Data.List.Nodup
import Mathlib.Data.List.Sort
import Mathlib.Data.Rat.Floor
import OdinVector.Geometry

namespace OdinVector

variable {Vec Pivot Distance : Type} [LinearOrder Distance]

/-- What `partition_with_ram_budget` works on, in exact arithmetic. -/
structure PartitionInput (Vec Pivot Distance : Type) [LinearOrder Distance] where
  /-- `train_data_float`. -/
  sample : List Vec
  dim : Nat
  /-- `sizeof(T)`. -/
  dataSize : Nat
  graphDegree : Nat
  samplingRate : ℚ
  /-- In GB. -/
  ramBudget : ℚ
  kBase : Nat
  /-- What k-means leaves in `pivot_data` for a number of parts. -/
  pivots : Nat → List Pivot
  distance : Vec → Pivot → Distance
  /-- The centres for a row of distances: the first minimum for one centre, else the order in
  which the heap gives them. -/
  order : Nat → List Distance → List Nat
  fewSamples : sample.length < 2 ^ 32
  ratePos : 0 < samplingRate
  budgetPos : 0 < ramBudget
  length_pivots : ∀ numParts, (pivots numParts).length = numParts
  perm_order : ∀ k row, (order k row).Perm (List.range row.length)
  ascending : ∀ k row, ((order k row).filterMap (row[·]?)).Pairwise (· ≤ ·)

/-- `estimate_ram_usage`. -/
def estimateRamUsage (size dim dataSize degree : Nat) : ℚ :=
  11 / 10 * (size * (degree * 4 * (13 / 10) + 24) + size * roundUp dim 8 * dataSize)

namespace PartitionInput

variable (input : PartitionInput Vec Pivot Distance)

/-- `compute_closest_centers` for a point. -/
def closestCenters (numParts : Nat) (point : Vec) : List Nat :=
  (input.order input.kBase ((input.pivots numParts).map (input.distance point))).take input.kBase

/-- `shard_counts`. -/
def shardCount (numParts center : Nat) : Nat :=
  (input.sample.flatMap (input.closestCenters numParts)).count center

/-- What a count of the sample leads to expect of the file. -/
def expectedSize (count : Nat) : Nat :=
  ⌊((count % 2 ^ 32 : Nat) : ℚ) * (1 / input.samplingRate)⌋₊

/-- `estimate_cluster_sizes`. -/
def clusterSizes (numParts : Nat) : List Nat :=
  (List.range numParts).map fun center => input.expectedSize (input.shardCount numParts center)

/-- `cur_shard_ram_estimate`. -/
def shardRam (size : Nat) : ℚ :=
  estimateRamUsage size input.dim input.dataSize input.graphDegree

/-- `max_ram_usage`. -/
def maxRamUsage (numParts : Nat) : ℚ :=
  ((input.clusterSizes numParts).map input.shardRam).foldl max 0

/-- How a run of the loop ends. -/
inductive Partitioned
  | parts (numParts : Nat)
  /-- With fewer parts than `k_base` the centres are not computed, and memory that was not
  written is read for them. -/
  | unwritten
  deriving DecidableEq

/-- `while (!fit_in_ram)`. -/
def partitionWithRamBudget : Nat → Nat → Option Partitioned
  | 0, _ => none
  | fuel + 1, numParts =>
    if numParts < input.kBase then some .unwritten
    else if 1024 * 1024 * 1024 * input.ramBudget < input.maxRamUsage numParts then
      partitionWithRamBudget fuel (numParts + 1)
    else some (.parts numParts)

/-- A number of sample points that the budget holds as one shard. -/
def Holds (count : Nat) : Prop :=
  input.shardRam (input.expectedSize count) ≤ 1024 * 1024 * 1024 * input.ramBudget

/-- The loop ends with a number of parts that is not above the number of points and not below
`k_base`, and every shard is expected to be within the budget. -/
def EndsWithin (numPoints : Nat) : Prop :=
  ∃ fuel numParts, input.partitionWithRamBudget fuel 3 = some (.parts numParts) ∧
    numParts ≤ numPoints ∧ input.kBase ≤ numParts ∧
      ∀ size ∈ input.clusterSizes numParts,
        input.shardRam size ≤ 1024 * 1024 * 1024 * input.ramBudget

variable {input}

/-! ### Estimates -/

theorem estimateRamUsage_mono {size more : Nat} (le : size ≤ more) (dim dataSize degree : Nat) :
    estimateRamUsage size dim dataSize degree ≤ estimateRamUsage more dim dataSize degree := by
  unfold estimateRamUsage
  gcongr

theorem expectedSize_mono {count more : Nat} (le : count ≤ more) (few : more < 2 ^ 32) :
    input.expectedSize count ≤ input.expectedSize more := by
  unfold expectedSize
  rw [Nat.mod_eq_of_lt few, Nat.mod_eq_of_lt (le.trans_lt few)]
  have positive := input.ratePos
  gcongr

/-- What fewer sample points than the budget holds lead to is within the budget. -/
theorem Holds.mono {count more : Nat} (holds : input.Holds more) (le : count ≤ more)
    (few : more < 2 ^ 32) : input.Holds count :=
  (estimateRamUsage_mono (expectedSize_mono le few) _ _ _).trans holds

theorem foldl_max_le_iff {values : List ℚ} {bound start : ℚ} :
    values.foldl max start ≤ bound ↔ start ≤ bound ∧ ∀ value ∈ values, value ≤ bound := by
  induction values generalizing start with
  | nil =>
    exact ⟨fun le => ⟨le, fun value member => absurd member List.not_mem_nil⟩, And.left⟩
  | cons first rest inductionHypothesis =>
    rw [List.foldl_cons, inductionHypothesis, max_le_iff, List.forall_mem_cons, and_assoc]

/-- A round in which every centre has no more sample points than the budget holds. -/
def Balanced (input : PartitionInput Vec Pivot Distance) (numParts : Nat) : Prop :=
  ∀ center < numParts, input.Holds (input.shardCount numParts center)

theorem forall_clusterSizes (numParts : Nat) : (∀ size ∈ input.clusterSizes numParts,
    input.shardRam size ≤ 1024 * 1024 * 1024 * input.ramBudget) ↔ input.Balanced numParts := by
  unfold clusterSizes
  rw [List.forall_mem_map]
  constructor
  · exact fun all center inside => all center (List.mem_range.mpr inside)
  · exact fun balanced center member => balanced center (List.mem_range.mp member)

theorem maxRamUsage_le_iff (numParts : Nat) :
    ¬ 1024 * 1024 * 1024 * input.ramBudget < input.maxRamUsage numParts ↔
      input.Balanced numParts := by
  have budget : 0 ≤ 1024 * 1024 * 1024 * input.ramBudget := by
    have positive := input.budgetPos
    positivity
  rw [not_lt, ← forall_clusterSizes]
  unfold maxRamUsage
  rw [foldl_max_le_iff, List.forall_mem_map]
  exact and_iff_right budget

/-! ### The loop -/

/-- Where the loop ends. -/
theorem partition_eq_parts {fuel : Nat} : ∀ {start numParts : Nat},
    input.partitionWithRamBudget fuel start = some (.parts numParts) →
      input.kBase ≤ start ∧ start ≤ numParts ∧ input.Balanced numParts := by
  induction fuel with
  | zero =>
    intro start numParts ends
    cases ends
  | succ fuel inductionHypothesis =>
    intro start numParts ends
    unfold partitionWithRamBudget at ends
    split at ends
    · cases ends
    · rename_i enough
      have centers := Nat.not_lt.mp enough
      split at ends
      · obtain ⟨_, later, balanced⟩ := inductionHypothesis ends
        exact ⟨centers, (Nat.le_succ start).trans later, balanced⟩
      · rename_i fits
        obtain rfl := Partitioned.parts.inj (Option.some.inj ends)
        exact ⟨centers, le_rfl, (maxRamUsage_le_iff start).mp fits⟩

/-- The loop ends at the latest in a balanced round. -/
theorem partition_ends {start numParts : Nat} (centers : input.kBase ≤ start)
    (later : start ≤ numParts) (balanced : input.Balanced numParts) :
    ∃ fuel parts, input.partitionWithRamBudget fuel start = some (.parts parts) ∧
      parts ≤ numParts := by
  induction left : numParts - start generalizing start with
  | zero =>
    obtain rfl := Nat.le_antisymm later (Nat.sub_eq_zero_iff_le.mp left)
    refine ⟨1, start, ?_, le_rfl⟩
    unfold partitionWithRamBudget
    rw [if_neg (Nat.not_lt.mpr centers), if_neg ((maxRamUsage_le_iff start).mpr balanced)]
  | succ left' inductionHypothesis =>
    by_cases fits : 1024 * 1024 * 1024 * input.ramBudget < input.maxRamUsage start
    · obtain ⟨fuel, parts, ends, inside⟩ := inductionHypothesis (centers.trans (Nat.le_succ start))
        (by omega) (by omega)
      refine ⟨fuel + 1, parts, ?_, inside⟩
      unfold partitionWithRamBudget
      rw [if_neg (Nat.not_lt.mpr centers), if_pos fits]
      exact ends
    · refine ⟨1, start, ?_, later⟩
      unfold partitionWithRamBudget
      rw [if_neg (Nat.not_lt.mpr centers), if_neg fits]

theorem endsWithin_iff_balanced (numPoints : Nat) : input.EndsWithin numPoints ↔
    input.kBase ≤ 3 ∧ ∃ numParts, 3 ≤ numParts ∧ numParts ≤ numPoints ∧ input.Balanced numParts := by
  constructor
  · rintro ⟨fuel, numParts, ends, inside, _, _⟩
    obtain ⟨centers, later, balanced⟩ := partition_eq_parts ends
    exact ⟨centers, numParts, later, inside, balanced⟩
  · rintro ⟨centers, numParts, later, inside, balanced⟩
    obtain ⟨fuel, parts, ends, fewer⟩ := partition_ends centers later balanced
    obtain ⟨_, more, fits⟩ := partition_eq_parts ends
    exact ⟨fuel, parts, ends, fewer.trans inside, centers.trans more,
      (forall_clusterSizes parts).mpr fits⟩

/-! ### How the sample splits -/

theorem nodup_closestCenters (numParts : Nat) (point : Vec) :
    (input.closestCenters numParts point).Nodup :=
  ((input.perm_order _ _).nodup_iff.mpr List.nodup_range).sublist (List.take_sublist _ _)

/-- A centre has a sample point at most once. -/
theorem shardCount_le (numParts center : Nat) :
    input.shardCount numParts center ≤ input.sample.length := by
  unfold shardCount
  rw [List.count_flatMap]
  have few := List.sum_le_card_nsmul
    (input.sample.map (List.count center ∘ input.closestCenters numParts)) 1 fun count member => by
      obtain ⟨point, _, rfl⟩ := List.mem_map.mp member
      exact List.nodup_iff_count_le_one.mp (nodup_closestCenters numParts point) center
  rwa [List.length_map, smul_eq_mul, Nat.mul_one] at few

/-- A nearest centre of a vector has every sample point that is equal to it. -/
theorem count_le_shardCount [DecidableEq Vec] {numParts center : Nat} {point : Vec}
    (nearest : center ∈ input.closestCenters numParts point) :
    input.sample.count point ≤ input.shardCount numParts center := by
  unfold shardCount
  rw [List.count_flatMap]
  induction input.sample with
  | nil => exact le_rfl
  | cons first rest inductionHypothesis =>
    rw [List.count_cons, List.map_cons, List.sum_cons, Nat.add_comm]
    refine Nat.add_le_add ?_ inductionHypothesis
    split
    · rename_i same
      rw [beq_iff_eq.mp same]
      exact List.count_pos_iff.mpr nearest
    · exact Nat.zero_le _

/-- A point has a nearest centre. -/
theorem exists_closestCenter {numParts : Nat} (some : 0 < input.kBase) (parts : 0 < numParts)
    (point : Vec) : ∃ center < numParts, center ∈ input.closestCenters numParts point := by
  let row := (input.pivots numParts).map (input.distance point)
  have ranked : (input.order input.kBase row).Perm (List.range numParts) := by
    have perm := input.perm_order input.kBase row
    rwa [List.length_map, input.length_pivots] at perm
  have nonempty : input.closestCenters numParts point ≠ [] := by
    refine List.length_pos_iff.mp ?_
    unfold closestCenters
    rw [List.length_take, ranked.length_eq, List.length_range]
    exact lt_min some parts
  obtain ⟨center, rest, cons⟩ := List.exists_cons_of_ne_nil nonempty
  have member : center ∈ input.closestCenters numParts point := by
    rw [cons]
    exact List.mem_cons_self
  exact ⟨center, List.mem_range.mp (ranked.subset (List.mem_of_mem_take member)), member⟩

/-- The centres in the order of their distances. -/
def rankCenters (row : List Nat) : List Nat :=
  (List.range row.length).insertionSort fun first second => row.getD first 0 ≤ row.getD second 0

theorem ascending_rankCenters (row : List Nat) :
    ((rankCenters row).filterMap (row[·]?)).Pairwise (· ≤ ·) := by
  have total : Std.Total fun first second => row.getD first 0 ≤ row.getD second 0 :=
    ⟨fun _ _ => Nat.le_total _ _⟩
  have trans : IsTrans Nat fun first second => row.getD first 0 ≤ row.getD second 0 :=
    ⟨fun _ _ _ => Nat.le_trans⟩
  have sorted := List.pairwise_insertionSort
    (fun first second => row.getD first 0 ≤ row.getD second 0) (List.range row.length)
  refine List.pairwise_filterMap.mpr (sorted.imp fun {first second} ordered low isLow high isHigh => ?_)
  rw [List.getD_eq_getElem?_getD, List.getD_eq_getElem?_getD, isLow, isHigh] at ordered
  exact ordered

/-- Equal vectors: the first pivot stays at them and the others have no points. -/
def equalVectors (count : Nat) (few : count < 2 ^ 32) (ramBudget : ℚ) (positive : 0 < ramBudget) :
    PartitionInput Nat Nat Nat where
  sample := List.replicate count 5
  dim := 1
  dataSize := 4
  graphDegree := 10
  samplingRate := 1
  ramBudget := ramBudget
  kBase := 2
  pivots numParts := (5 :: List.replicate numParts 0).take numParts
  distance point pivot := (point - pivot) + (pivot - point)
  order _ := rankCenters
  fewSamples := List.length_replicate.trans_lt few
  ratePos := zero_lt_one
  budgetPos := positive
  length_pivots numParts := by
    rw [List.length_take, List.length_cons, List.length_replicate]
    exact Nat.min_eq_left (Nat.le_succ numParts)
  perm_order _ _ := List.perm_insertionSort _ _
  ascending _ := ascending_rankCenters

theorem holds_equalVectors {count : Nat} {few : count < 2 ^ 32} {ramBudget : ℚ}
    {positive : 0 < ramBudget} (other : Nat) :
    (equalVectors count few ramBudget positive).Holds other ↔
      ((other % 2 ^ 32 : Nat) : ℚ) * (594 / 5) ≤ 1024 * 1024 * 1024 * ramBudget := by
  have size : (equalVectors count few ramBudget positive).expectedSize other = other % 2 ^ 32 := by
    unfold expectedSize equalVectors
    rw [one_div_one, mul_one, Nat.floor_natCast]
  have ram : ∀ size : Nat, estimateRamUsage size 1 4 10 = size * (594 / 5) := by
    intro size
    have aligned : roundUp 1 8 = 8 := rfl
    unfold estimateRamUsage
    rw [aligned]
    push_cast
    ring
  unfold Holds shardRam
  rw [size]
  show estimateRamUsage (other % 2 ^ 32) 1 4 10 ≤ 1024 * 1024 * 1024 * ramBudget ↔ _
  rw [ram]

end PartitionInput

end OdinVector
