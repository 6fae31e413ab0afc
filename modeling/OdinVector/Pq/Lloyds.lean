/-
This file models the k-means of the build, `run_lloyds` with `lloyds_iter`, in exact arithmetic.
Both `generate_pq_pivots` and `partition` train their centres with it. A round assigns every
vector to its nearest centre, moves each centre to the mean of its vectors, and sums up the
squared distances to the moved centres. A centre without vectors is moved to 0.

No round makes the sum larger: the mean is the best centre for its vectors, and the next
assignment is the best one for the centres.
-/

import OdinVector.Pq.PqEncoders
import Mathlib.Algebra.Order.BigOperators.Ring.Finset
import Mathlib.Algebra.Order.Field.Basic
import Mathlib.Tactic.FieldSimp
import Mathlib.Tactic.Linarith

namespace OdinVector

open Finset

/-! ### Means -/

section Means

variable {Item Scalar : Type*} [Field Scalar] [LinearOrder Scalar] [IsStrictOrderedRing Scalar]

/-- No value has a smaller sum of squared distances than the mean. -/
theorem sum_sq_sub_mean_le (items : Finset Item) (value : Item → Scalar) (other : Scalar) :
    ∑ item ∈ items, (value item - (∑ item ∈ items, value item) / items.card) *
        (value item - (∑ item ∈ items, value item) / items.card) ≤
      ∑ item ∈ items, (value item - other) * (value item - other) := by
  rcases items.eq_empty_or_nonempty with rfl | some
  · rfl
  have count : (items.card : Scalar) ≠ 0 := Nat.cast_ne_zero.mpr some.card_pos.ne'
  have expanded : ∀ center : Scalar, ∑ item ∈ items, (value item - center) * (value item - center) =
      items.card * (center * center) - 2 * center * ∑ item ∈ items, value item +
        ∑ item ∈ items, value item * value item := by
    intro center
    have terms : ∀ item ∈ items, (value item - center) * (value item - center) =
        center * center - 2 * center * value item + value item * value item :=
      fun item _ => by ring
    rw [sum_congr rfl terms, sum_add_distrib, sum_sub_distrib, sum_const, ← mul_sum, nsmul_eq_mul]
  generalize total : ∑ item ∈ items, value item = sum at expanded
  have square : (items.card * (other * other) - 2 * other * sum) -
      (items.card * (sum / items.card * (sum / items.card)) - 2 * (sum / items.card) * sum) =
        items.card * ((other - sum / items.card) * (other - sum / items.card)) := by
    field_simp
    ring
  rw [expanded, expanded, add_le_add_iff_right, ← sub_nonneg, square]
  exact mul_nonneg (Nat.cast_nonneg _) (mul_self_nonneg _)

end Means

/-! ### The nearest centre -/

section Nearest

variable {Scalar : Type*} [LinearOrder Scalar] {dist : Nat → Scalar}

/-- A scan that finds something nearer than its start finds the nearest centre. -/
theorem scanCenters_nearest {start : Nat × Scalar} {count : Nat}
    (near : ∃ center < count, dist center < start.2) :
    (scanCenters dist start count).1 < count ∧
      (scanCenters dist start count).2 = dist (scanCenters dist start count).1 ∧
        ∀ center < count, dist (scanCenters dist start count).1 ≤ dist center := by
  induction count with
  | zero => exact absurd near fun ⟨center, below, _⟩ => Nat.not_lt_zero center below
  | succ count inductionHypothesis =>
    rw [scanCenters_succ]
    by_cases before : ∃ center < count, dist center < start.2
    · obtain ⟨inside, same, least⟩ := inductionHypothesis before
      by_cases nearer : dist count < (scanCenters dist start count).2
      · rw [if_pos nearer]
        refine ⟨Nat.lt_succ_self count, rfl, fun other within => ?_⟩
        rcases Nat.lt_succ_iff_lt_or_eq.mp within with less | rfl
        · exact (nearer.trans_eq same).le.trans (least other less)
        · exact le_refl _
      · rw [if_neg nearer]
        refine ⟨inside.trans (Nat.lt_succ_self count), same, fun other within => ?_⟩
        rcases Nat.lt_succ_iff_lt_or_eq.mp within with less | rfl
        · exact least other less
        · exact same.symm.trans_le (not_lt.mp nearer)
    · have far : ∀ center < count, ¬ dist center < start.2 :=
        fun center within less => before ⟨center, within, less⟩
      obtain ⟨center, below, near⟩ := near
      have isLast : center = count := by
        rcases Nat.lt_succ_iff_lt_or_eq.mp below with less | same
        · exact absurd near (far center less)
        · exact same
      subst isLast
      rw [scanCenters_far far, if_pos near]
      refine ⟨Nat.lt_succ_self center, rfl, fun other within => ?_⟩
      rcases Nat.lt_succ_iff_lt_or_eq.mp within with less | rfl
      · exact near.le.trans (not_lt.mp (far other less))
      · exact le_refl _

end Nearest

/-! ### The functions -/

/-- `calc_distance`. -/
def calcDistance {Scalar : Type*} [CommRing Scalar] (dim : Nat) (vec1 vec2 : Nat → Scalar) :
    Scalar :=
  ∑ place ∈ range dim, (vec1 place - vec2 place) * (vec1 place - vec2 place)

/-- A row of an array. -/
def rowOf {Scalar : Type*} (data : Nat → Scalar) (dim index place : Nat) : Scalar :=
  data (index * dim + place)

section Functions

variable {Scalar : Type*} [Field Scalar] [LinearOrder Scalar]

/-- What k-means is given: the vectors, the number of centres, and what is in the arrays that
`compute_closest_centers` allocates in each round. -/
structure KMeans (Scalar : Type*) where
  data : Nat → Scalar
  numPoints : Nat
  /-- `compute_closest_centers` divides by the size of a block. -/
  numPoints_pos : 0 < numPoints
  dim : Nat
  numCenters : Nat
  /-- `std::numeric_limits<float>::max()`. -/
  fltMax : Scalar
  /-- `std::numeric_limits<float>::epsilon()`. -/
  epsilon : Scalar
  allocated : Nat → Nat → Nat
  distanceMatrix : Nat → Nat → Nat → Scalar

/-- `centers`, `closest_center` and `residual` after a round. -/
structure LloydsState (Scalar : Type*) where
  centers : Nat → Scalar
  closestCenter : Nat → Nat
  residual : Scalar

namespace KMeans

variable (input : KMeans Scalar)

/-- `closest_docs` of a centre. The threads append in any order, and only sums are taken. -/
def closestDocs (closestCenter : Nat → Nat) (center : Nat) : List Nat :=
  (List.range input.numPoints).filter fun doc => closestCenter doc = center

/-- `cluster_sum`. -/
def clusterSum (closestCenter : Nat → Nat) (center place : Nat) : Scalar :=
  ((input.closestDocs closestCenter center).map fun doc => rowOf input.data input.dim doc place).sum

/-- `centers` after the loop over the centres. -/
def newCenters (closestCenter : Nat → Nat) (index : Nat) : Scalar :=
  let docs := input.closestDocs closestCenter (index / input.dim)
  if 0 < docs.length then
    input.clusterSum closestCenter (index / input.dim) (index % input.dim) / docs.length
  else 0

/-- `CHUNK_SIZE`. -/
def chunkSize : Nat := 2 * 8192

/-- `residuals[chunk * BUF_PAD]`. -/
def chunkResidual (centers : Nat → Scalar) (closestCenter : Nat → Nat) (chunk : Nat) : Scalar :=
  ∑ doc ∈ Ico (chunk * chunkSize) (min input.numPoints ((chunk + 1) * chunkSize)),
    calcDistance input.dim (rowOf input.data input.dim doc)
      (rowOf centers input.dim (closestCenter doc))

/-- `lloyds_iter` in a round. -/
def lloydsIter (round : Nat) (state : LloydsState Scalar) : LloydsState Scalar :=
  let closestCenter := computeClosestCenters input.fltMax input.data input.numPoints input.dim
    state.centers input.numCenters (input.allocated round) (input.distanceMatrix round)
  let centers := input.newCenters closestCenter
  { centers := centers
    closestCenter := closestCenter
    residual := ∑ chunk ∈ range (divRoundUp input.numPoints chunkSize),
      input.chunkResidual centers closestCenter chunk }

/-- The rounds of `run_lloyds` from one on. -/
def lloydsRounds : Nat → Nat → LloydsState Scalar → LloydsState Scalar
  | 0, _, state => state
  | maxReps + 1, round, state =>
    let next := input.lloydsIter round state
    if (round ≠ 0 ∧ (state.residual - next.residual) / next.residual <
        1 / ((100000 : Nat) : Scalar)) ∨
        next.residual < input.epsilon then next
    else lloydsRounds maxReps (round + 1) next

/-- `run_lloyds`. -/
def runLloyds (maxReps : Nat) (centers : Nat → Scalar) (closestCenter : Nat → Nat) :
    LloydsState Scalar :=
  input.lloydsRounds maxReps 0 ⟨centers, closestCenter, input.fltMax⟩

/-- The state after some rounds, when none of them ends the loop. -/
def afterRounds (centers : Nat → Scalar) (closestCenter : Nat → Nat) : Nat → LloydsState Scalar
  | 0 => ⟨centers, closestCenter, input.fltMax⟩
  | round + 1 => input.lloydsIter round (afterRounds centers closestCenter round)

/-- The sum of the squared distances of the vectors to the centres that they are assigned. -/
def cost (centers : Nat → Scalar) (assigned : Nat → Nat) : Scalar :=
  ∑ doc ∈ range input.numPoints, calcDistance input.dim (rowOf input.data input.dim doc)
    (rowOf centers input.dim (assigned doc))

end KMeans

end Functions

/-! ### A round -/

section Blocks

variable {Scalar : Type*} [CommRing Scalar] [LinearOrder Scalar]

theorem closestCenters_block (fltMax : Scalar) (data : Nat → Scalar) (numPoints dim : Nat)
    (pivotData : Nat → Scalar) (numCenters parBlockSize : Nat) (allocated : Nat → Nat)
    (memory : Nat → Nat → Scalar) (block : Nat) : ∃ before,
      closestCenters fltMax data numPoints dim pivotData numCenters parBlockSize allocated memory
          block =
        computeClosestCentersInBlock fltMax (fun index => data (block * parBlockSize * dim + index))
          (min parBlockSize (numPoints - block * parBlockSize)) dim pivotData numCenters
          (computeVecsL2sq (fun index => data (block * parBlockSize * dim + index)) dim)
          (computeVecsL2sq pivotData dim) before (memory block) := by
  have norms : ∀ block, (fun point => computeVecsL2sq data dim (block * parBlockSize + point)) =
      computeVecsL2sq (fun index => data (block * parBlockSize * dim + index)) dim := by
    intro block
    funext point
    unfold computeVecsL2sq
    rw [Nat.add_mul]
    simp only [Nat.add_assoc]
  cases block with
  | zero =>
    refine ⟨allocated, ?_⟩
    simp only [closestCenters, Nat.zero_mul, Nat.zero_add, Nat.sub_zero]
  | succ block =>
    refine ⟨closestCenters fltMax data numPoints dim pivotData numCenters parBlockSize allocated
      memory block, ?_⟩
    rw [closestCenters, norms]

/-- A block has the nearest centres of its vectors that have one below `FLT_MAX`. -/
theorem closestCenters_nearest {fltMax : Scalar} {data : Nat → Scalar} {numPoints dim : Nat}
    {pivotData : Nat → Scalar} {numCenters size : Nat} (allocated : Nat → Nat)
    (memory : Nat → Nat → Scalar) {block row : Nat}
    (inside : row < min size (numPoints - block * size))
    (near : ∃ center < numCenters, calcDistance dim (rowOf data dim (block * size + row))
      (rowOf pivotData dim center) < fltMax) :
    let found := closestCenters fltMax data numPoints dim pivotData numCenters size allocated
      memory block row
    found < numCenters ∧ ∀ center < numCenters,
      calcDistance dim (rowOf data dim (block * size + row)) (rowOf pivotData dim found) ≤
        calcDistance dim (rowOf data dim (block * size + row)) (rowOf pivotData dim center) := by
  obtain ⟨before, isBlock⟩ := closestCenters_block fltMax data numPoints dim pivotData numCenters
    size allocated memory block
  have distances : ∀ center < numCenters,
      distMatrix (fun index => data (block * size * dim + index)) dim pivotData numCenters
          (computeVecsL2sq (fun index => data (block * size * dim + index)) dim)
          (computeVecsL2sq pivotData dim) (memory block) (row * numCenters + center) =
        calcDistance dim (rowOf data dim (block * size + row)) (rowOf pivotData dim center) := by
    intro center within
    rw [distMatrix_apply within]
    refine sum_congr rfl fun place _ => ?_
    rw [rowOf, rowOf, Nat.add_mul, Nat.add_assoc]
    ring
  intro found
  have scanned : found = (scanCenters (fun center =>
      calcDistance dim (rowOf data dim (block * size + row)) (rowOf pivotData dim center))
        (before row, fltMax) numCenters).1 := by
    show closestCenters _ _ _ _ _ _ _ _ _ _ _ = _
    rw [isBlock, computeClosestCentersInBlock, if_pos inside]
    exact congrArg Prod.fst (scanCenters_congr _ distances)
  rw [scanned]
  exact (scanCenters_nearest near).imp_right And.right

/-- `compute_closest_centers` finds the nearest centre of every vector that has one below
`FLT_MAX`, whatever is in its arrays. -/
theorem computeClosestCenters_nearest {fltMax : Scalar} {data : Nat → Scalar}
    {numPoints dim : Nat} {pivotData : Nat → Scalar} {numCenters : Nat} (allocated : Nat → Nat)
    (memory : Nat → Nat → Scalar) {point : Nat} (inside : point < numPoints)
    (near : ∃ center < numCenters,
      calcDistance dim (rowOf data dim point) (rowOf pivotData dim center) < fltMax) :
    let found := computeClosestCenters fltMax data numPoints dim pivotData numCenters allocated
      memory point
    found < numCenters ∧ ∀ center < numCenters,
      calcDistance dim (rowOf data dim point) (rowOf pivotData dim found) ≤
        calcDistance dim (rowOf data dim point) (rowOf pivotData dim center) := by
  unfold computeClosestCenters
  dsimp only
  have positive : 0 < min (2 ^ 23) numPoints :=
    lt_min (by decide) ((Nat.zero_le point).trans_lt inside)
  generalize min (2 ^ 23) numPoints = size at positive
  have whole := Nat.div_add_mod' point size
  have below := Nat.mod_lt point positive
  have row : point - point / size * size < min size (numPoints - point / size * size) := by
    omega
  have address : point / size * size + (point - point / size * size) = point :=
    Nat.add_sub_cancel' (Nat.div_mul_le_self _ _)
  have nearest := closestCenters_nearest allocated memory row (address.symm ▸ near)
  rwa [address] at nearest

end Blocks

/-- Chunks behind each other add up to the whole. -/
theorem sum_chunks {Scalar : Type*} [AddCommMonoid Scalar] (value : Nat → Scalar)
    (size total count : Nat) :
    ∑ chunk ∈ range count, ∑ index ∈ Ico (chunk * size) (min total ((chunk + 1) * size)),
        value index =
      ∑ index ∈ range (min total (count * size)), value index := by
  induction count with
  | zero => rw [Nat.zero_mul, Nat.min_zero, range_zero, sum_empty, sum_empty]
  | succ count inductionHypothesis =>
    rw [sum_range_succ, inductionHypothesis, range_eq_Ico, range_eq_Ico]
    have grows : count * size ≤ (count + 1) * size := Nat.mul_le_mul_right size (Nat.le_succ count)
    rcases Nat.le_total total (count * size) with behind | within
    · rw [Nat.min_eq_left behind, Nat.min_eq_left (behind.trans grows), Ico_eq_empty_of_le behind,
        sum_empty, add_zero]
    · rw [Nat.min_eq_right within]
      exact sum_Ico_consecutive _ (Nat.zero_le _) (le_min within grows)

namespace KMeans

variable {Scalar : Type*} [Field Scalar] [LinearOrder Scalar] {input : KMeans Scalar}

/-- The residual of a round is the cost of what it leaves. -/
theorem residual_lloydsIter (round : Nat) (state : LloydsState Scalar) :
    (input.lloydsIter round state).residual =
      input.cost (input.lloydsIter round state).centers
        (input.lloydsIter round state).closestCenter := by
  have all : min input.numPoints (divRoundUp input.numPoints chunkSize * chunkSize) =
      input.numPoints := Nat.min_eq_left (le_divRoundUp_mul _ (by decide))
  refine (sum_chunks _ chunkSize input.numPoints _).trans ?_
  rw [all]
  rfl

/-- The vectors that are assigned a centre. -/
def cluster (input : KMeans Scalar) (assigned : Nat → Nat) (center : Nat) : Finset Nat :=
  (range input.numPoints).filter fun doc => assigned doc = center

omit [LinearOrder Scalar] in
theorem clusterSum_eq (assigned : Nat → Nat) (center place : Nat) :
    input.clusterSum assigned center place =
      ∑ doc ∈ input.cluster assigned center, rowOf input.data input.dim doc place := rfl

omit [Field Scalar] [LinearOrder Scalar] in
theorem length_closestDocs (assigned : Nat → Nat) (center : Nat) :
    (input.closestDocs assigned center).length = #(input.cluster assigned center) := rfl

omit [LinearOrder Scalar] in
/-- A centre with vectors is moved to their mean. -/
theorem rowOf_newCenters {assigned : Nat → Nat} {center place : Nat}
    (some : (input.cluster assigned center).Nonempty) (inside : place < input.dim) :
    rowOf (input.newCenters assigned) input.dim center place =
      (∑ doc ∈ input.cluster assigned center, rowOf input.data input.dim doc place) /
        #(input.cluster assigned center) := by
  rw [rowOf, newCenters]
  rw [div_row inside, Nat.mul_add_mod_of_lt inside, length_closestDocs, if_pos some.card_pos,
    clusterSum_eq]

omit [LinearOrder Scalar] in
/-- The cost by centres and places. -/
theorem cost_eq (centers : Nat → Scalar) (assigned : Nat → Nat) :
    input.cost centers assigned =
      ∑ center ∈ (range input.numPoints).image assigned, ∑ place ∈ range input.dim,
        ∑ doc ∈ input.cluster assigned center,
          (rowOf input.data input.dim doc place - rowOf centers input.dim center place) *
            (rowOf input.data input.dim doc place - rowOf centers input.dim center place) := by
  unfold cost
  rw [← sum_fiberwise_of_maps_to (fun doc member => mem_image_of_mem assigned member)]
  refine sum_congr rfl fun center _ => ?_
  rw [sum_comm]
  refine sum_congr rfl fun doc member => ?_
  rw [(mem_filter.mp member).2]
  rfl

variable [IsStrictOrderedRing Scalar]

/-- No centres are better for an assignment than the means. -/
theorem cost_newCenters_le (centers : Nat → Scalar) (assigned : Nat → Nat) :
    input.cost (input.newCenters assigned) assigned ≤ input.cost centers assigned := by
  rw [cost_eq, cost_eq]
  refine sum_le_sum fun center isCenter => sum_le_sum fun place inside => ?_
  obtain ⟨doc, member, isAssigned⟩ := mem_image.mp isCenter
  have some : (input.cluster assigned center).Nonempty := ⟨doc, mem_filter.mpr ⟨member, isAssigned⟩⟩
  rw [rowOf_newCenters some (mem_range.mp inside)]
  exact sum_sq_sub_mean_le _ _ _

/-- Every vector is assigned one of the centres. -/
def Assigns (input : KMeans Scalar) (assigned : Nat → Nat) : Prop :=
  ∀ doc < input.numPoints, assigned doc < input.numCenters

/-- What a round leaves: the nearest of the old centres for every vector, the best centres for
these vectors, and their cost. -/
structure LloydsRound (input : KMeans Scalar) (before after : LloydsState Scalar) : Prop where
  assigns : input.Assigns after.closestCenter
  nearest : ∀ doc < input.numPoints, ∀ center < input.numCenters,
    calcDistance input.dim (rowOf input.data input.dim doc)
        (rowOf before.centers input.dim (after.closestCenter doc)) ≤
      calcDistance input.dim (rowOf input.data input.dim doc)
        (rowOf before.centers input.dim center)
  residual_eq : after.residual = input.cost after.centers after.closestCenter
  best : ∀ centers, after.residual ≤ input.cost centers after.closestCenter

/-- The residual of a round is no larger than the cost of any assignment to the old centres. -/
theorem LloydsRound.residual_le {before after : LloydsState Scalar}
    (round : input.LloydsRound before after) {assigned : Nat → Nat}
    (assigns : input.Assigns assigned) : after.residual ≤ input.cost before.centers assigned :=
  (round.best before.centers).trans <| sum_le_sum fun doc inside =>
    round.nearest doc (mem_range.mp inside) _ (assigns doc (mem_range.mp inside))

theorem calcDistance_nonneg (dim : Nat) (vec1 vec2 : Nat → Scalar) :
    0 ≤ calcDistance dim vec1 vec2 :=
  sum_nonneg fun _ _ => mul_self_nonneg _

/-- Some assignment to the centres costs less than `FLT_MAX`. -/
def Finite (input : KMeans Scalar) (centers : Nat → Scalar) : Prop :=
  ∃ assigned, input.Assigns assigned ∧ input.cost centers assigned < input.fltMax

/-- Then every vector has a centre at a distance below `FLT_MAX`. -/
theorem Finite.near {centers : Nat → Scalar} (finite : input.Finite centers) {doc : Nat}
    (inside : doc < input.numPoints) :
    ∃ center < input.numCenters, calcDistance input.dim (rowOf input.data input.dim doc)
      (rowOf centers input.dim center) < input.fltMax := by
  obtain ⟨assigned, assigns, below⟩ := finite
  refine ⟨assigned doc, assigns doc inside, lt_of_le_of_lt ?_ below⟩
  exact single_le_sum (f := fun doc => calcDistance input.dim (rowOf input.data input.dim doc)
    (rowOf centers input.dim (assigned doc))) (fun _ _ => calcDistance_nonneg _ _ _)
    (mem_range.mpr inside)

theorem lloydsRound_lloydsIter (round : Nat) {state : LloydsState Scalar}
    (finite : input.Finite state.centers) :
    input.LloydsRound state (input.lloydsIter round state) where
  assigns _ inside := (computeClosestCenters_nearest _ _ inside (finite.near inside)).1
  nearest _ inside := (computeClosestCenters_nearest _ _ inside (finite.near inside)).2
  residual_eq := residual_lloydsIter round state
  best centers := (residual_lloydsIter round state).trans_le (cost_newCenters_le centers _)

theorem LloydsRound.finite {before after : LloydsState Scalar}
    (round : input.LloydsRound before after) (finite : input.Finite before.centers) :
    input.Finite after.centers := by
  obtain ⟨assigned, assigns, below⟩ := finite
  exact ⟨after.closestCenter, round.assigns,
    round.residual_eq.symm.trans_lt ((round.residual_le assigns).trans_lt below)⟩

/-! ### The rounds -/

section Rounds

variable {centers : Nat → Scalar} (closestCenter : Nat → Nat)

theorem finite_afterRounds (finite : input.Finite centers) (rounds : Nat) :
    input.Finite (input.afterRounds centers closestCenter rounds).centers := by
  induction rounds with
  | zero => exact finite
  | succ rounds inductionHypothesis =>
    exact (lloydsRound_lloydsIter rounds inductionHypothesis).finite inductionHypothesis

theorem lloydsRound_afterRounds (finite : input.Finite centers) (rounds : Nat) :
    input.LloydsRound (input.afterRounds centers closestCenter rounds)
      (input.afterRounds centers closestCenter (rounds + 1)) :=
  lloydsRound_lloydsIter rounds (finite_afterRounds closestCenter finite rounds)

theorem residual_antitone (finite : input.Finite centers) :
    Antitone fun rounds => (input.afterRounds centers closestCenter rounds).residual := by
  refine antitone_nat_of_succ_le fun rounds => ?_
  have next := lloydsRound_afterRounds closestCenter finite rounds
  cases rounds with
  | zero =>
    obtain ⟨assigned, assigns, below⟩ := finite
    exact (next.residual_le assigns).trans below.le
  | succ rounds =>
    have last := lloydsRound_afterRounds closestCenter finite rounds
    exact (next.residual_le last.assigns).trans_eq last.residual_eq.symm

omit [IsStrictOrderedRing Scalar] in
theorem lloydsRounds_eq (input : KMeans Scalar) (centers : Nat → Scalar) (maxReps round : Nat) :
    ∃ rounds ≤ maxReps, (0 < maxReps → 0 < rounds) ∧
      input.lloydsRounds maxReps round (input.afterRounds centers closestCenter round) =
        input.afterRounds centers closestCenter (round + rounds) := by
  induction maxReps generalizing round with
  | zero => exact ⟨0, le_refl 0, id, rfl⟩
  | succ maxReps inductionHypothesis =>
    unfold lloydsRounds
    dsimp only
    split
    · exact ⟨1, Nat.le_add_left 1 maxReps, fun _ => Nat.zero_lt_one, rfl⟩
    · obtain ⟨rounds, within, _, same⟩ := inductionHypothesis (round + 1)
      refine ⟨rounds + 1, Nat.succ_le_succ within, fun _ => Nat.succ_pos rounds, ?_⟩
      exact same.trans (congrArg _ (Nat.add_right_comm round 1 rounds))

end Rounds

end KMeans

/-- k-means never makes its residual larger. If the first centres have an assignment that costs
less than `FLT_MAX`, every round assigns every vector to its nearest centre, moves the centres to
the best place for that, and returns their cost; and `run_lloyds` returns what some of the
rounds leave. -/
theorem run_lloyds_descends {Scalar : Type*} [Field Scalar] [LinearOrder Scalar]
    [IsStrictOrderedRing Scalar] (input : KMeans Scalar) (maxReps : Nat) (centers : Nat → Scalar)
    (closestCenter : Nat → Nat) (finite : input.Finite centers) :
    (∀ rounds, input.LloydsRound (input.afterRounds centers closestCenter rounds)
      (input.afterRounds centers closestCenter (rounds + 1))) ∧
    (Antitone fun rounds => (input.afterRounds centers closestCenter rounds).residual) ∧
    (∃ rounds ≤ maxReps, (0 < maxReps → 0 < rounds) ∧
      input.runLloyds maxReps centers closestCenter =
        input.afterRounds centers closestCenter rounds) ∧
    (0 < maxReps → ∀ assigned, input.Assigns assigned →
      (input.runLloyds maxReps centers closestCenter).residual ≤ input.cost centers assigned) := by
  obtain ⟨rounds, within, some, same⟩ := KMeans.lloydsRounds_eq closestCenter input
    centers maxReps 0
  rw [Nat.zero_add] at same
  replace same : input.runLloyds maxReps centers closestCenter = _ := same
  refine ⟨KMeans.lloydsRound_afterRounds closestCenter finite,
    KMeans.residual_antitone closestCenter finite, ⟨rounds, within, some, same⟩,
    fun positive assigned assigns => ?_⟩
  have first := KMeans.lloydsRound_afterRounds closestCenter finite 0
  have later := KMeans.residual_antitone closestCenter finite (some positive)
  rw [same]
  exact later.trans (first.residual_le assigns)

/-- The points 0, 1, 10, 12 and 14, in two clusters. -/
def fivePoints : KMeans ℚ where
  data point := [0, 1, 10, 12, 14].getD point 0
  numPoints := 5
  numPoints_pos := by decide
  dim := 1
  numCenters := 2
  fltMax := 1000
  epsilon := 1 / 1000
  allocated _ _ := 0
  distanceMatrix _ _ _ := 0

/-- The centres 0 and 10 cost 21, and so no more is left. -/
theorem run_lloyds_descends_fivePoints :
    (fivePoints.runLloyds 3 (fun center => [0, 10].getD center 0) fun _ => 0).residual ≤ 21 := by
  have clusters : fivePoints.Assigns fun doc => min (doc / 2) 1 := by
    show ∀ doc < 5, min (doc / 2) 1 < 2
    decide
  have costs : fivePoints.cost (fun center => [0, 10].getD center 0) (fun doc => min (doc / 2) 1) =
      21 := by
    decide +kernel
  have finite : fivePoints.Finite fun center => [0, 10].getD center 0 :=
    ⟨_, clusters, costs.trans_lt (by decide +kernel)⟩
  have left := (run_lloyds_descends fivePoints 3 _ (fun _ => 0) finite).2.2.2 (by decide) _ clusters
  exact left.trans_eq costs

end OdinVector
