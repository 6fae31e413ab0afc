/-
This file models the tool that computes the ground truth of a benchmark, `compute_groundtruth`:
the nearest points of each query, in exact arithmetic. The points are read in parts. In each
part a priority queue keeps the nearest points of a query; at the end the rows of all parts are
sorted together.

The tool expects that no part has fewer points than neighbours are asked for. It reads past the
distances of a smaller part.
-/

import OdinVector.Build.ShardUnion
import OdinVector.NearestRows
import OdinVector.Pq.PqEncoders

namespace OdinVector

open Finset NearestList

/-! ### A part -/

section Part

variable {Scalar : Type} [CommRing Scalar] [LinearOrder Scalar]

/-- `compute_l2sq`. -/
def computeL2sq (matrix : Nat → Scalar) (dim d : Nat) : Scalar := computeVecsL2sq matrix dim d

/-- `distsq_to_points`: a column has the distances of a query. -/
def distsqToPoints (dim npoints : Nat) (points pointsL2sq : Nat → Scalar) (nqueries : Nat)
    (queries queriesL2sq distMatrix : Nat → Scalar) (index : Nat) : Scalar :=
  if index < npoints * nqueries then
    let products := sgemm npoints dim (-((2 : Nat) : Scalar)) queries points 0 distMatrix
    let sums := sgemm npoints 1 1 (fun _ => 1) pointsL2sq 1 products
    sgemm npoints 1 1 queriesL2sq (fun _ => 1) 1 sums index
  else distMatrix index

/-- A round of the loop over the points behind the first `k`. -/
def keepNearest (tops : MaxQueue (Prod.snd : Nat × Scalar → Scalar)) (k : Nat)
    (row : Nat → Scalar) (pointDist : List (Nat × Scalar)) (p : Nat) :
    Option (List (Nat × Scalar)) :=
  (tops.top pointDist).map fun top =>
    let pointDist := if row p < top.2 then (p, row p) :: pointDist else pointDist
    if k < pointDist.length then tops.pop pointDist else pointDist

/-- What `exact_knn` writes for a query, from its distances. -/
def closestPoints (tops : MaxQueue (Prod.snd : Nat × Scalar → Scalar)) (k npoints : Nat)
    (row : Nat → Scalar) : Option (List (Nat × Scalar)) :=
  let pointDist := (List.range k).foldl (fun pointDist p => (p, row p) :: pointDist) []
  ((List.range' k (npoints - k)).foldlM (keepNearest tops k row) pointDist).bind fun pointDist =>
    tops.drain k pointDist []

/-- `q_batch_size`. -/
def qBatchSize : Nat := 2 ^ 9

/-- What `exact_knn` writes for a query. The matrix of a batch is in the memory of the last
one. -/
def exactKnn (tops : MaxQueue (Prod.snd : Nat × Scalar → Scalar)) (dim k npoints : Nat)
    (points : Nat → Scalar) (nqueries : Nat) (queries : Nat → Scalar)
    (distMatrix : Nat → Nat → Scalar) (q : Nat) : Option (List (Nat × Scalar)) :=
  let b := q / qBatchSize
  let current := distsqToPoints dim npoints points (computeL2sq points dim)
    (min qBatchSize (nqueries - b * qBatchSize))
    (fun index => queries (b * qBatchSize * dim + index))
    (fun query => computeL2sq queries dim (b * qBatchSize + query)) (distMatrix b)
  closestPoints tops k npoints fun p => current (p + (q - b * qBatchSize) * npoints)

/-- The squared distance of a query and a point. -/
def squaredDistance (dim : Nat) (queries : Nat → Scalar) (q : Nat) (points : Nat → Scalar)
    (point : Nat) : Scalar :=
  ∑ place ∈ range dim, (queries (q * dim + place) - points (point * dim + place)) *
    (queries (q * dim + place) - points (point * dim + place))

omit [LinearOrder Scalar] in
theorem distsqToPoints_apply {dim npoints : Nat} {points queries : Nat → Scalar} {nqueries : Nat}
    (distMatrix : Nat → Scalar) {p q : Nat} (inside : p < npoints) (isQuery : q < nqueries) :
    distsqToPoints dim npoints points (computeL2sq points dim) nqueries queries
        (computeL2sq queries dim) distMatrix (p + q * npoints) =
      squaredDistance dim queries q points p := by
  have within : p + q * npoints < npoints * nqueries := by
    calc p + q * npoints < npoints + q * npoints := Nat.add_lt_add_right inside _
      _ = npoints * (q + 1) := by ring
      _ ≤ npoints * nqueries := Nat.mul_le_mul_left npoints isQuery
  rw [distsqToPoints, if_pos within]
  dsimp only
  rw [Nat.add_comm p, sgemm_apply inside, sgemm_apply inside, sgemm_apply inside, sum_range_one,
    sum_range_one, computeL2sq, computeL2sq, computeVecsL2sq, computeVecsL2sq, squaredDistance]
  simp only [one_mul, mul_one, zero_mul, add_zero, mul_sum, ← sum_add_distrib, Nat.cast_ofNat]
  exact sum_congr rfl fun place _ => by ring

/-- The distances of the first points of a row. -/
def seenOf (row : Nat → Scalar) (count : Nat) : Finset (Nat × Scalar) :=
  (range count).image fun p => (p, row p)

omit [CommRing Scalar] in
theorem card_seenOf (row : Nat → Scalar) (count : Nat) : (seenOf row count).card = count := by
  rw [seenOf, card_image_of_injective _ fun first second same => congrArg Prod.fst same,
    card_range]

omit [CommRing Scalar] in
theorem seenOf_succ (row : Nat → Scalar) (count : Nat) :
    seenOf row (count + 1) = insert (count, row count) (seenOf row count) := by
  rw [seenOf, range_add_one, image_insert, seenOf]

omit [CommRing Scalar] in
theorem notMem_seenOf (row : Nat → Scalar) (count : Nat) :
    (count, row count) ∉ seenOf row count := by
  intro member
  obtain ⟨p, before, same⟩ := mem_image.mp member
  exact absurd (mem_range.mp before) (Nat.not_lt.mpr (congrArg Prod.fst same).ge)

omit [CommRing Scalar] in
/-- The distances of the points before one, and of those from it on. -/
theorem seenOf_add (row : Nat → Scalar) (start count : Nat) :
    seenOf row (start + count) =
      seenOf row start ∪ (range count).image fun p => (start + p, row (start + p)) := by
  ext pair
  simp only [seenOf, mem_union, mem_image, mem_range]
  constructor
  · rintro ⟨p, inside, rfl⟩
    rcases Nat.lt_or_ge p start with before | behind
    · exact .inl ⟨p, before, rfl⟩
    · exact .inr ⟨p - start, Nat.sub_lt_left_of_lt_add behind inside, by
        rw [Nat.add_sub_cancel' behind]⟩
  · rintro (⟨p, before, rfl⟩ | ⟨p, inside, rfl⟩)
    · exact ⟨p, Nat.lt_add_right count before, rfl⟩
    · exact ⟨start + p, Nat.add_lt_add_left inside start, rfl⟩

omit [CommRing Scalar] in
theorem disjoint_seenOf (row : Nat → Scalar) (start count : Nat) :
    Disjoint (seenOf row start) ((range count).image fun p => (start + p, row (start + p))) := by
  refine disjoint_left.mpr fun pair before behind => ?_
  obtain ⟨p, inside, rfl⟩ := mem_image.mp before
  obtain ⟨other, _, same⟩ := mem_image.mp behind
  have equal : start + other = p := congrArg Prod.fst same
  exact absurd (mem_range.mp inside) (Nat.not_lt.mpr (equal ▸ Nat.le_add_right start other))

omit [CommRing Scalar] in
/-- A round keeps the nearest points. -/
theorem keepNearest_keeps (tops : MaxQueue (Prod.snd : Nat × Scalar → Scalar)) {k p : Nat}
    {row : Nat → Scalar} {pointDist : List (Nat × Scalar)} (some : 0 < k) (behind : k ≤ p)
    (keeps : Keeps Prod.snd k (seenOf row p) pointDist) :
    ∃ next, keepNearest tops k row pointDist p = .some next ∧
      Keeps Prod.snd k (seenOf row (p + 1)) next := by
  have full : pointDist.length = k := by
    rw [keeps.length, card_seenOf, Nat.min_eq_left behind]
  have fresh := notMem_seenOf row p
  obtain ⟨top, inside, isTop, greatest⟩ := tops.greatest (List.ne_nil_of_length_pos (full ▸ some))
  rw [seenOf_succ]
  by_cases nearer : row p < top.2
  · obtain ⟨out, isIn, isOut, outGreatest⟩ := tops.greatest (List.cons_ne_nil (p, row p) pointDist)
    refine ⟨_, ?_, keeps.exchange full fresh inside nearer isIn outGreatest⟩
    have longer : k < ((p, row p) :: pointDist).length := by
      rw [List.length_cons, full]
      exact Nat.lt_succ_self k
    rw [keepNearest, isTop, Option.map_some]
    dsimp only
    rw [if_pos nearer, if_pos longer, tops.pop_eq isOut]
  · refine ⟨pointDist, ?_, keeps.skip full fresh fun near member =>
      (greatest near member).trans (not_lt.mp nearer)⟩
    rw [keepNearest, isTop, Option.map_some]
    dsimp only
    rw [if_neg nearer, if_neg full.not_gt]

omit [CommRing Scalar] in
theorem foldlM_keepNearest (tops : MaxQueue (Prod.snd : Nat × Scalar → Scalar)) {k : Nat}
    {row : Nat → Scalar} (some : 0 < k) {start : Nat} (count : Nat) (behind : k ≤ start)
    {pointDist : List (Nat × Scalar)} (keeps : Keeps Prod.snd k (seenOf row start) pointDist) :
    ∃ last, (List.range' start count).foldlM (keepNearest tops k row) pointDist = .some last ∧
      Keeps Prod.snd k (seenOf row (start + count)) last := by
  induction count generalizing start pointDist with
  | zero => exact ⟨pointDist, rfl, keeps⟩
  | succ count inductionHypothesis =>
    obtain ⟨next, isNext, nextKeeps⟩ := keepNearest_keeps tops some behind keeps
    obtain ⟨last, isLast, lastKeeps⟩ := inductionHypothesis (Nat.le_succ_of_le behind) nextKeeps
    refine ⟨last, ?_, ?_⟩
    · rw [List.range'_succ, List.foldlM_cons, isNext]
      exact isLast
    · rwa [Nat.succ_add_eq_add_succ] at lastKeeps

omit [CommRing Scalar] in
/-- A part with at least `k` points gives its `k` nearest points in order. -/
theorem closestPoints_spec (tops : MaxQueue (Prod.snd : Nat × Scalar → Scalar)) {k npoints : Nat}
    (row : Nat → Scalar) (some : 0 < k) (enough : k ≤ npoints) :
    ∃ all, closestPoints tops k npoints row = .some all ∧
      Nearest Prod.snd k (seenOf row npoints) all := by
  have first : ∀ count, (List.range count).foldl (fun pointDist p => (p, row p) :: pointDist) [] =
      ((List.range count).map fun p => (p, row p)).reverse := by
    intro count
    induction count with
    | zero => rfl
    | succ count inductionHypothesis =>
      rw [List.range_succ, List.foldl_append, inductionHypothesis, List.map_append,
        List.reverse_append]
      rfl
  have pairs : ((List.range k).map fun p => (p, row p)).reverse.toFinset = seenOf row k := by
    ext pair
    simp only [List.mem_toFinset, List.mem_reverse, List.mem_map, List.mem_range, seenOf,
      mem_image, mem_range]
  have start := @keeps_all _ _ _ (Prod.snd : Nat × Scalar → Scalar) k
    ((List.range k).map fun p => (p, row p)).reverse _
    (List.nodup_reverse.mpr (List.nodup_range.map fun _ _ same => congrArg Prod.fst same))
    (by rw [List.length_reverse, List.length_map, List.length_range])
  rw [pairs] at start
  obtain ⟨last, isLast, keeps⟩ := foldlM_keepNearest tops some (npoints - k) (le_refl k) start
  rw [Nat.add_sub_cancel' enough] at keeps
  have full : last.length = k := by
    rw [keeps.length, card_seenOf, Nat.min_eq_left enough]
  obtain ⟨all, drained, sorted, perm⟩ := @MaxQueue.drain_spec _ _ _ _ _ tops last []
    List.Pairwise.nil fun _ _ _ absent => absurd absent List.not_mem_nil
  rw [List.append_nil] at perm
  refine ⟨all, ?_, keeps.nearest_row sorted perm⟩
  rw [closestPoints, first, isLast, Option.bind_some, ← full, drained]

omit [LinearOrder Scalar] in
/-- Vectors from one on. -/
theorem squaredDistance_shift (dim : Nat) (queries : Nat → Scalar) (firstQuery q : Nat)
    (points : Nat → Scalar) (firstPoint point : Nat) :
    squaredDistance dim (fun index => queries (firstQuery * dim + index)) q
        (fun index => points (firstPoint * dim + index)) point =
      squaredDistance dim queries (firstQuery + q) points (firstPoint + point) := by
  unfold squaredDistance
  simp only [Nat.add_mul, Nat.add_assoc]

/-- `exact_knn` gives the nearest points of each query. -/
theorem exactKnn_spec (tops : MaxQueue (Prod.snd : Nat × Scalar → Scalar)) {dim k npoints : Nat}
    {points : Nat → Scalar} {nqueries : Nat} {queries : Nat → Scalar}
    (distMatrix : Nat → Nat → Scalar) {q : Nat} (some : 0 < k) (enough : k ≤ npoints)
    (isQuery : q < nqueries) :
    ∃ all, exactKnn tops dim k npoints points nqueries queries distMatrix q = .some all ∧
      Nearest Prod.snd k (seenOf (squaredDistance dim queries q points) npoints) all := by
  have split := Nat.div_add_mod' q qBatchSize
  have below : q % qBatchSize < qBatchSize := Nat.mod_lt q (by decide)
  have place : q - q / qBatchSize * qBatchSize = q % qBatchSize := Nat.sub_eq_of_eq_add' split.symm
  have inBatch : q % qBatchSize < min qBatchSize (nqueries - q / qBatchSize * qBatchSize) := by
    refine lt_min below ?_
    omega
  have norms : (fun query => computeL2sq queries dim (q / qBatchSize * qBatchSize + query)) =
      computeL2sq (fun index => queries (q / qBatchSize * qBatchSize * dim + index)) dim := by
    funext query
    unfold computeL2sq computeVecsL2sq
    simp only [Nat.add_mul, Nat.add_assoc]
  obtain ⟨all, isAll, nearest⟩ := closestPoints_spec tops (fun p => distsqToPoints dim npoints
    points (computeL2sq points dim) (min qBatchSize (nqueries - q / qBatchSize * qBatchSize))
    (fun index => queries (q / qBatchSize * qBatchSize * dim + index))
    (computeL2sq (fun index => queries (q / qBatchSize * qBatchSize * dim + index)) dim)
    (distMatrix (q / qBatchSize)) (p + q % qBatchSize * npoints)) some enough
  refine ⟨all, ?_, ?_⟩
  · rw [exactKnn, norms, place]
    exact isAll
  · refine (congrArg (Nearest Prod.snd k · all) (image_congr fun p inside => ?_)).mp nearest
    refine congrArg (Prod.mk p) ((distsqToPoints_apply _ (mem_range.mp (mem_coe.mp inside))
      inBatch).trans ?_)
    have shifted := squaredDistance_shift dim queries (q / qBatchSize * qBatchSize)
      (q % qBatchSize) points 0 p
    simpa only [Nat.zero_mul, Nat.zero_add, split] using shifted

end Part

/-! ### All parts -/

/-- What `compute_groundtruth` is given, and what is in the arrays that it allocates. -/
structure TruthInput (Scalar : Type) [LinearOrder Scalar] where
  base : Nat → Scalar
  npts : Nat
  /-- `PARTSIZE`, which is 10000000. -/
  partSize : Nat
  partSize_pos : 0 < partSize
  queries : Nat → Scalar
  nqueries : Nat
  dim : Nat
  k : Nat
  tops : MaxQueue (Prod.snd : Nat × Scalar → Scalar)
  bySecond : KeySort (Prod.snd : Nat × Scalar → Scalar)
  distMatrix : Nat → Nat → Nat → Scalar

namespace TruthInput

variable {Scalar : Type} [CommRing Scalar] [LinearOrder Scalar] (input : TruthInput Scalar)

/-- `get_num_parts`. -/
def getNumParts : Nat :=
  if input.npts % input.partSize = 0 then input.npts / input.partSize
  else input.npts / input.partSize + 1

/-- `npts` in `load_bin_as_float`. -/
def partPoints (part : Nat) : Nat :=
  min (part * input.partSize + input.partSize) input.npts - part * input.partSize

/-- What a part adds to `results`. -/
def partResults (q part : Nat) : Option (List (Nat × Scalar)) :=
  (exactKnn input.tops input.dim input.k (input.partPoints part)
    (fun index => input.base (part * input.partSize * input.dim + index)) input.nqueries
    input.queries (input.distMatrix part) q).map fun closest =>
      closest.map fun pair => (part * input.partSize + pair.1, pair.2)

/-- `results` of a query after some parts. -/
def results (q parts : Nat) : Option (List (Nat × Scalar)) :=
  (List.range parts).foldlM (fun results part =>
    (input.partResults q part).map fun closest => results ++ closest) []

/-- What is written for a query. -/
def truthRow (q : Nat) : Option (List (Nat × Scalar)) :=
  (input.results q input.getNumParts).bind fun results =>
    let curRes := input.bySecond.sort results
    if input.k ≤ curRes.length then some (curRes.take input.k) else none

/-- What is written for all queries. -/
def truth : Option (List (List (Nat × Scalar))) := (List.range input.nqueries).mapM input.truthRow

/-- The squared distance of a query and a point of the data. -/
def distance (q : Nat) : Nat → Scalar := squaredDistance input.dim input.queries q input.base

/-- Every part has as many points as neighbours are asked for. -/
def PartsFull : Prop :=
  0 < input.npts ∧ ∀ part < input.getNumParts, input.k ≤ input.partPoints part

omit [CommRing Scalar] in
theorem npts_le_getNumParts_mul : input.npts ≤ input.getNumParts * input.partSize := by
  have all := le_divRoundUp_mul input.npts input.partSize_pos
  unfold divRoundUp at all
  unfold getNumParts
  split at all <;> rename_i whole
  · rwa [if_pos whole]
  · rwa [if_neg whole]

/-- The nearest points of a query with their distances. -/
structure IsTruth (q : Nat) (row : List (Nat × Scalar)) : Prop where
  distances : ∀ pair ∈ row, pair.2 = input.distance q pair.1
  length : row.length = input.k
  nearest : Nearest (input.distance q) input.k (range input.npts) (row.map Prod.fst)

variable {input}

theorem partResults_spec {q part : Nat} (some : 0 < input.k)
    (enough : input.k ≤ input.partPoints part) (isQuery : q < input.nqueries) :
    ∃ closest, input.partResults q part = .some closest ∧
      Nearest Prod.snd input.k ((range (input.partPoints part)).image fun p =>
        (part * input.partSize + p, input.distance q (part * input.partSize + p))) closest := by
  obtain ⟨all, isAll, nearest⟩ :=
    exactKnn_spec input.tops (input.distMatrix part) some enough isQuery
  refine ⟨_, congrArg (Option.map _) isAll, ?_⟩
  have injective : Function.Injective fun pair : Nat × Scalar =>
      (part * input.partSize + pair.1, pair.2) := fun first second same => by
    rw [Prod.mk.injEq, Nat.add_right_inj] at same
    exact Prod.ext same.1 same.2
  have moved : Nearest Prod.snd input.k _ _ := nearest.map injective fun _ => rfl
  rw [seenOf, image_image] at moved
  refine (congrArg (Nearest Prod.snd input.k · _) (image_congr fun p _ => ?_)).mp moved
  have shifted :=
    squaredDistance_shift input.dim input.queries 0 q input.base (part * input.partSize) p
  simp only [Nat.zero_mul, Nat.zero_add] at shifted
  exact congrArg (Prod.mk _) shifted

/-- After some parts `results` has the nearest ones of their points. -/
theorem results_spec {q parts : Nat} (some : 0 < input.k)
    (enough : ∀ part < parts, input.k ≤ input.partPoints part) (isQuery : q < input.nqueries) :
    ∃ results, input.results q parts = .some results ∧
      HasNearest Prod.snd input.k
        (seenOf (input.distance q) (min (parts * input.partSize) input.npts)) results := by
  induction parts with
  | zero =>
    refine ⟨[], rfl, ?_⟩
    rw [Nat.zero_mul, Nat.zero_min]
    exact hasNearest_nil
  | succ parts inductionHypothesis =>
    obtain ⟨before, isBefore, has⟩ := inductionHypothesis fun part less =>
      enough part (less.trans (Nat.lt_succ_self parts))
    obtain ⟨closest, isClosest, nearest⟩ := partResults_spec some
      (enough parts (Nat.lt_succ_self parts)) isQuery
    refine ⟨before ++ closest, ?_, ?_⟩
    · rw [results, List.range_succ, List.foldlM_append, ← results, isBefore]
      show ((input.partResults q parts).map fun closest => before ++ closest).bind Option.some = _
      rw [isClosest]
      rfl
    · have less : parts * input.partSize < input.npts := by
        have points := some.trans_le (enough parts (Nat.lt_succ_self parts))
        unfold partPoints at points
        omega
      have next : min ((parts + 1) * input.partSize) input.npts =
          parts * input.partSize + input.partPoints parts := by
        unfold partPoints
        rw [Nat.add_mul, Nat.one_mul, Nat.add_sub_cancel' (le_min (Nat.le_add_right _ _) less.le)]
      rw [Nat.min_eq_left less.le] at has
      rw [next, seenOf_add]
      exact has.append nearest.hasNearest (disjoint_seenOf _ _ _)

theorem truthRow_spec (some : 0 < input.k) (full : input.PartsFull) {q : Nat}
    (isQuery : q < input.nqueries) : ∃ row, input.truthRow q = .some row ∧ input.IsTruth q row := by
  obtain ⟨results, isResults, has⟩ := results_spec some full.2 isQuery
  have all : min (input.getNumParts * input.partSize) input.npts = input.npts :=
    Nat.min_eq_right input.npts_le_getNumParts_mul
  rw [all] at has
  have nearest := (has.perm (input.bySecond.perm results)).nearest (input.bySecond.sorted results)
  generalize isRow : (input.bySecond.sort results).take input.k = row at nearest
  have distances : ∀ pair ∈ row, pair.2 = input.distance q pair.1 := by
    intro pair member
    obtain ⟨p, _, rfl⟩ := mem_image.mp (nearest.subset pair member)
    rfl
  have same : row = (row.map Prod.fst).map fun id => (id, input.distance q id) := by
    rw [List.map_map]
    exact (List.map_id' row).symm.trans (List.map_congr_left fun pair member =>
      Prod.ext rfl (distances pair member))
  have enough : input.k ≤ input.npts := by
    have parts := full.1.trans_le input.npts_le_getNumParts_mul
    have first := full.2 0 (Nat.pos_of_mul_pos_right parts)
    unfold partPoints at first
    omega
  have length : row.length = input.k := by
    rw [nearest.length, card_seenOf, Nat.min_eq_left enough]
  have long : input.k ≤ (input.bySecond.sort results).length := by
    rw [← isRow, List.length_take] at length
    omega
  refine ⟨row, ?_, distances, length, ?_⟩
  · rw [truthRow, isResults, Option.bind_some]
    dsimp only
    rw [if_pos long, isRow]
  · rw [same] at nearest
    exact nearest.of_map (fun first second equal => congrArg Prod.fst equal) fun _ => rfl

end TruthInput

/-- If every part has as many points as neighbours are asked for, `compute_groundtruth` writes for
every query exactly its nearest points with their distances, in order. Of points that are equally
far, any are taken. -/
theorem ground_truth_is_exact {Scalar : Type} [CommRing Scalar] [LinearOrder Scalar]
    (input : TruthInput Scalar) (some : 0 < input.k) (full : input.PartsFull) :
    ∃ rows, input.truth = .some rows ∧
      List.Forall₂ input.IsTruth (List.range input.nqueries) rows :=
  mapM_some fun _ isQuery => TruthInput.truthRow_spec some full (List.mem_range.mp isQuery)

/-- The numbers 9, 4, 6, 1 and 5 in parts of three, and the queries 0 and 6. -/
def fiveNumbers : TruthInput ℤ where
  base point := [9, 4, 6, 1, 5].getD point 0
  npts := 5
  partSize := 3
  partSize_pos := by decide
  queries q := [0, 6].getD q 0
  nqueries := 2
  dim := 1
  k := 2
  tops := .first _
  bySecond := .insertion _
  distMatrix _ _ _ := 0

/-- The query 6 has its nearest neighbours in both parts. -/
theorem ground_truth_is_exact_fiveNumbers : ∃ rows, fiveNumbers.truth = some rows ∧
    List.Forall₂ fiveNumbers.IsTruth [0, 1] rows :=
  ground_truth_is_exact fiveNumbers (by decide) ⟨by decide, by decide⟩

end OdinVector
