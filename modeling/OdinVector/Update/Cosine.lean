/-
This file follows a vector of an index for the cosine metric through its insert: the raw
vector is what the record and the PQ code are made of, and the search for its neighbours is
made with the normalised one. A vector of the data file is normalised before the build.

The arithmetic is exact, and so is the normalisation: nothing is added to a norm. A
division by a norm of 0 gives no numbers.
-/

import Mathlib.Algebra.BigOperators.Fin
import Mathlib.Analysis.Real.Sqrt
import OdinVector.AlphaRng
import OdinVector.PointGraph
import OdinVector.Search.Beam

namespace OdinVector

/-- The metrics of `get_distance_function`. -/
inductive Metric
  | l2
  | cosine
  deriving DecidableEq

/-! ### Normalising -/

section Vectors

variable {Scalar : Type} [Field Scalar] [LinearOrder Scalar] {dim : Nat}
  (sqrt : Scalar → Scalar) (metric : Metric)

/-- The sum of the squares of a vector. -/
def sumSquares (vector : Fin dim → Scalar) : Scalar := ∑ i, vector i * vector i

/-- `compute_l2_norm`. -/
def computeL2Norm (vector : Fin dim → Scalar) : Scalar := sqrt (sumSquares vector)

/-- Each element is divided. -/
def divideVector (vector : Fin dim → Scalar) (norm : Scalar) : Option (Fin dim → Scalar) :=
  if norm = 0 then none else some fun i => vector i / norm

/-- `block_convert` for a vector, with what a norm starts from. -/
def blockConvert (epsilon : Scalar) (vector : Fin dim → Scalar) : Option (Fin dim → Scalar) :=
  divideVector vector (sqrt (epsilon + sumSquares vector))

/-- A vector of the data file as `build_disk_index` uses it, for floats. -/
def builtVector (epsilon : Scalar) (vector : Fin dim → Scalar) : Option (Fin dim → Scalar) :=
  if metric = .cosine then blockConvert sqrt epsilon vector else some vector

/-- `data_is_normalized` of an index of floats. -/
def dataIsNormalized : Bool := metric = .cosine

/-- `aligned_query_T` after `pop_query_buf`. -/
def popQueryBuf (query : Fin dim → Scalar) : Option (Fin dim → Scalar) :=
  if dataIsNormalized metric then divideVector query (computeL2Norm sqrt query) else some query

/-- The comparison of `DistanceL2`, which an index of floats has for either metric. -/
def compareL2 (first second : Fin dim → Scalar) : Scalar :=
  ∑ i, (first i - second i) * (first i - second i)

end Vectors

/-! ### An index of vectors -/

/-- The settings of an index of vectors. -/
structure VectorParams (Scalar Code : Type) (dim : Nat) extends
    IndexParams (Fin dim → Scalar) Code Scalar where
  /-- `populate_chunk_distances` for the query, then `pq_dist_lookup`. -/
  queryDistance : (Fin dim → Scalar) → Code → Scalar
  lIndex : Nat
  beamWidth : Nat
  lIndexPos : 0 < lIndex
  beamWidthPos : 0 < beamWidth

/-- An index of vectors: all ids that are given out have records, and the lists are lists of
such ids. -/
structure VectorIndex (Scalar Code : Type) (dim : Nat) where
  graph : PointGraph (Fin dim → Scalar) Code
  medoid : Nat
  medoidInside : medoid < graph.nextId
  recorded : ∀ id < graph.nextId, graph.record id ≠ none
  closed : ∀ id node, graph.record id = some node → ∀ nbr ∈ node.nbrs, nbr < graph.nextId

/-- What is inserted: the vector, its tag and the deletion set. -/
structure Insertion (Scalar : Type) (dim : Nat) where
  point : Fin dim → Scalar
  tag : Nat
  deletionSet : List Nat

namespace VectorIndex

variable {Scalar Code : Type} {dim : Nat} (index : VectorIndex Scalar Code dim)

/-- The neighbours of an id. -/
def nbrs (id : Nat) : List Nat := (index.graph.record id).elim [] DiskNode.nbrs

/-- The coordinates of an id. -/
def coords [Zero Scalar] (id : Nat) : Fin dim → Scalar :=
  (index.graph.record id).elim 0 DiskNode.coords

/-- The graph that a search goes through while an insert has taken its id. -/
def diskGraph : DiskGraph where
  nodes := Finset.range index.graph.nextId
  nbrs := index.nbrs
  curId := index.graph.nextId + 1
  closed id _ nbr member := by
    unfold nbrs at member
    cases record : index.graph.record id with
    | none =>
      rw [record] at member
      exact absurd member List.not_mem_nil
    | some node =>
      rw [record] at member
      exact Finset.mem_range.mpr (index.closed id node record nbr member)
  bounded _ inside := (Finset.mem_range.mp inside).le.trans (Nat.le_succ _)

variable [Field Scalar] [LinearOrder Scalar] (sqrt : Scalar → Scalar)
  (params : VectorParams Scalar Code dim)

/-- `data` with the PQ code of a new vector. -/
def dataWith (point : Fin dim → Scalar) : Nat → Code :=
  Function.update index.graph.data index.graph.nextId (params.deflateVector point)

/-- The search of an insert, with the query that was put into its buffer. -/
def insertQuery (insertion : Insertion Scalar dim) (query : Fin dim → Scalar) :
    BeamQuery Scalar where
  graph := index.diskGraph
  id2tag id := (index.graph.tags id).getD id
  pqDist id := params.queryDistance query (index.dataWith params insertion.point id)
  exactDist id := compareL2 query (index.coords id)
  medoid := index.medoid
  memTags := []
  lSearch := params.lIndex
  beamWidth := params.beamWidth
  dynSearchL := false
  excludeNodes := insertion.deletionSet
  timeOver _ := false

/-- The search has its fixed point within so many rounds. -/
theorem exists_search (insertion : Insertion Scalar dim) (query : Fin dim → Scalar) :
    ∃ last, (index.insertQuery params insertion query).doBeamSearch
        ((index.insertQuery params insertion query).roundsLeft
          (index.insertQuery params insertion query).start + 1) = some last ∧
      ∀ neighbor ∈ last.fullRetset, neighbor.id < index.graph.nextId := by
  obtain ⟨last, done, inside⟩ := (index.insertQuery params insertion query).doBeamSearch_nodes
    ⟨rfl, fun _ => rfl, params.beamWidthPos, params.lIndexPos⟩ rfl
    (Finset.mem_range.mpr index.medoidInside) (Nat.lt_succ_self _)
  exact ⟨last, done, fun neighbor member => Finset.mem_range.mp (inside neighbor member)⟩

/-- The ids that are given out, as neighbours of a new one. -/
abbrev Neighborhood := {nhood : List Nat // ∀ id ∈ nhood, id < index.graph.nextId}

/-- `do_beam_search`, then `prune_neighbors` with the coordinates that were read. -/
def chooseNeighbors (insertion : Insertion Scalar dim) (query : Fin dim → Scalar) :
    Option index.Neighborhood :=
  match done : (index.insertQuery params insertion query).doBeamSearch
      ((index.insertQuery params insertion query).roundsLeft
        (index.insertQuery params insertion query).start + 1) with
  | none => none
  | some last =>
    some ⟨pruneNeighbors params.prune
        (fun first second => compareL2 (index.coords first) (index.coords second)) index.medoid []
        last.fullRetset, by
      intro id member
      obtain ⟨neighbor, there, rfl⟩ := mem_pruneNeighbors member
      obtain ⟨other, found, inside⟩ := index.exists_search params insertion query
      rw [done] at found
      exact inside neighbor (Option.some.inj found ▸ there)⟩

omit [Field Scalar] in
/-- The index with a new vector and its neighbours. -/
def extend (insertion : Insertion Scalar dim) (nhood : index.Neighborhood) :
    VectorIndex Scalar Code dim where
  graph := index.graph.insertPoint params.toIndexParams insertion.point insertion.tag nhood.1
  medoid := index.medoid
  medoidInside := index.medoidInside.trans (Nat.lt_succ_self _)
  recorded id below := by
    unfold PointGraph.insertPoint
    dsimp only
    split
    · exact Option.some_ne_none _
    · rename_i other
      have there := index.recorded id (lt_of_le_of_ne (Nat.le_of_lt_succ below) other)
      split
      · exact fun none => there (Option.map_eq_none_iff.mp none)
      · exact there
  closed id node record nbr member := by
    unfold PointGraph.insertPoint at record ⊢
    dsimp only at record ⊢
    split at record
    · rw [← Option.some.inj record] at member
      exact (nhood.2 nbr member).trans (Nat.lt_succ_self _)
    · split at record
      · obtain ⟨before, there, rfl⟩ := Option.map_eq_some_iff.mp record
        have from' := (pruned_boundedNhood id (before.nbrs ++ [index.graph.nextId])).subset nbr
          member
        obtain old | new := List.mem_append.mp from'
        · exact (index.closed id before there nbr old).trans (Nat.lt_succ_self _)
        · rw [List.mem_singleton.mp new]
          exact Nat.lt_succ_self _
      · exact (index.closed id node record nbr member).trans (Nat.lt_succ_self _)

/-- `DynamicSSDIndex::insert`, which is `insert_in_place`. -/
def insertInPlace (metric : Metric) (insertion : Insertion Scalar dim) :
    Option (VectorIndex Scalar Code dim) := do
  let query ← popQueryBuf sqrt metric insertion.point
  let nhood ← index.chooseNeighbors params insertion query
  return index.extend params insertion nhood

/-- Inserts one after the other. -/
def insertAll (metric : Metric) (inserts : List (Insertion Scalar dim)) :
    Option (VectorIndex Scalar Code dim) :=
  inserts.foldlM (fun index insertion => index.insertInPlace sqrt params metric insertion) index

/-! ### What an insert stores -/

variable {index params} {insertion : Insertion Scalar dim}

theorem exists_chooseNeighbors (insertion : Insertion Scalar dim) (query : Fin dim → Scalar) :
    ∃ nhood, index.chooseNeighbors params insertion query = some nhood := by
  obtain ⟨last, found, -⟩ := index.exists_search params insertion query
  unfold chooseNeighbors
  split
  · rename_i none
    rw [none] at found
    cases found
  · exact ⟨_, rfl⟩

/-- A vector is inserted when its query can be made. -/
theorem insertInPlace_eq {metric : Metric} {query : Fin dim → Scalar}
    (made : popQueryBuf sqrt metric insertion.point = some query) :
    ∃ nhood, index.insertInPlace sqrt params metric insertion =
      some (index.extend params insertion nhood) := by
  obtain ⟨nhood, chosen⟩ : ∃ nhood, index.chooseNeighbors params insertion query = some nhood :=
    exists_chooseNeighbors insertion query
  unfold insertInPlace
  rw [made]
  dsimp only [bind, Option.bind]
  rw [chosen]
  exact ⟨nhood, rfl⟩

theorem coords_extend (nhood : index.Neighborhood) (id : Nat) :
    (index.extend params insertion nhood).coords id =
      if id = index.graph.nextId then insertion.point else index.coords id := by
  unfold coords extend PointGraph.insertPoint
  dsimp only
  split
  · rfl
  · split
    · cases index.graph.record id <;> rfl
    · rfl

/-- The vectors of the index are left alone, and the ones that were inserted are stored as they
are. -/
structure Stored (params : VectorParams Scalar Code dim) (index : VectorIndex Scalar Code dim)
    (inserts : List (Insertion Scalar dim)) (result : VectorIndex Scalar Code dim) : Prop where
  kept : ∀ id < index.graph.nextId,
    result.coords id = index.coords id ∧ result.graph.data id = index.graph.data id
  raw : ∀ (place : Nat) (insertion : Insertion Scalar dim), inserts[place]? = some insertion →
    result.coords (index.graph.nextId + place) = insertion.point ∧
      result.graph.data (index.graph.nextId + place) = params.deflateVector insertion.point

theorem Stored.cons {nhood : index.Neighborhood} {inserts : List (Insertion Scalar dim)}
    {result : VectorIndex Scalar Code dim}
    (stored : Stored params (index.extend params insertion nhood) inserts result) :
    Stored params index (insertion :: inserts) result := by
  have next : (index.extend params insertion nhood).graph.nextId = index.graph.nextId + 1 := rfl
  have data : ∀ id, (index.extend params insertion nhood).graph.data id =
      Function.update index.graph.data index.graph.nextId (params.deflateVector insertion.point)
        id := fun _ => rfl
  refine ⟨fun id below => ?_, fun place other there => ?_⟩
  · have before := stored.kept id (below.trans (Nat.lt_succ_self _))
    rw [coords_extend, if_neg below.ne, data, Function.update_of_ne below.ne] at before
    exact before
  · cases place with
    | zero =>
      have first := stored.kept index.graph.nextId (Nat.lt_succ_self _)
      rw [coords_extend, if_pos rfl, data, Function.update_self] at first
      rw [List.getElem?_cons_zero] at there
      rw [← Option.some.inj there]
      exact first
    | succ place =>
      have later := stored.raw place other there
      rw [next, Nat.add_assoc, Nat.add_comm 1] at later
      exact later

/-- An insert that ends has made its query and stored its vector. -/
theorem insertInPlace_some {metric : Metric} {next : VectorIndex Scalar Code dim}
    (done : index.insertInPlace sqrt params metric insertion = some next) :
    (∃ query, popQueryBuf sqrt metric insertion.point = some query) ∧
      ∃ nhood, next = index.extend params insertion nhood := by
  unfold insertInPlace at done
  obtain ⟨query, made, done⟩ := Option.bind_eq_some_iff.mp done
  obtain ⟨nhood, -, done⟩ := Option.bind_eq_some_iff.mp done
  exact ⟨⟨query, made⟩, nhood, (Option.some.inj done).symm⟩

/-- Vectors for which queries can be made are all inserted. -/
theorem exists_insertAll {metric : Metric} {inserts : List (Insertion Scalar dim)}
    (made : ∀ insertion ∈ inserts, ∃ query, popQueryBuf sqrt metric insertion.point = some query) :
    ∃ result, index.insertAll sqrt params metric inserts = some result := by
  induction inserts generalizing index with
  | nil => exact ⟨index, rfl⟩
  | cons insertion inserts inductionHypothesis =>
    obtain ⟨query, first⟩ := made insertion List.mem_cons_self
    obtain ⟨nhood, inserted⟩ : ∃ nhood, index.insertInPlace sqrt params metric insertion =
        some (index.extend params insertion nhood) := insertInPlace_eq sqrt first
    obtain ⟨result, done⟩ := @inductionHypothesis (index.extend params insertion nhood)
      fun other member => made other (List.mem_cons_of_mem _ member)
    refine ⟨result, ?_⟩
    unfold insertAll at done ⊢
    rw [List.foldlM_cons, inserted]
    exact done

/-- After all inserts the vectors are stored, and every query could be made. -/
theorem stored_of_insertAll {metric : Metric} {inserts : List (Insertion Scalar dim)}
    {result : VectorIndex Scalar Code dim}
    (done : index.insertAll sqrt params metric inserts = some result) :
    Stored params index inserts result ∧
      ∀ insertion ∈ inserts, ∃ query, popQueryBuf sqrt metric insertion.point = some query := by
  induction inserts generalizing index with
  | nil =>
    obtain rfl : index = result := Option.some.inj done
    exact ⟨⟨fun _ _ => ⟨rfl, rfl⟩, fun place _ there => by cases there⟩, fun _ member => by
      cases member⟩
  | cons insertion inserts inductionHypothesis =>
    unfold insertAll at done
    rw [List.foldlM_cons] at done
    obtain ⟨next, inserted, done⟩ := Option.bind_eq_some_iff.mp done
    obtain ⟨made, nhood, rfl⟩ := insertInPlace_some sqrt inserted
    obtain ⟨stored, others⟩ := inductionHypothesis done
    exact ⟨stored.cons, List.forall_mem_cons.mpr ⟨made, others⟩⟩

end VectorIndex

/-! ### Norms -/

section Norms

variable {dim : Nat} {vector : Fin dim → ℝ}

theorem popQueryBuf_cosine (vector : Fin dim → ℝ) :
    popQueryBuf Real.sqrt .cosine vector =
      divideVector vector (computeL2Norm Real.sqrt vector) := if_pos rfl

/-- Without what a norm starts from, both normalisations are one. -/
theorem builtVector_cosine (vector : Fin dim → ℝ) :
    builtVector Real.sqrt .cosine 0 vector =
      divideVector vector (computeL2Norm Real.sqrt vector) := by
  unfold builtVector blockConvert computeL2Norm
  rw [if_pos rfl, zero_add]

theorem divideVector_one (vector : Fin dim → ℝ) : divideVector vector 1 = some vector := by
  unfold divideVector
  rw [if_neg one_ne_zero]
  exact congrArg some (funext fun i => div_one (vector i))

/-- Only a vector of norm 1 is normalised to itself. -/
theorem norm_eq_one (same : divideVector vector (computeL2Norm Real.sqrt vector) = some vector) :
    computeL2Norm Real.sqrt vector = 1 := by
  unfold divideVector at same
  split at same
  · cases same
  · rename_i some
    have each := congrFun (Option.some.inj same)
    by_contra other
    have zero : sumSquares vector = 0 := by
      refine Finset.sum_eq_zero fun i _ => ?_
      have element : vector i = 0 := by
        by_contra nonzero
        exact other ((mul_eq_left₀ nonzero).mp ((div_eq_iff some).mp (each i)).symm)
      rw [element, mul_zero]
    refine some ?_
    unfold computeL2Norm
    rw [zero, Real.sqrt_zero]

/-- The norm of a multiple. -/
theorem norm_smul {scale : ℝ} (positive : 0 < scale) :
    computeL2Norm Real.sqrt (scale • vector) = scale * computeL2Norm Real.sqrt vector := by
  have squares : sumSquares (scale • vector) = scale * scale * sumSquares vector := by
    unfold sumSquares
    rw [Finset.mul_sum]
    refine Finset.sum_congr rfl fun i _ => ?_
    rw [Pi.smul_apply, smul_eq_mul, mul_mul_mul_comm]
  unfold computeL2Norm
  rw [squares, Real.sqrt_mul (mul_self_nonneg scale), Real.sqrt_mul_self positive.le]

end Norms

/-! ### One form -/

/-- An insert, and a factor by which its vector is scaled. -/
structure ScaledInsertion (dim : Nat) where
  insertion : Insertion ℝ dim
  scale : ℝ
  positive : 0 < scale

/-- The insert of the scaled vector. -/
def ScaledInsertion.scaled {dim : Nat} (entry : ScaledInsertion dim) : Insertion ℝ dim :=
  { entry.insertion with point := entry.scale • entry.insertion.point }

namespace VectorIndex

variable {Code : Type} {dim : Nat}

/-- The vectors that were inserted are in the index as if they had been in the data file of its
build: the coordinates, the PQ codes and the queries, which give the distances. -/
def AsBuilt (params : VectorParams ℝ Code dim) (index : VectorIndex ℝ Code dim)
    (inserts : List (Insertion ℝ dim)) (result : VectorIndex ℝ Code dim) : Prop :=
  ∀ (place : Nat) (insertion : Insertion ℝ dim), inserts[place]? = some insertion →
    ∃ built, builtVector Real.sqrt .cosine 0 insertion.point = some built ∧
      result.coords (index.graph.nextId + place) = built ∧
      result.graph.data (index.graph.nextId + place) = params.deflateVector built ∧
      popQueryBuf Real.sqrt .cosine insertion.point = popQueryBuf Real.sqrt .cosine built

variable {params : VectorParams ℝ Code dim} {index result : VectorIndex ℝ Code dim}
  {inserts : List (Insertion ℝ dim)}

/-- Vectors of norm 1 are normalised already. -/
theorem asBuilt_of_unit
    (unit : ∀ insertion ∈ inserts, computeL2Norm Real.sqrt insertion.point = 1)
    (done : index.insertAll Real.sqrt params .cosine inserts = some result) :
    AsBuilt params index inserts result := by
  intro place insertion there
  have stored := (stored_of_insertAll Real.sqrt done).1.raw place insertion there
  refine ⟨insertion.point, ?_, stored.1, stored.2, rfl⟩
  rw [builtVector_cosine, unit insertion (List.mem_of_getElem? there), divideVector_one]

/-- What is stored raw is in the form of the build only for vectors of norm 1. -/
theorem unit_of_asBuilt (done : index.insertAll Real.sqrt params .cosine inserts = some result)
    (asBuilt : AsBuilt params index inserts result) :
    ∀ insertion ∈ inserts, computeL2Norm Real.sqrt insertion.point = 1 := by
  intro insertion member
  obtain ⟨place, there⟩ := List.mem_iff_getElem?.mp member
  obtain ⟨built, normalized, coords, -, -⟩ := asBuilt place insertion there
  have raw := ((stored_of_insertAll Real.sqrt done).1.raw place insertion there).1
  rw [builtVector_cosine] at normalized
  refine norm_eq_one ?_
  rw [normalized, ← raw, coords]

/-- Inserts leave one form, and the same index for scaled vectors, exactly when all vectors, the
scaled ones too, have norm 1. -/
theorem insertAll_asBuilt_iff (params : VectorParams ℝ Code dim) (index : VectorIndex ℝ Code dim)
    (entries : List (ScaledInsertion dim)) :
    (∃ result,
        index.insertAll Real.sqrt params .cosine (entries.map ScaledInsertion.insertion) =
          some result ∧
        index.insertAll Real.sqrt params .cosine (entries.map ScaledInsertion.scaled) =
          some result ∧
        AsBuilt params index (entries.map ScaledInsertion.insertion) result ∧
        AsBuilt params index (entries.map ScaledInsertion.scaled) result) ↔
      ∀ entry ∈ entries, computeL2Norm Real.sqrt entry.insertion.point = 1 ∧
        computeL2Norm Real.sqrt entry.scaled.point = 1 := by
  constructor
  · rintro ⟨result, plain, scaled, asBuilt, scaledAsBuilt⟩ entry member
    exact ⟨unit_of_asBuilt plain asBuilt _ (List.mem_map_of_mem member),
      unit_of_asBuilt scaled scaledAsBuilt _ (List.mem_map_of_mem member)⟩
  · intro unit
    have same : entries.map ScaledInsertion.scaled = entries.map ScaledInsertion.insertion := by
      refine List.map_congr_left fun entry member => ?_
      obtain ⟨plain, scaled⟩ := unit entry member
      unfold ScaledInsertion.scaled at scaled ⊢
      rw [norm_smul entry.positive, plain, mul_one] at scaled
      rw [scaled, one_smul]
    have plain : ∀ insertion ∈ entries.map ScaledInsertion.insertion,
        computeL2Norm Real.sqrt insertion.point = 1 := by
      intro insertion member
      obtain ⟨entry, there, rfl⟩ := List.mem_map.mp member
      exact (unit entry there).1
    obtain ⟨result, done⟩ := @exists_insertAll _ _ _ index _ _ Real.sqrt params .cosine
      (entries.map ScaledInsertion.insertion) fun insertion member => by
        rw [popQueryBuf_cosine, plain insertion member]
        exact ⟨_, divideVector_one _⟩
    have asBuilt := asBuilt_of_unit plain done
    rw [same]
    exact ⟨result, done, done, asBuilt, asBuilt⟩

/-- Vectors of one element, which are their own PQ codes. -/
noncomputable def lineParams : VectorParams ℝ (Fin 1 → ℝ) 1 where
  geometry := ⟨1, Nat.one_pos⟩
  prune := .exact 4 4 1 (1 + 1) 0
  deflateVector vector := vector
  codeDistance := compareL2
  usePageSearch := false
  queryDistance := compareL2
  lIndex := 2
  beamWidth := 2
  lIndexPos := Nat.two_pos
  beamWidthPos := Nat.two_pos

/-- An index that was built of one vector. -/
noncomputable def oneVector : VectorIndex ℝ (Fin 1 → ℝ) 1 where
  graph := ⟨fun id => if id = 0 then some ⟨1, []⟩ else none, fun _ => none, fun _ => 1, 1⟩
  medoid := 0
  medoidInside := Nat.one_pos
  recorded id below := by
    dsimp only at below ⊢
    rw [if_pos (Nat.lt_one_iff.mp below)]
    exact Option.some_ne_none _
  closed id node record nbr member := by
    dsimp only at record
    split at record
    · rw [← Option.some.inj record] at member
      exact absurd member List.not_mem_nil
    · cases record

theorem one_add_one_pos : (0 : ℝ) < 1 + 1 := by norm_num

/-- The vector 1, and twice the vector. -/
noncomputable def oneAndTwo : ScaledInsertion 1 where
  insertion := ⟨1, 1, []⟩
  scale := 1 + 1
  positive := one_add_one_pos

/-- A vector of norm 2 is not stored in the form of the build. -/
theorem insertAll_oneAndTwo :
    ¬ ∃ result,
        oneVector.insertAll Real.sqrt lineParams .cosine
          ([oneAndTwo].map ScaledInsertion.insertion) = some result ∧
        oneVector.insertAll Real.sqrt lineParams .cosine
          ([oneAndTwo].map ScaledInsertion.scaled) = some result ∧
        AsBuilt lineParams oneVector ([oneAndTwo].map ScaledInsertion.insertion) result ∧
        AsBuilt lineParams oneVector ([oneAndTwo].map ScaledInsertion.scaled) result := by
  rintro ⟨result, -, done, -, asBuilt⟩
  have unit : computeL2Norm Real.sqrt oneAndTwo.scaled.point = 1 :=
    unit_of_asBuilt done asBuilt _ List.mem_cons_self
  have squares : sumSquares (1 : Fin 1 → ℝ) = 1 * 1 := Fin.sum_univ_one _
  have one : computeL2Norm Real.sqrt (1 : Fin 1 → ℝ) = 1 := by
    unfold computeL2Norm
    rw [squares, Real.sqrt_mul_self zero_le_one]
  unfold ScaledInsertion.scaled oneAndTwo at unit
  dsimp only at unit
  rw [norm_smul one_add_one_pos, one] at unit
  norm_num at unit

end VectorIndex

end OdinVector
