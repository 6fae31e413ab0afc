/-
This file models how a neighbour list is pruned with distances between PQ codes:
`occlude_list_pq` and `prune_neighbors_pq`.

Distances come from a linear order, so comparisons with NaN are not modelled. The
arithmetic on distances is a parameter: the values `cur_alpha` runs through, and the
update of an occlusion factor.
-/

import Mathlib.Data.List.Sort
import Mathlib.Data.List.Nodup
import Mathlib.Order.Defs.LinearOrder

namespace OdinVector

/-- A candidate and its distance to the node whose list is pruned. -/
structure Neighbor (Distance : Type) where
  id : Nat
  distance : Distance

/-- The settings of an index that concern pruning. -/
structure PruneParams (Distance : Type) where
  /-- The length a neighbour list may have. -/
  range : Nat
  /-- How many candidates are looked at. -/
  maxc : Nat
  alpha : Distance
  /-- The values of `cur_alpha` that are at most `alpha`: 1, 1.2, 1.44, … -/
  alphaRounds : List Distance
  /-- `alpha > 1`. -/
  alphaAboveOne : Bool
  /-- The occlusion factor that candidates start with, `0`. -/
  initialFactor : Distance
  /-- `std::numeric_limits<float>::max()`. -/
  maxFactor : Distance
  /-- `std::max(factor, distance / djk)`. -/
  occlude : Distance → Distance → Distance → Distance

variable {Distance : Type} [LinearOrder Distance]

/-- `Neighbor::operator<`. -/
def Neighbor.Less (first second : Neighbor Distance) : Prop :=
  first.distance < second.distance ∨
    (first.distance = second.distance ∧ first.id < second.id)

instance (first second : Neighbor Distance) : Decidable (first.Less second) :=
  inferInstanceAs (Decidable (_ ∨ _))

/-- `std::set<Neighbor>::insert`: an equivalent element that is there stays. -/
def insertNeighbor (candidate : Neighbor Distance) :
    List (Neighbor Distance) → List (Neighbor Distance)
  | [] => [candidate]
  | first :: rest =>
    if candidate.Less first then candidate :: first :: rest
    else if first.Less candidate then first :: insertNeighbor candidate rest
    else first :: rest

/-- `std::sort` on a pool. -/
def sortPool (pool : List (Neighbor Distance)) : List (Neighbor Distance) :=
  pool.insertionSort fun first second => ¬ second.Less first

variable (params : PruneParams Distance) (pqDistance : Nat → Nat → Distance)

/-- The new factors of the candidates after one that was taken. -/
def occludeOthers (taken : Nat) (others : List (Neighbor Distance)) (factors : List Distance) :
    List Distance :=
  List.zipWith (fun other factor =>
    if params.alpha < factor then factor
    else params.occlude factor other.distance (pqDistance taken other.id)) others factors

/-- The inner loop of `occlude_list_pq` for one value of `cur_alpha`: the factors and
`result_set` afterwards. -/
def occludeRound (curAlpha : Distance) :
    List (Neighbor Distance) → List Distance → List (Neighbor Distance) →
      List Distance × List (Neighbor Distance)
  | candidate :: others, factor :: factors, result =>
    if params.range ≤ result.length then (factor :: factors, result)
    else if curAlpha < factor then
      let (final, taken) := occludeRound curAlpha others factors result
      (factor :: final, taken)
    else
      let (final, taken) := occludeRound curAlpha others
        (occludeOthers params pqDistance candidate.id others factors)
        (insertNeighbor candidate result)
      (params.maxFactor :: final, taken)
  | _, factors, result => (factors, result)

/-- The outer loop of `occlude_list_pq`. -/
def occludeRounds (pool : List (Neighbor Distance)) :
    List Distance → List Distance → List (Neighbor Distance) → List (Neighbor Distance)
  | [], _, result => result
  | curAlpha :: later, factors, result =>
    if params.range ≤ result.length then result
    else
      let (final, taken) := occludeRound params pqDistance curAlpha pool factors result
      occludeRounds pool later final taken

/-- `occlude_list_pq`: candidates from `maxc` on are neither taken nor updated. -/
def occludeListPq (pool : List (Neighbor Distance)) : List (Neighbor Distance) :=
  let candidates := pool.take params.maxc
  occludeRounds params pqDistance candidates params.alphaRounds
    (candidates.map fun _ => params.initialFactor) []

/-- The last loop of `prune_neighbors_pq`: fill up with the nearest candidates left. -/
def fillUp : List (Neighbor Distance) → List Nat → List Nat
  | [], pruned => pruned
  | candidate :: rest, pruned =>
    if params.range ≤ pruned.length then pruned
    else if candidate.id ∈ pruned then fillUp rest pruned
    else fillUp rest (pruned ++ [candidate.id])

/-- `prune_neighbors_pq` on a sorted pool. -/
def pruneNeighborsPq (pool : List (Neighbor Distance)) : List Nat :=
  let pruned := (occludeListPq params pqDistance pool).map Neighbor.id
  if params.alphaAboveOne then fillUp params pool pruned else pruned

/-- The list that `insert_in_place` and the merge passes write for a node: a list longer than
`range` is pruned by the distances to the node. -/
def boundedNhood (owner : Nat) (nhood : List Nat) : List Nat :=
  if params.range < nhood.length then
    pruneNeighborsPq params pqDistance
      (sortPool (nhood.map fun id => ⟨id, pqDistance owner id⟩))
  else nhood

/-! ### Pruning keeps a bounded part of the pool -/

theorem nodup_snoc {Item : Type} {list : List Item} {item : Item} (nodup : list.Nodup)
    (fresh : item ∉ list) : (list ++ [item]).Nodup := by
  rw [← List.concat_eq_append]
  exact nodup.concat fresh

section Order

theorem Neighbor.Less.trans {first second third : Neighbor Distance} (less : first.Less second)
    (later : second.Less third) : first.Less third := by
  rcases less with less | ⟨same, less⟩
  · rcases later with later | ⟨sameLater, _⟩
    · exact .inl (less.trans later)
    · exact .inl (sameLater ▸ less)
  · rcases later with later | ⟨sameLater, later⟩
    · exact .inl (same ▸ later)
    · exact .inr ⟨same.trans sameLater, less.trans later⟩

theorem Neighbor.Less.irrefl (neighbor : Neighbor Distance) : ¬ neighbor.Less neighbor := by
  rintro (less | ⟨_, less⟩)
  · exact lt_irrefl _ less
  · exact Nat.lt_irrefl _ less

theorem mem_insertNeighbor (candidate : Neighbor Distance) (result : List (Neighbor Distance)) :
    ∀ member ∈ insertNeighbor candidate result, member = candidate ∨ member ∈ result := by
  induction result with
  | nil => exact fun member inside => .inl (List.mem_singleton.mp inside)
  | cons first rest inductionHypothesis =>
    intro member inside
    unfold insertNeighbor at inside
    split at inside
    · exact List.mem_cons.mp inside
    · split at inside
      · rcases List.mem_cons.mp inside with rfl | later
        · exact .inr List.mem_cons_self
        · exact (inductionHypothesis member later).imp_right (List.mem_cons_of_mem _)
      · exact .inr inside

theorem length_insertNeighbor_le (candidate : Neighbor Distance)
    (result : List (Neighbor Distance)) :
    (insertNeighbor candidate result).length ≤ result.length + 1 := by
  induction result with
  | nil => exact Nat.le_refl 1
  | cons first rest inductionHypothesis =>
    unfold insertNeighbor
    split
    · exact Nat.le_refl _
    · split
      · exact Nat.succ_le_succ inductionHypothesis
      · exact Nat.le_succ _

/-- The set stays sorted without duplicates. -/
theorem pairwise_insertNeighbor (candidate : Neighbor Distance)
    {result : List (Neighbor Distance)} (sorted : result.Pairwise Neighbor.Less) :
    (insertNeighbor candidate result).Pairwise Neighbor.Less := by
  induction result with
  | nil => exact List.pairwise_singleton _ _
  | cons first rest inductionHypothesis =>
    obtain ⟨below, sortedRest⟩ := List.pairwise_cons.mp sorted
    unfold insertNeighbor
    split
    · rename_i less
      refine List.pairwise_cons.mpr ⟨fun member inside => ?_, sorted⟩
      rcases List.mem_cons.mp inside with rfl | later
      · exact less
      · exact less.trans (below member later)
    · split
      · rename_i less
        refine List.pairwise_cons.mpr ⟨fun member inside => ?_, inductionHypothesis sortedRest⟩
        rcases mem_insertNeighbor candidate rest member inside with rfl | later
        · exact less
        · exact below member later
      · exact sorted

end Order

/-- A part of a pool that pruning may keep. -/
structure PartOf (range : Nat) (pool result : List (Neighbor Distance)) : Prop where
  subset : ∀ member ∈ result, member ∈ pool
  bounded : result.length ≤ range
  sorted : result.Pairwise Neighbor.Less

/-- A list of ids that pruning may leave of a pool. -/
structure Pruned (range : Nat) (ids pruned : List Nat) : Prop where
  subset : ∀ id ∈ pruned, id ∈ ids
  bounded : pruned.length ≤ range

section Facts

variable {params pqDistance}

theorem partOf_occludeRound (curAlpha : Distance) {whole : List (Neighbor Distance)} :
    ∀ (pool : List (Neighbor Distance)) (factors : List Distance)
      {result : List (Neighbor Distance)}, (∀ member ∈ pool, member ∈ whole) →
        PartOf params.range whole result →
          PartOf params.range whole (occludeRound params pqDistance curAlpha pool factors result).2
  | [], _, _, _, part => by
    unfold occludeRound
    exact part
  | candidate :: others, [], _, _, part => by
    unfold occludeRound
    exact part
  | candidate :: others, factor :: factors, result, inWhole, part => by
    have later : ∀ member ∈ others, member ∈ whole :=
      fun member inside => inWhole member (List.mem_cons_of_mem _ inside)
    unfold occludeRound
    split
    · exact part
    · rename_i room
      split
      · exact partOf_occludeRound curAlpha others factors later part
      · refine partOf_occludeRound curAlpha others _ later ⟨fun member inside => ?_, ?_, ?_⟩
        · rcases mem_insertNeighbor candidate result member inside with rfl | before
          · exact inWhole _ List.mem_cons_self
          · exact part.subset member before
        · exact (length_insertNeighbor_le candidate result).trans (Nat.not_le.mp room)
        · exact pairwise_insertNeighbor candidate part.sorted

theorem partOf_occludeRounds {pool : List (Neighbor Distance)} :
    ∀ (alphas factors : List Distance) {result : List (Neighbor Distance)},
      PartOf params.range pool result →
        PartOf params.range pool (occludeRounds params pqDistance pool alphas factors result)
  | [], _, _, part => part
  | curAlpha :: later, factors, result, part => by
    unfold occludeRounds
    split
    · exact part
    · exact partOf_occludeRounds later _
        (partOf_occludeRound curAlpha pool factors (fun _ inside => inside) part)

theorem partOf_candidates (pool : List (Neighbor Distance)) :
    PartOf params.range (pool.take params.maxc) (occludeListPq params pqDistance pool) :=
  partOf_occludeRounds _ _ ⟨nofun, Nat.zero_le _, .nil⟩

theorem partOf_occludeListPq (pool : List (Neighbor Distance)) :
    PartOf params.range pool (occludeListPq params pqDistance pool) := by
  have part : PartOf params.range (pool.take params.maxc) (occludeListPq params pqDistance pool) :=
    partOf_candidates pool
  exact ⟨fun member inside => List.mem_of_mem_take (part.subset member inside), part.bounded,
    part.sorted⟩

omit [LinearOrder Distance] in
theorem perm_map_id (ids : List Nat) (distance : Nat → Distance) :
    ((ids.map fun id => (⟨id, distance id⟩ : Neighbor Distance)).map Neighbor.id).Perm ids := by
  rw [List.map_map]
  exact .of_eq (List.map_id ids)

theorem PartOf.pruned {range : Nat} {pool result : List (Neighbor Distance)}
    (part : PartOf range pool result) : Pruned range (pool.map Neighbor.id)
      (result.map Neighbor.id) := by
  refine ⟨fun id member => ?_, (List.length_map _).trans_le part.bounded⟩
  obtain ⟨neighbor, inside, rfl⟩ := List.mem_map.mp member
  exact List.mem_map_of_mem (part.subset neighbor inside)

theorem PartOf.nodup {range : Nat} {pool result : List (Neighbor Distance)}
    (part : PartOf range pool result) (nodup : (pool.map Neighbor.id).Nodup) :
    (result.map Neighbor.id).Nodup := by
  rw [List.Nodup, List.pairwise_map]
  refine part.sorted.imp_of_mem fun {first second} inside also less same => ?_
  have equal := List.inj_on_of_nodup_map nodup (part.subset _ inside) (part.subset _ also) same
  rw [equal] at less
  exact Neighbor.Less.irrefl second less

omit [LinearOrder Distance] in
theorem pruned_fillUp {ids : List Nat} :
    ∀ (pool : List (Neighbor Distance)) {pruned : List Nat},
      (∀ neighbor ∈ pool, neighbor.id ∈ ids) → Pruned params.range ids pruned →
        Pruned params.range ids (fillUp params pool pruned)
  | [], _, _, before => before
  | candidate :: rest, pruned, inIds, before => by
    have later : ∀ neighbor ∈ rest, neighbor.id ∈ ids :=
      fun neighbor inside => inIds neighbor (List.mem_cons_of_mem _ inside)
    unfold fillUp
    split
    · exact before
    · rename_i room
      split
      · exact pruned_fillUp rest later before
      · refine pruned_fillUp rest later ⟨fun id member => ?_, ?_⟩
        · rcases List.mem_append.mp member with old | new
          · exact before.subset id old
          · rw [List.mem_singleton.mp new]
            exact inIds candidate List.mem_cons_self
        · rw [List.length_append, List.length_singleton]
          exact Nat.not_le.mp room

omit [LinearOrder Distance] in
theorem nodup_fillUp : ∀ (pool : List (Neighbor Distance)) {pruned : List Nat}, pruned.Nodup →
    (fillUp params pool pruned).Nodup
  | [], _, nodup => nodup
  | candidate :: rest, pruned, nodup => by
    unfold fillUp
    split
    · exact nodup
    · split
      · exact nodup_fillUp rest nodup
      · rename_i fresh
        exact nodup_fillUp rest (nodup_snoc nodup fresh)

theorem pruned_pruneNeighborsPq (pool : List (Neighbor Distance)) :
    Pruned params.range (pool.map Neighbor.id) (pruneNeighborsPq params pqDistance pool) := by
  have part : PartOf params.range pool (occludeListPq params pqDistance pool) :=
    partOf_occludeListPq pool
  have taken := part.pruned
  unfold pruneNeighborsPq
  dsimp only
  split
  · exact pruned_fillUp pool (fun neighbor inside => List.mem_map_of_mem inside) taken
  · exact taken

theorem nodup_pruneNeighborsPq {pool : List (Neighbor Distance)}
    (nodup : (pool.map Neighbor.id).Nodup) : (pruneNeighborsPq params pqDistance pool).Nodup := by
  have part : PartOf params.range pool (occludeListPq params pqDistance pool) :=
    partOf_occludeListPq pool
  have taken := part.nodup nodup
  unfold pruneNeighborsPq
  dsimp only
  split
  · exact nodup_fillUp pool taken
  · exact taken

theorem perm_sortPool (pool : List (Neighbor Distance)) : (sortPool pool).Perm pool :=
  List.perm_insertionSort _ pool

/-- The list that is written for a node has at most `range` ids, all of the list it is made of. -/
theorem pruned_boundedNhood (owner : Nat) (nhood : List Nat) :
    Pruned params.range nhood (boundedNhood params pqDistance owner nhood) := by
  unfold boundedNhood
  split
  · have ids := ((perm_sortPool _).map Neighbor.id).trans (perm_map_id nhood (pqDistance owner))
    have kept : Pruned params.range _ (pruneNeighborsPq params pqDistance _) :=
      pruned_pruneNeighborsPq (sortPool (nhood.map fun id => ⟨id, pqDistance owner id⟩))
    exact ⟨fun id member => ids.mem_iff.mp (kept.subset id member), kept.bounded⟩
  · rename_i short
    exact ⟨fun id member => member, Nat.not_lt.mp short⟩

theorem nodup_boundedNhood (owner : Nat) {nhood : List Nat} (nodup : nhood.Nodup) :
    (boundedNhood params pqDistance owner nhood).Nodup := by
  unfold boundedNhood
  split
  · have ids := ((perm_sortPool _).map Neighbor.id).trans (perm_map_id nhood (pqDistance owner))
    exact nodup_pruneNeighborsPq (ids.nodup_iff.mpr nodup)
  · exact nodup

end Facts

end OdinVector
