/-
This file models `prune_neighbors` of the in-memory `Index`. `occlude_list` chooses
candidates into a vector, so that what marks a chosen candidate is its occlusion factor
alone; with factors above `alpha` no candidate is chosen twice.
-/

import OdinVector.Prune

namespace OdinVector

variable {Distance : Type} [LinearOrder Distance]

/-- The parameters of `link` and `insert_point`, and how the numbers in `occlude_list` lie to
each other. -/
structure LinkParams (Distance : Type) [LinearOrder Distance] extends PruneParams Distance where
  /-- `L`. -/
  lSize : Nat
  /-- `_saturate_graph`. -/
  saturateGraph : Bool
  /-- `(_u64) (SLACK_FACTOR * range)`. -/
  slack : Nat
  rangePos : 0 < range
  maxcPos : 0 < maxc
  lSizePos : 0 < lSize
  /-- `alpha` is at least 1. -/
  rounds : alphaRounds ≠ []
  rounds_le : ∀ curAlpha ∈ alphaRounds, curAlpha ≤ alpha
  initial_le : ∀ curAlpha ∈ alphaRounds, initialFactor ≤ curAlpha
  alpha_lt : alpha < maxFactor

namespace Index

variable (params : LinkParams Distance) (distance : Nat → Nat → Distance)

/-- The inner loop of `occlude_list` for one value of `cur_alpha`: the factors and `result`
afterwards. -/
def occludePass (curAlpha : Distance) :
    List (Neighbor Distance) → List Distance → List (Neighbor Distance) →
      List Distance × List (Neighbor Distance)
  | p :: others, factor :: factors, result =>
    if params.range ≤ result.length then (factor :: factors, result)
    else if curAlpha < factor then
      let (final, taken) := occludePass curAlpha others factors result
      (factor :: final, taken)
    else
      let (final, taken) := occludePass curAlpha others
        (occludeOthers params.toPruneParams (fun taken other => distance other taken) p.id others
          factors)
        (result ++ [p])
      (params.maxFactor :: final, taken)
  | _, factors, result => (factors, result)

/-- The outer loop of `occlude_list`. -/
def occludePasses (pool : List (Neighbor Distance)) :
    List Distance → List Distance → List (Neighbor Distance) → List (Neighbor Distance)
  | [], _, result => result
  | curAlpha :: later, factors, result =>
    if params.range ≤ result.length then result
    else
      let (final, taken) := occludePass params distance curAlpha pool factors result
      occludePasses pool later final taken

/-- `occlude_list`: candidates from `maxc` on are neither chosen nor updated. -/
def occludeList (pool : List (Neighbor Distance)) : List (Neighbor Distance) :=
  let candidates := pool.take params.maxc
  occludePasses params distance candidates params.alphaRounds
    (candidates.map fun _ => params.initialFactor) []

/-- The last loop of `prune_neighbors`. -/
def saturate (location : Nat) : List (Neighbor Distance) → List Nat → List Nat
  | [], prunedList => prunedList
  | candidate :: rest, prunedList =>
    if params.range ≤ prunedList.length then prunedList
    else if candidate.id ∉ prunedList ∧ candidate.id ≠ location then
      saturate location rest (prunedList ++ [candidate.id])
    else saturate location rest prunedList

/-- `prune_neighbors`; `none` is the `crash` for an empty pool. -/
def pruneNeighbors (location : Nat) (pool : List (Neighbor Distance)) : Option (List Nat) :=
  if pool = [] then none
  else
    let sorted := sortPool pool
    let prunedList := ((occludeList params distance sorted).map Neighbor.id).filter (· ≠ location)
    some (if params.saturateGraph && params.alphaAboveOne then
      saturate params location sorted prunedList else prunedList)

/-! ### What is chosen -/

variable {params distance}

/-- The candidates that were chosen have the factor that keeps them from being chosen again. -/
def Marked (params : LinkParams Distance) (result : List (Neighbor Distance)) :
    List (Neighbor Distance) → List Distance → Prop
  | candidate :: others, factor :: factors =>
    (candidate ∈ result → factor = params.maxFactor) ∧ Marked params result others factors
  | _, _ => True

/-- A choice marks the chosen one, and leaves the marks of the others. -/
theorem Marked.occludeOthers {result : List (Neighbor Distance)} {chosen : Neighbor Distance}
    (taken : Nat) :
    ∀ (others : List (Neighbor Distance)) (factors : List Distance), chosen ∉ others →
      Marked params result others factors →
        Marked params (result ++ [chosen]) others
          (OdinVector.occludeOthers params.toPruneParams (fun taken other => distance other taken)
            taken others factors)
  | [], _, _, _ => trivial
  | _ :: _, [], _, _ => trivial
  | candidate :: others, factor :: factors, apart, marked => by
    refine ⟨fun member => ?_, Marked.occludeOthers taken others factors
      (fun later => apart (List.mem_cons_of_mem _ later)) marked.2⟩
    obtain old | last := List.mem_append.mp member
    · rw [marked.1 old]
      exact if_pos params.alpha_lt
    · exact absurd (List.mem_singleton.mp last ▸ List.mem_cons_self) apart

/-- What a pass leaves: candidates at most, each one once, and `range` of them at most. -/
structure Chosen (params : LinkParams Distance) (candidates result : List (Neighbor Distance)) :
    Prop where
  subset : ∀ member ∈ result, member ∈ candidates
  nodup : result.Nodup
  bounded : result.length ≤ params.range

variable (distance) in
theorem Chosen.pass {curAlpha : Distance} (low : curAlpha ≤ params.alpha)
    {whole : List (Neighbor Distance)} :
    ∀ (candidates : List (Neighbor Distance)) (factors : List Distance)
      (result : List (Neighbor Distance)), (∀ candidate ∈ candidates, candidate ∈ whole) →
        candidates.Nodup → Chosen params whole result → Marked params result candidates factors →
          Chosen params whole (occludePass params distance curAlpha candidates factors result).2 ∧
            Marked params (occludePass params distance curAlpha candidates factors result).2
              candidates (occludePass params distance curAlpha candidates factors result).1 ∧
            result <+: (occludePass params distance curAlpha candidates factors result).2 ∧
            ∀ member ∈ (occludePass params distance curAlpha candidates factors result).2,
              member ∈ result ∨ member ∈ candidates
  | [], factors, result, _, _, chosen, marked => by
    unfold occludePass
    exact ⟨chosen, trivial, List.prefix_refl _, fun _ member => .inl member⟩
  | candidate :: others, [], result, _, _, chosen, marked => by
    unfold occludePass
    exact ⟨chosen, trivial, List.prefix_refl _, fun _ member => .inl member⟩
  | p :: others, factor :: factors, result, inWhole, apart, chosen, marked => by
    have later : ∀ candidate ∈ others, candidate ∈ whole :=
      fun candidate member => inWhole candidate (List.mem_cons_of_mem _ member)
    obtain ⟨first, rest⟩ := List.nodup_cons.mp apart
    unfold occludePass
    split
    · exact ⟨chosen, marked, List.prefix_refl _, fun _ member => .inl member⟩
    · rename_i room
      split
      · obtain ⟨after, marks, front, known⟩ :=
          Chosen.pass low others factors result later rest chosen marked.2
        refine ⟨after, ⟨fun member => ?_, marks⟩, front, fun member inside =>
          (known member inside).imp_right (List.mem_cons_of_mem _)⟩
        obtain old | new := known p member
        · exact marked.1 old
        · exact absurd new first
      · rename_i notAbove
        have fresh : p ∉ result := fun old => notAbove
          (by rw [marked.1 old]; exact low.trans_lt params.alpha_lt)
        have more : Chosen params whole (result ++ [p]) := by
          refine ⟨fun member inside => ?_, ?_, ?_⟩
          · obtain old | last := List.mem_append.mp inside
            · exact chosen.subset member old
            · rw [List.mem_singleton.mp last]
              exact inWhole p List.mem_cons_self
          · exact nodup_snoc chosen.nodup fresh
          · rw [List.length_append, List.length_singleton]
            exact Nat.not_le.mp room
        obtain ⟨after, marks, front, known⟩ := Chosen.pass low others _ (result ++ [p]) later rest
          more (Marked.occludeOthers p.id others factors first marked.2)
        refine ⟨after, ⟨fun _ => rfl, marks⟩, (List.prefix_append _ _).trans front,
          fun member inside => ?_⟩
        obtain before | new := known member inside
        · obtain old | last := List.mem_append.mp before
          · exact .inl old
          · rw [List.mem_singleton.mp last]
            exact .inr List.mem_cons_self
        · exact .inr (List.mem_cons_of_mem _ new)

variable (distance) in
theorem Chosen.passes {candidates : List (Neighbor Distance)} (apart : candidates.Nodup) :
    ∀ (alphas factors : List Distance) (result : List (Neighbor Distance)),
      (∀ curAlpha ∈ alphas, curAlpha ≤ params.alpha) → Chosen params candidates result →
        Marked params result candidates factors →
          Chosen params candidates (occludePasses params distance candidates alphas factors result) ∧
            result <+: occludePasses params distance candidates alphas factors result
  | [], _, result, _, chosen, _ => ⟨chosen, List.prefix_refl _⟩
  | curAlpha :: later, factors, result, low, chosen, marked => by
    unfold occludePasses
    split
    · exact ⟨chosen, List.prefix_refl _⟩
    · obtain ⟨after, marks, front, _⟩ := Chosen.pass distance
        (low curAlpha List.mem_cons_self) candidates factors result (fun _ member => member) apart
        chosen marked
      obtain ⟨last, more⟩ := Chosen.passes apart later _ _
        (fun other member => low other (List.mem_cons_of_mem _ member)) after marks
      exact ⟨last, front.trans more⟩

theorem marked_nil (candidates : List (Neighbor Distance)) :
    ∀ factors : List Distance, Marked params [] candidates factors := by
  induction candidates with
  | nil => exact fun factors => trivial
  | cons candidate others inductionHypothesis =>
    intro factors
    cases factors with
    | nil => trivial
    | cons factor factors =>
      exact ⟨fun member => absurd member List.not_mem_nil, inductionHypothesis factors⟩

variable (distance) in
/-- The first pass chooses the nearest candidate. -/
theorem occludePass_first {curAlpha : Distance} (low : curAlpha ≤ params.alpha)
    (above : params.initialFactor ≤ curAlpha) {p : Neighbor Distance}
    {others : List (Neighbor Distance)} (apart : (p :: others).Nodup) (factors : List Distance) :
    (occludePass params distance curAlpha (p :: others) (params.initialFactor :: factors) []).2 ≠
      [] := by
  obtain ⟨first, rest⟩ := List.nodup_cons.mp apart
  have one : Chosen params (p :: others) [p] := by
    refine ⟨fun member inside => ?_, List.nodup_singleton _, params.rangePos⟩
    rw [List.mem_singleton.mp inside]
    exact List.mem_cons_self
  have marks : Marked params [p] others
      (occludeOthers params.toPruneParams (fun taken other => distance other taken) p.id others
        factors) :=
    Marked.occludeOthers p.id others factors first (marked_nil others factors)
  obtain ⟨_, _, front, _⟩ := Chosen.pass distance low others _ [p]
    (fun candidate member => List.mem_cons_of_mem _ member) rest one marks
  have room : ¬ params.range ≤ ([] : List (Neighbor Distance)).length :=
    Nat.not_le.mpr params.rangePos
  unfold occludePass
  rw [if_neg room, if_neg (not_lt.mpr above)]
  exact List.ne_nil_of_mem (front.subset List.mem_cons_self)

/-- `occlude_list` chooses from the pool. -/
theorem chosen_occludeList {pool : List (Neighbor Distance)} (apart : pool.Nodup) :
    Chosen params pool (occludeList params distance pool) := by
  have nodup : (pool.take params.maxc).Nodup := apart.sublist (List.take_sublist _ _)
  have none : Chosen params (pool.take params.maxc) [] :=
    ⟨fun member inside => absurd inside List.not_mem_nil, List.nodup_nil, Nat.zero_le _⟩
  obtain ⟨chosen, _⟩ := Chosen.passes distance nodup params.alphaRounds _ []
    params.rounds_le none (marked_nil _ ((pool.take params.maxc).map fun _ => params.initialFactor))
  exact ⟨fun member inside => List.mem_of_mem_take (chosen.subset member inside), chosen.nodup,
    chosen.bounded⟩

/-- `occlude_list` chooses something from a pool that is not empty. -/
theorem occludeList_ne_nil {pool : List (Neighbor Distance)} (apart : pool.Nodup)
    (nonempty : pool ≠ []) : occludeList params distance pool ≠ [] := by
  obtain ⟨p, rest, rfl⟩ := List.exists_cons_of_ne_nil nonempty
  obtain ⟨curAlpha, later, alphas⟩ := List.exists_cons_of_ne_nil params.rounds
  obtain ⟨more, maxc⟩ := Nat.exists_eq_succ_of_ne_zero params.maxcPos.ne'
  have among : curAlpha ∈ params.alphaRounds := by
    rw [alphas]
    exact List.mem_cons_self
  have nodup : (p :: rest.take more).Nodup := apart.sublist ((List.take_sublist _ _).cons_cons p)
  have none : Chosen params (p :: rest.take more) [] :=
    ⟨fun member inside => absurd inside List.not_mem_nil, List.nodup_nil, Nat.zero_le _⟩
  obtain ⟨chosen, marks, _⟩ := Chosen.pass distance (params.rounds_le _ among)
    (p :: rest.take more) (params.initialFactor :: (rest.take more).map fun _ => params.initialFactor)
    [] (fun _ member => member) nodup none (marked_nil _ _)
  have first := occludePass_first distance (params.rounds_le _ among)
    (params.initial_le _ among) nodup ((rest.take more).map fun _ => params.initialFactor)
  obtain ⟨_, front⟩ := Chosen.passes distance nodup later _ _
    (fun other member => params.rounds_le other (by
      rw [alphas]
      exact List.mem_cons_of_mem _ member)) chosen marks
  unfold occludeList
  dsimp only
  rw [maxc, List.take_succ_cons, alphas, List.map_cons]
  have room : ¬ params.range ≤ ([] : List (Neighbor Distance)).length :=
    Nat.not_le.mpr params.rangePos
  unfold occludePasses
  rw [if_neg room]
  obtain ⟨member, rest', some⟩ := List.exists_cons_of_ne_nil first
  exact List.ne_nil_of_mem (front.subset (some ▸ List.mem_cons_self))

/-! ### What `prune_neighbors` leaves -/

/-- A list that `prune_neighbors` may leave for a location. -/
structure Leaves (range location : Nat) (ids prunedList : List Nat) : Prop where
  subset : ∀ id ∈ prunedList, id ∈ ids ∧ id ≠ location
  nodup : prunedList.Nodup
  bounded : prunedList.length ≤ range

omit [LinearOrder Distance] in
theorem Leaves.mem_append {range location : Nat} {ids prunedList : List Nat} {candidate : Nat}
    (leaves : Leaves range location ids prunedList) (room : prunedList.length < range)
    (known : candidate ∈ ids) (fresh : candidate ∉ prunedList) (other : candidate ≠ location) :
    Leaves range location ids (prunedList ++ [candidate]) := by
  refine ⟨fun id member => ?_, ?_, ?_⟩
  · obtain old | last := List.mem_append.mp member
    · exact leaves.subset id old
    · rw [List.mem_singleton.mp last]
      exact ⟨known, other⟩
  · exact nodup_snoc leaves.nodup fresh
  · rw [List.length_append, List.length_singleton]
    exact room

theorem Leaves.saturate {location : Nat} {ids : List Nat} :
    ∀ (pool : List (Neighbor Distance)) {prunedList : List Nat},
      (∀ candidate ∈ pool, candidate.id ∈ ids) → Leaves params.range location ids prunedList →
        Leaves params.range location ids (Index.saturate params location pool prunedList) ∧
          prunedList <+: Index.saturate params location pool prunedList
  | [], prunedList, _, leaves => ⟨leaves, List.prefix_refl _⟩
  | candidate :: rest, prunedList, known, leaves => by
    have later : ∀ other ∈ rest, other.id ∈ ids :=
      fun other member => known other (List.mem_cons_of_mem _ member)
    unfold Index.saturate
    split
    · exact ⟨leaves, List.prefix_refl _⟩
    · rename_i room
      split
      · rename_i fresh
        obtain ⟨after, front⟩ := Leaves.saturate rest later (leaves.mem_append (Nat.not_le.mp room)
          (known candidate List.mem_cons_self) fresh.1 fresh.2)
        exact ⟨after, (List.prefix_append _ _).trans front⟩
      · exact Leaves.saturate rest later leaves

/-- `prune_neighbors` on a pool of different nodes without the location. -/
theorem pruneNeighbors_spec {location : Nat} {pool : List (Neighbor Distance)}
    (apart : (pool.map Neighbor.id).Nodup) (without : location ∉ pool.map Neighbor.id)
    (nonempty : pool ≠ []) :
    ∃ prunedList, pruneNeighbors params distance location pool = some prunedList ∧
      Leaves params.range location (pool.map Neighbor.id) prunedList ∧ prunedList ≠ [] := by
  have same : (sortPool pool).Perm pool := perm_sortPool pool
  have ids := same.map Neighbor.id
  have nodup : ((sortPool pool).map Neighbor.id).Nodup := ids.nodup_iff.mpr apart
  have chosen : Chosen params (sortPool pool) (occludeList params distance (sortPool pool)) :=
    chosen_occludeList (List.Nodup.of_map _ nodup)
  have kept : ((occludeList params distance (sortPool pool)).map Neighbor.id).filter
      (fun id => decide (id ≠ location)) =
        (occludeList params distance (sortPool pool)).map Neighbor.id := by
    refine List.filter_eq_self.mpr fun id member => decide_eq_true fun equal => without ?_
    obtain ⟨neighbor, inside, rfl⟩ := List.mem_map.mp member
    rw [← equal]
    exact ids.subset (List.mem_map_of_mem (chosen.subset neighbor inside))
  have leaves : Leaves params.range location (pool.map Neighbor.id)
      ((occludeList params distance (sortPool pool)).map Neighbor.id) := by
    refine ⟨fun id member => ?_, ?_, (List.length_map _).trans_le chosen.bounded⟩
    · obtain ⟨neighbor, inside, rfl⟩ := List.mem_map.mp member
      have known := ids.subset (List.mem_map_of_mem (chosen.subset neighbor inside))
      exact ⟨known, fun equal => without (equal ▸ known)⟩
    · exact List.Nodup.map_on (fun first inside second also equal =>
        List.inj_on_of_nodup_map nodup (chosen.subset _ inside) (chosen.subset _ also) equal)
        chosen.nodup
  have some' : (occludeList params distance (sortPool pool)).map Neighbor.id ≠ [] := by
    refine fun empty => occludeList_ne_nil (List.Nodup.of_map _ nodup) (fun none => nonempty ?_)
      (List.map_eq_nil_iff.mp empty)
    exact List.perm_nil.mp (none ▸ same.symm)
  unfold pruneNeighbors
  rw [if_neg nonempty]
  dsimp only
  rw [kept]
  split
  · obtain ⟨after, front⟩ := leaves.saturate (sortPool pool)
      fun candidate member => ids.subset (List.mem_map_of_mem member)
    refine ⟨_, rfl, after, fun empty => some' ?_⟩
    rw [empty] at front
    exact List.prefix_nil.mp front
  · exact ⟨_, rfl, leaves, some'⟩

end Index

end OdinVector
