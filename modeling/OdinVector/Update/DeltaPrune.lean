/-
This file models `delta_prune_neighbors_pq`, with which `insert_in_place` shortens the list of a
neighbour by one when it is built with `DELTA_PRUNING`, as `build.sh` builds it. The list has the
new point at its end and is one too long.

The first step compares the new point with the others only, for bounds `cur_alpha` that fall from
`alpha` to about 1. The second step looks for a candidate that a nearer one occludes. Otherwise
the list is an alpha-RNG and the farthest candidate goes.

The arithmetic is that of an ordered field. A quotient of distances is compared by the product: a
quotient by 0 is infinite in the source, and above any bound, unless the dividend is 0 as well.
-/

import Mathlib.Data.List.FinRange
import OdinVector.AlphaRng

namespace OdinVector

variable {Distance : Type} [Field Distance] [LinearOrder Distance]

/-! ### The functions -/

/-- `TriangleNeighbor`: a candidate with its distance to the new point. -/
structure TriangleNeighbor (Distance : Type) extends Neighbor Distance where
  tgtDis : Distance

/-- `far / near > bound`. -/
def Exceeds (far near bound : Distance) : Prop := bound * near < far

instance (far near bound : Distance) : Decidable (Exceeds far near bound) :=
  inferInstanceAs (Decidable (_ < _))

section Functions

variable (alpha : Distance) (pqDistance : Nat → Nat → Distance)
  (pool : List (TriangleNeighbor Distance)) (tgtIdx : Fin pool.length)

/-- What the first step does with a candidate that is not the new point. -/
def fastEvict (curAlpha : Distance) (i : Fin pool.length) : Option (Fin pool.length) :=
  if i = tgtIdx then none
  else if (pool.get tgtIdx).distance < (pool.get i).distance then
    -- the edge to the candidate is the longest one
    if Exceeds (pool.get i).distance (pool.get i).tgtDis curAlpha then some i else none
  else
    -- the edge to the new point is the longest one
    if Exceeds (pool.get tgtIdx).distance (pool.get i).tgtDis curAlpha then some tgtIdx else none

/-- A round of the first step, which goes from the farthest candidate to the nearest one. -/
def fastRound (curAlpha : Distance) : Option (Fin pool.length) :=
  (List.finRange pool.length).reverse.findSome? (fastEvict pool tgtIdx curAlpha)

/-- The first step, with a bound on its rounds. -/
def fastPath : Nat → Distance → Option (Option (Fin pool.length))
  | 0, _ => none
  | fuel + 1, curAlpha =>
    if 1 - 1 / ((100000 : Nat) : Distance) ≤ curAlpha then
      match fastRound pool tgtIdx curAlpha with
      | some toEvict => some (some toEvict)
      | none => fastPath fuel (curAlpha / (((6 : Nat) : Distance) / ((5 : Nat) : Distance)))
    else some none

/-- The candidates after `start` that it occludes, up to the first one. -/
def slowEvict (start : Fin pool.length) : Option (Fin pool.length) :=
  if start = tgtIdx then none
  else (List.finRange pool.length).find? fun t => start < t ∧
    Exceeds (pool.get t).distance (pqDistance (pool.get start).id (pool.get t).id) alpha

/-- The second step. -/
def slowPath : Option (Fin pool.length) :=
  (List.finRange pool.length).findSome? (slowEvict alpha pqDistance pool tgtIdx)

/-- `finish`. -/
def withoutEvicted (toEvict : Fin pool.length) : List Nat :=
  ((List.finRange pool.length).filter (· ≠ toEvict)).map fun i => (pool.get i).id

/-- The index that `delta_prune_neighbors_pq` evicts, with a bound on the rounds of its first
step. -/
def toEvict (fuel : Nat) : Option (Fin pool.length) :=
  (fastPath pool tgtIdx fuel alpha).map fun fast =>
    (fast <|> slowPath alpha pqDistance pool tgtIdx).getD ⟨pool.length - 1, by
      have := tgtIdx.isLt
      omega⟩

/-- `delta_prune_neighbors_pq`. -/
def deltaPruneNeighborsPq (fuel : Nat) : Option (List Nat) :=
  (toEvict alpha pqDistance pool tgtIdx fuel).map (withoutEvicted pool)

end Functions

/-- `tri_pool`, sorted. -/
def triPool (pqDistance : Nat → Nat → Distance) (target owner : Nat) (nhood : List Nat) :
    List (TriangleNeighbor Distance) :=
  (nhood.map fun id => (⟨⟨id, pqDistance owner id⟩, pqDistance target id⟩ :
    TriangleNeighbor Distance)).insertionSort fun first second =>
      ¬ second.toNeighbor.Less first.toNeighbor

/-- The list that `insert_in_place` writes for a neighbour of the new point. -/
def deltaBoundedNhood (range : Nat) (alpha : Distance) (pqDistance : Nat → Nat → Distance)
    (fuel target owner : Nat) (nhood : List Nat) : Option (List Nat) :=
  if range < nhood.length then do
    let pool := triPool pqDistance target owner nhood
    let tgtIdx ← pool.findFinIdx? fun candidate => candidate.id = target
    deltaPruneNeighborsPq alpha pqDistance pool tgtIdx fuel
  else some nhood

/-! ### One eviction -/

/-- A candidate is the reason to evict another one that is not nearer: it occludes it for some
bound. -/
def Occludes (pqDistance : Nat → Nat → Distance) (pool : List (TriangleNeighbor Distance))
    (bound : Distance) (keeper evicted : Fin pool.length) : Prop :=
  keeper ≠ evicted ∧ (pool.get keeper).distance ≤ (pool.get evicted).distance ∧
    Exceeds (pool.get evicted).distance
      (pqDistance (pool.get keeper).id (pool.get evicted).id) bound

/-- What the pool of a neighbour is: sorted, with the distances of its fields. -/
structure IsTriPool (pqDistance : Nat → Nat → Distance) (pool : List (TriangleNeighbor Distance))
    (tgtIdx : Fin pool.length) : Prop where
  tgtDis : ∀ i, (pool.get i).tgtDis = pqDistance (pool.get tgtIdx).id (pool.get i).id
  sorted : ∀ i j, i < j → ¬ (pool.get j).toNeighbor.Less (pool.get i).toNeighbor

omit [Field Distance] in
theorem IsTriPool.distance_le {pqDistance : Nat → Nat → Distance}
    {pool : List (TriangleNeighbor Distance)} {tgtIdx : Fin pool.length}
    (isPool : IsTriPool pqDistance pool tgtIdx) {i j : Fin pool.length} (before : i < j) :
    (pool.get i).distance ≤ (pool.get j).distance :=
  not_lt.mp fun less => isPool.sorted i j before (.inl less)

section Evictions

variable {alpha curAlpha : Distance} {pqDistance : Nat → Nat → Distance}
  {pool : List (TriangleNeighbor Distance)} {tgtIdx : Fin pool.length}

theorem occludes_of_fastEvict (isPool : IsTriPool pqDistance pool tgtIdx)
    (symm : ∀ first second, pqDistance first second = pqDistance second first)
    {i evicted : Fin pool.length} (evicts : fastEvict pool tgtIdx curAlpha i = some evicted) :
    ∃ keeper, Occludes pqDistance pool curAlpha keeper evicted := by
  unfold fastEvict at evicts
  split at evicts
  · cases evicts
  rename_i other
  split at evicts
  · rename_i farther
    obtain ⟨exceeds, same⟩ := Option.ite_none_right_eq_some.mp evicts
    obtain rfl := Option.some.inj same
    rw [isPool.tgtDis] at exceeds
    exact ⟨tgtIdx, fun same => other same.symm, farther.le, exceeds⟩
  · rename_i nearer
    obtain ⟨exceeds, same⟩ := Option.ite_none_right_eq_some.mp evicts
    obtain rfl := Option.some.inj same
    rw [isPool.tgtDis, symm] at exceeds
    exact ⟨i, other, not_lt.mp nearer, exceeds⟩

/-- A round that evicts nothing finds no candidate behind the new point that it occludes. -/
theorem not_exceeds_of_fastRound (isPool : IsTriPool pqDistance pool tgtIdx)
    (quiet : fastRound pool tgtIdx curAlpha = none) {far : Fin pool.length} (behind : tgtIdx < far) :
    ¬ Exceeds (pool.get far).distance (pqDistance (pool.get tgtIdx).id (pool.get far).id)
      curAlpha := by
  have kept : fastEvict pool tgtIdx curAlpha far = none :=
    List.findSome?_eq_none_iff.mp quiet far (List.mem_reverse.mpr (List.mem_finRange far))
  rw [fastEvict, if_neg (ne_of_gt behind)] at kept
  rw [← isPool.tgtDis]
  split at kept
  · exact fun exceeds => Option.some_ne_none _ ((if_pos exceeds).symm.trans kept)
  · rename_i notFarther
    have same := le_antisymm (not_lt.mp notFarther) (isPool.distance_le behind)
    rw [same]
    exact fun exceeds => Option.some_ne_none _ ((if_pos exceeds).symm.trans kept)

theorem slowPath_some (isPool : IsTriPool pqDistance pool tgtIdx) {evicted : Fin pool.length}
    (found : slowPath alpha pqDistance pool tgtIdx = some evicted) :
    ∃ keeper, Occludes pqDistance pool alpha keeper evicted := by
  obtain ⟨start, _, evicts⟩ := List.exists_of_findSome?_eq_some found
  unfold slowEvict at evicts
  split at evicts
  · cases evicts
  · have both := List.find?_some evicts
    obtain ⟨after, exceeds⟩ := of_decide_eq_true both
    exact ⟨start, ne_of_lt after, isPool.distance_le after, exceeds⟩

theorem not_exceeds_of_slowPath (quiet : slowPath alpha pqDistance pool tgtIdx = none)
    {near far : Fin pool.length} (other : near ≠ tgtIdx) (after : near < far) :
    ¬ Exceeds (pool.get far).distance (pqDistance (pool.get near).id (pool.get far).id) alpha := by
  have kept := List.findSome?_eq_none_iff.mp quiet near (List.mem_finRange near)
  rw [slowEvict, if_neg other] at kept
  have notBoth := List.find?_eq_none.mp kept far (List.mem_finRange far)
  exact fun exceeds => notBoth (decide_eq_true ⟨after, exceeds⟩)

variable [IsStrictOrderedRing Distance]

omit [IsStrictOrderedRing Distance] in
theorem fastPath_succ (tgtIdx : Fin pool.length) (fuel : Nat) (curAlpha : Distance) :
    fastPath pool tgtIdx (fuel + 1) curAlpha =
      if 1 - 1 / 100000 ≤ curAlpha then
        match fastRound pool tgtIdx curAlpha with
        | some toEvict => some (some toEvict)
        | none => fastPath pool tgtIdx fuel (curAlpha / (6 / 5))
      else some none := by
  simp only [fastPath, Nat.cast_ofNat]

/-- The rounds of the first step have bounds from about 1 to `alpha`. -/
theorem fastPath_some {evicted : Fin pool.length} : ∀ {fuel : Nat} {curAlpha : Distance},
    fastPath pool tgtIdx fuel curAlpha = some (some evicted) → ∃ bound, 1 - 1 / 100000 ≤ bound ∧
      bound ≤ curAlpha ∧ fastRound pool tgtIdx bound = some evicted
  | 0, _, ends => by cases ends
  | fuel + 1, curAlpha, ends => by
    rw [fastPath_succ] at ends
    split at ends
    · rename_i above
      cases round : fastRound pool tgtIdx curAlpha with
      | some found =>
        rw [round] at ends
        obtain rfl := Option.some.inj (Option.some.inj ends)
        exact ⟨curAlpha, above, le_refl _, round⟩
      | none =>
        rw [round] at ends
        obtain ⟨bound, least, below, found⟩ := fastPath_some ends
        have positive : (0 : Distance) ≤ curAlpha := le_trans (by norm_num) above
        exact ⟨bound, least, below.trans (div_le_self positive (by norm_num)), found⟩
    · cases ends

omit [IsStrictOrderedRing Distance] in
theorem fastPath_none {fuel : Nat} (above : 1 - 1 / 100000 ≤ curAlpha)
    (ends : fastPath pool tgtIdx fuel curAlpha = some none) :
    fastRound pool tgtIdx curAlpha = none := by
  cases fuel with
  | zero => cases ends
  | succ fuel =>
    rw [fastPath_succ, if_pos above] at ends
    cases round : fastRound pool tgtIdx curAlpha with
    | some found =>
      rw [round] at ends
      cases ends
    | none => rfl

/-- The bounds fall below 1. -/
theorem exists_fastPath [Archimedean Distance] (tgtIdx : Fin pool.length) (curAlpha : Distance) :
    ∃ fuel fast, fastPath pool tgtIdx fuel curAlpha = some fast := by
  have small : ∀ (rounds : Nat) (curAlpha : Distance),
      curAlpha < (6 / 5) ^ rounds * (1 - 1 / 100000) →
        ∃ fuel fast, fastPath pool tgtIdx fuel curAlpha = some fast := by
    intro rounds
    induction rounds with
    | zero =>
      intro curAlpha below
      rw [pow_zero, one_mul] at below
      exact ⟨1, none, (fastPath_succ tgtIdx 0 curAlpha).trans (if_neg (not_le.mpr below))⟩
    | succ rounds inductionHypothesis =>
      intro curAlpha below
      have next : curAlpha / (6 / 5) < (6 / 5) ^ rounds * (1 - 1 / 100000) := by
        rw [div_lt_iff₀ (by norm_num)]
        refine below.trans_eq ?_
        ring
      obtain ⟨fuel, fast, ends⟩ := inductionHypothesis _ next
      by_cases above : 1 - 1 / 100000 ≤ curAlpha
      · cases round : fastRound pool tgtIdx curAlpha with
        | some found =>
          refine ⟨fuel + 1, some found, ?_⟩
          rw [fastPath_succ, if_pos above, round]
        | none =>
          refine ⟨fuel + 1, fast, ?_⟩
          rw [fastPath_succ, if_pos above, round]
          exact ends
      · exact ⟨1, none, (fastPath_succ tgtIdx 0 curAlpha).trans (if_neg above)⟩
  obtain ⟨rounds, above⟩ := pow_unbounded_of_one_lt (curAlpha / (1 - 1 / 100000))
    (show (1 : Distance) < 6 / 5 by norm_num)
  exact small rounds curAlpha ((div_lt_iff₀ (by norm_num)).mp above)

/-- What is evicted is occluded by a candidate that stays, or it is the farthest one and none
occludes another. -/
theorem toEvict_cases (isPool : IsTriPool pqDistance pool tgtIdx)
    (symm : ∀ first second, pqDistance first second = pqDistance second first) (fromOne : 1 ≤ alpha)
    {fuel : Nat} {evicted : Fin pool.length}
    (ends : toEvict alpha pqDistance pool tgtIdx fuel = some evicted) :
    (∃ bound keeper, 1 - 1 / 100000 ≤ bound ∧ bound ≤ alpha ∧
        Occludes pqDistance pool bound keeper evicted) ∨
      (∀ i, i ≤ evicted) ∧ ∀ near far, near < far → ¬ Exceeds (pool.get far).distance
        (pqDistance (pool.get near).id (pool.get far).id) alpha := by
  have above : 1 - 1 / 100000 ≤ alpha := le_trans (by norm_num) fromOne
  obtain ⟨fast, fastEnds, isEvicted⟩ := Option.map_eq_some_iff.mp ends
  cases fast with
  | some found =>
    have isEvicted : found = evicted := isEvicted
    subst isEvicted
    obtain ⟨bound, least, below, round⟩ := fastPath_some fastEnds
    obtain ⟨i, _, evicts⟩ := List.exists_of_findSome?_eq_some round
    obtain ⟨keeper, occludes⟩ := occludes_of_fastEvict isPool symm evicts
    exact .inl ⟨bound, keeper, least, below, occludes⟩
  | none =>
    cases slow : slowPath alpha pqDistance pool tgtIdx with
    | some found =>
      rw [slow] at isEvicted
      have isEvicted : found = evicted := isEvicted
      subst isEvicted
      obtain ⟨keeper, occludes⟩ := slowPath_some isPool slow
      exact .inl ⟨alpha, keeper, above, le_refl _, occludes⟩
    | none =>
      rw [slow] at isEvicted
      refine .inr ⟨fun i => ?_, fun near far before => ?_⟩
      · rw [← isEvicted]
        exact Fin.mk_le_mk.mpr (Nat.le_sub_one_of_lt i.isLt)
      · by_cases isTarget : near = tgtIdx
        · subst isTarget
          exact not_exceeds_of_fastRound isPool (fastPath_none above fastEnds) before
        · exact not_exceeds_of_slowPath slow isTarget before

end Evictions

/-! ### The list that is left -/

section Lists

variable {pool : List (TriangleNeighbor Distance)}

omit [Field Distance] [LinearOrder Distance] in
theorem map_get_finRange : (List.finRange pool.length).map (fun i => (pool.get i).id) =
    pool.map fun candidate => candidate.id := by
  refine List.ext_get (by rw [List.length_map, List.length_map, List.length_finRange]) ?_
  intro index inside _
  simp

omit [Field Distance] [LinearOrder Distance] in
/-- All but one are left. -/
theorem perm_withoutEvicted (distinct : (pool.map fun candidate => candidate.id).Nodup)
    (evicted : Fin pool.length) : (withoutEvicted pool evicted).Perm
      ((pool.map fun candidate => candidate.id).erase (pool.get evicted).id) := by
  have injective : ∀ {i j : Fin pool.length}, (pool.get i).id = (pool.get j).id → i = j := by
    intro i j same
    rw [← map_get_finRange] at distinct
    exact List.inj_on_of_nodup_map distinct (List.mem_finRange i) (List.mem_finRange j) same
  have nodup : (withoutEvicted pool evicted).Nodup :=
    ((List.nodup_finRange _).filter _).map fun _ _ same => injective same
  refine (List.perm_ext_iff_of_nodup nodup (distinct.erase _)).mpr fun id => ?_
  rw [distinct.mem_erase_iff, ← map_get_finRange, withoutEvicted, List.mem_map, List.mem_map]
  constructor
  · rintro ⟨i, member, rfl⟩
    have other := of_decide_eq_true (List.mem_filter.mp member).2
    exact ⟨fun same => other (injective same), i, List.mem_finRange i, rfl⟩
  · rintro ⟨other, i, member, rfl⟩
    refine ⟨i, List.mem_filter.mpr ⟨member, decide_eq_true fun same => other ?_⟩, rfl⟩
    rw [same]

end Lists

section Pools

variable {pqDistance : Nat → Nat → Distance} {target owner : Nat} {nhood : List Nat}

omit [Field Distance] in
theorem perm_triPool : (triPool pqDistance target owner nhood).Perm (nhood.map fun id =>
    ⟨⟨id, pqDistance owner id⟩, pqDistance target id⟩) :=
  List.perm_insertionSort _ _

omit [Field Distance] in
theorem perm_ids_triPool :
    ((triPool pqDistance target owner nhood).map fun candidate => candidate.id).Perm nhood := by
  refine (perm_triPool.map _).trans ?_
  rw [List.map_map]
  exact List.Perm.of_eq (List.map_id nhood)

omit [Field Distance] in
/-- The fields of a candidate are the distances of its id. -/
theorem mem_triPool {candidate : TriangleNeighbor Distance}
    (member : candidate ∈ triPool pqDistance target owner nhood) :
    candidate.distance = pqDistance owner candidate.id ∧
      candidate.tgtDis = pqDistance target candidate.id := by
  obtain ⟨id, _, rfl⟩ := List.mem_map.mp (perm_triPool.mem_iff.mp member)
  exact ⟨rfl, rfl⟩

omit [Field Distance] in
theorem pairwise_triPool : (triPool pqDistance target owner nhood).Pairwise fun first second =>
    ¬ second.toNeighbor.Less first.toNeighbor := by
  have total : Std.Total fun first second : TriangleNeighbor Distance =>
      ¬ second.toNeighbor.Less first.toNeighbor :=
    ⟨fun first second => by
      by_contra neither
      rw [not_or, not_not, not_not] at neither
      exact Neighbor.Less.irrefl _ (neither.1.trans neither.2)⟩
  have trans : IsTrans (TriangleNeighbor Distance) fun first second =>
      ¬ second.toNeighbor.Less first.toNeighbor :=
    ⟨fun first second third notAfter notLater less => by
      by_cases before : third.toNeighbor.Less second.toNeighbor
      · exact notLater before
      by_cases after : second.toNeighbor.Less third.toNeighbor
      · exact notAfter (after.trans less)
      · rw [Neighbor.eq_of_not_less before after] at less
        exact notAfter less⟩
  exact List.pairwise_insertionSort _ _

omit [Field Distance] in
theorem isTriPool_triPool {tgtIdx : Fin (triPool pqDistance target owner nhood).length}
    (isTarget : ((triPool pqDistance target owner nhood).get tgtIdx).id = target) :
    IsTriPool pqDistance (triPool pqDistance target owner nhood) tgtIdx where
  tgtDis i := by
    rw [isTarget]
    exact (mem_triPool (List.get_mem _ i)).2
  sorted i j before := List.pairwise_iff_get.mp pairwise_triPool i j before

omit [Field Distance] in
/-- The new point is found in the pool. -/
theorem exists_tgtIdx (listed : target ∈ nhood) : ∃ tgtIdx,
    (triPool pqDistance target owner nhood).findFinIdx? (fun candidate => candidate.id = target) =
      some tgtIdx := by
  have inPool : target ∈ (triPool pqDistance target owner nhood).map fun candidate =>
      candidate.id := perm_ids_triPool.mem_iff.mpr listed
  obtain ⟨candidate, member, same⟩ := List.mem_map.mp inPool
  refine Option.isSome_iff_exists.mp ?_
  rw [List.isSome_findFinIdx?, List.any_eq_true]
  exact ⟨candidate, member, decide_eq_true same⟩

end Pools

/-- When a full list gets a new point, `delta_prune_neighbors_pq` ends and drops one id, and the
others stay. What it drops is occluded by one that stays and is not farther, for a bound between
about 1 and `alpha`. Or no id of the list occludes a farther one for `alpha`, and the farthest is
dropped. -/
theorem delta_prune_drops_one [IsStrictOrderedRing Distance] [Archimedean Distance]
    {alpha : Distance} (fromOne : 1 ≤ alpha) {pqDistance : Nat → Nat → Distance}
    (symm : ∀ first second, pqDistance first second = pqDistance second first)
    (target owner : Nat) {range : Nat} {nbrs : List Nat} (full : nbrs.length = range)
    (distinct : (nbrs ++ [target]).Nodup) :
    (∃ fuel list, deltaBoundedNhood range alpha pqDistance fuel target owner (nbrs ++ [target]) =
        some list) ∧
      ∀ fuel list, deltaBoundedNhood range alpha pqDistance fuel target owner (nbrs ++ [target]) =
          some list → ∃ evicted ∈ nbrs ++ [target],
        list.Perm ((nbrs ++ [target]).erase evicted) ∧ list.length = range ∧
          ((∃ keeper ∈ list, pqDistance owner keeper ≤ pqDistance owner evicted ∧
              ∃ bound, 1 - 1 / 100000 ≤ bound ∧ bound ≤ alpha ∧
                bound * pqDistance keeper evicted < pqDistance owner evicted) ∨
            (∀ id ∈ list, pqDistance owner id ≤ pqDistance owner evicted) ∧
              ∀ near ∈ nbrs ++ [target], ∀ far ∈ nbrs ++ [target],
                (Neighbor.mk near (pqDistance owner near)).Less ⟨far, pqDistance owner far⟩ →
                  pqDistance owner far ≤ alpha * pqDistance near far) := by
  have count : (nbrs ++ [target]).length = range + 1 := by
    rw [List.length_append, full, List.length_singleton]
  have inPool : ∃ tgtIdx, (triPool pqDistance target owner (nbrs ++ [target])).findFinIdx?
      (fun candidate => candidate.id = target) = some tgtIdx :=
    exists_tgtIdx (List.mem_append_right nbrs (List.mem_singleton_self target))
  obtain ⟨tgtIdx, found⟩ := inPool
  have isTarget := of_decide_eq_true (List.findFinIdx?_eq_some_iff.mp found).1
  have isPool := isTriPool_triPool isTarget
  have written : ∀ fuel, deltaBoundedNhood range alpha pqDistance fuel target owner
      (nbrs ++ [target]) = deltaPruneNeighborsPq alpha pqDistance _ tgtIdx fuel := fun fuel => by
    rw [deltaBoundedNhood, if_pos (count ▸ Nat.lt_succ_self range)]
    exact (congrArg (Option.bind · _) found)
  constructor
  · obtain ⟨fuel, fast, ends⟩ := exists_fastPath tgtIdx alpha
    refine ⟨fuel, Option.isSome_iff_exists.mp ?_⟩
    rw [written, deltaPruneNeighborsPq, toEvict, ends]
    rfl
  · intro fuel list ends
    rw [written] at ends
    obtain ⟨evicted, isEvicted, rfl⟩ := Option.map_eq_some_iff.mp ends
    have ids : ((triPool pqDistance target owner (nbrs ++ [target])).map fun candidate =>
        candidate.id).Perm (nbrs ++ [target]) := perm_ids_triPool
    have left := (perm_withoutEvicted (ids.nodup_iff.mpr distinct) evicted).trans (ids.erase _)
    have listed : ∀ i, ((triPool pqDistance target owner (nbrs ++ [target])).get i).id ∈
        nbrs ++ [target] :=
      fun i => ids.mem_iff.mp (List.mem_map_of_mem (List.get_mem _ i))
    have distance : ∀ i, ((triPool pqDistance target owner (nbrs ++ [target])).get i).distance =
        pqDistance owner ((triPool pqDistance target owner (nbrs ++ [target])).get i).id :=
      fun i => (mem_triPool (List.get_mem _ i)).1
    refine ⟨_, listed evicted, left, ?_, ?_⟩
    · rw [left.length_eq, List.length_erase_of_mem (listed evicted), count]
      rfl
    · rcases toEvict_cases isPool symm fromOne isEvicted with
        ⟨bound, keeper, least, below, other, notFarther, exceeds⟩ | ⟨isLast, none⟩
      · rw [distance, distance] at notFarther
        rw [distance] at exceeds
        refine .inl ⟨_, List.mem_map_of_mem (List.mem_filter.mpr ⟨List.mem_finRange keeper,
          decide_eq_true other⟩), notFarther, bound, least, below, exceeds⟩
      · refine .inr ⟨fun id member => ?_, fun near isNear far isFar less => ?_⟩
        · obtain ⟨i, _, rfl⟩ := List.mem_map.mp member
          rw [← distance, ← distance]
          rcases (isLast i).eq_or_lt with rfl | before
          · exact le_refl _
          · exact isPool.distance_le before
        · have place : ∀ id ∈ nbrs ++ [target], ∃ i,
              ((triPool pqDistance target owner (nbrs ++ [target])).get i).id = id := by
            intro id member
            obtain ⟨candidate, inside, rfl⟩ := List.mem_map.mp (ids.mem_iff.mpr member)
            obtain ⟨i, rfl⟩ := List.get_of_mem inside
            exact ⟨i, rfl⟩
          obtain ⟨i, rfl⟩ := place near isNear
          obtain ⟨j, rfl⟩ := place far isFar
          rw [← distance, ← distance] at less
          have before : i < j := by
            rcases lt_trichotomy i j with before | rfl | after
            · exact before
            · exact absurd less (Neighbor.Less.irrefl _)
            · exact absurd less (isPool.sorted j i after)
          have close := not_lt.mp (none i j before)
          rwa [distance] at close

/-- On a line, a list of two gets a third point. -/
theorem delta_prune_drops_one_line : ∃ fuel list,
    deltaBoundedNhood 2 (6 / 5 : ℚ) (fun first second => |(first : ℚ) - second|) fuel 3 0
      ([1, 2] ++ [3]) = some list ∧ list.length = 2 := by
  obtain ⟨⟨fuel, list, ends⟩, all⟩ := delta_prune_drops_one (show (1 : ℚ) ≤ 6 / 5 by norm_num)
    (fun first second => abs_sub_comm (first : ℚ) second) 3 0 (show [1, 2].length = 2 from rfl)
    (show ([1, 2] ++ [3]).Nodup by decide)
  obtain ⟨_, _, _, length, _⟩ := all fuel list ends
  exact ⟨fuel, list, ends, length⟩

end OdinVector
