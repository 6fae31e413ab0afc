/-
This file says what pruning is for. `occlude_list` goes through the candidates several
times, with a bound `cur_alpha` that grows by a factor of 1.2, and the passes share one
table of occlusion factors. In exact arithmetic a candidate that was not chosen carries the
largest ratio of its distance to its distance from a chosen nearer one, so the last pass
leaves out only candidates that a chosen one occludes.

`prune_neighbors` and `prune_neighbors_pq` fill the list up afterwards if `alpha` is above 1.
-/

import Mathlib.Algebra.Order.Archimedean.Basic
import Mathlib.Algebra.Order.Field.Basic
import OdinVector.Prune

namespace OdinVector

/-! ### The functions on full coordinates -/

section Functions

variable {Distance : Type} [LinearOrder Distance] (params : PruneParams Distance)
  (distance : Nat → Nat → Distance)

/-- `occlude_list`: the distance is taken from the other candidate to the chosen one. -/
def occludeList (pool : List (Neighbor Distance)) : List (Neighbor Distance) :=
  occludeListPq params (fun taken other => distance other taken) pool

/-- What `prune_neighbors` takes over from `result`: the medoid is left out of the last
quarter. -/
def dropMedoid (medoid : Nat) (result : List (Neighbor Distance)) : List Nat :=
  (result.zipIdx.filter fun entry =>
    ¬ (result.length * 3 / 4 < entry.2 ∧ entry.1.id = medoid)).map fun entry => entry.1.id

/-- `prune_neighbors`; `prunedList` is what the caller's list holds before. -/
def pruneNeighbors (medoid : Nat) (prunedList : List Nat) (pool : List (Neighbor Distance)) :
    List Nat :=
  if pool.isEmpty then prunedList
  else
    let sorted := sortPool pool
    let pruned := dropMedoid medoid (occludeList params distance sorted)
    if params.alphaAboveOne then fillUp params sorted pruned else pruned

/-- `prune_neighbors_pq` with the caller's list, which stays as it is for an empty pool. -/
def pruneNeighborsPqInto (prunedList : List Nat) (pool : List (Neighbor Distance)) : List Nat :=
  if pool.isEmpty then prunedList else pruneNeighborsPq params distance pool

/-! ### The order of the choices -/

/-- The candidates that a pass chooses, one after the other. -/
def roundChoices (curAlpha : Distance) :
    List (Neighbor Distance) → List Distance → List (Neighbor Distance) →
      List (Neighbor Distance)
  | candidate :: others, factor :: factors, result =>
    if params.range ≤ result.length then []
    else if curAlpha < factor then roundChoices curAlpha others factors result
    else
      candidate :: roundChoices curAlpha others
        (occludeOthers params distance candidate.id others factors)
        (insertNeighbor candidate result)
  | _, _, _ => []

/-- The candidates that the passes choose. -/
def roundsChoices (pool : List (Neighbor Distance)) :
    List Distance → List Distance → List (Neighbor Distance) → List (Neighbor Distance)
  | [], _, _ => []
  | curAlpha :: later, factors, result =>
    if params.range ≤ result.length then []
    else
      let (final, taken) := occludeRound params distance curAlpha pool factors result
      roundChoices params distance curAlpha pool factors result ++
        roundsChoices pool later final taken

/-- The candidates in the order in which `occlude_list_pq` puts them into `result_set`. -/
def occludeChoices (pool : List (Neighbor Distance)) : List (Neighbor Distance) :=
  let candidates := pool.take params.maxc
  roundsChoices params distance candidates params.alphaRounds
    (candidates.map fun _ => params.initialFactor) []

end Functions

section Choices

variable {Distance : Type} [LinearOrder Distance] {params : PruneParams Distance}
  {distance : Nat → Nat → Distance}

theorem Neighbor.eq_of_not_less {first second : Neighbor Distance} (before : ¬ first.Less second)
    (after : ¬ second.Less first) : first = second := by
  obtain ⟨firstId, firstDistance⟩ := first
  obtain ⟨secondId, secondDistance⟩ := second
  have notFarther : secondDistance ≤ firstDistance := not_lt.mp fun less => before (.inl less)
  have notNearer : firstDistance ≤ secondDistance := not_lt.mp fun less => after (.inl less)
  have same : firstDistance = secondDistance := le_antisymm notNearer notFarther
  subst same
  have idLe : secondId ≤ firstId := not_lt.mp fun less => before (.inr ⟨rfl, less⟩)
  have idGe : firstId ≤ secondId := not_lt.mp fun less => after (.inr ⟨rfl, less⟩)
  rw [le_antisymm idGe idLe]

theorem mem_insertNeighbor_iff (candidate : Neighbor Distance) (result : List (Neighbor Distance))
    (member : Neighbor Distance) :
    member ∈ insertNeighbor candidate result ↔ member = candidate ∨ member ∈ result := by
  induction result with
  | nil => exact List.mem_singleton.trans (or_iff_left List.not_mem_nil).symm
  | cons first rest inductionHypothesis =>
    unfold insertNeighbor
    split
    · exact List.mem_cons
    · rename_i notBefore
      split
      · rw [List.mem_cons, inductionHypothesis, List.mem_cons, or_left_comm]
      · rename_i notAfter
        have same : candidate = first := Neighbor.eq_of_not_less notBefore notAfter
        rw [same, List.mem_cons]
        exact ⟨.inr, fun either => either.elim .inl id⟩

/-- `result_set` holds what was there and what the pass chooses. -/
theorem mem_occludeRound (curAlpha : Distance) (member : Neighbor Distance) :
    ∀ (candidates : List (Neighbor Distance)) (factors : List Distance)
      (result : List (Neighbor Distance)),
      member ∈ (occludeRound params distance curAlpha candidates factors result).2 ↔
        member ∈ roundChoices params distance curAlpha candidates factors result ∨
          member ∈ result
  | [], _, _ => by
    unfold occludeRound roundChoices
    exact (or_iff_right List.not_mem_nil).symm
  | _ :: _, [], _ => by
    unfold occludeRound roundChoices
    exact (or_iff_right List.not_mem_nil).symm
  | candidate :: others, factor :: factors, result => by
    unfold occludeRound roundChoices
    split
    · exact (or_iff_right List.not_mem_nil).symm
    · split
      · exact mem_occludeRound curAlpha member others factors result
      · show member ∈ (occludeRound params distance curAlpha others _ _).2 ↔ _
        rw [mem_occludeRound curAlpha member others, mem_insertNeighbor_iff, List.mem_cons,
          or_left_comm, or_assoc]

theorem mem_occludeRounds (pool : List (Neighbor Distance)) (member : Neighbor Distance) :
    ∀ (alphas factors : List Distance) (result : List (Neighbor Distance)),
      member ∈ occludeRounds params distance pool alphas factors result ↔
        member ∈ roundsChoices params distance pool alphas factors result ∨ member ∈ result
  | [], _, _ => by
    unfold occludeRounds roundsChoices
    exact (or_iff_right List.not_mem_nil).symm
  | curAlpha :: later, factors, result => by
    unfold occludeRounds roundsChoices
    split
    · exact (or_iff_right List.not_mem_nil).symm
    · show member ∈ occludeRounds params distance pool later _ _ ↔ _
      rw [mem_occludeRounds pool member later, mem_occludeRound, List.mem_append, ← or_assoc]
      exact or_congr_left or_comm

theorem mem_occludeListPq (pool : List (Neighbor Distance)) (member : Neighbor Distance) :
    member ∈ occludeListPq params distance pool ↔ member ∈ occludeChoices params distance pool :=
  (mem_occludeRounds _ member _ _ _).trans (or_iff_left List.not_mem_nil)

theorem mem_of_mem_roundChoices (curAlpha : Distance) {member : Neighbor Distance} :
    ∀ (candidates : List (Neighbor Distance)) (factors : List Distance)
      (result : List (Neighbor Distance)),
      member ∈ roundChoices params distance curAlpha candidates factors result →
        member ∈ candidates
  | [], _, _, chosen => by
    unfold roundChoices at chosen
    exact absurd chosen List.not_mem_nil
  | _ :: _, [], _, chosen => by
    unfold roundChoices at chosen
    exact absurd chosen List.not_mem_nil
  | candidate :: others, factor :: factors, result, chosen => by
    unfold roundChoices at chosen
    split at chosen
    · exact absurd chosen List.not_mem_nil
    · split at chosen
      · exact List.mem_cons_of_mem _ (mem_of_mem_roundChoices curAlpha others _ _ chosen)
      · rcases List.mem_cons.mp chosen with rfl | later
        · exact List.mem_cons_self
        · exact List.mem_cons_of_mem _ (mem_of_mem_roundChoices curAlpha others _ _ later)

end Choices

/-! ### One pass -/

section Passes

variable {Distance : Type} [Field Distance] [LinearOrder Distance]
  {params : PruneParams Distance} {distance : Nat → Nat → Distance}

/-- What a chosen candidate adds to the factor of another one. -/
def Neighbor.ratio (distance : Nat → Nat → Distance) (taken other : Neighbor Distance) : Distance :=
  other.distance / distance taken.id other.id

/-- The factor of a candidate after the choices so far: nothing for the chosen ones, and for
the others the largest ratio to a chosen nearer one, until that is above `alpha`. -/
structure Weighed (alpha : Distance) (distance : Nat → Nat → Distance)
    (chosen : List (Neighbor Distance)) (candidate : Neighbor Distance) (factor : Distance) :
    Prop where
  above : ∀ taken ∈ chosen, taken.Less candidate →
    (candidate ∈ chosen ∧ taken.ratio distance candidate ≤ alpha) ∨
      taken.ratio distance candidate ≤ factor ∨ alpha < factor
  attained : candidate ∉ chosen → factor = 0 ∨ ∃ taken ∈ chosen, taken.Less candidate ∧
    factor = taken.ratio distance candidate

/-- No candidate was chosen against an earlier choice that is nearer. -/
def ChosenApart (alpha : Distance) (distance : Nat → Nat → Distance)
    (chosen : List (Neighbor Distance)) : Prop :=
  chosen.Pairwise fun taken later => taken.Less later → taken.ratio distance later ≤ alpha

theorem Weighed.later {chosen : List (Neighbor Distance)} {candidate : Neighbor Distance}
    {factor : Distance} (weighed : Weighed params.alpha distance chosen candidate factor)
    {more : List (Neighbor Distance)} (farther : ∀ taken ∈ more, ¬ taken.Less candidate) :
    Weighed params.alpha distance (chosen ++ more) candidate factor := by
  refine ⟨fun taken member less => ?_, fun fresh => ?_⟩
  · have before : taken ∈ chosen :=
      (List.mem_append.mp member).resolve_right fun new => farther taken new less
    exact (weighed.above taken before less).imp_left
      fun established => ⟨List.mem_append_left _ established.1, established.2⟩
  · refine (weighed.attained fun old => fresh (List.mem_append_left _ old)).imp_right ?_
    rintro ⟨taken, member, attains⟩
    exact ⟨taken, List.mem_append_left _ member, attains⟩

/-- A candidate that is chosen has passed all choices before it. -/
theorem Weighed.ratio_le {chosen : List (Neighbor Distance)} {candidate : Neighbor Distance}
    {factor : Distance} (weighed : Weighed params.alpha distance chosen candidate factor)
    (low : factor ≤ params.alpha) {taken : Neighbor Distance} (member : taken ∈ chosen)
    (less : taken.Less candidate) : taken.ratio distance candidate ≤ params.alpha := by
  rcases weighed.above taken member less with established | below | above
  · exact established.2
  · exact below.trans low
  · exact absurd low (not_le.mpr above)

/-- The candidate itself after it was chosen, with any factor. -/
theorem Weighed.choose {chosen : List (Neighbor Distance)} {candidate : Neighbor Distance}
    {factor : Distance} (weighed : Weighed params.alpha distance chosen candidate factor)
    (low : factor ≤ params.alpha) (sentinel : Distance) :
    Weighed params.alpha distance (chosen ++ [candidate]) candidate sentinel := by
  have isChosen : candidate ∈ chosen ++ [candidate] :=
    List.mem_append_right _ (List.mem_singleton_self _)
  refine ⟨fun taken member less => .inl ⟨isChosen, ?_⟩, fun fresh => absurd isChosen fresh⟩
  rcases List.mem_append.mp member with old | new
  · exact weighed.ratio_le low old less
  · rw [List.mem_singleton.mp new] at less
    exact absurd less (Neighbor.Less.irrefl candidate)

section Exact

variable (occludes : ∀ factor far near, params.occlude factor far near = max factor (far / near))

include occludes

/-- A candidate behind the one that was chosen, with its new factor. -/
theorem Weighed.occluded {chosen : List (Neighbor Distance)} {candidate other : Neighbor Distance}
    {factor : Distance} (weighed : Weighed params.alpha distance chosen other factor)
    (nearer : candidate.Less other) :
    Weighed params.alpha distance (chosen ++ [candidate]) other
      (if params.alpha < factor then factor
        else params.occlude factor other.distance (distance candidate.id other.id)) := by
  rw [occludes]
  refine ⟨fun taken member less => ?_, fun fresh => ?_⟩
  · rcases List.mem_append.mp member with old | new
    · rcases weighed.above taken old less with established | below | above
      · exact .inl ⟨List.mem_append_left _ established.1, established.2⟩
      · refine .inr (.inl ?_)
        split
        · exact below
        · exact below.trans (le_max_left _ _)
      · rw [if_pos above]
        exact .inr (.inr above)
    · rw [List.mem_singleton.mp new]
      split
      · rename_i above
        exact .inr (.inr above)
      · exact .inr (.inl (le_max_right _ _))
  · have before := weighed.attained fun old => fresh (List.mem_append_left _ old)
    have kept : factor = 0 ∨ ∃ taken ∈ chosen ++ [candidate], taken.Less other ∧
        factor = taken.ratio distance other :=
      before.imp_right fun ⟨taken, member, attains⟩ =>
        ⟨taken, List.mem_append_left _ member, attains⟩
    split
    · exact kept
    · rcases max_choice factor (other.distance / distance candidate.id other.id) with same | same
      · rw [same]
        exact kept
      · rw [same]
        exact .inr ⟨candidate, List.mem_append_right _ (List.mem_singleton_self _), nearer, rfl⟩

theorem weighed_occludeOthers {chosen : List (Neighbor Distance)} {candidate : Neighbor Distance} :
    ∀ {others : List (Neighbor Distance)} {factors : List Distance},
      (∀ other ∈ others, candidate.Less other) →
        List.Forall₂ (Weighed params.alpha distance chosen) others factors →
          List.Forall₂ (Weighed params.alpha distance (chosen ++ [candidate])) others
            (occludeOthers params distance candidate.id others factors)
  | _, _, _, .nil => .nil
  | _, _, nearer, .cons weighed later =>
    .cons (weighed.occluded occludes (nearer _ List.mem_cons_self))
      (weighed_occludeOthers (fun other member => nearer other (List.mem_cons_of_mem _ member))
        later)

/-- What a pass over sorted candidates leaves behind. -/
structure PassDone (params : PruneParams Distance) (distance : Nat → Nat → Distance)
    (curAlpha : Distance) (candidates chosen : List (Neighbor Distance))
    (run : List Distance × List (Neighbor Distance)) : Prop where
  weighed : List.Forall₂ (Weighed params.alpha distance chosen) candidates run.1
  apart : ChosenApart params.alpha distance chosen
  rejected : run.2.length < params.range →
    List.Forall₂ (fun candidate factor => candidate ∈ chosen ∨ curAlpha < factor) candidates run.1

theorem occludeRound_done {curAlpha : Distance} (within : curAlpha ≤ params.alpha) :
    ∀ (candidates : List (Neighbor Distance)) (factors : List Distance)
      {chosen result : List (Neighbor Distance)}, candidates.Pairwise Neighbor.Less →
        List.Forall₂ (Weighed params.alpha distance chosen) candidates factors →
          ChosenApart params.alpha distance chosen →
            PassDone params distance curAlpha candidates
              (chosen ++ roundChoices params distance curAlpha candidates factors result)
              (occludeRound params distance curAlpha candidates factors result)
  | [], _, _, _, _, .nil, apart => by
    unfold roundChoices occludeRound
    rw [List.append_nil]
    exact ⟨.nil, apart, fun _ => .nil⟩
  | candidate :: others, factor :: factors, chosen, result, sorted, weighed, apart => by
    obtain ⟨nearer, sortedOthers⟩ := List.pairwise_cons.mp sorted
    obtain ⟨weighedFirst, weighedOthers⟩ := List.forall₂_cons.mp weighed
    -- what is chosen later in the pass lies behind the candidate
    have behind : ∀ {factors : List Distance} {result : List (Neighbor Distance)},
        ∀ taken ∈ roundChoices params distance curAlpha others factors result,
          ¬ taken.Less candidate := fun taken member less =>
      Neighbor.Less.irrefl candidate
        ((nearer taken (mem_of_mem_roundChoices _ _ _ _ member)).trans less)
    unfold roundChoices occludeRound
    split
    · rename_i full
      rw [List.append_nil]
      exact ⟨weighed, apart, fun room => absurd full (Nat.not_le.mpr room)⟩
    · split
      · rename_i above
        have done : PassDone params distance curAlpha others
            (chosen ++ roundChoices params distance curAlpha others factors result) _ :=
          occludeRound_done within others factors sortedOthers weighedOthers apart
        exact ⟨.cons (weighedFirst.later behind) done.weighed, done.apart,
          fun room => .cons (.inr above) (done.rejected room)⟩
      · rename_i low
        have low : factor ≤ params.alpha := (not_lt.mp low).trans within
        have apart : ChosenApart params.alpha distance (chosen ++ [candidate]) := by
          refine List.pairwise_append.mpr ⟨apart, List.pairwise_singleton _ _, ?_⟩
          intro taken member last isLast less
          rw [List.mem_singleton.mp isLast] at less ⊢
          exact weighedFirst.ratio_le low member less
        have done : PassDone params distance curAlpha others
            ((chosen ++ [candidate]) ++ roundChoices params distance curAlpha others
              (occludeOthers params distance candidate.id others factors)
              (insertNeighbor candidate result)) _ :=
          occludeRound_done within others _ sortedOthers
            (weighed_occludeOthers occludes nearer weighedOthers) apart
        have chosenNow : Weighed params.alpha distance
            ((chosen ++ [candidate]) ++ roundChoices params distance curAlpha others
              (occludeOthers params distance candidate.id others factors)
              (insertNeighbor candidate result)) candidate params.maxFactor :=
          (weighedFirst.choose low params.maxFactor).later behind
        rw [List.append_assoc, List.singleton_append] at done chosenNow
        exact ⟨.cons chosenNow done.weighed, done.apart, fun room =>
          .cons (.inl (List.mem_append_right _ List.mem_cons_self)) (done.rejected room)⟩

/-- After all passes a candidate is chosen, or a chosen one before it occludes it in the
last pass. -/
theorem roundsChoices_covers {candidates : List (Neighbor Distance)}
    (sorted : candidates.Pairwise Neighbor.Less) {last : Distance} (notNegative : 0 ≤ last) :
    ∀ (alphas factors : List Distance) (result : List (Neighbor Distance))
      {chosen : List (Neighbor Distance)}, (∀ alpha ∈ alphas, alpha ≤ params.alpha) →
        alphas.getLast? = some last →
        List.Forall₂ (Weighed params.alpha distance chosen) candidates factors →
          ChosenApart params.alpha distance chosen →
            ChosenApart params.alpha distance
                (chosen ++ roundsChoices params distance candidates alphas factors result) ∧
              ((occludeRounds params distance candidates alphas factors result).length <
                  params.range →
                ∀ candidate ∈ candidates,
                  candidate ∉ chosen ++
                      roundsChoices params distance candidates alphas factors result →
                    ∃ taken ∈ chosen ++
                        roundsChoices params distance candidates alphas factors result,
                      taken.Less candidate ∧ last < taken.ratio distance candidate)
  | [], _, _, _, _, isLast, _, _ => absurd isLast.symm (Option.some_ne_none _)
  | curAlpha :: later, factors, result, chosen, within, isLast, weighed, apart => by
    have done : PassDone params distance curAlpha candidates
        (chosen ++ roundChoices params distance curAlpha candidates factors result)
        (occludeRound params distance curAlpha candidates factors result) :=
      occludeRound_done occludes (within _ List.mem_cons_self) candidates factors sorted weighed
        apart
    unfold roundsChoices occludeRounds
    split
    · rename_i full
      rw [List.append_nil]
      exact ⟨apart, fun room => absurd full (Nat.not_le.mpr room)⟩
    · dsimp only
      cases later with
      | nil =>
        obtain rfl : curAlpha = last := Option.some.inj isLast
        unfold roundsChoices occludeRounds
        rw [List.append_nil]
        refine ⟨done.apart, fun room candidate member fresh => ?_⟩
        obtain ⟨index, inside, rfl⟩ := List.getElem_of_mem member
        have aligned := done.weighed.length_eq
        have above : curAlpha <
            (occludeRound params distance curAlpha candidates factors result).1[index] :=
          ((List.forall₂_iff_get.mp (done.rejected room)).2 index inside
            (aligned ▸ inside)).resolve_left fresh
        have attained := ((List.forall₂_iff_get.mp done.weighed).2 index inside
          (aligned ▸ inside)).attained fresh
        rcases attained with zero | ⟨taken, isTaken, less, attains⟩
        · exact absurd (zero ▸ above) (not_lt.mpr notNegative)
        · exact ⟨taken, isTaken, less, attains ▸ above⟩
      | cons next later =>
        have rest := roundsChoices_covers sorted notNegative (next :: later)
          (occludeRound params distance curAlpha candidates factors result).1
          (occludeRound params distance curAlpha candidates factors result).2
          (fun alpha member => within alpha (List.mem_cons_of_mem _ member))
          (List.getLast?_cons_cons ▸ isLast) done.weighed done.apart
        rw [List.append_assoc] at rest
        exact rest

end Exact

end Passes

/-! ### The specification -/

section Specification

variable {Distance : Type} [Field Distance] [LinearOrder Distance]

/-- `top` is the last power of 1.2 that `cur_alpha` reaches. -/
structure LargestPower (alpha : Distance) (top : Nat) : Prop where
  least : (6 / 5) ^ top ≤ alpha
  next : alpha < (6 / 5) ^ (top + 1)

/-- The settings with exact arithmetic. -/
def PruneParams.exact (range maxc : Nat) (alpha maxFactor : Distance) (top : Nat) :
    PruneParams Distance where
  range
  maxc
  alpha
  alphaRounds := (List.range (top + 1)).map fun round => (6 / 5) ^ round
  alphaAboveOne := 1 < alpha
  initialFactor := 0
  maxFactor
  occlude factor far near := max factor (far / near)

/-- What `occlude_list` has to do with the `candidates`, for the order in which it chose
them. Nearer means before in the sorted pool. -/
structure AlphaRng (range : Nat) (alpha last : Distance) (distance : Nat → Nat → Distance)
    (candidates chosen result : List (Neighbor Distance)) : Prop where
  subset : ∀ member ∈ result, member ∈ candidates
  sorted : result.Pairwise Neighbor.Less
  nodup : (result.map Neighbor.id).Nodup
  nearest : ∀ first, candidates.head? = some first → first ∈ result
  bounded : result.length ≤ range
  isChosen : ∀ member, member ∈ result ↔ member ∈ chosen
  apart : chosen.Pairwise fun taken later => taken.Less later →
    later.distance ≤ alpha * distance taken.id later.id
  covered : result.length < range → ∀ candidate ∈ candidates, candidate ∉ result →
    ∃ taken ∈ result, taken.Less candidate ∧
      last * distance taken.id candidate.id < candidate.distance

/-- What `prune_neighbors` has to return for a pool with these ids. -/
structure FillsUp (range : Nat) (ids pruned : List Nat) : Prop where
  subset : ∀ id ∈ pruned, id ∈ ids
  nodup : pruned.Nodup
  length : pruned.length = min range ids.length

/-! #### Choosing -/

omit [Field Distance] in
theorem pairwise_less {pool : List (Neighbor Distance)}
    (sorted : pool.Pairwise fun first second => ¬ second.Less first)
    (distinct : (pool.map Neighbor.id).Nodup) : pool.Pairwise Neighbor.Less := by
  have apart : pool.Pairwise fun first second => first.id ≠ second.id :=
    List.pairwise_map.mp distinct
  refine (sorted.and apart).imp fun {first second} both => ?_
  by_contra before
  exact both.2 (congrArg Neighbor.id (Neighbor.eq_of_not_less before both.1))

omit [Field Distance] in
theorem mem_of_mem_roundsChoices {params : PruneParams Distance}
    {distance : Nat → Nat → Distance} {candidates : List (Neighbor Distance)}
    {member : Neighbor Distance} :
    ∀ (alphas factors : List Distance) (result : List (Neighbor Distance)),
      member ∈ roundsChoices params distance candidates alphas factors result →
        member ∈ candidates
  | [], _, _, chosen => absurd chosen List.not_mem_nil
  | curAlpha :: later, factors, result, chosen => by
    unfold roundsChoices at chosen
    split at chosen
    · exact absurd chosen List.not_mem_nil
    · rcases List.mem_append.mp chosen with now | afterwards
      · exact mem_of_mem_roundChoices curAlpha _ _ _ now
      · exact mem_of_mem_roundsChoices later _ _ afterwards

theorem exact_alphaRounds_getLast? (range maxc : Nat) (alpha maxFactor : Distance) (top : Nat) :
    (PruneParams.exact range maxc alpha maxFactor top).alphaRounds.getLast? =
      some ((6 / 5) ^ top) := by
  show ((List.range (top + 1)).map fun round => ((6 / 5 : Distance)) ^ round).getLast? = _
  rw [List.range_succ, List.map_append, List.map_singleton, List.getLast?_concat]

theorem head_mem_occludeChoices {range maxc : Nat} {alpha maxFactor : Distance} {top : Nat}
    [IsStrictOrderedRing Distance] (someRange : 1 ≤ range) {distance : Nat → Nat → Distance}
    {pool : List (Neighbor Distance)} {first : Neighbor Distance}
    (isFirst : (pool.take maxc).head? = some first) :
    first ∈ occludeChoices (.exact range maxc alpha maxFactor top) distance pool := by
  obtain ⟨others, candidates⟩ := List.head?_eq_some_iff.mp isFirst
  have rounds : (PruneParams.exact range maxc alpha maxFactor top).alphaRounds =
      1 :: ((List.range top).map fun round => ((6 / 5 : Distance)) ^ (round + 1)) := by
    show (List.range (top + 1)).map _ = _
    rw [List.range_succ_eq_map, List.map_cons, List.map_map, pow_zero]
    rfl
  have room : ¬ (PruneParams.exact range maxc alpha maxFactor top).range ≤
      ([] : List (Neighbor Distance)).length := Nat.not_le.mpr someRange
  have low : ¬ (1 : Distance) < 0 := not_lt.mpr zero_le_one
  show first ∈ roundsChoices _ distance (pool.take maxc) _
    ((pool.take maxc).map fun _ => (0 : Distance)) []
  rw [candidates, rounds, List.map_cons]
  unfold roundsChoices
  rw [if_neg room]
  refine List.mem_append_left _ ?_
  unfold roundChoices
  rw [if_neg room, if_neg low]
  exact List.mem_cons_self

section Ordered

variable [IsStrictOrderedRing Distance]

/-- Every `alpha` from 1 on has a last power. -/
theorem exists_largestPower [Archimedean Distance] {alpha : Distance} (fromOne : 1 ≤ alpha) :
    ∃ top, LargestPower alpha top := by
  have grows : (1 : Distance) < 6 / 5 := by norm_num
  obtain ⟨top, least, next⟩ := exists_nat_pow_near fromOne grows
  exact ⟨top, least, next⟩

theorem exact_alphaRounds_le {range maxc : Nat} {alpha maxFactor : Distance} {top : Nat}
    (largest : LargestPower alpha top) :
    ∀ round ∈ (PruneParams.exact range maxc alpha maxFactor top).alphaRounds, round ≤ alpha := by
  intro round member
  obtain ⟨power, inside, rfl⟩ := List.mem_map.mp member
  have grows : (1 : Distance) ≤ 6 / 5 := by norm_num
  exact (pow_le_pow_right₀ grows (Nat.lt_succ_iff.mp (List.mem_range.mp inside))).trans
    largest.least

/-- The choices of `occlude_list_pq`, with the invariant of the passes. -/
theorem occludeChoices_covers {range maxc : Nat} {alpha maxFactor : Distance} {top : Nat}
    (largest : LargestPower alpha top) {distance : Nat → Nat → Distance}
    {pool : List (Neighbor Distance)} (sorted : (pool.take maxc).Pairwise Neighbor.Less) :
    ChosenApart alpha distance (occludeChoices (.exact range maxc alpha maxFactor top) distance pool) ∧
      ((occludeListPq (.exact range maxc alpha maxFactor top) distance pool).length < range →
        ∀ candidate ∈ pool.take maxc,
          candidate ∉ occludeChoices (.exact range maxc alpha maxFactor top) distance pool →
            ∃ taken ∈ occludeChoices (.exact range maxc alpha maxFactor top) distance pool,
              taken.Less candidate ∧ (6 / 5) ^ top < taken.ratio distance candidate) := by
  have notNegative : (0 : Distance) ≤ (6 / 5) ^ top := by positivity
  have unweighed : List.Forall₂ (Weighed alpha distance []) (pool.take maxc)
      ((pool.take maxc).map fun _ => (0 : Distance)) := by
    rw [List.forall₂_map_right_iff, List.forall₂_same]
    exact fun candidate _ =>
      ⟨fun taken member => absurd member List.not_mem_nil, fun _ => .inl rfl⟩
  have occludes : ∀ factor far near,
      (PruneParams.exact range maxc alpha maxFactor top).occlude factor far near =
        max factor (far / near) := fun _ _ _ => rfl
  exact roundsChoices_covers occludes sorted notNegative _ _ [] (exact_alphaRounds_le largest)
    (exact_alphaRounds_getLast? range maxc alpha maxFactor top) unweighed .nil

theorem occludeListPq_alphaRng {range maxc : Nat} {alpha maxFactor : Distance} {top : Nat}
    (someRange : 1 ≤ range) (largest : LargestPower alpha top) {distance : Nat → Nat → Distance}
    {pool : List (Neighbor Distance)} (sorted : pool.Pairwise Neighbor.Less)
    (distinct : (pool.map Neighbor.id).Nodup)
    (positive : ∀ first ∈ pool, ∀ second ∈ pool, first.id ≠ second.id →
      0 < distance first.id second.id) :
    AlphaRng range alpha ((6 / 5) ^ top) distance (pool.take maxc)
      (occludeChoices (.exact range maxc alpha maxFactor top) distance pool)
      (occludeListPq (.exact range maxc alpha maxFactor top) distance pool) := by
  have part : PartOf range (pool.take maxc)
      (occludeListPq (.exact range maxc alpha maxFactor top) distance pool) :=
    @partOf_candidates _ _ (.exact range maxc alpha maxFactor top) distance pool
  have distinctTaken : ((pool.take maxc).map Neighbor.id).Nodup :=
    distinct.sublist ((List.take_sublist _ _).map _)
  have covers := @occludeChoices_covers _ _ _ _ range maxc alpha maxFactor top largest distance pool
    (sorted.sublist (List.take_sublist maxc pool))
  have inPool : ∀ {member}, member ∈ occludeChoices (.exact range maxc alpha maxFactor top)
      distance pool → member ∈ pool :=
    fun chosen => List.mem_of_mem_take (mem_of_mem_roundsChoices _ _ _ chosen)
  have far : ∀ {taken other : Neighbor Distance}, taken ∈ pool → other ∈ pool →
      taken.Less other → 0 < distance taken.id other.id := by
    intro taken other isTaken isOther less
    refine positive _ isTaken _ isOther fun same => ?_
    rw [List.inj_on_of_nodup_map distinct isTaken isOther same] at less
    exact Neighbor.Less.irrefl other less
  refine ⟨part.subset, part.sorted, part.nodup distinctTaken, fun first isFirst => ?_,
    part.bounded, mem_occludeListPq pool, ?_, fun room candidate isCandidate rejected => ?_⟩
  · exact (mem_occludeListPq pool first).mpr (head_mem_occludeChoices someRange isFirst)
  · refine covers.1.imp_of_mem fun {taken later} isTaken isLater apart less => ?_
    exact (div_le_iff₀ (far (inPool isTaken) (inPool isLater) less)).mp (apart less)
  · obtain ⟨taken, isTaken, less, above⟩ := covers.2 room candidate isCandidate
      fun chosen => rejected ((mem_occludeListPq pool candidate).mpr chosen)
    exact ⟨taken, (mem_occludeListPq pool taken).mpr isTaken, less,
      (lt_div_iff₀ (far (inPool isTaken) (List.mem_of_mem_take isCandidate) less)).mp above⟩

end Ordered

/-- The same specification for a distance that is equal on the candidates. -/
theorem AlphaRng.congr {range : Nat} {alpha last : Distance}
    {distance other : Nat → Nat → Distance} {candidates chosen result : List (Neighbor Distance)}
    (specified : AlphaRng range alpha last distance candidates chosen result)
    (same : ∀ first ∈ candidates, ∀ second ∈ candidates,
      distance first.id second.id = other first.id second.id) :
    AlphaRng range alpha last other candidates chosen result := by
  have isCandidate : ∀ {member}, member ∈ chosen → member ∈ candidates :=
    fun {member} isChosen => specified.subset _ ((specified.isChosen member).mpr isChosen)
  refine { specified with
    apart := specified.apart.imp_of_mem fun {taken later} isTaken isLater apart less => ?_
    covered := fun room candidate inside rejected => ?_ }
  · rw [← same _ (isCandidate isTaken) _ (isCandidate isLater)]
    exact apart less
  · obtain ⟨taken, isTaken, less, above⟩ := specified.covered room candidate inside rejected
    rw [same _ (specified.subset _ isTaken) _ inside] at above
    exact ⟨taken, isTaken, less, above⟩

/-! #### Filling up -/

omit [Field Distance] [LinearOrder Distance] in
theorem mem_fillUp_of_mem {params : PruneParams Distance} {id : Nat} :
    ∀ (pool : List (Neighbor Distance)) {pruned : List Nat}, id ∈ pruned →
      id ∈ fillUp params pool pruned
  | [], _, member => member
  | candidate :: rest, pruned, member => by
    unfold fillUp
    split
    · exact member
    · split
      · exact mem_fillUp_of_mem rest member
      · exact mem_fillUp_of_mem rest (List.mem_append_left _ member)

omit [Field Distance] [LinearOrder Distance] in
/-- A list that still has room at the end has the ids of the whole pool. -/
theorem mem_fillUp {params : PruneParams Distance} :
    ∀ (pool : List (Neighbor Distance)) {pruned : List Nat},
      (fillUp params pool pruned).length < params.range →
        ∀ candidate ∈ pool, candidate.id ∈ fillUp params pool pruned
  | [], _, _, _, member => absurd member List.not_mem_nil
  | first :: rest, pruned, room, candidate, member => by
    unfold fillUp at room ⊢
    split
    · rename_i full
      rw [if_pos full] at room
      exact absurd full (Nat.not_le.mpr room)
    · rename_i space
      rw [if_neg space] at room
      split
      · rename_i there
        rw [if_pos there] at room
        rcases List.mem_cons.mp member with rfl | later
        · exact mem_fillUp_of_mem rest there
        · exact mem_fillUp rest room candidate later
      · rename_i fresh
        rw [if_neg fresh] at room
        rcases List.mem_cons.mp member with rfl | later
        · exact mem_fillUp_of_mem rest (List.mem_append_right _ (List.mem_singleton_self _))
        · exact mem_fillUp rest room candidate later

omit [Field Distance] [LinearOrder Distance] in
/-- Filling up from a part of the pool. -/
theorem fillsUp_fillUp {params : PruneParams Distance} {pool : List (Neighbor Distance)}
    {pruned : List Nat} (distinct : (pool.map Neighbor.id).Nodup)
    (part : Pruned params.range (pool.map Neighbor.id) pruned) (nodup : pruned.Nodup) :
    FillsUp params.range (pool.map Neighbor.id) (fillUp params pool pruned) := by
  have filled : Pruned params.range (pool.map Neighbor.id) (fillUp params pool pruned) :=
    pruned_fillUp pool (fun neighbor inside => List.mem_map_of_mem inside) part
  have once : (fillUp params pool pruned).Nodup := nodup_fillUp pool nodup
  refine ⟨filled.subset, once, le_antisymm ?_ ?_⟩
  · exact le_min filled.bounded (List.subperm_of_subset once filled.subset).length_le
  · by_cases room : (fillUp params pool pruned).length < params.range
    · refine (min_le_right _ _).trans 
        (List.subperm_of_subset distinct fun id member => ?_).length_le
      obtain ⟨candidate, inside, rfl⟩ := List.mem_map.mp member
      exact mem_fillUp pool room candidate inside
    · exact (min_le_left _ _).trans (Nat.not_lt.mp room)

omit [Field Distance] [LinearOrder Distance] in
theorem dropMedoid_sublist (medoid : Nat) (result : List (Neighbor Distance)) :
    (dropMedoid medoid result).Sublist (result.map Neighbor.id) := by
  have whole : (result.zipIdx.map fun entry => entry.1.id) = result.map Neighbor.id := by
    show result.zipIdx.map (Neighbor.id ∘ Prod.fst) = _
    rw [← List.map_map, List.zipIdx_map_fst]
  rw [← whole]
  exact List.filter_sublist.map _

omit [Field Distance] in
theorem pruned_dropMedoid (params : PruneParams Distance) (distance : Nat → Nat → Distance)
    (medoid : Nat) (pool : List (Neighbor Distance)) :
    Pruned params.range (pool.map Neighbor.id)
      (dropMedoid medoid (occludeList params distance pool)) := by
  have part : PartOf params.range pool (occludeList params distance pool) :=
    partOf_occludeListPq _
  have dropped := dropMedoid_sublist medoid (occludeList params distance pool)
  exact ⟨fun id member => part.pruned.subset id (dropped.subset member),
    dropped.length_le.trans part.pruned.bounded⟩

omit [Field Distance] in
/-- The neighbours that are left are candidates. -/
theorem mem_pruneNeighbors {params : PruneParams Distance} {distance : Nat → Nat → Distance}
    {medoid : Nat} {pool : List (Neighbor Distance)} {id : Nat}
    (member : id ∈ pruneNeighbors params distance medoid [] pool) :
    ∃ neighbor ∈ pool, neighbor.id = id := by
  have kept := pruned_dropMedoid params distance medoid (sortPool pool)
  have inside : id ∈ (sortPool pool).map Neighbor.id := by
    unfold pruneNeighbors at member
    dsimp only at member
    split at member
    · exact absurd member List.not_mem_nil
    · split at member
      · have filled : Pruned params.range ((sortPool pool).map Neighbor.id) (fillUp params _ _) :=
          pruned_fillUp (sortPool pool) (fun neighbor inside => List.mem_map_of_mem inside) kept
        exact filled.subset id member
      · exact kept.subset id member
  exact List.mem_map.mp (((perm_sortPool pool).map Neighbor.id).subset inside)

/-- With `alpha` above 1 both functions return as many ids as there can be. -/
theorem pruneNeighborsPqInto_fillsUp {range maxc : Nat} {alpha maxFactor : Distance} {top : Nat}
    (above : 1 < alpha) (distance : Nat → Nat → Distance) {prunedList : List Nat}
    {pool : List (Neighbor Distance)} (distinct : (pool.map Neighbor.id).Nodup)
    (fresh : pool = [] → prunedList = []) :
    FillsUp range (pool.map Neighbor.id)
      (pruneNeighborsPqInto (.exact range maxc alpha maxFactor top) distance prunedList pool) := by
  cases pool with
  | nil =>
    rw [fresh rfl]
    exact ⟨fun _ member => member, .nil, (min_zero range).symm⟩
  | cons first rest =>
    have part : PartOf (PruneParams.exact range maxc alpha maxFactor top).range (first :: rest)
        (occludeListPq (.exact range maxc alpha maxFactor top) distance (first :: rest)) :=
      partOf_occludeListPq _
    show FillsUp range _ (pruneNeighborsPq _ distance (first :: rest))
    have isAbove : (PruneParams.exact range maxc alpha maxFactor top).alphaAboveOne = true :=
      decide_eq_true above
    unfold pruneNeighborsPq
    dsimp only
    rw [if_pos isAbove]
    exact fillsUp_fillUp distinct part.pruned (part.nodup distinct)

theorem pruneNeighbors_fillsUp {range maxc : Nat} {alpha maxFactor : Distance} {top : Nat}
    (above : 1 < alpha) (distance : Nat → Nat → Distance) (medoid : Nat) {prunedList : List Nat}
    {pool : List (Neighbor Distance)} (distinct : (pool.map Neighbor.id).Nodup)
    (fresh : pool = [] → prunedList = []) :
    FillsUp range (pool.map Neighbor.id)
      (pruneNeighbors (.exact range maxc alpha maxFactor top) distance medoid prunedList pool) := by
  by_cases empty : pool = []
  · subst empty
    rw [fresh rfl]
    exact ⟨fun _ member => member, .nil, (min_zero range).symm⟩
  · have ids := (perm_sortPool pool).map Neighbor.id
    have distinctSorted : ((sortPool pool).map Neighbor.id).Nodup := ids.nodup_iff.mpr distinct
    have part : PartOf (PruneParams.exact range maxc alpha maxFactor top).range (sortPool pool)
        (occludeList (.exact range maxc alpha maxFactor top) distance (sortPool pool)) :=
      partOf_occludeListPq _
    have dropped := dropMedoid_sublist medoid
      (occludeList (.exact range maxc alpha maxFactor top) distance (sortPool pool))
    have filled := fillsUp_fillUp distinctSorted
      (pruned_dropMedoid (.exact range maxc alpha maxFactor top) distance medoid (sortPool pool))
      ((part.nodup distinctSorted).sublist dropped)
    have isAbove : (PruneParams.exact range maxc alpha maxFactor top).alphaAboveOne = true :=
      decide_eq_true above
    unfold pruneNeighbors
    dsimp only
    rw [if_neg (fun isEmpty => empty (List.isEmpty_iff.mp isEmpty)), if_pos isAbove]
    exact ⟨fun id member => ids.mem_iff.mp (filled.subset id member), filled.nodup,
      filled.length.trans (by rw [ids.length_eq]; rfl)⟩

/-! #### Both together -/

/-- Pruning does what it is specified to do, with either kind of distance. -/
theorem pruning_meets_alphaRng [IsStrictOrderedRing Distance] {range maxc : Nat}
    {alpha maxFactor : Distance} {top : Nat} (someRange : 1 ≤ range)
    (largest : LargestPower alpha top) {distance : Nat → Nat → Distance}
    {pool : List (Neighbor Distance)}
    (sorted : pool.Pairwise fun first second => ¬ second.Less first)
    (distinct : (pool.map Neighbor.id).Nodup)
    (symmetric : ∀ first ∈ pool, ∀ second ∈ pool,
      distance first.id second.id = distance second.id first.id)
    (positive : ∀ first ∈ pool, ∀ second ∈ pool, first.id ≠ second.id →
      0 < distance first.id second.id) :
    AlphaRng range alpha ((6 / 5) ^ top) distance (pool.take maxc)
        (occludeChoices (.exact range maxc alpha maxFactor top)
          (fun taken other => distance other taken) pool)
        (occludeList (.exact range maxc alpha maxFactor top) distance pool) ∧
      AlphaRng range alpha ((6 / 5) ^ top) distance (pool.take maxc)
        (occludeChoices (.exact range maxc alpha maxFactor top) distance pool)
        (occludeListPq (.exact range maxc alpha maxFactor top) distance pool) ∧
      (1 < alpha → ∀ (medoid : Nat) (prunedList : List Nat), (pool = [] → prunedList = []) →
        FillsUp range (pool.map Neighbor.id) (pruneNeighbors
            (.exact range maxc alpha maxFactor top) distance medoid prunedList pool) ∧
          FillsUp range (pool.map Neighbor.id) (pruneNeighborsPqInto
            (.exact range maxc alpha maxFactor top) distance prunedList pool)) := by
  have less := pairwise_less sorted distinct
  refine ⟨?_, occludeListPq_alphaRng someRange largest less distinct positive,
    fun above medoid prunedList fresh => ⟨pruneNeighbors_fillsUp above distance medoid distinct fresh,
      pruneNeighborsPqInto_fillsUp above distance distinct fresh⟩⟩
  have flipped : AlphaRng range alpha ((6 / 5) ^ top) (fun taken other => distance other taken)
      (pool.take maxc) (occludeChoices (.exact range maxc alpha maxFactor top)
        (fun taken other => distance other taken) pool)
      (occludeList (.exact range maxc alpha maxFactor top) distance pool) :=
    occludeListPq_alphaRng someRange largest less distinct fun first isFirst second isSecond apart =>
      positive second isSecond first isFirst (Ne.symm apart)
  exact flipped.congr fun first isFirst second isSecond =>
    symmetric second (List.mem_of_mem_take isSecond) first (List.mem_of_mem_take isFirst)

/-- Two candidates with a distance of 1 from each other. -/
theorem pruning_meets_alphaRng_two :
    AlphaRng 2 (6 / 5 : ℚ) ((6 / 5) ^ 1) (fun _ _ => 1) (List.take 8 [⟨3, 1⟩, ⟨5, 2⟩])
        (occludeChoices (.exact 2 8 (6 / 5) 1000 1) (fun _ _ => 1) [⟨3, 1⟩, ⟨5, 2⟩])
        (occludeList (.exact 2 8 (6 / 5) 1000 1) (fun _ _ => 1) [⟨3, 1⟩, ⟨5, 2⟩]) ∧
      FillsUp 2 [3, 5] (pruneNeighbors (.exact 2 8 (6 / 5 : ℚ) 1000 1) (fun _ _ => 1) 3 []
        [⟨3, 1⟩, ⟨5, 2⟩]) := by
  have largest : LargestPower (6 / 5 : ℚ) 1 := ⟨by norm_num, by norm_num⟩
  have sorted : [(⟨3, 1⟩ : Neighbor ℚ), ⟨5, 2⟩].Pairwise fun first second => ¬ second.Less first := by
    decide
  have distinct : ([(⟨3, 1⟩ : Neighbor ℚ), ⟨5, 2⟩].map Neighbor.id).Nodup := by decide
  have meets := @pruning_meets_alphaRng ℚ _ _ _ 2 8 (6 / 5) 1000 1 (by decide) largest
    (fun _ _ => 1) _ sorted distinct (fun _ _ _ _ => rfl) (fun _ _ _ _ _ => one_pos)
  exact ⟨meets.1, (meets.2.2 (by norm_num) 3 [] fun _ => rfl).1⟩

end Specification

end OdinVector
