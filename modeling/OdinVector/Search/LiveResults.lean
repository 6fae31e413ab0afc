/-
This file models the end of a search: `beam_search` answers with the first `l_search`
nodes that were expanded, and `DynamicSSDIndex::search` writes those of them that are
not deleted until it has enough. The nodes that were cut off are not looked at again, so
deleted nodes in front take the places of live ones.

The arrays of the results are taken as large enough.
-/

import Mathlib.Algebra.Group.Nat.Defs
import OdinVector.Search.BeamReturns

namespace OdinVector

variable {Distance : Type}

namespace BeamQuery

variable (query : BeamQuery Distance)

/-- The tag and the distance of an expanded node. -/
def result (neighbor : Neighbor Distance) : Nat × Distance :=
  (query.id2tag neighbor.id, neighbor.distance)

/-- `beam_search`, which calls `do_beam_search` with the low 32 bits of `l_search`. -/
def beamSearch [LinearOrder Distance] (fuel kSearch lSearch : Nat) : Option (List (Nat × Distance)) :=
  (({ query with lSearch := lSearch % 2 ^ 32 } : BeamQuery Distance).doBeamSearch fuel).map fun last =>
    (last.fullRetset.take (min lSearch kSearch)).map query.result

/-- The loop that writes `tags` and `distances`; it looks for `pos == K` after each result. -/
def writeLive (K : Nat) : List (Nat × Distance) → List (Nat × Distance) → List (Nat × Distance)
  | [], written => written
  | iter :: rest, written =>
    let written := if iter.1 ∉ query.excludeNodes then written ++ [iter] else written
    if written.length = K then written else writeLive K rest written

/-- `DynamicSSDIndex::search` in the mode of `beam_search`: what it writes. The deletion set is
the one that the search excludes. -/
def dynamicSearch [LinearOrder Distance] (fuel K searchL : Nat) : Option (List (Nat × Distance)) :=
  (query.beamSearch fuel searchL searchL).map fun best => query.writeLive K best []

/-- A node is not deleted. -/
def Live (neighbor : Neighbor Distance) : Prop :=
  query.id2tag neighbor.id ∉ query.excludeNodes

instance : DecidablePred query.Live := fun _ => inferInstanceAs (Decidable (_ ∉ _))

/-- The nodes among some that are not deleted. -/
def live (nodes : List (Neighbor Distance)) : List (Neighbor Distance) :=
  nodes.filter query.Live

/-- What is written are the `K` nearest of some live nodes, in ascending order. -/
def Nearests [LE Distance] (K : Nat) (nodes : List (Neighbor Distance)) (written : List (Nat × Distance)) :
    Prop :=
  (∀ entry ∈ written, entry.1 ∉ query.excludeNodes) ∧
    ∃ chosen others : List (Neighbor Distance), (chosen ++ others).Perm nodes ∧ chosen.length = K ∧
      written = chosen.map query.result ∧
        (chosen.Pairwise fun first second => first.distance ≤ second.distance) ∧
          ∀ near ∈ chosen, ∀ far ∈ others, near.distance ≤ far.distance

/-- The deleted nodes that are nearer than the `K`-th live one. -/
def deletedBefore [LinearOrder Distance] (K : Nat) (nodes : List (Neighbor Distance)) :
    List (Neighbor Distance) :=
  match (query.live nodes)[K - 1]? with
  | none => []
  | some last => nodes.filter fun node => ¬ query.Live node ∧ node.Less last

/-- The deleted nodes in front leave room for `K` live ones, and where none is wanted the
first node is deleted. -/
def LeavesRoom [LinearOrder Distance] (K searchL : Nat) (nodes : List (Neighbor Distance)) :
    Prop :=
  if K = 0 then ∀ first ∈ (nodes.take searchL).head?, ¬ query.Live first
  else (query.deletedBefore K nodes).length + K ≤ searchL

variable {query}

theorem live_append (front back : List (Neighbor Distance)) :
    query.live (front ++ back) = query.live front ++ query.live back :=
  List.filter_append _ _

theorem live_cons {node : Neighbor Distance} (isLive : query.Live node)
    (rest : List (Neighbor Distance)) : query.live (node :: rest) = node :: query.live rest :=
  List.filter_cons_of_pos (decide_eq_true isLive)

theorem live_cons_of_not {node : Neighbor Distance} (deleted : ¬ query.Live node)
    (rest : List (Neighbor Distance)) : query.live (node :: rest) = query.live rest :=
  List.filter_cons_of_neg (by rwa [decide_eq_true_eq])

/-! ### Writing the live results -/

theorem writeLive_eq (K : Nat) (nodes : List (Neighbor Distance)) (before : List (Neighbor Distance))
    (fewer : before.length < K) :
    query.writeLive K (nodes.map query.result) (before.map query.result) =
      ((before ++ query.live nodes).take K).map query.result := by
  induction nodes generalizing before with
  | nil =>
    show before.map query.result = ((before ++ []).take K).map query.result
    rw [List.append_nil, List.take_of_length_le fewer.le]
  | cons node rest inductionHypothesis =>
    rw [List.map_cons]
    unfold writeLive
    by_cases isLive : query.Live node
    · have kept : (query.result node).1 ∉ query.excludeNodes := isLive
      rw [if_pos kept, live_cons isLive]
      have longer : before.map query.result ++ [query.result node] =
          (before ++ [node]).map query.result := by
        rw [List.map_append]
        rfl
      have length : (before ++ [node]).length = before.length + 1 := List.length_append
      have moved : before ++ node :: query.live rest = before ++ [node] ++ query.live rest := by
        rw [List.append_assoc]
        rfl
      dsimp only
      rw [longer, List.length_map, length]
      rw [moved]
      split
      · rename_i full
        rw [List.take_append_of_le_length (by omega), List.take_of_length_le (by omega)]
      · exact inductionHypothesis (before ++ [node]) (by omega)
    · have dropped : ¬ (query.result node).1 ∉ query.excludeNodes := isLive
      rw [if_neg dropped, live_cons_of_not isLive]
      dsimp only
      rw [List.length_map, if_neg (by omega)]
      exact inductionHypothesis before fewer

/-- With `K` results wanted, the first `K` live ones are written. -/
theorem writeLive_nil {K : Nat} (wanted : 0 < K) (nodes : List (Neighbor Distance)) :
    query.writeLive K (nodes.map query.result) [] =
      ((query.live nodes).take K).map query.result :=
  writeLive_eq K nodes [] wanted

theorem length_le_writeLive (query : BeamQuery Distance) (K : Nat) (best written : List (Nat × Distance)) :
    written.length ≤ (query.writeLive K best written).length := by
  induction best generalizing written with
  | nil => exact le_rfl
  | cons iter rest inductionHypothesis =>
    unfold writeLive
    generalize next : (if iter.1 ∉ query.excludeNodes then written ++ [iter] else written) = longer
    have more : written.length ≤ longer.length := by
      rw [← next]
      split
      · rw [List.length_append]
        exact Nat.le_add_right _ _
      · exact le_rfl
    dsimp only
    split
    · exact more
    · exact more.trans (inductionHypothesis longer)

/-- With no result wanted, nothing is written exactly when the first node is deleted. -/
theorem writeLive_zero (nodes : List (Neighbor Distance)) :
    (query.writeLive 0 (nodes.map query.result) []).length = 0 ↔
      ∀ first ∈ nodes.head?, ¬ query.Live first := by
  cases nodes with
  | nil => exact iff_of_true rfl nofun
  | cons node rest =>
    have head : (∀ first ∈ (node :: rest).head?, ¬ query.Live first) ↔ ¬ query.Live node :=
      ⟨fun all => all node rfl, fun deleted first same => Option.some.inj same ▸ deleted⟩
    rw [head, List.map_cons]
    unfold writeLive
    by_cases isLive : query.Live node
    · have kept : (query.result node).1 ∉ query.excludeNodes := isLive
      have more := query.length_le_writeLive 0 (rest.map query.result)
        ([] ++ [query.result node])
      have started : ([] ++ [query.result node]).length ≠ 0 := Nat.succ_ne_zero 0
      rw [if_pos kept]
      dsimp only
      rw [if_neg started]
      refine iff_of_false (fun none => ?_) (not_not_intro isLive)
      rw [none] at more
      exact Nat.not_succ_le_zero 0 more
    · have dropped : ¬ (query.result node).1 ∉ query.excludeNodes := isLive
      rw [if_neg dropped]
      dsimp only
      rw [if_pos List.length_nil]
      exact iff_of_true rfl isLive

/-! ### The live nodes in front -/

/-- The place of the `K`-th live node. -/
theorem exists_live_split {K : Nat} {nodes : List (Neighbor Distance)}
    (enough : K < (query.live nodes).length) :
    ∃ front last back, nodes = front ++ last :: back ∧ query.Live last ∧
      (query.live front).length = K := by
  induction nodes generalizing K with
  | nil => exact absurd enough (Nat.not_lt_zero K)
  | cons node rest inductionHypothesis =>
    by_cases isLive : query.Live node
    · rw [live_cons isLive, List.length_cons] at enough
      cases K with
      | zero => exact ⟨[], node, rest, rfl, isLive, rfl⟩
      | succ K =>
        obtain ⟨front, last, back, rfl, lastLive, count⟩ :=
          inductionHypothesis (Nat.lt_of_succ_lt_succ enough)
        refine ⟨node :: front, last, back, rfl, lastLive, ?_⟩
        rw [live_cons isLive, List.length_cons, count]
    · rw [live_cons_of_not isLive] at enough
      obtain ⟨front, last, back, rfl, lastLive, count⟩ := inductionHypothesis enough
      refine ⟨node :: front, last, back, rfl, lastLive, ?_⟩
      rw [live_cons_of_not isLive, count]

theorem length_filter_not_live (query : BeamQuery Distance) (nodes : List (Neighbor Distance)) :
    (query.live nodes).length + (nodes.filter fun node => ¬ query.Live node).length =
      nodes.length := by
  have halves : nodes.length = _ + _ :=
    List.length_eq_length_filter_add fun node => decide (query.Live node)
  rw [halves]
  refine congrArg₂ (· + ·) rfl (congrArg List.length (List.filter_congr fun node _ => ?_))
  rw [decide_not]

theorem live_take_isPrefix (query : BeamQuery Distance) (nodes : List (Neighbor Distance)) (searchL : Nat) :
    query.live (nodes.take searchL) <+: query.live nodes := by
  have split : query.live nodes = query.live (nodes.take searchL) ++
      query.live (nodes.drop searchL) := by
    rw [← live_append, List.take_append_drop]
  exact ⟨_, split.symm⟩

variable [LinearOrder Distance]

/-- The deleted nodes before the `K`-th live one are those in front of it. -/
theorem deletedBefore_split {K : Nat} {front back : List (Neighbor Distance)}
    {last : Neighbor Distance} (sorted : (front ++ last :: back).Pairwise Neighbor.AtMost)
    (isLive : query.Live last) (count : (query.live front).length = K) :
    query.deletedBefore (K + 1) (front ++ last :: back) =
      front.filter fun node => ¬ query.Live node := by
  have there : (query.live (front ++ last :: back))[K + 1 - 1]? = some last := by
    rw [live_append, live_cons isLive, Nat.add_sub_cancel, ← count,
      List.getElem?_append_right le_rfl, Nat.sub_self]
    rfl
  obtain ⟨-, behind, between⟩ := List.pairwise_append.mp sorted
  have far := (List.pairwise_cons.mp behind).1
  unfold deletedBefore
  rw [there]
  dsimp only
  rw [List.filter_append]
  have inFront : front.filter (fun node => decide (¬ query.Live node ∧ node.Less last)) =
      front.filter fun node => ¬ query.Live node := by
    refine List.filter_congr fun node member => decide_eq_decide.mpr ?_
    refine and_iff_left_of_imp fun deleted => ?_
    obtain less | ⟨equal, id⟩ := Neighbor.atMost_iff.mp (between node member last List.mem_cons_self)
    · exact Or.inl less
    · obtain lower | sameId := id.lt_or_eq
      · exact Or.inr ⟨equal, lower⟩
      · refine absurd ?_ deleted
        unfold Live
        rw [sameId]
        exact isLive
  have inBack : (last :: back).filter (fun node =>
      decide (¬ query.Live node ∧ node.Less last)) = [] := by
    refine List.filter_eq_nil_iff.mpr fun node member both => ?_
    obtain ⟨deleted, nearer⟩ := of_decide_eq_true both
    obtain rfl | inRest := List.mem_cons.mp member
    · exact deleted isLive
    · exact far node inRest nearer
  rw [inFront, inBack, List.append_nil]

/-- There are `K` live nodes among the first ones exactly when the deleted ones in front leave
room for them. -/
theorem le_live_take_iff {K searchL : Nat} (wanted : 0 < K) {nodes : List (Neighbor Distance)}
    (sorted : nodes.Pairwise Neighbor.AtMost) (enough : K ≤ (query.live nodes).length) :
    K ≤ (query.live (nodes.take searchL)).length ↔
      (query.deletedBefore K nodes).length + K ≤ searchL := by
  obtain ⟨K, rfl⟩ : ∃ less, K = less + 1 := ⟨K - 1, by omega⟩
  obtain ⟨front, last, back, rfl, isLive, count⟩ := exists_live_split (Nat.lt_of_succ_le enough)
  rw [deletedBefore_split sorted isLive count]
  have length := query.length_filter_not_live front
  obtain short | long := Nat.lt_or_ge front.length searchL
  · have first : front ++ [last] <+: (front ++ last :: back).take searchL := by
      refine List.prefix_take_iff.mpr ⟨⟨back, ?_⟩, ?_⟩
      · rw [List.append_assoc]
        rfl
      · rw [List.length_append]
        exact short
    have more := (first.sublist.filter fun node => decide (query.Live node)).length_le
    have counted : (query.live (front ++ [last])).length = K + 1 := by
      rw [live_append, live_cons isLive, List.length_append, count]
      rfl
    refine iff_of_true (counted.ge.trans more) (by omega)
  · have few : (front ++ last :: back).take searchL = front.take searchL :=
      List.take_append_of_le_length long
    have less := ((List.take_sublist searchL front).filter fun node =>
      decide (query.Live node)).length_le
    rw [few]
    refine iff_of_false (fun most => ?_) (by omega)
    have bound : (query.live (front.take searchL)).length ≤ K := less.trans_eq count
    omega

/-! ### The results -/

theorem sorted_doBeamSearch {fuel : Nat} {last : BeamState Distance}
    (searched : query.doBeamSearch fuel = some last) :
    last.fullRetset.Pairwise Neighbor.AtMost := by
  unfold doBeamSearch at searched
  obtain ⟨looped, -, rfl⟩ := Option.map_eq_some_iff.mp searched
  exact List.pairwise_insertionSort Neighbor.AtMost looped.fullRetset

/-- A search that starts from nodes of the graph comes to its end, although its list grows with
the deleted nodes that it sees. -/
theorem dynamicSearch_returns (query : BeamQuery Distance)
    (medoid : query.medoid ∈ query.graph.nodes)
    (tags : ∀ id ∈ query.memTags, id ∈ query.graph.nodes) (K searchL : Nat) :
    ∃ fuel written, query.dynamicSearch fuel K searchL = some written := by
  obtain ⟨fuel, last, searched⟩ :=
    ({ query with lSearch := searchL % 2 ^ 32 } : BeamQuery Distance).doBeamSearch_returns (by
      intro id member
      unfold entryIds at member
      split at member
      · rw [List.mem_singleton.mp member]
        exact medoid
      · exact tags id (List.mem_of_mem_take member))
  exact ⟨fuel, _, congrArg (Option.map _) (congrArg (Option.map _) searched)⟩

/-- The first `K` live nodes are the nearest ones. -/
theorem nearests_take {K : Nat} {nodes : List (Neighbor Distance)}
    (sorted : nodes.Pairwise Neighbor.AtMost) (enough : K ≤ (query.live nodes).length) :
    query.Nearests K (query.live nodes) (((query.live nodes).take K).map query.result) := by
  have ordered : (query.live nodes).Pairwise fun first second => first.distance ≤ second.distance :=
    (sorted.filter _).imp Neighbor.AtMost.distance_le
  have halves : ((query.live nodes).take K ++ (query.live nodes).drop K).Pairwise
      fun first second => first.distance ≤ second.distance := by
    rwa [List.take_append_drop]
  obtain ⟨first, -, between⟩ := List.pairwise_append.mp halves
  refine ⟨fun entry member => ?_, (query.live nodes).take K, (query.live nodes).drop K, ?_, ?_,
    rfl, first, between⟩
  · obtain ⟨node, taken, rfl⟩ := List.mem_map.mp member
    exact of_decide_eq_true (List.mem_filter.mp (List.mem_of_mem_take taken)).2
  · rw [List.take_append_drop]
  · rw [List.length_take, Nat.min_eq_left enough]

theorem Nearests.length {K : Nat} {nodes : List (Neighbor Distance)}
    {written : List (Nat × Distance)} (nearests : query.Nearests K nodes written) :
    written.length = K := by
  obtain ⟨-, chosen, others, -, length, rfl, -⟩ := nearests
  rw [List.length_map, length]

/-- With enough live nodes expanded, the `K` nearest of them are written exactly when the
deleted ones in front leave room for them among the first `search_L`. -/
theorem dynamicSearch_nearests_iff (query : BeamQuery Distance) {fuel K searchL : Nat}
    {last : BeamState Distance}
    (searched : ({ query with lSearch := searchL % 2 ^ 32 } : BeamQuery Distance).doBeamSearch fuel =
      some last)
    (enough : K ≤ (query.live last.fullRetset).length) :
    (∃ written, query.dynamicSearch fuel K searchL = some written ∧
      query.Nearests K (query.live last.fullRetset) written) ↔
      query.LeavesRoom K searchL last.fullRetset := by
  have sorted := sorted_doBeamSearch searched
  have called : query.dynamicSearch fuel K searchL =
      some (query.writeLive K ((last.fullRetset.take searchL).map query.result) []) := by
    unfold dynamicSearch beamSearch
    rw [searched, Option.map_some, Option.map_some, Nat.min_self]
  have written : (∃ written, query.dynamicSearch fuel K searchL = some written ∧
      query.Nearests K (query.live last.fullRetset) written) ↔
        query.Nearests K (query.live last.fullRetset)
          (query.writeLive K ((last.fullRetset.take searchL).map query.result) []) := by
    rw [called]
    simp only [Option.some.injEq, exists_eq_left']
  rw [written]
  unfold LeavesRoom
  by_cases none : K = 0
  · subst none
    rw [if_pos rfl, ← writeLive_zero]
    constructor
    · exact Nearests.length
    · intro empty
      rw [List.eq_nil_of_length_eq_zero empty]
      exact nearests_take sorted (Nat.zero_le _)
  · have wanted : 0 < K := Nat.pos_of_ne_zero none
    rw [if_neg none, ← le_live_take_iff wanted sorted enough, writeLive_nil wanted]
    constructor
    · intro nearests
      have length := nearests.length
      rw [List.length_map, List.length_take] at length
      omega
    · intro room
      have first := List.prefix_iff_eq_take.mp (query.live_take_isPrefix last.fullRetset searchL)
      have same : (query.live (last.fullRetset.take searchL)).take K =
          (query.live last.fullRetset).take K := by
        rw [first, List.take_take, Nat.min_eq_left room]
      rw [same]
      exact nearests_take sorted enough

/-- Two nodes, of which the first one is deleted; it is nearer, but not in PQ distance. -/
def deletedFirst : BeamQuery Nat where
  graph :=
    { nodes := {0, 1}
      nbrs := fun id => if id = 0 then [1] else []
      curId := 1
      closed := by decide
      bounded := by decide }
  id2tag := id
  pqDist id := 1 - id
  exactDist := id
  medoid := 0
  memTags := []
  lSearch := 0
  beamWidth := 1
  dynSearchL := true
  excludeNodes := [0]
  timeOver _ := false

/-- With a list of two, the second node of `deletedFirst` is written. -/
theorem dynamicSearch_nearests_two :
    ∃ last, ({ deletedFirst with lSearch := 2 % 2 ^ 32 } : BeamQuery Nat).doBeamSearch 9 =
      some last ∧ ∃ written, deletedFirst.dynamicSearch 9 1 2 = some written ∧
        deletedFirst.Nearests 1 (deletedFirst.live last.fullRetset) written := by
  obtain ⟨last, searched⟩ : ∃ last, ({ deletedFirst with lSearch := 2 % 2 ^ 32 } :
      BeamQuery Nat).doBeamSearch 9 = some last := Option.isSome_iff_exists.mp (by decide)
  have nodes := congrArg (Option.map fun last => last.fullRetset) searched
  have expanded : last.fullRetset = [⟨0, 0⟩, ⟨1, 1⟩] := (Option.some.inj nodes).symm
  refine ⟨last, searched, (dynamicSearch_nearests_iff deletedFirst searched ?_).mpr ?_⟩
  · rw [expanded]
    decide
  · rw [expanded]
    show (deletedFirst.deletedBefore 1 [⟨0, 0⟩, ⟨1, 1⟩]).length + 1 ≤ 2
    decide

/-- With a list of one, nothing is written, although a live node was expanded. -/
theorem not_dynamicSearch_nearests :
    ¬ ∀ (query : BeamQuery Nat) (fuel K searchL : Nat) (last : BeamState Nat), K ≤ searchL →
      ({ query with lSearch := searchL % 2 ^ 32 } : BeamQuery Nat).doBeamSearch fuel = some last →
      K ≤ (query.live last.fullRetset).length →
      ∃ written, query.dynamicSearch fuel K searchL = some written ∧
        query.Nearests K (query.live last.fullRetset) written := by
  intro writes
  obtain ⟨last, searched⟩ : ∃ last, ({ deletedFirst with lSearch := 1 % 2 ^ 32 } :
      BeamQuery Nat).doBeamSearch 9 = some last := Option.isSome_iff_exists.mp (by decide)
  have nodes := congrArg (Option.map fun last => last.fullRetset) searched
  have expanded : last.fullRetset = [⟨0, 0⟩, ⟨1, 1⟩] := (Option.some.inj nodes).symm
  have enough : 1 ≤ (deletedFirst.live last.fullRetset).length := by
    rw [expanded]
    decide
  obtain ⟨written, called, nearests⟩ := writes deletedFirst 9 1 1 last le_rfl searched enough
  have nothing : deletedFirst.dynamicSearch 9 1 1 = some [] := by decide
  obtain rfl := Option.some.inj (nothing.symm.trans called)
  exact absurd nearests.length (by decide)

end BeamQuery

end OdinVector
