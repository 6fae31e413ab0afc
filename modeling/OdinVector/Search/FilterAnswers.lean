/-
This file proves what `filter_beam_search` answers with. The heap of the results keeps
the nearest of all the nodes pushed to it, so the answer is right when no node is pushed
twice and only nodes with candidate tags are. The first phase can break both: it takes
tags as ids, and the search expands its nodes again.
-/

import OdinVector.Search.Frontier
import Mathlib.Data.List.GetD
import Mathlib.Tactic.Ring

namespace OdinVector

variable {Distance : Type} [LinearOrder Distance]

namespace FilterQuery

variable (query : FilterQuery Distance)

/-! ### The search -/

/-- What a call has to look like. -/
structure WellCalled : Prop where
  kSearch : 0 < query.kSearch
  lSearch : 0 < query.lSearch
  beamWidth : 0 < query.beamWidth
  entryNodup : query.entryIds.Nodup
  entryNodes : ∀ id ∈ query.entryIds, id ∈ query.graph.nodes

variable {query}

theorem mem_foldl_collect (ids : List Nat) {visited : Finset Nat}
    {heap : List (Neighbor Distance)} (all : ∀ id ∈ ids, id ∈ visited)
    (inside : ∀ neighbor ∈ heap, query.IsCandidate neighbor.id ∧ neighbor.id ∈ visited) :
    ∀ neighbor ∈ ids.foldl query.collect heap,
      query.IsCandidate neighbor.id ∧ neighbor.id ∈ visited := by
  induction ids generalizing heap with
  | nil => exact inside
  | cons id rest inductionHypothesis =>
    have next : ∀ neighbor ∈ query.collect heap id, query.IsCandidate neighbor.id ∧
        neighbor.id ∈ insert id visited := collect_spec inside
    rw [Finset.insert_eq_of_mem (all id List.mem_cons_self)] at next
    exact inductionHypothesis (fun other member => all other (List.mem_cons_of_mem _ member)) next

theorem WellCalled.searching (called : query.WellCalled) : query.Searching [] query.start := by
  let sorted := (query.entryIds.map query.entry).insertionSort
    fun first second => ¬ second.toNeighbor.Less first.toNeighbor
  have perm : sorted.Perm (query.entryIds.map query.entry) := List.perm_insertionSort _ _
  have length : sorted.length = query.entryIds.length := by
    rw [perm.length_eq, List.length_map]
  have entries : query.start.entries = sorted := by
    show (List.range query.entryIds.length).map query.start.retset = sorted
    apply List.ext_getElem
    · rw [List.length_map, List.length_range, length]
    · intro i first second
      rw [List.getElem_map, List.getElem_range]
      exact List.getD_eq_getElem _ _ second
  have ids : (query.start.entries.map fun entry => entry.id).Perm query.entryIds := by
    rw [entries]
    refine (perm.map _).trans ?_
    rw [List.map_map]
    exact List.Perm.of_eq (List.map_id _)
  have seen : ∀ entry ∈ query.start.entries, entry.id ∈ query.entryIds := fun entry member =>
    ids.subset (List.mem_map.mpr ⟨entry, member, rfl⟩)
  refine ⟨?_, fun id member => called.entryNodes id (List.mem_toFinset.mp member),
    fun entry member => List.mem_toFinset.mpr (seen entry member),
    ids.nodup_iff.mpr called.entryNodup, fun _ _ _ => List.not_mem_nil, List.nodup_nil, nofun,
    List.nodup_nil, nofun, nofun, nofun, ?_⟩
  · show 0 < query.entryIds.length
    have lSearch := called.lSearch
    unfold entryIds
    split
    · exact Nat.one_pos
    · rename_i some
      rw [List.length_take]
      have length := List.length_pos_iff.mpr some
      omega
  · exact mem_foldl_collect _ (fun id member => List.mem_toFinset.mpr member) nofun

/-- The search ends. -/
theorem WellCalled.traverse (called : query.WellCalled) :
    ∃ traversal, query.traverse = some traversal ∧ query.Searching [] traversal := by
  refine called.searching.loop ?_
  unfold left rounds
  have product : (query.graph.nodes.card - query.start.visited.card) *
      (query.graph.nodes.card + 1) ≤ query.graph.nodes.card * (query.graph.nodes.card + 1) :=
    Nat.mul_le_mul_right _ (Nat.sub_le _ _)
  have split : (query.graph.nodes.card + 1) *
      (query.graph.nodes.card + query.entryIds.length + 2) =
      query.graph.nodes.card * (query.graph.nodes.card + 1) + (query.graph.nodes.card + 1) +
        (query.graph.nodes.card + 1) * (query.entryIds.length + 1) := by ring
  rw [split]
  omega

/-! ### The results -/

omit [LinearOrder Distance] in
theorem mem_refineIds_foldl (exactComputed : List Nat) (heap : List (Neighbor Distance))
    (refine : List Nat) (nodup : refine.Nodup) (new : ∀ id ∈ refine, id ∉ exactComputed) :
    let after := heap.foldl (fun refine neighbor =>
      if neighbor.id ∈ exactComputed ∨ neighbor.id ∈ refine then refine
      else refine ++ [neighbor.id]) refine
    after.Nodup ∧ (∀ id ∈ after, id ∉ exactComputed) ∧
      ∀ id ∈ after, id ∈ refine ∨ ∃ neighbor ∈ heap, neighbor.id = id := by
  induction heap generalizing refine with
  | nil => exact ⟨nodup, new, fun id => Or.inl⟩
  | cons neighbor rest inductionHypothesis =>
    dsimp only at inductionHypothesis ⊢
    rw [List.foldl_cons]
    split
    · obtain ⟨nodup, new, origin⟩ := inductionHypothesis refine nodup new
      refine ⟨nodup, new, fun id member => (origin id member).imp_right ?_⟩
      exact fun ⟨other, there, same⟩ => ⟨other, List.mem_cons_of_mem _ there, same⟩
    · rename_i unknown
      rw [not_or] at unknown
      have more : (refine ++ [neighbor.id]).Nodup := nodup_snoc nodup unknown.2
      obtain ⟨nodup, new, origin⟩ := inductionHypothesis (refine ++ [neighbor.id]) more (by
        intro id member
        obtain before | last := List.mem_append.mp member
        · exact new id before
        · rw [List.mem_singleton.mp last]
          exact unknown.1)
      refine ⟨nodup, new, fun id member => ?_⟩
      obtain before | ⟨other, there, same⟩ := origin id member
      · obtain old | last := List.mem_append.mp before
        · exact Or.inl old
        · exact Or.inr ⟨neighbor, List.mem_cons_self, (List.mem_singleton.mp last).symm⟩
      · exact Or.inr ⟨other, List.mem_cons_of_mem _ there, same⟩

/-- A node with its exact distance. -/
def exactNeighbor (query : FilterQuery Distance) (id : Nat) : Neighbor Distance :=
  ⟨id, query.exactDist id⟩

/-- Distances computed from copied vectors, or where the copy makes no difference, are exact. -/
theorem pushExact_eq {count : Nat} {ids : List Nat}
    (exact : count + ids.length ≤ maxNCmps ∨ ∀ id ∈ ids, query.rawDist id = query.exactDist id)
    (heap : List (Neighbor Distance)) :
    query.pushExact count heap ids = BoundedHeap.pushAll Neighbor.distance Neighbor.AtMost
      query.kSearch heap (ids.map query.exactNeighbor) := by
  induction ids generalizing count heap with
  | nil => rfl
  | cons id rest inductionHypothesis =>
    have first : query.computed count id = query.exactNeighbor id := by
      unfold computed exactNeighbor
      obtain copied | same := exact
      · rw [List.length_cons] at copied
        rw [if_pos (by omega)]
      · rw [same id List.mem_cons_self, ite_self]
    have others := @inductionHypothesis (count + 1)
      (exact.imp (fun copied => by rw [List.length_cons] at copied; omega)
        fun same other member => same other (List.mem_cons_of_mem _ member))
      (pushToHeap heap (query.computed count id) query.kSearch)
    rw [first] at others
    unfold pushExact at others ⊢
    rw [List.zipIdx_cons, List.foldl_cons, first, others]
    rfl

/-- The results of a run. -/
def results (query : FilterQuery Distance) (run : FilterRun Distance) : List (Nat × Distance) :=
  (run.exactResultHeap.take query.kSearch).map fun neighbor =>
    (query.id2tag neighbor.id, neighbor.distance)

/-- What the search promises: `kSearch` results with different candidate tags, the nearest of
the candidates whose distances it has computed, in the order of these distances. -/
structure Answers (query : FilterQuery Distance) (run : FilterRun Distance)
    (results : List (Nat × Distance)) : Prop where
  count : results.length = query.kSearch
  distinct : (results.map Prod.fst).Nodup
  candidates : ∀ result ∈ results, result.1 ∈ query.candidates.tags
  sorted : results.Pairwise fun first second => first.2 ≤ second.2
  exact : ∀ result ∈ results, ∃ id ∈ run.exactComputed, id ∈ query.graph.nodes ∧
    query.id2tag id = result.1 ∧ query.exactDist id = result.2
  nearest : ∀ id ∈ run.exactComputed, query.IsCandidate id →
    query.id2tag id ∈ results.map Prod.fst ∨ ∀ result ∈ results, result.2 ≤ query.exactDist id

/-- The nodes of the first phase have candidate tags, the search expands none of them, and
the vectors that are expanded fit the scratch buffer; the distance to a vector that does not
is the same where its record lies. -/
structure PrefillApart (query : FilterQuery Distance) : Prop where
  nodes : ∀ id ∈ query.prefillIds, id ∈ query.graph.nodes ∧ query.IsCandidate id
  apart : ∀ traversal ∈ query.traverse, ∀ id ∈ traversal.expanded, id ∉ query.prefillIds
  fits : ∀ traversal ∈ query.traverse,
    min query.prefillIds.length maxNCmps + traversal.expanded.length ≤ maxNCmps
  raw : (∀ id ∈ query.graph.nodes, query.rawDist id = query.exactDist id) ∨
    ∀ traversal ∈ query.traverse, query.prefillIds.length + traversal.expanded.length +
      (refineIds (query.prefillIds ++ traversal.expanded)
        traversal.pqCandidateHeap).length ≤ maxNCmps

/-- The candidates that are tags of nodes. -/
def existing (query : FilterQuery Distance) : List Nat :=
  query.candidates.tags.filter fun tag => tag ∈ query.graph.nodes.image query.id2tag

/-- The heap of the results has the nearest of nodes that are pushed once. -/
theorem answers_of_keepsLeast {run : FilterRun Distance} {pushed : List Nat}
    (keeps : BoundedHeap.KeepsLeast Neighbor.distance Neighbor.AtMost query.kSearch
      (pushed.map query.exactNeighbor) run.exactResultHeap)
    (enough : query.kSearch ≤ pushed.length) (once : pushed.Nodup)
    (pushedIff : ∀ id, id ∈ pushed ↔ id ∈ run.exactComputed ∧ query.IsCandidate id)
    (nodes : ∀ id ∈ pushed, id ∈ query.graph.nodes) :
    query.Answers run (query.results run) := by
  have length : run.exactResultHeap.length = query.kSearch := by
    rw [keeps.length, List.length_map]
    exact Nat.min_eq_left enough
  have all : query.results run = run.exactResultHeap.map fun neighbor =>
      (query.id2tag neighbor.id, neighbor.distance) := by
    unfold results
    rw [List.take_of_length_le length.le]
  obtain ⟨dropped, perm, least⟩ := keeps.split
  have origin : ∀ neighbor ∈ run.exactResultHeap, ∃ id ∈ pushed,
      query.exactNeighbor id = neighbor := fun neighbor member =>
    List.mem_map.mp (perm.subset (List.mem_append_left _ member))
  have ids : (run.exactResultHeap.map Neighbor.id).Nodup := by
    have pushedIds : ((pushed.map query.exactNeighbor).map Neighbor.id).Nodup := by
      rw [List.map_map]
      exact (List.map_id pushed).symm ▸ once
    have both := (perm.map Neighbor.id).nodup_iff.mpr pushedIds
    rw [List.map_append] at both
    exact (List.nodup_append.mp both).1
  rw [all]
  refine ⟨by rw [List.length_map, length], ?_, fun result member => ?_, ?_,
    fun result member => ?_, fun id computed candidate => ?_⟩
  · rw [List.map_map]
    have tags : run.exactResultHeap.map (Prod.fst ∘ fun neighbor =>
        (query.id2tag neighbor.id, neighbor.distance)) =
        (run.exactResultHeap.map Neighbor.id).map query.id2tag := by
      rw [List.map_map]
      rfl
    rw [tags]
    refine ids.map_on fun first firstIn second secondIn same => ?_
    obtain ⟨neighbor, there, rfl⟩ := List.mem_map.mp firstIn
    obtain ⟨other, thereToo, rfl⟩ := List.mem_map.mp secondIn
    obtain ⟨id, idIn, rfl⟩ := origin neighbor there
    obtain ⟨id', idIn', rfl⟩ := origin other thereToo
    exact query.injective (nodes id idIn) (nodes id' idIn') same
  · obtain ⟨neighbor, there, rfl⟩ := List.mem_map.mp member
    obtain ⟨id, idIn, rfl⟩ := origin neighbor there
    exact ((pushedIff id).mp idIn).2
  · rw [List.pairwise_map]
    exact keeps.sorted.imp Neighbor.AtMost.distance_le
  · obtain ⟨neighbor, there, rfl⟩ := List.mem_map.mp member
    obtain ⟨id, idIn, rfl⟩ := origin neighbor there
    exact ⟨id, ((pushedIff id).mp idIn).1, nodes id idIn, rfl, rfl⟩
  · have member := (perm.symm.subset
      (List.mem_map.mpr ⟨id, (pushedIff id).mpr ⟨computed, candidate⟩, rfl⟩))
    obtain kept | gone := List.mem_append.mp member
    · left
      exact List.mem_map.mpr ⟨_, List.mem_map.mpr ⟨_, kept, rfl⟩, rfl⟩
    · right
      intro result resultIn
      obtain ⟨neighbor, there, rfl⟩ := List.mem_map.mp resultIn
      exact least neighbor there _ gone

/-- Two candidates are wanted of three nodes, and the search expands the third node only. -/
def threeNodes : FilterQuery Nat where
  graph :=
    { nodes := {0, 1, 2}
      nbrs := fun id => if id = 0 then [1] else []
      curId := 2
      closed := by decide
      bounded := by decide }
  id2tag := id
  injective := Set.injOn_id _
  pqDist := id
  exactDist := id
  rawDist := id
  candidates := ⟨[1, 2], by decide⟩
  kSearch := 2
  lSearch := 1
  beamWidth := 1
  medoid := 0
  memTags := []
  dynSearchL := false
  excludeNodes := []
  timeOver _ := false

/-- Two nodes are wanted, and the search expands one that is read in the first phase. -/
def readTwice : FilterQuery Nat :=
  { threeNodes with candidates := ⟨[0, 1], by decide⟩ }

end FilterQuery

end OdinVector
