/-
This file models `filter_beam_search`. It reads the vectors of some candidates first,
then searches the graph with PQ distances, reads the vectors of the nodes that it
expands, and in the end those of the candidates that it has seen. One heap collects
the nearest of all of them. The candidates are tags; the first phase takes them as ids.

A node stands for the record that its id is mapped to, and the locks and page
references around the reads are left out. The distance to a vector beyond the scratch
buffer is computed in the sector itself, over the aligned dimension. The search loop
does not read the heap of the results, which is filled after it here, in the order in
which the loop expands the nodes.
-/

import OdinVector.BoundedHeap
import OdinVector.Search.Pool
import Mathlib.Data.Finset.Card
import Mathlib.Data.Finset.Insert
import Mathlib.Data.Set.Function

namespace OdinVector

variable {Distance : Type} [LinearOrder Distance]

/-- `MAX_N_CMPS`. -/
def maxNCmps : Nat := 16384

/-- The graph on the disk, with an id for every node. -/
structure DiskGraph where
  nodes : Finset Nat
  nbrs : Nat → List Nat
  curId : Nat
  closed : ∀ id ∈ nodes, ∀ nbr ∈ nbrs id, nbr ∈ nodes
  bounded : ∀ id ∈ nodes, id ≤ curId

/-- The candidates: a set in the order of its iteration. -/
structure CandidateSet where
  tags : List Nat
  nodup : tags.Nodup

/-- What a search is called with, and the distances to its query. -/
structure FilterQuery (Distance : Type) where
  graph : DiskGraph
  id2tag : Nat → Nat
  injective : Set.InjOn id2tag graph.nodes
  pqDist : Nat → Distance
  exactDist : Nat → Distance
  /-- The distance computed where the record lies. -/
  rawDist : Nat → Distance
  candidates : CandidateSet
  kSearch : Nat
  lSearch : Nat
  beamWidth : Nat
  medoid : Nat
  /-- The `mem_L` nodes that `mem_index_` gives. -/
  memTags : List Nat
  dynSearchL : Bool
  excludeNodes : List Nat
  /-- Whether the time is over after a number of hops. -/
  timeOver : Nat → Bool

/-- `Neighbor::operator<` or equal: the order of a heap. -/
def Neighbor.AtMost (first second : Neighbor Distance) : Prop :=
  ¬ second.Less first

instance (first second : Neighbor Distance) : Decidable (first.AtMost second) :=
  inferInstanceAs (Decidable (¬ _))

theorem Neighbor.atMost_iff {first second : Neighbor Distance} :
    first.AtMost second ↔ first.distance < second.distance ∨
      first.distance = second.distance ∧ first.id ≤ second.id := by
  unfold Neighbor.AtMost Neighbor.Less
  rw [not_or, not_and, not_lt, not_lt]
  constructor
  · rintro ⟨distance, id⟩
    obtain less | same := distance.lt_or_eq
    · exact Or.inl less
    · exact Or.inr ⟨same, id same.symm⟩
  · rintro (less | ⟨same, id⟩)
    · exact ⟨less.le, fun same => absurd same less.ne'⟩
    · exact ⟨same.le, fun _ => id⟩

instance : Std.Total (Neighbor.AtMost : Neighbor Distance → Neighbor Distance → Prop) where
  total first second := by
    rw [Neighbor.atMost_iff, Neighbor.atMost_iff]
    obtain less | same | more := lt_trichotomy first.distance second.distance
    · exact Or.inl (Or.inl less)
    · exact (Nat.le_total first.id second.id).imp (fun id => Or.inr ⟨same, id⟩)
        fun id => Or.inr ⟨same.symm, id⟩
    · exact Or.inr (Or.inl more)

instance : IsTrans (Neighbor Distance) Neighbor.AtMost where
  trans first second third := by
    rw [Neighbor.atMost_iff, Neighbor.atMost_iff, Neighbor.atMost_iff]
    rintro (less | ⟨same, id⟩) (less' | ⟨same', id'⟩)
    · exact Or.inl (less.trans less')
    · exact Or.inl (less.trans_eq same')
    · exact Or.inl (same.trans_lt less')
    · exact Or.inr ⟨same.trans same', id.trans id'⟩

theorem Neighbor.AtMost.distance_le {first second : Neighbor Distance}
    (atMost : first.AtMost second) : first.distance ≤ second.distance := by
  obtain less | ⟨same, -⟩ := Neighbor.atMost_iff.mp atMost
  · exact less.le
  · exact same.le

/-- `push_to_heap`. -/
def pushToHeap (heap : List (Neighbor Distance)) (neighbor : Neighbor Distance)
    (maxSize : Nat) : List (Neighbor Distance) :=
  BoundedHeap.push Neighbor.distance Neighbor.AtMost maxSize heap neighbor

/-- The state of the search loop. -/
structure Traversal (Distance : Type) where
  retset : Nat → PoolEntry Distance
  curListSize : Nat
  visited : Finset Nat
  pqCandidateHeap : List (Neighbor Distance)
  lSearch : Nat
  k : Nat
  hops : Nat
  /-- The nodes that were expanded, in their order. -/
  expanded : List Nat

/-- A node is marked as expanded. -/
def Traversal.mark (traversal : Traversal Distance) (id : Nat) : Traversal Distance :=
  { traversal with expanded := traversal.expanded ++ [id] }

namespace FilterQuery

variable (query : FilterQuery Distance)

/-- Whether the tag of a node is a candidate. -/
def IsCandidate (id : Nat) : Prop := query.id2tag id ∈ query.candidates.tags

instance (id : Nat) : Decidable (query.IsCandidate id) :=
  inferInstanceAs (Decidable (_ ∈ _))

/-- `prefill_ids`: the first candidates. -/
def prefillIds : List Nat :=
  query.candidates.tags.take (min query.candidates.tags.length query.kSearch)

/-- `refine_capacity`. -/
def refineCapacity : Nat := max 3000 (query.kSearch * 1000)

/-- The nodes that the search starts with. -/
def entryIds : List Nat :=
  if query.memTags = [] then [query.medoid] else query.memTags.take query.lSearch

/-- A node into the heap of the nodes to refine, when its tag is a candidate. -/
def collect (heap : List (Neighbor Distance)) (id : Nat) : List (Neighbor Distance) :=
  if query.IsCandidate id then pushToHeap heap ⟨id, query.pqDist id⟩ query.refineCapacity
  else heap

/-- The entry of a node that is not expanded. -/
def entry (id : Nat) : PoolEntry Distance where
  id := id
  distance := query.pqDist id
  flag := true

/-- The state before the loop: the entries in the order of `std::sort`. What is behind them in
`retset` is not read. -/
def start : Traversal Distance where
  retset i :=
    let sorted := (query.entryIds.map query.entry).insertionSort
      fun first second => ¬ second.toNeighbor.Less first.toNeighbor
    sorted.getD i ⟨⟨0, query.pqDist 0⟩, false⟩
  curListSize := query.entryIds.length
  visited := query.entryIds.toFinset
  pqCandidateHeap := query.entryIds.foldl query.collect []
  lSearch := query.lSearch
  k := 0
  hops := 0
  expanded := []

/-- The loop that picks the frontier from `marker` on, with the flags that it clears. -/
def frontierFrom : Nat → Nat → (Nat → PoolEntry Distance) → List Nat →
    (Nat → PoolEntry Distance) × List Nat
  | 0, _, retset, frontier => (retset, frontier)
  | left + 1, marker, retset, frontier =>
    if frontier.length < query.beamWidth then
      if (retset marker).flag then
        frontierFrom left (marker + 1) (Pool.pick retset marker)
          (frontier ++ [(retset marker).id])
      else frontierFrom left (marker + 1) retset frontier
    else (retset, frontier)

/-- A neighbour of an expanded node; `nk` is the least place of a new entry. -/
def visit (search : Traversal Distance × Nat) (nbr : Nat) : Option (Traversal Distance × Nat) :=
  let (traversal, nk) := search
  if query.graph.curId < nbr then none
  else if nbr ∈ traversal.visited then some (traversal, nk)
  else
    let dist := query.pqDist nbr
    let traversal :=
      { traversal with
        visited := insert nbr traversal.visited
        pqCandidateHeap := query.collect traversal.pqCandidateHeap nbr }
    if (traversal.retset (traversal.curListSize - 1)).distance ≤ dist ∧
        traversal.curListSize = traversal.lSearch then some (traversal, nk)
    else
      let (retset, r) := Pool.insertIntoPool traversal.retset traversal.curListSize
        (query.entry nbr)
      some ({ traversal with
        retset := retset
        curListSize := if traversal.curListSize < traversal.lSearch then
          traversal.curListSize + 1 else traversal.curListSize },
        if r < nk then r else nk)

/-- The scan of `dyn_search_l`: how far the list goes until enough of its nodes are wanted. -/
def dynScan (retset : Nat → PoolEntry Distance) (curListSize : Nat) : Nat → Nat → Nat → Nat
  | 0, cur, _ => cur
  | left + 1, cur, tot =>
    if cur < curListSize then
      let tag := query.id2tag (retset cur).id
      if tag ∉ query.excludeNodes ∧ tag ∈ query.candidates.tags then
        if tot + 1 = query.lSearch then cur
        else dynScan retset curListSize left (cur + 1) (tot + 1)
      else dynScan retset curListSize left (cur + 1) tot
    else cur

/-- The expansion of a node of the frontier. -/
def expand (search : Traversal Distance × Nat) (id : Nat) : Option (Traversal Distance × Nat) :=
  if id ∈ query.graph.nodes then
    ((query.graph.nbrs id).foldlM query.visit (search.1.mark id, search.2)).map
        fun (traversal, nk) =>
      if query.dynSearchL then
        let cur := query.dynScan traversal.retset traversal.curListSize traversal.curListSize 0 0
        ({ traversal with lSearch := max query.lSearch (cur + 1) }, nk)
      else (traversal, nk)
  else none

/-- One round of `while (k < cur_list_size)`. -/
def hop (traversal : Traversal Distance) : Option (Traversal Distance) :=
  let (retset, frontier) := query.frontierFrom (traversal.curListSize - traversal.k) traversal.k
    traversal.retset []
  (frontier.foldlM query.expand ({ traversal with retset := retset }, traversal.curListSize)).map
    fun (next, nk) =>
      { next with
        k := if nk ≤ traversal.k then nk else traversal.k + 1
        hops := traversal.hops + 1 }

/-- The loop. -/
def loop : Nat → Traversal Distance → Option (Traversal Distance)
  | 0, _ => none
  | fuel + 1, traversal =>
    if traversal.k < traversal.curListSize then
      (query.hop traversal).bind fun next =>
        if query.timeOver next.hops then some next else loop fuel next
    else some traversal

/-- Rounds that are enough: a node is visited once, and a round that visits none moves `k`. -/
def rounds : Nat :=
  (query.graph.nodes.card + 1) * (query.graph.nodes.card + query.entryIds.length + 2)

/-- The search of the graph. -/
def traverse : Option (Traversal Distance) :=
  query.loop query.rounds query.start

/-- The distance that is computed for a node when `count` are computed before it. -/
def computed (count : Nat) (id : Nat) : Neighbor Distance where
  id := id
  distance := if count < maxNCmps then query.exactDist id else query.rawDist id

/-- `refine_ids`: the nodes to refine whose distance is not computed, the farthest first. -/
def refineIds (exactComputed : List Nat) (heap : List (Neighbor Distance)) : List Nat :=
  heap.reverse.foldl (fun refine neighbor =>
    if neighbor.id ∈ exactComputed ∨ neighbor.id ∈ refine then refine
    else refine ++ [neighbor.id]) []

/-- Distances computed in turn, pushed to the heap of the results. -/
def pushExact (count : Nat) (heap : List (Neighbor Distance)) (ids : List Nat) :
    List (Neighbor Distance) :=
  (ids.zipIdx count).foldl (fun heap entry =>
    pushToHeap heap (query.computed entry.2 entry.1) query.kSearch) heap

/-- What `do_filter_beam_search` has computed in the end. -/
structure FilterRun (Distance : Type) where
  exactComputed : List Nat
  exactResultHeap : List (Neighbor Distance)

/-- `do_filter_beam_search`. The prefill and the refinement read existing nodes in batches of
`beam_width`, and the expansions copy their vectors into the scratch buffer. -/
def doFilterBeamSearch : Option (FilterRun Distance) :=
  let prefill := query.prefillIds
  if (∀ id ∈ prefill, id ∈ query.graph.nodes) ∧ (prefill = [] ∨ 0 < query.beamWidth) then
    query.traverse.bind fun traversal =>
      let copied := min prefill.length maxNCmps
      let exactComputed := prefill ++ traversal.expanded
      let refine := refineIds exactComputed traversal.pqCandidateHeap
      if copied + traversal.expanded.length ≤ maxNCmps ∧ (refine = [] ∨ 0 < query.beamWidth) then
        let prefilled := query.pushExact 0 [] prefill
        let searched := query.pushExact copied prefilled
          (traversal.expanded.filter fun id => query.IsCandidate id)
        some
          { exactComputed := exactComputed ++ refine
            exactResultHeap := query.pushExact (copied + traversal.expanded.length) searched
              refine }
      else none
  else none

/-- `filter_beam_search`: the tags and distances of the first results. -/
def filterBeamSearch : Option (List (Nat × Distance)) :=
  query.doFilterBeamSearch.map fun run =>
    (run.exactResultHeap.take query.kSearch).map fun neighbor =>
      (query.id2tag neighbor.id, neighbor.distance)

end FilterQuery

end OdinVector
