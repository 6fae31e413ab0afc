/-
This file models `page_search`: it picks the first entries of its list whose pages were not
read, reads their pages, and expands each of them at once. The other nodes of the pages are
expanded in the next round, from a copy of the pages and of their layout.

The layout does not change during a search here. A node stands for the record that its id is
mapped to, and the locks and buffers around the reads are left out. Of the nodes of a page that
are expanded late, the neighbours are offered by the distance of the nodes; among equal
distances the order of the records in the page decides.
-/

import OdinVector.PageLayout
import OdinVector.Search.Pipe

namespace OdinVector

variable {Distance : Type} [LinearOrder Distance]

/-- The graph on the disk with its pages: every node has one slot, in the page that `id2page`
gives for it. -/
structure PageGraph where
  nnodesPerSector : Nat
  pageLayout : Nat → PageArr
  id2page : Nat → Nat
  nodes : Finset Nat
  nbrs : Nat → List Nat
  closed : ∀ id ∈ nodes, ∀ nbr ∈ nbrs id, nbr ∈ nodes
  placed : ∀ id ∈ nodes, ∃ slot < nnodesPerSector, pageLayout (id2page id) slot = .real id
  apart : ∀ page, ∀ slot < nnodesPerSector, ∀ id, pageLayout page slot = .real id →
    id ∈ nodes ∧ id2page id = page
  once : ∀ page, ∀ first < nnodesPerSector, ∀ second < nnodesPerSector, ∀ id,
    pageLayout page first = .real id → pageLayout page second = .real id → first = second

namespace PageGraph

variable (graph : PageGraph)

/-- The node that a slot has. -/
def nodeOf : SlotId → Option Nat
  | .real id => some id
  | .kAllocatedID => none
  | .kInvalidID => none

/-- The nodes of a page, by their slots. -/
def pageIds (page : Nat) : List Nat :=
  (List.range graph.nnodesPerSector).filterMap fun slot => nodeOf (graph.pageLayout page slot)

variable {graph} {page id : Nat}

theorem nodeOf_eq_some {slot : SlotId} : nodeOf slot = some id ↔ slot = .real id := by
  cases slot with
  | real other => exact Option.some_inj.trans (SlotId.real.injEq other id).symm.to_iff
  | kAllocatedID => exact ⟨nofun, nofun⟩
  | kInvalidID => exact ⟨nofun, nofun⟩

/-- The nodes of a page are those that are mapped to it. -/
theorem mem_pageIds : id ∈ graph.pageIds page ↔ id ∈ graph.nodes ∧ graph.id2page id = page := by
  unfold pageIds
  rw [List.mem_filterMap]
  constructor
  · rintro ⟨slot, inside, held⟩
    exact graph.apart page slot (List.mem_range.mp inside) id (nodeOf_eq_some.mp held)
  · rintro ⟨node, rfl⟩
    obtain ⟨slot, inside, held⟩ := graph.placed id node
    exact ⟨slot, List.mem_range.mpr inside, nodeOf_eq_some.mpr held⟩

theorem nodup_pageIds : (graph.pageIds page).Nodup := by
  refine List.pairwise_filterMap.mpr (List.nodup_range.imp_of_mem ?_)
  intro first second inFirst inSecond different id firstHas other secondHas same
  subst same
  exact different (graph.once page first (List.mem_range.mp inFirst) second
    (List.mem_range.mp inSecond) id (nodeOf_eq_some.mp firstHas) (nodeOf_eq_some.mp secondHas))

/-- A node is alone on its page. -/
def Alone (graph : PageGraph) (id : Nat) : Prop :=
  ∀ other ∈ graph.pageIds (graph.id2page id), other = id

end PageGraph

/-- What `page_search` is called with, and the distances to its query. -/
structure PageQuery (Distance : Type) where
  graph : PageGraph
  pqDist : Nat → Distance
  exactDist : Nat → Distance
  /-- The `mem_L` nodes that `mem_index_` gives. -/
  memTags : List Nat
  lSearch : Nat
  beamWidth : Nat

/-- The state of the search loop. -/
structure PageState (Distance : Type) where
  retset : List (PoolEntry Distance)
  visited : Finset Nat
  pageVisited : Finset Nat
  k : Nat
  fullRetset : List (Neighbor Distance)
  /-- The nodes that were picked in the last round, with their pages. -/
  lastIoSnapshot : List (Nat × Nat)

/-- The nodes that were expanded, in their order. -/
def PageState.expanded (state : PageState Distance) : List Nat :=
  state.fullRetset.map Neighbor.id

namespace PageQuery

variable (query : PageQuery Distance)

/-- The entry of a node that is not expanded. -/
def entry (id : Nat) : PoolEntry Distance where
  id := id
  distance := query.pqDist id
  flag := true

/-- The nodes that the search starts with; `best_medoid` is 0. -/
def entryIds : List Nat :=
  if query.memTags = [] then [0] else query.memTags.take query.lSearch

/-- The state before the loop. -/
def start : PageState Distance where
  retset := Retset.sort id (query.entryIds.map query.entry)
  visited := query.entryIds.toFinset
  pageVisited := ∅
  k := 0
  fullRetset := []
  lastIoSnapshot := []

/-- The loop that picks the frontier from the entries from `marker` on, clears their flags, and
marks their pages. -/
def pickBeam : List (PoolEntry Distance) → List Nat × Finset Nat →
    List (PoolEntry Distance) × List Nat × Finset Nat
  | [], beam => ([], beam)
  | entry :: rest, (frontier, pageVisited) =>
    if frontier.length < query.beamWidth then
      if query.graph.id2page entry.id ∉ pageVisited ∧ entry.flag = true then
        let (rest, beam) := pickBeam rest (frontier ++ [entry.id],
          insert (query.graph.id2page entry.id) pageVisited)
        ({ entry with flag := false } :: rest, beam)
      else
        let (rest, beam) := pickBeam rest (frontier, pageVisited)
        (entry :: rest, beam)
    else (entry :: rest, frontier, pageVisited)

/-- `compute_exact_dists_and_push`. -/
def computeExactDistsAndPush (state : PageState Distance) (id : Nat) : PageState Distance :=
  { state with fullRetset := state.fullRetset ++ [⟨id, query.exactDist id⟩] }

/-- A new neighbour is offered to the list; `nk` is the least place of a new entry. -/
def pushNbr (search : PageState Distance × Nat) (nbr : Nat) : PageState Distance × Nat :=
  let (retset, nk) := Retset.offer id query.lSearch search.1.retset search.2 (query.entry nbr)
  ({ search.1 with retset := retset }, nk)

/-- `compute_and_push_nbrs`. -/
def computeAndPushNbrs (search : PageState Distance × Nat) (id : Nat) :
    PageState Distance × Nat :=
  let (fresh, visited) := (query.graph.nbrs id).foldl Retset.freshNbr ([], search.1.visited)
  fresh.foldl query.pushNbr ({ search.1 with visited := visited }, search.2)

/-- The other nodes of a page that was read in the last round. -/
def others (io : Nat × Nat) : List Nat :=
  (query.graph.pageIds io.2).filter (· ≠ io.1)

/-- The expansion of the other nodes of a page. -/
def expandLast (search : PageState Distance × Nat) (io : Nat × Nat) : PageState Distance × Nat :=
  let visCand := (query.others io).insertionSort fun first second =>
    query.exactDist first ≤ query.exactDist second
  visCand.foldl query.computeAndPushNbrs
    ((query.others io).foldl query.computeExactDistsAndPush search.1, search.2)

/-- The expansion of a node of the frontier, at each slot of its page that has it. -/
def expandOwn (search : PageState Distance × Nat) (id : Nat) : PageState Distance × Nat :=
  ((query.graph.pageIds (query.graph.id2page id)).filter (· = id)).foldl
    (fun search id => query.computeAndPushNbrs
      (query.computeExactDistsAndPush search.1 id, search.2) id) search

/-- What is picked in a round: the list, the nodes and the pages that were read. -/
def beam (state : PageState Distance) : List (PoolEntry Distance) × List Nat × Finset Nat :=
  query.pickBeam (state.retset.drop state.k) ([], state.pageVisited)

/-- One round of `while (k < cur_list_size)`. -/
def round (state : PageState Distance) : PageState Distance :=
  let (rest, frontier, pageVisited) := query.beam state
  let begun := { state with
    retset := state.retset.take state.k ++ rest
    pageVisited := pageVisited }
  let (late, nk) := state.lastIoSnapshot.foldl query.expandLast (begun, state.retset.length)
  let (next, nk) := frontier.foldl query.expandOwn (late, nk)
  { next with
    lastIoSnapshot := frontier.map fun id => (id, query.graph.id2page id)
    k := if nk ≤ state.k then nk else state.k + 1 }

/-- The rounds of the search; a beam width that is too large is a `crash`. -/
def search : Transition.System (PageState Distance) Unit where
  initial state := query.beamWidth ≤ maxNSectorReads ∧ state = query.start
  step state _ := if state.k < state.retset.length then some (query.round state) else none

variable {query}

theorem step_eq_round {state : PageState Distance} (going : state.k < state.retset.length) :
    query.search.step state () = some (query.round state) :=
  if_pos going

end PageQuery

end OdinVector
