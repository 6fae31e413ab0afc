/-
This file lists where the searches of the disk index access the buffers that
`init_query_buf` allocates and the lists and arrays of their own. An access has the size of
what is accessed and the place where it stops, in the unit in which the buffer is allocated:
bytes for `coord_scratch`, `sector_scratch` and `last_pages`, and elements for the others.

The accesses follow the steps of the searches: each function here goes along with one of
them, and hands on the state that it has then.
-/

import OdinVector.Build.DiskLayout
import OdinVector.Search.LiveResults
import OdinVector.Search.PageCoverage
import OdinVector.Search.PipeRing

namespace OdinVector

variable {Distance : Type} [LinearOrder Distance]

/-! ### Accesses -/

/-- An access to a buffer: its size, and where the access stops. -/
structure ScratchAccess where
  size : Nat
  stop : Nat

namespace ScratchAccess

/-- The accesses are within the buffers. -/
def Within (accesses : List ScratchAccess) : Prop :=
  ∀ access ∈ accesses, access.stop ≤ access.size

/-- The accesses of some steps, one after the other; `none` is a `crash`, after which there
are no accesses. -/
def trace {State Item : Type} (step : State → Item → Option State)
    (accesses : State → Item → List ScratchAccess) : State → List Item → List ScratchAccess
  | _, [] => []
  | state, item :: rest =>
    accesses state item ++ (step state item).elim [] fun next => trace step accesses next rest

instance (accesses : List ScratchAccess) : Decidable (Within accesses) :=
  inferInstanceAs (Decidable (∀ access ∈ accesses, access.stop ≤ access.size))

theorem within_nil : Within [] := fun _ member => absurd member List.not_mem_nil

theorem Within.append {first second : List ScratchAccess} (before : Within first)
    (after : Within second) : Within (first ++ second) := by
  intro access member
  obtain early | late := List.mem_append.mp member
  · exact before access early
  · exact after access late

theorem within_singleton {size stop : Nat} (inside : stop ≤ size) : Within [⟨size, stop⟩] := by
  intro access member
  rw [List.mem_singleton.mp member]
  exact inside

theorem within_map {Item : Type} {items : List Item} {access : Item → ScratchAccess}
    (inside : ∀ item ∈ items, (access item).stop ≤ (access item).size) :
    Within (items.map access) := by
  intro other member
  obtain ⟨item, there, rfl⟩ := List.mem_map.mp member
  exact inside item there

/-- Accesses are within the buffers when some property, which the steps keep, sees to it. The
property may depend on the items that are left. -/
theorem within_trace {State Item : Type} {step : State → Item → Option State}
    {accesses : State → Item → List ScratchAccess} (holds : List Item → State → Prop)
    (inside : ∀ item rest state, holds (item :: rest) state → Within (accesses state item))
    (keeps : ∀ item rest state next, holds (item :: rest) state → step state item = some next →
      holds rest next)
    {items : List Item} {state : State} (start : holds items state) :
    Within (trace step accesses state items) := by
  induction items generalizing state with
  | nil => exact within_nil
  | cons item rest inductionHypothesis =>
    refine (inside item rest state start).append ?_
    cases taken : step state item with
    | none => exact within_nil
    | some next => exact inductionHypothesis (keeps item rest state next start taken)

end ScratchAccess

/-! ### The buffers -/

/-- What the sizes of the buffers depend on: the header of the index and `sizeof(T)`, where `T`
is `float` or has one byte. -/
structure ScratchShape where
  header : DiskHeader
  componentLen : Nat
  element : componentLen = 1 ∨ componentLen = 4

namespace ScratchShape

variable (shape : ScratchShape)

/-- `aligned_dim`. -/
def alignedDim : Nat :=
  roundUp shape.header.dataDim 8

/-- The bytes of `coord_scratch`. -/
def coordAllocSize : Nat :=
  roundUp (maxNCmps * shape.alignedDim) 256

/-- The bytes of `sector_scratch`. -/
def sectorAllocSize : Nat :=
  maxNSectorReads * sectorLen

/-- The coordinates that have a number are copied and compared. -/
def coordAccess (index : Nat) : ScratchAccess :=
  ⟨shape.coordAllocSize, (index + 1) * shape.alignedDim * shape.componentLen⟩

/-- The sectors that have a number are read. -/
def sectorAccess (index : Nat) : ScratchAccess :=
  ⟨sectorAllocSize, (index + 1) * shape.header.sizePerIo⟩

/-- The distances of some nodes are put in `dist_scratch`. -/
def distAccess (count : Nat) : ScratchAccess :=
  ⟨512, count⟩

/-- `last_pages`, at the page that has a number. -/
def lastPagesAccess (beamWidth index : Nat) : ScratchAccess :=
  ⟨sectorLen * beamWidth * 2, (index + 1) * sectorLen⟩

/-- The arrays of `DynamicSSDIndex::search`, for a number of results. -/
def resultAccess (count : Nat) : ScratchAccess :=
  ⟨4096, count⟩

end ScratchShape

/-! ### The list -/

namespace Retset

variable {Entry : Type} (view : Entry → PoolEntry Distance)

/-- A neighbour is offered to a list for which there is some room: `InsertIntoPool` moves
entries to the place behind the list. -/
def offerAccesses (lSearch size : Nat) (retset : List Entry) (nn : Entry) :
    List ScratchAccess :=
  if (addr view retset nn (retset.length - 1)).distance ≤ (view nn).distance ∧
      retset.length = lSearch then []
  else [⟨size, retset.length + 1⟩]

/-- The size that `retset` is resized to while the list grows by `more` entries. -/
def resized (size first : Nat) : Nat → Nat
  | 0 => size
  | more + 1 =>
    if resized size first more ≤ first + more + 1 then 2 * (first + more + 1)
    else resized size first more

end Retset

/-! ### `do_beam_search` -/

namespace BeamQuery

variable (query : BeamQuery Distance) (shape : ScratchShape)

/-- The size that `retset` has first, in 32 bits. -/
def firstSize : Nat :=
  (query.memTags.length + 10 * query.lSearch) % 2 ^ 32

/-- The size of `retset` when the list has some length. -/
def retsetSize (length : Nat) : Nat :=
  Retset.resized query.firstSize query.entryIds.length (length - query.entryIds.length)

/-- The first nodes. -/
def startAccesses : List ScratchAccess :=
  [ScratchShape.distAccess query.entryIds.length, ⟨query.firstSize, query.entryIds.length⟩]

/-- A neighbour of a node that is expanded. -/
def visitAccesses (search : BeamState Distance × Nat) (nbr : Nat) : List ScratchAccess :=
  if nbr ∈ search.1.visited then []
  else Retset.offerAccesses id search.1.lSearch (query.retsetSize search.1.retset.length)
    search.1.retset (query.entry nbr)

/-- The expansion of a node. -/
def expandAccesses (search : BeamState Distance × Nat) (id : Nat) : List ScratchAccess :=
  [shape.coordAccess search.1.fullRetset.length,
    ScratchShape.distAccess (query.graph.nbrs id).length] ++
      ScratchAccess.trace query.visit query.visitAccesses
        (search.1.push ⟨id, query.exactDist id⟩, search.2) (query.graph.nbrs id)

/-- The nodes that are picked in a round. -/
def frontier (state : BeamState Distance) : List Nat :=
  (query.pickFrontier (state.retset.drop state.k) []).2

/-- A round. -/
def hopAccesses (state : BeamState Distance) : List ScratchAccess :=
  (List.range (query.frontier state).length).map shape.sectorAccess ++
    ScratchAccess.trace query.expand (query.expandAccesses shape)
      ({ state with retset := state.retset.take state.k ++
        (query.pickFrontier (state.retset.drop state.k) []).1 }, state.retset.length)
      (query.frontier state)

/-- The rounds of the search. -/
def rounds : Transition.System (BeamState Distance) Unit where
  initial state := state = query.start
  step state _ := if state.k < state.retset.length then query.hop state else none

end BeamQuery

/-! ### `page_search` -/

namespace PageQuery

variable (query : PageQuery Distance) (shape : ScratchShape)

/-- The first nodes; `retset` has 4096 entries. -/
def startAccesses : List ScratchAccess :=
  [ScratchShape.distAccess query.entryIds.length, ⟨4096, query.entryIds.length⟩]

/-- A neighbour that was not seen. -/
def pushAccesses (search : PageState Distance × Nat) (nbr : Nat) : List ScratchAccess :=
  Retset.offerAccesses id query.lSearch 4096 search.1.retset (query.entry nbr)

/-- The neighbours of a node. -/
def nbrAccesses (search : PageState Distance × Nat) (id : Nat) : List ScratchAccess :=
  let (fresh, visited) := (query.graph.nbrs id).foldl Retset.freshNbr ([], search.1.visited)
  ScratchShape.distAccess fresh.length ::
    ScratchAccess.trace (fun search nbr => some (query.pushNbr search nbr)) query.pushAccesses
      ({ search.1 with visited := visited }, search.2) fresh

/-- The other nodes of a page. -/
def lastAccesses (search : PageState Distance × Nat) (io : Nat × Nat) : List ScratchAccess :=
  let visCand := (query.others io).insertionSort fun first second =>
    query.exactDist first ≤ query.exactDist second
  (query.others io).map (fun _ => shape.coordAccess 0) ++
    ScratchAccess.trace (fun search id => some (query.computeAndPushNbrs search id))
      query.nbrAccesses
      ((query.others io).foldl query.computeExactDistsAndPush search.1, search.2) visCand

/-- A node that is picked, at each slot of its page that has it. -/
def ownAccesses (search : PageState Distance × Nat) (id : Nat) : List ScratchAccess :=
  ScratchAccess.trace
    (fun search id => some (query.computeAndPushNbrs
      (query.computeExactDistsAndPush search.1 id, search.2) id))
    (fun search id => shape.coordAccess 0 ::
      query.nbrAccesses (query.computeExactDistsAndPush search.1 id, search.2) id)
    search ((query.graph.pageIds (query.graph.id2page id)).filter (· = id))

/-- A round. -/
def roundAccesses (state : PageState Distance) : List ScratchAccess :=
  let (rest, frontier, pageVisited) := query.beam state
  let begun : PageState Distance × Nat :=
    ({ state with
      retset := state.retset.take state.k ++ rest
      pageVisited := pageVisited }, state.retset.length)
  (List.range frontier.length).map shape.sectorAccess ++
    (List.range state.lastIoSnapshot.length).map (ScratchShape.lastPagesAccess query.beamWidth) ++
    (List.range frontier.length).map (ScratchShape.lastPagesAccess query.beamWidth) ++
    ScratchAccess.trace (fun search io => some (query.expandLast search io))
      (query.lastAccesses shape) begun state.lastIoSnapshot ++
    ScratchAccess.trace (fun search id => some (query.expandOwn search id))
      (query.ownAccesses shape) (state.lastIoSnapshot.foldl query.expandLast begun) frontier

end PageQuery

/-! ### `pipe_search` -/

namespace PipeQuery

variable (query : PipeQuery Distance) (shape : ScratchShape)

/-- The size that `retset` has first. -/
def firstSize : Nat :=
  query.memTags.length + query.lSearch * 10

/-- The size of `retset` when the list has some length. -/
def retsetSize (length : Nat) : Nat :=
  Retset.resized query.firstSize query.entryIds.length (length - query.entryIds.length)

/-- The reads that `send_best_read_req` sends. -/
def sendAccesses : Nat → List (PipeEntry Distance) → PipeState Distance → List ScratchAccess
  | _, [], _ => []
  | n, entry :: rest, state =>
    if n = 0 then []
    else if entry.flag = false ∨ state.isRead entry.id then sendAccesses n rest state
    else shape.sectorAccess state.sectorIdx ::
      sendAccesses (n - 1) rest (state.sendReadReq entry)

/-- The first nodes and the first reads. With `mem_index_` the distances of all of its `mem_L`
nodes are computed. -/
def startAccesses : List ScratchAccess :=
  [ScratchShape.distAccess (if query.memTags = [] then 1 else query.memTags.length),
    ⟨query.firstSize, query.entryIds.length⟩] ++
      sendAccesses shape 4 query.begin.retset query.begin

/-- A neighbour that was not seen. -/
def pushAccesses (state : PipeState Distance) (nbr : Nat) : List ScratchAccess :=
  Retset.offerAccesses PipeEntry.toPoolEntry query.lSearch (query.retsetSize state.retset.length)
    state.retset (query.entry nbr)

/-- The neighbours of a node. -/
def nbrAccesses (nbrs : List Nat) (state : PipeState Distance) : List ScratchAccess :=
  let (fresh, visited) := nbrs.foldl Retset.freshNbr ([], state.visited)
  ScratchShape.distAccess fresh.length ::
    ScratchAccess.trace (fun state nbr => some (query.pushNbr state nbr)) query.pushAccesses
      { state with visited := visited } fresh

/-- `calc_best_node`. -/
def calcAccesses (torn : NodeRecord Distance) (state : PipeState Distance) :
    List ScratchAccess :=
  match PipeState.takeBest state.isRead state.retset with
  | none => []
  | some (id, retset) =>
    let record := query.bufRecord torn state id
    shape.coordAccess 0 ::
      query.nbrAccesses record.nbrs
        { state with
          retset := retset
          fullRetset := state.fullRetset ++ [⟨id, record.exactDist⟩] }

/-- A turn of the main loop. -/
def turnAccesses (turn : PipeTurn Distance) (state : PipeState Distance) :
    List ScratchAccess :=
  let (polled, nIn, nOut) := (state.readerPoll turn.completes).pollAll
  let tuned := query.tune nIn nOut polled
  (if tuned.onFlightIos.length < tuned.curBeamWidth then
      sendAccesses shape 1 tuned.retset tuned
    else []) ++
    query.calcAccesses shape turn.torn (query.poll turn.completes state)

end PipeQuery

/-! ### The results -/

/-- How many results `beam_search` copies. -/
def BeamQuery.resultCount (query : BeamQuery Distance) (kSearch : Nat)
    (last : BeamState Distance) : Nat :=
  min kSearch (min query.lSearch last.fullRetset.length)

/-- How many results `page_search` and `pipe_search` copy: those that follow one with the same
id are left out. -/
def copiedCount (kSearch : Nat) (fullRetset : List (Neighbor Distance)) : Nat :=
  min kSearch (((sortPool fullRetset).map Neighbor.id).destutter (· ≠ ·)).length

end OdinVector
