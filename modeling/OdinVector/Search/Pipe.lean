/-
This file models `pipe_search`. Reads of single nodes are sent to the disk, into the slots
of a ring of sectors, and complete in any order. A queue hands them on in the order in which
they were sent, and the nearest node that was handed on is expanded while others are read.

An action is one turn of the main loop: the reads whose completion becomes visible in it,
and what is found in a slot that was used again for another read. A node stands for the
record that its id is mapped to. A page that is found in the page cache completes at once,
and is handed on in the next turn all the same.
-/

import OdinVector.Search.Retset
import OdinVector.Transition
import Mathlib.Logic.Function.Basic

namespace OdinVector

variable {Distance : Type} [LinearOrder Distance]

/-- `MAX_N_SECTOR_READS`. -/
def maxNSectorReads : Nat := 512

/-- What is computed from a record: the distance of its coordinates, and its neighbours. -/
structure NodeRecord (Distance : Type) where
  exactDist : Distance
  nbrs : List Nat

/-- What `pipe_search` is called with, and the distances to its query. -/
structure PipeQuery (Distance : Type) where
  disk : Nat → NodeRecord Distance
  pqDist : Nat → Distance
  medoid : Nat
  /-- The `mem_L` nodes that `mem_index_` gives. -/
  memTags : List Nat
  memDist : Nat → Distance
  lSearch : Nat
  beamWidth : Nat

/-- An entry of `retset`. Its `flag` is set until its read is sent, and `visited` is set when
it is expanded. -/
structure PipeEntry (Distance : Type) extends PoolEntry Distance where
  visited : Bool

/-- `IORequest`, with the id that it reads. -/
structure PipeRequest where
  id : Nat
  finished : Bool

/-- `io_t`, with the slot of its `read_req`. -/
structure PipeIo (Distance : Type) where
  id : Nat
  distance : Distance
  slot : Nat

/-- The state of the main loop. -/
structure PipeState (Distance : Type) where
  retset : List (PipeEntry Distance)
  visited : Finset Nat
  fullRetset : List (Neighbor Distance)
  /-- `query_buf->reqs`. -/
  reqs : Nat → PipeRequest
  sectorIdx : Nat
  onFlightIos : List (PipeIo Distance)
  /-- The ids and slots of the reads whose completion was not seen yet. -/
  device : List (Nat × Nat)
  idBufMap : List (Nat × Nat)
  /-- The ids that were locked, in their order: one for each read that was sent. -/
  locked : List Nat
  unlocked : List Nat
  curBeamWidth : Nat
  curNIn : Nat
  curTot : Nat
  maxMarker : Nat

/-- What happens around one turn of the main loop. -/
structure PipeTurn (Distance : Type) where
  /-- The ids whose reads are seen to be complete. -/
  completes : List Nat
  /-- What the slot of the node that is expanded has, when it is not its page any more. -/
  torn : NodeRecord Distance

namespace PipeState

variable (state : PipeState Distance)

/-- The nodes that were expanded, in their order. -/
def expanded : List Nat :=
  state.fullRetset.map Neighbor.id

/-- Whether `id_buf_map` has an id. -/
def isRead (id : Nat) : Bool :=
  (state.idBufMap.lookup id).isSome

/-- `send_read_req`, but for the flag of the entry. -/
def sendReadReq (item : PipeEntry Distance) : PipeState Distance :=
  { state with
    locked := state.locked ++ [item.id]
    reqs := Function.update state.reqs state.sectorIdx ⟨item.id, false⟩
    device := state.device ++ [(item.id, state.sectorIdx)]
    onFlightIos := state.onFlightIos ++ [⟨item.id, item.distance, state.sectorIdx⟩]
    sectorIdx := (state.sectorIdx + 1) % maxNSectorReads }

/-- The loop of `send_best_read_req` over the entries from `marker` on, while `n` reads may
be sent. -/
def sendFrom : Nat → List (PipeEntry Distance) → PipeState Distance →
    List (PipeEntry Distance) × PipeState Distance
  | _, [], state => ([], state)
  | n, entry :: rest, state =>
    if n = 0 then (entry :: rest, state)
    else if entry.flag = false ∨ state.isRead entry.id then
      let (rest, state) := sendFrom n rest state
      ({ entry with flag := false } :: rest, state)
    else
      let (rest, state) := sendFrom (n - 1) rest (state.sendReadReq entry)
      ({ entry with flag := false } :: rest, state)

/-- `send_best_read_req`. -/
def sendBestReadReq (n : Nat) : PipeState Distance :=
  let (retset, state) := sendFrom n state.retset state
  { state with retset := retset }

/-- `reader->poll_all`: the requests of the reads that are complete are finished. -/
def readerPoll (completes : List Nat) : PipeState Distance :=
  { state with
    reqs := fun slot =>
      if ∃ read ∈ state.device, read.1 ∈ completes ∧ read.2 = slot then
        { state.reqs slot with finished := true }
      else state.reqs slot
    device := state.device.filter fun read => read.1 ∉ completes }

/-- `id_buf_map.insert`, which leaves an entry that is there. -/
def insertBuf (idBufMap : List (Nat × Nat)) (io : PipeIo Distance) : List (Nat × Nat) :=
  if (idBufMap.lookup io.id).isSome then idBufMap else (io.id, io.slot) :: idBufMap

/-- Whether the request of a read is finished. -/
def finished (io : PipeIo Distance) : Bool :=
  (state.reqs io.slot).finished

/-- The loop of `poll_all` over the queue, with `n_in` and `n_out`. -/
def pollAll : PipeState Distance × Nat × Nat :=
  let done := state.onFlightIos.takeWhile state.finished
  let inside := done.countP fun io => ∀ last ∈ state.retset.getLast?, io.distance ≤ last.distance
  ({ state with
      onFlightIos := state.onFlightIos.dropWhile state.finished
      idBufMap := done.foldl insertBuf state.idBufMap
      unlocked := state.unlocked ++ done.map PipeIo.id },
    inside, done.length - inside)

/-- The first loop of `calc_best_node`: the first entry that is read and not expanded, and the
list with that entry marked. -/
def takeBest (isRead : Nat → Bool) :
    List (PipeEntry Distance) → Option (Nat × List (PipeEntry Distance))
  | [] => none
  | entry :: rest =>
    if entry.visited = false ∧ isRead entry.id then
      some (entry.id, { entry with flag := false, visited := true } :: rest)
    else (takeBest isRead rest).map fun (id, rest) => (id, entry :: rest)

/-- The slot of a node in `id_buf_map` still has its page: no later read was sent to it. -/
def Intact (id : Nat) : Prop :=
  ∀ slot ∈ state.idBufMap.lookup id, (state.reqs slot).id = id

instance (id : Nat) : Decidable (state.Intact id) :=
  inferInstanceAs (Decidable (∀ slot ∈ state.idBufMap.lookup id, (state.reqs slot).id = id))

/-- The main loop is over: `get_first_unvisited` finds no entry. -/
def Ended : Prop :=
  ∀ entry ∈ state.retset, entry.visited = true

instance : Decidable state.Ended :=
  inferInstanceAs (Decidable (∀ entry ∈ state.retset, entry.visited = true))

end PipeState

namespace PipeQuery

variable (query : PipeQuery Distance)

/-- The entry of a new neighbour. -/
def entry (id : Nat) : PipeEntry Distance where
  id := id
  distance := query.pqDist id
  flag := true
  visited := false

/-- A new neighbour is offered to the list; nothing reads the least place of a new entry. -/
def pushNbr (state : PipeState Distance) (nbr : Nat) : PipeState Distance :=
  { state with
    retset := (Retset.offer PipeEntry.toPoolEntry query.lSearch state.retset
      state.retset.length (query.entry nbr)).1 }

/-- `compute_and_push_nbrs`. -/
def computeAndPushNbrs (nbrs : List Nat) (state : PipeState Distance) : PipeState Distance :=
  let (fresh, visited) := nbrs.foldl Retset.freshNbr ([], state.visited)
  fresh.foldl query.pushNbr { state with visited := visited }

/-- The record that is found in the buffer of a node. -/
def bufRecord (torn : NodeRecord Distance) (state : PipeState Distance) (id : Nat) :
    NodeRecord Distance :=
  if state.Intact id then query.disk id else torn

/-- The expansion of the node that `calc_best_node` takes. -/
def expand (record : NodeRecord Distance) (id : Nat) (retset : List (PipeEntry Distance))
    (state : PipeState Distance) : PipeState Distance :=
  query.computeAndPushNbrs record.nbrs
    { state with
      retset := retset
      fullRetset := state.fullRetset ++ [⟨id, record.exactDist⟩] }

/-- `calc_best_node`, with the first entry that can be sent or the size that the list had. -/
def calcBestNode (torn : NodeRecord Distance) (state : PipeState Distance) :
    PipeState Distance × Nat :=
  let next :=
    match PipeState.takeBest state.isRead state.retset with
    | none => state
    | some (id, retset) => query.expand (query.bufRecord torn state id) id retset state
  (next, (next.retset.findIdx? fun entry =>
    !entry.visited && entry.flag && !next.isRead entry.id).getD state.retset.length)

/-- How many reads may be in flight from now on: one more while few reads are wasted. -/
def tune (nIn nOut : Nat) (state : PipeState Distance) : PipeState Distance :=
  if 5 ≤ state.maxMarker ∧ 0 < nIn + nOut then
    let curNIn := state.curNIn + nIn
    let curTot := state.curTot + (nIn + nOut)
    { state with
      curNIn := curNIn
      curTot := curTot
      curBeamWidth :=
        if 10 * (curTot - curNIn) ≤ curTot then
          min query.beamWidth (max (state.curBeamWidth + 1) 4)
        else state.curBeamWidth }
  else state

/-- A turn of the main loop before `calc_best_node`. -/
def poll (completes : List Nat) (state : PipeState Distance) : PipeState Distance :=
  let (polled, nIn, nOut) := (state.readerPoll completes).pollAll
  let tuned := query.tune nIn nOut polled
  if tuned.onFlightIos.length < tuned.curBeamWidth then tuned.sendBestReadReq 1 else tuned

/-- A turn of the main loop. -/
def turn (turn : PipeTurn Distance) (state : PipeState Distance) : PipeState Distance :=
  let (next, marker) := query.calcBestNode turn.torn (query.poll turn.completes state)
  { next with maxMarker := max next.maxMarker marker }

/-- The nodes that the search starts with. -/
def entryIds : List Nat :=
  if query.memTags = [] then [query.medoid] else query.memTags.take query.lSearch

/-- The entry of a node that the search starts with. -/
def firstEntry (id : Nat) : PipeEntry Distance where
  id := id
  distance := if query.memTags = [] then query.pqDist id else query.memDist id
  flag := true
  visited := false

/-- An entry with the PQ distance of its node. -/
def measure (entry : PipeEntry Distance) : PipeEntry Distance :=
  { entry with distance := query.pqDist entry.id }

/-- The state before the first reads. -/
def begin : PipeState Distance where
  retset := query.entryIds.map query.firstEntry
  visited := query.entryIds.toFinset
  fullRetset := []
  reqs _ := ⟨0, false⟩
  sectorIdx := 0
  onFlightIos := []
  device := []
  idBufMap := []
  locked := []
  unlocked := []
  curBeamWidth := 4
  curNIn := 0
  curTot := 0
  maxMarker := 0

/-- The state before the main loop; `none` is the `crash` for a beam width that is too large.
With `mem_index_`, the list is measured and sorted while the first reads are made. -/
def start : Option (PipeState Distance) :=
  if maxNSectorReads < query.beamWidth then none
  else
    let sent := query.begin.sendBestReadReq (query.begin.curBeamWidth - query.begin.onFlightIos.length)
    if query.memTags = [] then some sent
    else some { sent with
      retset := Retset.sort PipeEntry.toPoolEntry (sent.retset.map query.measure) }

/-- The turns of the main loop. -/
def search : Transition.System (PipeState Distance) (PipeTurn Distance) where
  initial state := query.start = some state
  step state turn := if state.Ended then none else some (query.turn turn state)

variable {query}

theorem search_step {state next : PipeState Distance} {turn : PipeTurn Distance}
    (taken : query.search.step state turn = some next) : next = query.turn turn state := by
  obtain ⟨-, same⟩ := Option.ite_none_left_eq_some.mp taken
  exact (Option.some.inj same).symm

end PipeQuery

end OdinVector
