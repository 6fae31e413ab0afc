/-
This file models `coro_search`: up to eight queries are searched by one thread, each with
the loop of `do_beam_search` cut at its reads. The reads of all queries complete in one
queue, and a poll takes one of them from it. A query goes on when it is its turn and the
last read of its batch is found to be finished.

A search leaves its buffers behind for the next one. The order in which reads complete is
a function from polls to reads; a poll may also find nothing. Pages are read from the
file, and with the identity layout the location of a node is its id.
-/

import OdinVector.Search.BeamReturns
import Mathlib.Data.List.Destutter
import Mathlib.Data.Nat.Pairing

namespace OdinVector

variable {Distance : Type} [LinearOrder Distance]

/-- What is read of the record in a sector buffer: the neighbours, and the distance of the
coordinates to the query. -/
structure SectorBuf (Distance : Type) where
  nbrs : List Nat
  dist : Distance

/-- `CoroDataOne`; `frontier` stands for `frontier_nhoods` and `frontier_read_reqs`, too. -/
structure CoroDataOne (Distance : Type) where
  retset : List (PoolEntry Distance)
  visited : Finset Nat
  k : Nat
  fullRetset : List (Neighbor Distance)
  frontier : List Nat
  sectors : Nat → SectorBuf Distance
  /-- The places of the finished reads. -/
  finished : List Nat

namespace CoroDataOne

/-- `search_ends`. -/
def searchEnds (coro : CoroDataOne Distance) : Bool := coro.retset.length ≤ coro.k

/-- The test of `io_finished`. -/
def ioFinished (coro : CoroDataOne Distance) : Bool :=
  (List.range coro.frontier.length).all (· ∈ coro.finished)

/-- The search state of `do_beam_search` in the place of that of a coroutine. -/
def carry (coro : CoroDataOne Distance) (state : BeamState Distance) : CoroDataOne Distance :=
  { coro with
    retset := state.retset
    visited := state.visited
    k := state.k
    fullRetset := state.fullRetset }

end CoroDataOne

namespace BeamQuery

variable (query : BeamQuery Distance)

/-- `issue_next_io_batch`, with the loop of `do_beam_search` that picks the frontier. -/
def issueNextIoBatch (coro : CoroDataOne Distance) : CoroDataOne Distance :=
  if coro.searchEnds then coro
  else
    let (rest, frontier) := query.pickFrontier (coro.retset.drop coro.k) []
    { coro with
      retset := coro.retset.take coro.k ++ rest
      frontier := frontier
      finished := [] }

/-- A neighbour of an expanded node. The id is not compared with `cur_id`. -/
def exploreNeighbor (search : CoroDataOne Distance × Nat) (nbr : Nat) :
    CoroDataOne Distance × Nat :=
  let (coro, nk) := search
  if nbr ∈ coro.visited then (coro, nk)
  else
    let (retset, nk) := Retset.offer id query.lSearch coro.retset nk (query.entry nbr)
    ({ coro with retset := retset, visited := insert nbr coro.visited }, nk)

/-- A node of the frontier, with the place of its buffer. -/
def exploreNode (search : CoroDataOne Distance × Nat) (node : Nat × Nat) :
    CoroDataOne Distance × Nat :=
  let (coro, nk) := search
  let sectorBuf := coro.sectors node.2
  sectorBuf.nbrs.foldl query.exploreNeighbor
    ({ coro with fullRetset := coro.fullRetset ++ [⟨node.1, sectorBuf.dist⟩] }, nk)

/-- `explore_frontier`. -/
def exploreFrontier (coro : CoroDataOne Distance) : CoroDataOne Distance :=
  let (next, nk) := coro.frontier.zipIdx.foldl query.exploreNode (coro, coro.retset.length)
  { next with k := if nk ≤ coro.k then nk else coro.k + 1 }

/-- A read that is not finished yet is done. -/
def complete (coro : CoroDataOne Distance) (place : Nat) : CoroDataOne Distance :=
  match coro.frontier[place]? with
  | some id =>
    if place ∈ coro.finished then coro
    else
      { coro with
        sectors := Function.update coro.sectors place ⟨query.graph.nbrs id, query.exactDist id⟩
        finished := place :: coro.finished }
  | none => coro

/-- `reset` and the nodes to start with, over what an earlier search has left. -/
def coroStart (left : CoroDataOne Distance) : CoroDataOne Distance :=
  left.carry query.start

end BeamQuery

/-- A query of a batch: the distances to it, and the nodes that `mem_index_` gives. -/
structure CoroQuery (Distance : Type) where
  pqDist : Nat → Distance
  exactDist : Nat → Distance
  memTags : List Nat

/-- What `coro_search` is called with. -/
structure CoroBatch (Distance : Type) where
  graph : DiskGraph
  medoid : Nat
  dataIsNormalized : Bool
  queries : Nat → CoroQuery Distance
  /-- `N`. -/
  number : Nat
  kSearch : Nat
  lSearch : Nat
  beamWidth : Nat

/-- The local variables of `coro_search`; `polled` counts the polls. -/
structure CoroRun (Distance : Type) where
  data : Nat → CoroDataOne Distance
  polled : Nat
  allFinished : Bool

namespace CoroBatch

variable (batch : CoroBatch Distance)

/-- A query of the batch as `do_beam_search` is called with it. -/
def alone (v : Nat) : BeamQuery Distance where
  graph := batch.graph
  id2tag := id
  pqDist := (batch.queries v).pqDist
  exactDist := (batch.queries v).exactDist
  medoid := batch.medoid
  memTags := (batch.queries v).memTags
  lSearch := batch.lSearch
  beamWidth := batch.beamWidth
  dynSearchL := false
  excludeNodes := []
  timeOver _ := false

/-- Which read the polls find finished: the one of a query at a place. -/
abbrev Polls := Nat → Option (Nat × Nat)

variable (polls : Polls)

/-- `poll`. -/
def poll (run : CoroRun Distance) : CoroRun Distance :=
  match polls run.polled with
  | some (v, place) =>
    { run with
      data := Function.update run.data v ((batch.alone v).complete (run.data v) place)
      polled := run.polled + 1 }
  | none => { run with polled := run.polled + 1 }

/-- The turn of a query. -/
def visit (run : CoroRun Distance) (i : Nat) : CoroRun Distance :=
  if (run.data i).searchEnds then run
  else
    let run := { batch.poll polls run with allFinished := false }
    if (run.data i).ioFinished then
      { run with
        data := Function.update run.data i
          ((batch.alone i).issueNextIoBatch ((batch.alone i).exploreFrontier (run.data i))) }
    else run

/-- A round of the loop over the queries. -/
def round (run : CoroRun Distance) : CoroRun Distance :=
  (List.range batch.number).foldl (batch.visit polls) { run with allFinished := true }

/-- `while (!all_finished)`; `none` is a loop that goes on when the fuel is used up. -/
def loop : Nat → CoroRun Distance → Option (CoroRun Distance)
  | 0, _ => none
  | fuel + 1, run =>
    let next := batch.round polls run
    if next.allFinished then some next else loop fuel next

/-- The state before the loop, over what an earlier search has left. -/
def start (left : Nat → CoroDataOne Distance) : CoroRun Distance where
  data v := (batch.alone v).issueNextIoBatch ((batch.alone v).coroStart (left v))
  polled := 0
  allFinished := false

/-- The loop that fills `res_tags` and `res_dists`: the id before is compared with, and `t`
answers are there. -/
def answers : Option Nat → Nat → List (Neighbor Distance) → List (Neighbor Distance)
  | _, _, [] => []
  | before, t, neighbor :: rest =>
    if t < batch.kSearch then
      if before = some neighbor.id then answers before t rest
      else neighbor :: answers (some neighbor.id) (t + 1) rest
    else []

/-- `coro_search`: the answers of the queries. Too many queries and normalized data end the
process. -/
def coroSearch (left : Nat → CoroDataOne Distance) (fuel : Nat) :
    Option (List (List (Neighbor Distance))) :=
  if 8 < batch.number then none
  else if batch.dataIsNormalized then none
  else
    (batch.loop polls fuel (batch.start left)).map fun last =>
      (List.range batch.number).map fun v =>
        batch.answers none 0 (sortPool (last.data v).fullRetset)

end CoroBatch

/-! ### A round of a query -/

namespace BeamQuery

variable {query : BeamQuery Distance} {coro : CoroDataOne Distance}

theorem exploreNeighbor_carry (coro : CoroDataOne Distance)
    {search after : BeamState Distance × Nat} {nbr : Nat}
    (limit : search.1.lSearch = query.lSearch) (visited : query.visit search nbr = some after) :
    query.exploreNeighbor (coro.carry search.1, search.2) nbr = (coro.carry after.1, after.2) ∧
      after.1.lSearch = query.lSearch := by
  unfold BeamQuery.visit at visited
  unfold exploreNeighbor
  dsimp only at visited ⊢
  split at visited
  case isTrue => cases visited
  split at visited
  · rename_i known
    obtain rfl := Option.some.inj visited
    exact ⟨if_pos known, limit⟩
  · rename_i fresh
    obtain rfl := Option.some.inj visited
    rw [limit]
    exact ⟨if_neg fresh, rfl⟩

theorem exploreNeighbors_carry (coro : CoroDataOne Distance)
    {search after : BeamState Distance × Nat} {nbrs : List Nat}
    (limit : search.1.lSearch = query.lSearch)
    (visited : nbrs.foldlM query.visit search = some after) :
    nbrs.foldl query.exploreNeighbor (coro.carry search.1, search.2) =
        (coro.carry after.1, after.2) ∧ after.1.lSearch = query.lSearch := by
  induction nbrs generalizing search with
  | nil =>
    obtain rfl := Option.some.inj visited
    exact ⟨rfl, limit⟩
  | cons nbr rest inductionHypothesis =>
    obtain ⟨next, first, others⟩ := Option.bind_eq_some_iff.mp visited
    obtain ⟨explored, nextLimit⟩ := exploreNeighbor_carry coro limit first
    rw [List.foldl_cons, explored]
    exact inductionHypothesis nextLimit others

/-- The buffer has the record of the node. -/
def Holds (query : BeamQuery Distance) (coro : CoroDataOne Distance) (place id : Nat) : Prop :=
  coro.sectors place = ⟨query.graph.nbrs id, query.exactDist id⟩

theorem exploreNode_carry (plain : query.dynSearchL = false)
    {search after : BeamState Distance × Nat} {id place : Nat} (holds : query.Holds coro place id)
    (limit : search.1.lSearch = query.lSearch) (expanded : query.expand search id = some after) :
    query.exploreNode (coro.carry search.1, search.2) (id, place) =
        (coro.carry after.1, after.2) ∧ after.1.lSearch = query.lSearch := by
  unfold BeamQuery.expand at expanded
  split at expanded
  case isFalse => cases expanded
  rw [plain] at expanded
  obtain ⟨visited, found, rfl⟩ := Option.map_eq_some_iff.mp expanded
  let pushed : BeamState Distance × Nat := (search.1.push ⟨id, query.exactDist id⟩, search.2)
  have pushedLimit : pushed.1.lSearch = query.lSearch := limit
  have explored := exploreNeighbors_carry coro pushedLimit found
  unfold exploreNode
  dsimp only
  have sector : (coro.carry search.1).sectors place =
      ⟨query.graph.nbrs id, query.exactDist id⟩ := holds
  rw [sector]
  exact explored

theorem exploreNodes_carry (plain : query.dynSearchL = false)
    {search after : BeamState Distance × Nat} {frontier : List Nat} {first : Nat}
    (holds : ∀ node ∈ frontier.zipIdx first, query.Holds coro node.2 node.1)
    (limit : search.1.lSearch = query.lSearch)
    (expanded : frontier.foldlM query.expand search = some after) :
    (frontier.zipIdx first).foldl query.exploreNode (coro.carry search.1, search.2) =
        (coro.carry after.1, after.2) ∧ after.1.lSearch = query.lSearch := by
  induction frontier generalizing search first with
  | nil =>
    obtain rfl := Option.some.inj expanded
    exact ⟨rfl, limit⟩
  | cons id rest inductionHypothesis =>
    obtain ⟨next, here, others⟩ := Option.bind_eq_some_iff.mp expanded
    rw [List.zipIdx_cons] at holds ⊢
    obtain ⟨explored, nextLimit⟩ :=
      exploreNode_carry plain (holds _ List.mem_cons_self) limit here
    rw [List.foldl_cons, explored]
    exact inductionHypothesis (fun node member => holds node (List.mem_cons_of_mem _ member))
      nextLimit others

/-- The batch that is issued for a round of `do_beam_search`. -/
def issued (query : BeamQuery Distance) (state : BeamState Distance) : BeamState Distance :=
  { state with
    retset := state.retset.take state.k ++ (query.pickFrontier (state.retset.drop state.k) []).1 }

omit [LinearOrder Distance] in
theorem length_issued (state : BeamState Distance) :
    (query.issued state).retset.length = state.retset.length := by
  unfold issued
  dsimp only
  rw [List.length_append, length_pickFrontier, ← List.length_append, List.take_append_drop]

/-- The coroutine waits for the reads of a round. -/
structure Waits (query : BeamQuery Distance) (state : BeamState Distance)
    (coro : CoroDataOne Distance) : Prop where
  going : state.k < state.retset.length
  limit : state.lSearch = query.lSearch
  search : coro = coro.carry (query.issued state)
  frontier : coro.frontier = (query.pickFrontier (state.retset.drop state.k) []).2
  read : ∀ place id, coro.frontier[place]? = some id → place ∈ coro.finished →
    query.Holds coro place id

omit [LinearOrder Distance] in
theorem waits_issue {state : BeamState Distance} (going : state.k < state.retset.length)
    (limit : state.lSearch = query.lSearch) :
    query.Waits state (query.issueNextIoBatch (coro.carry state)) := by
  have notEnded : ¬ (coro.carry state).searchEnds = true := by
    show ¬ decide (state.retset.length ≤ state.k) = true
    rw [decide_eq_true_iff]
    omega
  have issue : query.issueNextIoBatch (coro.carry state) =
      { coro.carry (query.issued state) with
        frontier := (query.pickFrontier (state.retset.drop state.k) []).2
        finished := [] } := if_neg notEnded
  rw [issue]
  refine ⟨going, limit, rfl, rfl, fun _ _ _ member => ?_⟩
  cases member

omit [LinearOrder Distance] in
/-- A coroutine that waits has not ended. -/
theorem Waits.not_searchEnds {state : BeamState Distance} (waits : query.Waits state coro) :
    coro.searchEnds = false := by
  rw [waits.search]
  refine decide_eq_false (Nat.not_le.mpr ?_)
  show (query.issued state).k < (query.issued state).retset.length
  rw [length_issued]
  exact waits.going

/-- When its reads are finished the coroutine does a round of `do_beam_search`. -/
theorem Waits.explore {state next : BeamState Distance} (plain : query.dynSearchL = false)
    (waits : query.Waits state coro) (finished : coro.ioFinished = true)
    (hopped : query.hop state = some next) :
    query.exploreFrontier coro = coro.carry next ∧ next.lSearch = query.lSearch := by
  unfold BeamQuery.hop at hopped
  dsimp only at hopped
  obtain ⟨after, expanded, rfl⟩ := Option.map_eq_some_iff.mp hopped
  have all : ∀ place < coro.frontier.length, place ∈ coro.finished := by
    simpa [CoroDataOne.ioFinished] using finished
  have holds : ∀ node ∈ coro.frontier.zipIdx 0, query.Holds coro node.2 node.1 := by
    rintro ⟨id, place⟩ member
    have found : coro.frontier[place]? = some id := by
      simpa using List.mk_mem_zipIdx_iff_getElem?.mp member
    exact waits.read place id found (all place (List.getElem?_eq_some_iff.mp found).1)
  rw [← waits.frontier] at expanded
  let search : BeamState Distance × Nat := (query.issued state, state.retset.length)
  have searchLimit : search.1.lSearch = query.lSearch := waits.limit
  obtain ⟨explored, limit⟩ := exploreNodes_carry plain holds searchLimit expanded
  have length : coro.retset.length = state.retset.length := by
    rw [waits.search]
    exact length_issued state
  have sameK : coro.k = state.k := by
    rw [waits.search]
    rfl
  have same : (coro, state.retset.length) =
      (coro.carry (query.issued state), state.retset.length) := by rw [← waits.search]
  refine ⟨?_, limit⟩
  unfold exploreFrontier
  rw [length, same]
  dsimp only
  rw [explored, sameK]
  rfl

omit [LinearOrder Distance] in
/-- A read of another time does nothing to a waiting coroutine that it should not. -/
theorem Waits.complete {state : BeamState Distance} (waits : query.Waits state coro)
    (place : Nat) : query.Waits state (query.complete coro place) := by
  unfold BeamQuery.complete
  split
  case h_2 => exact waits
  rename_i id found
  split
  · exact waits
  · refine ⟨waits.going, waits.limit, ?_, waits.frontier, fun other otherId there member => ?_⟩
    · exact congrArg (fun coro : CoroDataOne Distance =>
        { coro with
          sectors := Function.update coro.sectors place ⟨query.graph.nbrs id, query.exactDist id⟩
          finished := place :: coro.finished }) waits.search
    · unfold Holds
      dsimp only
      by_cases same : other = place
      · subst same
        obtain rfl := Option.some.inj (found.symm.trans there)
        exact Function.update_self _ _ _
      · rw [Function.update_of_ne same]
        exact waits.read other otherId there ((List.mem_cons.mp member).resolve_left same)

/-! ### What is left of a search -/

/-- The coroutine has found what `do_beam_search` has found in the end, or it waits in one of its
rounds, with at most so many rounds behind it. -/
def Follows (query : BeamQuery Distance) (last : BeamState Distance) (left : Nat)
    (coro : CoroDataOne Distance) : Prop :=
  coro.searchEnds = true ∧ coro.fullRetset = last.fullRetset ∨
    ∃ state, query.Waits state coro ∧ query.loop (left + 1) state = some last

/-- A state that the loop goes on from, or ends in. -/
theorem follows_issue {state last : BeamState Distance} {left : Nat}
    (limit : state.lSearch = query.lSearch) (looped : query.loop (left + 1) state = some last) :
    query.Follows last left (query.issueNextIoBatch (coro.carry state)) := by
  by_cases going : state.k < state.retset.length
  · exact Or.inr ⟨state, waits_issue going limit, looped⟩
  · have ended : (coro.carry state).searchEnds = true := decide_eq_true (Nat.not_lt.mp going)
    have stays : query.issueNextIoBatch (coro.carry state) = coro.carry state := if_pos ended
    unfold BeamQuery.loop at looped
    rw [if_neg going] at looped
    obtain rfl := Option.some.inj looped
    rw [stays]
    exact Or.inl ⟨ended, rfl⟩

/-- A search with a list of one length and without a time limit. -/
structure Untimed (query : BeamQuery Distance) : Prop where
  dynSearchL : query.dynSearchL = false
  timeOver : ∀ hops, query.timeOver hops = false

/-- A round of `do_beam_search` without a time limit. -/
theorem loop_going {state last : BeamState Distance} {fuel : Nat}
    (timely : ∀ hops, query.timeOver hops = false) (going : state.k < state.retset.length)
    (looped : query.loop (fuel + 1) state = some last) :
    ∃ next, query.hop state = some next ∧ query.loop fuel next = some last := by
  unfold BeamQuery.loop at looped
  rw [if_pos going] at looped
  obtain ⟨next, hopped, rest⟩ := Option.bind_eq_some_iff.mp looped
  rw [timely, if_neg Bool.false_ne_true] at rest
  exact ⟨next, hopped, rest⟩

/-- When its reads are finished a coroutine that waits explores them and issues the next ones. -/
theorem follows_explore {state last : BeamState Distance} {left : Nat} (plain : query.Untimed)
    (waits : query.Waits state coro) (looped : query.loop (left + 1) state = some last)
    (finished : coro.ioFinished = true) :
    ∃ fewer, left = fewer + 1 ∧
      query.Follows last fewer (query.issueNextIoBatch (query.exploreFrontier coro)) := by
  obtain ⟨next, hopped, rest⟩ := loop_going plain.timeOver waits.going looped
  obtain ⟨explored, limit⟩ := waits.explore plain.dynSearchL finished hopped
  cases left with
  | zero => cases rest
  | succ fewer =>
    rw [explored]
    exact ⟨fewer, rfl, follows_issue limit rest⟩

omit [LinearOrder Distance] in
theorem complete_keeps (coro : CoroDataOne Distance) (place : Nat) :
    (query.complete coro place).searchEnds = coro.searchEnds ∧
      (query.complete coro place).fullRetset = coro.fullRetset ∧
        (query.complete coro place).frontier = coro.frontier := by
  unfold BeamQuery.complete
  split
  · split <;> exact ⟨rfl, rfl, rfl⟩
  · exact ⟨rfl, rfl, rfl⟩

theorem Follows.complete {last : BeamState Distance} {left : Nat}
    (follows : query.Follows last left coro) (place : Nat) :
    query.Follows last left (query.complete coro place) := by
  obtain ⟨ends, found, -⟩ := query.complete_keeps coro place
  rcases follows with ⟨ended, same⟩ | ⟨state, waits, looped⟩
  · exact Or.inl ⟨ends.trans ended, found.trans same⟩
  · exact Or.inr ⟨state, waits.complete place, looped⟩

end BeamQuery

/-! ### Turns -/

namespace CoroBatch

variable {batch : CoroBatch Distance} {polls : Polls} {run : CoroRun Distance} {v i : Nat}

omit [LinearOrder Distance] in
theorem untimed_alone (batch : CoroBatch Distance) (v : Nat) : (batch.alone v).Untimed :=
  ⟨rfl, fun _ => rfl⟩

omit [LinearOrder Distance] in
theorem poll_polled : (batch.poll polls run).polled = run.polled + 1 := by
  unfold poll
  split <;> rfl

omit [LinearOrder Distance] in
/-- A poll is of a read of the query or it leaves its coroutine. -/
theorem poll_data (batch : CoroBatch Distance) (polls : Polls) (run : CoroRun Distance) (v : Nat) :
    (∃ place, polls run.polled = some (v, place) ∧
      (batch.poll polls run).data v = (batch.alone v).complete (run.data v) place) ∨
    ((∀ place, polls run.polled ≠ some (v, place)) ∧
      (batch.poll polls run).data v = run.data v) := by
  unfold poll
  cases found : polls run.polled with
  | none => exact Or.inr ⟨fun place same => (by cases same), rfl⟩
  | some read =>
    obtain ⟨other, place⟩ := read
    dsimp only
    by_cases same : other = v
    · subst same
      exact Or.inl ⟨place, rfl, Function.update_self _ _ _⟩
    · refine Or.inr ⟨fun _ equal => same ?_, Function.update_of_ne (Ne.symm same) _ _⟩
      exact (Prod.mk.inj (Option.some.inj equal)).1

omit [LinearOrder Distance] in
theorem poll_searchEnds (batch : CoroBatch Distance) (polls : Polls) (run : CoroRun Distance)
    (v : Nat) : ((batch.poll polls run).data v).searchEnds = (run.data v).searchEnds := by
  rcases batch.poll_data polls run v with ⟨place, -, same⟩ | ⟨-, same⟩
  · rw [same]
    exact (BeamQuery.complete_keeps (run.data v) place).1
  · rw [same]

/-- What a turn is. -/
theorem visit_cases (batch : CoroBatch Distance) (polls : Polls) (run : CoroRun Distance)
    (i : Nat) :
    ((run.data i).searchEnds = true ∧ batch.visit polls run i = run) ∨
    ((run.data i).searchEnds = false ∧ (batch.visit polls run i).allFinished = false ∧
      (batch.visit polls run i).polled = run.polled + 1 ∧
      (∀ v, v ≠ i → (batch.visit polls run i).data v = (batch.poll polls run).data v) ∧
      (batch.visit polls run i).data i =
        if ((batch.poll polls run).data i).ioFinished then
          (batch.alone i).issueNextIoBatch
            ((batch.alone i).exploreFrontier ((batch.poll polls run).data i))
        else (batch.poll polls run).data i) := by
  cases ended : (run.data i).searchEnds with
  | true =>
    refine Or.inl ⟨rfl, ?_⟩
    unfold visit
    rw [ended]
    rfl
  | false =>
    refine Or.inr ⟨rfl, ?_⟩
    unfold visit
    rw [ended, if_neg Bool.false_ne_true]
    dsimp only
    split
    · exact ⟨rfl, poll_polled, fun v other => Function.update_of_ne other _ _,
        Function.update_self _ _ _⟩
    · exact ⟨rfl, poll_polled, fun v _ => rfl, rfl⟩

/-- The turn of another query does a poll at most. -/
theorem visit_other (batch : CoroBatch Distance) (polls : Polls) (run : CoroRun Distance)
    (other : i ≠ v) :
    ((batch.visit polls run i).data v = run.data v ∧
      (batch.visit polls run i).polled = run.polled) ∨
    ((batch.visit polls run i).data v = (batch.poll polls run).data v ∧
      (batch.visit polls run i).polled = run.polled + 1) := by
  rcases batch.visit_cases polls run i with ⟨-, same⟩ | ⟨-, -, polled, others, -⟩
  · rw [same]
    exact Or.inl ⟨rfl, rfl⟩
  · exact Or.inr ⟨others v other.symm, polled⟩

theorem polled_le_visit (batch : CoroBatch Distance) (polls : Polls) (run : CoroRun Distance)
    (i : Nat) : run.polled ≤ (batch.visit polls run i).polled := by
  rcases batch.visit_cases polls run i with ⟨-, same⟩ | ⟨-, -, polled, -⟩
  · rw [same]
  · rw [polled]
    exact Nat.le_succ run.polled

theorem polled_le_visits (batch : CoroBatch Distance) (polls : Polls) (turns : List Nat)
    (run : CoroRun Distance) : run.polled ≤ (turns.foldl (batch.visit polls) run).polled := by
  induction turns generalizing run with
  | nil => exact le_refl run.polled
  | cons i turns inductionHypothesis =>
    exact (batch.polled_le_visit polls run i).trans (inductionHypothesis _)

/-! ### The result of a query -/

theorem follows_poll {last : BeamState Distance} {left : Nat}
    (follows : (batch.alone v).Follows last left (run.data v)) :
    (batch.alone v).Follows last left ((batch.poll polls run).data v) := by
  rcases batch.poll_data polls run v with ⟨place, -, same⟩ | ⟨-, same⟩
  · rw [same]
    exact follows.complete place
  · rwa [same]

theorem follows_visit_other {last : BeamState Distance} {left : Nat} (other : i ≠ v)
    (follows : (batch.alone v).Follows last left (run.data v)) :
    (batch.alone v).Follows last left ((batch.visit polls run i).data v) := by
  rcases batch.visit_other polls run other with ⟨same, -⟩ | ⟨same, -⟩
  · rwa [same]
  · rw [same]
    exact follows_poll follows

/-- Every turn keeps what the coroutine of a query has to do with `do_beam_search`. -/
theorem follows_visit {last : BeamState Distance}
    (follows : ∃ left, (batch.alone v).Follows last left (run.data v)) :
    ∃ left, (batch.alone v).Follows last left ((batch.visit polls run i).data v) := by
  obtain ⟨left, follows⟩ := follows
  have polled : (batch.alone v).Follows last left ((batch.poll polls run).data v) :=
    follows_poll follows
  by_cases other : i = v
  · subst other
    rcases batch.visit_cases polls run i with ⟨-, same⟩ | ⟨going, -, -, -, turn⟩
    · rw [same]
      exact ⟨left, follows⟩
    · rw [turn]
      split
      · rename_i finished
        rcases polled with ⟨ended, found⟩ | ⟨state, waits, looped⟩
        · rw [poll_searchEnds, going] at ended
          cases ended
        · obtain ⟨fewer, -, further⟩ :=
            BeamQuery.follows_explore (untimed_alone batch i) waits looped finished
          exact ⟨fewer, further⟩
      · exact ⟨left, polled⟩
  · exact ⟨left, follows_visit_other other follows⟩

/-- A query that has ended takes no more turns. -/
theorem searchEnds_visit (ended : (run.data v).searchEnds = true) :
    ((batch.visit polls run i).data v).searchEnds = true := by
  by_cases other : i = v
  · subst other
    rcases batch.visit_cases polls run i with ⟨-, same⟩ | ⟨going, -⟩
    · rwa [same]
    · rw [ended] at going
      cases going
  · rcases batch.visit_other polls run other with ⟨same, -⟩ | ⟨same, -⟩
    · rwa [same]
    · rwa [same, poll_searchEnds]

/-- What every turn keeps of a query is kept by several turns. -/
theorem foldl_visit (keeps : CoroDataOne Distance → Prop)
    (visit : ∀ run i, keeps (run.data v) → keeps ((batch.visit polls run i).data v))
    (turns : List Nat) (run : CoroRun Distance) (before : keeps (run.data v)) :
    keeps ((turns.foldl (batch.visit polls) run).data v) := by
  induction turns generalizing run with
  | nil => exact before
  | cons i turns inductionHypothesis => exact inductionHypothesis _ (visit run i before)

/-- A round in which no query has something to do. -/
theorem ended_of_allFinished (turns : List Nat) (run : CoroRun Distance)
    (finished : (turns.foldl (batch.visit polls) run).allFinished = true) :
    run.allFinished = true ∧
      ∀ i ∈ turns, ((turns.foldl (batch.visit polls) run).data i).searchEnds = true := by
  induction turns generalizing run with
  | nil => exact ⟨finished, List.forall_mem_nil _⟩
  | cons i turns inductionHypothesis =>
    obtain ⟨here, others⟩ := inductionHypothesis _ finished
    rcases batch.visit_cases polls run i with ⟨ended, same⟩ | ⟨-, going, -⟩
    · rw [same] at here
      refine ⟨here, List.forall_mem_cons.mpr ⟨?_, others⟩⟩
      refine foldl_visit (fun coro => coro.searchEnds = true)
        (fun run i ended => searchEnds_visit ended) turns _ ?_
      rwa [same]
    · rw [here] at going
      cases going

/-- When every query has ended a round does nothing. -/
theorem foldl_visit_ended {turns : List Nat} {run : CoroRun Distance}
    (ended : ∀ i ∈ turns, (run.data i).searchEnds = true) :
    turns.foldl (batch.visit polls) run = run := by
  induction turns with
  | nil => rfl
  | cons i turns inductionHypothesis =>
    obtain ⟨here, others⟩ := List.forall_mem_cons.mp ended
    rcases batch.visit_cases polls run i with ⟨-, same⟩ | ⟨going, -⟩
    · rw [List.foldl_cons, same]
      exact inductionHypothesis others
    · rw [here] at going
      cases going

/-! ### Every query goes on -/

/-- The reads of a coroutine that are not finished are found finished by a poll up to `bound`. -/
structure Due (batch : CoroBatch Distance) (polls : Polls) (last : BeamState Distance)
    (left bound v : Nat) (coro : CoroDataOne Distance) (polled : Nat) : Prop where
  waits : ∃ state, (batch.alone v).Waits state coro ∧
    (batch.alone v).loop (left + 1) state = some last
  due : ∀ place < coro.frontier.length, place ∈ coro.finished ∨
    ∃ t, polled ≤ t ∧ t ≤ bound ∧ polls t = some (v, place)

variable {last : BeamState Distance} {left bound : Nat}

theorem Due.later {coro : CoroDataOne Distance} {polled : Nat}
    (due : batch.Due polls last left bound v coro polled)
    (notNow : ∀ place, polls polled ≠ some (v, place)) :
    batch.Due polls last left bound v coro (polled + 1) := by
  refine ⟨due.waits, fun place inside => (due.due place inside).imp_right ?_⟩
  rintro ⟨t, reached, early, found⟩
  have different : t ≠ polled := by
    rintro rfl
    exact notNow place found
  exact ⟨t, by omega, early, found⟩

/-- A poll brings the end of the reads nearer. -/
theorem Due.poll (due : batch.Due polls last left bound v (run.data v) run.polled) :
    batch.Due polls last left bound v ((batch.poll polls run).data v) (run.polled + 1) := by
  rcases batch.poll_data polls run v with ⟨place, now, same⟩ | ⟨notNow, same⟩
  · rw [same]
    obtain ⟨state, waits, looped⟩ := due.waits
    refine ⟨⟨state, waits.complete place, looped⟩, fun other inside => ?_⟩
    rw [(BeamQuery.complete_keeps (run.data v) place).2.2] at inside
    by_cases here : other = place
    · subst here
      refine Or.inl ?_
      unfold BeamQuery.complete
      rw [List.getElem?_eq_getElem inside]
      dsimp only
      split
      · assumption
      · exact List.mem_cons_self
    · rcases due.due other inside with finished | ⟨t, reached, early, found⟩
      · refine Or.inl ?_
        unfold BeamQuery.complete
        split
        · split
          · exact finished
          · exact List.mem_cons_of_mem _ finished
        · exact finished
      · have different : t ≠ run.polled := by
          rintro rfl
          exact here (Prod.mk.inj (Option.some.inj (found.symm.trans now))).2
        exact Or.inr ⟨t, by omega, early, found⟩
  · rw [same]
    exact due.later notNow

theorem follows_visits {turns : List Nat} (others : ∀ i ∈ turns, i ≠ v) {run : CoroRun Distance}
    (follows : (batch.alone v).Follows last left (run.data v)) :
    (batch.alone v).Follows last left ((turns.foldl (batch.visit polls) run).data v) := by
  induction turns generalizing run with
  | nil => exact follows
  | cons i turns inductionHypothesis =>
    obtain ⟨other, rest⟩ := List.forall_mem_cons.mp others
    exact inductionHypothesis rest (follows_visit_other other follows)

/-- The turns of other queries. -/
theorem Due.visits {turns : List Nat} (others : ∀ i ∈ turns, i ≠ v) {run : CoroRun Distance}
    (due : batch.Due polls last left bound v (run.data v) run.polled) :
    batch.Due polls last left bound v ((turns.foldl (batch.visit polls) run).data v)
      (turns.foldl (batch.visit polls) run).polled := by
  induction turns generalizing run with
  | nil => exact due
  | cons i turns inductionHypothesis =>
    obtain ⟨other, rest⟩ := List.forall_mem_cons.mp others
    refine inductionHypothesis rest ?_
    rcases batch.visit_other polls run other with ⟨same, polled⟩ | ⟨same, polled⟩
    · rw [same, polled]
      exact due
    · rw [same, polled]
      exact due.poll

/-- The turn of the query itself: it goes on, or there is a poll to come that it waits for. -/
theorem Due.visit (due : batch.Due polls last left bound v (run.data v) run.polled) :
    (∃ fewer, left = fewer + 1 ∧
      (batch.alone v).Follows last fewer ((batch.visit polls run v).data v)) ∨
    (batch.Due polls last left bound v ((batch.visit polls run v).data v)
      (batch.visit polls run v).polled ∧
        run.polled < (batch.visit polls run v).polled ∧ run.polled < bound) := by
  obtain ⟨state, waits, -⟩ := due.waits
  rcases batch.visit_cases polls run v with ⟨ended, -⟩ | ⟨-, -, polled, -, turn⟩
  · rw [waits.not_searchEnds] at ended
    cases ended
  have next := due.poll
  rw [turn, polled]
  split
  · rename_i finished
    obtain ⟨later, laterWaits, looped⟩ := next.waits
    exact Or.inl (BeamQuery.follows_explore (untimed_alone batch v) laterWaits looped finished)
  · rename_i unfinished
    refine Or.inr ⟨next, Nat.lt_succ_self run.polled, ?_⟩
    by_contra late
    refine unfinished (List.all_eq_true.mpr fun place member => decide_eq_true ?_)
    refine (next.due place (List.mem_range.mp member)).resolve_right ?_
    rintro ⟨t, reached, early, -⟩
    omega

/-- A round in which a query waits: it goes on, or there is a poll to come that it waits for. -/
theorem Due.round (due : batch.Due polls last left bound v (run.data v) run.polled)
    (inside : v < batch.number) :
    (∃ fewer, left = fewer + 1 ∧
      (batch.alone v).Follows last fewer ((batch.round polls run).data v)) ∨
    (batch.Due polls last left bound v ((batch.round polls run).data v)
      (batch.round polls run).polled ∧
        run.polled < (batch.round polls run).polled ∧ run.polled < bound) := by
  obtain ⟨before, after, split⟩ := List.append_of_mem (List.mem_range.mpr inside)
  have distinct : (before ++ v :: after).Nodup := split ▸ List.nodup_range
  obtain ⟨-, tail, apart⟩ := List.nodup_append.mp distinct
  have notBefore : ∀ i ∈ before, i ≠ v := fun i member => apart i member v List.mem_cons_self
  have notAfter : ∀ i ∈ after, i ≠ v := by
    rintro i member rfl
    exact (List.nodup_cons.mp tail).1 member
  let begun : CoroRun Distance := { run with allFinished := true }
  let first := before.foldl (batch.visit polls) begun
  have earlier : run.polled ≤ first.polled := batch.polled_le_visits polls before begun
  have begunDue : batch.Due polls last left bound v (begun.data v) begun.polled := due
  have reached : batch.Due polls last left bound v (first.data v) first.polled :=
    begunDue.visits notBefore
  have whole : batch.round polls run =
      after.foldl (batch.visit polls) (batch.visit polls first v) := by
    unfold CoroBatch.round
    rw [split, List.foldl_append, List.foldl_cons]
  have later := batch.polled_le_visits polls after (batch.visit polls first v)
  rw [whole]
  rcases reached.visit with ⟨fewer, rfl, follows⟩ | ⟨turn, more, early⟩
  · exact Or.inl ⟨fewer, rfl, follows_visits notAfter follows⟩
  · exact Or.inr ⟨turn.visits notAfter, by omega, by omega⟩

/-- After enough rounds the query goes on. -/
theorem Due.explores (due : batch.Due polls last left bound v (run.data v) run.polled)
    (inside : v < batch.number) : ∃ rounds fewer, left = fewer + 1 ∧
      (batch.alone v).Follows last fewer (((batch.round polls)^[rounds] run).data v) := by
  induction wait : bound - run.polled using Nat.strongRecOn generalizing run with
  | ind wait inductionHypothesis =>
    rcases due.round inside with ⟨fewer, rfl, follows⟩ | ⟨next, more, early⟩
    · exact ⟨1, fewer, rfl, follows⟩
    · obtain ⟨rounds, fewer, same, follows⟩ :=
        inductionHypothesis (bound - (batch.round polls run).polled) (by omega) next rfl
      exact ⟨rounds + 1, fewer, same, follows⟩

/-! ### The search ends -/

/-- The state after some rounds. -/
def after (batch : CoroBatch Distance) (polls : Polls) (before : Nat → CoroDataOne Distance)
    (rounds : Nat) : CoroRun Distance :=
  (batch.round polls)^[rounds] (batch.start before)

/-- Every read that is not finished after some rounds is found finished by a later poll. -/
def ReadsComplete (batch : CoroBatch Distance) (polls : Polls)
    (before : Nat → CoroDataOne Distance) : Prop :=
  ∀ rounds, ∀ v < batch.number,
    ((batch.after polls before rounds).data v).searchEnds = false →
      ∀ place < ((batch.after polls before rounds).data v).frontier.length,
        place ∉ ((batch.after polls before rounds).data v).finished →
          ∃ t, (batch.after polls before rounds).polled ≤ t ∧ polls t = some (v, place)

variable {before : Nat → CoroDataOne Distance}

theorem after_add (rounds more : Nat) : batch.after polls before (rounds + more) =
    (batch.round polls)^[more] (batch.after polls before rounds) := by
  unfold after
  rw [Nat.add_comm, Function.iterate_add_apply]

/-- Of finitely many polls there is a last one. -/
theorem exists_bound {awaited : Nat → Nat → Prop} (count : Nat)
    (found : ∀ place < count, ∃ t, awaited place t) :
    ∃ bound, ∀ place < count, ∃ t ≤ bound, awaited place t := by
  induction count with
  | zero => exact ⟨0, fun place inside => absurd inside (Nat.not_lt_zero place)⟩
  | succ count inductionHypothesis =>
    obtain ⟨bound, early⟩ :=
      inductionHypothesis fun place inside => found place (Nat.lt_succ_of_lt inside)
    obtain ⟨final, awaits⟩ := found count (Nat.lt_succ_self count)
    refine ⟨max bound final, fun place inside => ?_⟩
    rcases Nat.lt_succ_iff_lt_or_eq.mp inside with lower | rfl
    · obtain ⟨t, less, there⟩ := early place lower
      exact ⟨t, less.trans (le_max_left bound final), there⟩
    · exact ⟨final, le_max_right bound final, awaits⟩

/-- A query whose reads complete has ended or goes on. -/
theorem goes_on (complete : batch.ReadsComplete polls before) (inside : v < batch.number)
    {rounds : Nat}
    (follows : (batch.alone v).Follows last left ((batch.after polls before rounds).data v)) :
    ((batch.after polls before rounds).data v).searchEnds = true ∨
      ∃ more fewer, left = fewer + 1 ∧ (batch.alone v).Follows last fewer
        ((batch.after polls before (rounds + more)).data v) := by
  rcases follows with ⟨ended, -⟩ | ⟨state, waits, looped⟩
  · exact Or.inl ended
  have found : ∀ place < ((batch.after polls before rounds).data v).frontier.length,
      ∃ t, place ∉ ((batch.after polls before rounds).data v).finished →
        (batch.after polls before rounds).polled ≤ t ∧ polls t = some (v, place) := by
    intro place here
    by_cases finished : place ∈ ((batch.after polls before rounds).data v).finished
    · exact ⟨0, fun unfinished => absurd finished unfinished⟩
    · obtain ⟨t, awaited⟩ := complete rounds v inside waits.not_searchEnds place here finished
      exact ⟨t, fun _ => awaited⟩
  obtain ⟨bound, early⟩ := exists_bound _ found
  have due : batch.Due polls last left bound v ((batch.after polls before rounds).data v)
      (batch.after polls before rounds).polled := by
    refine ⟨⟨state, waits, looped⟩, fun place here => ?_⟩
    obtain ⟨t, below, awaited⟩ := early place here
    by_cases finished : place ∈ ((batch.after polls before rounds).data v).finished
    · exact Or.inl finished
    · exact Or.inr ⟨t, (awaited finished).1, below, (awaited finished).2⟩
  obtain ⟨more, fewer, same, next⟩ := due.explores inside
  refine Or.inr ⟨more, fewer, same, ?_⟩
  rw [after_add]
  exact next

/-- A query whose reads complete comes to its end. -/
theorem ends_of_follows (complete : batch.ReadsComplete polls before) (inside : v < batch.number)
    {rounds : Nat}
    (follows : (batch.alone v).Follows last left ((batch.after polls before rounds).data v)) :
    ∃ later, ((batch.after polls before later).data v).searchEnds = true := by
  induction left generalizing rounds with
  | zero =>
    rcases goes_on complete inside follows with ended | ⟨_, _, same, _⟩
    · exact ⟨rounds, ended⟩
    · cases same
  | succ left inductionHypothesis =>
    rcases goes_on complete inside follows with ended | ⟨more, fewer, same, next⟩
    · exact ⟨rounds, ended⟩
    · obtain rfl := Nat.succ.inj same
      exact inductionHypothesis next

theorem searchEnds_after {rounds later : Nat} (order : rounds ≤ later)
    (ended : ((batch.after polls before rounds).data v).searchEnds = true) :
    ((batch.after polls before later).data v).searchEnds = true := by
  induction later, order using Nat.le_induction with
  | base => exact ended
  | succ later order inductionHypothesis =>
    rw [after_add later 1]
    exact foldl_visit (fun coro => coro.searchEnds = true)
      (fun run i ended => searchEnds_visit ended) _ _ inductionHypothesis

/-- All queries have ended after enough rounds when each of them has. -/
theorem exists_all_ended (count : Nat)
    (ends : ∀ v < count, ∃ rounds, ((batch.after polls before rounds).data v).searchEnds = true) :
    ∃ rounds, ∀ v < count, ((batch.after polls before rounds).data v).searchEnds = true := by
  obtain ⟨bound, early⟩ := exists_bound count ends
  refine ⟨bound, fun v inside => ?_⟩
  obtain ⟨rounds, less, ended⟩ := early v inside
  exact searchEnds_after less ended

/-- The loop ends when all queries have ended after some rounds. -/
theorem loop_isSome {rounds : Nat} {run : CoroRun Distance}
    (ended : ∀ v < batch.number, (((batch.round polls)^[rounds] run).data v).searchEnds = true) :
    (batch.loop polls (rounds + 1) run).isSome = true := by
  induction rounds generalizing run with
  | zero =>
    have quiet : batch.round polls run = { run with allFinished := true } :=
      foldl_visit_ended fun v member => ended v (List.mem_range.mp member)
    unfold loop
    rw [quiet]
    rfl
  | succ rounds inductionHypothesis =>
    unfold loop
    dsimp only
    split
    · rfl
    · exact inductionHypothesis ended

/-- When the loop ends all queries have ended. -/
theorem loop_result {fuel : Nat} {run result : CoroRun Distance}
    (looped : batch.loop polls fuel run = some result) :
    ∃ rounds, result = (batch.round polls)^[rounds] run ∧
      ∀ v < batch.number, (result.data v).searchEnds = true := by
  induction fuel generalizing run with
  | zero => cases looped
  | succ fuel inductionHypothesis =>
    unfold loop at looped
    dsimp only at looped
    split at looped
    · rename_i finished
      obtain rfl := Option.some.inj looped
      exact ⟨1, rfl, fun v inside =>
        (ended_of_allFinished _ _ finished).2 v (List.mem_range.mpr inside)⟩
    · obtain ⟨rounds, same, ended⟩ := inductionHypothesis looped
      exact ⟨rounds + 1, same, ended⟩

/-! ### Answers -/

omit [LinearOrder Distance] in
theorem destutter'_eq_cons (first : Neighbor Distance) (rest : List (Neighbor Distance)) :
    ∃ tail, rest.destutter' (fun one two => one.id ≠ two.id) first = first :: tail := by
  induction rest generalizing first with
  | nil => exact ⟨[], rfl⟩
  | cons next rest inductionHypothesis =>
    by_cases differs : first.id ≠ next.id
    · exact ⟨_, List.destutter'_cons_pos rest differs⟩
    · rw [List.destutter'_cons_neg rest differs]
      exact inductionHypothesis first

omit [LinearOrder Distance] in
theorem answers_some (batch : CoroBatch Distance) (first : Neighbor Distance) (t : Nat)
    (rest : List (Neighbor Distance)) :
    batch.answers (some first.id) t rest =
      ((rest.destutter' (fun one two => one.id ≠ two.id) first).tail).take (batch.kSearch - t) := by
  induction rest generalizing first t with
  | nil =>
    rw [List.destutter'_nil, List.tail_cons, List.take_nil]
    rfl
  | cons next rest inductionHypothesis =>
    unfold answers
    by_cases room : t < batch.kSearch
    · rw [if_pos room]
      by_cases same : first.id = next.id
      · rw [if_pos (congrArg some same), inductionHypothesis,
          List.destutter'_cons_neg rest (not_not.mpr same)]
      · obtain ⟨tail, starts⟩ := destutter'_eq_cons next rest
        rw [if_neg fun equal => same (Option.some.inj equal), inductionHypothesis,
          List.destutter'_cons_pos rest same, List.tail_cons, starts, List.tail_cons,
          show batch.kSearch - t = batch.kSearch - (t + 1) + 1 by omega, List.take_succ_cons]
    · rw [if_neg room, Nat.sub_eq_zero_of_le (Nat.not_lt.mp room), List.take_zero]

omit [LinearOrder Distance] in
/-- The answers are the list without what follows an entry of its own id, as far as they go. -/
theorem answers_none (batch : CoroBatch Distance) (sorted : List (Neighbor Distance)) :
    batch.answers none 0 sorted =
      (sorted.destutter fun one two => one.id ≠ two.id).take batch.kSearch := by
  cases sorted with
  | nil => exact List.take_nil.symm
  | cons first rest =>
    obtain ⟨tail, starts⟩ := destutter'_eq_cons first rest
    have whole : (first :: rest).destutter (fun one two => one.id ≠ two.id) = first :: tail :=
      starts
    unfold answers
    rw [if_neg (Option.some_ne_none first.id).symm, answers_some, starts, whole, List.tail_cons]
    cases batch.kSearch with
    | zero => rfl
    | succ kSearch => rfl

/-! ### The result of a batch -/

/-- Before the loop a query is where `do_beam_search` starts. -/
theorem follows_start {fuel : Nat} (before : Nat → CoroDataOne Distance)
    (searched : (batch.alone v).doBeamSearch fuel = some last) :
    ∃ final left, last.fullRetset = sortPool final.fullRetset ∧
      (batch.alone v).Follows final left ((batch.start before).data v) := by
  obtain ⟨final, looped, rfl⟩ := Option.map_eq_some_iff.mp searched
  cases fuel with
  | zero => cases looped
  | succ left => exact ⟨final, left, rfl, BeamQuery.follows_issue rfl looped⟩

/-- A query stays on the way of `do_beam_search`, whatever order the reads complete in. -/
theorem follows_after (polls : Polls) (rounds : Nat)
    (starts : (batch.alone v).Follows last left ((batch.start before).data v)) :
    ∃ fewer, (batch.alone v).Follows last fewer ((batch.after polls before rounds).data v) := by
  induction rounds with
  | zero => exact ⟨left, starts⟩
  | succ rounds inductionHypothesis =>
    rw [after_add rounds 1]
    exact foldl_visit (fun coro => ∃ fewer, (batch.alone v).Follows last fewer coro)
      (fun _ _ follows => follows_visit follows) _ _ inductionHypothesis

/-- A query that has ended has found what `do_beam_search` has found. -/
theorem found_of_ended {coro : CoroDataOne Distance}
    (follows : (batch.alone v).Follows last left coro) (ended : coro.searchEnds = true) :
    coro.fullRetset = last.fullRetset := by
  rcases follows with ⟨-, found⟩ | ⟨state, waits, -⟩
  · exact found
  · rw [waits.not_searchEnds] at ended
    cases ended

theorem coroSearch_eq (polls : Polls) (before : Nat → CoroDataOne Distance) (fuel : Nat)
    (few : batch.number ≤ 8) (raw : batch.dataIsNormalized = false) :
    batch.coroSearch polls before fuel =
      (batch.loop polls fuel (batch.start before)).map fun final =>
        (List.range batch.number).map fun v =>
          batch.answers none 0 (sortPool (final.data v).fullRetset) := by
  unfold coroSearch
  rw [if_neg (Nat.not_lt.mpr few), raw, if_neg Bool.false_ne_true]

/-- When the queries end alone and the reads complete, the batch ends. -/
theorem exists_coroSearch (few : batch.number ≤ 8) (raw : batch.dataIsNormalized = false)
    (returns : ∀ v < batch.number, ∃ fuel last, (batch.alone v).doBeamSearch fuel = some last)
    (complete : batch.ReadsComplete polls before) :
    ∃ fuel found, batch.coroSearch polls before fuel = some found := by
  have ends : ∀ v < batch.number,
      ∃ rounds, ((batch.after polls before rounds).data v).searchEnds = true := by
    intro v inside
    obtain ⟨fuel, last, searched⟩ := returns v inside
    obtain ⟨final, left, -, starts⟩ := follows_start before searched
    have begun : (batch.alone v).Follows final left ((batch.after polls before 0).data v) := starts
    exact ends_of_follows complete inside begun
  obtain ⟨rounds, ended⟩ := exists_all_ended batch.number ends
  obtain ⟨final, looped⟩ := Option.isSome_iff_exists.mp (loop_isSome ended)
  exact ⟨rounds + 1, _, (coroSearch_eq polls before (rounds + 1) few raw).trans
    (congrArg (Option.map _) looped)⟩

/-- So a batch ends whose queries start from nodes of the graph. -/
theorem coroSearch_returns (few : batch.number ≤ 8) (raw : batch.dataIsNormalized = false)
    (inside : ∀ v < batch.number, ∀ id ∈ (batch.alone v).entryIds, id ∈ batch.graph.nodes)
    (complete : batch.ReadsComplete polls before) :
    ∃ fuel found, batch.coroSearch polls before fuel = some found :=
  exists_coroSearch few raw
    (fun v there => (batch.alone v).doBeamSearch_returns (inside v there)) complete

/-- A batch that ends has the answers of its queries searched alone. -/
theorem getElem?_coroSearch {found : List (List (Neighbor Distance))} {fuel : Nat}
    (few : batch.number ≤ 8) (raw : batch.dataIsNormalized = false)
    (together : batch.coroSearch polls before fuel = some found) (inside : v < batch.number)
    {alone : Nat} (searched : (batch.alone v).doBeamSearch alone = some last) :
    found[v]? =
      some ((last.fullRetset.destutter fun one two => one.id ≠ two.id).take batch.kSearch) := by
  rw [coroSearch_eq polls before fuel few raw] at together
  obtain ⟨result, looped, rfl⟩ := Option.map_eq_some_iff.mp together
  obtain ⟨rounds, rfl, ended⟩ := loop_result looped
  obtain ⟨final, left, sorted, starts⟩ := follows_start before searched
  obtain ⟨fewer, follows⟩ := follows_after polls rounds starts
  have same : ((batch.after polls before rounds).data v).fullRetset = final.fullRetset :=
    found_of_ended follows (ended v inside)
  rw [List.getElem?_map, List.getElem?_range inside, Option.map_some, answers_none, sorted, ← same]
  rfl

/-- A batch on an index whose data are not normalized: when the queries end alone and the reads
complete it ends, and in whatever order they complete, a query gets the sorted answers of
`do_beam_search`, without an answer that has the id of the one before it, up to `k_search`. -/
theorem coroSearch_eq_doBeamSearch (batch : CoroBatch Distance)
    (before : Nat → CoroDataOne Distance) (polls : Polls) (few : batch.number ≤ 8)
    (raw : batch.dataIsNormalized = false) :
    ((∀ v < batch.number, ∃ fuel last, (batch.alone v).doBeamSearch fuel = some last) →
      batch.ReadsComplete polls before →
        ∃ fuel found, batch.coroSearch polls before fuel = some found) ∧
    ∀ fuel found, batch.coroSearch polls before fuel = some found →
      found.length = batch.number ∧ ∀ v < batch.number, ∀ alone last,
        (batch.alone v).doBeamSearch alone = some last → found[v]? =
          some ((last.fullRetset.destutter fun one two => one.id ≠ two.id).take batch.kSearch) := by
  refine ⟨exists_coroSearch few raw, fun fuel found together => ⟨?_, ?_⟩⟩
  · rw [coroSearch_eq polls before fuel few raw] at together
    obtain ⟨result, -, rfl⟩ := Option.map_eq_some_iff.mp together
    rw [List.length_map, List.length_range]
  · intro v inside alone last searched
    exact getElem?_coroSearch few raw together inside searched

/-- Polls that find every read again and again. -/
def everyRead : Polls := fun t => some (Nat.unpair t).2.unpair

theorem readsComplete_everyRead (batch : CoroBatch Distance)
    (before : Nat → CoroDataOne Distance) : batch.ReadsComplete everyRead before := by
  intro rounds v _ _ place _ _
  refine ⟨Nat.pair (batch.after everyRead before rounds).polled (Nat.pair v place),
    Nat.left_le_pair _ _, ?_⟩
  unfold everyRead
  rw [Nat.unpair_pair, Nat.unpair_pair]

/-- What no search has used before. -/
def unused : CoroDataOne Nat where
  retset := []
  visited := ∅
  k := 0
  fullRetset := []
  frontier := []
  sectors _ := ⟨[], 0⟩
  finished := []

/-- Two queries on four nodes in a ring, the second one with the opposite order of distances. -/
def twoQueries : CoroBatch Nat where
  graph := BeamQuery.ring.graph
  medoid := 0
  dataIsNormalized := false
  queries v :=
    { pqDist := fun id => if v = 0 then id else 3 - id
      exactDist := fun id => if v = 0 then id else 3 - id
      memTags := [] }
  number := 2
  kSearch := 2
  lSearch := 2
  beamWidth := 2

/-- The two queries are answered, and as they are alone. -/
theorem coroSearch_twoQueries :
    ∃ fuel found, twoQueries.coroSearch everyRead (fun _ => unused) fuel = some found ∧
      found.length = 2 ∧ ∀ v < 2, ∀ alone last,
        (twoQueries.alone v).doBeamSearch alone = some last → found[v]? =
          some ((last.fullRetset.destutter fun one two => one.id ≠ two.id).take 2) := by
  obtain ⟨ends, equal⟩ :=
    coroSearch_eq_doBeamSearch twoQueries (fun _ => unused) everyRead (by decide) rfl
  have inside : ∀ v < 2, ∀ id ∈ (twoQueries.alone v).entryIds, id ∈ twoQueries.graph.nodes := by
    decide
  obtain ⟨fuel, found, together⟩ := ends
    (fun v there => (twoQueries.alone v).doBeamSearch_returns (inside v there))
    (readsComplete_everyRead twoQueries fun _ => unused)
  exact ⟨fuel, found, together, equal fuel found together⟩

/-- A query whose memory index has given less than it was asked for: the tags are zeroes. -/
def zeroTags : CoroBatch Nat where
  graph := BeamQuery.ring.graph
  medoid := 0
  dataIsNormalized := false
  queries _ := { pqDist := id, exactDist := id, memTags := [0, 0] }
  number := 1
  kSearch := 2
  lSearch := 2
  beamWidth := 2

/-- Normalized data end the process, and a node that was started from twice is answered once. -/
theorem coroSearch_ne_doBeamSearch :
    ((∀ fuel, { twoQueries with dataIsNormalized := true }.coroSearch everyRead
        (fun _ => unused) fuel = none) ∧
      (({ twoQueries with dataIsNormalized := true }.alone 0).doBeamSearch 9).isSome = true) ∧
    (zeroTags.coroSearch (fun t => some (0, t % 2)) (fun _ => unused) 9).map
        (fun found => found.map (List.map Neighbor.id)) = some [[0]] ∧
      ((zeroTags.alone 0).doBeamSearch 9).map
        (fun last => (last.fullRetset.take 2).map Neighbor.id) = some [0, 0] := by
  refine ⟨⟨fun fuel => rfl, ?_⟩, ?_, ?_⟩ <;> decide

end CoroBatch

end OdinVector
