/-
This file proves that `pipe_search` is not stuck before its end and that it ends at a fixed
point, when the pages that are read stay intact until their nodes are expanded.
-/

import OdinVector.Search.PipeList

namespace OdinVector

variable {Distance : Type} [LinearOrder Distance]

namespace PipeQuery

open PipeState

variable {query : PipeQuery Distance} {left : List Nat} {state : PipeState Distance}

/-! ### How many reads are in flight -/

/-- The bounds of the reads that may be in flight, and of those that are. -/
structure Paced (query : PipeQuery Distance) (state : PipeState Distance) : Prop where
  atLeast : min 4 query.beamWidth ≤ state.curBeamWidth
  atMost : state.curBeamWidth ≤ max 4 query.beamWidth
  inFlight : state.onFlightIos.length ≤ max 4 query.beamWidth

omit [LinearOrder Distance] in
/-- At most `n` reads are sent. -/
theorem sendFrom_items (n : Nat) (rest : List (PipeEntry Distance)) (state : PipeState Distance) :
    ∃ items : List (PipeEntry Distance), items.length ≤ n ∧
      (sendFrom n rest state).2 = items.foldl sendReadReq state := by
  induction rest generalizing n state with
  | nil => exact ⟨[], Nat.zero_le n, rfl⟩
  | cons entry rest inductionHypothesis =>
    unfold PipeState.sendFrom
    split
    · exact ⟨[], Nat.zero_le n, rfl⟩
    · rename_i more
      split
      · exact inductionHypothesis n state
      · obtain ⟨items, few, sent⟩ := inductionHypothesis (n - 1) (state.sendReadReq entry)
        refine ⟨entry :: items, ?_, sent⟩
        rw [List.length_cons]
        omega

omit [LinearOrder Distance] in
theorem sends_inFlight (items : List (PipeEntry Distance)) (state : PipeState Distance) :
    (items.foldl sendReadReq state).curBeamWidth = state.curBeamWidth ∧
      (items.foldl sendReadReq state).onFlightIos.length =
        state.onFlightIos.length + items.length := by
  induction items generalizing state with
  | nil => exact ⟨rfl, rfl⟩
  | cons item items inductionHypothesis =>
    obtain ⟨width, length⟩ := inductionHypothesis (state.sendReadReq item)
    refine ⟨width, length.trans ?_⟩
    show (state.onFlightIos ++ [_]).length + items.length = _
    rw [List.length_append, List.length_singleton, List.length_cons]
    omega

omit [LinearOrder Distance] in
theorem sendBestReadReq_inFlight (n : Nat) (state : PipeState Distance) :
    (state.sendBestReadReq n).curBeamWidth = state.curBeamWidth ∧
      (state.sendBestReadReq n).onFlightIos.length ≤ state.onFlightIos.length + n := by
  obtain ⟨items, few, sent⟩ := sendFrom_items n state.retset state
  obtain ⟨width, length⟩ := sends_inFlight items state
  unfold PipeState.sendBestReadReq
  dsimp only
  rw [sent]
  exact ⟨width, by omega⟩

omit [LinearOrder Distance] in
theorem Paced.tune (paced : query.Paced state) (nIn nOut : Nat) :
    query.Paced (query.tune nIn nOut state) := by
  obtain ⟨atLeast, atMost, inFlight⟩ := paced
  unfold PipeQuery.tune
  split
  · refine ⟨?_, ?_, inFlight⟩
    · dsimp only
      split <;> omega
    · dsimp only
      split <;> omega
  · exact ⟨atLeast, atMost, inFlight⟩

theorem Paced.pollAll (paced : query.Paced state) (completes : List Nat) :
    query.Paced (state.readerPoll completes).pollAll.1 :=
  ⟨paced.atLeast, paced.atMost, (List.dropWhile_sublist _).length_le.trans paced.inFlight⟩

theorem Paced.poll (paced : query.Paced state) (completes : List Nat) :
    query.Paced (query.poll completes state) := by
  have tuned := (paced.pollAll completes).tune
    (state.readerPoll completes).pollAll.2.1 (state.readerPoll completes).pollAll.2.2
  unfold PipeQuery.poll
  dsimp only
  split
  · rename_i room
    obtain ⟨width, inFlight⟩ := sendBestReadReq_inFlight 1
      (query.tune (state.readerPoll completes).pollAll.2.1
        (state.readerPoll completes).pollAll.2.2 (state.readerPoll completes).pollAll.1)
    refine ⟨width ▸ tuned.atLeast, width ▸ tuned.atMost, inFlight.trans ?_⟩
    exact (Nat.succ_le_of_lt room).trans tuned.atMost
  · exact tuned

/-- Neighbours that are offered change nothing but the list. -/
theorem pushNbrs_eq (nbrs : List Nat) (state : PipeState Distance) :
    nbrs.foldl query.pushNbr state =
      { state with retset := (nbrs.foldl query.pushNbr state).retset } := by
  induction nbrs generalizing state with
  | nil => rfl
  | cons nbr nbrs inductionHypothesis => exact inductionHypothesis (query.pushNbr state nbr)

/-- An expansion changes nothing but the list, the nodes that were seen and those that were
expanded. -/
theorem expand_eq (record : NodeRecord Distance) (id : Nat) (marked : List (PipeEntry Distance))
    (state : PipeState Distance) :
    query.expand record id marked state =
      { state with
        retset := (query.expand record id marked state).retset
        visited := (record.nbrs.foldl Retset.freshNbr ([], state.visited)).2
        fullRetset := state.fullRetset ++ [⟨id, record.exactDist⟩] } :=
  pushNbrs_eq _ _

theorem Paced.turn (paced : query.Paced state) (turn : PipeTurn Distance) :
    query.Paced (query.turn turn state) := by
  have polled := paced.poll turn.completes
  obtain ⟨same, -⟩ | ⟨id, marked, -, next⟩ :=
    query.calcBestNode_cases turn.torn (query.poll turn.completes state)
  · unfold PipeQuery.turn
    dsimp only
    rw [same]
    exact ⟨polled.atLeast, polled.atMost, polled.inFlight⟩
  · unfold PipeQuery.turn
    dsimp only
    rw [next, expand_eq]
    exact ⟨polled.atLeast, polled.atMost, polled.inFlight⟩

/-- The state before the main loop, but for the order and the distances of its list. -/
theorem start_eq (begins : query.start = some state) :
    query.beamWidth ≤ maxNSectorReads ∧
      state = { query.begin.sendBestReadReq 4 with retset := state.retset } := by
  unfold start at begins
  split at begins
  · exact absurd begins nofun
  · rename_i narrow
    dsimp only at begins
    split at begins
    · obtain rfl := Option.some.inj begins
      exact ⟨Nat.not_lt.mp narrow, rfl⟩
    · obtain rfl := Option.some.inj begins
      exact ⟨Nat.not_lt.mp narrow, rfl⟩

theorem paced_start (begins : query.start = some state) : query.Paced state := by
  obtain ⟨width, inFlight⟩ := sendBestReadReq_inFlight 4 query.begin
  rw [(start_eq begins).2]
  refine ⟨?_, ?_, inFlight.trans (Nat.le_max_left 4 _)⟩
  · exact (Nat.min_le_left 4 _).trans width.ge
  · exact width.le.trans (Nat.le_max_left 4 _)

theorem paced {guard : PipeState Distance → PipeTurn Distance → Prop}
    (reachable : query.search.Reachable guard state) : query.Paced state :=
  reachable.invariant (fun _ => paced_start) fun _ turn _ before _ taken =>
    search_step taken ▸ before.turn turn

/-! ### The fixed point -/

/-- What a search has found in the end: the nodes that it starts with were seen, the list has the
nearest of the nodes that were seen, each of them was expanded, and the neighbours of the nodes
that were expanded were seen. -/
structure FixedPoint (query : PipeQuery Distance) (last : PipeState Distance) : Prop where
  entered : ∀ id ∈ query.entryIds, id ∈ last.visited
  nearest : Retset.Nearest PipeEntry.toPoolEntry query.pqDist query.lSearch last.visited last.retset
  expanded : ∀ entry ∈ last.retset, entry.id ∈ last.expanded
  closed : ∀ id ∈ last.expanded, ∀ nbr ∈ (query.disk id).nbrs, nbr ∈ last.visited

/-- A turn of the main loop can do something: it can send the read of an entry, or a read is
in flight, or an entry is read and not expanded. -/
def GoesOn (state : PipeState Distance) : Prop :=
  (∃ entry ∈ state.retset, entry.flag = true ∧ state.isRead entry.id = false ∧
      state.onFlightIos.length < state.curBeamWidth) ∨
    state.onFlightIos ≠ [] ∨
      ∃ entry ∈ state.retset, entry.visited = false ∧ state.isRead entry.id = true

/-- The node that is expanded in a turn is read from its own page. -/
def TakesIntact (query : PipeQuery Distance) (state : PipeState Distance)
    (turn : PipeTurn Distance) : Prop :=
  ∀ best ∈ takeBest (query.poll turn.completes state).isRead
      (query.poll turn.completes state).retset,
    (query.poll turn.completes state).Intact best.1

instance (state : PipeState Distance) (turn : PipeTurn Distance) :
    Decidable (query.TakesIntact state turn) :=
  inferInstanceAs (Decidable (∀ best ∈ takeBest (query.poll turn.completes state).isRead
    (query.poll turn.completes state).retset,
      (query.poll turn.completes state).Intact best.1))

/-- Before the end the search is not stuck. -/
theorem Piping.goesOn (piping : query.Piping [] state) (paced : query.Paced state)
    (wide : 0 < query.beamWidth) (going : ¬ state.Ended) : GoesOn state := by
  unfold PipeState.Ended at going
  push Not at going
  obtain ⟨entry, member, closed⟩ := going
  by_cases idle : state.onFlightIos = []
  · cases isRead : state.isRead entry.id with
    | true => exact Or.inr (Or.inr ⟨entry, member, Bool.eq_false_of_not_eq_true closed, isRead⟩)
    | false =>
      have unsent : entry.id ∉ state.locked := by
        rw [piping.reading.locked, idle, List.map_nil, List.append_nil]
        intro unlocked
        exact Bool.false_ne_true (isRead.symm.trans ((piping.reading.read entry.id).mpr unlocked))
      have room : 0 < state.curBeamWidth := by
        have atLeast := paced.atLeast
        omega
      refine Or.inl ⟨entry, member, (piping.reading.flagged entry member).mpr unsent, isRead, ?_⟩
      rw [idle]
      exact room
  · exact Or.inr (Or.inl idle)

/-- The neighbours of the nodes that were expanded were seen. -/
def Closed (query : PipeQuery Distance) (state : PipeState Distance) : Prop :=
  ∀ id ∈ state.expanded, ∀ nbr ∈ (query.disk id).nbrs, nbr ∈ state.visited

theorem Closed.turn (closed : query.Closed state) {turn : PipeTurn Distance}
    (intact : query.TakesIntact state turn) : query.Closed (query.turn turn state) := by
  have keeps := keeps_poll query turn.completes state
  have before : query.Closed (query.poll turn.completes state) := by
    intro id member nbr adjacent
    rw [keeps.visited]
    refine closed id ?_ nbr adjacent
    unfold PipeState.expanded at member ⊢
    rwa [keeps.fullRetset] at member
  obtain ⟨same, -⟩ | ⟨id, marked, taken, next⟩ :=
    query.calcBestNode_cases turn.torn (query.poll turn.completes state)
  · unfold PipeQuery.turn
    dsimp only
    rw [same]
    exact before
  · have record : query.bufRecord turn.torn (query.poll turn.completes state) id =
        query.disk id := if_pos (intact (id, marked) taken)
    unfold PipeQuery.turn
    dsimp only
    rw [next, record, expand_eq]
    intro other member nbr adjacent
    obtain ⟨neighbor, inResults, rfl⟩ := List.mem_map.mp member
    obtain old | last := List.mem_append.mp inResults
    · exact Retset.subset_freshNbrs _ _ (before _ (List.mem_map_of_mem old) nbr adjacent)
    · rw [List.mem_singleton.mp last] at adjacent
      exact Retset.mem_freshNbrs adjacent _

theorem closed (reachable : query.search.Reachable query.TakesIntact state) :
    query.Closed state := by
  refine reachable.invariant (fun first begins => ?_) fun first turn next before intact taken =>
    search_step taken ▸ before.turn intact
  have none : first.fullRetset = [] := by
    rw [(start_eq begins).2]
    exact (keeps_sendBestReadReq 4 query.begin).fullRetset
  intro id member
  unfold PipeState.expanded at member
  rw [none] at member
  exact absurd member List.not_mem_nil

/-- A node that was seen stays one. -/
theorem subset_visited_turn (turn : PipeTurn Distance) :
    state.visited ⊆ (query.turn turn state).visited := by
  have keeps := keeps_poll query turn.completes state
  obtain ⟨same, -⟩ | ⟨id, marked, -, next⟩ :=
    query.calcBestNode_cases turn.torn (query.poll turn.completes state)
  · unfold PipeQuery.turn
    dsimp only
    rw [same, keeps.visited]
  · unfold PipeQuery.turn
    dsimp only
    rw [next, expand_eq, ← keeps.visited]
    exact Retset.subset_freshNbrs _ ([], (query.poll turn.completes state).visited)

/-- The nodes that the search starts with were seen. -/
def Entered (query : PipeQuery Distance) (state : PipeState Distance) : Prop :=
  ∀ id ∈ query.entryIds, id ∈ state.visited

theorem Entered.turn (entered : query.Entered state) (turn : PipeTurn Distance) :
    query.Entered (query.turn turn state) :=
  fun id member => subset_visited_turn turn (entered id member)

theorem entered {guard : PipeState Distance → PipeTurn Distance → Prop}
    (reachable : query.search.Reachable guard state) : query.Entered state := by
  refine reachable.invariant (fun first begins => ?_) fun _ turn _ before _ taken =>
    search_step taken ▸ before.turn turn
  have visited : first.visited = query.entryIds.toFinset := by
    rw [(start_eq begins).2]
    exact (keeps_sendBestReadReq 4 query.begin).visited
  intro id member
  rw [visited]
  exact List.mem_toFinset.mpr member

/-- Whatever the order in which the reads complete, the search is not stuck before its end, it
expands no node twice, and in the end it has reached its fixed point. -/
theorem search_fixedPoint (query : PipeQuery Distance) (distinct : query.entryIds.Nodup)
    (some : 0 < query.lSearch) (wide : 0 < query.beamWidth) {state : PipeState Distance}
    (reachable : query.search.Reachable query.TakesIntact state) :
    (¬ state.Ended → GoesOn state) ∧ state.expanded.Nodup ∧
      (state.Ended → query.FixedPoint state) := by
  have piping := query.piping distinct some reachable
  refine ⟨piping.goesOn (paced reachable) wide, piping.reading.expandedOnce,
    fun ended => ⟨entered reachable, ?_, ?_, closed reachable⟩⟩
  · have nearest := piping.nearest
    rwa [List.toFinset_nil, Finset.sdiff_empty] at nearest
  · exact fun entry member => (piping.reading.opened entry member).mp (ended entry member)

/-- Three nodes in a ring, each nearer than the one before it. -/
def triangle : PipeQuery Nat where
  disk id := ⟨id, [(id + 1) % 3]⟩
  pqDist id := 3 - id
  medoid := 0
  memTags := []
  memDist := id
  lSearch := 2
  beamWidth := 4

/-- The state before the main loop in `triangle`. -/
def triangleStart : PipeState Nat :=
  triangle.start.get (by decide +kernel)

/-- The turns of a search in `triangle`: each read completes in the turn after it was sent. -/
def triangleTurns : List (PipeTurn Nat) :=
  [[0], [], [1], [], [2]].map fun completes => ⟨completes, ⟨0, []⟩⟩

/-- The search of `triangle` is in the middle before its third turn, and in the end it reaches
its fixed point. -/
theorem search_fixedPoint_triangle :
    GoesOn (triangle.search.after triangleStart (triangleTurns.take 2)) ∧
      triangle.FixedPoint (triangle.search.after triangleStart triangleTurns) := by
  have begins : triangle.start = some triangleStart := (Option.some_get _).symm
  have middle : triangle.search.Reachable triangle.TakesIntact
      (triangle.search.after triangleStart (triangleTurns.take 2)) :=
    .after (.initial begins) (by decide +kernel)
  have last : triangle.search.Reachable triangle.TakesIntact
      (triangle.search.after triangleStart triangleTurns) :=
    .after (.initial begins) (by decide +kernel)
  exact ⟨(search_fixedPoint triangle (by decide) (by decide) (by decide) middle).1
      (by decide +kernel),
    (search_fixedPoint triangle (by decide) (by decide) (by decide) last).2.2
      (by decide +kernel)⟩

end PipeQuery

end OdinVector
