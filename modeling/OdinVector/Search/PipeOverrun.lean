/-
This file shows that `pipe_search` can expand a node from the page of another one. In a chain
of nodes, each nearer than the one before, every turn of the main loop reads one node and
expands one, while a far node that was read early waits. After as many turns as the ring has
slots, the slot of that node has another page.
-/

import OdinVector.Search.PipeBuffers

namespace OdinVector

namespace PipeQuery

open PipeState

/-! ### One read in flight -/

section

variable {Distance : Type} [LinearOrder Distance]
variable {query : PipeQuery Distance} {state : PipeState Distance}

omit [LinearOrder Distance] in
/-- The first entry of the list is sent. -/
theorem sendBestReadReq_head {entry : PipeEntry Distance} {rest : List (PipeEntry Distance)}
    (retset : state.retset = entry :: rest) (flag : entry.flag = true)
    (unread : state.isRead entry.id = false) :
    state.sendBestReadReq 1 = { state.sendReadReq entry with
      retset := { entry with flag := false } :: rest } := by
  have unsent : ¬ (entry.flag = false ∨ state.isRead entry.id = true) := by
    rw [flag, unread]
    decide
  have ended : sendFrom 0 rest (state.sendReadReq entry) = (rest, state.sendReadReq entry) := by
    cases rest with
    | nil => rfl
    | cons other rest => exact if_pos rfl
  unfold PipeState.sendBestReadReq
  rw [retset, sendFrom, if_neg Nat.one_ne_zero, if_neg unsent, Nat.sub_self, ended]

/-- The only read that is in flight completes. -/
theorem pollAll_single {io : PipeIo Distance} (queue : state.onFlightIos = [io])
    (device : state.device = [(io.id, io.slot)]) :
    (state.readerPoll [io.id]).pollAll.1 = { state.readerPoll [io.id] with
      onFlightIos := []
      device := []
      idBufMap := insertBuf state.idBufMap io
      unlocked := state.unlocked ++ [io.id] } := by
  have inFlight : (state.readerPoll [io.id]).onFlightIos = [io] := queue
  have complete : (state.readerPoll [io.id]).device = [] := by
    show state.device.filter _ = []
    rw [device]
    refine List.filter_eq_nil_iff.mpr fun read member => ?_
    rw [List.mem_singleton.mp member]
    exact fun other => of_decide_eq_true other (List.mem_singleton_self _)
  have finished : (state.readerPoll [io.id]).finished io = true := by
    have seen : ∃ read ∈ state.device, read.1 ∈ [io.id] ∧ read.2 = io.slot := by
      rw [device]
      exact ⟨_, List.mem_singleton_self _, List.mem_singleton_self _, rfl⟩
    have request : (state.readerPoll [io.id]).reqs io.slot =
        { state.reqs io.slot with finished := true } := if_pos seen
    unfold PipeState.finished
    rw [request]
  unfold PipeState.pollAll
  rw [inFlight, List.takeWhile_cons_of_pos finished, List.dropWhile_cons_of_pos finished,
    complete]
  rfl

omit [LinearOrder Distance] in
/-- Only the counters change. -/
theorem tune_eq (query : PipeQuery Distance) (nIn nOut : Nat)
    (state : PipeState Distance) :
    query.tune nIn nOut state = { state with
      curBeamWidth := (query.tune nIn nOut state).curBeamWidth
      curNIn := (query.tune nIn nOut state).curNIn
      curTot := (query.tune nIn nOut state).curTot } := by
  unfold tune
  split <;> rfl

/-- The only read that is in flight completes, and the first entry of the list is sent. -/
theorem poll_single {io : PipeIo Distance} {entry : PipeEntry Distance}
    {rest : List (PipeEntry Distance)} (paced : query.Paced state) (wide : 0 < query.beamWidth)
    (queue : state.onFlightIos = [io]) (device : state.device = [(io.id, io.slot)])
    (retset : state.retset = entry :: rest) (flag : entry.flag = true)
    (unread : state.isRead entry.id = false) (different : entry.id ≠ io.id) :
    (query.poll [io.id] state).retset = { entry with flag := false } :: rest ∧
      (query.poll [io.id] state).unlocked = state.unlocked ++ [io.id] ∧
      (query.poll [io.id] state).locked = state.locked ++ [entry.id] ∧
      ∃ sent, (query.poll [io.id] state).onFlightIos = [sent] ∧
        (query.poll [io.id] state).device = [(entry.id, sent.slot)] ∧ sent.id = entry.id := by
  have polled := pollAll_single queue device
  have tuned := (paced.pollAll [io.id]).tune (state.readerPoll [io.id]).pollAll.2.1
    (state.readerPoll [io.id]).pollAll.2.2
  have fields := tune_eq query (state.readerPoll [io.id]).pollAll.2.1
    (state.readerPoll [io.id]).pollAll.2.2 (state.readerPoll [io.id]).pollAll.1
  unfold poll
  dsimp only
  generalize query.tune (state.readerPoll [io.id]).pollAll.2.1
    (state.readerPoll [io.id]).pollAll.2.2 (state.readerPoll [io.id]).pollAll.1 = next
    at tuned fields ⊢
  rw [polled] at fields
  have atLeast := tuned.atLeast
  have idle : next.onFlightIos = [] := by
    rw [fields]
  have room : next.onFlightIos.length < next.curBeamWidth := by
    rw [idle, List.length_nil]
    omega
  have first : next.retset = entry :: rest := by
    rw [fields]
    exact retset
  have stillUnread : next.isRead entry.id = false := by
    have buffers : next.idBufMap = insertBuf state.idBufMap io := by
      rw [fields]
    unfold PipeState.isRead
    rw [buffers]
    refine Bool.eq_false_of_not_eq_true fun read => ?_
    obtain before | same := (isSome_lookup_insertBuf _ _ _).mp read
    · exact Bool.false_ne_true (unread.symm.trans before)
    · exact different same
  rw [if_pos room, sendBestReadReq_head first flag stillUnread]
  refine ⟨rfl, ?_, ?_, ⟨entry.id, entry.distance, next.sectorIdx⟩, ?_, ?_, rfl⟩
  · show next.unlocked = _
    rw [fields]
  · show next.locked ++ [entry.id] = _
    rw [fields]
    rfl
  · show next.onFlightIos ++ [_] = _
    rw [idle]
    rfl
  · show next.device ++ [_] = _
    have none : next.device = [] := by
      rw [fields]
    rw [none]
    rfl

/-- The only neighbour is new. -/
theorem computeAndPushNbrs_single (state : PipeState Distance) {nbr : Nat}
    (new : nbr ∉ state.visited) :
    query.computeAndPushNbrs [nbr] state =
      query.pushNbr { state with visited := insert nbr state.visited } nbr := by
  have fresh : [nbr].foldl Retset.freshNbr ([], state.visited) = ([nbr], insert nbr state.visited) :=
    if_neg new
  unfold computeAndPushNbrs
  rw [fresh]
  rfl

/-- A neighbour that is nearer than all entries goes in front of them. -/
theorem offer_front {first nn : PipeEntry Distance} {rest : List (PipeEntry Distance)}
    {lSearch : Nat} (short : (first :: rest).length < lSearch)
    (near : nn.distance < first.distance) (nk : Nat) :
    (Retset.offer PipeEntry.toPoolEntry lSearch (first :: rest) nk nn).1 =
      nn :: first :: rest := by
  have place : Retset.insertPlace PipeEntry.toPoolEntry (first :: rest) nn = 0 := by
    have nearest : nn.distance <
        (Retset.addr PipeEntry.toPoolEntry (first :: rest) nn 0).distance := near
    unfold Retset.insertPlace Pool.insertIntoPool
    rw [if_pos nearest]
  unfold Retset.offer
  rw [if_neg fun full => short.ne full.2, place]
  dsimp only
  rw [if_pos (Nat.zero_le _), if_pos short]
  exact List.take_of_length_le (NearestList.length_insertAt _ _ _).le

end

/-! ### The chain -/

/-- A medoid, a far node, and two chains that lead nearer and nearer to the query. -/
def chain : PipeQuery Nat where
  disk id := ⟨id, if id = 0 then [1, 2, 3] else if id = 1 ∨ 600 < id + 2 then [] else [id + 2]⟩
  pqDist id := if id = 0 then 2000 else if id = 1 then 1500 else if id = 3 then 999 else 1000 - id
  medoid := 0
  memTags := []
  memDist := id
  lSearch := 600
  beamWidth := 4

/-- A node of the chains that is not expanded. -/
def link (id : Nat) (flag : Bool) : PipeEntry Nat where
  id := id
  distance := chain.pqDist id
  flag := flag
  visited := false

/-- After the node before `n` was expanded, `n` is in flight and the next node is not sent. The
far node waits. -/
structure Chained (n : Nat) (state : PipeState Nat) : Prop where
  reachable : chain.search.Reachable Transition.anyStep state
  retset : ∃ rest, state.retset = link (n + 1) true :: link n false :: rest ∧
    (∃ entry ∈ rest, entry.id = 1 ∧ entry.visited = false) ∧
      ∀ entry ∈ rest, entry.visited = false → entry.id = 1
  inFlight : ∃ io, state.onFlightIos = [io] ∧ state.device = [(n, io.slot)] ∧ io.id = n
  bounded : ∀ id ∈ state.visited, id ≤ n + 1
  length : state.locked.length = n + 1
  early : state.unlocked[3]? = some 1

/-- The state before the main loop in `chain`. -/
def chainStart : PipeState Nat :=
  chain.start.get (by decide +kernel)

/-- The turns of the search in `chain` up to the expansion of the first chained nodes. -/
def chainTurns : List (PipeTurn Nat) :=
  [[0], [], [], [], [1, 2, 3], []].map fun completes => ⟨completes, ⟨0, []⟩⟩

theorem chained_start : Chained 4 (chain.search.after chainStart chainTurns) where
  reachable := .after (.initial (Option.some_get _).symm) Transition.System.along_anyStep
  retset := ⟨_, rfl, by decide +kernel, by decide +kernel⟩
  inFlight := ⟨_, rfl, rfl, rfl⟩
  bounded := by decide +kernel
  length := by decide +kernel
  early := by decide +kernel

variable {n : Nat} {state : PipeState Nat}

/-- The distances in the chains. -/
theorem pqDist_lt {first second : Nat} (inside : 4 ≤ second) (before : second < first)
    (short : first ≤ 600) : chain.pqDist first < chain.pqDist second := by
  show (if first = 0 then 2000 else if first = 1 then 1500 else if first = 3 then 999
    else 1000 - first) < if second = 0 then 2000 else if second = 1 then 1500
      else if second = 3 then 999 else 1000 - second
  rw [if_neg (by omega), if_neg (by omega), if_neg (by omega), if_neg (by omega),
    if_neg (by omega), if_neg (by omega)]
  omega

theorem nbrs_chain (inside : 4 ≤ n) (short : n + 2 ≤ 600) : (chain.disk n).nbrs = [n + 2] := by
  show (if n = 0 then [1, 2, 3] else if n = 1 ∨ 600 < n + 2 then [] else [n + 2]) = [n + 2]
  rw [if_neg (by omega), if_neg (by omega)]

/-- The node that was in flight is taken, and its neighbour goes to the front. -/
theorem calcBestNode_chain {rest : List (PipeEntry Nat)} (inside : 4 ≤ n) (short : n + 2 ≤ 600)
    (list : state.retset = link (n + 1) false :: link n false :: rest)
    (few : state.retset.length < 600) (unread : state.isRead (n + 1) = false)
    (isRead : state.isRead n = true) (bounded : ∀ id ∈ state.visited, id ≤ n + 1) :
    (chain.calcBestNode (chain.disk n) state).1 = { state with
      retset := link (n + 2) true :: link (n + 1) false ::
        { link n false with visited := true } :: rest
      visited := insert (n + 2) state.visited
      fullRetset := state.fullRetset ++ [⟨n, (chain.disk n).exactDist⟩] } := by
  have taken : takeBest state.isRead state.retset =
      some (n, link (n + 1) false :: { link n false with visited := true } :: rest) := by
    have skipped : ¬ ((link (n + 1) false).visited = false ∧
        state.isRead (link (n + 1) false).id = true) := fun both =>
      Bool.false_ne_true (unread.symm.trans both.2)
    rw [list, takeBest, if_neg skipped, takeBest, if_pos ⟨rfl, isRead⟩, Option.map_some]
    rfl
  have record : chain.bufRecord (chain.disk n) state n = chain.disk n := ite_self _
  have new : n + 2 ∉ state.visited := fun old => by
    have low := bounded (n + 2) old
    omega
  have nearer : (chain.entry (n + 2)).distance < (link (n + 1) false).distance :=
    pqDist_lt (by omega) (Nat.lt_succ_self (n + 1)) short
  have room : (link (n + 1) false :: { link n false with visited := true } :: rest).length <
      chain.lSearch := by
    rw [list] at few
    exact few
  have front := offer_front room nearer
    (link (n + 1) false :: { link n false with visited := true } :: rest).length
  obtain ⟨-, none⟩ | ⟨id, marked, found, next⟩ := chain.calcBestNode_cases (chain.disk n) state
  · exact absurd (none.symm.trans taken) nofun
  · obtain ⟨rfl, rfl⟩ := Prod.mk.inj (Option.some.inj (found.symm.trans taken))
    rw [next, record, expand, nbrs_chain inside short]
    refine Eq.trans (computeAndPushNbrs_single _ ?_) ?_
    · exact new
    · unfold pushNbr
      dsimp only
      rw [front]
      rfl

/-- The next turn: the node in flight is expanded, the next one is sent, and one more is found. -/
theorem Chained.turn (chained : Chained n state) (inside : 4 ≤ n) (short : n + 2 ≤ 598) :
    Chained (n + 1) (chain.turn ⟨[n], chain.disk n⟩ state) := by
  obtain ⟨rest, retset, ⟨far, there, its, closed⟩, others⟩ := chained.retset
  obtain ⟨io, queue, device, rfl⟩ := chained.inFlight
  have distinct : chain.entryIds.Nodup := by decide
  have before := chain.piping distinct (by decide) chained.reachable
  have polling := before.poll [io.id]
  have unsent : io.id + 1 ∉ state.locked := by
    refine (before.reading.flagged (link (io.id + 1) true) ?_).mp rfl
    rw [retset]
    exact List.mem_cons_self
  have unread : state.isRead (link (io.id + 1) true).id = false := by
    refine Bool.eq_false_of_not_eq_true fun read => ?_
    exact unsent (before.reading.unlocked_subset ((before.reading.read _).mp read))
  obtain ⟨list, unlocked, locked, sent, flying, onDevice, sentId⟩ := poll_single
    (paced chained.reachable) (by decide) queue device retset rfl unread (Nat.succ_ne_self _)
  have seen : (chain.poll [io.id] state).visited = state.visited :=
    (keeps_poll chain [io.id] state).visited
  have going : ¬ state.Ended := by
    intro ended
    rw [PipeState.Ended, retset] at ended
    have opened := ended far (List.mem_cons_of_mem _ (List.mem_cons_of_mem _ there))
    exact Bool.false_ne_true (closed.symm.trans opened)
  have step : chain.search.step state ⟨[io.id], chain.disk io.id⟩ =
      some (chain.turn ⟨[io.id], chain.disk io.id⟩ state) := if_neg going
  have few : (chain.poll [io.id] state).retset.length < 600 := by
    have length := polling.nearest.nearest.length
    have low : (chain.poll [io.id] state).visited \ ([] : List Nat).toFinset ⊆
        Finset.range (io.id + 2) := by
      intro id member
      have old := (Finset.mem_sdiff.mp member).1
      rw [seen] at old
      exact Finset.mem_range.mpr (Nat.lt_succ_of_le (chained.bounded id old))
    have card := Finset.card_le_card low
    rw [Finset.card_range] at card
    rw [Retset.ids, List.length_map] at length
    omega
  have next := calcBestNode_chain inside (by omega) list few (by
      refine Bool.eq_false_of_not_eq_true fun read => ?_
      have old := (polling.reading.read _).mp read
      rw [unlocked] at old
      obtain earlier | now := List.mem_append.mp old
      · exact unsent (before.reading.unlocked_subset earlier)
      · exact Nat.succ_ne_self _ (List.mem_singleton.mp now))
    ((polling.reading.read _).mpr (by
      rw [unlocked]
      exact List.mem_append_right _ (List.mem_singleton_self _)))
    (by rw [seen]; exact chained.bounded)
  have reachable := chained.reachable.step trivial step
  unfold PipeQuery.turn at reachable ⊢
  dsimp only at reachable ⊢
  rw [next] at reachable ⊢
  refine ⟨reachable, ⟨_, rfl, ⟨far, List.mem_cons_of_mem _ there, its, closed⟩, ?_⟩,
    ⟨sent, flying, onDevice, sentId⟩, ?_, ?_, ?_⟩
  · intro entry member unvisited
    obtain rfl | old := List.mem_cons.mp member
    · exact absurd unvisited.symm Bool.false_ne_true
    · exact others entry old unvisited
  · intro id member
    obtain rfl | old := Finset.mem_insert.mp member
    · exact le_rfl
    · rw [seen] at old
      exact (chained.bounded id old).trans (Nat.le_succ _)
  · show (chain.poll [io.id] state).locked.length = _
    rw [locked, List.length_append, chained.length]
    rfl
  · show (chain.poll [io.id] state).unlocked[3]? = some 1
    obtain ⟨place, -⟩ := List.getElem?_eq_some_iff.mp chained.early
    rw [unlocked, List.getElem?_append_left place]
    exact chained.early

theorem exists_chained (count : Nat) (short : count ≤ 590) :
    ∃ state, Chained (4 + count) state := by
  induction count with
  | zero => exact ⟨_, chained_start⟩
  | succ count inductionHypothesis =>
    obtain ⟨state, chained⟩ := inductionHypothesis (Nat.le_of_succ_le short)
    exact ⟨_, chained.turn (Nat.le_add_right 4 count) (by omega)⟩

/-- When nothing completes in a turn, the far node is taken. -/
theorem Chained.takes_far (chained : Chained n state) (inside : 4 ≤ n) :
    ∃ marked, takeBest (chain.poll [] state).isRead (chain.poll [] state).retset =
      some (1, marked) := by
  obtain ⟨rest, retset, ⟨far, there, its, closed⟩, others⟩ := chained.retset
  obtain ⟨io, queue, device, rfl⟩ := chained.inFlight
  have before := (chain.piping (by decide) (by decide) chained.reachable).reading
  have polled : Reading [] (chain.poll [] state) := before.poll []
  have keeps := keeps_poll chain [] state
  have unlocked : (chain.poll [] state).unlocked = state.unlocked := by
    have waiting : (state.readerPoll []).finished io ≠ true := by
      intro finished
      have old : (state.readerPoll []).reqs io.slot = state.reqs io.slot := by
        refine if_neg ?_
        rintro ⟨read, -, complete, -⟩
        exact List.not_mem_nil complete
      unfold PipeState.finished at finished
      rw [old] at finished
      refine (ringed chained.reachable).waiting io ?_ finished ?_
      · rw [queue]
        exact List.mem_singleton_self _
      · rw [device]
        exact List.mem_singleton_self _
    rw [(advances_poll chain [] state).unlocked, queue,
      List.takeWhile_cons_of_neg waiting, List.map_nil, List.append_nil]
  have farRead : (chain.poll [] state).isRead 1 = true := by
    rw [polled.read, unlocked]
    exact List.mem_of_getElem? chained.early
  cases taken : takeBest (chain.poll [] state).isRead (chain.poll [] state).retset with
  | none =>
    have member : unflagged far ∈ (chain.poll [] state).retset.map unflagged := by
      rw [keeps.retset, retset]
      exact List.mem_map_of_mem (List.mem_cons_of_mem _ (List.mem_cons_of_mem _ there))
    obtain ⟨entry, inList, same⟩ := List.mem_map.mp member
    obtain ⟨neighbor, visited⟩ := Prod.mk.inj same
    have unread := takeBest_eq_none taken entry inList (visited.trans closed)
    have id : entry.id = 1 := (congrArg Neighbor.id neighbor).trans its
    rw [id] at unread
    exact absurd (unread.symm.trans farRead) Bool.false_ne_true
  | some best =>
    obtain ⟨first, entry, behind, list, -, id, unvisited, isRead, -⟩ :=
      @takeBest_eq_some Nat _ _ best.2 best.1 taken
    obtain ⟨front, old, later, split, oldId, oldVisited, -⟩ := keeps.split list
    have inList : old ∈ state.retset := by
      rw [split]
      exact List.mem_append_right _ List.mem_cons_self
    have inUnlocked : old.id ∈ state.unlocked := by
      rw [oldId, id, ← unlocked]
      exact (polled.read _).mp isRead
    have far : old.id = 1 := by
      rw [retset] at inList
      obtain rfl | later := List.mem_cons.mp inList
      · have unsent := (before.flagged (link (io.id + 1) true) (by
          rw [retset]
          exact List.mem_cons_self)).mp rfl
        exact absurd (before.unlocked_subset inUnlocked) unsent
      · obtain rfl | behind := List.mem_cons.mp later
        · -- The read in flight is not handed on twice.
          have once := before.once
          rw [before.locked, queue] at once
          exact absurd rfl ((List.nodup_append.mp once).2.2 _ inUnlocked _
            (List.mem_singleton_self io.id))
        · exact others old behind (oldVisited.trans unvisited)
    refine ⟨best.2, ?_⟩
    have one : best.1 = 1 := id.symm.trans (oldId.symm.trans far)
    rw [← one]

/-- The far node of the chain can be expanded from the page of another node. -/
theorem not_takesIntact_chain : ¬ ∀ (state : PipeState Nat) (turn : PipeTurn Nat),
    chain.search.Reachable Transition.anyStep state → chain.TakesIntact state turn := by
  intro always
  obtain ⟨state, chained⟩ := exists_chained 511 (by decide)
  obtain ⟨marked, taken⟩ := chained.takes_far (by decide)
  have before := (chain.piping (by decide) (by decide) chained.reachable).reading
  have slots := (ringed chained.reachable).poll (paced chained.reachable)
    (narrow chained.reachable) []
  have advances := advances_poll chain [] state
  have there : (chain.poll [] state).unlocked[3]? = some 1 := by
    obtain ⟨inside, -⟩ := List.getElem?_eq_some_iff.mp chained.early
    rw [advances.unlocked, List.getElem?_append_left inside]
    exact chained.early
  have intact := always state ⟨[], chain.disk 0⟩ chained.reachable (1, marked) taken
  have few := (slots.intact_iff (before.poll []) there).mp intact
  obtain ⟨sent, -, locked⟩ := advances.locked
  rw [locked, List.length_append, chained.length] at few
  have size : maxNSectorReads = 512 := rfl
  omega

end PipeQuery

end OdinVector
