/-
This file says when `pipe_search` expands its nodes from their own pages. A slot of the ring
is used again without a look at the node whose page it has, so an entry of the list must not
wait while as many reads are sent as the ring has slots. A short list leaves no time for that:
while an entry waits, each turn expands a node in front of it.
-/

import OdinVector.Search.PipeRing

namespace OdinVector

variable {Distance : Type} [LinearOrder Distance]

namespace PipeQuery

open PipeState

variable {query : PipeQuery Distance} {left : List Nat} {state : PipeState Distance}

omit [LinearOrder Distance] in
/-- A node that was read has its page as long as not too many reads were sent after its own. -/
theorem Ringed.intact_iff (ringed : Ringed state) (reading : Reading left state) {id k : Nat}
    (unlocked : state.unlocked[k]? = some id) :
    state.Intact id ↔ state.locked.length ≤ k + maxNSectorReads := by
  have member : id ∈ state.unlocked := List.mem_of_getElem? unlocked
  obtain ⟨slot, there⟩ := Option.isSome_iff_exists.mp ((reading.read id).mpr member)
  obtain ⟨other, also, place⟩ := ringed.bufs id slot there
  have once : state.unlocked.Nodup := by
    have once := reading.once
    rw [reading.locked] at once
    exact (List.nodup_append.mp once).1
  have same : other = k := by
    obtain ⟨inside, its⟩ := List.getElem?_eq_some_iff.mp unlocked
    obtain ⟨otherInside, equal⟩ := List.getElem?_eq_some_iff.mp also
    exact once.getElem_inj_iff.mp (equal.trans its.symm)
  have locked : state.locked[k]? = some id := by
    obtain ⟨inside, -⟩ := List.getElem?_eq_some_iff.mp unlocked
    rw [reading.locked, List.getElem?_append_left inside]
    exact unlocked
  refine Iff.trans ?_ (ringed.holds.slot_eq_iff reading.once (by decide) locked)
  unfold PipeState.Intact
  rw [there, place, same]
  exact ⟨fun all => all _ rfl, fun its slot found => Option.some.inj found ▸ its⟩

/-! ### What a turn does before it expands a node -/

/-- The reads at the front of the queue that are finished are handed on, and at most one read
is sent. -/
structure Advances (completes : List Nat) (before after : PipeState Distance) : Prop where
  unlocked : after.unlocked = before.unlocked ++
    (before.onFlightIos.takeWhile (before.readerPoll completes).finished).map PipeIo.id
  locked : ∃ sent, sent.length ≤ 1 ∧ after.locked = before.locked ++ sent

omit [LinearOrder Distance] in
theorem sends_logs (items : List (PipeEntry Distance)) (state : PipeState Distance) :
    (items.foldl sendReadReq state).unlocked = state.unlocked ∧
      (items.foldl sendReadReq state).locked = state.locked ++ items.map fun item => item.id := by
  induction items generalizing state with
  | nil => exact ⟨rfl, (List.append_nil _).symm⟩
  | cons item items inductionHypothesis =>
    obtain ⟨unlocked, locked⟩ := inductionHypothesis (state.sendReadReq item)
    refine ⟨unlocked, locked.trans ?_⟩
    show (state.locked ++ [item.id]) ++ _ = state.locked ++ item.id :: _
    rw [List.append_assoc]
    rfl

theorem advances_poll (query : PipeQuery Distance) (completes : List Nat)
    (state : PipeState Distance) :
    Advances completes state (query.poll completes state) := by
  have logs : ∀ other : PipeState Distance, ∀ nIn nOut,
      (query.tune nIn nOut other).unlocked = other.unlocked ∧
        (query.tune nIn nOut other).locked = other.locked := by
    intro other nIn nOut
    unfold tune
    split <;> exact ⟨rfl, rfl⟩
  obtain ⟨unlocked, locked⟩ := logs (state.readerPoll completes).pollAll.1
    (state.readerPoll completes).pollAll.2.1 (state.readerPoll completes).pollAll.2.2
  unfold poll
  dsimp only
  split
  · obtain ⟨items, few, sent⟩ := sendFrom_items 1
      (query.tune (state.readerPoll completes).pollAll.2.1
        (state.readerPoll completes).pollAll.2.2
        (state.readerPoll completes).pollAll.1).retset
      (query.tune (state.readerPoll completes).pollAll.2.1
        (state.readerPoll completes).pollAll.2.2 (state.readerPoll completes).pollAll.1)
    obtain ⟨sameUnlocked, moreLocked⟩ := sends_logs items
      (query.tune (state.readerPoll completes).pollAll.2.1
        (state.readerPoll completes).pollAll.2.2 (state.readerPoll completes).pollAll.1)
    unfold PipeState.sendBestReadReq
    dsimp only
    rw [sent]
    refine ⟨sameUnlocked.trans unlocked, items.map fun item => item.id,
      (List.length_map _).trans_le few, moreLocked.trans ?_⟩
    rw [locked]
    rfl
  · exact ⟨unlocked, [], Nat.zero_le 1, locked.trans (List.append_nil _).symm⟩

omit [LinearOrder Distance] in
theorem Advances.length_le {completes : List Nat} {before after : PipeState Distance}
    (advances : Advances completes before after) :
    after.locked.length ≤ before.locked.length + 1 := by
  obtain ⟨sent, few, locked⟩ := advances.locked
  rw [locked, List.length_append]
  exact Nat.add_le_add_left few _

omit [LinearOrder Distance] in
/-- What is handed on was sent before. -/
theorem Advances.sent {completes : List Nat} {before after : PipeState Distance}
    (advances : Advances completes before after) (reading : Reading left before) {id k : Nat}
    (unlocked : after.unlocked[k]? = some id) : before.locked[k]? = some id := by
  have queue : before.onFlightIos =
      before.onFlightIos.takeWhile (before.readerPoll completes).finished ++
        before.onFlightIos.dropWhile (before.readerPoll completes).finished :=
    List.takeWhile_append_dropWhile.symm
  rw [advances.unlocked] at unlocked
  obtain ⟨inside, -⟩ := List.getElem?_eq_some_iff.mp unlocked
  rw [reading.locked, queue, List.map_append, ← List.append_assoc,
    List.getElem?_append_left inside]
  exact unlocked

/-! ### When the pages are intact -/

/-- The entries that are read and not expanded were sent not too many reads ago. -/
def Recent (state : PipeState Distance) : Prop :=
  ∀ before entry later, state.retset = before ++ entry :: later → entry.visited = false →
    ∀ k, state.unlocked[k]? = some entry.id → state.locked.length ≤ k + maxNSectorReads

theorem Recent.takesIntact {turn : PipeTurn Distance}
    (recent : Recent (query.poll turn.completes state))
    (reading : Reading left (query.poll turn.completes state))
    (ringed : Ringed (query.poll turn.completes state)) : query.TakesIntact state turn := by
  rintro ⟨id, marked⟩ taken
  obtain ⟨before, entry, later, retset, -, rfl, closed, isRead, -⟩ := takeBest_eq_some taken
  obtain ⟨k, inside, its⟩ := List.mem_iff_getElem.mp ((reading.read entry.id).mp isRead)
  have there := List.getElem?_eq_some_iff.mpr ⟨inside, its⟩
  exact (ringed.intact_iff reading there).mpr (recent before entry later retset closed k there)

omit [LinearOrder Distance] in
/-- The entries of a list whose flags were changed, before and behind one of them. -/
theorem Keeps.split {before after : PipeState Distance} (keeps : Keeps before after)
    {first later : List (PipeEntry Distance)} {entry : PipeEntry Distance}
    (retset : after.retset = first ++ entry :: later) :
    ∃ front old behind, before.retset = front ++ old :: behind ∧ old.id = entry.id ∧
      old.visited = entry.visited ∧
        front.countP PipeEntry.visited = first.countP PipeEntry.visited := by
  have same := keeps.retset
  rw [retset, List.map_append, List.map_cons] at same
  obtain ⟨front, rest, split, inFront, inRest⟩ := List.map_eq_append_iff.mp same.symm
  obtain ⟨old, behind, rfl, unflag, -⟩ := List.map_eq_cons_iff.mp inRest
  obtain ⟨neighbor, visited⟩ := Prod.mk.inj unflag
  refine ⟨front, old, behind, split, congrArg Neighbor.id neighbor, visited, ?_⟩
  have counts := congrArg (List.countP Prod.snd) inFront
  rwa [List.countP_map, List.countP_map] at counts

/-- No entry of the list that is not expanded has the slot of the next read. -/
def HasSpareSlot (state : PipeState Distance) : Prop :=
  ∀ entry ∈ state.retset, entry.visited = false →
    ∀ k, state.locked[k]? = some entry.id → state.locked.length < k + maxNSectorReads

theorem HasSpareSlot.recent (spare : HasSpareSlot state) (reading : Reading left state)
    (completes : List Nat) : Recent (query.poll completes state) := by
  intro first entry later retset closed k unlocked
  have advances := advances_poll query completes state
  obtain ⟨front, old, behind, split, id, visited, -⟩ :=
    (keeps_poll query completes state).split retset
  have member : old ∈ state.retset := by
    rw [split]
    exact List.mem_append_right _ List.mem_cons_self
  have few := spare old member (visited.trans closed) k (id ▸ advances.sent reading unlocked)
  have more := advances.length_le
  omega

/-! ### Short lists -/

/-- An entry that is read and not expanded waits for entries in front of it that are expanded. -/
def Backlog (bound : Nat) (state : PipeState Distance) : Prop :=
  ∀ before entry later, state.retset = before ++ entry :: later → entry.visited = false →
    ∀ k, state.unlocked[k]? = some entry.id →
      state.locked.length ≤ k + bound + before.countP PipeEntry.visited

theorem Backlog.poll (backlog : Backlog (max 4 query.beamWidth) state)
    (paced : query.Paced state) (ringed : Ringed state) (reading : Reading left state)
    (completes : List Nat) :
    Backlog (max 4 query.beamWidth + 1) (query.poll completes state) := by
  intro first entry later retset closed k unlocked
  have advances := advances_poll query completes state
  have more := advances.length_le
  obtain ⟨front, old, behind, split, id, visited, count⟩ :=
    (keeps_poll query completes state).split retset
  rw [← count]
  obtain earlier | now := Nat.lt_or_ge k state.unlocked.length
  · have there : state.unlocked[k]? = some old.id := by
      have sent := advances.sent reading unlocked
      rw [reading.locked, List.getElem?_append_left earlier] at sent
      rw [id]
      exact sent
    have before := backlog front old behind split (visited.trans closed) k there
    omega
  · -- A read that is handed on in this turn was sent with all that are in flight.
    have inFlight := paced.inFlight
    have length := ringed.length
    omega

omit [LinearOrder Distance] in
/-- While no entry in front of it is taken, no read entry waits. -/
theorem backlog_of_none (reading : Reading left state) (bound : Nat)
    (none : takeBest state.isRead state.retset = none) : Backlog bound state := by
  intro first entry later retset closed k unlocked
  have member : entry ∈ state.retset := by
    rw [retset]
    exact List.mem_append_right _ List.mem_cons_self
  have unread := takeBest_eq_none none entry member closed
  have isRead := (reading.read entry.id).mpr (List.mem_of_getElem? unlocked)
  exact absurd (unread.symm.trans isRead) Bool.false_ne_true

omit [LinearOrder Distance] in
/-- The entry that is taken is in front of all others that wait. -/
theorem Backlog.mark {bound id : Nat} {marked : List (PipeEntry Distance)}
    (backlog : Backlog (bound + 1) state) (reading : Reading left state)
    (taken : takeBest state.isRead state.retset = some (id, marked))
    (results : List (Neighbor Distance)) :
    Backlog bound { state with retset := marked, fullRetset := results } := by
  obtain ⟨front, best, behind, split, rfl, -, closedBest, -, first⟩ := takeBest_eq_some taken
  intro before entry later retset closed k unlocked
  have read : state.isRead entry.id = true :=
    (reading.read entry.id).mpr (List.mem_of_getElem? unlocked)
  have whole : front ++ { best with flag := false, visited := true } :: behind =
      before ++ entry :: later := retset
  obtain ⟨middle, grown, back⟩ | ⟨middle, grown, back⟩ := List.append_eq_append_iff.mp whole
  · obtain _ | ⟨head, rest⟩ := middle
    · have same := (List.cons_eq_cons.mp back).1
      rw [← same] at closed
      exact absurd closed.symm Bool.false_ne_true
    · obtain ⟨rfl, tail⟩ := List.cons_eq_cons.mp back
      have there : state.retset = (front ++ best :: rest) ++ entry :: later := by
        have behindBest : behind = rest ++ entry :: later := tail
        rw [split, behindBest, List.append_assoc, List.cons_append]
      have waits := backlog _ entry later there closed k unlocked
      rw [List.countP_append, List.countP_cons_of_neg (by rw [closedBest]; exact Bool.false_ne_true)]
        at waits
      rw [grown, List.countP_append, List.countP_cons_of_pos rfl]
      show state.locked.length ≤ _
      omega
  · have inFront : entry ∈ front := by
      obtain _ | ⟨head, rest⟩ := middle
      · have same := (List.cons_eq_cons.mp back).1
        rw [same] at closed
        exact absurd closed.symm Bool.false_ne_true
      · obtain ⟨rfl, -⟩ := List.cons_eq_cons.mp back
        rw [grown]
        exact List.mem_append_right _ List.mem_cons_self
    exact absurd ((first entry inFront closed).symm.trans read) Bool.false_ne_true

/-- A neighbour that is offered is not expanded. -/
theorem Backlog.pushNbr {bound nbr : Nat} (backlog : Backlog bound state)
    (piping : query.Piping (nbr :: left) state) :
    Backlog bound (query.pushNbr state nbr) := by
  obtain ⟨visited, unsent⟩ := piping.reading.toOffer nbr List.mem_cons_self
  have new : (query.entry nbr).id ∉ state.visited \ (nbr :: left).toFinset := by
    intro old
    exact (Finset.mem_sdiff.mp old).2 (List.mem_toFinset.mpr List.mem_cons_self)
  obtain ⟨-, offered⟩ := piping.nearest.offer piping.nonempty state.retset.length new rfl
  intro before entry later retset closed k unlocked
  have different : entry ≠ query.entry nbr := by
    rintro rfl
    exact unsent (piping.reading.unlocked_subset (List.mem_of_getElem? unlocked))
  obtain ⟨first, second, rest, split, places⟩ := offered.split retset different
  have waits := backlog (first ++ second) entry rest split closed k unlocked
  obtain rfl | rfl := places
  · exact waits
  · rw [List.countP_append] at waits
    rw [List.countP_append, List.countP_cons_of_neg (by exact Bool.false_ne_true)]
    exact waits

theorem Backlog.pushNbrs {bound : Nat} (backlog : Backlog bound state)
    (piping : query.Piping left state) : Backlog bound (left.foldl query.pushNbr state) := by
  induction left generalizing state with
  | nil => exact backlog
  | cons nbr left inductionHypothesis =>
    exact inductionHypothesis (backlog.pushNbr piping) piping.pushNbr

theorem Backlog.computeAndPushNbrs {bound : Nat} (backlog : Backlog bound state)
    (piping : query.Piping [] state) (nbrs : List Nat) :
    Backlog bound (query.computeAndPushNbrs nbrs state) :=
  have gathered : Backlog bound
      { state with visited := (nbrs.foldl Retset.freshNbr ([], state.visited)).2 } := backlog
  gathered.pushNbrs (piping.gatherAll nbrs)

omit [LinearOrder Distance] in
theorem Backlog.setMaxMarker {bound : Nat} (backlog : Backlog bound state) (maxMarker : Nat) :
    Backlog bound { state with maxMarker := maxMarker } := backlog

theorem Backlog.turn (backlog : Backlog (max 4 query.beamWidth) state)
    (piping : query.Piping [] state) (paced : query.Paced state) (ringed : Ringed state)
    (turn : PipeTurn Distance) :
    Backlog (max 4 query.beamWidth) (query.turn turn state) := by
  have polled := piping.poll turn.completes
  have waits := backlog.poll paced ringed piping.reading turn.completes
  obtain ⟨same, none⟩ | ⟨id, marked, taken, next⟩ :=
    query.calcBestNode_cases turn.torn (query.poll turn.completes state)
  · unfold PipeQuery.turn
    dsimp only
    rw [same]
    exact backlog_of_none polled.reading _ none
  · let record := query.bufRecord turn.torn (query.poll turn.completes state) id
    have marks := waits.mark polled.reading taken
      ((query.poll turn.completes state).fullRetset ++ [⟨id, record.exactDist⟩])
    have pushed := marks.computeAndPushNbrs (polled.mark taken record.exactDist) record.nbrs
    unfold PipeQuery.turn
    dsimp only
    rw [next]
    exact pushed.setMaxMarker _

theorem backlog_start (begins : query.start = some state) (bound : Nat) :
    Backlog bound state := by
  have none : state.unlocked = [] := by
    rw [(start_eq begins).2]
    obtain ⟨items, -, sent⟩ := sendFrom_items 4 query.begin.retset query.begin
    have logs := (sends_logs items query.begin).1
    rw [← sent] at logs
    exact logs
  intro before entry later _ _ k unlocked
  rw [none] at unlocked
  exact absurd unlocked nofun

theorem backlog (distinct : query.entryIds.Nodup) (some : 0 < query.lSearch)
    {guard : PipeState Distance → PipeTurn Distance → Prop}
    (reachable : query.search.Reachable guard state) :
    Backlog (max 4 query.beamWidth) state := by
  induction reachable with
  | initial begins => exact backlog_start begins _
  | step before _ taken inductionHypothesis =>
    rw [search_step taken]
    exact inductionHypothesis.turn (piping distinct some before) (paced before) (ringed before) _

/-- An entry that waits in a short list does not wait for long. -/
theorem Backlog.recent (backlog : Backlog (max 4 query.beamWidth + 1) state)
    (piping : query.Piping left state)
    (short : query.lSearch + max 4 query.beamWidth ≤ maxNSectorReads) : Recent state := by
  intro before entry later retset closed k unlocked
  have waits := backlog before entry later retset closed k unlocked
  have expanded : before.countP PipeEntry.visited ≤ before.length := List.countP_le_length
  have length := piping.nearest.nearest.length
  rw [Retset.ids, List.length_map, retset, List.length_append, List.length_cons] at length
  omega

/-- Nodes are expanded from their own pages in a step before which no entry that is not
expanded has the slot of the next read; and in every step when the list is so short that, with
the reads that may be in flight, it has no more entries than the ring has slots. -/
theorem search_takesIntact (query : PipeQuery Distance) (distinct : query.entryIds.Nodup)
    (some : 0 < query.lSearch) {state : PipeState Distance}
    (reachable : query.search.Reachable Transition.anyStep state) (turn : PipeTurn Distance)
    (spare : HasSpareSlot state ∨ query.lSearch + max 4 query.beamWidth ≤ maxNSectorReads) :
    query.TakesIntact state turn := by
  have before := query.piping distinct some reachable
  have polled := before.poll turn.completes
  have slots := (ringed reachable).poll (paced reachable) (narrow reachable) turn.completes
  obtain spare | short := spare
  · exact (spare.recent before.reading turn.completes).takesIntact polled.reading slots
  · have waits := (query.backlog distinct some reachable).poll (paced reachable)
      (ringed reachable) before.reading turn.completes
    exact (waits.recent polled short).takesIntact polled.reading slots

/-- The last node of `pushedOut` is expanded from its own page. -/
theorem search_takesIntact_pushedOut :
    pushedOut.TakesIntact (pushedOut.search.after pushedOutStart (pushedOutTurns.take 6))
      ⟨[2], ⟨0, []⟩⟩ := by
  have begins : pushedOut.start = some pushedOutStart := (Option.some_get _).symm
  have reachable : pushedOut.search.Reachable Transition.anyStep
      (pushedOut.search.after pushedOutStart (pushedOutTurns.take 6)) :=
    .after (.initial begins) Transition.System.along_anyStep
  exact search_takesIntact pushedOut (by decide) (by decide) reachable _ (Or.inr (by decide))

end PipeQuery

end OdinVector
