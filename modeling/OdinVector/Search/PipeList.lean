/-
This file proves that the list of `pipe_search` has the nearest of the nodes that were seen,
whatever the order in which its reads complete.
-/

import OdinVector.Search.PipeReads

namespace OdinVector

variable {Distance : Type} [LinearOrder Distance]

namespace PipeQuery

open PipeState

variable {query : PipeQuery Distance} {left : List Nat} {state : PipeState Distance}

/-! ### What the reads leave alone -/

/-- An entry but for its flag. -/
def unflagged (entry : PipeEntry Distance) : Neighbor Distance × Bool :=
  (entry.toNeighbor, entry.visited)

/-- The list but for the flags, the nodes that were seen and those that were expanded stay. -/
structure Keeps (before after : PipeState Distance) : Prop where
  retset : after.retset.map unflagged = before.retset.map unflagged
  visited : after.visited = before.visited
  fullRetset : after.fullRetset = before.fullRetset

omit [LinearOrder Distance] in
theorem Keeps.neighbors {before after : PipeState Distance} (keeps : Keeps before after) :
    (after.retset.map fun entry => entry.toNeighbor) =
      before.retset.map fun entry => entry.toNeighbor := by
  have each := congrArg (List.map Prod.fst) keeps.retset
  rwa [List.map_map, List.map_map] at each

omit [LinearOrder Distance] in
theorem Keeps.trans {first second third : PipeState Distance} (before : Keeps first second)
    (after : Keeps second third) : Keeps first third :=
  ⟨after.retset.trans before.retset, after.visited.trans before.visited,
    after.fullRetset.trans before.fullRetset⟩

omit [LinearOrder Distance] in
theorem sendFrom_keeps (n : Nat) (rest : List (PipeEntry Distance)) (state : PipeState Distance) :
    (sendFrom n rest state).1.map unflagged = rest.map unflagged ∧
      (sendFrom n rest state).2.visited = state.visited ∧
        (sendFrom n rest state).2.fullRetset = state.fullRetset := by
  induction rest generalizing n state with
  | nil => exact ⟨rfl, rfl, rfl⟩
  | cons entry rest inductionHypothesis =>
    unfold PipeState.sendFrom
    split
    · exact ⟨rfl, rfl, rfl⟩
    · split
      · obtain ⟨list, others⟩ := inductionHypothesis n state
        exact ⟨congrArg (unflagged entry :: ·) list, others⟩
      · obtain ⟨list, others⟩ := inductionHypothesis (n - 1) (state.sendReadReq entry)
        exact ⟨congrArg (unflagged entry :: ·) list, others⟩

omit [LinearOrder Distance] in
theorem keeps_sendBestReadReq (n : Nat) (state : PipeState Distance) :
    Keeps state (state.sendBestReadReq n) := by
  obtain ⟨list, visited, fullRetset⟩ := sendFrom_keeps n state.retset state
  exact ⟨list, visited, fullRetset⟩

omit [LinearOrder Distance] in
theorem keeps_tune (query : PipeQuery Distance) (nIn nOut : Nat)
    (state : PipeState Distance) :
    Keeps state (query.tune nIn nOut state) := by
  unfold tune
  split <;> exact ⟨rfl, rfl, rfl⟩

theorem keeps_poll (query : PipeQuery Distance) (completes : List Nat)
    (state : PipeState Distance) :
    Keeps state (query.poll completes state) := by
  have polled : Keeps state (state.readerPoll completes).pollAll.1 := ⟨rfl, rfl, rfl⟩
  have tuned := polled.trans (keeps_tune query
    (state.readerPoll completes).pollAll.2.1 (state.readerPoll completes).pollAll.2.2 _)
  unfold poll
  dsimp only
  split
  · exact tuned.trans (keeps_sendBestReadReq 1 _)
  · exact tuned

/-! ### The list -/

/-- What holds in the main loop while the neighbours in `left` are to be offered. -/
structure Piping (query : PipeQuery Distance) (left : List Nat) (state : PipeState Distance) :
    Prop where
  reading : Reading left state
  nearest : Retset.Nearest PipeEntry.toPoolEntry query.pqDist query.lSearch
    (state.visited \ left.toFinset) state.retset
  nonempty : state.retset ≠ []

theorem Piping.keeps {after : PipeState Distance} (piping : query.Piping left state)
    (keeps : Keeps state after) (reading : Reading left after) : query.Piping left after := by
  refine ⟨reading, ?_, fun empty => piping.nonempty ?_⟩
  · rw [keeps.visited]
    exact piping.nearest.congr keeps.neighbors
  · have none := keeps.retset
    rw [empty, List.map_nil] at none
    exact List.map_eq_nil_iff.mp none.symm

theorem Piping.poll (piping : query.Piping left state) (completes : List Nat) :
    query.Piping left (query.poll completes state) :=
  piping.keeps (keeps_poll query completes state) (piping.reading.poll completes)

/-- The nodes of `search` are new, and were seen besides those that were seen before. -/
structure Gathered (visited : Finset Nat) (search : List Nat × Finset Nat) : Prop where
  nodup : search.1.Nodup
  apart : ∀ id ∈ search.1, id ∉ visited
  all : search.2 = visited ∪ search.1.toFinset

theorem Gathered.freshNbr {visited : Finset Nat} {search : List Nat × Finset Nat}
    (gathered : Gathered visited search) (nbr : Nat) :
    Gathered visited (Retset.freshNbr search nbr) := by
  unfold Retset.freshNbr
  split
  · exact gathered
  · rename_i new
    rw [gathered.all, Finset.mem_union, not_or] at new
    refine ⟨nodup_snoc gathered.nodup ?_, ?_, ?_⟩
    · exact fun old => new.2 (List.mem_toFinset.mpr old)
    · intro id member
      obtain old | last := List.mem_append.mp member
      · exact gathered.apart id old
      · rw [List.mem_singleton.mp last]
        exact new.1
    · ext id
      rw [gathered.all]
      simp only [Finset.mem_insert, Finset.mem_union, List.mem_toFinset, List.mem_append,
        List.mem_singleton]
      tauto

theorem Gathered.foldl {visited : Finset Nat} {search : List Nat × Finset Nat}
    (gathered : Gathered visited search) (nbrs : List Nat) :
    Gathered visited (nbrs.foldl Retset.freshNbr search) := by
  induction nbrs generalizing search with
  | nil => exact gathered
  | cons nbr nbrs inductionHypothesis => exact inductionHypothesis (gathered.freshNbr nbr)

/-- The neighbours that were not seen are put in `visited`, before they are offered. -/
theorem Piping.gather (piping : query.Piping [] state) {search : List Nat × Finset Nat}
    (gathered : Gathered state.visited search) :
    query.Piping search.1 { state with visited := search.2 } := by
  have more : state.visited ⊆ search.2 := by
    rw [gathered.all]
    exact Finset.subset_union_left
  have same : search.2 \ search.1.toFinset = state.visited := by
    rw [gathered.all, Finset.union_sdiff_right]
    refine Finset.sdiff_eq_self_of_disjoint (Finset.disjoint_left.mpr fun id old new => ?_)
    exact gathered.apart id (List.mem_toFinset.mp new) old
  have before : state.visited \ ([] : List Nat).toFinset = state.visited := Finset.sdiff_empty
  refine ⟨{ piping.reading with
    seen := fun id member => more (piping.reading.seen id member)
    fresh := gathered.nodup
    toOffer := fun nbr member => ⟨?_, ?_⟩
    listed := fun entry member => ⟨?_, ?_⟩ }, ?_, piping.nonempty⟩
  · show nbr ∈ search.2
    rw [gathered.all]
    exact Finset.mem_union_right _ (List.mem_toFinset.mpr member)
  · exact fun locked => gathered.apart nbr member (piping.reading.seen nbr locked)
  · exact more (piping.reading.listed entry member).1
  · exact fun new => gathered.apart entry.id new (piping.reading.listed entry member).1
  · show Retset.Nearest _ _ _ (search.2 \ search.1.toFinset) _
    have nearest := piping.nearest
    rw [before] at nearest
    rw [same]
    exact nearest

/-- The next neighbour is offered to the list. -/
theorem Piping.pushNbr {nbr : Nat} (piping : query.Piping (nbr :: left) state) :
    query.Piping left (query.pushNbr state nbr) := by
  obtain ⟨notLater, laterFresh⟩ := List.nodup_cons.mp piping.reading.fresh
  obtain ⟨visited, unsent⟩ := piping.reading.toOffer nbr List.mem_cons_self
  have new : (query.entry nbr).id ∉ state.visited \ (nbr :: left).toFinset := by
    intro old
    exact (Finset.mem_sdiff.mp old).2 (List.mem_toFinset.mpr List.mem_cons_self)
  have grown : insert nbr (state.visited \ (nbr :: left).toFinset) =
      state.visited \ left.toFinset := by
    ext id
    simp only [Finset.mem_insert, Finset.mem_sdiff, List.mem_toFinset, List.mem_cons, not_or]
    by_cases same : id = nbr
    · subst same
      simp only [true_or, true_iff]
      exact ⟨visited, notLater⟩
    · simp only [same, false_or, not_false_eq_true, true_and]
  obtain ⟨nearest, offered⟩ := piping.nearest.offer piping.nonempty state.retset.length new rfl
  have entries : ∀ entry ∈ (query.pushNbr state nbr).retset,
      entry = query.entry nbr ∨ entry ∈ state.retset := fun entry => offered.mem
  have nearestAfter : Retset.Nearest PipeEntry.toPoolEntry query.pqDist query.lSearch
      (state.visited \ left.toFinset) (query.pushNbr state nbr).retset := by
    rw [← grown]
    exact nearest
  refine ⟨{ piping.reading with
    fresh := laterFresh
    toOffer := fun other member => piping.reading.toOffer other (List.mem_cons_of_mem _ member)
    listed := fun entry member => ?_
    apart := nearestAfter.nearest.nodup
    flagged := fun entry member => ?_
    opened := fun entry member => ?_
    awaited := fun before io later queue => ?_ }, nearestAfter, offered.nonempty piping.nonempty⟩
  · obtain rfl | old := entries entry member
    · exact ⟨visited, notLater⟩
    · have listed := piping.reading.listed entry old
      exact ⟨listed.1, fun inLeft => listed.2 (List.mem_cons_of_mem _ inLeft)⟩
  · obtain rfl | old := entries entry member
    · exact ⟨fun _ => unsent, fun _ => rfl⟩
    · exact piping.reading.flagged entry old
  · obtain rfl | old := entries entry member
    · refine ⟨fun opened => absurd opened Bool.false_ne_true, fun expanded => ?_⟩
      exact absurd (piping.reading.unlocked_subset
        (piping.reading.expandedRead nbr expanded)) unsent
    · exact piping.reading.opened entry old
  · obtain same | entered := offered.same_or_mem
    · obtain ⟨entry, member, waits⟩ := piping.reading.awaited before io later queue
      refine ⟨entry, ?_, waits⟩
      show entry ∈ (Retset.offer _ _ _ _ _).1
      rw [same]
      exact member
    · exact ⟨query.entry nbr, entered, Or.inr (Or.inl unsent)⟩

theorem Piping.pushNbrs (piping : query.Piping left state) :
    query.Piping [] (left.foldl query.pushNbr state) := by
  induction left generalizing state with
  | nil => exact piping
  | cons nbr left inductionHypothesis => exact inductionHypothesis piping.pushNbr

theorem Piping.gatherAll (piping : query.Piping [] state) (nbrs : List Nat) :
    query.Piping (nbrs.foldl Retset.freshNbr ([], state.visited)).1
      { state with visited := (nbrs.foldl Retset.freshNbr ([], state.visited)).2 } := by
  have none : Gathered state.visited ([], state.visited) :=
    ⟨List.nodup_nil, fun id member => absurd member List.not_mem_nil,
      (Finset.union_empty _).symm⟩
  exact piping.gather (none.foldl nbrs)

theorem Piping.computeAndPushNbrs (piping : query.Piping [] state) (nbrs : List Nat) :
    query.Piping [] (query.computeAndPushNbrs nbrs state) :=
  (piping.gatherAll nbrs).pushNbrs

/-- What `calc_best_node` does: it takes no node, or the first one that is read and not
expanded. -/
theorem calcBestNode_cases (torn : NodeRecord Distance) (state : PipeState Distance) :
    (query.calcBestNode torn state).1 = state ∧ takeBest state.isRead state.retset = none ∨
      ∃ id marked, takeBest state.isRead state.retset = some (id, marked) ∧
        (query.calcBestNode torn state).1 =
          query.expand (query.bufRecord torn state id) id marked state := by
  unfold calcBestNode
  cases taken : takeBest state.isRead state.retset with
  | none => exact Or.inl ⟨rfl, rfl⟩
  | some best => exact Or.inr ⟨best.1, best.2, rfl, rfl⟩

/-- The node that is taken is put in `full_retset`. -/
theorem Piping.mark {id : Nat} {marked : List (PipeEntry Distance)}
    (piping : query.Piping [] state)
    (taken : takeBest state.isRead state.retset = some (id, marked)) (exactDist : Distance) :
    query.Piping [] { state with
      retset := marked
      fullRetset := state.fullRetset ++ [⟨id, exactDist⟩] } := by
  obtain ⟨before, entry, rest, retset, rfl, rfl, closed, isRead, -⟩ := takeBest_eq_some taken
  have whole : Reading [] { state with retset := before ++ entry :: rest } := by
    rw [← retset]
    exact piping.reading
  have same : ((before ++ { entry with flag := false, visited := true } :: rest).map
      fun entry => entry.toNeighbor) = state.retset.map fun entry => entry.toNeighbor := by
    rw [retset, List.map_append, List.map_append, List.map_cons, List.map_cons]
  refine ⟨whole.mark closed isRead exactDist, piping.nearest.congr same, ?_⟩
  exact List.append_ne_nil_of_right_ne_nil _ (List.cons_ne_nil _ _)

theorem Piping.expand {id : Nat} {marked : List (PipeEntry Distance)}
    (piping : query.Piping [] state)
    (taken : takeBest state.isRead state.retset = some (id, marked))
    (record : NodeRecord Distance) : query.Piping [] (query.expand record id marked state) :=
  (piping.mark taken record.exactDist).computeAndPushNbrs record.nbrs

theorem Piping.calcBestNode (piping : query.Piping [] state) (torn : NodeRecord Distance) :
    query.Piping [] (query.calcBestNode torn state).1 := by
  obtain ⟨same, -⟩ | ⟨id, marked, taken, next⟩ := query.calcBestNode_cases torn state
  · rw [same]
    exact piping
  · rw [next]
    exact piping.expand taken _

theorem Piping.setMaxMarker (piping : query.Piping left state) (maxMarker : Nat) :
    query.Piping left { state with maxMarker := maxMarker } :=
  ⟨{ piping.reading with }, piping.nearest, piping.nonempty⟩

theorem Piping.turn (piping : query.Piping [] state) (turn : PipeTurn Distance) :
    query.Piping [] (query.turn turn state) := by
  have next := (piping.poll turn.completes).calcBestNode turn.torn
  unfold PipeQuery.turn
  dsimp only
  exact next.setMaxMarker _

/-! ### The start -/

omit [LinearOrder Distance] in
theorem ids_firstEntry : Retset.ids PipeEntry.toPoolEntry (query.entryIds.map query.firstEntry) =
    query.entryIds := by
  unfold Retset.ids
  rw [List.map_map]
  exact List.map_id _

omit [LinearOrder Distance] in
theorem reading_begin (distinct : query.entryIds.Nodup) : Reading [] query.begin where
  locked := rfl
  once := List.nodup_nil
  seen id member := absurd member List.not_mem_nil
  fresh := List.nodup_nil
  toOffer nbr member := absurd member List.not_mem_nil
  listed entry member := by
    obtain ⟨id, inEntries, rfl⟩ := List.mem_map.mp member
    exact ⟨List.mem_toFinset.mpr inEntries, List.not_mem_nil⟩
  apart := by
    show (Retset.ids _ (query.entryIds.map query.firstEntry)).Nodup
    rw [ids_firstEntry]
    exact distinct
  flagged entry member := by
    obtain ⟨id, -, rfl⟩ := List.mem_map.mp member
    exact ⟨fun _ => List.not_mem_nil, fun _ => rfl⟩
  opened entry member := by
    obtain ⟨id, -, rfl⟩ := List.mem_map.mp member
    exact ⟨fun opened => absurd opened Bool.false_ne_true, fun member =>
      absurd member List.not_mem_nil⟩
  expandedOnce := List.nodup_nil
  expandedRead id member := absurd member List.not_mem_nil
  read id := ⟨fun read => absurd read Bool.false_ne_true, fun member =>
    absurd member List.not_mem_nil⟩
  awaited before io later queue := absurd queue.symm (List.append_ne_nil_of_right_ne_nil _
    (List.cons_ne_nil _ _))

omit [LinearOrder Distance] in
/-- The reads do not depend on the order and the distances of the entries. -/
theorem Reading.relist {after : List (PipeEntry Distance)} (reading : Reading left state)
    (same : (after.map fun entry => (entry.id, entry.flag, entry.visited)).Perm
      (state.retset.map fun entry => (entry.id, entry.flag, entry.visited))) :
    Reading left { state with retset := after } := by
  have old : ∀ entry ∈ after, ∃ other ∈ state.retset,
      other.id = entry.id ∧ other.flag = entry.flag ∧ other.visited = entry.visited := by
    intro entry member
    obtain ⟨other, there, equal⟩ := List.mem_map.mp (same.subset (List.mem_map_of_mem member))
    obtain ⟨id, flag, visited⟩ := by simpa only [Prod.mk.injEq] using equal
    exact ⟨other, there, id, flag, visited⟩
  have ids : (Retset.ids PipeEntry.toPoolEntry after).Perm
      (Retset.ids PipeEntry.toPoolEntry state.retset) := by
    have each := same.map Prod.fst
    rwa [List.map_map, List.map_map] at each
  refine { reading with
    listed := fun entry member => ?_
    apart := ids.nodup_iff.mpr reading.apart
    flagged := fun entry member => ?_
    opened := fun entry member => ?_
    awaited := fun before io later queue => ?_ }
  · obtain ⟨other, there, id, -⟩ := old entry member
    exact id ▸ reading.listed other there
  · obtain ⟨other, there, id, flag, -⟩ := old entry member
    rw [← id, ← flag]
    exact reading.flagged other there
  · obtain ⟨other, there, id, -, visited⟩ := old entry member
    rw [← id, ← visited]
    exact reading.opened other there
  · obtain ⟨entry, member, waits⟩ := reading.awaited before io later queue
    have listed : entry.id ∈ Retset.ids PipeEntry.toPoolEntry after :=
      ids.symm.subset (List.mem_map_of_mem member)
    obtain ⟨other, there, id⟩ := List.mem_map.mp listed
    have equal : other.id = entry.id := id
    exact ⟨other, there, equal ▸ waits⟩

omit [LinearOrder Distance] in
theorem entryIds_ne_nil (some : 0 < query.lSearch) : query.entryIds ≠ [] := by
  unfold entryIds
  split
  · exact List.cons_ne_nil _ _
  · rename_i aided
    intro none
    obtain zero | empty := List.take_eq_nil_iff.mp none
    · omega
    · exact aided empty

omit [LinearOrder Distance] in
theorem length_entryIds_le (some : 0 < query.lSearch) : query.entryIds.length ≤ query.lSearch := by
  unfold entryIds
  split
  · exact some
  · exact List.length_take_le _ _

theorem piping_start (distinct : query.entryIds.Nodup) (some : 0 < query.lSearch)
    (begins : query.start = .some state) : query.Piping [] state := by
  unfold start at begins
  dsimp only at begins
  have sent := (reading_begin distinct).sendBestReadReq
    (query.begin.curBeamWidth - query.begin.onFlightIos.length)
  have keeps := keeps_sendBestReadReq
    (query.begin.curBeamWidth - query.begin.onFlightIos.length) query.begin
  generalize query.begin.sendBestReadReq
    (query.begin.curBeamWidth - query.begin.onFlightIos.length) = first at begins sent keeps
  have list : (first.retset.map fun entry => entry.toNeighbor) =
      (query.entryIds.map query.firstEntry).map fun entry => entry.toNeighbor := keeps.neighbors
  have ids : Retset.ids PipeEntry.toPoolEntry first.retset = query.entryIds := by
    have each := congrArg (List.map Neighbor.id) list
    rw [List.map_map, List.map_map] at each
    exact each.trans ids_firstEntry
  have length : first.retset.length = query.entryIds.length := by
    rw [← ids, Retset.ids, List.length_map]
  have visited : first.visited = query.entryIds.toFinset := keeps.visited
  have nonempty : first.retset ≠ [] := by
    intro empty
    rw [empty] at length
    exact entryIds_ne_nil some (List.length_eq_zero_iff.mp length.symm)
  have short : first.retset.length ≤ query.lSearch := length.trans_le (length_entryIds_le some)
  have before : first.visited \ ([] : List Nat).toFinset = query.entryIds.toFinset := by
    rw [visited]
    exact Finset.sdiff_empty
  split at begins
  · exact absurd begins (fun equal => by cases equal)
  · split at begins
    · rename_i unaided
      obtain rfl := Option.some.inj begins
      have measured : Retset.Measured PipeEntry.toPoolEntry query.pqDist first.retset := by
        refine Retset.Measured.of_perm ?_ (.of_eq list)
        intro entry member
        obtain ⟨id, -, rfl⟩ := List.mem_map.mp member
        exact if_pos unaided
      have nearest := Retset.nearest_sort measured (ids.symm ▸ distinct) short
      have alone : first.retset.length = 1 := by
        rw [length]
        unfold entryIds
        rw [if_pos unaided]
        rfl
      obtain ⟨entry, only⟩ := List.length_eq_one_iff.mp alone
      refine ⟨sent, ?_, nonempty⟩
      rw [before, ← ids]
      rw [only] at nearest ⊢
      exact nearest
    · obtain rfl := Option.some.inj begins
      have same : Retset.ids PipeEntry.toPoolEntry (first.retset.map query.measure) =
          query.entryIds := by
        rw [← ids]
        unfold Retset.ids
        rw [List.map_map]
        rfl
      have measured : Retset.Measured PipeEntry.toPoolEntry query.pqDist
          (first.retset.map query.measure) := by
        intro entry member
        obtain ⟨old, -, rfl⟩ := List.mem_map.mp member
        rfl
      have sorted := @Retset.perm_sort Distance _ _ PipeEntry.toPoolEntry
        (first.retset.map query.measure)
      have nearest := Retset.nearest_sort measured (same.symm ▸ distinct)
        ((List.length_map _).trans_le short)
      refine ⟨sent.relist ?_, ?_, fun empty => nonempty ?_⟩
      · refine (sorted.map _).trans ?_
        rw [List.map_map]
        exact .refl _
      · show Retset.Nearest _ _ _ (first.visited \ ([] : List Nat).toFinset) _
        rw [before, ← same]
        exact nearest
      · have none : Retset.sort PipeEntry.toPoolEntry (first.retset.map query.measure) = [] :=
          empty
        rw [none] at sorted
        exact List.map_eq_nil_iff.mp (List.nil_perm.mp sorted)

/-- In every run. -/
theorem piping (distinct : query.entryIds.Nodup) (some : 0 < query.lSearch)
    {guard : PipeState Distance → PipeTurn Distance → Prop}
    (reachable : query.search.Reachable guard state) : query.Piping [] state := by
  induction reachable with
  | initial begins => exact piping_start distinct some begins
  | step before admitted taken inductionHypothesis =>
    rw [search_step taken]
    exact inductionHypothesis.turn _

end PipeQuery

end OdinVector
