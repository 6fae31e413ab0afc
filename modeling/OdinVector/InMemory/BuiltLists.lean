/-
This file says which locations the lists of a built index name. `link` visits the locations
below `_nd + _num_frozen_pts`. These are the points when the frozen point is next to the loaded
ones; else the location behind the loaded ones is visited, which no point is loaded at, and the
frozen point is not.
-/

import OdinVector.InMemory.LinkRounds

namespace OdinVector

open Transition

variable {Distance : Type} [LinearOrder Distance]

/-- What the lists of a built index should be. -/
structure LinksLoaded (setting : LinkSetting Distance) (lists : Nat → List Nat) : Prop where
  linked : ∀ location, setting.IsPoint location → ∀ nbr ∈ lists location,
    setting.IsPoint nbr ∧ nbr ≠ location
  once : ∀ location, setting.IsPoint location → (lists location).Nodup
  bounded : ∀ location, setting.IsPoint location →
    (lists location).length ≤ setting.params.range
  empty : ∀ location, ¬ setting.IsPoint location → lists location = []

namespace LinkSetting

variable (setting : LinkSetting Distance)

/-- A location that is visited, or the entry point of a search. -/
def Named (location : Nat) : Prop :=
  0 < setting.nVecsToVisit ∧ (location < setting.nVecsToVisit ∨ location = setting.ep)

/-- A list that a node may have. -/
structure ListOk (node : Nat) (list : List Nat) : Prop where
  nodup : list.Nodup
  named : ∀ id ∈ list, id ≠ node ∧ setting.Named id
  owner : list ≠ [] → setting.Named node

/-- What is known of a thread of `link`. -/
def WorkerOk (node : Nat) : LinkWorker Distance → Prop
  | .waiting => True
  | .searching search => node < setting.nVecsToVisit ∧
    search.Sound (setting.distance node) setting.params.lSize ∧ search.Swept ∧
      ∀ id ∈ search.inserted, setting.Named id
  | .cleared _ => False
  | .linking srcPool => node < setting.nVecsToVisit ∧
    ∀ des ∈ srcPool, des ≠ node ∧ setting.Named des
  | .writing des copyOfNeighbors srcPool => node < setting.nVecsToVisit ∧
    (∀ other ∈ des :: srcPool, other ≠ node ∧ setting.Named other) ∧
      ∀ id ∈ copyOfNeighbors, id ≠ des ∧ setting.Named id

/-- Whether a thread has given its node a list. -/
def HasList : LinkWorker Distance → Prop
  | .linking _ | .writing _ _ _ => True
  | .waiting | .searching _ | .cleared _ => False

/-- What holds while the threads of `link` work. -/
structure Linked (state : LinkState Distance) : Prop where
  lists : ∀ node, setting.ListOk node (state.lists node)
  workers : ∀ node, setting.WorkerOk node (state.workers node)
  assigned : ∀ node, HasList (state.workers node) → state.lists node ≠ []

variable {setting} {state next : LinkState Distance} {node : Nat}

omit [LinearOrder Distance] in
theorem hasList_of_ended {worker : LinkWorker Distance} (ended : worker.ended = true) :
    HasList worker := by
  cases worker with
  | linking | writing => trivial
  | waiting | searching | cleared => cases ended

/-! ### Pools -/

theorem map_id_dummyPool (des : Nat) (nbrs : List Nat) :
    (setting.dummyPool des nbrs).map Neighbor.id = nbrs.eraseDups.filter (· ≠ des) := by
  unfold dummyPool
  rw [List.map_map]
  exact List.map_id _

theorem mem_dummyPool {des id : Nat} {nbrs : List Nat} :
    id ∈ (setting.dummyPool des nbrs).map Neighbor.id ↔ id ∈ nbrs ∧ id ≠ des := by
  rw [map_id_dummyPool, List.mem_filter, List.mem_eraseDups, decide_eq_true_iff]

variable (setting) in
/-- Pruning a list that has an entry besides its owner. -/
theorem prune_dummyPool {des other : Nat} {nbrs : List Nat} (member : other ∈ nbrs)
    (another : other ≠ des) :
    ∃ newOutNeighbors, Index.pruneNeighbors setting.params setting.distance des
        (setting.dummyPool des nbrs) = some newOutNeighbors ∧
      (∀ id ∈ newOutNeighbors, id ∈ nbrs ∧ id ≠ des) ∧ newOutNeighbors.Nodup ∧
        newOutNeighbors.length ≤ setting.params.range ∧ newOutNeighbors ≠ [] := by
  have apart : ((setting.dummyPool des nbrs).map Neighbor.id).Nodup := by
    rw [map_id_dummyPool]
    exact (MemorySearch.nodup_eraseDups nbrs).filter _
  have there : other ∈ (setting.dummyPool des nbrs).map Neighbor.id :=
    mem_dummyPool.mpr ⟨member, another⟩
  have nonempty : setting.dummyPool des nbrs ≠ [] := fun empty => by
    rw [empty] at there
    exact List.not_mem_nil there
  obtain ⟨newOutNeighbors, prunes, leaves, some⟩ := Index.pruneNeighbors_spec apart
    (fun member => (mem_dummyPool.mp member).2 rfl) nonempty
  exact ⟨newOutNeighbors, prunes,
    fun id member => ⟨(mem_dummyPool.mp (leaves.subset id member).1).1, (leaves.subset id member).2⟩,
    leaves.nodup, leaves.bounded, some⟩

omit [LinearOrder Distance] in
theorem mem_ownPool {id : Nat} {search : MemorySearch Distance} :
    id ∈ (ownPool node search).map Neighbor.id ↔ id ∈ search.expandedIds ∧ id ≠ node := by
  unfold ownPool MemorySearch.expandedIds
  constructor
  · intro member
    obtain ⟨neighbor, inside, rfl⟩ := List.mem_map.mp member
    obtain ⟨expanded, other⟩ := List.mem_filter.mp inside
    exact ⟨List.mem_map_of_mem expanded, of_decide_eq_true other⟩
  · rintro ⟨expanded, other⟩
    obtain ⟨neighbor, inside, rfl⟩ := List.mem_map.mp expanded
    exact List.mem_map_of_mem (List.mem_filter.mpr ⟨inside, decide_eq_true other⟩)

/-- Pruning what a search expanded. -/
theorem prune_ownPool {search : MemorySearch Distance} {distance : Nat → Distance} {lSize : Nat}
    (sound : search.Sound distance lSize) (nonempty : ownPool node search ≠ []) :
    ∃ prunedList, Index.pruneNeighbors setting.params setting.distance node
        (ownPool node search) = some prunedList ∧
      (∀ id ∈ prunedList, id ∈ search.inserted ∧ id ≠ node) ∧ prunedList.Nodup ∧
        prunedList ≠ [] := by
  have apart : ((ownPool node search).map Neighbor.id).Nodup :=
    sound.once.sublist (List.filter_sublist.map Neighbor.id)
  obtain ⟨prunedList, prunes, leaves, some⟩ := Index.pruneNeighbors_spec apart
    (fun member => (mem_ownPool.mp member).2 rfl) nonempty
  refine ⟨prunedList, prunes, fun id member => ?_, leaves.nodup, some⟩
  obtain ⟨inPool, other⟩ := leaves.subset id member
  exact ⟨sound.seen id (mem_ownPool.mp inPool).1, other⟩

theorem ownPool_ne_nil {search : MemorySearch Distance} {prunedList : List Nat}
    (prunes : Index.pruneNeighbors setting.params setting.distance node (ownPool node search) =
      some prunedList) : ownPool node search ≠ [] := by
  intro empty
  rw [empty] at prunes
  cases prunes

/-! ### The steps keep what holds -/

theorem Linked.worker (linked : setting.Linked state) {worker : LinkWorker Distance}
    (here : state.workers node = worker) : setting.WorkerOk node worker := by
  rw [← here]
  exact linked.workers node

theorem Linked.nonempty (linked : setting.Linked state) {worker : LinkWorker Distance}
    (here : state.workers node = worker) (has : HasList worker) : state.lists node ≠ [] := by
  rw [← here] at has
  exact linked.assigned node has

theorem Linked.setWorker (linked : setting.Linked state) {worker : LinkWorker Distance}
    (ok : setting.WorkerOk node worker) (assigned : HasList worker → state.lists node ≠ []) :
    setting.Linked (state.setWorker node worker) := by
  have worker_eq : ∀ other, (state.setWorker node worker).workers other =
      if other = node then worker else state.workers other :=
    fun other => Function.update_apply _ _ _ _
  refine ⟨linked.lists, fun other => ?_, fun other has => ?_⟩
  · rw [worker_eq]
    split
    · rename_i same
      rw [same]
      exact ok
    · exact linked.workers other
  · rw [worker_eq] at has
    split at has
    · rename_i same
      rw [same]
      exact assigned has
    · exact linked.assigned other has

theorem Linked.setList (linked : setting.Linked state) {list : List Nat}
    (ok : setting.ListOk node list) (nonempty : list ≠ []) :
    setting.Linked (state.setList node list) := by
  have list_eq : ∀ other, (state.setList node list).lists other =
      if other = node then list else state.lists other :=
    fun other => Function.update_apply _ _ _ _
  refine ⟨fun other => ?_, linked.workers, fun other has => ?_⟩
  · rw [list_eq]
    split
    · rename_i same
      rw [same]
      exact ok
    · exact linked.lists other
  · rw [list_eq]
    split
    · exact nonempty
    · exact linked.assigned other has

/-- A round of a search keeps to the named locations. -/
theorem Linked.round (linked : setting.Linked state) {search after : MemorySearch Distance}
    (ok : setting.WorkerOk node (.searching search))
    (taken : setting.searchRound state node search = some after) :
    setting.WorkerOk node (.searching after) := by
  obtain ⟨inside, sound, swept, named⟩ := ok
  obtain ⟨afterSound, afterSwept, same | ⟨expanded, _, _, expands⟩⟩ := sound.round swept taken
  · refine ⟨inside, afterSound, afterSwept, fun id isSeen => named id ?_⟩
    rw [← same.1]
    exact isSeen
  · refine ⟨inside, afterSound, afterSwept, fun id isSeen => ?_⟩
    obtain before | listed := expands.known id isSeen
    · exact named id before
    · exact ((linked.lists expanded).named id listed).2

theorem Linked.step (linked : setting.Linked state) {action : LinkAction}
    (taken : setting.step .link state action = some next) : setting.Linked next := by
  cases step_takes taken with
  | @start node inside =>
    have visited : node < setting.nVecsToVisit := inside rfl
    obtain ⟨sound, swept⟩ := MemorySearch.sound_start (setting.distance node)
      setting.params.lSizePos (List.cons_ne_nil setting.ep [])
    refine linked.setWorker ⟨visited, sound, swept, fun id member => ?_⟩ fun has => has.elim
    have first := List.mem_singleton.mp (MemorySearch.mem_inserted_start member)
    exact ⟨Nat.zero_lt_of_lt visited, .inr first⟩
  | @round node search after here round =>
    have ok := linked.worker here
    exact linked.setWorker (linked.round ok round) fun has => has.elim
  | @assign node search prunedList link here ended prunes =>
    have ok := linked.worker here
    obtain ⟨inside, sound, swept, named⟩ := ok
    obtain ⟨left, leaves, subset, nodup, nonempty⟩ := prune_ownPool sound (ownPool_ne_nil prunes)
    obtain rfl := Option.some.inj (prunes.symm.trans leaves)
    have pruned : ∀ id ∈ prunedList, id ≠ node ∧ setting.Named id :=
      fun id member => ⟨(subset id member).2, named id (subset id member).1⟩
    refine (linked.setList ⟨nodup, pruned, fun _ => ?_⟩ nonempty).setWorker ⟨inside, pruned⟩
      fun _ => ?_
    · exact ⟨Nat.zero_lt_of_lt inside, .inl inside⟩
    · show Function.update state.lists node prunedList node ≠ []
      rw [Function.update_self]
      exact nonempty
  | @clear node search prunedList insertPoint => cases insertPoint
  | noPool => exact ⟨linked.lists, linked.workers, linked.assigned⟩
  | @fill node prunedList here =>
    have ok := linked.worker here
    exact ok.elim
  | @known node des srcPool here member =>
    have ok := linked.worker here
    have has := linked.nonempty here trivial
    exact linked.setWorker ⟨ok.1, fun other later => ok.2 other (List.mem_cons_of_mem _ later)⟩
      fun _ => has
  | @added node des srcPool here fresh =>
    have ok := linked.worker here
    have has := linked.nonempty here trivial
    obtain ⟨other, named⟩ := ok.2 des List.mem_cons_self
    have owner : setting.Named node := ⟨Nat.zero_lt_of_lt ok.1, .inl ok.1⟩
    have list : setting.ListOk des (state.lists des ++ [node]) := by
      refine ⟨nodup_snoc (linked.lists des).nodup fresh, fun id member => ?_, fun _ => named⟩
      obtain old | last := List.mem_append.mp member
      · exact (linked.lists des).named id old
      · rw [List.mem_singleton.mp last]
        exact ⟨other.symm, owner⟩
    refine (linked.setList list (List.append_ne_nil_of_right_ne_nil _
      (List.cons_ne_nil _ _))).setWorker
        ⟨ok.1, fun other later => ok.2 other (List.mem_cons_of_mem _ later)⟩ fun _ => ?_
    show Function.update state.lists des _ node ≠ []
    rw [Function.update_of_ne other.symm]
    exact has
  | @copied node des srcPool here fresh =>
    have ok := linked.worker here
    have has := linked.nonempty here trivial
    exact linked.setWorker ⟨ok.1, ok.2, (linked.lists des).named⟩ fun _ => has
  | @written node des copyOfNeighbors srcPool newOutNeighbors here prunes =>
    have ok := linked.worker here
    have has := linked.nonempty here trivial
    obtain ⟨inside, others, copied⟩ := ok
    obtain ⟨other, named⟩ := others des List.mem_cons_self
    have owner : setting.Named node := ⟨Nat.zero_lt_of_lt inside, .inl inside⟩
    have last : node ∈ copyOfNeighbors ++ [node] := List.mem_append_right _ List.mem_cons_self
    obtain ⟨left, leaves, subset, nodup, _, nonempty⟩ := prune_dummyPool setting last other.symm
    obtain rfl := Option.some.inj (prunes.symm.trans leaves)
    have list : setting.ListOk des newOutNeighbors := by
      refine ⟨nodup, fun id member => ⟨(subset id member).2, ?_⟩, fun _ => named⟩
      obtain old | last := List.mem_append.mp (subset id member).1
      · exact (copied id old).2
      · rw [List.mem_singleton.mp last]
        exact owner
    refine (linked.setList list nonempty).setWorker
      ⟨inside, fun other later => others other (List.mem_cons_of_mem _ later)⟩ fun _ => ?_
    show Function.update state.lists des _ node ≠ []
    rw [Function.update_of_ne other.symm]
    exact has
  | noCopy => exact ⟨linked.lists, linked.workers, linked.assigned⟩

/-- What holds in every state that the threads of `link` reach. -/
theorem linked_of_reachable (reachable : setting.linkSystem.Reachable anyStep state) :
    setting.Linked state := by
  refine reachable.invariant (fun state begins => ?_)
    fun state action next linked _ taken => linked.step taken
  obtain ⟨empty, waiting, _⟩ := begins
  refine ⟨fun node => ?_, fun node => ?_, fun node has => ?_⟩
  · rw [empty]
    exact ⟨List.nodup_nil, fun id member => absurd member List.not_mem_nil,
      fun nonempty => absurd rfl nonempty⟩
  · rw [waiting]
    trivial
  · rw [waiting] at has
    exact has.elim

/-! ### The lists after the last loop -/

/-- The last loop leaves a list of the same locations, which is empty only if it was, and not
too long if it is visited. -/
theorem Linked.cleanUp (linked : setting.Linked state) (node : Nat) :
    ∃ list, setting.cleanUp state.lists node = some list ∧ setting.ListOk node list ∧
      (node < setting.nVecsToVisit → list.length ≤ setting.params.range) ∧
        (state.lists node ≠ [] → list ≠ []) := by
  unfold LinkSetting.cleanUp
  split
  · rename_i long
    obtain ⟨first, rest, cons⟩ := List.exists_cons_of_length_pos (Nat.zero_lt_of_lt long.2)
    have member : first ∈ state.lists node := by
      rw [cons]
      exact List.mem_cons_self
    obtain ⟨list, prunes, subset, nodup, bounded, nonempty⟩ :=
      prune_dummyPool setting member ((linked.lists node).named first member).1
    refine ⟨list, prunes, ⟨nodup, fun id inside => ?_, fun _ => ?_⟩, fun _ => bounded,
      fun _ => nonempty⟩
    · exact (linked.lists node).named id (subset id inside).1
    · exact (linked.lists node).owner (List.ne_nil_of_mem member)
  · rename_i short
    exact ⟨_, rfl, linked.lists node,
      fun inside => Nat.not_lt.mp fun long => short ⟨inside, long⟩, id⟩

/-- The locations that are visited are the points. -/
theorem isPoint_iff_lt (beside : setting.numFrozenPts = 0 ∨ setting.nd = setting.maxPoints)
    (location : Nat) : setting.IsPoint location ↔ location < setting.nVecsToVisit := by
  have few := setting.frozen_le
  unfold IsPoint nVecsToVisit
  omega

theorem Named.isPoint (beside : setting.numFrozenPts = 0 ∨ setting.nd = setting.maxPoints)
    (named : setting.Named node) : setting.IsPoint node := by
  obtain ⟨some, inside | rfl⟩ := named
  · exact (isPoint_iff_lt beside node).mpr inside
  · unfold IsPoint ep
    split
    · rename_i frozen
      exact .inr ⟨frozen, rfl⟩
    · rename_i none
      refine .inl (setting.entryPoint_lt ?_)
      unfold nVecsToVisit at some
      omega

/-- With room between the loaded points and the frozen one, the location behind the loaded ones
gets a list. -/
theorem Linked.behind (linked : setting.Linked state) (complete : state.Complete setting)
    (dynamic : setting.numFrozenPts ≠ 0) : state.lists setting.nd ≠ [] := by
  refine linked.assigned setting.nd (hasList_of_ended ?_)
  exact complete setting.nd (Nat.lt_add_of_pos_right (Nat.pos_of_ne_zero dynamic))

/-- A static index, or a dynamic one whose locations are all loaded, links loaded points only,
and no other does. -/
theorem linksLoaded_iff (reachable : setting.linkSystem.Reachable anyStep state)
    (complete : state.Complete setting) {built : Nat → List Nat}
    (ends : ∀ node, setting.cleanUp state.lists node = some (built node)) :
    LinksLoaded setting built ↔
      setting.numFrozenPts = 0 ∨ setting.nd = setting.maxPoints := by
  have linked := linked_of_reachable reachable
  have cleaned : ∀ node, setting.ListOk node (built node) ∧
      (node < setting.nVecsToVisit → (built node).length ≤ setting.params.range) ∧
        (state.lists node ≠ [] → built node ≠ []) := by
    intro node
    obtain ⟨list, cleans, rest⟩ := linked.cleanUp node
    rw [Option.some.inj ((ends node).symm.trans cleans)]
    exact rest
  constructor
  · intro loaded
    by_contra! apart
    refine (cleaned setting.nd).2.2 (linked.behind complete apart.1) (loaded.empty _ ?_)
    exact fun point => point.elim (Nat.lt_irrefl _) fun frozen => apart.2 frozen.2
  · intro beside
    refine ⟨fun location _ nbr member => ?_, fun location _ => (cleaned location).1.nodup,
      fun location point => (cleaned location).2.1 ((isPoint_iff_lt beside location).mp point),
      fun location outside => ?_⟩
    · obtain ⟨other, named⟩ := (cleaned location).1.named nbr member
      exact ⟨named.isPoint beside, other⟩
    · by_contra nonempty
      exact outside (((cleaned location).1.owner nonempty).isPoint beside)

end LinkSetting

/-- Two points, the entry point after the other one. -/
theorem complete_staticLine : ∃ state, (staticLine 2).linkSystem.Reachable anyStep state ∧
    state.Complete (staticLine 2) := by
  refine ⟨(staticLine 2).linkSystem.after noLinks [.start 1, .round 1, .assign 1, .interInsert 1,
    .start 0, .round 0, .round 0, .assign 0, .interInsert 0],
    .after (.initial (initial_noLinks _)) System.along_anyStep, ?_⟩
  unfold LinkState.Complete
  decide +kernel

/-- One point and the location behind it. -/
theorem complete_dynamicLine : ∃ state, (dynamicLine 1 1).linkSystem.Reachable anyStep state ∧
    state.Complete (dynamicLine 1 1) := by
  refine ⟨(dynamicLine 1 1).linkSystem.after noLinks [.start 0, .round 0, .assign 0,
    .interInsert 0, .start 1, .round 1, .round 1, .round 1, .assign 1, .interInsert 1,
    .interInsert 1], .after (.initial (initial_noLinks _)) System.along_anyStep, ?_⟩
  unfold LinkState.Complete
  decide +kernel

theorem linksLoaded_iff_two : ∃ built, LinksLoaded (staticLine 2) built := by
  obtain ⟨state, reached, complete⟩ := complete_staticLine
  choose built ends _ using (LinkSetting.linked_of_reachable reached).cleanUp
  exact ⟨built, (LinkSetting.linksLoaded_iff reached complete ends).mpr (.inl rfl)⟩

/-- A dynamic index with one point and room for another: the empty location gets a list. -/
theorem not_linksLoaded_room : ¬ ∀ (setting : LinkSetting Nat) (state : LinkState Nat)
    (built : Nat → List Nat), setting.linkSystem.Reachable anyStep state →
      state.Complete setting → (∀ node, setting.cleanUp state.lists node = some (built node)) →
        LinksLoaded setting built := by
  intro always
  obtain ⟨state, reached, complete⟩ := complete_dynamicLine
  have linked := LinkSetting.linked_of_reachable reached
  choose built ends cleaned using linked.cleanUp
  have loaded := always (dynamicLine 1 1) state built reached complete ends
  have behind : ¬ (dynamicLine 1 1).IsPoint 1 := fun point =>
    point.elim (Nat.lt_irrefl 1) fun frozen => absurd frozen.2 (by decide)
  exact (cleaned 1).2.2 (linked.behind complete Nat.one_ne_zero) (loaded.empty 1 behind)

end OdinVector
