/-
This file says when `link` does not crash. A search expands the entry point first, which is a
candidate for every node but the entry point itself. The iteration of the entry point needs
another one, and so a list of the entry point that another iteration has put itself into.
-/

import OdinVector.InMemory.BuiltLists

namespace OdinVector

open Transition

variable {Distance : Type} [LinearOrder Distance]

namespace MemorySearch

variable {distance : Nat → Distance} {lSize : Nat} {search : MemorySearch Distance}

theorem round_eq_none (ended : search.best.length ≤ search.k) (lists : Nat → List Nat) :
    search.round distance lSize lists = none := by
  unfold round
  rw [List.getElem?_eq_none ended, Option.map_none]

/-- A search of two nodes that were seen expands two. -/
theorem Sound.two_expanded (sound : search.Sound distance lSize) (swept : search.Swept)
    (ended : search.best.length ≤ search.k) (wide : 2 ≤ lSize) (two : 2 ≤ search.inserted.card)
    (node : Nat) : ∃ other ∈ search.expandedIds, other ≠ node := by
  have many := sound.card_le_expanded swept (round_eq_none ended fun _ => [])
  have length : 2 ≤ search.expandedIds.length := by
    rw [expandedIds, List.length_map]
    exact (le_min wide two).trans many
  have once := sound.once
  generalize search.expandedIds = expanded at length once
  cases expanded with
  | nil => cases length
  | cons first rest =>
    cases rest with
    | nil => exact absurd length (Nat.not_succ_le_self 1)
    | cons second rest =>
      by_cases same : first = node
      · refine ⟨second, List.mem_cons_of_mem _ List.mem_cons_self, fun equal => ?_⟩
        refine (List.nodup_cons.mp once).1 ?_
        rw [same, ← equal]
        exact List.mem_cons_self
      · exact ⟨first, List.mem_cons_self, same⟩

end MemorySearch

namespace LinkSetting

variable (setting : LinkSetting Distance)

/-- A search of the entry point's own iteration finds its list with an entry. -/
def ReadsEntry (state : LinkState Distance) : LinkWorker Distance → Prop
  | .searching search => search.expanded = [] → state.lists setting.ep ≠ []
  | _ => True

/-- The iteration of the entry point does not read its list before another one is in it. -/
def EntryLinked (state : LinkState Distance) : LinkAction → Prop
  | .round node => node = setting.ep → setting.ReadsEntry state (state.workers node)
  | _ => True

instance decidableReadsEntry (state : LinkState Distance) :
    ∀ worker : LinkWorker Distance, Decidable (setting.ReadsEntry state worker)
  | .searching _ => inferInstanceAs (Decidable (_ → _))
  | .waiting | .cleared _ | .linking _ | .writing _ _ _ => .isTrue trivial

instance decidableEntryLinked (state : LinkState Distance) :
    ∀ action : LinkAction, Decidable (setting.EntryLinked state action)
  | .round _ => inferInstanceAs (Decidable (_ → _))
  | .start _ | .assign _ | .clear _ | .fill _ | .interInsert _ | .writeBack _ => .isTrue trivial

/-- A search before and after it expands the entry point. -/
def Begun (node : Nat) (search : MemorySearch Distance) : Prop :=
  search.expanded = [] ∧ search.inserted ⊆ {setting.ep} ∨
    setting.ep ∈ search.expandedIds ∧ (node = setting.ep → 2 ≤ search.inserted.card)

/-- What holds while no thread has crashed. -/
structure Safe (state : LinkState Distance) : Prop where
  linked : setting.Linked state
  crashed : state.crashed = false
  begun : ∀ node search, state.workers node = .searching search → setting.Begun node search

/-- No call of `prune_neighbors` gets an empty pool, and what the last loop leaves to a loaded
point is not empty. -/
structure PoolsNonempty (state : LinkState Distance) : Prop where
  crashed : state.crashed = false
  own : ∀ node search, state.workers node = .searching search →
    search.best.length ≤ search.k → ownPool node search ≠ []
  copied : ∀ node des copyOfNeighbors srcPool,
    state.workers node = .writing des copyOfNeighbors srcPool →
      setting.dummyPool des (copyOfNeighbors ++ [node]) ≠ []
  built : state.Complete setting → ∀ node, ∃ list, setting.cleanUp state.lists node = some list ∧
    (node < setting.nd → list ≠ [])

variable {setting} {state next : LinkState Distance} {node : Nat}

/-- At the end of a search something is left besides the node. -/
theorem Begun.ownPool_ne_nil {search : MemorySearch Distance} (wide : 2 ≤ setting.params.lSize)
    (begun : setting.Begun node search)
    (sound : search.Sound (setting.distance node) setting.params.lSize) (swept : search.Swept)
    (ended : search.best.length ≤ search.k) : ownPool node search ≠ [] := by
  have left : ∀ other ∈ search.expandedIds, other ≠ node → ownPool node search ≠ [] := by
    intro other expanded another empty
    have member := mem_ownPool.mpr ⟨expanded, another⟩
    rw [empty] at member
    exact List.not_mem_nil member
  obtain ⟨fresh, _⟩ | ⟨expanded, two⟩ := begun
  · have many := sound.card_le_expanded swept (MemorySearch.round_eq_none ended fun _ => [])
    have some := List.length_pos_iff.mpr sound.nonempty
    have length := sound.nearest.nearest.length
    rw [Retset.ids, List.length_map] at length
    rw [fresh, ← length] at many
    exact absurd some (Nat.not_lt.mpr many)
  · by_cases own : node = setting.ep
    · obtain ⟨other, inside, another⟩ := sound.two_expanded swept ended wide (two own) node
      exact left other inside another
    · exact left setting.ep expanded (Ne.symm own)

/-- A round expands the entry point first. -/
theorem Begun.round {search after : MemorySearch Distance} (linked : setting.Linked state)
    (begun : setting.Begun node search)
    (sound : search.Sound (setting.distance node) setting.params.lSize) (swept : search.Swept)
    (reads : node = setting.ep → search.expanded = [] → state.lists setting.ep ≠ [])
    (taken : setting.searchRound state node search = some after) : setting.Begun node after := by
  obtain ⟨_, _, same | ⟨expanded, isSeen, _, expands⟩⟩ := sound.round swept taken
  · unfold Begun MemorySearch.expandedIds
    rw [same.1, same.2.1]
    exact begun
  · have ids : expanded ∈ after.expandedIds := by
      rw [expands.expanded]
      exact List.mem_append_right _ List.mem_cons_self
    obtain ⟨fresh, few⟩ | ⟨before, two⟩ := begun
    · have first : expanded = setting.ep := Finset.mem_singleton.mp (few isSeen)
      rw [first] at ids
      refine .inr ⟨ids, fun own => ?_⟩
      obtain ⟨nbr, rest, cons⟩ := List.exists_cons_of_ne_nil (reads own fresh)
      have member : nbr ∈ state.lists setting.ep := by
        rw [cons]
        exact List.mem_cons_self
      have other := ((linked.lists setting.ep).named nbr member).1
      refine Finset.one_lt_card.mpr ⟨nbr, expands.visited nbr ?_, setting.ep, ?_, other⟩
      · rw [first]
        exact member
      · exact first ▸ expands.inserted isSeen
    · refine .inr ⟨?_, fun own => (two own).trans (Finset.card_le_card expands.inserted)⟩
      rw [expands.expanded]
      exact List.mem_append_left _ before

/-- The searches of the other threads stay. -/
theorem Safe.setWorker (safe : setting.Safe state) (linked : setting.Linked next)
    {worker : LinkWorker Distance}
    (others : next.workers = Function.update state.workers node worker)
    (crashed : next.crashed = state.crashed)
    (begun : ∀ search, worker = .searching search → setting.Begun node search) :
    setting.Safe next := by
  refine ⟨linked, crashed.trans safe.crashed, fun other search here => ?_⟩
  rw [others, Function.update_apply] at here
  split at here
  · rename_i same
    rw [same]
    exact begun search here
  · exact safe.begun other search here

theorem Safe.step (wide : 2 ≤ setting.params.lSize) (safe : setting.Safe state)
    {action : LinkAction} (admitted : setting.EntryLinked state action)
    (taken : setting.step .link state action = some next) : setting.Safe next := by
  have linked := safe.linked.step taken
  cases step_takes taken with
  | @start node inside =>
    refine safe.setWorker linked rfl rfl fun search same => ?_
    obtain rfl := LinkWorker.searching.inj same
    exact .inl ⟨rfl, fun id member => Finset.mem_singleton.mpr
      (List.mem_singleton.mp (MemorySearch.mem_inserted_start member))⟩
  | @round node search after here round =>
    refine safe.setWorker linked rfl rfl fun other same => ?_
    obtain rfl := LinkWorker.searching.inj same
    have ok := safe.linked.worker here
    have reads : node = setting.ep → setting.ReadsEntry state (state.workers node) := admitted
    rw [here] at reads
    exact (safe.begun node search here).round safe.linked ok.2.1 ok.2.2.1 reads round
  | assign | fill | known | added | copied | written =>
    exact safe.setWorker linked rfl rfl fun search same => by cases same
  | clear insertPoint => cases insertPoint
  | @noPool node action search here ended own prunes =>
    have ok := safe.linked.worker here
    have nonempty := (safe.begun node search here).ownPool_ne_nil wide ok.2.1 ok.2.2.1 ended
    obtain ⟨prunedList, leaves, _⟩ := prune_ownPool ok.2.1 nonempty
    cases prunes.symm.trans leaves
  | @noCopy node des copyOfNeighbors srcPool here prunes =>
    have ok := safe.linked.worker here
    have last : node ∈ copyOfNeighbors ++ [node] := List.mem_append_right _ List.mem_cons_self
    obtain ⟨newOutNeighbors, leaves, _⟩ :=
      prune_dummyPool setting last (ok.2.1 des List.mem_cons_self).1.symm
    cases prunes.symm.trans leaves

/-- In every run in which the entry point's own iteration finds a neighbour, with two places in
the list of a search, no pool is empty. -/
theorem poolsNonempty_of_reachable (wide : 2 ≤ setting.params.lSize)
    (reachable : setting.linkSystem.Reachable setting.EntryLinked state) :
    setting.PoolsNonempty state := by
  have start : ∀ state, setting.linkSystem.initial state → setting.Safe state := by
    intro state begins
    refine ⟨linked_of_reachable (.initial begins), begins.2.2, fun node search here => ?_⟩
    rw [begins.2.1 node] at here
    cases here
  have safe : setting.Safe state := reachable.invariant start
    fun state action next safe admitted taken => safe.step wide admitted taken
  refine ⟨safe.crashed, fun node search here ended => ?_,
    fun node des copyOfNeighbors srcPool here => ?_, fun complete node => ?_⟩
  · have ok := safe.linked.worker here
    exact (safe.begun node search here).ownPool_ne_nil wide ok.2.1 ok.2.2.1 ended
  · have ok := safe.linked.worker here
    have member : node ∈ (setting.dummyPool des (copyOfNeighbors ++ [node])).map Neighbor.id :=
      mem_dummyPool.mpr ⟨List.mem_append_right _ List.mem_cons_self,
        (ok.2.1 des List.mem_cons_self).1.symm⟩
    intro empty
    rw [empty] at member
    exact List.not_mem_nil member
  · obtain ⟨list, cleans, _, _, nonempty⟩ := safe.linked.cleanUp node
    refine ⟨list, cleans, fun loaded => nonempty (safe.linked.assigned node ?_)⟩
    exact hasList_of_ended (complete node (Nat.lt_add_right _ loaded))

end LinkSetting

/-- The entry point after the other point. -/
theorem poolsNonempty_two : (staticLine 2).PoolsNonempty
    ((staticLine 2).linkSystem.after noLinks [.start 1, .round 1, .assign 1, .interInsert 1,
      .start 0, .round 0, .round 0, .assign 0, .interInsert 0]) := by
  have wide : 2 ≤ (staticLine 2).params.lSize := by decide
  have along : (staticLine 2).linkSystem.Along (staticLine 2).EntryLinked noLinks [.start 1,
      .round 1, .assign 1, .interInsert 1, .start 0, .round 0, .round 0, .assign 0,
      .interInsert 0] := by
    decide +kernel
  exact LinkSetting.poolsNonempty_of_reachable wide (.after (.initial (initial_noLinks _)) along)

/-- Two points, the first one is the entry point, and its iteration comes first. -/
theorem not_poolsNonempty_entry : ¬ ∀ (setting : LinkSetting Nat) (state : LinkState Nat),
    2 ≤ setting.nd → setting.linkSystem.Reachable anyStep state → setting.PoolsNonempty state := by
  intro always
  have reached : (staticLine 2).linkSystem.Reachable anyStep
      ((staticLine 2).linkSystem.after noLinks [.start 0, .round 0, .assign 0]) :=
    .after (.initial (initial_noLinks _)) System.along_anyStep
  have safe := (always (staticLine 2) _ le_rfl reached).crashed
  exact absurd safe (by decide +kernel)

end OdinVector
