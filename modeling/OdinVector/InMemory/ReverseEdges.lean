/-
This file says when a reverse edge of `inter_insert` is lost. A list is replaced in three
places: by `inter_insert` with what pruning left of a copy, by `link` with what the search for
its own node led to, and by `insert_point`, which clears it first. Nothing keeps another thread
from writing the list after it was copied or searched.

An entry is lost only there, and pruning has considered it if the list has only what was read.
-/

import OdinVector.InMemory.BuiltLists

namespace OdinVector

open Transition

variable {Distance : Type} [LinearOrder Distance]

namespace Index

variable {params : LinkParams Distance} {distance : Nat → Nat → Distance}

omit [LinearOrder Distance] in
theorem ne_of_mem_filter {location id : Nat} {ids : List Nat}
    (member : id ∈ ids.filter (· ≠ location)) : id ≠ location :=
  of_decide_eq_true (List.mem_filter.mp member).2

theorem ne_of_mem_saturate {location id : Nat} :
    ∀ (pool : List (Neighbor Distance)) {prunedList : List Nat},
      (∀ id ∈ prunedList, id ≠ location) → id ∈ saturate params location pool prunedList →
        id ≠ location
  | [], _, apart, member => apart id member
  | candidate :: rest, prunedList, apart, member => by
    unfold saturate at member
    split at member
    · exact apart id member
    · split at member
      · rename_i fresh
        refine ne_of_mem_saturate rest (fun other inside => ?_) member
        obtain old | last := List.mem_append.mp inside
        · exact apart other old
        · rw [List.mem_singleton.mp last]
          exact fresh.2
      · exact ne_of_mem_saturate rest apart member

/-- `prune_neighbors` does not leave the location itself. -/
theorem ne_of_mem_pruneNeighbors {location id : Nat} {pool : List (Neighbor Distance)}
    {prunedList : List Nat} (prunes : pruneNeighbors params distance location pool = some prunedList)
    (member : id ∈ prunedList) : id ≠ location := by
  obtain ⟨_, same⟩ := Option.ite_none_left_eq_some.mp prunes
  rw [← Option.some.inj same] at member
  split at member
  · exact ne_of_mem_saturate _ (fun other => ne_of_mem_filter) member
  · exact ne_of_mem_filter member

end Index

namespace LinkSetting

variable (setting : LinkSetting Distance)

/-- The threads of a function. -/
def callers : LinkCaller → System (LinkState Distance) LinkAction
  | .link => setting.linkSystem
  | .insertPoint => setting.insertSystem

/-- The call of `prune_neighbors` behind a list that a step replaces: its location and its pool. -/
def pruneCall (state : LinkState Distance) : LinkAction → Option (Nat × List (Neighbor Distance))
  | .assign node | .clear node =>
    match state.workers node with
    | .searching search => some (node, ownPool node search)
    | _ => none
  | .writeBack node =>
    match state.workers node with
    | .writing des copyOfNeighbors _ =>
      some (des, setting.dummyPool des (copyOfNeighbors ++ [node]))
    | _ => none
  | .start _ | .round _ | .fill _ | .interInsert _ => none

/-- A step replaces the list of `des` after a `prune_neighbors` call with `n` in its pool. -/
def Considers (state : LinkState Distance) (action : LinkAction) (des n : Nat) : Prop :=
  ∃ pool, setting.pruneCall state action = some (des, pool) ∧ n ∈ pool.map Neighbor.id

/-- The list that a thread replaces next has only what the thread has read of it or expanded. -/
def OnlyRead (state : LinkState Distance) (node : Nat) : LinkWorker Distance → Prop
  | .searching search => ∀ id ∈ state.lists node, id ∈ search.expandedIds
  | .writing des copyOfNeighbors _ => ∀ id ∈ state.lists des, id ∈ copyOfNeighbors ∨ id = node
  | .waiting | .cleared _ | .linking _ => True

/-- No list is replaced that another thread has added to since it was read. -/
def ReplacesRead (state : LinkState Distance) : LinkAction → Prop
  | .assign node | .clear node | .writeBack node => OnlyRead state node (state.workers node)
  | .start _ | .round _ | .fill _ | .interInsert _ => True

instance decidableOnlyRead (state : LinkState Distance) (node : Nat) :
    ∀ worker : LinkWorker Distance, Decidable (OnlyRead state node worker)
  | .searching _ => inferInstanceAs (Decidable (∀ id ∈ state.lists node, _))
  | .writing des _ _ => inferInstanceAs (Decidable (∀ id ∈ state.lists des, _))
  | .waiting | .cleared _ | .linking _ => .isTrue trivial

instance decidableReplacesRead (state : LinkState Distance) :
    ∀ action : LinkAction, Decidable (ReplacesRead state action)
  | .assign node | .clear node | .writeBack node =>
    inferInstanceAs (Decidable (OnlyRead state node (state.workers node)))
  | .start _ | .round _ | .fill _ | .interInsert _ => .isTrue trivial

/-- `inter_insert` of `n` puts `n` into the list of `des`. -/
structure Puts (state : LinkState Distance) (action : LinkAction) (next : LinkState Distance)
    (des n : Nat) : Prop where
  action : action = .interInsert n ∨ action = .writeBack n
  fresh : n ∉ state.lists des
  member : n ∈ next.lists des

/-- An edge that is gone after the actions was in the pool of one of them. -/
def GoneConsidered (caller : LinkCaller) (state : LinkState Distance) (actions : List LinkAction)
    (last : LinkState Distance) (des n : Nat) : Prop :=
  n ∉ last.lists des → ∃ before action later between, actions = before ++ action :: later ∧
    (setting.callers caller).run state before = some between ∧
      setting.Considers between action des n

/-- What a thread links its node to is not the node. -/
def LinksOthers (node : Nat) : LinkWorker Distance → Prop
  | .linking srcPool | .cleared srcPool => ∀ des ∈ srcPool, des ≠ node
  | .writing des _ srcPool => ∀ other ∈ des :: srcPool, other ≠ node
  | .waiting | .searching _ => True

variable {setting} {caller : LinkCaller} {state next : LinkState Distance} {des n : Nat}

theorem callers_step (caller : LinkCaller) : (setting.callers caller).step = setting.step caller := by
  cases caller with
  | link => rfl
  | insertPoint => rfl

/-! ### Where a thread puts its node -/

omit [LinearOrder Distance] in
theorem linksOthers_setWorker {node : Nat} {worker : LinkWorker Distance}
    (links : ∀ other, LinksOthers other (state.workers other))
    (workers : next.workers = Function.update state.workers node worker)
    (own : LinksOthers node worker) :
    ∀ other, LinksOthers other (next.workers other) := by
  intro other
  rw [workers, Function.update_apply]
  split
  · rename_i same
    rw [same]
    exact own
  · exact links other

omit [LinearOrder Distance] in
theorem linksOthers_worker {node : Nat} {worker : LinkWorker Distance}
    (links : ∀ other, LinksOthers other (state.workers other))
    (here : state.workers node = worker) : LinksOthers node worker := by
  rw [← here]
  exact links node

theorem linksOthers_step (links : ∀ node, LinksOthers node (state.workers node))
    {action : LinkAction} (taken : setting.step caller state action = some next) :
    ∀ node, LinksOthers node (next.workers node) := by
  cases step_takes taken with
  | start | round =>
    refine linksOthers_setWorker links rfl ?_
    trivial
  | assign _ _ _ prunes | clear _ _ _ prunes =>
    refine linksOthers_setWorker links rfl fun id member => ?_
    exact Index.ne_of_mem_pruneNeighbors prunes member
  | noPool | noCopy => exact links
  | @fill node prunedList here =>
    have own := linksOthers_worker links here
    refine linksOthers_setWorker links rfl ?_
    exact own
  | @known node des srcPool here | @added node des srcPool here =>
    have own := linksOthers_worker links here
    refine linksOthers_setWorker links rfl fun other later => ?_
    exact own other (List.mem_cons_of_mem _ later)
  | @copied node des srcPool here =>
    have own := linksOthers_worker links here
    refine linksOthers_setWorker links rfl ?_
    exact own
  | @written node des copyOfNeighbors srcPool newOutNeighbors here =>
    have own := linksOthers_worker links here
    refine linksOthers_setWorker links rfl fun other later => ?_
    exact own other (List.mem_cons_of_mem _ later)

theorem linksOthers_of_reachable
    (reachable : (setting.callers caller).Reachable anyStep state) :
    ∀ node, LinksOthers node (state.workers node) := by
  have start : ∀ state, (setting.callers caller).initial state →
      ∀ node, LinksOthers node (state.workers node) := by
    intro state begins node
    have waiting : state.workers node = .waiting := by
      cases caller with
      | link => exact begins.2.1 node
      | insertPoint => exact begins.1 node
    rw [waiting]
    trivial
  refine reachable.invariant start fun state action next links _ taken => ?_
  rw [callers_step] at taken
  exact linksOthers_step links taken

omit [LinearOrder Distance] in
theorem lists_setList (node other : Nat) (list : List Nat) :
    (state.setList node list).lists other = if other = node then list else state.lists other :=
  Function.update_apply _ _ _ _

/-- `inter_insert` puts a node into lists of other nodes. -/
theorem Puts.ne {action : LinkAction} (puts : Puts state action next des n)
    (links : ∀ node, LinksOthers node (state.workers node))
    (taken : setting.step caller state action = some next) : n ≠ des := by
  have other : ∀ {target : Nat} {list : List Nat} {worker : LinkWorker Distance},
      n ∈ ((state.setList target list).setWorker n worker).lists des → target ≠ n → n ≠ des := by
    intro target list worker member apart same
    have there : n ∈ (state.setList target list).lists des := member
    rw [lists_setList, if_neg (fun equal => apart (equal.symm.trans same.symm))] at there
    exact puts.fresh there
  have member := puts.member
  obtain rfl | rfl := puts.action
  · cases step_takes taken with
    | known | copied => exact absurd member puts.fresh
    | @added _ target srcPool here =>
      have own := linksOthers_worker links here
      exact other member (own target List.mem_cons_self)
    | noPool _ _ own =>
      obtain own | own := own
      · cases own
      · cases own
  · cases step_takes taken with
    | @written _ target copyOfNeighbors srcPool newOutNeighbors here =>
      have own := linksOthers_worker links here
      exact other member (own target List.mem_cons_self)
    | noCopy => exact absurd member puts.fresh
    | noPool _ _ own =>
      obtain own | own := own
      · cases own
      · cases own

/-! ### What a step drops -/

/-- An entry that a step drops was in the pool. -/
theorem considers_of_dropped {action : LinkAction} (member : n ∈ state.lists des) (other : n ≠ des)
    (admitted : ReplacesRead state action) (taken : setting.step caller state action = some next)
    (gone : n ∉ next.lists des) : setting.Considers state action des n := by
  have replaced : ∀ {target : Nat} {list : List Nat},
      n ∉ (state.setList target list).lists des → des = target := by
    intro target list absent
    rw [lists_setList] at absent
    by_contra apart
    rw [if_neg apart] at absent
    exact absent member
  have appended : ∀ {target : Nat} {more : List Nat},
      n ∉ (state.setList target (state.lists target ++ more)).lists des → False := by
    intro target more absent
    have same := replaced absent
    rw [lists_setList, if_pos same, ← same] at absent
    exact absent (List.mem_append_left _ member)
  cases step_takes taken with
  | start | round | noPool | known | copied | noCopy => exact absurd member gone
  | fill | added => exact (appended gone).elim
  | @assign node search prunedList link here | @clear node search prunedList link here =>
    obtain rfl := replaced gone
    have read : OnlyRead state des (state.workers des) := admitted
    rw [here] at read
    refine ⟨ownPool des search, ?_, mem_ownPool.mpr ⟨read n member, other⟩⟩
    unfold pruneCall
    dsimp only
    rw [here]
  | @written node target copyOfNeighbors srcPool newOutNeighbors here =>
    obtain rfl := replaced gone
    have read : OnlyRead state node (state.workers node) := admitted
    rw [here] at read
    refine ⟨setting.dummyPool des (copyOfNeighbors ++ [node]), ?_,
      mem_dummyPool.mpr ⟨List.mem_append.mpr ?_, other⟩⟩
    · unfold pruneCall
      dsimp only
      rw [here]
    · exact (read n member).imp_right fun same => List.mem_singleton.mpr same

/-- In a run that replaces no list that has more than was read, an edge that is gone was in the
pool of a step of the run. -/
theorem goneConsidered_of_run (other : n ≠ des) {actions : List LinkAction} :
    ∀ {state last : LinkState Distance}, n ∈ state.lists des →
      (setting.callers caller).run state actions = some last →
        (setting.callers caller).Along ReplacesRead state actions →
          setting.GoneConsidered caller state actions last des n := by
  induction actions with
  | nil =>
    intro state last member run along gone
    obtain rfl := Option.some.inj run
    exact absurd member gone
  | cons action rest inductionHypothesis =>
    intro state last member run along gone
    obtain ⟨next, taken, remaining⟩ := System.run_cons run
    have taken' := taken
    rw [callers_step] at taken'
    by_cases stays : n ∈ next.lists des
    · obtain ⟨before, dropping, later, between, rfl, reaches, considers⟩ :=
        inductionHypothesis stays remaining (along.2 next taken) gone
      refine ⟨action :: before, dropping, later, between, rfl, ?_, considers⟩
      show ((setting.callers caller).step state action).bind _ = _
      rw [taken]
      exact reaches
    · exact ⟨[], action, rest, state, rfl, rfl,
        considers_of_dropped member other along.1 taken' stays⟩

/-- A reverse edge that `inter_insert` has put is later absent only if a call of
`prune_neighbors` had it in its pool, in a run in which no thread replaces a list that another
one has added to since it was read. -/
theorem reverseEdge_kept {last : LinkState Distance} {action : LinkAction}
    {actions : List LinkAction}
    (reachable : (setting.callers caller).Reachable anyStep state)
    (taken : (setting.callers caller).step state action = some next)
    (puts : Puts state action next des n)
    (run : (setting.callers caller).run next actions = some last)
    (along : (setting.callers caller).Along ReplacesRead next actions) :
    setting.GoneConsidered caller next actions last des n := by
  rw [callers_step] at taken
  have other := puts.ne (linksOthers_of_reachable reachable) taken
  exact goneConsidered_of_run other puts.member run along

/-- The iteration of the entry point begins after another point has put itself into its list. -/
theorem reverseEdge_kept_three : ∃ next last : LinkState Nat, (staticLine 3).GoneConsidered .link
    next [.start 1, .round 1, .round 1, .round 1, .assign 1] last 1 2 := by
  let system := (staticLine 3).callers .link
  have run : ∃ state next last, system.Reachable anyStep state ∧
      system.run state [.interInsert 2] = some next ∧ Puts state (.interInsert 2) next 1 2 ∧
        system.run next [.start 1, .round 1, .round 1, .round 1, .assign 1] = some last ∧
          system.Along ReplacesRead next [.start 1, .round 1, .round 1, .round 1, .assign 1] :=
    ⟨system.after noLinks [.start 0, .round 0, .assign 0, .interInsert 0, .start 2, .round 2,
      .round 2, .assign 2], _, _, .after (.initial (initial_noLinks _)) System.along_anyStep,
      System.run_after (by decide +kernel), ⟨.inl rfl, by decide +kernel, by decide +kernel⟩,
      System.run_after (by decide +kernel), by decide +kernel⟩
  obtain ⟨state, next, last, reached, first, puts, runs, along⟩ := run
  obtain ⟨after, taken, same⟩ := System.run_cons first
  obtain rfl := Option.some.inj same
  exact ⟨after, last, reverseEdge_kept reached taken puts runs along⟩

/-- The iteration of the entry point has searched before another point puts itself into its
list, and assigns its list afterwards. -/
theorem not_goneConsidered_overlap : ¬ ∀ (setting : LinkSetting Nat) (caller : LinkCaller)
    (state next last : LinkState Nat) (action : LinkAction) (actions : List LinkAction)
    (des n : Nat), (setting.callers caller).Reachable anyStep state →
      (setting.callers caller).step state action = some next → Puts state action next des n →
        (setting.callers caller).run next actions = some last →
          setting.GoneConsidered caller next actions last des n := by
  intro always
  let system := (staticLine 3).callers .link
  have run : ∃ state next last, system.Reachable anyStep state ∧
      system.run state [.interInsert 2] = some next ∧ Puts state (.interInsert 2) next 1 2 ∧
        system.run next [.assign 1] = some last ∧ 2 ∉ last.lists 1 ∧
          (((staticLine 3).pruneCall next (.assign 1)).map fun call =>
            call.2.map Neighbor.id) = some [0] :=
    ⟨system.after noLinks [.start 0, .round 0, .assign 0, .interInsert 0, .start 1, .round 1,
      .round 1, .start 2, .round 2, .round 2, .assign 2], _, _,
      .after (.initial (initial_noLinks _)) System.along_anyStep,
      System.run_after (by decide +kernel), ⟨.inl rfl, by decide +kernel, by decide +kernel⟩,
      System.run_after (by decide +kernel), by decide +kernel, by decide +kernel⟩
  obtain ⟨state, next, last, reached, first, puts, runs, gone, pool⟩ := run
  obtain ⟨after, taken, same⟩ := System.run_cons first
  obtain rfl := Option.some.inj same
  obtain ⟨before, action, later, between, split, reaches, calls, call, member⟩ :=
    always (staticLine 3) .link state after last (.interInsert 2) [.assign 1] 1 2 reached taken puts
      runs gone
  cases before with
  | nil =>
    obtain ⟨rfl, _⟩ := List.cons_eq_cons.mp split
    obtain rfl := Option.some.inj reaches
    rw [call, Option.map_some] at pool
    rw [Option.some.inj pool] at member
    exact absurd member (by decide)
  | cons other rest =>
    cases rest with
    | nil => cases split
    | cons => cases split

end LinkSetting

end OdinVector
