/-
This file proves that the two deletion sets lose no deletion. A merge reads the
indices of the sets before it takes `delete_lock`, but only the merge that has
`_merge_lock` changes them. So each set that is retired has the deletions since
the one before it, and stays as it is while the merge reads it.
-/

import OdinVector.Dynamic.DeletionSets

namespace OdinVector

variable {Tag : Type}

/-! ### The merge lock -/

/-- Inserts and merges have the lock in their way. -/
structure MergeLocked (state : DynamicState Tag) : Prop where
  owner : ∀ number kind stage, state.calls number = .merge kind stage →
    state.mergeLock.owner = some number
  shared : ∀ number tag, state.calls number = .insert tag → number ∈ state.mergeLock.shared
  apart : state.mergeLock.owner ≠ none → state.mergeLock.shared = []

namespace MergeLocked

variable [DecidableEq Tag] {state next : DynamicState Tag} {number : Nat}

omit [DecidableEq Tag] in
/-- There is one merge at a time. -/
theorem unique (locked : MergeLocked state) {other : Nat} {kind also : MergeKind}
    {stage later : MergeStage} (first : state.calls number = .merge kind stage)
    (second : state.calls other = .merge also later) :
    number = other ∧ kind = also ∧ stage = later := by
  obtain rfl := Option.some.inj ((locked.owner _ _ _ first).symm.trans (locked.owner _ _ _ second))
  rw [first, Call.merge.injEq] at second
  exact ⟨rfl, second⟩

omit [DecidableEq Tag] in
/-- No insert runs while a merge does. -/
theorem no_insert (locked : MergeLocked state) {other : Nat} {kind : MergeKind}
    {stage : MergeStage} {tag : Tag} (merging : state.calls number = .merge kind stage) :
    state.calls other ≠ .insert tag := by
  intro inserting
  have member := locked.shared other tag inserting
  rw [locked.apart (by rw [locked.owner _ _ _ merging]; nofun)] at member
  cases member

omit [DecidableEq Tag] in
/-- A call that has not the lock goes on. -/
theorem setCall (locked : MergeLocked state) {call : Call Tag}
    (notMerge : ∀ kind stage, call ≠ .merge kind stage) (notInsert : ∀ tag, call ≠ .insert tag) :
    MergeLocked (state.setCall number call) where
  owner other kind stage there := by
    rcases DynamicState.call_setCall there with ⟨_, same⟩ | ⟨_, before⟩
    · exact absurd same.symm (notMerge kind stage)
    · exact locked.owner other kind stage before
  shared other tag there := by
    rcases DynamicState.call_setCall there with ⟨_, same⟩ | ⟨_, before⟩
    · exact absurd same.symm (notInsert tag)
    · exact locked.shared other tag before
  apart := locked.apart

theorem mergeStep (locked : MergeLocked state) {kind : MergeKind} {stage : MergeStage}
    (merging : state.calls number = .merge kind stage) :
    MergeLocked (state.mergeStep number kind stage) := by
  have goesOn : ∀ later, MergeLocked (state.setCall number (.merge kind later)) := by
    intro later
    refine ⟨fun other _ _ there => ?_, fun other tag there => ?_, locked.apart⟩
    · rcases DynamicState.call_setCall there with ⟨rfl, _⟩ | ⟨_, before⟩
      · exact locked.owner _ _ _ merging
      · exact locked.owner _ _ _ before
    · rcases DynamicState.call_setCall there with ⟨_, same⟩ | ⟨_, before⟩
      · cases same
      · exact locked.shared other tag before
  cases stage with
  | started => exact goesOn _
  | switched => exact goesOn _
  | indices nxtIdx curIdx =>
    exact ⟨(goesOn .switched).owner, (goesOn .switched).shared, locked.apart⟩
  | rewriting set =>
    exact ⟨(goesOn .installed).owner, (goesOn .installed).shared, locked.apart⟩
  | installed =>
    have idle : MergeLocked (state.setCall number .idle) := locked.setCall nofun nofun
    refine ⟨fun other kind stage there => ?_, idle.shared, fun owned => absurd rfl owned⟩
    rcases DynamicState.call_setCall there with ⟨_, same⟩ | ⟨different, before⟩
    · cases same
    · exact absurd (locked.unique merging before).1.symm different

theorem step (locked : MergeLocked state) {action : DynamicAction Tag}
    (taken : state.step action = some next) : MergeLocked next := by
  cases DynamicState.takes_of_step taken with
  | startInsert number tag ended free =>
    refine ⟨fun other kind stage there => ?_, fun other tag there => ?_, fun owned =>
      absurd free owned⟩
    · rcases DynamicState.call_setCall there with ⟨_, same⟩ | ⟨_, before⟩
      · cases same
      · exact nomatch free.symm.trans (locked.owner _ _ _ before)
    · rcases DynamicState.call_setCall there with ⟨rfl, _⟩ | ⟨_, before⟩
      · exact List.mem_cons_self
      · exact List.mem_cons_of_mem _ (locked.shared other tag before)
  | startDelete | startSearch => exact locked.setCall nofun nofun
  | startMerge number kind ended free =>
    refine ⟨fun other kind stage there => ?_, fun other tag there => ?_, fun _ => rfl⟩
    · rcases DynamicState.call_setCall there with ⟨rfl, _⟩ | ⟨_, before⟩
      · rfl
      · have owned := locked.owner _ _ _ before
        rw [free] at owned
        cases owned
    · rcases DynamicState.call_setCall there with ⟨_, same⟩ | ⟨_, before⟩
      · cases same
      · have member := locked.shared other tag before
        rw [free] at member
        cases member
  | meet => exact locked.setCall nofun nofun
  | insert number tag call =>
    have idle : MergeLocked (state.setCall number .idle) := locked.setCall nofun nofun
    refine ⟨idle.owner, fun other added there => ?_, fun owned => ?_⟩
    · rcases DynamicState.call_setCall there with ⟨_, same⟩ | ⟨different, before⟩
      · cases same
      · exact (List.mem_erase_of_ne different).mpr (locked.shared other added before)
    · show state.mergeLock.shared.erase number = []
      rw [locked.apart owned, List.erase_nil]
  | lazyDelete number tag call =>
    have idle : MergeLocked (state.setCall number .idle) := locked.setCall nofun nofun
    exact ⟨idle.owner, idle.shared, locked.apart⟩
  | search => exact locked.setCall nofun nofun
  | merge number kind stage call => exact locked.mergeStep call

end MergeLocked

theorem DynamicState.Fresh.mergeLocked {state : DynamicState Tag} (fresh : state.Fresh) :
    MergeLocked state := by
  refine ⟨fun number _ _ there => ?_, fun number _ there => ?_, fun owned => ?_⟩
  · exact nomatch (fresh.calls number).symm.trans there
  · exact nomatch (fresh.calls number).symm.trans there
  · rw [fresh.mergeLock] at owned
    exact absurd rfl owned

/-! ### What is deleted -/

/-- A merge that is past `save_del_set` has the set that was retired last. -/
structure DynamicState.Retires (state : DynamicState Tag) : Prop where
  indices : ∀ number kind nxtIdx curIdx,
    state.calls number = .merge kind (.indices nxtIdx curIdx) →
      nxtIdx = 1 - state.sets.activeDeleteSet ∧ curIdx = state.sets.activeDeleteSet
  switched : ∀ number kind, state.calls number = .merge kind .switched →
    state.retired.getLast? =
      some ⟨number, kind, state.sets.deletionSets (1 - state.sets.activeDeleteSet)⟩
  rewriting : ∀ number kind set, state.calls number = .merge kind (.rewriting (some set)) →
    set = 1 - state.sets.activeDeleteSet ∧
      state.retired.getLast? = some ⟨number, kind, state.sets.deletionSets set⟩
  unread : ∀ number kind, state.calls number = .merge kind (.rewriting none) →
    kind = .finalMergeGraph

/-- The sets that have been retired and the active one have the deletions of their time. -/
structure DynamicState.Accounts (state : DynamicState Tag) : Prop where
  active : ∀ tag, tag ∈ state.sets.deletionSets state.sets.activeDeleteSet ↔
    ⟨tag, state.retired.length⟩ ∈ state.deletions
  passed : ∀ index entry, state.retired[index]? = some entry →
    ∀ tag, tag ∈ entry.tags ↔ ⟨tag, index⟩ ∈ state.deletions
  past : ∀ deletion ∈ state.deletions, deletion.retired ≤ state.retired.length

/-- The invariant of the deletion sets. -/
structure Balanced (state : DynamicState Tag) : Prop where
  locked : MergeLocked state
  consistent : state.sets.Consistent
  retires : state.Retires
  accounts : state.Accounts

section Balanced

variable [DecidableEq Tag] {state next : DynamicState Tag} {number : Nat}

omit [DecidableEq Tag] in
/-- A step that leaves the sets, and the merges that are past `save_del_set`. -/
theorem DynamicState.Retires.later (retires : state.Retires) (sets : next.sets = state.sets)
    (retired : next.retired = state.retired)
    (same : ∀ other kind stage, next.calls other = .merge kind stage →
      stage = .started ∨ stage = .installed ∨ state.calls other = .merge kind stage) :
    next.Retires := by
  refine ⟨fun other kind nxtIdx curIdx there => ?_, fun other kind there => ?_,
    fun other kind set there => ?_, fun other kind there => ?_⟩
  · rw [sets]
    exact retires.indices other kind _ _
      (((same _ _ _ there).resolve_left nofun).resolve_left nofun)
  · rw [sets, retired]
    exact retires.switched other kind (((same _ _ _ there).resolve_left nofun).resolve_left nofun)
  · rw [sets, retired]
    exact retires.rewriting other kind set
      (((same _ _ _ there).resolve_left nofun).resolve_left nofun)
  · exact retires.unread other kind (((same _ _ _ there).resolve_left nofun).resolve_left nofun)

omit [DecidableEq Tag] in
theorem DynamicState.Retires.setCall (retires : state.Retires) {call : Call Tag}
    (calls : next.calls = (state.setCall number call).calls) (sets : next.sets = state.sets)
    (retired : next.retired = state.retired)
    (early : ∀ kind stage, call = .merge kind stage → stage = .started ∨ stage = .installed) :
    next.Retires := by
  refine retires.later sets retired fun other kind stage there => ?_
  rw [calls] at there
  rcases DynamicState.call_setCall there with ⟨_, same⟩ | ⟨_, before⟩
  · exact (early kind stage same.symm).imp_right .inl
  · exact .inr (.inr before)

theorem DynamicState.Retires.lazyDelete (retires : state.Retires)
    (consistent : state.sets.Consistent) (tag : Tag) {deletions : List (Deletion Tag)} :
    { state.setCall number .idle with
      sets := state.sets.lazyDelete tag
      deletions := deletions }.Retires := by
  have idle : (state.setCall number .idle).Retires := retires.setCall rfl rfl rfl nofun
  have small := consistent.active_le
  have different : 1 - state.sets.activeDeleteSet ≠ state.sets.activeDeleteSet := by omega
  have other := (state.sets.lazyDelete_other tag different).1
  refine ⟨fun _ kind nxtIdx curIdx there => ?_, fun _ kind there => ?_, fun _ kind set there => ?_,
    idle.unread⟩
  · simp only [DeletionSets.lazyDelete_active]
    exact idle.indices _ kind _ _ there
  · simp only [DeletionSets.lazyDelete_active, other]
    exact idle.switched _ kind there
  · obtain ⟨rfl, last⟩ := idle.rewriting _ kind set there
    simp only [DeletionSets.lazyDelete_active]
    exact ⟨rfl, last.trans
      (congrArg (fun tags => some (⟨_, kind, tags⟩ : RetiredSet Tag)) other.symm)⟩

omit [DecidableEq Tag] in
theorem DynamicState.Accounts.later (accounts : state.Accounts) (sets : next.sets = state.sets)
    (deletions : next.deletions = state.deletions) (retired : next.retired = state.retired) :
    next.Accounts := by
  refine ⟨?_, ?_, ?_⟩
  · rw [sets, deletions, retired]
    exact accounts.active
  · rw [deletions, retired]
    exact accounts.passed
  · rw [deletions, retired]
    exact accounts.past

theorem DynamicState.Accounts.lazyDelete (accounts : state.Accounts)
    (tag : Tag) {calls : Nat → Call Tag} :
    { state with
      calls := calls
      sets := state.sets.lazyDelete tag
      deletions := ⟨tag, state.retired.length⟩ :: state.deletions }.Accounts := by
  refine ⟨fun other => ?_, fun index entry here other => ?_, fun deletion member => ?_⟩
  · simp only [DeletionSets.lazyDelete_active, DeletionSets.mem_lazyDelete, List.mem_cons,
      Deletion.mk.injEq, and_true, true_and]
    rw [accounts.active, or_comm]
  · have inside := (List.getElem?_eq_some_iff.mp here).1
    rw [accounts.passed index entry here other, List.mem_cons, Deletion.mk.injEq]
    exact (or_iff_right fun both => Nat.ne_of_lt inside both.2).symm
  · rcases List.mem_cons.mp member with rfl | before
    · exact Nat.le_refl _
    · exact accounts.past deletion before

omit [DecidableEq Tag] in
theorem DynamicState.Accounts.saveDelSet (accounts : state.Accounts)
    (consistent : state.sets.Consistent) (kind : MergeKind) {calls : Nat → Call Tag} :
    { state with
      calls := calls
      sets := state.sets.saveDelSet (1 - state.sets.activeDeleteSet) state.sets.activeDeleteSet
      retired := state.retired ++
        [RetiredSet.mk number kind
          (state.sets.deletionSets state.sets.activeDeleteSet)] }.Accounts := by
  have small := consistent.active_le
  have different : state.sets.activeDeleteSet ≠ 1 - state.sets.activeDeleteSet := by omega
  have empty := (state.sets.saveDelSet_retired different).2
  refine ⟨fun tag => ?_, fun index entry here tag => ?_, fun deletion member => ?_⟩
  · show tag ∈ DeletionSets.deletionSets _ (1 - state.sets.activeDeleteSet) ↔ _
    rw [empty, List.length_append, List.length_singleton]
    refine iff_of_false (Finset.notMem_empty tag) fun member => ?_
    exact absurd (accounts.past _ member) (Nat.not_le.mpr (Nat.lt_succ_self _))
  · rw [List.getElem?_append] at here
    split at here
    · exact accounts.passed index entry here tag
    · rename_i beyond
      obtain ⟨inside, rfl⟩ := List.getElem?_eq_some_iff.mp here
      have last : index = state.retired.length := by
        rw [List.length_singleton] at inside
        omega
      subst last
      simp only [Nat.sub_self, List.getElem_cons_zero]
      exact accounts.active tag
  · rw [List.length_append]
    exact Nat.le_succ_of_le (accounts.past deletion member)

theorem Balanced.mergeStep (balanced : Balanced state) {kind : MergeKind} {stage : MergeStage}
    (merging : state.calls number = .merge kind stage) :
    Balanced (state.mergeStep number kind stage) := by
  have locked := balanced.locked.mergeStep merging
  -- the other merges are this one
  have alone : ∀ {call : Call Tag} {other : Nat} {also : MergeKind} {later : MergeStage},
      (state.setCall number call).calls other = .merge also later →
        other = number ∧ call = .merge also later := by
    intro call other also later there
    rcases DynamicState.call_setCall there with ⟨same, stage_eq⟩ | ⟨different, before⟩
    · exact ⟨same, stage_eq.symm⟩
    · exact absurd (balanced.locked.unique merging before).1.symm different
  cases stage with
  | started =>
    refine ⟨locked, balanced.consistent, ⟨fun other also nxtIdx curIdx there => ?_,
      fun other also there => ?_, fun other also set there => ?_, fun other also there => ?_⟩,
      balanced.accounts.later rfl rfl rfl⟩
    · obtain ⟨_, stage_eq⟩ := alone there
      rw [Call.merge.injEq, MergeStage.indices.injEq] at stage_eq
      exact ⟨stage_eq.2.1.symm, stage_eq.2.2.symm⟩
    · cases (alone there).2
    · cases (alone there).2
    · cases (alone there).2
  | indices nxtIdx curIdx =>
    obtain ⟨rfl, rfl⟩ := balanced.retires.indices number kind _ _ merging
    have small := balanced.consistent.active_le
    have different : state.sets.activeDeleteSet ≠ 1 - state.sets.activeDeleteSet := by omega
    have kept := (state.sets.saveDelSet_retired different).1
    refine ⟨locked, balanced.consistent.saveDelSet, ⟨fun other also nxtIdx curIdx there => ?_,
      fun other also there => ?_, fun other also set there => ?_, fun other also there => ?_⟩,
      balanced.accounts.saveDelSet balanced.consistent kind⟩
    · cases (alone there).2
    · obtain ⟨rfl, stage_eq⟩ := alone there
      rw [Call.merge.injEq] at stage_eq
      have back : 1 - (1 - state.sets.activeDeleteSet) = state.sets.activeDeleteSet := by omega
      show (state.retired ++ [_]).getLast? = some ⟨other, also,
        (state.sets.saveDelSet (1 - state.sets.activeDeleteSet)
          state.sets.activeDeleteSet).deletionSets (1 - (1 - state.sets.activeDeleteSet))⟩
      rw [List.getLast?_append, List.getLast?_singleton, back, kept, stage_eq.1]
      rfl
    · cases (alone there).2
    · cases (alone there).2
  | switched =>
    have last := balanced.retires.switched number kind merging
    refine ⟨locked, balanced.consistent, ⟨fun other also nxtIdx curIdx there => ?_,
      fun other also there => ?_, fun other also set there => ?_, fun other also there => ?_⟩,
      balanced.accounts.later rfl rfl rfl⟩
    · cases (alone there).2
    · cases (alone there).2
    · obtain ⟨rfl, stage_eq⟩ := alone there
      rw [Call.merge.injEq, MergeStage.rewriting.injEq] at stage_eq
      obtain ⟨rfl, passed⟩ := stage_eq
      have set_eq : set = 1 - state.sets.activeDeleteSet := by
        cases kind with
        | finalMergeGraph => cases passed
        | finalMerge | finalMergeStreamPqTags => exact (Option.some.inj passed).symm
      subst set_eq
      exact ⟨rfl, last⟩
    · obtain ⟨rfl, stage_eq⟩ := alone there
      rw [Call.merge.injEq, MergeStage.rewriting.injEq] at stage_eq
      obtain ⟨rfl, passed⟩ := stage_eq
      cases kind with
      | finalMergeGraph => rfl
      | finalMerge | finalMergeStreamPqTags => cases passed
  | rewriting set =>
    refine ⟨locked, balanced.consistent, balanced.retires.setCall rfl rfl rfl ?_,
      balanced.accounts.later rfl rfl rfl⟩
    intro also stage same
    rw [Call.merge.injEq] at same
    exact .inr same.2.symm
  | installed =>
    exact ⟨locked, balanced.consistent, balanced.retires.setCall rfl rfl rfl nofun,
      balanced.accounts.later rfl rfl rfl⟩

theorem Balanced.step (balanced : Balanced state) {action : DynamicAction Tag}
    (taken : state.step action = some next) : Balanced next := by
  have locked := balanced.locked.step taken
  cases DynamicState.takes_of_step taken with
  | startMerge number kind =>
    refine ⟨locked, balanced.consistent, balanced.retires.setCall rfl rfl rfl ?_,
      balanced.accounts.later rfl rfl rfl⟩
    intro also stage same
    rw [Call.merge.injEq] at same
    exact .inl same.2.symm
  | lazyDelete number tag call =>
    exact ⟨locked, balanced.consistent.lazyDelete tag,
      balanced.retires.lazyDelete balanced.consistent tag, balanced.accounts.lazyDelete tag⟩
  | merge number kind stage call => exact balanced.mergeStep call
  | _ =>
    exact ⟨locked, balanced.consistent, balanced.retires.setCall rfl rfl rfl nofun,
      balanced.accounts.later rfl rfl rfl⟩

end Balanced

theorem DynamicState.Fresh.balanced {state : DynamicState Tag} (fresh : state.Fresh) :
    Balanced state where
  locked := fresh.mergeLocked
  consistent := fresh.sets ▸ DeletionSets.consistent_init
  retires := by
    have idle := fresh.calls
    exact ⟨fun number _ _ _ there => (nomatch (idle number).symm.trans there),
      fun number _ there => (nomatch (idle number).symm.trans there),
      fun number _ _ there => (nomatch (idle number).symm.trans there),
      fun number _ there => (nomatch (idle number).symm.trans there)⟩
  accounts := by
    refine ⟨fun tag => ?_, fun index entry here => ?_, fun deletion member => ?_⟩
    · rw [fresh.sets, fresh.deletions]
      exact iff_of_false (Finset.notMem_empty tag) List.not_mem_nil
    · rw [fresh.retired] at here
      cases here
    · rw [fresh.deletions] at member
      cases member

/-! ### No deletion is lost -/

/-- The step starts no `final_merge_graph`. -/
def DynamicAction.StartsNoGraphMerge : DynamicAction Tag → Prop
  | .call _ (.merge kind) => kind ≠ .finalMergeGraph
  | _ => True

instance (action : DynamicAction Tag) : Decidable action.StartsNoGraphMerge :=
  match action with
  | .call _ (.merge kind) => inferInstanceAs (Decidable (kind ≠ .finalMergeGraph))
  | .call _ (.insert _) | .call _ (.lazyDelete _) | .call _ (.search _) | .meet _ _ | .step _ =>
    isTrue trivial

/-- No merge that runs is a `final_merge_graph`. -/
def NoGraphMerge (state : DynamicState Tag) : Prop :=
  ∀ number kind stage, state.calls number = .merge kind stage → kind ≠ .finalMergeGraph

section Passing

variable [DecidableEq Tag] {state next : DynamicState Tag}

theorem NoGraphMerge.step (none : NoGraphMerge state) {action : DynamicAction Tag}
    (notGraph : action.StartsNoGraphMerge) (taken : state.step action = some next) :
    NoGraphMerge next := by
  have moved : ∀ number call,
      (∀ kind stage, call = .merge kind stage → kind ≠ .finalMergeGraph) →
        NoGraphMerge (state.setCall number call) := by
    intro number call own other kind stage there
    rcases DynamicState.call_setCall there with ⟨_, same⟩ | ⟨_, before⟩
    · exact own kind stage same.symm
    · exact none other kind stage before
  have goesOn : ∀ number kind stage, kind ≠ .finalMergeGraph →
      NoGraphMerge (state.setCall number (.merge kind stage)) := by
    intro number kind stage notGraph
    refine moved number _ fun also later same => ?_
    rw [Call.merge.injEq] at same
    exact same.1 ▸ notGraph
  cases DynamicState.takes_of_step taken with
  | startMerge number kind => exact goesOn number kind .started notGraph
  | merge number kind stage call =>
    have notGraph := none number kind stage call
    cases stage with
    | started | switched => exact goesOn number kind _ notGraph
    | indices => exact goesOn number kind .switched notGraph
    | rewriting => exact goesOn number kind .installed notGraph
    | installed => exact moved number .idle nofun
  | startInsert number tag => exact moved number (.insert tag) nofun
  | insert number | lazyDelete number => exact moved number .idle nofun
  | _ => exact moved _ _ nofun

/-- Nothing changes the set that a merge reads. -/
theorem Balanced.unchanged (balanced : Balanced state) {number set : Nat} {kind : MergeKind}
    (reads : state.calls number = .merge kind (.rewriting (some set)))
    {action : DynamicAction Tag} (taken : state.step action = some next) :
    next.sets.deletionSets set = state.sets.deletionSets set ∧
      next.sets.deletedTags set = state.sets.deletedTags set := by
  have small := balanced.consistent.active_le
  obtain ⟨rfl, _⟩ := balanced.retires.rewriting number kind set reads
  cases DynamicState.takes_of_step taken with
  | lazyDelete other tag => exact state.sets.lazyDelete_other tag (by omega)
  | merge other also stage call =>
    obtain ⟨_, _, rfl⟩ := balanced.locked.unique call reads
    exact ⟨rfl, rfl⟩
  | _ => exact ⟨rfl, rfl⟩

/-- In every run of deletions, inserts, searches and merges other than `final_merge_graph` the
deletions are those in the active set and those in the sets retired so far, each in the set of its
time. A merge that rewrites the graph has the set retired last, which no step changes. The sets and
their vectors have the same tags, the active set is the one that accepts deletions, and nothing
else is logged than that a set has been cleared. -/
theorem no_deletion_is_lost (reachable : (dynamicSystem Tag).Reachable
      (fun _ action => action.StartsNoGraphMerge) state) :
    (∀ tag index, ⟨tag, index⟩ ∈ state.deletions ↔
      index = state.retired.length ∧
          tag ∈ state.sets.deletionSets state.sets.activeDeleteSet ∨
        ∃ entry, state.retired[index]? = some entry ∧ tag ∈ entry.tags) ∧
    (∀ number kind set, state.calls number = .merge kind (.rewriting set) → ∃ idx,
      set = some idx ∧
        state.retired.getLast? = some ⟨number, kind, state.sets.deletionSets idx⟩ ∧
          ∀ action next, state.step action = some next →
            next.sets.deletionSets idx = state.sets.deletionSets idx ∧
              next.sets.deletedTags idx = state.sets.deletedTags idx) ∧
    (∀ set, (state.sets.deletedTags set).Nodup ∧
      ∀ tag, tag ∈ state.sets.deletedTags set ↔ tag ∈ state.sets.deletionSets set) ∧
    (∀ set ≤ 1, state.sets.activeDel set = true ↔ set = state.sets.activeDeleteSet) ∧
    ∀ message ∈ state.sets.log, ∃ set, message = .clearedDeletionSet set := by
  have start : ∀ first : DynamicState Tag, first.Fresh → Balanced first ∧ NoGraphMerge first :=
    fun _ fresh => ⟨fresh.balanced, fun number _ _ there =>
      (nomatch (fresh.calls number).symm.trans there)⟩
  have both : Balanced state ∧ NoGraphMerge state := reachable.invariant start
    fun _ _ _ before notGraph taken => ⟨before.1.step taken, before.2.step notGraph taken⟩
  obtain ⟨balanced, noGraph⟩ := both
  refine ⟨fun tag index => ⟨fun deleted => ?_, ?_⟩, fun number kind set rewriting => ?_,
    fun set => ⟨balanced.consistent.once set, balanced.consistent.same set⟩,
    balanced.consistent.accepts, balanced.consistent.quiet⟩
  · rcases Nat.lt_or_eq_of_le (balanced.accounts.past _ deleted) with before | now
    · refine .inr ⟨_, List.getElem?_eq_getElem before, ?_⟩
      exact (balanced.accounts.passed index _ (List.getElem?_eq_getElem before) tag).mpr deleted
    · have now : index = state.retired.length := now
      subst now
      exact .inl ⟨rfl, (balanced.accounts.active tag).mpr deleted⟩
  · rintro (⟨rfl, active⟩ | ⟨entry, here, listed⟩)
    · exact (balanced.accounts.active tag).mp active
    · exact (balanced.accounts.passed index entry here tag).mp listed
  · cases set with
    | none =>
      exact absurd (balanced.retires.unread number kind rewriting)
        (noGraph number kind _ rewriting)
    | some idx =>
      exact ⟨idx, rfl, (balanced.retires.rewriting number kind idx rewriting).2,
        fun _ _ taken => balanced.unchanged rewriting taken⟩

end Passing

/-- An index without points. -/
def noCalls : DynamicState Nat where
  sets := .init
  searchable := ∅
  mergeLock := ⟨[], none⟩
  calls _ := .idle
  deletions := []
  retired := []

theorem noCalls_fresh : noCalls.Fresh := ⟨rfl, rfl, fun _ => rfl, rfl, rfl⟩

/-- A deletion, and a merge up to the rewrite of the graph with the set of the deletion. -/
def deleteThenMerge : List (DynamicAction Nat) :=
  [.call 0 (.lazyDelete 5), .step 0, .call 1 (.merge .finalMerge), .step 1, .step 1, .step 1]

/-- The deletion is in the set that the merge reads. -/
theorem no_deletion_is_lost_deleteThenMerge :
    ∃ entry, ((dynamicSystem Nat).after noCalls deleteThenMerge).retired[0]? = some entry ∧
      5 ∈ entry.tags := by
  have along : (dynamicSystem Nat).Along
      (fun _ action => action.StartsNoGraphMerge) noCalls deleteThenMerge :=
    Transition.System.along_of_all (by decide)
  have deleted := ((no_deletion_is_lost
    ((Transition.System.Reachable.initial noCalls_fresh).after along)).1 5 0).mp (by decide +kernel)
  exact deleted.resolve_left (by decide +kernel)

end OdinVector
