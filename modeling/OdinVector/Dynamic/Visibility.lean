/-
This file is about the tags that a search returns. A search takes the active
deletion set when it starts and leaves out the tags that are in it when it ends.
A deleted tag stays out of the results as long as every search that starts while a
merge still has to take the retired tags out of the index finds none of them, no
set is cleared under a search, and only a merge that takes its tags out of the
index retires any.
-/

import OdinVector.Dynamic.Retirement

namespace OdinVector

variable {Tag : Type}

/-- A merge has retired its set and has not installed its result. -/
def MergeStage.Pending : MergeStage → Prop
  | .switched | .rewriting _ => True
  | _ => False

/-- The search of a call may not return the tag. -/
structure Shielded (state : DynamicState Tag) (tag : Tag) (number : Nat) : Prop where
  searching : ∀ k set found, state.calls number = .search k set found →
    tag ∈ state.sets.deletionSets set ∨
      tag ∉ found ∧ tag ∉ state.searchable ∧ ∀ other, state.calls other ≠ .insert tag
  returned : ∀ tags, state.calls number = .returned tags → tag ∉ tags

/-- The tag has been deleted and is not inserted again. -/
def Hidden (state : DynamicState Tag) (tag : Tag) : Prop :=
  tag ∈ state.sets.deletionSets state.sets.activeDeleteSet ∨
    (∃ number stage, state.calls number = .merge .finalMerge stage ∧ stage.Pending ∧
      tag ∈ state.sets.deletionSets (1 - state.sets.activeDeleteSet)) ∨
    tag ∉ state.searchable ∧ ∀ other, state.calls other ≠ .insert tag

/-- The step starts no insert of the tag. -/
def DynamicAction.StartsNoInsertOf (tag : Tag) : DynamicAction Tag → Prop
  | .call _ (.insert other) => other ≠ tag
  | _ => True

instance [DecidableEq Tag] (tag : Tag) (action : DynamicAction Tag) :
    Decidable (action.StartsNoInsertOf tag) :=
  match action with
  | .call _ (.insert other) => inferInstanceAs (Decidable (other ≠ tag))
  | .call _ (.lazyDelete _) | .call _ (.search _) | .call _ (.merge _) | .meet _ _ | .step _ =>
    isTrue trivial

/-- A search that starts finds no tag that a merge has retired. A merge that goes on to
`save_del_set` clears the set of no search, and retires tags of the index only for
`final_merge`. -/
def Shields (state : DynamicState Tag) : DynamicAction Tag → Prop
  | .call _ (.search _) => ∀ other kind stage, state.calls other = .merge kind stage →
      stage.Pending → ∀ tag ∈ state.sets.deletionSets (1 - state.sets.activeDeleteSet),
        tag ∉ state.searchable
  | .step number => ∀ kind nxtIdx curIdx,
      state.calls number = .merge kind (.indices nxtIdx curIdx) →
        (∀ other k set found, state.calls other = .search k set found → set ≠ nxtIdx) ∧
          (kind ≠ .finalMerge → ∀ tag ∈ state.sets.deletionSets curIdx, tag ∉ state.searchable)
  | _ => True

section Hidden

variable [DecidableEq Tag] {state next : DynamicState Tag} {tag : Tag} {number : Nat}

omit [DecidableEq Tag] in
/-- A step that leaves the sets, the merges and the inserts of the tag. -/
theorem Hidden.later (hidden : Hidden state tag) (sets : next.sets = state.sets)
    (merges : ∀ other kind stage, state.calls other = .merge kind stage →
      next.calls other = .merge kind stage)
    (searchable : tag ∉ state.searchable → (∀ other, state.calls other ≠ .insert tag) →
      tag ∉ next.searchable ∧ ∀ other, next.calls other ≠ .insert tag) : Hidden next tag := by
  unfold Hidden
  rw [sets]
  rcases hidden with active | ⟨other, stage, merging, pending, retired⟩ | ⟨gone, idle⟩
  · exact .inl active
  · exact .inr (.inl ⟨other, stage, merges _ _ _ merging, pending, retired⟩)
  · exact .inr (.inr (searchable gone idle))

theorem Hidden.lazyDelete (hidden : Hidden state tag) {other : Tag}
    (call : state.calls number = .lazyDelete other) {deletions : List (Deletion Tag)} :
    Hidden { state.setCall number .idle with
      sets := state.sets.lazyDelete other
      deletions := deletions } tag := by
  unfold Hidden
  simp only [DeletionSets.lazyDelete_active, DeletionSets.mem_lazyDelete]
  rcases hidden with active | ⟨merger, stage, merging, pending, retired⟩ | ⟨gone, idle⟩
  · exact .inl (.inl active)
  · refine .inr (.inl ⟨merger, stage, ?_, pending, .inl retired⟩)
    refine (Function.update_of_ne ?_ _ _).trans merging
    rintro rfl
    exact nomatch call.symm.trans merging
  · refine .inr (.inr ⟨gone, fun inserter there => ?_⟩)
    rcases DynamicState.call_setCall there with ⟨_, same⟩ | ⟨_, before⟩
    · cases same
    · exact idle inserter before

/-- The tag is in the set that a merge retires, or it is gone. -/
theorem Hidden.saveDelSet (hidden : Hidden state tag) (balanced : Balanced state)
    {kind : MergeKind} {nxtIdx curIdx : Nat}
    (merging : state.calls number = .merge kind (.indices nxtIdx curIdx))
    (shields : Shields state (.step number)) :
    Hidden (state.mergeStep number kind (.indices nxtIdx curIdx)) tag := by
  obtain ⟨rfl, rfl⟩ := balanced.retires.indices _ _ _ _ merging
  have small := balanced.consistent.active_le
  have different : state.sets.activeDeleteSet ≠ 1 - state.sets.activeDeleteSet := by omega
  have back : 1 - (1 - state.sets.activeDeleteSet) = state.sets.activeDeleteSet := by omega
  have kept := (state.sets.saveDelSet_retired different).1
  have gone : tag ∉ state.searchable →
      Hidden (state.mergeStep number kind
        (.indices (1 - state.sets.activeDeleteSet) state.sets.activeDeleteSet)) tag := by
    refine fun gone => .inr (.inr ⟨gone, fun other there => ?_⟩)
    rcases DynamicState.call_setCall there with ⟨_, same⟩ | ⟨_, before⟩
    · cases same
    · exact balanced.locked.no_insert merging before
  rcases hidden with active | ⟨other, stage, also, pending, _⟩ | ⟨notThere, _⟩
  · by_cases isFinal : kind = .finalMerge
    · subst isFinal
      refine .inr (.inl ⟨number, .switched, Function.update_self _ _ _, trivial, ?_⟩)
      show tag ∈ (state.sets.saveDelSet _ _).deletionSets (1 - (1 - state.sets.activeDeleteSet))
      rwa [back, kept]
    · exact gone ((shields kind _ _ merging).2 isFinal tag active)
  · obtain ⟨_, _, rfl⟩ := balanced.locked.unique also merging
    exact pending.elim
  · exact gone notThere

theorem Hidden.mergeStep (hidden : Hidden state tag) (balanced : Balanced state)
    {kind : MergeKind} {stage : MergeStage}
    (merging : state.calls number = .merge kind stage)
    (shields : Shields state (.step number)) :
    Hidden (state.mergeStep number kind stage) tag := by
  have noInsert : ∀ {call : Call Tag}, (∀ added, call ≠ .insert added) →
      ∀ other, (state.setCall number call).calls other ≠ .insert tag := by
    intro call notInsert other there
    rcases DynamicState.call_setCall there with ⟨_, same⟩ | ⟨_, before⟩
    · exact notInsert tag same.symm
    · exact balanced.locked.no_insert merging before
  cases stage with
  | started =>
    rcases hidden with active | ⟨other, later, also, pending, _⟩ | ⟨gone, _⟩
    · exact .inl active
    · obtain ⟨_, _, rfl⟩ := balanced.locked.unique also merging
      exact pending.elim
    · exact .inr (.inr ⟨gone, noInsert nofun⟩)
  | indices nxtIdx curIdx => exact hidden.saveDelSet balanced merging shields
  | switched =>
    rcases hidden with active | ⟨other, later, also, _, retired⟩ | ⟨gone, _⟩
    · exact .inl active
    · obtain ⟨rfl, rfl, _⟩ := balanced.locked.unique also merging
      exact .inr (.inl ⟨other, _, Function.update_self _ _ _, trivial, retired⟩)
    · exact .inr (.inr ⟨gone, noInsert nofun⟩)
  | rewriting set =>
    rcases hidden with active | ⟨other, later, also, _, retired⟩ | ⟨gone, _⟩
    · exact .inl active
    · obtain ⟨rfl, rfl, rfl⟩ := balanced.locked.unique also merging
      cases set with
      | none => exact nomatch balanced.retires.unread _ _ merging
      | some set =>
        obtain ⟨rfl, _⟩ := balanced.retires.rewriting _ _ _ merging
        refine .inr (.inr ⟨fun there => ?_, noInsert nofun⟩)
        exact (Finset.mem_sdiff.mp there).2 retired
    · refine .inr (.inr ⟨fun there => gone ?_, noInsert nofun⟩)
      cases kind with
      | finalMerge =>
        cases set with
        | none => exact there
        | some set => exact (Finset.mem_sdiff.mp there).1
      | finalMergeGraph | finalMergeStreamPqTags => exact there
  | installed =>
    rcases hidden with active | ⟨other, later, also, pending, _⟩ | ⟨gone, _⟩
    · exact .inl active
    · obtain ⟨_, _, rfl⟩ := balanced.locked.unique also merging
      exact pending.elim
    · exact .inr (.inr ⟨gone, noInsert nofun⟩)

theorem Hidden.step (hidden : Hidden state tag) (balanced : Balanced state)
    {action : DynamicAction Tag} (shields : Shields state action)
    (noInsert : action.StartsNoInsertOf tag) (taken : state.step action = some next) :
    Hidden next tag := by
  -- a call that is no merge goes on
  have moved : ∀ mover call, (∀ kind stage, state.calls mover ≠ .merge kind stage) →
      ∀ other kind stage, state.calls other = .merge kind stage →
        (state.setCall mover call).calls other = .merge kind stage := by
    intro mover call notMerge other kind stage merging
    refine (Function.update_of_ne ?_ _ _).trans merging
    rintro rfl
    exact notMerge kind stage merging
  have idle : ∀ mover call, call ≠ .insert tag → (∀ other, state.calls other ≠ .insert tag) →
      ∀ other, (state.setCall mover call).calls other ≠ .insert tag := by
    intro mover call notInsert noneBefore other there
    rcases DynamicState.call_setCall there with ⟨_, same⟩ | ⟨_, before⟩
    · exact notInsert same.symm
    · exact noneBefore other before
  have ended : ∀ mover, (state.calls mover).Ended →
      ∀ kind stage, state.calls mover ≠ .merge kind stage := by
    intro mover ended kind stage merging
    rw [merging] at ended
    exact ended
  cases DynamicState.takes_of_step taken with
  | startInsert mover added isEnded =>
    refine hidden.later rfl (moved mover _ (ended mover isEnded)) fun gone none => ⟨gone, ?_⟩
    exact idle mover _ (fun same => noInsert (Call.insert.inj same)) none
  | startDelete mover _ isEnded | startSearch mover _ isEnded | startMerge mover _ isEnded =>
    exact hidden.later rfl (moved mover _ (ended mover isEnded)) fun gone none =>
      ⟨gone, idle mover _ nofun none⟩
  | meet mover met k set found call =>
    exact hidden.later rfl (moved mover _ (by rw [call]; nofun)) fun gone none =>
      ⟨gone, idle mover _ nofun none⟩
  | insert mover added call =>
    refine hidden.later rfl (moved mover _ (by rw [call]; nofun)) fun gone none =>
      ⟨fun there => ?_, idle mover _ nofun none⟩
    rcases Finset.mem_insert.mp there with rfl | before
    · exact none mover call
    · exact gone before
  | lazyDelete mover other call => exact hidden.lazyDelete call
  | search mover k set found call =>
    exact hidden.later rfl (moved mover _ (by rw [call]; nofun)) fun gone none =>
      ⟨gone, idle mover _ nofun none⟩
  | merge mover kind stage call => exact hidden.mergeStep balanced call shields

/-- A search that starts takes a set with the tag, or cannot come upon it. -/
theorem Hidden.start (hidden : Hidden state tag) (balanced : Balanced state) {k : Nat}
    (shields : Shields state (.call number (.search k)))
    (taken : state.step (.call number (.search k)) = some next) : Shielded next tag number := by
  cases DynamicState.takes_of_step taken with
  | startSearch _ _ ended =>
    refine ⟨fun k' set found there => ?_, fun tags there => ?_⟩
    · rw [DynamicState.calls_setCall_self, Call.search.injEq] at there
      obtain ⟨_, rfl, rfl⟩ := there
      have idle : (∀ other, state.calls other ≠ .insert tag) → ∀ other,
          (state.setCall number (.search k state.sets.activeDeleteSet [])).calls other ≠
            .insert tag := by
        intro none other there
        rcases DynamicState.call_setCall there with ⟨_, same⟩ | ⟨_, before⟩
        · cases same
        · exact none other before
      rcases hidden with active | ⟨merger, stage, merging, pending, retired⟩ | ⟨gone, none⟩
      · exact .inl active
      · refine .inr ⟨List.not_mem_nil, shields _ _ _ merging pending tag retired, idle ?_⟩
        exact fun other => balanced.locked.no_insert merging
      · exact .inr ⟨List.not_mem_nil, gone, idle none⟩
    · rw [DynamicState.calls_setCall_self] at there
      cases there

omit [DecidableEq Tag] in
/-- A step that keeps the tag from the search. -/
theorem Shielded.later (shielded : Shielded state tag number) {mover : Nat} {call : Call Tag}
    (calls : next.calls = (state.setCall mover call).calls)
    (own : mover = number → (∀ k set found, call ≠ .search k set found) ∧
      ∀ tags, call ≠ .returned tags)
    (notInsert : call ≠ .insert tag)
    (sets : ∀ k set found, state.calls number = .search k set found →
      tag ∈ state.sets.deletionSets set → tag ∈ next.sets.deletionSets set)
    (searchable : tag ∉ state.searchable → (∀ other, state.calls other ≠ .insert tag) →
      tag ∉ next.searchable) : Shielded next tag number := by
  have idle : (∀ other, state.calls other ≠ .insert tag) → ∀ other,
      next.calls other ≠ .insert tag := by
    intro none other there
    rw [calls] at there
    rcases DynamicState.call_setCall there with ⟨_, same⟩ | ⟨_, before⟩
    · exact notInsert same.symm
    · exact none other before
  refine ⟨fun k set found there => ?_, fun tags there => ?_⟩
  · rw [calls] at there
    rcases DynamicState.call_setCall there with ⟨same, rfl⟩ | ⟨_, before⟩
    · exact absurd rfl ((own same.symm).1 k set found)
    · rcases shielded.searching k set found before with inSet | ⟨notFound, gone, none⟩
      · exact .inl (sets k set found before inSet)
      · exact .inr ⟨notFound, searchable gone none, idle none⟩
  · rw [calls] at there
    rcases DynamicState.call_setCall there with ⟨same, rfl⟩ | ⟨_, before⟩
    · exact absurd rfl ((own same.symm).2 tags)
    · exact shielded.returned tags before

theorem Shielded.mergeStep (shielded : Shielded state tag number) {mover : Nat} {kind : MergeKind}
    {stage : MergeStage} (call : state.calls mover = .merge kind stage)
    (shields : Shields state (.step mover)) :
    Shielded (state.mergeStep mover kind stage) tag number := by
  have goesOn : ∀ {next : DynamicState Tag} (later : Call Tag),
      next.calls = (state.setCall mover later).calls → (∀ k set found,
        later ≠ .search k set found) → (∀ tags, later ≠ .returned tags) → later ≠ .insert tag →
          next.sets = state.sets → (tag ∉ state.searchable → tag ∉ next.searchable) →
            Shielded next tag number := by
    intro next later calls notSearch notReturned notInsert sets searchable
    refine shielded.later calls (fun _ => ⟨notSearch, notReturned⟩) notInsert
      (fun _ _ _ _ inSet => ?_) fun gone _ => searchable gone
    rwa [sets]
  cases stage with
  | started => exact goesOn (.merge kind (.indices _ _)) rfl nofun nofun nofun rfl fun gone => gone
  | switched => exact goesOn (.merge kind (.rewriting _)) rfl nofun nofun nofun rfl fun gone => gone
  | installed => exact goesOn .idle rfl nofun nofun nofun rfl fun gone => gone
  | indices nxtIdx curIdx =>
    refine shielded.later rfl (fun _ => ⟨nofun, nofun⟩) nofun (fun k set found there inSet => ?_)
      fun gone _ => gone
    -- the set of a search in flight is not cleared
    have kept := (shields kind nxtIdx curIdx call).1 number k set found there
    show tag ∈ Function.update state.sets.deletionSets nxtIdx ∅ set
    rwa [Function.update_of_ne kept]
  | rewriting set =>
    refine goesOn (.merge kind .installed) rfl nofun nofun nofun rfl fun gone there => gone ?_
    cases kind with
    | finalMerge =>
      cases set with
      | none => exact there
      | some set => exact (Finset.mem_sdiff.mp there).1
    | finalMergeGraph | finalMergeStreamPqTags => exact there

/-- What the steps of a search keep from it. -/
theorem Shielded.step (shielded : Shielded state tag number) (hidden : Hidden state tag)
    (balanced : Balanced state) {action : DynamicAction Tag} (shields : Shields state action)
    (noInsert : action.StartsNoInsertOf tag) (taken : state.step action = some next) :
    Shielded next tag number := by
  cases DynamicState.takes_of_step taken with
  | startInsert mover added ended =>
    refine shielded.later rfl (fun _ => ⟨nofun, nofun⟩) ?_ (fun _ _ _ _ inSet => inSet)
      fun gone _ => gone
    exact fun same => noInsert (Call.insert.inj same)
  | startDelete | startMerge =>
    exact shielded.later rfl (fun _ => ⟨nofun, nofun⟩) nofun (fun _ _ _ _ inSet => inSet)
      fun gone _ => gone
  | startSearch mover k ended =>
    by_cases same : mover = number
    · subst same
      exact hidden.start balanced shields taken
    · exact shielded.later rfl (fun equal => absurd equal same) nofun
        (fun _ _ _ _ inSet => inSet) fun gone _ => gone
  | meet mover met k set found call there =>
    by_cases same : mover = number
    · subst same
      refine ⟨fun k' set' found' now => ?_, fun tags now => ?_⟩
      · rw [DynamicState.calls_setCall_self, Call.search.injEq] at now
        obtain ⟨rfl, rfl, rfl⟩ := now
        rcases shielded.searching _ _ _ call with inSet | ⟨notFound, gone, none⟩
        · exact .inl inSet
        · refine .inr ⟨fun member => ?_, gone, fun other inserting => ?_⟩
          · rcases List.mem_append.mp member with before | new
            · exact notFound before
            · rw [List.mem_singleton.mp new] at gone
              exact gone there
          · rcases DynamicState.call_setCall inserting with ⟨_, equal⟩ | ⟨_, before⟩
            · cases equal
            · exact none other before
      · rw [DynamicState.calls_setCall_self] at now
        cases now
    · exact shielded.later rfl (fun equal => absurd equal same) nofun
        (fun _ _ _ _ inSet => inSet) fun gone _ => gone
  | insert mover added call =>
    refine shielded.later rfl (fun _ => ⟨nofun, nofun⟩) nofun (fun _ _ _ _ inSet => inSet)
      fun gone none there => ?_
    rcases Finset.mem_insert.mp there with rfl | before
    · exact none mover call
    · exact gone before
  | lazyDelete mover other call =>
    refine shielded.later rfl (fun _ => ⟨nofun, nofun⟩) nofun (fun _ set _ _ inSet => ?_)
      fun gone _ => gone
    exact (state.sets.mem_lazyDelete other).mpr (.inl inSet)
  | search mover k set found call =>
    by_cases same : mover = number
    · subst same
      refine ⟨fun k' set' found' now => ?_, fun tags now => ?_⟩
      · rw [DynamicState.calls_setCall_self] at now
        cases now
      · rw [DynamicState.calls_setCall_self, Call.returned.injEq] at now
        subst now
        intro member
        obtain ⟨inFound, notInSet⟩ := List.mem_filter.mp (List.mem_of_mem_take member)
        rcases shielded.searching k set found call with inSet | ⟨notFound, _⟩
        · exact of_decide_eq_true notInSet inSet
        · exact notFound inFound
    · exact shielded.later rfl (fun equal => absurd equal same) nofun
        (fun _ _ _ _ inSet => inSet) fun gone _ => gone
  | merge mover kind stage call => exact shielded.mergeStep call shields

/-- From a `lazy_delete` that returns on, in a run with the conditions on its steps and without a
new insert of the tag, a search that starts does not return the tag. -/
theorem deletes_stay_visible {state deleted last : DynamicState Tag} {tag : Tag}
    {deleter number k : Nat} {before later : List (DynamicAction Tag)}
    (reachable : (dynamicSystem Tag).Reachable Shields state)
    (deleting : state.calls deleter = .lazyDelete tag)
    (returns : (dynamicSystem Tag).step state (.step deleter) = some deleted)
    (replay : (dynamicSystem Tag).run deleted (before ++ .call number (.search k) :: later) =
      some last)
    (along : (dynamicSystem Tag).Along
      (fun state action => Shields state action ∧ action.StartsNoInsertOf tag) deleted
      (before ++ .call number (.search k) :: later)) :
    ∀ tags, last.calls number = .returned tags → tag ∉ tags := by
  have fresh : ∀ first : DynamicState Tag, first.Fresh → Balanced first :=
    fun _ fresh => fresh.balanced
  have balanced : Balanced state := reachable.invariant fresh
    fun _ _ _ balanced _ taken => balanced.step taken
  have returns : state.step (.step deleter) = some deleted := returns
  have start : Balanced deleted ∧ Hidden deleted tag := by
    refine ⟨balanced.step returns, ?_⟩
    cases DynamicState.takes_of_step returns with
    | lazyDelete _ other call =>
      obtain rfl := Call.lazyDelete.inj (deleting.symm.trans call)
      refine .inl ?_
      simp only [DeletionSets.lazyDelete_active]
      exact (state.sets.mem_lazyDelete tag).mpr (.inr ⟨rfl, rfl⟩)
    | insert _ _ call | search _ _ _ _ call | merge _ _ _ call =>
      exact nomatch deleting.symm.trans call
  have keep : ∀ now action next, Balanced now ∧ Hidden now tag →
      Shields now action ∧ action.StartsNoInsertOf tag → now.step action = some next →
        Balanced next ∧ Hidden next tag :=
    fun _ _ _ held guarded taken =>
      ⟨held.1.step taken, held.2.step held.1 guarded.1 guarded.2 taken⟩
  obtain ⟨waiting, first, second⟩ := Transition.System.run_append replay
  obtain ⟨alongFirst, alongSecond⟩ := Transition.System.along_append along first
  have held := alongFirst.carries _ keep first start
  obtain ⟨searching, taken, remaining⟩ := Transition.System.run_cons second
  have kept : (Balanced last ∧ Hidden last tag) ∧ Shielded last tag number := by
    refine (alongSecond.2 searching taken).carries (fun now => (Balanced now ∧ Hidden now tag) ∧
      Shielded now tag number) (fun now action next both guarded step => ?_) remaining
      ⟨keep waiting _ searching held alongSecond.1 taken, ?_⟩
    · exact ⟨keep now action next both.1 guarded step,
        both.2.step both.1.2 both.1.1 guarded.1 guarded.2 step⟩
    · exact held.2.start held.1 alongSecond.1.1 taken
  exact kept.2.returned

end Hidden

/-- A step of a call that is not before the switch of the sets. -/
theorem shields_step {state : DynamicState Tag} {number : Nat}
    (later : ∀ kind nxtIdx curIdx, state.calls number ≠ .merge kind (.indices nxtIdx curIdx)) :
    Shields state (.step number) :=
  fun kind nxtIdx curIdx call => absurd call (later kind nxtIdx curIdx)

/-- A search that starts when the retired tags are out of the index. -/
theorem shields_search {state : DynamicState Tag} {number k : Nat}
    (out : ∀ tag ∈ state.sets.deletionSets (1 - state.sets.activeDeleteSet),
      tag ∉ state.searchable) : Shields state (.call number (.search k)) :=
  fun _ _ _ _ _ => out

/-- An index of two points. -/
def twoTags : DynamicState Nat := { noCalls with searchable := {5, 6} }

theorem twoTags_fresh : twoTags.Fresh := ⟨rfl, rfl, fun _ => rfl, rfl, rfl⟩

/-- The first point was deleted, and a merge has switched the sets. -/
def mergeSwitched : DynamicState Nat := (dynamicSystem Nat).after twoTags
  [.call 0 (.lazyDelete 5), .step 0, .call 1 (.merge .finalMerge), .step 1, .step 1]

/-- The other point is being deleted. -/
def deletesOther : DynamicState Nat := mergeSwitched.setCall 0 (.lazyDelete 6)

/-- That deletion has returned. -/
def otherDeleted : DynamicState Nat := (dynamicSystem Nat).after deletesOther [.step 0]

/-- The merge goes on and rewrites the graph, a search starts before the reload, and meets the point
that was deleted last. -/
def searchDuringMerge : List (DynamicAction Nat) :=
  [.step 1, .step 1] ++ .call 2 (.search 1) :: [.step 1, .meet 2 6, .step 2]

theorem reachable_deletesOther : (dynamicSystem Nat).Reachable Shields deletesOther := by
  have along : (dynamicSystem Nat).Along Shields twoTags
      [.call 0 (.lazyDelete 5), .step 0, .call 1 (.merge .finalMerge), .step 1, .step 1] := by
    refine ⟨trivial, fun _ deleting => ?_⟩
    obtain rfl := Option.some.inj deleting
    refine ⟨shields_step nofun, fun _ deleted => ?_⟩
    obtain rfl := Option.some.inj deleted
    refine ⟨trivial, fun _ merging => ?_⟩
    obtain rfl := Option.some.inj merging
    refine ⟨shields_step nofun, fun _ reading => ?_⟩
    obtain rfl := Option.some.inj reading
    refine ⟨fun kind nxtIdx curIdx call => ⟨fun other k set found search => ?_, ?_⟩,
      fun _ _ => trivial⟩
    · -- no search is in flight
      match other with
      | 0 | 1 | _ + 2 => exact nomatch search
    · cases call
      exact fun notFinal => absurd rfl notFinal
  have taken : (dynamicSystem Nat).step mergeSwitched (.call 0 (.lazyDelete 6)) =
      some deletesOther := rfl
  have shields : Shields mergeSwitched (.call 0 (.lazyDelete 6)) := trivial
  exact .step ((Transition.System.Reachable.initial twoTags_fresh).after along) shields taken

/-- A search that starts after the deletion, during a merge, does not return the point. -/
theorem deletes_stay_visible_duringMerge : ¬ ∃ tags, ((dynamicSystem Nat).after otherDeleted
    searchDuringMerge).calls 2 = .returned tags ∧ 6 ∈ tags := by
  rintro ⟨tags, returned, member⟩
  have replays : ((dynamicSystem Nat).run otherDeleted searchDuringMerge).isSome := by
    decide +kernel
  have along : (dynamicSystem Nat).Along
      (fun state action => Shields state action ∧ action.StartsNoInsertOf 6) otherDeleted
      searchDuringMerge := by
    refine ⟨⟨shields_step nofun, trivial⟩, fun _ reading => ?_⟩
    obtain rfl := Option.some.inj reading
    refine ⟨⟨shields_step nofun, trivial⟩, fun _ rewritten => ?_⟩
    obtain rfl := Option.some.inj rewritten
    -- the retired tag 5 is out of the index when the search starts
    refine ⟨⟨shields_search (by decide +kernel), trivial⟩, fun _ searching => ?_⟩
    obtain rfl := Option.some.inj searching
    refine ⟨⟨shields_step nofun, trivial⟩, fun _ installed => ?_⟩
    obtain rfl := Option.some.inj installed
    refine ⟨⟨trivial, trivial⟩, fun _ met => ?_⟩
    obtain rfl := Option.some.inj met
    exact ⟨⟨shields_step nofun, trivial⟩, fun _ _ => trivial⟩
  have returns : (dynamicSystem Nat).step deletesOther (.step 0) = some otherDeleted := rfl
  exact deletes_stay_visible reachable_deletesOther rfl returns
    (Transition.System.run_after replays) along tags returned member

/-- An index of one point. -/
def onePoint : DynamicState Nat := { noCalls with searchable := {5} }

theorem onePoint_fresh : onePoint.Fresh := ⟨rfl, rfl, fun _ => rfl, rfl, rfl⟩

/-- The only point is being deleted. -/
def deletesPoint : DynamicState Nat := onePoint.setCall 0 (.lazyDelete 5)

/-- The deletion has returned. -/
def pointDeleted : DynamicState Nat := (dynamicSystem Nat).after deletesPoint [.step 0]

/-- A merge retires the deletion of the only point before a search starts, which comes upon the
point before the merge takes it out of the index. -/
theorem deleted_tag_is_returned :
    ¬ ∀ (state deleted last : DynamicState Nat) (tag deleter number k : Nat)
        (before later : List (DynamicAction Nat)),
      (dynamicSystem Nat).Reachable Transition.anyStep state →
      state.calls deleter = .lazyDelete tag →
      (dynamicSystem Nat).step state (.step deleter) = some deleted →
      (dynamicSystem Nat).run deleted (before ++ .call number (.search k) :: later) = some last →
      (dynamicSystem Nat).Along (fun _ action => action.StartsNoInsertOf tag) deleted
        (before ++ .call number (.search k) :: later) →
      ∀ tags, last.calls number = .returned tags → tag ∉ tags := by
  intro stays
  have starts : (dynamicSystem Nat).step onePoint (.call 0 (.lazyDelete 5)) =
      some deletesPoint := rfl
  have reachable : (dynamicSystem Nat).Reachable Transition.anyStep deletesPoint :=
    .step (.initial onePoint_fresh) trivial starts
  have replays : ((dynamicSystem Nat).run pointDeleted
      ([.call 1 (.merge .finalMerge), .step 1, .step 1] ++
        .call 2 (.search 1) :: [.meet 2 5, .step 2])).isSome := by
    decide +kernel
  have returned := stays deletesPoint pointDeleted _ 5 0 2 1 _ _ reachable rfl rfl
    (Transition.System.run_after replays)
    (Transition.System.along_of_all (by decide)) [5] (by decide +kernel)
  exact returned (by decide)

end OdinVector
