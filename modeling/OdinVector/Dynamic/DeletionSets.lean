/-
This file models the deletions of a `DynamicSSDIndex`. A deletion is a tag in the
active one of two deletion sets. A merge clears the other set, makes it the active
one and rewrites the graph without the tags of the set that it has retired; the
merges exclude each other, and deletions go on while one runs.

Every deletion is in the active set, or it is in the set which the next merge
after it has retired and which this merge alone has read.
-/

import OdinVector.Transition
import Mathlib.Data.Finset.SDiff
import Mathlib.Data.List.Nodup

namespace OdinVector

variable {Tag : Type}

/-! ### The two sets -/

/-- What is logged about the deletion sets. -/
inductive Message
  /-- `"... but it cannot accept deletions"` -/
  | cannotAcceptDeletions (set : Nat)
  /-- `"Cleared deletion set ..."` -/
  | clearedDeletionSet (set : Nat)
  /-- `"Failed to clear deletion set ..."` -/
  | failedToClearDeletionSet (set : Nat)
  deriving DecidableEq

/-- The deletion sets with their vectors and flags. -/
structure DeletionSets (Tag : Type) where
  deletionSets : Nat → Finset Tag
  deletedTags : Nat → List Tag
  activeDel : Nat → Bool
  activeDeleteSet : Nat
  log : List Message

namespace DeletionSets

/-- The sets that the constructor makes. -/
def init : DeletionSets Tag where
  deletionSets _ := ∅
  deletedTags _ := []
  activeDel set := set = 0
  activeDeleteSet := 0
  log := []

/-- `lazy_delete`. -/
def lazyDelete [DecidableEq Tag] (sets : DeletionSets Tag) (tag : Tag) : DeletionSets Tag :=
  let active := sets.activeDeleteSet
  let log := if sets.activeDel active = false then sets.log ++ [.cannotAcceptDeletions active]
    else sets.log
  if tag ∈ sets.deletionSets active then { sets with log := log }
  else
    { sets with
      log := log
      deletionSets := Function.update sets.deletionSets active
        (insert tag (sets.deletionSets active))
      deletedTags := Function.update sets.deletedTags active (sets.deletedTags active ++ [tag]) }

/-- `save_del_set` with the indices that it has read. -/
def saveDelSet (sets : DeletionSets Tag) (nxtIdx curIdx : Nat) : DeletionSets Tag :=
  let cleared := sets.activeDel nxtIdx = false
  { deletionSets := Function.update sets.deletionSets nxtIdx ∅
    deletedTags := Function.update sets.deletedTags nxtIdx []
    activeDel := Function.update
      (if cleared then Function.update sets.activeDel nxtIdx true else sets.activeDel) curIdx false
    activeDeleteSet := nxtIdx
    log := sets.log ++
      [if cleared then .clearedDeletionSet nxtIdx else .failedToClearDeletionSet nxtIdx] }

/-- The invariant of the two sets. -/
structure Consistent (sets : DeletionSets Tag) : Prop where
  active_le : sets.activeDeleteSet ≤ 1
  accepts : ∀ set ≤ 1, sets.activeDel set = true ↔ set = sets.activeDeleteSet
  same : ∀ set tag, tag ∈ sets.deletedTags set ↔ tag ∈ sets.deletionSets set
  once : ∀ set, (sets.deletedTags set).Nodup
  quiet : ∀ message ∈ sets.log, ∃ set, message = .clearedDeletionSet set

variable {sets : DeletionSets Tag}

theorem consistent_init : (init : DeletionSets Tag).Consistent where
  active_le := Nat.zero_le 1
  accepts _ _ := decide_eq_true_iff
  same _ _ := iff_of_false List.not_mem_nil (Finset.notMem_empty _)
  once _ := List.nodup_nil
  quiet := nofun

section LazyDelete

variable [DecidableEq Tag]

theorem mem_lazyDelete (sets : DeletionSets Tag) (tag : Tag) {set : Nat} {other : Tag} :
    other ∈ (sets.lazyDelete tag).deletionSets set ↔
      other ∈ sets.deletionSets set ∨ set = sets.activeDeleteSet ∧ other = tag := by
  unfold lazyDelete
  dsimp only
  split
  · rename_i present
    refine (or_iff_left_of_imp ?_).symm
    rintro ⟨rfl, rfl⟩
    exact present
  · show other ∈ Function.update sets.deletionSets sets.activeDeleteSet _ set ↔ _
    by_cases active : set = sets.activeDeleteSet
    · rw [active, Function.update_self, Finset.mem_insert, or_comm]
      exact or_congr_right (and_iff_right rfl).symm
    · rw [Function.update_of_ne active]
      exact (or_iff_left fun both => active both.1).symm

/-- `lazy_delete` leaves the set that is not active. -/
theorem lazyDelete_other (sets : DeletionSets Tag) (tag : Tag) {set : Nat}
    (retired : set ≠ sets.activeDeleteSet) :
    (sets.lazyDelete tag).deletionSets set = sets.deletionSets set ∧
      (sets.lazyDelete tag).deletedTags set = sets.deletedTags set := by
  unfold lazyDelete
  dsimp only
  split
  · exact ⟨rfl, rfl⟩
  · exact ⟨Function.update_of_ne retired _ _, Function.update_of_ne retired _ _⟩

theorem lazyDelete_active (sets : DeletionSets Tag) (tag : Tag) :
    (sets.lazyDelete tag).activeDeleteSet = sets.activeDeleteSet := by
  unfold lazyDelete
  dsimp only
  split <;> rfl

theorem Consistent.lazyDelete (consistent : sets.Consistent) (tag : Tag) :
    (sets.lazyDelete tag).Consistent := by
  have accepting : sets.activeDel sets.activeDeleteSet = true :=
    (consistent.accepts _ consistent.active_le).mpr rfl
  have quiet : (if sets.activeDel sets.activeDeleteSet = false then
      sets.log ++ [.cannotAcceptDeletions sets.activeDeleteSet] else sets.log) = sets.log :=
    if_neg (by rw [accepting]; nofun)
  unfold DeletionSets.lazyDelete
  simp only [quiet]
  split
  · exact ⟨consistent.active_le, consistent.accepts, consistent.same, consistent.once,
      consistent.quiet⟩
  · rename_i absent
    refine ⟨consistent.active_le, consistent.accepts, fun set other => ?_, fun set => ?_,
      consistent.quiet⟩
    · by_cases active : set = sets.activeDeleteSet
      · rw [active]
        simp only [Function.update_self, List.mem_append, List.mem_singleton, Finset.mem_insert]
        rw [consistent.same, or_comm]
      · simp only [Function.update_of_ne active]
        exact consistent.same set other
    · by_cases active : set = sets.activeDeleteSet
      · rw [active]
        simp only [Function.update_self]
        refine List.nodup_append.mpr ⟨consistent.once _, List.nodup_singleton tag, ?_⟩
        rintro listed inOld other isNew rfl
        rw [List.mem_singleton.mp isNew, consistent.same] at inOld
        exact absent inOld
      · simp only [Function.update_of_ne active]
        exact consistent.once set

end LazyDelete

/-- `save_del_set` leaves the set that it retires, and the active set is empty after it. -/
theorem saveDelSet_retired (sets : DeletionSets Tag) {nxtIdx curIdx : Nat}
    (different : curIdx ≠ nxtIdx) :
    (sets.saveDelSet nxtIdx curIdx).deletionSets curIdx = sets.deletionSets curIdx ∧
      (sets.saveDelSet nxtIdx curIdx).deletionSets nxtIdx = ∅ :=
  ⟨Function.update_of_ne different _ _, Function.update_self _ _ _⟩

theorem Consistent.saveDelSet (consistent : sets.Consistent) :
    (sets.saveDelSet (1 - sets.activeDeleteSet) sets.activeDeleteSet).Consistent := by
  have small := consistent.active_le
  have different : 1 - sets.activeDeleteSet ≠ sets.activeDeleteSet := by omega
  have inactive : sets.activeDel (1 - sets.activeDeleteSet) = false := by
    rw [Bool.eq_false_iff]
    exact fun accepting =>
      different ((consistent.accepts _ (Nat.sub_le 1 _)).mp accepting)
  refine ⟨Nat.sub_le 1 _, fun set below => ?_, fun set tag => ?_, fun set => ?_,
    fun message logged => ?_⟩
  · simp only [DeletionSets.saveDelSet, inactive, if_true]
    by_cases active : set = sets.activeDeleteSet
    · rw [active, Function.update_self]
      exact iff_of_false nofun different.symm
    · have next : set = 1 - sets.activeDeleteSet := by omega
      rw [Function.update_of_ne active, next, Function.update_self]
      exact iff_of_true rfl rfl
  · simp only [DeletionSets.saveDelSet]
    by_cases next : set = 1 - sets.activeDeleteSet
    · rw [next, Function.update_self, Function.update_self]
      exact iff_of_false List.not_mem_nil (Finset.notMem_empty tag)
    · rw [Function.update_of_ne next, Function.update_of_ne next]
      exact consistent.same set tag
  · simp only [DeletionSets.saveDelSet]
    by_cases next : set = 1 - sets.activeDeleteSet
    · rw [next, Function.update_self]
      exact List.nodup_nil
    · rw [Function.update_of_ne next]
      exact consistent.once set
  · simp only [DeletionSets.saveDelSet, inactive, if_true] at logged
    rcases List.mem_append.mp logged with old | new
    · exact consistent.quiet message old
    · exact ⟨_, List.mem_singleton.mp new⟩

end DeletionSets

/-! ### The calls -/

/-- The merges. -/
inductive MergeKind
  | finalMerge
  | finalMergeGraph
  | finalMergeStreamPqTags
  deriving DecidableEq

/-- How far a merge is, which has `_merge_lock`. -/
inductive MergeStage
  /-- Before `save_del_set` reads the indices. -/
  | started
  /-- Before `save_del_set` takes `delete_lock`. -/
  | indices (nxtIdx curIdx : Nat)
  /-- Before the rewrite of the graph is called. -/
  | switched
  /-- The graph is rewritten without the tags of the set that was passed, if any. -/
  | rewriting (set : Option Nat)
  /-- Before `reload`. -/
  | installed
  deriving DecidableEq

/-- A call on the index. An insert and a merge have `_merge_lock`. -/
inductive Call (Tag : Type)
  | idle
  | insert (tag : Tag)
  | lazyDelete (tag : Tag)
  /-- A search for `k` results with its deletion set and the tags that it has come upon. -/
  | search (k set : Nat) (found : List Tag)
  /-- A search has returned. -/
  | returned (tags : List Tag)
  | merge (kind : MergeKind) (stage : MergeStage)
  deriving DecidableEq

/-- A new call may start in the place of one that has ended. -/
def Call.Ended : Call Tag → Prop
  | .idle | .returned _ => True
  | _ => False

/-- A `lazy_delete` that has returned, with the number of sets retired before it. -/
structure Deletion (Tag : Type) where
  tag : Tag
  retired : Nat
  deriving DecidableEq

/-- A set that `save_del_set` has retired, for the merge that ran it. -/
structure RetiredSet (Tag : Type) where
  number : Nat
  kind : MergeKind
  tags : Finset Tag
  deriving DecidableEq

/-- `_merge_lock`: who has it shared, and who has it alone. -/
structure MergeLock where
  shared : List Nat
  owner : Option Nat
  deriving DecidableEq

/-- The state of a `DynamicSSDIndex` and of the calls on it. -/
structure DynamicState (Tag : Type) where
  sets : DeletionSets Tag
  /-- The tags that a search of the index may come upon. -/
  searchable : Finset Tag
  mergeLock : MergeLock
  calls : Nat → Call Tag
  /-- The deletions that have returned. -/
  deletions : List (Deletion Tag)
  /-- The sets that have been retired. -/
  retired : List (RetiredSet Tag)

/-- What a call asks for. -/
inductive DynamicRequest (Tag : Type)
  | insert (tag : Tag)
  | lazyDelete (tag : Tag)
  | search (k : Nat)
  | merge (kind : MergeKind)
  deriving DecidableEq

/-- A step: a call starts, a search comes upon a tag, or a call goes on. -/
inductive DynamicAction (Tag : Type)
  | call (number : Nat) (request : DynamicRequest Tag)
  | meet (number : Nat) (tag : Tag)
  | step (number : Nat)
  deriving DecidableEq

namespace DynamicState

variable [DecidableEq Tag]

/-- The state with another state of a call. -/
def setCall (state : DynamicState Tag) (number : Nat) (call : Call Tag) : DynamicState Tag :=
  { state with calls := Function.update state.calls number call }

/-- A call starts. An insert and a merge wait for `_merge_lock` until they get it. -/
def start (state : DynamicState Tag) (number : Nat) : DynamicRequest Tag →
    Option (DynamicState Tag)
  | .insert tag =>
    if state.mergeLock.owner = none then
      some { state.setCall number (.insert tag) with
        mergeLock := { state.mergeLock with shared := number :: state.mergeLock.shared } }
    else none
  | .lazyDelete tag => some (state.setCall number (.lazyDelete tag))
  | .search k => some (state.setCall number (.search k state.sets.activeDeleteSet []))
  | .merge kind =>
    if state.mergeLock = ⟨[], none⟩ then
      some { state.setCall number (.merge kind .started) with mergeLock := ⟨[], some number⟩ }
    else none

/-- A merge goes on. Only `final_merge` installs its result: `merge_graph_only` keeps every point,
and `merge_deletes_stream_pq_tags` leaves the tags in memory. -/
def mergeStep (state : DynamicState Tag) (number : Nat) (kind : MergeKind) :
    MergeStage → DynamicState Tag
  | .started => state.setCall number
      (.merge kind (.indices (1 - state.sets.activeDeleteSet) state.sets.activeDeleteSet))
  | .indices nxtIdx curIdx =>
    { state.setCall number (.merge kind .switched) with
      sets := state.sets.saveDelSet nxtIdx curIdx
      retired := state.retired ++ [⟨number, kind, state.sets.deletionSets curIdx⟩] }
  | .switched => state.setCall number <| .merge kind <| .rewriting <|
      match kind with
      | .finalMergeGraph => none
      | _ => some (1 - state.sets.activeDeleteSet)
  | .rewriting set =>
    { state.setCall number (.merge kind .installed) with
      searchable := match kind, set with
        | .finalMerge, some set => state.searchable \ state.sets.deletionSets set
        | _, _ => state.searchable }
  | .installed =>
    { state.setCall number .idle with mergeLock := { state.mergeLock with owner := none } }

/-- A call goes on. -/
def goOn (state : DynamicState Tag) (number : Nat) : Option (DynamicState Tag) :=
  match state.calls number with
  | .idle | .returned _ => none
  | .insert tag => some
    { state.setCall number .idle with
      searchable := insert tag state.searchable
      mergeLock := { state.mergeLock with shared := state.mergeLock.shared.erase number } }
  | .lazyDelete tag => some
    { state.setCall number .idle with
      sets := state.sets.lazyDelete tag
      deletions := ⟨tag, state.retired.length⟩ :: state.deletions }
  | .search k set found => some <| state.setCall number <|
      .returned ((found.filter fun tag => tag ∉ state.sets.deletionSets set).take k)
  | .merge kind stage => some (state.mergeStep number kind stage)

/-- A step of the index. -/
def step (state : DynamicState Tag) : DynamicAction Tag → Option (DynamicState Tag)
  | .call number request =>
    match state.calls number with
    | .idle | .returned _ => state.start number request
    | _ => none
  | .meet number tag =>
    match state.calls number with
    | .search k set found =>
      if tag ∈ state.searchable then some (state.setCall number (.search k set (found ++ [tag])))
      else none
    | _ => none
  | .step number => state.goOn number

/-- The steps one by one. -/
inductive Takes (state : DynamicState Tag) : DynamicAction Tag → DynamicState Tag → Prop
  | startInsert (number : Nat) (tag : Tag) (ended : (state.calls number).Ended)
      (free : state.mergeLock.owner = none) :
      Takes state (.call number (.insert tag)) { state.setCall number (.insert tag) with
        mergeLock := { state.mergeLock with shared := number :: state.mergeLock.shared } }
  | startDelete (number : Nat) (tag : Tag) (ended : (state.calls number).Ended) :
      Takes state (.call number (.lazyDelete tag)) (state.setCall number (.lazyDelete tag))
  | startSearch (number k : Nat) (ended : (state.calls number).Ended) : Takes state (.call number (.search k))
      (state.setCall number (.search k state.sets.activeDeleteSet []))
  | startMerge (number : Nat) (kind : MergeKind) (ended : (state.calls number).Ended)
      (free : state.mergeLock = ⟨[], none⟩) :
      Takes state (.call number (.merge kind)) { state.setCall number (.merge kind .started) with
        mergeLock := ⟨[], some number⟩ }
  | meet (number : Nat) (tag : Tag) (k set : Nat) (found : List Tag)
      (call : state.calls number = .search k set found) (there : tag ∈ state.searchable) :
      Takes state (.meet number tag) (state.setCall number (.search k set (found ++ [tag])))
  | insert (number : Nat) (tag : Tag) (call : state.calls number = .insert tag) :
      Takes state (.step number) { state.setCall number .idle with
        searchable := Insert.insert tag state.searchable
        mergeLock := { state.mergeLock with shared := state.mergeLock.shared.erase number } }
  | lazyDelete (number : Nat) (tag : Tag) (call : state.calls number = .lazyDelete tag) :
      Takes state (.step number) { state.setCall number .idle with
        sets := state.sets.lazyDelete tag
        deletions := ⟨tag, state.retired.length⟩ :: state.deletions }
  | search (number k set : Nat) (found : List Tag)
      (call : state.calls number = .search k set found) :
      Takes state (.step number) <| state.setCall number <|
        .returned ((found.filter fun tag => tag ∉ state.sets.deletionSets set).take k)
  | merge (number : Nat) (kind : MergeKind) (stage : MergeStage)
      (call : state.calls number = .merge kind stage) :
      Takes state (.step number) (state.mergeStep number kind stage)

theorem takes_of_step {state next : DynamicState Tag} {action : DynamicAction Tag}
    (taken : state.step action = some next) : Takes state action next := by
  cases action with
  | call number request =>
    have started : (state.calls number).Ended ∧ state.start number request = some next := by
      rw [step] at taken
      cases call : state.calls number with
      | idle | returned => exact ⟨trivial, by rwa [call] at taken⟩
      | _ =>
        rw [call] at taken
        cases taken
    obtain ⟨ended, started⟩ := started
    cases request with
    | insert tag =>
      rw [start, Option.ite_none_right_eq_some, Option.some.injEq] at started
      obtain ⟨free, rfl⟩ := started
      exact .startInsert number tag ended free
    | lazyDelete tag =>
      rw [start, Option.some.injEq] at started
      subst started
      exact .startDelete number tag ended
    | search k =>
      rw [start, Option.some.injEq] at started
      subst started
      exact .startSearch number k ended
    | merge kind =>
      rw [start, Option.ite_none_right_eq_some, Option.some.injEq] at started
      obtain ⟨free, rfl⟩ := started
      exact .startMerge number kind ended free
  | meet number tag =>
    rw [step] at taken
    split at taken
    · rename_i k set found call
      rw [Option.ite_none_right_eq_some, Option.some.injEq] at taken
      obtain ⟨there, rfl⟩ := taken
      exact .meet number tag k set found call there
    · cases taken
  | step number =>
    rw [step, goOn] at taken
    cases call : state.calls number with
    | idle | returned =>
      rw [call] at taken
      cases taken
    | insert tag =>
      simp only [call, Option.some.injEq] at taken
      subst taken
      exact .insert number tag call
    | lazyDelete tag =>
      simp only [call, Option.some.injEq] at taken
      subst taken
      exact .lazyDelete number tag call
    | search k set found =>
      simp only [call, Option.some.injEq] at taken
      subst taken
      exact .search number k set found call
    | merge kind stage =>
      simp only [call, Option.some.injEq] at taken
      subst taken
      exact .merge number kind stage call

omit [DecidableEq Tag] in
theorem calls_setCall_self (state : DynamicState Tag) (number : Nat) (call : Call Tag) :
    (state.setCall number call).calls number = call :=
  Function.update_self _ _ _

omit [DecidableEq Tag] in
/-- Another call has not moved. -/
theorem call_setCall {state : DynamicState Tag} {number other : Nat} {call found : Call Tag}
    (there : (state.setCall number call).calls other = found) :
    other = number ∧ found = call ∨ other ≠ number ∧ state.calls other = found := by
  by_cases same : other = number
  · subst same
    exact .inl ⟨rfl, there.symm.trans (calls_setCall_self state other call)⟩
  · exact .inr ⟨same, (Function.update_of_ne same _ _).symm.trans there⟩

end DynamicState

/-- An index on which no call has been made. -/
structure DynamicState.Fresh (state : DynamicState Tag) : Prop where
  sets : state.sets = .init
  mergeLock : state.mergeLock = ⟨[], none⟩
  calls : ∀ number, state.calls number = .idle
  deletions : state.deletions = []
  retired : state.retired = []

/-- The system of all calls on a `DynamicSSDIndex`. -/
def dynamicSystem (Tag : Type) [DecidableEq Tag] :
    Transition.System (DynamicState Tag) (DynamicAction Tag) where
  initial := DynamicState.Fresh
  step := DynamicState.step

end OdinVector
