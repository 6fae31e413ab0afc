/-
This file says what `final_merge_graph` makes of a `DynamicSSDIndex`. It retires the deletion set
like the other merges, but `merge_graph_only` does not read the set: the points with a deleted tag
are there as before, and no set hides them any more.

The `reload` after it starts the ids again after the points that were there at the last merge. The
points that were inserted since keep theirs, so the next insert would get an id that is taken.
-/

import OdinVector.Dynamic.Restarts
import OdinVector.Merge.GraphMerge

namespace OdinVector

variable {Point Code Distance : Type}

/-! ### The merge -/

/-- `final_merge_graph`: `save_del_set`, `merge_graph_only`, the exchange of the prefixes and
`reload`. -/
def DynamicIndex.finalMergeGraph [LinearOrder Distance] (call : MergeCall Point Code Distance)
    (state : DynamicIndex Point Code) : DynamicIndex Point Code :=
  let files := call.mergeGraphOnly state.filesIn state.filesOut
  { index := state.index.reload call.params.geometry files.graph
    mergeLock := state.mergeLock.unlock
    sets := state.sets.saveDelSet (1 - state.sets.activeDeleteSet) state.sets.activeDeleteSet
    filesIn := files
    filesOut := state.filesIn }

/-! ### Points that were inserted since the last merge -/

/-- How many points were inserted since the last merge, after one more call. -/
def DynamicCall.unmerged (count : Nat) : DynamicCall Point → Nat
  | .insert _ _ => count + 1
  | .lazyDelete _ => count
  | .finalMerge => 0

/-- The ids of an index without gaps. The files have the codes of the points that were there at the
last merge. -/
structure DynamicIndex.Counted (state : DynamicIndex Point Code) : Prop where
  full : ∀ id, state.index.layout.id2loc id ≠ none ↔ id < state.index.curId
  codes : state.filesIn.pqCompressed.length = state.index.numPoints
  points : state.index.numPoints ≤ state.index.curId

section Runs

variable [LinearOrder Distance] [Inhabited Code] {params : IndexParams Point Code Distance}
  {state next : DynamicIndex Point Code}

omit [Inhabited Code] in
theorem Grows.full {before after : IndexContents Point Code} {point : Point} {tag : Nat}
    {nhood : List Nat} (grows : Grows params before after point tag nhood)
    (full : ∀ id, before.layout.id2loc id ≠ none ↔ id < before.curId) (id : Nat) :
    after.layout.id2loc id ≠ none ↔ id < before.curId + 1 := by
  have recorded : ∀ (index : IndexContents Point Code), index.layout.id2loc id ≠ none ↔
      (index.graphView params).record id ≠ none :=
    fun index => Option.map_eq_none_iff.not.symm
  rw [recorded, grows.graph, Nat.lt_succ_iff_lt_or_eq, ← full, recorded]
  show (if id = before.curId then _ else _) ≠ none ↔ _
  by_cases target : id = before.curId
  · rw [if_pos target]
    exact iff_of_true (Option.some_ne_none _) (.inr target)
  · rw [if_neg target, or_iff_left target]
    split
    · exact Option.map_eq_none_iff.not
    · rfl

/-- Every call keeps the counts. -/
theorem DynamicIndex.Counted.step {request : DynamicCall Point} (counted : state.Counted)
    (sound : state.Sound params) (taken : DynamicStep params state request next) :
    next.Counted ∧ next.index.curId - next.index.numPoints =
      request.unmerged (state.index.curId - state.index.numPoints) := by
  cases taken with
  | insert inserts =>
    obtain ⟨nhood, grows⟩ := inserts.grows sound.wellFormed.medoid
    obtain ⟨numPoints, curId⟩ := inserts.counters
    refine ⟨{ full := fun id => ?_, codes := ?_, points := ?_ }, ?_⟩
    · show _ ↔ id < IndexContents.curId _
      rw [curId]
      exact grows.full counted.full id
    · exact counted.codes.trans numPoints.symm
    · show IndexContents.numPoints _ ≤ IndexContents.curId _
      rw [numPoints, curId]
      exact counted.points.trans (Nat.le_succ _)
    · show IndexContents.curId _ - IndexContents.numPoints _ = _
      rw [numPoints, curId]
      exact Nat.sub_add_comm counted.points
  | lazyDelete => exact ⟨⟨counted.full, counted.codes, counted.points⟩, rfl⟩
  | @finalMerge _ merged call params_eq index_eq before_eq deleted_eq done =>
    subst params_eq
    obtain ⟨written, stored, isWritten, isStored, _, _, reloaded⟩ :=
      MergeCall.reload_mergeDeletes done
    have index := congrArg Merged.index reloaded
    have files := congrArg Merged.files reloaded
    have files : merged.files = call.newFiles written stored.header := files
    have located : ∀ id, (call.newIndex written stored.medoids0).layout.id2loc id =
        if id < call.populate.newNpoints then some id else none := fun id => rfl
    dsimp only at index ⊢
    rw [index]
    refine ⟨⟨fun id => ?_, ?_, Nat.le_refl _⟩, Nat.sub_self _⟩
    · show _ ↔ id < call.populate.newNpoints
      rw [located]
      exact ite_ne_right_iff.trans (and_iff_left (Option.some_ne_none id))
    · rw [files]
      exact MergeCall.length_pqCoords written

/-- Runs keep the counts. -/
theorem counted_of_runs {first last : DynamicIndex Point Code} {calls : List (DynamicCall Point)}
    (sound : first.Sound params) (counted : first.Counted)
    (runs : Transition.Runs (DynamicStep params) first calls last) :
    (last.Sound params ∧ last.Counted) ∧ last.index.curId - last.index.numPoints =
      calls.foldl DynamicCall.unmerged (first.index.curId - first.index.numPoints) := by
  have keeps : ∀ {state : DynamicIndex Point Code} {request next},
      state.Sound params ∧ state.Counted → DynamicStep params state request next →
        next.Sound params ∧ next.Counted :=
    fun both taken => ⟨both.1.step taken, (both.2.step both.1 taken).1⟩
  refine ⟨runs.invariant (fun state => state.Sound params ∧ state.Counted) keeps
    ⟨sound, counted⟩, ?_⟩
  exact runs.refines (fun state => state.Sound params ∧ state.Counted)
    (fun state => state.index.curId - state.index.numPoints) keeps
    (fun both taken => (both.2.step both.1 taken).2) ⟨sound, counted⟩

/-! ### After the merge -/

omit [Inhabited Code] in
/-- All points are stored as before. -/
theorem stored_finalMergeGraph {call : MergeCall Point Code Distance} (index : call.index =
    state.index) (id : Nat) :
    ((state.finalMergeGraph call).index.graphView call.params).stored? id =
      (state.index.graphView call.params).stored? id := by
  have copied := call.rebuilt_copied state.filesIn state.filesOut
  show ((state.finalMergeGraph call).index.record? call.params.geometry id).map _ =
    (state.index.record? call.params.geometry id).map _
  have same : (state.finalMergeGraph call).index.record? call.params.geometry id =
      (call.opened (call.mergeGraphOnly state.filesIn state.filesOut).graph).record?
        call.params.geometry id := by
    unfold MergeCall.opened
    rw [index]
    rfl
  rw [same, ← index]
  cases found : call.index.record? call.params.geometry id with
  | none =>
    have absent : (call.opened (call.mergeGraphOnly state.filesIn state.filesOut).graph).record?
        call.params.geometry id = none :=
      Option.map_eq_none_iff.mpr (Option.map_eq_none_iff.mp found)
    rw [absent]
    rfl
  | some old =>
    obtain ⟨new, isNew, coords, _⟩ := copied.recorded id old found
    rw [isNew, Option.map_some, Option.map_some, coords, index]
    rfl

end Runs

/-- After any calls, `final_merge_graph` keeps every point, also those with a deleted tag, and no
tag is in the active deletion set any more. If nothing was inserted since the last merge, the index
has the points that it had. Otherwise its next id is one that a point has, and `load` refuses the files. -/
theorem graph_merge_forgets_deletions [LinearOrder Distance] [Inhabited Code]
    (params : IndexParams Point Code Distance) {first last : DynamicIndex Point Code}
    {calls : List (DynamicCall Point)} (sound : first.Sound params) (counted : first.Counted)
    (runs : Transition.Runs (DynamicStep params) first calls last)
    (call : MergeCall Point Code Distance) (same : call.params = params)
    (index : call.index = last.index) :
    let after := last.finalMergeGraph call
    let inserted := calls.foldl DynamicCall.unmerged (first.index.curId - first.index.numPoints)
    (∀ id, (after.index.graphView params).stored? id = (last.index.graphView params).stored? id) ∧
      after.sets.deletionSets after.sets.activeDeleteSet = ∅ ∧ after.mergeLock = .overReleased ∧
        (inserted = 0 → after.index.layout.id2loc after.index.curId = none ∧
          after.tagged params = ⟨(last.tagged params).points, ∅⟩) ∧
        (inserted ≠ 0 → after.index.layout.id2loc after.index.curId ≠ none ∧
          IndexContents.load params.geometry after.filesIn = none) := by
  obtain ⟨⟨soundLast, countedLast⟩, isInserted⟩ := counted_of_runs sound counted runs
  subst same
  intro after inserted
  have stored : ∀ id, (after.index.graphView call.params).stored? id =
      (last.index.graphView call.params).stored? id := stored_finalMergeGraph index
  have different : last.sets.activeDeleteSet ≠ 1 - last.sets.activeDeleteSet := by omega
  have empty : after.sets.deletionSets after.sets.activeDeleteSet = ∅ :=
    (last.sets.saveDelSet_retired different).2
  have nextId : after.index.curId = last.index.numPoints := rfl
  have isFree := countedLast.full last.index.numPoints
  refine ⟨stored, empty, ?_, fun none => ?_, fun some => ?_⟩
  · show last.mergeLock.unlock = _
    rw [soundLast.free]
    rfl
  · have ids : last.index.curId = last.index.numPoints :=
      Nat.le_antisymm (Nat.sub_eq_zero_iff_le.mp (isInserted.trans none)) countedLast.points
    constructor
    · rw [nextId]
      by_contra taken
      exact Nat.lt_irrefl _ (ids ▸ isFree.mp taken)
    · have points : (after.index.graphView call.params).points =
          (last.index.graphView call.params).points := by
        unfold PointGraph.points
        rw [List.filterMap_congr fun id _ => stored id]
        show Multiset.ofList ((List.range last.index.numPoints).filterMap _) = _
        rw [← ids]
        rfl
      unfold DynamicIndex.tagged
      rw [points, empty]
  · have more : last.index.numPoints < last.index.curId := by
      refine Nat.lt_of_le_of_ne countedLast.points fun ids => some ?_
      exact isInserted.symm.trans (Nat.sub_eq_zero_of_le (Nat.le_of_eq ids.symm))
    refine ⟨isFree.mpr more, ?_⟩
    have header : after.filesIn.header.npoints ≠ after.filesIn.pqCompressed.length := by
      show call.index.curId ≠ last.filesIn.pqCompressed.length
      rw [index, countedLast.codes]
      exact Nat.ne_of_gt more
    exact if_pos header

theorem smallDynamic_counted : smallDynamic.Counted where
  full id := by
    refine ⟨smallDynamic_sound.below id, fun below => ?_⟩
    match id, below with
    | 0, _ | 1, _ => exact Option.some_ne_none _
  codes := rfl
  points := Nat.le_refl _

/-- After the insert and the deletion of another tag, that tag is in no set and the id of the new
point is the next one. -/
theorem graph_merge_forgets_smallDeleted : ∃ call : MergeCall Nat Unit Nat,
    let after := smallDeleted.finalMergeGraph call
    (after.index.graphView smallParams).stored? 1 =
        (smallDeleted.index.graphView smallParams).stored? 1 ∧
      after.sets.deletionSets after.sets.activeDeleteSet = ∅ ∧
        after.index.layout.id2loc after.index.curId ≠ none ∧
          IndexContents.load smallParams.geometry after.filesIn = none := by
  have sound : smallDeleted.Sound smallParams :=
    smallDynamic_runs.invariant _ (fun sound taken => sound.step taken) smallDynamic_sound
  obtain ⟨stored, empty, _, _, inserted⟩ := graph_merge_forgets_deletions smallParams
    smallDynamic_sound smallDynamic_counted smallDynamic_runs
    (.inOrder smallParams smallDeleted.index sound.wellFormed ∅ 1 smallDeleted.filesOut) rfl rfl
  obtain ⟨taken, refused⟩ := inserted (by decide)
  exact ⟨_, stored 1, empty, taken, refused⟩

end OdinVector
