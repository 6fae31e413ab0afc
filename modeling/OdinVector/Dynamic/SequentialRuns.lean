/-
This file proves what runs of calls do that come one after the other. The index stays well
formed, its lists fit into a record and name other points once, and its points are those of a
multiset to which an insert adds one and from which a merge takes all with a deleted tag.

A tag stays in the active deletion set until the next merge. A point that is inserted under it
meanwhile goes with the others.
-/

import OdinVector.Dynamic.Sequential

namespace OdinVector

variable {Point Code Distance : Type}

/-! ### An insert into the graph -/

namespace PointGraph

variable [LinearOrder Distance] {params : IndexParams Point Code Distance}
  {graph : PointGraph Point Code}

/-- An insert adds its point and keeps the others. -/
theorem points_insertPoint (point : Point) (tag : Nat) (nhood : List Nat) :
    (graph.insertPoint params point tag nhood).points =
      ⟨tag, point, params.deflateVector point⟩ ::ₘ graph.points := by
  have others : ∀ id ∈ List.range graph.nextId,
      (graph.insertPoint params point tag nhood).stored? id = graph.stored? id := by
    intro id member
    have old : id ≠ graph.nextId := Nat.ne_of_lt (List.mem_range.mp member)
    unfold stored? insertPoint
    dsimp only
    rw [if_neg old, Function.update_of_ne old, Function.update_of_ne old]
    by_cases listed : id ∈ nhood
    · rw [if_pos listed, Option.map_map]
      rfl
    · rw [if_neg listed]
  have target : (graph.insertPoint params point tag nhood).stored? graph.nextId =
      some ⟨tag, point, params.deflateVector point⟩ := by
    unfold stored? insertPoint
    dsimp only
    rw [if_pos rfl, Function.update_self, Function.update_self]
    rfl
  have listed : (List.range (graph.nextId + 1)).filterMap
      (graph.insertPoint params point tag nhood).stored? =
        (List.range graph.nextId).filterMap graph.stored? ++
          [⟨tag, point, params.deflateVector point⟩] := by
    rw [List.range_succ, List.filterMap_append, List.filterMap_congr others,
      List.filterMap_cons_some target, List.filterMap_nil]
  refine (congrArg Multiset.ofList listed).trans ?_
  exact Multiset.coe_eq_coe.mpr (List.perm_append_singleton _ _)

/-- The lists fit after an insert whose neighbours are known and fit. -/
theorem ListsFit.insertPoint (fit : graph.ListsFit params.prune.range) {point : Point} {tag : Nat}
    {nhood : List Nat} (bounded : nhood.length ≤ params.prune.range) (nodup : nhood.Nodup)
    (known : ∀ id ∈ nhood, graph.record id ≠ none)
    (linked : ∀ id node, graph.record id = some node → ∀ nbr ∈ node.nbrs, graph.record nbr ≠ none)
    (fresh : graph.record graph.nextId = none) :
    (graph.insertPoint params point tag nhood).ListsFit params.prune.range := by
  have cases : ∀ {id node}, (graph.insertPoint params point tag nhood).record id = some node →
      (id = graph.nextId ∧ node.nbrs = nhood) ∨ (id ≠ graph.nextId ∧ ∃ old,
        graph.record id = some old ∧ (node = old ∨ id ∈ nhood ∧
          node = link params (Function.update graph.data graph.nextId
            (params.deflateVector point)) graph.nextId id old)) := by
    intro id node found
    unfold PointGraph.insertPoint at found
    dsimp only at found
    split at found
    · rename_i target
      exact .inl ⟨target, by rw [← Option.some.inj found]⟩
    · rename_i other
      refine .inr ⟨other, ?_⟩
      split at found
      · rename_i listed
        obtain ⟨old, isOld, rfl⟩ := Option.map_eq_some_iff.mp found
        exact ⟨old, isOld, .inr ⟨listed, rfl⟩⟩
      · exact ⟨node, found, .inl rfl⟩
  have targetNot : ∀ {id old}, graph.record id = some old → graph.nextId ∉ old.nbrs :=
    fun {id old} isOld member => linked id old isOld _ member fresh
  refine ⟨fun id node found => ?_, fun id node found => ?_, fun id node found => ?_⟩
  · rcases cases found with ⟨_, nbrs⟩ | ⟨_, old, isOld, rfl | ⟨_, rfl⟩⟩
    · exact nbrs ▸ bounded
    · exact fit.bounded id node isOld
    · exact (pruned_boundedNhood id _).bounded
  · rcases cases found with ⟨_, nbrs⟩ | ⟨_, old, isOld, rfl | ⟨_, rfl⟩⟩
    · exact nbrs ▸ nodup
    · exact fit.nodup id node isOld
    · exact nodup_boundedNhood id (nodup_snoc (fit.nodup id old isOld) (targetNot isOld))
  · rcases cases found with ⟨rfl, nbrs⟩ | ⟨other, old, isOld, rfl | ⟨_, rfl⟩⟩
    · rw [nbrs]
      exact fun member => known _ member fresh
    · exact fit.notSelf id node isOld
    · intro member
      rcases List.mem_append.mp ((pruned_boundedNhood id _).subset id member) with before | new
      · exact fit.notSelf id old isOld before
      · exact other (List.mem_singleton.mp new)

end PointGraph

/-! ### The insert of a call -/

/-- The list that `prune_neighbors` leaves fits. -/
theorem length_pruneNeighbors_le [LinearOrder Distance] (params : PruneParams Distance)
    (distance : Nat → Nat → Distance) (medoid : Nat) (pool : List (Neighbor Distance)) :
    (pruneNeighbors params distance medoid [] pool).length ≤ params.range := by
  have kept := pruned_dropMedoid params distance medoid (sortPool pool)
  unfold pruneNeighbors
  dsimp only
  split
  · exact Nat.zero_le _
  · split
    · have filled : Pruned params.range ((sortPool pool).map Neighbor.id) (fillUp params _ _) :=
        pruned_fillUp (sortPool pool) (fun neighbor inside => List.mem_map_of_mem inside) kept
      exact filled.bounded
    · exact kept.bounded

section Inserts

variable [LinearOrder Distance] {params : IndexParams Point Code Distance}
  {before after : IndexContents Point Code} {point : Point} {tag : Nat}

/-- What an insert does to an index that is not in use. -/
structure Grows (params : IndexParams Point Code Distance) (before after : IndexContents Point Code)
    (point : Point) (tag : Nat) (nhood : List Nat) : Prop where
  nodup : nhood.Nodup
  bounded : nhood.length ≤ params.prune.range
  known : ∀ id ∈ nhood, before.layout.id2loc id ≠ none
  fresh : before.layout.id2loc before.curId = none
  graph : after.graphView params = (before.graphView params).insertPoint params point tag nhood
  wellFormed : after.WellFormed params.geometry
  below : ∀ id, after.layout.id2loc id ≠ none → id < after.curId

theorem Inserts.grows (inserts : Inserts params before point tag after)
    (mapped : before.layout.id2loc before.medoid ≠ none) :
    ∃ nhood, Grows params before after point tag nhood := by
  obtain ⟨first, last, number, buffer, actions, distance, pool, fresh, start, alone, chosen, done⟩ :=
    inserts.ran
  obtain ⟨nhood, ends, nodup, known, linking⟩ := (alone.alone fresh).2.2.committed
    (by rw [alone.returned.1]; rfl)
  have wellFormed := alone.wellFormed fresh
  have sameLayout : before.layout = first.layout := by rw [← start]; rfl
  have sameId : before.curId = first.curId := by rw [← start]; rfl
  have sameGraph : before.graphView params = first.graph params := by rw [← start]; rfl
  have isNhood : nhood = pruneNeighbors params.prune distance before.medoid [] pool :=
    List.append_cancel_right (ends.symm.trans chosen)
  have medoid : last.settle.layout.id2loc before.medoid ≠ none := by
    rw [sameLayout] at mapped
    by_cases isTarget : before.medoid = first.curId
    · rw [isTarget]
      exact linking.mapped
    by_cases member : before.medoid ∈ nhood
    · exact (linking.linked _ member isTarget).1
    · have kept := (linking.others _ isTarget member).1
      rw [← kept] at mapped
      exact mapped
  refine ⟨nhood, ?_⟩
  subst done
  exact
    { nodup := nodup.of_append_left
      bounded := isNhood ▸ length_pruneNeighbors_le _ _ _ _
      known := fun id member => sameLayout ▸ known id member
      fresh := by
        rw [sameLayout, sameId]
        by_contra taken
        exact Nat.lt_irrefl _ (fresh.records.loaded.below _ taken)
      graph := by
        rw [sameGraph]
        exact alone.graph_eq fresh linking known
      wellFormed := wellFormed.contents before.numPoints medoid
      below := wellFormed.records.loaded.below }

end Inserts

/-! ### The points after a merge -/

namespace MergeCall

variable [LinearOrder Distance] {call : MergeCall Point Code Distance}
  {index : IndexContents Point Code} {renumber : {id // call.Stays id} ≃ Fin index.numPoints}

omit [LinearOrder Distance] in
/-- A point that stays is stored as before. -/
theorem KeepsLive.stored_eq (keeps : call.KeepsLive index renumber)
    (point : {id // call.Stays id}) :
    (index.graphView call.params).stored? (renumber point) =
      (call.index.graphView call.params).stored? point := by
  obtain ⟨old, new, isOld, isNew, coords, _⟩ := keeps.recorded point
  have tag := keeps.tagged point
  have code := keeps.coded point
  show (index.record? call.params.geometry (renumber point)).map _ =
    (call.index.record? call.params.geometry point).map _
  rw [isOld, isNew, Option.map_some, Option.map_some, Option.some.injEq, StoredPoint.mk.injEq]
  exact ⟨tag, coords, code⟩

omit [LinearOrder Distance] in
/-- A merge takes the points with a deleted tag. -/
theorem KeepsLive.points_eq (keeps : call.KeepsLive index renumber)
    (below : ∀ id, call.index.layout.id2loc id ≠ none → id < call.index.curId) :
    (index.graphView call.params).points =
      (call.index.graphView call.params).points.filter fun stored =>
        stored.tag ∉ call.deletedNodesSet := by
  have renumbered : (List.range index.curId).filterMap (index.graphView call.params).stored? =
      ((List.finRange index.numPoints).map fun newId => (renumber.symm newId).val).filterMap
        (call.index.graphView call.params).stored? := by
    rw [keeps.counters.1, ← List.map_coe_finRange_eq_range, List.filterMap_map, List.filterMap_map]
    refine List.filterMap_congr fun newId _ => ?_
    have same := keeps.stored_eq (renumber.symm newId)
    rw [Equiv.apply_symm_apply] at same
    exact same
  have filtered : ((List.range call.index.curId).filterMap
      (call.index.graphView call.params).stored?).filter
        (fun stored => stored.tag ∉ call.deletedNodesSet) =
      ((List.range call.index.curId).filter fun id =>
        ¬ call.Deleted id ∧ (call.index.layout.id2loc id).isSome).filterMap
          (call.index.graphView call.params).stored? := by
    rw [List.filter_filterMap, List.filterMap_filter]
    refine List.filterMap_congr fun id _ => ?_
    cases mapped : call.index.layout.id2loc id with
    | none =>
      have absent : (call.index.graphView call.params).stored? id = none := by
        show (call.index.record? call.params.geometry id).map _ = none
        rw [IndexContents.record?, mapped]
        rfl
      rw [absent, Option.filter_none, ite_self]
    | some loc =>
      have present : (call.index.graphView call.params).stored? id =
          some ⟨call.index.id2tag id, (call.node loc).coords, call.index.data id⟩ := by
        show (call.index.record? call.params.geometry id).map _ = _
        rw [IndexContents.record?, mapped]
        rfl
      rw [present, Option.filter_some]
      refine if_congr ?_ rfl rfl
      simp only [decide_eq_true_eq, Option.isSome_some, and_true]
      rfl
  have sameIds : ((List.finRange index.numPoints).map fun newId => (renumber.symm newId).val).Perm
      ((List.range call.index.curId).filter fun id =>
        ¬ call.Deleted id ∧ (call.index.layout.id2loc id).isSome) := by
    refine (List.perm_ext_iff_of_nodup ?_ (List.nodup_range.filter _)).mpr fun id => ?_
    · exact (List.nodup_finRange _).map fun first second same =>
        renumber.symm.injective (Subtype.ext same)
    · have located : (call.index.layout.id2loc id).isSome ↔ ∃ loc, call.loc2id loc = .real id := by
        rw [Option.isSome_iff_exists]
        exact exists_congr fun loc => call.wellFormed.consistent.bijective id loc
      rw [List.mem_map, List.mem_filter, List.mem_range, decide_eq_true_eq, located]
      constructor
      · rintro ⟨newId, _, rfl⟩
        have stays := (renumber.symm newId).property
        refine ⟨below _ ?_, stays.2, stays.1⟩
        exact Option.isSome_iff_ne_none.mp (located.mpr stays.1)
      · rintro ⟨_, notDeleted, known⟩
        refine ⟨renumber ⟨id, known, notDeleted⟩, List.mem_finRange _, ?_⟩
        rw [Equiv.symm_apply_apply]
  have listed : ((index.graphView call.params).points) = Multiset.ofList _ :=
    congrArg Multiset.ofList renumbered
  rw [listed]
  refine Eq.trans ?_ (congrArg Multiset.ofList filtered.symm)
  exact Multiset.coe_eq_coe.mpr (sameIds.filterMap _)

omit [LinearOrder Distance] in
/-- Every id of the new index is the number of a point. -/
theorem KeepsLive.listKept (keeps : call.KeepsLive index renumber) {id : Nat}
    {node : DiskNode Point} (found : index.record? call.params.geometry id = some node) :
    ∃ point, (renumber point).val = id ∧ call.ListKept renumber point node.nbrs := by
  have below : id < index.numPoints := by
    by_contra above
    rw [IndexContents.record?, keeps.located, if_neg above] at found
    cases found
  obtain ⟨point, isPoint⟩ := renumber.surjective ⟨id, below⟩
  obtain ⟨_, new, _, isNew, _, kept⟩ := keeps.recorded point
  rw [isPoint] at isNew
  refine ⟨point, congrArg Fin.val isPoint, ?_⟩
  rwa [← Option.some.inj (isNew.symm.trans found)]

omit [LinearOrder Distance] in
theorem KeepsLive.listsFit (keeps : call.KeepsLive index renumber) :
    (index.graphView call.params).ListsFit call.params.prune.range where
  bounded id node found := by
    obtain ⟨_, _, kept⟩ := keeps.listKept found
    exact kept.bounded
  nodup id node found := by
    obtain ⟨_, _, kept⟩ := keeps.listKept found
    exact kept.nodup
  notSelf id node found := by
    obtain ⟨_, rfl, kept⟩ := keeps.listKept found
    exact kept.notSelf

end MergeCall

/-! ### Runs -/

/-- What the calls keep of a `DynamicSSDIndex`. -/
structure DynamicIndex.Sound (params : IndexParams Point Code Distance)
    (state : DynamicIndex Point Code) : Prop where
  wellFormed : state.index.WellFormed params.geometry
  below : ∀ id, state.index.layout.id2loc id ≠ none → id < state.index.curId
  lists : (state.index.graphView params).ListsFit params.prune.range
  /-- The open file is the one under the prefix. -/
  opened : state.filesIn.graph = state.index.graph
  free : state.mergeLock = .free
  sets : state.sets.Consistent

/-- The points of an index with the tags that the next merge takes. -/
structure TaggedPoints (Point Code : Type) where
  points : Multiset (StoredPoint Point Code)
  doomed : Finset Nat

/-- What the calls are for: an insert adds a point, and a merge takes the points whose tag has
been deleted since the merge before it. -/
def TaggedPoints.answer (params : IndexParams Point Code Distance)
    (state : TaggedPoints Point Code) : DynamicCall Point → TaggedPoints Point Code
  | .insert point tag =>
    { state with points := ⟨tag, point, params.deflateVector point⟩ ::ₘ state.points }
  | .lazyDelete tag => { state with doomed := insert tag state.doomed }
  | .finalMerge =>
    { points := state.points.filter fun stored => stored.tag ∉ state.doomed
      doomed := ∅ }

/-- The points of a `DynamicSSDIndex` with the tags of its active deletion set. -/
def DynamicIndex.tagged (params : IndexParams Point Code Distance)
    (state : DynamicIndex Point Code) : TaggedPoints Point Code where
  points := (state.index.graphView params).points
  doomed := state.sets.deletionSets state.sets.activeDeleteSet

section Runs

variable [LinearOrder Distance] [Inhabited Code] {params : IndexParams Point Code Distance}
  {state next : DynamicIndex Point Code}

omit [LinearOrder Distance] [Inhabited Code] in
/-- The set that a merge passes on is the one that was active. -/
theorem DynamicIndex.Sound.retired (sound : state.Sound params) :
    (state.sets.saveDelSet (1 - state.sets.activeDeleteSet) state.sets.activeDeleteSet).deletionSets
        (1 - (state.sets.saveDelSet (1 - state.sets.activeDeleteSet)
          state.sets.activeDeleteSet).activeDeleteSet) =
      state.sets.deletionSets state.sets.activeDeleteSet := by
  have small := sound.sets.active_le
  have again : 1 - (1 - state.sets.activeDeleteSet) = state.sets.activeDeleteSet := by omega
  show (state.sets.saveDelSet _ _).deletionSets (1 - (1 - state.sets.activeDeleteSet)) = _
  rw [again]
  exact (state.sets.saveDelSet_retired (by omega)).1

/-- What a merge of a `DynamicSSDIndex` leaves, with the set that it has retired. -/
theorem merged_cases (sound : state.Sound params) (taken : DynamicStep params state .finalMerge next) :
    ∃ (call : MergeCall Point Code Distance)
      (renumber : {id // call.Stays id} ≃ Fin next.index.numPoints), call.params = params ∧
        call.index = state.index ∧
          call.deletedNodesSet = state.sets.deletionSets state.sets.activeDeleteSet ∧
            call.KeepsLive next.index renumber ∧ next.mergeLock = .free ∧
              next.sets = state.sets.saveDelSet (1 - state.sets.activeDeleteSet)
                state.sets.activeDeleteSet ∧ next.filesIn.graph = next.index.graph := by
  cases taken with
  | finalMerge call params_eq index_eq before_eq deleted_eq done =>
    subst params_eq
    obtain ⟨written, stored, isWritten, isStored, _, _, reloaded⟩ :=
      MergeCall.reload_mergeDeletes done
    obtain ⟨point, isNext, rfl⟩ := MergeCall.stored_medoid isStored
    have keeps : call.KeepsLive (call.newIndex written (call.renumber point)) call.renumber :=
      MergeCall.keepsLive_newIndex isWritten (call.renumber point).isLt
    have index := congrArg Merged.index reloaded
    have mergeLock := congrArg Merged.mergeLock reloaded
    dsimp only at index mergeLock ⊢
    rw [index]
    exact ⟨call, call.renumber, rfl, index_eq, deleted_eq.trans sound.retired, keeps, mergeLock, rfl,
      congrArg (fun merged => merged.files.graph) reloaded⟩

/-- Every call keeps a `DynamicSSDIndex` sound. -/
theorem DynamicIndex.Sound.step {request : DynamicCall Point} (sound : state.Sound params)
    (taken : DynamicStep params state request next) : next.Sound params := by
  cases request with
  | insert point tag =>
    cases taken with
    | insert inserts =>
      obtain ⟨nhood, grows⟩ := inserts.grows sound.wellFormed.medoid
      have recorded : ∀ id, state.index.layout.id2loc id ≠ none →
          (state.index.graphView params).record id ≠ none :=
        fun id mapped absent => mapped (Option.map_eq_none_iff.mp absent)
      refine
        { wellFormed := grows.wellFormed
          below := grows.below
          lists := ?_
          opened := rfl
          free := sound.free
          sets := sound.sets }
      rw [grows.graph]
      refine sound.lists.insertPoint grows.bounded grows.nodup
        (fun id member => recorded id (grows.known id member)) (fun id node found nbr listed => ?_) ?_
      · obtain ⟨loc, isThere, rfl⟩ := Option.map_eq_some_iff.mp found
        exact recorded nbr (sound.wellFormed.linked id loc isThere nbr listed)
      · show (state.index.layout.id2loc state.index.curId).map _ = none
        rw [grows.fresh]
        rfl
  | lazyDelete tag =>
    cases taken with
    | lazyDelete => exact { sound with sets := sound.sets.lazyDelete tag }
  | finalMerge =>
    obtain ⟨call, renumber, rfl, _, _, keeps, free, sets, opened⟩ := merged_cases sound taken
    refine
      { wellFormed := keeps.wellFormed
        below := fun id mapped => ?_
        lists := keeps.listsFit
        opened := opened
        free := free
        sets := sets ▸ sound.sets.saveDelSet }
    rw [keeps.counters.1]
    by_contra above
    rw [keeps.located, if_neg above] at mapped
    exact mapped rfl

/-- Every call does to the points what it is for. -/
theorem DynamicIndex.Sound.answers {request : DynamicCall Point} (sound : state.Sound params)
    (taken : DynamicStep params state request next) :
    next.tagged params = (state.tagged params).answer params request := by
  cases request with
  | insert point tag =>
    cases taken with
    | insert inserts =>
      obtain ⟨nhood, grows⟩ := inserts.grows sound.wellFormed.medoid
      unfold DynamicIndex.tagged
      rw [grows.graph, PointGraph.points_insertPoint]
      rfl
  | lazyDelete tag =>
    cases taken with
    | lazyDelete =>
      have active : (state.sets.lazyDelete tag).deletionSets
          (state.sets.lazyDelete tag).activeDeleteSet =
            insert tag (state.sets.deletionSets state.sets.activeDeleteSet) := by
        ext other
        rw [DeletionSets.lazyDelete_active, DeletionSets.mem_lazyDelete, Finset.mem_insert, or_comm]
        exact or_congr_left (and_iff_right rfl)
      exact congrArg (TaggedPoints.mk _) active
  | finalMerge =>
    obtain ⟨call, renumber, rfl, index, deleted, keeps, _, sets, _⟩ := merged_cases sound taken
    have points := keeps.points_eq (index ▸ sound.below)
    have different : state.sets.activeDeleteSet ≠ 1 - state.sets.activeDeleteSet := by omega
    have empty : next.sets.deletionSets next.sets.activeDeleteSet = ∅ := by
      rw [sets]
      exact (state.sets.saveDelSet_retired different).2
    unfold DynamicIndex.tagged
    rw [points, empty, index, deleted]
    rfl

/-- The medoid or a neighbour of it has a tag that is not deleted. -/
def DynamicIndex.MedoidLeft (params : IndexParams Point Code Distance)
    (state : DynamicIndex Point Code) : Prop :=
  state.index.id2tag state.index.medoid ∉ state.sets.deletionSets state.sets.activeDeleteSet ∨
    ∃ nbr ∈ ((state.index.record? params.geometry state.index.medoid).map DiskNode.nbrs).getD [],
      state.index.id2tag nbr ∉ state.sets.deletionSets state.sets.activeDeleteSet

/-- A sound index can be merged exactly when there is a medoid for the merge to find. -/
theorem DynamicIndex.Sound.merges_iff (sound : state.Sound params) :
    (∃ next, DynamicStep params state .finalMerge next) ↔ state.MedoidLeft params := by
  constructor
  · rintro ⟨_, taken⟩
    cases taken with
    | finalMerge call params_eq index_eq before_eq deleted_eq done =>
      obtain ⟨_, _, _, isStored, _⟩ := MergeCall.reload_mergeDeletes done
      obtain ⟨point, isNext, _⟩ := MergeCall.stored_medoid isStored
      have left := (@MergeInput.exists_successor_iff _ _ _ call.toMergeInput).mp ⟨_, isNext⟩
      rw [sound.retired] at deleted_eq
      unfold MergeInput.Deleted MergeInput.medoidNbrs at left
      rw [deleted_eq, index_eq, params_eq] at left
      exact left.imp_right And.right
  · intro left
    let call : MergeCall Point Code Distance := .inOrder params state.index sound.wellFormed
      (state.sets.deletionSets state.sets.activeDeleteSet) 1 state.filesOut
    have next : ∃ medoid, call.successor = some medoid :=
      MergeInput.exists_successor_iff.mpr (left.imp_right fun nbr => ⟨Nat.one_ne_zero, nbr⟩)
    obtain ⟨fuel, merged, done⟩ := MergeCall.exists_mergeDeletes next
    rw [← sound.free] at done
    exact ⟨_, .finalMerge call rfl rfl rfl sound.retired.symm done⟩

end Runs

/-! ### Sequences of calls -/

/-- An index of two points between two calls. -/
def smallDynamic : DynamicIndex Nat Unit where
  index := smallIndex.contents 2 0
  mergeLock := .free
  sets := .init
  filesIn :=
    { header := ⟨2, 0, fileSizeOf smallParams.geometry 2⟩
      graph := smallIndex.disk
      tags := some [0, 1]
      pqCompressed := [(), ()]
      partition := none }
  filesOut :=
    { header := ⟨0, 0, 0⟩
      graph := smallIndex.disk
      tags := none
      pqCompressed := []
      partition := none }

theorem smallIndex_wellFormed : smallIndex.WellFormed smallParams :=
  ⟨smallIndex_records, smallIndex_linked.linked, rfl⟩

theorem smallDynamic_sound : smallDynamic.Sound smallParams where
  wellFormed := smallIndex_wellFormed.contents 2 (by decide)
  below := smallIndex_records.loaded.below
  lists :=
    { bounded := fun id node found => by
        obtain ⟨loc, _, rfl⟩ := Option.map_eq_some_iff.mp found
        exact Nat.zero_le _
      nodup := fun id node found => by
        obtain ⟨loc, _, rfl⟩ := Option.map_eq_some_iff.mp found
        exact List.nodup_nil
      notSelf := fun id node found => by
        obtain ⟨loc, _, rfl⟩ := Option.map_eq_some_iff.mp found
        exact List.not_mem_nil }
  opened := rfl
  free := rfl
  sets := DeletionSets.consistent_init

/-- The index after the insert of `smallInsert`. -/
def smallInserted : IndexContents Nat Unit :=
  ((updateSystem smallParams (IndexState.WellFormed smallParams)).after smallIndex
    smallInsert).settle.contents 2 0

theorem smallDynamic_inserts : Inserts smallParams smallDynamic.index 2 2 smallInserted where
  ran := by
    refine ⟨smallIndex, _, 0, fun _ _ => ⟨0, []⟩, smallInsert.tail, fun _ _ => 0, [⟨0, 0⟩],
      smallIndex_wellFormed, rfl, ?_, ?_, rfl⟩
    · exact
        { replay := Transition.System.run_after (by decide +kernel)
          own := by decide
          expands := by decide +kernel
          returned := ⟨by decide +kernel, by decide +kernel⟩
          written := by decide +kernel }
    · decide +kernel

/-- The index after the insert and a deletion. -/
def smallDeleted : DynamicIndex Nat Unit :=
  { smallDynamic with
    index := smallInserted
    filesIn := { smallDynamic.filesIn with graph := smallInserted.graph }
    sets := smallDynamic.sets.lazyDelete 1 }

theorem smallDynamic_runs : Transition.Runs (DynamicStep smallParams) smallDynamic
    [.insert 2 2, .lazyDelete 1] smallDeleted :=
  .snoc (.snoc .nil (.insert smallDynamic_inserts)) .lazyDelete

section Sequences

variable [LinearOrder Distance] [Inhabited Code]

/-- A sound index stays sound whatever calls come one after the other: ids and slots agree, the
neighbours in the lists are mapped, distinct and not the point itself, and there are at most
`range` of them. The next merge ends exactly when the medoid or a neighbour of it is not deleted. -/
theorem calls_keep_sound (params : IndexParams Point Code Distance)
    {first last : DynamicIndex Point Code} {calls : List (DynamicCall Point)}
    (sound : first.Sound params)
    (runs : Transition.Runs (DynamicStep params) first calls last) :
    last.Sound params ∧
      ((∃ next, DynamicStep params last .finalMerge next) ↔ last.MedoidLeft params) := by
  have kept : last.Sound params := runs.invariant _ (fun sound taken => sound.step taken) sound
  exact ⟨kept, kept.merges_iff⟩

/-- After the insert and the deletion of another tag the index can be merged. -/
theorem calls_keep_sound_smallDynamic :
    ∃ next, DynamicStep smallParams smallDeleted .finalMerge next :=
  (calls_keep_sound smallParams smallDynamic_sound smallDynamic_runs).2.mpr (.inl (by decide +kernel))

/-- The points of an index are those of a multiset to which an insert adds its point and from
which a merge takes all points whose tag was deleted since the merge before it, also the ones
that were inserted after the deletion. -/
theorem calls_refine_points (params : IndexParams Point Code Distance)
    {first last : DynamicIndex Point Code} {calls : List (DynamicCall Point)}
    (sound : first.Sound params)
    (runs : Transition.Runs (DynamicStep params) first calls last) :
    last.tagged params = calls.foldl (TaggedPoints.answer params) (first.tagged params) :=
  runs.refines (DynamicIndex.Sound params) (DynamicIndex.tagged params)
    (fun sound taken => sound.step taken) (fun sound taken => sound.answers taken) sound

/-- The merge takes the point with the deleted tag and keeps the one that was inserted. -/
theorem calls_refine_points_smallDynamic : ∃ last,
    Transition.Runs (DynamicStep smallParams) smallDynamic
      [.insert 2 2, .lazyDelete 1, .finalMerge] last ∧
        (last.tagged smallParams).points = {⟨0, 0, ()⟩, ⟨2, 2, ()⟩} := by
  have sound : smallDeleted.Sound smallParams :=
    smallDynamic_runs.invariant _ (fun sound taken => sound.step taken) smallDynamic_sound
  obtain ⟨last, taken⟩ := sound.merges_iff.mpr (.inl (by decide +kernel))
  have runs := smallDynamic_runs.snoc taken
  refine ⟨last, runs, ?_⟩
  rw [calls_refine_points smallParams smallDynamic_sound runs]
  decide +kernel

end Sequences

end OdinVector
