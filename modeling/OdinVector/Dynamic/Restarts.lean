/-
This file says when a `DynamicSSDIndex` finds after a restart what it had in memory. `final_merge`
writes the graph, the tags and the codes, and they are read back as they were installed. Inserts
after it are in the graph file only.

A merge writes no partition file. The prefixes are exchanged at each merge, so the partition that
`load` finds is the one that lay under the prefix before: after an even number of merges the one
that the constructor has copied.
-/

import OdinVector.Dynamic.SequentialRuns

namespace OdinVector

variable {Point Code Distance : Type} [LinearOrder Distance] [Inhabited Code]

/-! ### Runs with merges -/

/-- The call is a merge. -/
def DynamicCall.isMerge : DynamicCall Point → Bool
  | .finalMerge => true
  | .insert _ _ | .lazyDelete _ => false

/-- The call is an insert. -/
def DynamicCall.isInsert : DynamicCall Point → Bool
  | .insert _ _ => true
  | .lazyDelete _ | .finalMerge => false

/-- The partitions under the two prefixes after a call: a merge exchanges them. -/
def exchange (partitions : Option PartitionFile × Option PartitionFile) (call : DynamicCall Point) :
    Option PartitionFile × Option PartitionFile :=
  if call.isMerge then partitions.swap else partitions

omit [LinearOrder Distance] [Inhabited Code] in
theorem foldl_exchange (calls : List (DynamicCall Point))
    (partitions : Option PartitionFile × Option PartitionFile) :
    calls.foldl exchange partitions =
      if Even (calls.countP DynamicCall.isMerge) then partitions else partitions.swap := by
  induction calls using List.reverseRecOn with
  | nil => rfl
  | append_singleton calls call inductionHypothesis =>
    rw [List.foldl_append, inductionHypothesis, List.countP_append, List.countP_singleton]
    show exchange _ call = _
    unfold exchange
    cases call.isMerge with
    | false => rfl
    | true =>
      rw [if_pos rfl, if_pos rfl]
      by_cases even : Even (calls.countP DynamicCall.isMerge)
      · rw [if_pos even, if_neg (Nat.not_even_iff_odd.mpr even.add_one)]
      · rw [if_neg even, if_pos (Nat.not_even_iff_odd.mp even).add_one]
        rfl

variable {params : IndexParams Point Code Distance} {first last : DynamicIndex Point Code}

/-- The partition files stay where they are and are exchanged with the prefixes. -/
theorem partitions_of_runs {calls : List (DynamicCall Point)}
    (runs : Transition.Runs (DynamicStep params) first calls last) :
    (last.filesIn.partition, last.filesOut.partition) =
      calls.foldl exchange (first.filesIn.partition, first.filesOut.partition) := by
  refine runs.refines (fun _ => True) (fun state =>
    (state.filesIn.partition, state.filesOut.partition)) (fun _ _ => trivial) ?_ trivial
  rintro state label next _ (_ | _ | ⟨call, rfl, index, before, deleted, done⟩)
  · rfl
  · rfl
  · obtain ⟨_, _, _, _, _, _, reloaded⟩ := MergeCall.reload_mergeDeletes done
    have same := congrArg (fun merged => merged.files.partition) reloaded
    refine Prod.ext ?_ rfl
    show _ = state.filesOut.partition
    rw [← before]
    exact same

omit [Inhabited Code] in
/-- An insert counts its point as an id and not as a point of the files. -/
theorem Inserts.counters {before after : IndexContents Point Code} {point : Point} {tag : Nat}
    (inserts : Inserts params before point tag after) :
    after.numPoints = before.numPoints ∧ after.curId = before.curId + 1 := by
  obtain ⟨first, last, number, buffer, actions, distance, pool, fresh, start, alone, chosen, done⟩ :=
    inserts.ran
  have counted := (alone.alone fresh).1.curId
  have firstId : first.curId = before.curId := congrArg IndexContents.curId start
  rw [← done]
  exact ⟨rfl, counted.trans (congrArg (· + 1) firstId)⟩

/-- Between merges only inserts change the index, and each takes an id. -/
theorem unmerged_of_runs {later : List (DynamicCall Point)}
    (runs : Transition.Runs (DynamicStep params) first later last)
    (noMerge : ∀ call ∈ later, call.isMerge = false) :
    last.index.numPoints = first.index.numPoints ∧
      last.index.curId = first.index.curId + later.countP DynamicCall.isInsert ∧
        ((∀ call ∈ later, call.isInsert = false) →
          last.index = first.index ∧ last.filesIn = first.filesIn) := by
  induction runs with
  | nil => exact ⟨rfl, rfl, fun _ => ⟨rfl, rfl⟩⟩
  | @snoc calls state next call before taken inductionHypothesis =>
    obtain ⟨numPoints, curId, same⟩ := inductionHypothesis fun other member =>
      noMerge other (List.mem_append_left _ member)
    have earlier : (∀ other ∈ calls ++ [call], other.isInsert = false) →
        ∀ other ∈ calls, other.isInsert = false :=
      fun none other member => none other (List.mem_append_left _ member)
    have own : call ∈ calls ++ [call] := List.mem_append_right _ (List.mem_singleton_self call)
    rw [List.countP_append, ← Nat.add_assoc, ← curId]
    cases taken with
    | insert inserts =>
      obtain ⟨samePoints, oneMore⟩ := inserts.counters
      exact ⟨samePoints.trans numPoints, oneMore, fun none => absurd (none _ own) (by nofun)⟩
    | lazyDelete => exact ⟨numPoints, rfl, fun none => same (earlier none)⟩
    | finalMerge => exact absurd (noMerge _ own) (by nofun)

omit [LinearOrder Distance] in
/-- The ids of an index that is loaded are its points. -/
theorem IndexContents.curId_of_load {geometry : Geometry} {files : IndexFiles Point Code}
    {index : IndexContents Point Code} (loaded : load geometry files = some index) :
    index.curId = index.numPoints := by
  unfold load at loaded
  dsimp only at loaded
  split at loaded
  · cases loaded
  · split at loaded
    · rw [← Option.some.inj loaded]
    · split at loaded
      · cases loaded
      · rw [← Option.some.inj loaded]

/-- After a merge, and until the next one, a restart finds the index in memory exactly when
nothing has been inserted since, and the partition file that lies under the prefix is missing or
fits. After an odd number of merges the prefix is the one given for the output, after an even
number it is the one that the constructor has copied to. -/
theorem restart_finds_iff (params : IndexParams Point Code Distance)
    {given shadow out : IndexFiles Point Code} {first last : DynamicIndex Point Code}
    {calls later : List (DynamicCall Point)}
    (constructed : DynamicIndex.construct params.geometry given shadow out = some first)
    (runs : Transition.Runs (DynamicStep params) first (calls ++ .finalMerge :: later) last)
    (noMerge : ∀ call ∈ later, call.isMerge = false) :
    IndexContents.load params.geometry last.filesIn = some last.index ↔
      (∀ call ∈ later, call.isInsert = false) ∧
        PartitionFits params.geometry
          (if Even (calls.countP DynamicCall.isMerge) then out.partition
            else given.partition <|> shadow.partition) last.index.numPoints := by
  obtain ⟨before, earlier, rest⟩ := runs.split
  have rest : Transition.Runs _ before ([DynamicCall.finalMerge] ++ later) last := rest
  obtain ⟨_, once, after⟩ := rest.split
  have partitions := partitions_of_runs earlier
  obtain ⟨index, _, rfl⟩ := Option.map_eq_some_iff.mp constructed
  rw [foldl_exchange] at partitions
  have lies : before.filesOut.partition = if Even (calls.countP DynamicCall.isMerge) then
      out.partition else given.partition <|> shadow.partition := by
    have second := congrArg Prod.snd partitions
    rw [apply_ite Prod.snd] at second
    exact second
  obtain ⟨numPoints, curId, same⟩ := unmerged_of_runs after noMerge
  rw [← lies]
  cases once.single with
  | @finalMerge _ merged call params_eq index_eq before_eq deleted_eq done =>
    subst params_eq
    obtain ⟨written, stored, isWritten, isStored, _, _, reloaded⟩ :=
      MergeCall.reload_mergeDeletes done
    obtain ⟨point, isNext, rfl⟩ := MergeCall.stored_medoid isStored
    have newIndex := congrArg Merged.index reloaded
    have newFiles := congrArg Merged.files reloaded
    dsimp only at newIndex newFiles numPoints curId same
    by_cases noInsert : ∀ call ∈ later, call.isInsert = false
    · rw [and_iff_right noInsert, (same noInsert).1, (same noInsert).2, newIndex, ← before_eq]
      have files : merged.files = call.newFiles written (call.renumber point) := newFiles
      rw [files]
      exact call.load_eq_iff written (call.renumber point)
    · refine iff_of_false (fun loaded => noInsert ?_) fun both => noInsert both.1
      have ids := IndexContents.curId_of_load loaded
      rw [curId, newIndex, numPoints, newIndex] at ids
      have none : later.countP DynamicCall.isInsert = 0 := Nat.add_eq_left.mp ids
      intro other member
      exact Bool.eq_false_iff.mpr (List.countP_eq_zero.mp none other member)

omit [LinearOrder Distance] [Inhabited Code] in
theorem smallDynamic_construct : DynamicIndex.construct smallParams.geometry smallDynamic.filesIn
    smallDynamic.filesOut smallDynamic.filesOut = some smallDynamic := by
  have tags : (fun id => [0, 1][id]?) = smallIndex.tags := by
    funext id
    match id with
    | 0 | 1 | _ + 2 => rfl
  unfold smallDynamic
  rw [IndexState.contents, ← tags]
  rfl

omit [LinearOrder Distance] [Inhabited Code] in
/-- Without a partition file the first merge can be restarted from. -/
theorem restart_finds_smallDynamic : ∃ last, Transition.Runs (DynamicStep smallParams) smallDynamic
    [.insert 2 2, .lazyDelete 1, .finalMerge] last ∧
      IndexContents.load smallParams.geometry last.filesIn = some last.index := by
  have sound : smallDeleted.Sound smallParams :=
    smallDynamic_runs.invariant _ (fun sound taken => sound.step taken) smallDynamic_sound
  obtain ⟨last, taken⟩ := sound.merges_iff.mpr (.inl (by decide +kernel))
  have runs := smallDynamic_runs.snoc taken
  refine ⟨last, runs, (restart_finds_iff smallParams smallDynamic_construct runs nofun).mpr ?_⟩
  exact ⟨nofun, nofun⟩

end OdinVector
