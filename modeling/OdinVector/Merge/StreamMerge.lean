/-
This file compares `merge_deletes_stream_pq_tags` with `merge_deletes`. It writes the codes and
tags to their files as it goes and passes over holes only, not over slots that are handed out,
which an index at rest does not have.

The files are those of `merge_deletes`, except that the header keeps the old number of the medoid.
Nothing is installed in memory: after the `reload` the old maps lead into the new graph, and the
lock is given back that was never taken.
-/

import OdinVector.Merge.LiveData
import OdinVector.Narrow.NarrowLayout

namespace OdinVector

variable {Point Code Distance : Type}

/-! ### The passes -/

namespace MergeInput

/-- The id in a slot that is not `kInvalidID`. -/
def streamId : SlotId → Option Nat
  | .real id => some id
  | .kAllocatedID => some NarrowLayout.kAllocatedID
  | .kInvalidID => none

section Passes

variable [LinearOrder Distance] (input : MergeInput Point Code Distance)

/-- The body of the first loop. -/
def streamPopulateLoc (tables : Populated) (loc : Nat) : Populated :=
  match streamId (input.loc2id loc) with
  | some id =>
    if input.Deleted id then
      { tables with
        deletedNhoods := insertNew tables.deletedNhoods id (input.sampledNhood loc) }
    else
      { tables with
        newNpoints := tables.newNpoints + 1
        idMap := insertNew tables.idMap id tables.newNpoints }
  | none => tables

/-- The first pass. -/
def streamPopulate : Populated :=
  (input.populateLocs
    (input.params.geometry.nBatches input.index.layout.curLoc sectorsPerPopulate)).foldl
      input.streamPopulateLoc ⟨0, fun _ => none, fun _ => none⟩

/-- The body of the second loop. The code and the tag go to their places in the files. -/
def streamWriteNode (state : WriteState Point Code) (loc : Nat) : Option (WriteState Point Code) :=
  match streamId (input.loc2id loc) with
  | none => some state
  | some id =>
    if input.Deleted id then some state
    else do
      let node ← input.newNode input.streamPopulate loc id
      let newId ← input.streamPopulate.idMap id
      some
        { state with
          wbuf := Function.update state.wbuf (input.wbufAddress newId) (some node)
          nUsedId := state.nUsedId + 1
          pqCoords := Function.update state.pqCoords newId (some (input.index.data id))
          newTags := Function.update state.newTags newId (some (input.index.id2tag id))
          events := state.events ++ [.put newId] }

/-- A batch of the second pass. -/
def streamBatch (state : WriteState Point Code) (batch : Nat) : Option (WriteState Point Code) :=
  ((input.mergeOrder batch).foldlM input.streamWriteNode state).map fun state =>
    if input.halfLength ≤ state.nUsedId - state.wbId then input.writeBack state else state

/-- The second pass. -/
def streamSecondPass (file : Nat × Nat → Option (DiskNode Point)) :
    Option (WriteState Point Code) :=
  ((List.range (input.params.geometry.nBatches input.index.layout.curLoc
      sectorsPerMerge)).foldlM input.streamBatch
    { wbuf := fun _ => none
      wbId := 0
      nUsedId := 0
      file := file
      pqCoords := fun _ => none
      newTags := fun _ => none
      events := [] }).map fun state => input.writeRest state.nUsedId state

end Passes

variable {input : MergeInput Point Code Distance}

/-- In an index at rest no slot is handed out. -/
theorem loc2id_ne_kAllocatedID (loc : Nat) : input.loc2id loc ≠ .kAllocatedID :=
  input.wellFormed.consistent.unallocated loc

theorem streamPopulateLoc_eq : input.streamPopulateLoc = input.populateLoc := by
  funext tables loc
  unfold streamPopulateLoc populateLoc
  cases here : input.loc2id loc with
  | real id => rfl
  | kInvalidID => rfl
  | kAllocatedID => exact absurd here (loc2id_ne_kAllocatedID loc)

theorem streamPopulate_eq : input.streamPopulate = input.populate := by
  unfold streamPopulate populate
  rw [streamPopulateLoc_eq]

variable [LinearOrder Distance]

theorem streamWriteNode_eq : input.streamWriteNode = input.writeNode := by
  funext state loc
  unfold streamWriteNode writeNode liveAt
  rw [streamPopulate_eq]
  cases here : input.loc2id loc with
  | real id =>
    by_cases deleted : input.Deleted id
    · simp only [streamId, if_pos deleted]
    · simp only [streamId, if_neg deleted]
  | kInvalidID => rfl
  | kAllocatedID => exact absurd here (loc2id_ne_kAllocatedID loc)

/-- On an index at rest both merges go through the graph in the same way. -/
theorem streamSecondPass_eq (file : Nat × Nat → Option (DiskNode Point)) :
    input.streamSecondPass file = input.secondPass file := by
  have batches : input.streamBatch = input.mergeBatch := by
    funext state batch
    unfold streamBatch mergeBatch
    rw [streamWriteNode_eq]
  unfold streamSecondPass secondPass
  rw [batches]

end MergeInput

/-! ### The merge -/

namespace MergeCall

section Definitions

variable [LinearOrder Distance] [Inhabited Code] (call : MergeCall Point Code Distance)

/-- `merge_deletes_stream_pq_tags`, with a bound on the rounds of the loop for the medoid. -/
def mergeDeletesStreamPqTags (fuel : Nat) (mergeLock : MergeMutex) : Option (Merged Point Code) := do
  let written ← call.streamSecondPass fun address => some (call.before.graph address.1 address.2)
  let medoid ← call.replaceMedoid call.streamPopulate fuel call.index.medoid
  let newNpoints := call.streamPopulate.newNpoints
  some
    { index := call.index
      mergeLock := mergeLock
      files :=
        { header :=
            { npoints := newNpoints
              medoid := medoid
              fileSize := fileSizeOf call.params.geometry newNpoints }
          graph := written.newGraph call.rest
          tags := some ((List.range newNpoints).map fun id => (written.newTags id).getD 0)
          pqCompressed := (List.range newNpoints).map fun id => (written.pqCoords id).getD default
          partition := call.before.partition } }

end Definitions

variable [LinearOrder Distance] [Inhabited Code] {call : MergeCall Point Code Distance}

/-- A streaming merge leaves the files of the plain one but for the medoid. -/
theorem mergeDeletesStreamPqTags_eq (fuel : Nat) (mergeLock : MergeMutex) :
    call.mergeDeletesStreamPqTags fuel mergeLock = call.secondPass.bind fun written =>
      (call.replaceMedoid call.populate fuel call.index.medoid).bind fun medoid =>
        some ⟨call.index, mergeLock, call.newFiles written medoid⟩ := by
  unfold mergeDeletesStreamPqTags
  rw [MergeInput.streamSecondPass_eq, MergeInput.streamPopulate_eq]
  rfl

theorem stream_cases {fuel : Nat} {mergeLock : MergeMutex} {streamed : Merged Point Code}
    (done : call.mergeDeletesStreamPqTags fuel mergeLock = some streamed) :
    ∃ written medoid, call.secondPass = some written ∧ call.successor = some medoid ∧
      streamed = ⟨call.index, mergeLock, call.newFiles written medoid⟩ := by
  rw [mergeDeletesStreamPqTags_eq] at done
  obtain ⟨written, isWritten, done⟩ := Option.bind_eq_some_iff.mp done
  obtain ⟨medoid, found, done⟩ := Option.bind_eq_some_iff.mp done
  exact ⟨written, medoid, isWritten, MergeInput.replaceMedoid_le found, (Option.some.inj done).symm⟩

/-- With a medoid left, a streaming merge ends. -/
theorem exists_mergeDeletesStreamPqTags (left : ∃ medoid, call.successor = some medoid)
    (mergeLock : MergeMutex) :
    ∃ fuel streamed, call.mergeDeletesStreamPqTags fuel mergeLock = some streamed := by
  obtain ⟨medoid, isNext⟩ := left
  obtain ⟨written, isWritten, _⟩ := call.exists_secondPass fun address =>
    some (call.before.graph address.1 address.2)
  have isWritten : call.secondPass = some written := isWritten
  refine ⟨2, ⟨call.index, mergeLock, call.newFiles written medoid⟩, ?_⟩
  rw [mergeDeletesStreamPqTags_eq, isWritten, MergeInput.replaceMedoid_eq 0, isNext]
  rfl

/-- An index of the new files is well formed when its medoid is one of the new numbers. -/
theorem newIndex_wellFormed_iff {written : WriteState Point Code}
    (isWritten : call.secondPass = some written) (medoid : Nat) :
    (call.newIndex written medoid).WellFormed call.params.geometry ↔
      medoid < call.populate.newNpoints := by
  refine ⟨fun wellFormed => ?_, fun isMedoid => (keepsLive_newIndex isWritten isMedoid).wellFormed⟩
  by_contra outside
  exact wellFormed.medoid (if_neg outside)

omit [LinearOrder Distance] in
/-- After the `reload` an id leads to the record whose number is its old location. -/
theorem record_reload_stream {written : WriteState Point Code} {medoid id loc : Nat}
    (mergeLock : MergeMutex) (mapped : call.index.layout.id2loc id = some loc)
    (below : loc < call.populate.newNpoints) :
    ((Merged.mk call.index mergeLock (call.newFiles written medoid)).reload
        call.params.geometry).index.record? call.params.geometry id =
      (call.newIndex written medoid).record? call.params.geometry loc := by
  have old : ((Merged.mk call.index mergeLock (call.newFiles written medoid)).reload
      call.params.geometry).index.layout.id2loc id = some loc := mapped
  have new : (call.newIndex written medoid).layout.id2loc loc = some loc := if_pos below
  rw [IndexContents.record?, IndexContents.record?, old, new]
  rfl

end MergeCall

/-- The streaming merge ends when the plain one does. Its files differ in the medoid of the
header, which keeps its old number: `load` has a medoid only when that is still below the number
of points. In memory nothing is installed. After the `reload` an id leads to the point whose new
number is the old location of the id, and `merge_lock` is given back though nobody had it. -/
theorem stream_merge_differs [LinearOrder Distance] [Inhabited Code]
    (call : MergeCall Point Code Distance) :
    ((∃ fuel streamed, call.mergeDeletesStreamPqTags fuel .free = some streamed) ↔
        ∃ fuel merged, call.mergeDeletes fuel .free = some merged) ∧
      ∀ fuel merged rounds streamed, call.mergeDeletes fuel .free = some merged →
        call.mergeDeletesStreamPqTags rounds .free = some streamed →
          let after := streamed.reload call.params.geometry
          after.mergeLock = .overReleased ∧
            (∃ point : {id // call.Stays id}, call.successor = some point.val ∧
              merged.files.header.medoid = (call.renumber point).val ∧
              streamed.files = { merged.files with
                header := { merged.files.header with medoid := point.val } } ∧
              (call.before.partition = none → ∃ loaded,
                IndexContents.load call.params.geometry streamed.files = some loaded ∧
                  (loaded.WellFormed call.params.geometry ↔ point.val < call.stayCount))) ∧
            after.index.layout.id2loc = call.index.layout.id2loc ∧
              ∀ id (other : {id // call.Stays id}),
                call.index.layout.id2loc id = some (call.renumber other).val →
                  ∃ old new, call.index.record? call.params.geometry other = some old ∧
                    after.index.record? call.params.geometry id = some new ∧
                      new.coords = old.coords := by
  constructor
  · constructor
    · rintro ⟨fuel, streamed, done⟩
      obtain ⟨_, medoid, _, isNext, _⟩ := MergeCall.stream_cases done
      exact MergeCall.exists_mergeDeletes ⟨medoid, isNext⟩
    · rintro ⟨fuel, merged, done⟩
      obtain ⟨_, stored, _, isStored, _⟩ := MergeCall.reload_mergeDeletes done
      obtain ⟨point, isNext, _⟩ := MergeCall.stored_medoid isStored
      exact MergeCall.exists_mergeDeletesStreamPqTags ⟨point, isNext⟩ .free
  · intro fuel merged rounds streamed done streamDone
    obtain ⟨written, stored, isWritten, isStored, _, _, reloaded⟩ :=
      MergeCall.reload_mergeDeletes done
    obtain ⟨point, isNext, rfl⟩ := MergeCall.stored_medoid isStored
    obtain ⟨other, medoid, isOther, isMedoid, rfl⟩ := MergeCall.stream_cases streamDone
    obtain rfl := Option.some.inj (isWritten.symm.trans isOther)
    obtain rfl := Option.some.inj (isNext.symm.trans isMedoid)
    have files : merged.files = call.newFiles written (call.renumber point).val :=
      congrArg Merged.files reloaded
    refine ⟨rfl, ⟨point, isNext, ?_, ?_, fun none => ?_⟩, rfl, fun id other mapped => ?_⟩
    · rw [files]
      rfl
    · rw [files]
      rfl
    · refine ⟨call.newIndex written point, ?_, ?_⟩
      · rw [call.load_newFiles, none]
      · rw [MergeCall.newIndex_wellFormed_iff isWritten, MergeInput.newNpoints_eq]
    · obtain ⟨old, new, isOld, isNew, coords, _⟩ :=
        MergeCall.recorded_renumber isWritten point other
      refine ⟨old, new, isOld, ?_, coords⟩
      rw [MergeCall.record_reload_stream .free mapped (call.renumber other).isLt]
      exact isNew

end OdinVector
