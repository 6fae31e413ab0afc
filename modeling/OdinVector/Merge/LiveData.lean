/-
This file proves what `merge_deletes` and the `reload` after it make of an index. The points
that stay are numbered from 0, with their tags, codes and coordinates. Their lists name the new
numbers of the neighbours that stay, with those of the neighbours that go put in their place.

A merge that finds a medoid ends. No lookup in its tables fails.
-/

import OdinVector.Merge.Install
import OdinVector.Merge.Splicing
import Mathlib.Order.Lattice.Nat

namespace OdinVector

variable {Point Code Distance : Type} [LinearOrder Distance]

/-! ### The index after a merge -/

namespace MergeCall

section NewIndex

variable [Inhabited Code] (call : MergeCall Point Code Distance)

/-- The index that the files of a merge hold, when there is no partition. -/
def newIndex (written : WriteState Point Code) (medoid : Nat) : IndexContents Point Code where
  numPoints := call.populate.newNpoints
  medoid := medoid
  layout := .loadIdentity call.params.geometry call.populate.newNpoints
  graph := written.newGraph call.rest
  data := IndexContents.dataOf (call.pqCoords written)
  tags id := (call.newTags written)[id]?
  curId := call.populate.newNpoints

variable {call}

omit [LinearOrder Distance] [Inhabited Code] in
theorem length_newTags (written : WriteState Point Code) :
    (call.newTags written).length = call.populate.newNpoints := by
  rw [newTags, List.length_map, List.length_range]

omit [LinearOrder Distance] in
theorem length_pqCoords (written : WriteState Point Code) :
    (call.pqCoords written).length = call.populate.newNpoints := by
  rw [pqCoords, List.length_map, List.length_range]

/-- A merge that ends holds its lock until `reload`, which leaves the index of the files. -/
theorem reload_mergeDeletes {fuel : Nat} {mergeLock : MergeMutex} {merged : Merged Point Code}
    (done : call.mergeDeletes fuel mergeLock = some merged) :
    ∃ written stored, call.secondPass = some written ∧
      call.mergeDeletesMedoid fuel = some stored ∧ mergeLock = .free ∧ merged.mergeLock = .locked ∧
        merged.reload call.params.geometry =
          ⟨call.newIndex written stored.medoids0, .free, call.newFiles written stored.header⟩ := by
  obtain ⟨written, isWritten, done⟩ := Option.bind_eq_some_iff.mp done
  obtain ⟨stored, isStored, done⟩ := Option.bind_eq_some_iff.mp done
  obtain ⟨taken, isTaken, done⟩ := Option.bind_eq_some_iff.mp done
  have held : mergeLock = .free ∧ taken = .locked := by
    cases mergeLock with
    | free => exact ⟨rfl, (Option.some.inj isTaken).symm⟩
    | locked | overReleased => cases isTaken
  obtain ⟨rfl, rfl⟩ := held
  refine ⟨written, stored, isWritten, isStored, rfl, ?_, ?_⟩
  · rw [← Option.some.inj done]
  · rw [← Option.some.inj done, IndexContents.installed_all _ call.install_perm
      (length_newTags written)]
    rfl

end NewIndex

end MergeCall

/-! ### The numbering -/

namespace MergeInput

section Numbering

variable (input : MergeInput Point Code Distance)

omit [LinearOrder Distance] in
theorem newId_lt {id newId : Nat} (mapped : input.populate.idMap id = some newId) :
    newId < input.populate.newNpoints := by
  rw [input.populate_populatedBy.newNpoints]
  exact (List.getElem?_eq_some_iff.mp ((input.populate_populatedBy.idMap id newId).mp mapped)).1

omit [LinearOrder Distance] in
theorem isSome_newId (point : {id // input.Stays id}) : (input.populate.idMap point).isSome := by
  obtain ⟨newId, mapped⟩ := exists_newId_of_stays point.property
  exact Option.isSome_iff_exists.mpr ⟨newId, mapped⟩

/-- The new id of a point that stays. -/
def newNumber (point : {id // input.Stays id}) : Fin input.populate.newNpoints :=
  ⟨(input.populate.idMap point).get (input.isSome_newId point),
    input.newId_lt (Option.some_get _).symm⟩

omit [LinearOrder Distance] in
theorem idMap_eq (point : {id // input.Stays id}) :
    input.populate.idMap point = some (input.newNumber point).val := (Option.some_get _).symm

omit [LinearOrder Distance] in
theorem newNumber_eq {point : {id // input.Stays id}} {newId : Nat}
    (mapped : input.populate.idMap point = some newId) : (input.newNumber point).val = newId :=
  Option.some.inj ((input.idMap_eq point).symm.trans mapped)

omit [LinearOrder Distance] in
theorem newNumber_bijective : Function.Bijective input.newNumber := by
  constructor
  · intro first second same
    refine Subtype.ext (idMap_injective (input.idMap_eq first) ?_)
    rw [same]
    exact input.idMap_eq second
  · intro newId
    obtain ⟨id, stays, mapped⟩ := isNewId_iff.mpr newId.isLt
    exact ⟨⟨id, stays⟩, Fin.ext (input.newNumber_eq mapped)⟩

/-- The points that stay and the numbers below their count. -/
noncomputable def renumber : {id // input.Stays id} ≃ Fin input.populate.newNpoints :=
  Equiv.ofBijective input.newNumber input.newNumber_bijective

omit [LinearOrder Distance] in
theorem idMap_renumber (point : {id // input.Stays id}) :
    input.populate.idMap point = some (input.renumber point).val := input.idMap_eq point

/-- The neighbours that a point has when those that go are replaced. -/
def splicedOf (id : Nat) : Finset Nat :=
  ((input.index.layout.id2loc id).map fun loc => input.spliced loc id).getD ∅

/-- The list of a point under a numbering of those that stay. -/
structure ListKept {count : Nat} (renumber : {id // input.Stays id} ≃ Fin count)
    (point : {id // input.Stays id}) (list : List Nat) : Prop where
  images : ∀ newNbr ∈ list, ∃ nbr : {id // input.Stays id},
    nbr.val ∈ input.splicedOf point ∧ (renumber nbr).val = newNbr
  bounded : list.length ≤ input.params.prune.range
  nodup : list.Nodup
  notSelf : (renumber point).val ∉ list
  whole : (input.splicedOf point).card ≤ input.params.prune.range →
    ∀ nbr : {id // input.Stays id}, nbr.val ∈ input.splicedOf point → (renumber nbr).val ∈ list

omit [LinearOrder Distance] in
theorem ListMerged.kept {input : MergeInput Point Code Distance} {loc : Nat}
    {point : {id // input.Stays id}} {list : List Nat} (here : input.loc2id loc = .real point)
    (merged : input.ListMerged loc point list) : input.ListKept input.renumber point list := by
  have mapped := (input.wellFormed.consistent.bijective point loc).mpr here
  have same : input.splicedOf point = input.spliced loc point := by
    unfold splicedOf
    rw [mapped]
    rfl
  have images : ∀ newNbr ∈ list, ∃ nbr : {id // input.Stays id},
      nbr.val ∈ input.splicedOf point ∧ (input.renumber nbr).val = newNbr := by
    intro newNbr member
    obtain ⟨nbr, inside, isNew⟩ := merged.images newNbr member
    refine ⟨⟨nbr, stays_of_spliced here inside⟩, same ▸ inside, ?_⟩
    exact Option.some.inj ((input.idMap_renumber _).symm.trans isNew)
  refine
    { images := images
      bounded := merged.bounded
      nodup := merged.nodup
      notSelf := fun member => ?_
      whole := fun few nbr inside => ?_ }
  · obtain ⟨nbr, inside, isSelf⟩ := images _ member
    have self : nbr = point := input.renumber.injective (Fin.ext isSelf)
    rw [same, self] at inside
    exact Finset.notMem_erase _ _ inside
  · rw [same] at few inside
    obtain ⟨newNbr, member, isNew⟩ := merged.whole few nbr inside
    rw [input.idMap_renumber, Option.some.injEq] at isNew
    exact isNew ▸ member

end Numbering

end MergeInput

/-! ### The points that stay -/

namespace MergeCall

/-- An index has the points that stay, under a numbering of theirs. -/
structure KeepsLive (call : MergeCall Point Code Distance) (index : IndexContents Point Code)
    (renumber : {id // call.Stays id} ≃ Fin index.numPoints) : Prop where
  wellFormed : index.WellFormed call.params.geometry
  located : ∀ newId, index.layout.id2loc newId =
    if newId < index.numPoints then some newId else none
  counters : index.curId = index.numPoints ∧
    index.layout.curLoc = Layout.alignedTail call.params.geometry index.numPoints ∧
      index.layout.emptyPages = []
  tagged : ∀ point, index.id2tag (renumber point) = call.index.id2tag point
  coded : ∀ point, index.data (renumber point) = call.index.data point
  recorded : ∀ point : {id // call.Stays id}, ∃ old new, call.index.record? call.params.geometry point = some old ∧
    index.record? call.params.geometry (renumber point) = some new ∧ new.coords = old.coords ∧
      call.ListKept renumber point new.nbrs

section Installed

variable [Inhabited Code] {call : MergeCall Point Code Distance} {written : WriteState Point Code}

omit [Inhabited Code] in
/-- What the second pass has left in the files. -/
theorem secondPass_done (isWritten : call.secondPass = some written) :
    call.Lossless written ∧ call.Gathers written := by
  obtain ⟨other, found, lossless, gathers⟩ := call.exists_secondPass fun address =>
    some (call.before.graph address.1 address.2)
  obtain rfl := Option.some.inj (isWritten.symm.trans found)
  exact ⟨lossless, gathers⟩

/-- The code and the tag of a point are at its new number. -/
theorem gathered_renumber (isWritten : call.secondPass = some written)
    (point : {id // call.Stays id}) :
    (call.newTags written)[(call.renumber point).val]? = some (call.index.id2tag point) ∧
      (call.pqCoords written)[(call.renumber point).val]? = some (call.index.data point) := by
  obtain ⟨lossless, gathers⟩ := secondPass_done isWritten
  have inRange : (call.renumber point).val ∈ List.range call.populate.newNpoints :=
    List.mem_range.mpr (call.renumber point).isLt
  obtain ⟨id, mapped, code, tag⟩ := gathers _ (lossless.puts_perm.mem_iff.mpr inRange)
  obtain rfl : id = point := MergeInput.idMap_injective mapped (call.idMap_renumber point)
  have entry : ∀ {Value : Type} (value : Nat → Value),
      ((List.range call.populate.newNpoints).map value)[(call.renumber point).val]? =
        some (value (call.renumber point).val) := by
    intro Value value
    rw [List.getElem?_map, List.getElem?_range (call.renumber point).isLt]
    rfl
  constructor
  · rw [newTags, entry, tag]
    rfl
  · rw [pqCoords, entry, code]
    rfl

theorem recorded_renumber (isWritten : call.secondPass = some written) (medoid : Nat)
    (point : {id // call.Stays id}) : ∃ old new,
      call.index.record? call.params.geometry point = some old ∧
        (call.newIndex written medoid).record? call.params.geometry (call.renumber point) =
          some new ∧ new.coords = old.coords ∧ call.ListKept call.renumber point new.nbrs := by
  obtain ⟨loc, here⟩ := point.property.1
  obtain ⟨newId, node, mapped, below, made, inFile⟩ :=
    (secondPass_done isWritten).1.recorded loc point here point.property.2
  obtain rfl : (call.renumber point).val = newId := call.newNumber_eq mapped
  obtain ⟨coords, merged⟩ := MergeInput.listMerged_of_newNode call.elements_nodup here made
  refine ⟨call.node loc, node, ?_, ?_, coords, merged.kept here⟩
  · have mapped := (call.wellFormed.consistent.bijective point loc).mpr here
    unfold IndexContents.record?
    rw [mapped]
    rfl
  · have located : (call.newIndex written medoid).layout.id2loc (call.renumber point) =
        some (call.renumber point).val := if_pos below
    have record : (call.newIndex written medoid).recordAtLoc call.params.geometry
        (call.renumber point) = node := by
      show (written.file (call.fileAddress (call.renumber point))).getD _ = node
      rw [inFile]
      rfl
    rw [IndexContents.record?, located]
    exact congrArg some record

omit [LinearOrder Distance] [Inhabited Code] in
/-- The medoid of a merge is the new number of the one that is left. -/
theorem stored_medoid {fuel : Nat} {stored : StoredMedoid}
    (isStored : call.mergeDeletesMedoid fuel = some stored) :
    ∃ point : {id // call.Stays id}, call.successor = some point.val ∧
      stored = ⟨(call.renumber point).val, (call.renumber point).val⟩ := by
  obtain ⟨medoid, found, isStored⟩ := Option.bind_eq_some_iff.mp isStored
  obtain ⟨newId, mapped, isStored⟩ := Option.bind_eq_some_iff.mp isStored
  have isNext := MergeInput.replaceMedoid_le found
  refine ⟨⟨medoid, MergeInput.stays_of_successor isNext⟩, isNext, ?_⟩
  have number : (call.renumber ⟨medoid, MergeInput.stays_of_successor isNext⟩).val = newId :=
    call.newNumber_eq mapped
  rw [number, ← Option.some.inj isStored]

/-- The index of the files has the points that stay. -/
theorem keepsLive_newIndex {medoid : Nat} (isWritten : call.secondPass = some written)
    (isMedoid : medoid < call.populate.newNpoints) :
    call.KeepsLive (call.newIndex written medoid) call.renumber := by
  have located : ∀ newId, (call.newIndex written medoid).layout.id2loc newId =
      if newId < call.populate.newNpoints then some newId else none := fun newId => rfl
  have known : ∀ {newId}, newId < call.populate.newNpoints →
      (call.newIndex written medoid).layout.id2loc newId ≠ none := fun {newId} below => by
    rw [located, if_pos below]
    exact Option.some_ne_none newId
  refine
    { wellFormed :=
        { consistent := Layout.loadIdentity_consistent _
          linked := fun id loc mapped nbr listed => ?_
          medoid := known isMedoid }
      located := located
      counters := ⟨rfl, rfl, rfl⟩
      tagged := fun point => ?_
      coded := fun point => ?_
      recorded := recorded_renumber isWritten medoid }
  · rw [located, Option.ite_none_right_eq_some, Option.some.injEq] at mapped
    obtain ⟨below, rfl⟩ := mapped
    obtain ⟨point, isPoint⟩ := call.renumber.surjective ⟨id, below⟩
    obtain ⟨_, new, _, isNew, _, kept⟩ := recorded_renumber isWritten medoid point
    rw [isPoint, IndexContents.record?, located, if_pos below] at isNew
    rw [Option.map_some, Option.some.injEq] at isNew
    obtain ⟨other, _, same⟩ := kept.images nbr (isNew ▸ listed)
    rw [← same]
    exact known (call.renumber other).isLt
  · show ((call.newTags written)[(call.renumber point).val]?).getD _ = _
    rw [(gathered_renumber isWritten point).1]
    rfl
  · show ((call.pqCoords written)[(call.renumber point).val]?).getD _ = _
    rw [(gathered_renumber isWritten point).2]
    rfl

/-- With a medoid left and nobody else at the lock, a merge ends. -/
theorem exists_mergeDeletes (left : ∃ medoid, call.successor = some medoid) :
    ∃ fuel merged, call.mergeDeletes fuel .free = some merged := by
  obtain ⟨medoid, isNext⟩ := left
  obtain ⟨written, isWritten, _⟩ := call.exists_secondPass fun address =>
    some (call.before.graph address.1 address.2)
  obtain ⟨newId, mapped⟩ :=
    MergeInput.exists_newId_of_stays (MergeInput.stays_of_successor isNext)
  have isStored : call.mergeDeletesMedoid 2 = some ⟨newId, newId⟩ := by
    unfold MergeInput.mergeDeletesMedoid
    rw [MergeInput.replaceMedoid_eq 0, isNext]
    show (call.populate.idMap medoid).bind _ = _
    rw [mapped]
    rfl
  refine ⟨2, ?_⟩
  unfold mergeDeletes
  have isWritten : call.secondPass = some written := isWritten
  rw [isWritten, isStored]
  exact ⟨_, rfl⟩

end Installed

end MergeCall

/-! ### What `load` finds in the files -/

/-- A partition file is missing, or it lays out the ids one after the other. -/
def PartitionFits (geometry : Geometry) (partition : Option PartitionFile) (numPoints : Nat) :
    Prop :=
  ∀ file ∈ partition, (numPoints = 0 ∨ file.nodesPerPage = geometry.nnodesPerSector) ∧
    Layout.loadPartition geometry file.pages = Layout.loadIdentity geometry numPoints

section Load

variable [Inhabited Code]

omit [LinearOrder Distance] in
/-- What `load` reads in the files that a merge has written. -/
theorem MergeCall.load_newFiles (call : MergeCall Point Code Distance)
    (written : WriteState Point Code) (medoid : Nat) :
    IndexContents.load call.params.geometry (call.newFiles written medoid) =
      match call.before.partition with
      | none => some (call.newIndex written medoid)
      | some file =>
        if call.populate.newNpoints ≠ 0 ∧ file.nodesPerPage ≠ call.params.geometry.nnodesPerSector
        then none
        else some
          { call.newIndex written medoid with
            layout := Layout.loadPartition call.params.geometry file.pages } := by
  have count : (call.newFiles written medoid).pqCompressed.length = call.populate.newNpoints :=
    length_pqCoords written
  have header : (call.newFiles written medoid).header.npoints = call.populate.newNpoints := rfl
  unfold IndexContents.load
  dsimp only
  rw [count, if_neg (not_not.mpr header)]
  show (match call.before.partition with | none => _ | some file => _) = _
  cases call.before.partition with
  | none => rfl
  | some file => rfl

omit [LinearOrder Distance] in
/-- `load` finds the index in memory exactly when the partition fits. -/
theorem MergeCall.load_eq_iff (call : MergeCall Point Code Distance)
    (written : WriteState Point Code) (medoid : Nat) :
    IndexContents.load call.params.geometry (call.newFiles written medoid) =
        some (call.newIndex written medoid) ↔
      PartitionFits call.params.geometry call.before.partition call.populate.newNpoints := by
  rw [call.load_newFiles]
  unfold PartitionFits
  cases call.before.partition with
  | none => exact iff_of_true rfl nofun
  | some file =>
    simp only [Option.mem_def, Option.some.injEq, forall_eq', Option.ite_none_left_eq_some]
    refine and_congr (by rw [not_and, not_not, or_iff_not_imp_left]) ?_
    exact ⟨congrArg IndexContents.layout, fun same => by rw [same]; rfl⟩

end Load

/-! ### The whole merge -/

/-- A merge in which the threads take everything in order. -/
def MergeCall.inOrder (params : IndexParams Point Code Distance) (index : IndexContents Point Code)
    (wellFormed : index.WellFormed params.geometry) (deletedNodesSet : Finset Nat)
    (nSampledNbrs : Nat) (before : IndexFiles Point Code) : MergeCall Point Code Distance where
  params := params
  index := index
  wellFormed := wellFormed
  deletedNodesSet := deletedNodesSet
  nSampledNbrs := nSampledNbrs
  elements ids := (List.range (ids.sup id + 1)).filter (· ∈ ids)
  mem_elements ids other := by
    rw [List.mem_filter, decide_eq_true_eq, List.mem_range, Nat.lt_succ_iff]
    exact and_iff_right_of_imp (Finset.le_sup (f := id))
  populateOrder := params.geometry.batchLocs index.layout.curLoc sectorsPerPopulate
  populate_perm _ := .refl _
  mergeOrder := params.geometry.batchLocs index.layout.curLoc sectorsPerMerge
  merge_perm _ := .refl _
  elements_nodup _ := List.nodup_range.filter _
  installOrder := List.range _
  install_perm := .refl _
  rest := before.graph
  before := before

section Merged

variable [Inhabited Code]

/-- `merge_deletes` ends exactly when the medoid stays or a neighbour of it that may be sampled
does. After the `reload` the index has the points that stay, its medoid is the one that is left,
and `merge_lock` is free. -/
theorem merge_keeps_live (call : MergeCall Point Code Distance) :
    ((∃ fuel merged, call.mergeDeletes fuel .free = some merged) ↔
        ∃ medoid, call.successor = some medoid) ∧
      ∀ fuel mergeLock merged, call.mergeDeletes fuel mergeLock = some merged →
        let after := merged.reload call.params.geometry
        after.mergeLock = .free ∧ after.index.numPoints = call.stayCount ∧
          ∃ renumber, call.KeepsLive after.index renumber ∧
            ∃ point, call.successor = some point.val ∧
              after.index.medoid = (renumber point).val := by
  constructor
  · refine ⟨fun ⟨fuel, merged, done⟩ => ?_, MergeCall.exists_mergeDeletes⟩
    obtain ⟨_, stored, _, isStored, _⟩ := MergeCall.reload_mergeDeletes done
    obtain ⟨point, isNext, _⟩ := MergeCall.stored_medoid isStored
    exact ⟨point, isNext⟩
  · intro fuel mergeLock merged done
    obtain ⟨written, stored, isWritten, isStored, _, _, reloaded⟩ :=
      MergeCall.reload_mergeDeletes done
    obtain ⟨point, isNext, rfl⟩ := MergeCall.stored_medoid isStored
    dsimp only
    rw [reloaded]
    exact ⟨rfl, MergeInput.newNpoints_eq, call.renumber,
      MergeCall.keepsLive_newIndex isWritten (call.renumber point).isLt, point, isNext, rfl⟩

end Merged

end OdinVector
