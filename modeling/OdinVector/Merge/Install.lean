/-
This file models what `merge_deletes` does after its passes: it installs the new numbering in
memory under `merge_lock`, writes the header, the tags and the codes next to the new graph, and
leaves the unlock to `reload`.

The codes and the tags of the new ids are gathered in the second pass, each at its new id. No
partition file is written, so the one that is there under the prefix stays.
-/

import OdinVector.Merge.Medoid
import OdinVector.Merge.WriteWindow

namespace OdinVector

variable {Point Code Distance : Type}

/-! ### The installation in memory -/

namespace IndexContents

variable (geometry : Geometry)

/-- `tags.clear()`, `id2loc_.clear()` and `page_layout.clear()`. -/
def cleared (index : IndexContents Point Code) : IndexContents Point Code :=
  { index with
    tags := fun _ => none
    layout := { index.layout with pageLayout := fun _ => none, id2loc := fun _ => none } }

/-- The body of the loop that installs the new ids. -/
def installId (newTags : List Nat) (index : IndexContents Point Code) (id : Nat) :
    IndexContents Point Code :=
  { index with
    tags := Function.update index.tags id (some ((newTags[id]?).getD 0))
    layout :=
      { index.layout with
        id2loc := Function.update index.layout.id2loc id (some id) }.setLoc2id geometry id
          (.real id) }

/-- The codes in `data`, of which there are as many as points. -/
def dataOf [Inhabited Code] (codes : List Code) (id : Nat) : Code := (codes[id]?).getD default

end IndexContents

/-! ### `merge_deletes` -/

/-- What a merge leaves: the index in memory, its lock, and the files under the prefix that it
writes to. -/
structure Merged (Point Code : Type) where
  index : IndexContents Point Code
  mergeLock : MergeMutex
  files : IndexFiles Point Code

namespace Merged

/-- `reload` from the files that were written. -/
def reload (geometry : Geometry) (merged : Merged Point Code) : Merged Point Code :=
  { merged with
    index := merged.index.reload geometry merged.files.graph
    mergeLock := merged.mergeLock.unlock }

end Merged

/-- The graph file after the second pass. Records that no point has are what was in the buffer
or in the file. -/
def WriteState.newGraph (rest : Nat → PageImage Point) (written : WriteState Point Code) :
    Nat → PageImage Point :=
  fun sector slot => (written.file (sector, slot)).getD (rest sector slot)

/-- A merge with all that is left open: the order of the threads that install the ids, the
records that no point has, and the files that are there under the prefix. -/
structure MergeCall (Point Code Distance : Type) extends MergeInput Point Code Distance where
  elements_nodup : ∀ ids, (elements ids).Nodup
  installOrder : List Nat
  install_perm : installOrder.Perm (List.range toMergeInput.populate.newNpoints)
  rest : Nat → PageImage Point
  before : IndexFiles Point Code

namespace MergeCall

section Definitions

variable [LinearOrder Distance] [Inhabited Code] (call : MergeCall Point Code Distance)

/-- The second pass writes to the file that is there. -/
def secondPass : Option (WriteState Point Code) :=
  call.toMergeInput.secondPass fun address => some (call.before.graph address.1 address.2)

/-- `new_tags`, whose entries start as 0. -/
def newTags (written : WriteState Point Code) : List Nat :=
  (List.range call.populate.newNpoints).map fun id => (written.newTags id).getD 0

/-- `pq_coords`, whose bytes start as 0. -/
def pqCoords (written : WriteState Point Code) : List Code :=
  (List.range call.populate.newNpoints).map fun id => (written.pqCoords id).getD default

/-- The graph file and the files of the tags and codes after a merge, with the medoid that its
header gets. -/
def newFiles (written : WriteState Point Code) (medoid : Nat) : IndexFiles Point Code where
  header :=
    { npoints := call.populate.newNpoints
      medoid := medoid
      fileSize := fileSizeOf call.params.geometry call.populate.newNpoints }
  graph := written.newGraph call.rest
  tags := some (call.newTags written)
  pqCompressed := call.pqCoords written
  partition := call.before.partition

/-- `merge_deletes`, with a bound on the rounds of the loop for the medoid. -/
def mergeDeletes (fuel : Nat) (mergeLock : MergeMutex) : Option (Merged Point Code) := do
  let written ← call.secondPass
  let stored ← call.mergeDeletesMedoid fuel
  let mergeLock ← mergeLock.lock
  let index :=
    { call.index with
      numPoints := call.populate.newNpoints
      medoid := stored.medoids0
      data := IndexContents.dataOf (call.pqCoords written) }
  some
    { index := call.installOrder.foldl
        (IndexContents.installId call.params.geometry (call.newTags written)) index.cleared
      mergeLock := mergeLock
      files := call.newFiles written stored.header }

end Definitions

end MergeCall

/-! ### The maps after the installation -/

namespace Layout

variable (geometry : Geometry)

/-- `page_layout` when each id of a list is at the location of the same number. -/
def identityOn (ids : List Nat) (page : Nat) : Option PageArr :=
  if ∃ id ∈ ids, geometry.locSectorNo id = page then
    some fun slot =>
      if slot < geometry.nnodesPerSector ∧ geometry.sectorToLoc page slot ∈ ids then
        .real (geometry.sectorToLoc page slot)
      else .kInvalidID
  else none

variable {geometry}

/-- One more id. -/
theorem identityOn_snoc (ids : List Nat) (id : Nat) : identityOn geometry (ids ++ [id]) =
    Function.update (identityOn geometry ids) (geometry.locSectorNo id)
      (some (Function.update
        ((identityOn geometry ids (geometry.locSectorNo id)).getD fun _ => .kInvalidID)
        (geometry.slotOf id) (.real id))) := by
  funext page
  by_cases here : page = geometry.locSectorNo id
  · subst here
    have laidOut : ∃ other ∈ ids ++ [id], geometry.locSectorNo other = geometry.locSectorNo id :=
      ⟨id, List.mem_append_right _ (List.mem_singleton_self id), rfl⟩
    rw [Function.update_self, identityOn, if_pos laidOut, Option.some.injEq]
    funext slot
    by_cases own : slot = geometry.slotOf id
    · subst own
      rw [Function.update_self, geometry.sectorToLoc_locSectorNo,
        if_pos ⟨geometry.slotOf_lt id, List.mem_append_right _ (List.mem_singleton_self id)⟩]
    · have other : slot < geometry.nnodesPerSector →
          geometry.sectorToLoc (geometry.locSectorNo id) slot ≠ id := fun inside same => by
        refine own ?_
        rw [← same, Geometry.slotOf_sectorToLoc _ inside]
      rw [Function.update_of_ne own, identityOn]
      by_cases before : ∃ other ∈ ids, geometry.locSectorNo other = geometry.locSectorNo id
      · rw [if_pos before]
        refine if_congr (and_congr_right fun inside => ?_) rfl rfl
        rw [List.mem_append, List.mem_singleton, or_iff_left (other inside)]
      · rw [if_neg before]
        refine if_neg fun both => before ?_
        rcases List.mem_append.mp both.2 with old | new
        · exact ⟨_, old, Geometry.locSectorNo_sectorToLoc (geometry.locSectorNo_pos id) both.1⟩
        · exact absurd (List.mem_singleton.mp new) (other both.1)
  · rw [Function.update_of_ne here]
    have sameHere : (∃ other ∈ ids ++ [id], geometry.locSectorNo other = page) ↔
        ∃ other ∈ ids, geometry.locSectorNo other = page := by
      simp only [List.mem_append, List.mem_singleton, or_and_right, exists_or, exists_eq_left]
      exact or_iff_left fun same => here same.symm
    unfold identityOn
    refine if_ctx_congr sameHere (fun laidOut => ?_) fun _ => rfl
    obtain ⟨other, _, isHere⟩ := laidOut
    have data : 1 ≤ page := isHere ▸ geometry.locSectorNo_pos other
    refine congrArg some (funext fun slot => if_congr (and_congr_right fun inside => ?_) rfl rfl)
    rw [List.mem_append, List.mem_singleton, or_iff_left]
    intro same
    rw [← same, Geometry.locSectorNo_sectorToLoc data inside] at here
    exact here rfl

/-- All ids below a number are laid out as `load_page_layout` does without a partition. -/
theorem identityOn_range {ids : List Nat} {numPoints : Nat} (all : ids.Perm (List.range numPoints)) :
    identityOn geometry ids = (loadIdentity geometry numPoints).pageLayout := by
  have positive := geometry.nnodesPerSector_pos
  funext page
  have pages : (∃ id ∈ ids, geometry.locSectorNo id = page) ↔ geometry.locSectorNo 0 ≤ page ∧
      page < geometry.locSectorNo 0 +
        (numPoints + geometry.nnodesPerSector - 1) / geometry.nnodesPerSector := by
    rw [geometry.locSectorNo_zero]
    constructor
    · rintro ⟨id, member, rfl⟩
      have below := List.mem_range.mp (all.mem_iff.mp member)
      refine ⟨geometry.locSectorNo_pos id, ?_⟩
      have next : id / geometry.nnodesPerSector + 1 ≤
          (numPoints + geometry.nnodesPerSector - 1) / geometry.nnodesPerSector := by
        rw [← Nat.add_div_right _ positive]
        exact Nat.div_le_div_right (by omega)
      unfold Geometry.locSectorNo
      omega
    · rintro ⟨data, below⟩
      have next : page ≤ (numPoints + geometry.nnodesPerSector - 1) / geometry.nnodesPerSector := by
        omega
      have room := (Nat.le_div_iff_mul_le positive).mp next
      refine ⟨geometry.sectorToLoc page 0, all.mem_iff.mpr (List.mem_range.mpr ?_),
        Geometry.locSectorNo_sectorToLoc data positive⟩
      have split : page * geometry.nnodesPerSector =
          (page - 1) * geometry.nnodesPerSector + geometry.nnodesPerSector := by
        rw [← Nat.succ_mul, Nat.succ_eq_add_one, Nat.sub_add_cancel data]
      unfold Geometry.sectorToLoc
      omega
  unfold identityOn loadIdentity
  dsimp only
  refine if_ctx_congr pages (fun _ => congrArg some (funext fun slot => ?_)) fun _ => rfl
  have place : geometry.sectorToLoc page slot =
      (page - geometry.locSectorNo 0) * geometry.nnodesPerSector + slot := by
    rw [geometry.locSectorNo_zero]
    rfl
  refine if_congr (and_congr_right fun _ => ?_) (congrArg SlotId.real place) rfl
  rw [all.mem_iff, List.mem_range, place]

end Layout

namespace IndexContents

variable {geometry : Geometry}

/-- The loop that installs the new ids, after the maps are cleared. -/
theorem foldl_installId (newTags : List Nat) (index : IndexContents Point Code) (ids : List Nat) :
    ids.foldl (installId geometry newTags) index.cleared =
      { index with
        tags := fun id => if id ∈ ids then some ((newTags[id]?).getD 0) else none
        layout :=
          { index.layout with
            pageLayout := Layout.identityOn geometry ids
            id2loc := fun id => if id ∈ ids then some id else none } } := by
  induction ids using List.reverseRecOn with
  | nil => rfl
  | append_singleton ids id inductionHypothesis =>
    have entered : ∀ {Value : Type} (value : Nat → Value),
        (fun other => if other ∈ ids ++ [id] then some (value other) else none) =
          Function.update (fun other => if other ∈ ids then some (value other) else none) id
            (some (value id)) := by
      intro Value value
      funext other
      by_cases same : other = id
      · rw [same, Function.update_self,
          if_pos (List.mem_append_right _ (List.mem_singleton_self id))]
      · rw [Function.update_of_ne same]
        refine if_congr ?_ rfl rfl
        rw [List.mem_append, List.mem_singleton, or_iff_left same]
    rw [List.foldl_append, inductionHypothesis, Layout.identityOn_snoc, entered fun id => id,
      entered fun id => (newTags[id]?).getD 0]
    rfl

/-- When all ids are installed, ids, locations and tags are those of a fresh index. -/
theorem installed_all {newTags ids : List Nat} {numPoints : Nat} (index : IndexContents Point Code)
    (all : ids.Perm (List.range numPoints)) (tags : newTags.length = numPoints) :
    ids.foldl (installId geometry newTags) index.cleared =
      { index with
        tags := fun id => newTags[id]?
        layout :=
          { Layout.loadIdentity geometry numPoints with
            emptyPages := index.layout.emptyPages
            curLoc := index.layout.curLoc } } := by
  have member : ∀ id, id ∈ ids ↔ id < numPoints := fun id => by
    rw [all.mem_iff, List.mem_range]
  have newTag : (fun id => if id ∈ ids then some ((newTags[id]?).getD 0) else none) =
      fun id => newTags[id]? := by
    funext id
    by_cases below : id < newTags.length
    · rw [if_pos ((member id).mpr (tags ▸ below)), List.getElem?_eq_getElem below]
      rfl
    · rw [if_neg fun inside => below (tags ▸ (member id).mp inside), List.getElem?_eq_none
        (Nat.not_lt.mp below)]
  have location : (fun id => if id ∈ ids then some id else none) =
      (Layout.loadIdentity geometry numPoints).id2loc := by
    funext id
    exact if_congr (member id) rfl rfl
  rw [foldl_installId, newTag, location, Layout.identityOn_range all]

end IndexContents

/-! ### What the second pass gathers -/

/-- A fold that fails at the first failure keeps what each of its rounds keeps. -/
theorem foldlM_keeps {State Item : Type} {round : State → Item → Option State}
    {Keeps : State → Prop}
    (step : ∀ {state item next}, round state item = some next → Keeps state → Keeps next) :
    ∀ {items : List Item} {state last : State}, items.foldlM round state = some last →
      Keeps state → Keeps last := by
  intro items
  induction items with
  | nil =>
    intro state last folded keeps
    rwa [← Option.some.inj folded]
  | cons item rest inductionHypothesis =>
    intro state last folded keeps
    rw [List.foldlM_cons] at folded
    obtain ⟨next, taken, folded⟩ := Option.bind_eq_some_iff.mp folded
    exact inductionHypothesis folded (step taken keeps)

namespace MergeInput

variable [LinearOrder Distance] {input : MergeInput Point Code Distance}

/-- The codes and tags that are gathered are those of the points with the new ids. -/
def Gathers (input : MergeInput Point Code Distance) (state : WriteState Point Code) : Prop :=
  ∀ newId ∈ puts state.events, ∃ id, input.populate.idMap id = some newId ∧
    state.pqCoords newId = some (input.index.data id) ∧
      state.newTags newId = some (input.index.id2tag id)

theorem Gathers.writeNode {state next : WriteState Point Code} {loc : Nat}
    (taken : input.writeNode state loc = some next) (gathers : input.Gathers state) :
    input.Gathers next := by
  unfold MergeInput.writeNode at taken
  split at taken
  · rwa [← Option.some.inj taken]
  · rename_i id live
    obtain ⟨node, _, taken⟩ := Option.bind_eq_some_iff.mp taken
    obtain ⟨newId, mapped, taken⟩ := Option.bind_eq_some_iff.mp taken
    rw [← Option.some.inj taken]
    intro other member
    by_cases same : other = newId
    · rw [same]
      exact ⟨id, mapped, Function.update_self _ _ _, Function.update_self _ _ _⟩
    · rw [puts_snoc_put] at member
      have before := (List.mem_append.mp member).resolve_right fun new =>
        same (List.mem_singleton.mp new)
      obtain ⟨old, isOld, code, tag⟩ := gathers other before
      exact ⟨old, isOld, (Function.update_of_ne same _ _).trans code,
        (Function.update_of_ne same _ _).trans tag⟩

omit [LinearOrder Distance] in
theorem Gathers.writeBack {state : WriteState Point Code} (gathers : input.Gathers state) :
    input.Gathers (input.writeBack state) := fun newId member =>
  gathers newId (puts_writeBack state ▸ member)

omit [LinearOrder Distance] in
theorem Gathers.writeRest : ∀ (fuel : Nat) {state : WriteState Point Code}, input.Gathers state →
    input.Gathers (input.writeRest fuel state)
  | 0, _, gathers => gathers
  | fuel + 1, state, gathers => by
    unfold MergeInput.writeRest
    split
    · exact Gathers.writeRest fuel gathers.writeBack
    · exact gathers

theorem Gathers.mergeBatch {state next : WriteState Point Code} {batch : Nat}
    (taken : input.mergeBatch state batch = some next) (gathers : input.Gathers state) :
    input.Gathers next := by
  obtain ⟨last, folded, rfl⟩ := Option.map_eq_some_iff.mp taken
  have gathered : input.Gathers last := foldlM_keeps Gathers.writeNode folded gathers
  split
  · exact gathered.writeBack
  · exact gathered

/-- The second pass ends, with the records, codes and tags of all points that stay. -/
theorem exists_secondPass (input : MergeInput Point Code Distance)
    (file : Nat × Nat → Option (DiskNode Point)) :
    ∃ written, input.secondPass file = some written ∧ input.Lossless written ∧
      input.Gathers written := by
  obtain ⟨state, folded, done⟩ := @mergeBatches_done _ _ _ _ input file _ (Nat.le_refl _)
  refine ⟨_, congrArg (Option.map _) folded, done.writeRest, Gathers.writeRest _ ?_⟩
  exact foldlM_keeps Gathers.mergeBatch folded fun _ member => absurd member List.not_mem_nil

end MergeInput

end OdinVector
