/-
This file says when a merge finds a medoid. If the medoid is deleted, the loop takes the first
of its neighbours that the first pass has kept. Those are points that stay, so the loop ends
there, but there may be none: the neighbours may all be deleted, or `n_sampled_nbrs` is 0.

`merge_deletes` stores the new id of the medoid. `merge_deletes_stream_pq_tags` finds it in the
same way, writes the old id to the header and leaves `medoids[0]`.
-/

import Mathlib.Data.Finset.Sort
import OdinVector.Merge.Deletes

namespace OdinVector

variable {Point Code Distance : Type}

/-- What a merge stores as its medoid. -/
structure StoredMedoid where
  header : Nat
  /-- `medoids[0]` afterwards. -/
  medoids0 : Nat

namespace MergeInput

variable (input : MergeInput Point Code Distance)

/-- The medoid of `merge_deletes`, with a bound on the rounds of the loop. -/
def mergeDeletesMedoid (fuel : Nat) : Option StoredMedoid := do
  let medoid ← input.replaceMedoid input.populate fuel input.index.medoid
  let newMedoid ← input.populate.idMap medoid
  some ⟨newMedoid, newMedoid⟩

/-- The medoid of `merge_deletes_stream_pq_tags`. Its first pass differs from the one of
`merge_deletes` for slots that are reserved, which an index at rest does not have. -/
def streamMedoid (fuel : Nat) : Option StoredMedoid := do
  let medoid ← input.replaceMedoid input.populate fuel input.index.medoid
  some ⟨medoid, input.index.medoid⟩

/-! ### The medoids that are stored -/

/-- The new id of a point that stays. -/
def IsNewId (newId : Nat) : Prop :=
  ∃ id, input.Stays id ∧ input.populate.idMap id = some newId

/-- The loop ends without an empty list, and what it stores are new ids of points that stay. -/
def StoresLive (stores : Nat → Option StoredMedoid) : Prop :=
  ∃ fuel stored, stores fuel = some stored ∧ input.IsNewId stored.header ∧
    input.IsNewId stored.medoids0

/-- The neighbours of the medoid. -/
def medoidNbrs : List Nat :=
  ((input.index.record? input.params.geometry input.index.medoid).map DiskNode.nbrs).getD []

/-- The medoid that is left: its own point, or its first neighbour that stays. -/
def successor : Option Nat :=
  if input.Deleted input.index.medoid then
    if input.nSampledNbrs = 0 then none else input.medoidNbrs.find? fun nbr => ¬ input.Deleted nbr
  else some input.index.medoid

/-- How many points stay. -/
def stayCount : Nat :=
  (List.range input.index.layout.curLoc).countP fun loc => (input.liveAt loc).isSome

theorem exists_medoidLoc : ∃ loc, input.loc2id loc = .real input.index.medoid ∧
    input.medoidNbrs = (input.node loc).nbrs := by
  obtain ⟨loc, mapped⟩ := Option.ne_none_iff_exists'.mp input.wellFormed.medoid
  refine ⟨loc, (input.wellFormed.consistent.bijective _ _).mp mapped, ?_⟩
  unfold medoidNbrs IndexContents.record?
  rw [mapped]
  rfl

variable {input}

/-- A neighbour of the medoid has a location. -/
theorem stays_of_medoidNbr {nbr : Nat} (listed : nbr ∈ input.medoidNbrs)
    (stays : ¬ input.Deleted nbr) : input.Stays nbr := by
  obtain ⟨loc, here, nbrs⟩ := exists_medoidLoc input
  rw [nbrs] at listed
  exact ⟨input.exists_loc_of_nbr here listed, stays⟩

theorem stays_of_successor {medoid : Nat} (isNext : input.successor = some medoid) :
    input.Stays medoid := by
  unfold successor at isNext
  by_cases deleted : input.Deleted input.index.medoid
  · rw [if_pos deleted, Option.ite_none_left_eq_some] at isNext
    have found := isNext.2
    exact stays_of_medoidNbr (List.mem_of_find?_eq_some found)
      (of_decide_eq_true (List.find?_some (p := fun nbr => decide (¬ input.Deleted nbr)) found))
  · rw [if_neg deleted, Option.some.injEq] at isNext
    obtain ⟨loc, here, _⟩ := exists_medoidLoc input
    exact isNext ▸ ⟨⟨loc, here⟩, deleted⟩

/-- The neighbours that are kept start with the first one that stays. -/
theorem head?_sampledNhood (loc : Nat) : (input.sampledNhood loc).head? =
    if input.nSampledNbrs = 0 then none
    else (input.node loc).nbrs.find? fun nbr => ¬ input.Deleted nbr := by
  unfold sampledNhood
  rw [← List.head?_filter]
  cases input.nSampledNbrs with
  | zero => rfl
  | succ count => rw [if_neg (Nat.succ_ne_zero count), List.head?_take, if_neg (Nat.succ_ne_zero count)]

/-- The loop ends in the second round at the latest, or it reads an empty list. -/
theorem replaceMedoid_eq (fuel : Nat) :
    input.replaceMedoid input.populate (fuel + 2) input.index.medoid = input.successor := by
  obtain ⟨loc, here, nbrs⟩ := exists_medoidLoc input
  unfold replaceMedoid
  by_cases deleted : input.Deleted input.index.medoid
  · have next : input.successor = (input.sampledNhood loc).head? := by
      rw [successor, if_pos deleted, head?_sampledNhood, nbrs]
    rw [if_pos deleted, input.nhood_of_deleted here deleted]
    show ((input.sampledNhood loc).head?).bind _ = _
    rw [← next]
    cases isNext : input.successor with
    | none => rfl
    | some medoid =>
      show input.replaceMedoid input.populate (fuel + 1) medoid = some medoid
      exact if_neg (stays_of_successor isNext).2
  · rw [if_neg deleted, successor, if_neg deleted]

theorem replaceMedoid_le {fuel medoid : Nat}
    (found : input.replaceMedoid input.populate fuel input.index.medoid = some medoid) :
    input.successor = some medoid := by
  have more : ∀ (fuel start : Nat), input.replaceMedoid input.populate fuel start = some medoid →
      input.replaceMedoid input.populate (fuel + 1) start = some medoid := by
    intro fuel
    induction fuel with
    | zero => exact fun start none => absurd none.symm (Option.some_ne_none _)
    | succ fuel inductionHypothesis =>
      intro start found
      unfold replaceMedoid at found ⊢
      split at found
      · rename_i deleted
        rw [if_pos deleted]
        obtain ⟨nhoods, isThere, found⟩ := Option.bind_eq_some_iff.mp found
        obtain ⟨next, isNext, found⟩ := Option.bind_eq_some_iff.mp found
        rw [isThere]
        show (nhoods.head?).bind _ = _
        rw [isNext]
        exact inductionHypothesis next found
      · rename_i stays
        rw [if_neg stays]
        exact found
  rw [← replaceMedoid_eq fuel]
  exact more _ _ (more _ _ found)

/-- The new ids are the numbers below the number of points that stay. -/
theorem isNewId_iff {newId : Nat} : input.IsNewId newId ↔ newId < input.populate.newNpoints := by
  have populated := input.populate_populatedBy
  constructor
  · rintro ⟨id, _, mapped⟩
    rw [populated.newNpoints]
    exact (List.getElem?_eq_some_iff.mp ((populated.idMap id newId).mp mapped)).1
  · intro below
    rw [populated.newNpoints] at below
    have found := List.getElem?_eq_getElem below
    obtain ⟨loc, _, here, stays⟩ := input.mem_liveIds.mp (List.mem_of_getElem? found)
    exact ⟨_, ⟨⟨loc, here⟩, stays⟩, (populated.idMap _ newId).mpr found⟩

theorem newNpoints_eq : input.populate.newNpoints = input.stayCount := by
  have perm : (input.populateLocs input.populateBatches).Perm
      (List.range input.index.layout.curLoc) := by
    refine (List.perm_ext_iff_of_nodup (input.nodup_populateLocs _) List.nodup_range).mpr fun loc => ?_
    rw [input.mem_populateLocs, List.mem_range]
    refine and_iff_left_of_imp fun below => below.trans_le ?_
    exact Geometry.le_nBatches_mul _ (by decide)
  rw [input.populate_populatedBy.newNpoints, liveIds, (perm.filterMap _).length_eq, stayCount]
  exact List.length_filterMap_eq_countP

/-! ### When a merge stores a medoid that stays -/

theorem exists_newId_of_stays {id : Nat} (stays : input.Stays id) :
    ∃ newId, input.populate.idMap id = some newId := by
  obtain ⟨⟨loc, here⟩, notDeleted⟩ := stays
  exact input.exists_newId here notDeleted

theorem exists_successor_iff : (∃ medoid, input.successor = some medoid) ↔
    ¬ input.Deleted input.index.medoid ∨
      (input.nSampledNbrs ≠ 0 ∧ ∃ nbr ∈ input.medoidNbrs, ¬ input.Deleted nbr) := by
  unfold successor
  by_cases deleted : input.Deleted input.index.medoid
  · rw [if_pos deleted, or_iff_right (not_not.mpr deleted)]
    simp only [Option.ite_none_left_eq_some, exists_and_left]
    refine and_congr_right fun _ => ?_
    rw [← Option.isSome_iff_exists, List.find?_isSome]
    simp only [decide_eq_true_eq]
  · rw [if_neg deleted]
    exact iff_of_true ⟨_, rfl⟩ (.inl deleted)

/-- `merge_deletes` stores a point that stays when the medoid stays, or a neighbour of it that
may be sampled. The other merge also needs the old ids that it stores to be below the number of
points that stay. -/
theorem storesLive_iff (input : MergeInput Point Code Distance) :
    (input.StoresLive input.mergeDeletesMedoid ↔ ¬ input.Deleted input.index.medoid ∨
        (input.nSampledNbrs ≠ 0 ∧ ∃ nbr ∈ input.medoidNbrs, ¬ input.Deleted nbr)) ∧
      (input.StoresLive input.streamMedoid ↔
        ∃ medoid, input.successor = some medoid ∧ medoid < input.stayCount ∧
          input.index.medoid < input.stayCount) := by
  constructor
  · rw [← exists_successor_iff]
    constructor
    · rintro ⟨fuel, stored, stores, _⟩
      obtain ⟨medoid, found, _⟩ := Option.bind_eq_some_iff.mp stores
      exact ⟨medoid, replaceMedoid_le found⟩
    · rintro ⟨medoid, isNext⟩
      have stays := stays_of_successor isNext
      obtain ⟨newId, mapped⟩ := exists_newId_of_stays stays
      refine ⟨2, ⟨newId, newId⟩, ?_, ⟨medoid, stays, mapped⟩, ⟨medoid, stays, mapped⟩⟩
      unfold mergeDeletesMedoid
      rw [replaceMedoid_eq 0, isNext]
      show (input.populate.idMap medoid).bind _ = _
      rw [mapped]
      rfl
  · rw [← newNpoints_eq]
    constructor
    · rintro ⟨fuel, stored, stores, header, medoids0⟩
      obtain ⟨medoid, found, same⟩ := Option.bind_eq_some_iff.mp stores
      obtain rfl := Option.some.inj same
      exact ⟨medoid, replaceMedoid_le found, isNewId_iff.mp header, isNewId_iff.mp medoids0⟩
    · rintro ⟨medoid, isNext, header, medoids0⟩
      refine ⟨2, ⟨medoid, input.index.medoid⟩, ?_, isNewId_iff.mpr header, isNewId_iff.mpr medoids0⟩
      unfold streamMedoid
      rw [replaceMedoid_eq 0, isNext]
      rfl

/-! ### A medoid whose neighbours are deleted -/

/-- Three points in a row, of which the last one stays. -/
def lastStays : MergeInput Nat Unit Nat where
  params := wideParams
  index :=
    { numPoints := 3
      medoid := 0
      layout := .loadIdentity wideParams.geometry 3
      graph := fun page slot =>
        if page = 1 then
          match slot with
          | 0 => ⟨0, [1]⟩
          | 1 => ⟨1, [0, 2]⟩
          | _ => ⟨2, [1]⟩
        else ⟨0, []⟩
      data := fun _ => ()
      tags := fun _ => none
      curId := 3 }
  wellFormed :=
    { consistent := Layout.loadIdentity_consistent 3
      linked := fun id loc mapped nbr listed => by
        have mapped : (if id < 3 then some id else none) = some loc := mapped
        obtain ⟨inside, same⟩ := Option.ite_none_right_eq_some.mp mapped
        obtain rfl := Option.some.inj same
        revert nbr
        obtain rfl | rfl | rfl : id = 0 ∨ id = 1 ∨ id = 2 := by omega
        all_goals decide
      medoid := by decide }
  deletedNodesSet := {0, 1}
  nSampledNbrs := 64
  elements ids := ids.sort (· ≤ ·)
  mem_elements ids id := Finset.mem_sort _
  populateOrder := wideParams.geometry.batchLocs _ sectorsPerPopulate
  populate_perm _ := .refl _
  mergeOrder := wideParams.geometry.batchLocs _ sectorsPerMerge
  merge_perm _ := .refl _

/-- A point stays, and the merge finds no medoid. -/
theorem lastStays_not_storesLive : ¬ ∀ input : MergeInput Nat Unit Nat,
    (∃ id, input.Stays id) → input.StoresLive input.mergeDeletesMedoid := by
  intro always
  obtain ⟨fuel, stored, stores, _⟩ :=
    always lastStays ⟨2, ⟨2, by decide⟩, by decide +kernel⟩
  obtain ⟨medoid, found, _⟩ := Option.bind_eq_some_iff.mp stores
  have none : lastStays.successor = none := by decide +kernel
  exact Option.some_ne_none _ ((replaceMedoid_le found).symm.trans none)

end MergeInput

end OdinVector
