/-
This file models `merge_deletes`: a pass that gives new ids to the points that stay and
collects the neighbours of those that go, a pass that writes the new records, and the choice
of a new medoid.

The passes go through the sectors in batches. Threads share the locations of a batch, so the
locations of a batch are taken in any order. Nothing else writes the index meanwhile.
-/

import OdinVector.Merge.Files

namespace OdinVector

variable {Point Code Distance : Type}

/-! ### The batches -/

/-- `SECTORS_PER_MERGE`. -/
def sectorsPerMerge : Nat := 65536

/-- `SECTORS_PER_POPULATE`. -/
def sectorsPerPopulate : Nat := 128

namespace Geometry

variable (geometry : Geometry)

/-- `n_sectors`. -/
def nSectors (curLoc : Nat) : Nat :=
  (curLoc + geometry.nnodesPerSector - 1) / geometry.nnodesPerSector

/-- The locations `loc_st`, …, `loc_ed - 1` of a batch of `sectors` sectors. -/
def batchLocs (curLoc sectors batch : Nat) : List Nat :=
  let stSector := batch * sectors
  let edSector := min (stSector + sectors) (geometry.nSectors curLoc)
  let locSt := stSector * geometry.nnodesPerSector
  let locEd := min curLoc (edSector * geometry.nnodesPerSector)
  List.range' locSt (locEd - locSt)

/-- How often a loop over the sectors runs that takes `sectors` of them at a time. -/
def nBatches (curLoc sectors : Nat) : Nat := (geometry.nSectors curLoc + sectors - 1) / sectors

variable {geometry}

theorem le_nSectors_mul (curLoc : Nat) :
    curLoc ≤ geometry.nSectors curLoc * geometry.nnodesPerSector := by
  have positive := geometry.nnodesPerSector_pos
  have whole := Nat.div_add_mod (curLoc + geometry.nnodesPerSector - 1) geometry.nnodesPerSector
  have below := Nat.mod_lt (curLoc + geometry.nnodesPerSector - 1) positive
  rw [Nat.mul_comm] at whole
  show curLoc ≤ (curLoc + geometry.nnodesPerSector - 1) / geometry.nnodesPerSector *
    geometry.nnodesPerSector
  omega

/-- A batch has the locations of its sectors. -/
theorem mem_batchLocs {curLoc sectors batch loc : Nat} :
    loc ∈ geometry.batchLocs curLoc sectors batch ↔
      loc < curLoc ∧ batch * (sectors * geometry.nnodesPerSector) ≤ loc ∧
        loc < (batch + 1) * (sectors * geometry.nnodesPerSector) := by
  have bounded := @le_nSectors_mul geometry curLoc
  have first : batch * sectors * geometry.nnodesPerSector =
      batch * (sectors * geometry.nnodesPerSector) := Nat.mul_assoc _ _ _
  have last : (batch * sectors + sectors) * geometry.nnodesPerSector =
      (batch + 1) * (sectors * geometry.nnodesPerSector) := by
    rw [← Nat.succ_mul, Nat.mul_assoc]
  have smaller : min (batch * sectors + sectors) (geometry.nSectors curLoc) *
      geometry.nnodesPerSector = min ((batch + 1) * (sectors * geometry.nnodesPerSector))
        (geometry.nSectors curLoc * geometry.nnodesPerSector) := by
    rw [← Nat.mul_min_mul_right, last]
  unfold batchLocs
  dsimp only
  rw [List.mem_range'_1, smaller, first]
  omega

theorem nodup_batchLocs (curLoc sectors batch : Nat) :
    (geometry.batchLocs curLoc sectors batch).Nodup :=
  List.nodup_range'

theorem length_batchLocs_le (curLoc sectors batch : Nat) :
    (geometry.batchLocs curLoc sectors batch).length ≤ sectors * geometry.nnodesPerSector := by
  have smaller : min (batch * sectors + sectors) (geometry.nSectors curLoc) *
      geometry.nnodesPerSector ≤ (batch * sectors + sectors) * geometry.nnodesPerSector :=
    Nat.mul_le_mul_right _ (min_le_left _ _)
  rw [Nat.add_mul] at smaller
  unfold batchLocs
  dsimp only
  rw [List.length_range']
  omega

/-- The loop over the sectors reaches every location. -/
theorem le_nBatches_mul (curLoc : Nat) {sectors : Nat} (positive : 0 < sectors) :
    curLoc ≤ geometry.nBatches curLoc sectors * (sectors * geometry.nnodesPerSector) := by
  have whole := Nat.div_add_mod (geometry.nSectors curLoc + sectors - 1) sectors
  have below := Nat.mod_lt (geometry.nSectors curLoc + sectors - 1) positive
  rw [Nat.mul_comm] at whole
  have all : geometry.nSectors curLoc ≤ geometry.nBatches curLoc sectors * sectors := by
    show _ ≤ (geometry.nSectors curLoc + sectors - 1) / sectors * sectors
    omega
  rw [← Nat.mul_assoc]
  exact (le_nSectors_mul curLoc).trans (Nat.mul_le_mul_right _ all)

end Geometry

/-! ### What a merge is given -/

/-- An index, what is deleted from it, and the orders that are left open: the elements of an
`unordered_set`, and the locations of a batch. -/
structure MergeInput (Point Code Distance : Type) where
  params : IndexParams Point Code Distance
  index : IndexContents Point Code
  wellFormed : index.WellFormed params.geometry
  /-- `deleted_nodes_set`. -/
  deletedNodesSet : Finset Nat
  nSampledNbrs : Nat
  elements : Finset Nat → List Nat
  mem_elements : ∀ ids id, id ∈ elements ids ↔ id ∈ ids
  populateOrder : Nat → List Nat
  populate_perm : ∀ batch, (populateOrder batch).Perm
    (params.geometry.batchLocs index.layout.curLoc sectorsPerPopulate batch)
  mergeOrder : Nat → List Nat
  merge_perm : ∀ batch, (mergeOrder batch).Perm
    (params.geometry.batchLocs index.layout.curLoc sectorsPerMerge batch)

/-- The tables that the first pass fills. -/
structure Populated where
  newNpoints : Nat
  /-- `id_map`. -/
  idMap : Nat → Option Nat
  /-- `deleted_nhoods`. -/
  deletedNhoods : Nat → Option (List Nat)

/-- `cuckoohash_map::insert`: an entry that is there stays. -/
def insertNew {Value : Type} (table : Nat → Option Value) (key : Nat) (value : Value) :
    Nat → Option Value :=
  if (table key).isSome then table else Function.update table key (some value)

namespace MergeInput

variable [LinearOrder Distance] (input : MergeInput Point Code Distance)

/-- The tag of the id is in `deleted_nodes_set`. -/
def Deleted (id : Nat) : Prop := input.index.id2tag id ∈ input.deletedNodesSet

instance (id : Nat) : Decidable (input.Deleted id) :=
  inferInstanceAs (Decidable (_ ∈ _))

/-- `loc2id`. -/
def loc2id (loc : Nat) : SlotId := input.index.layout.loc2id input.params.geometry loc

/-- The record that a pass reads at a location. -/
def node (loc : Nat) : DiskNode Point := input.index.recordAtLoc input.params.geometry loc

/-- The id at a location, if its point stays. -/
def liveAt (loc : Nat) : Option Nat :=
  match input.loc2id loc with
  | .real id => if input.Deleted id then none else some id
  | .kAllocatedID | .kInvalidID => none

/-! ### The first pass -/

/-- The neighbours of a deleted point that are kept. -/
def sampledNhood (loc : Nat) : List Nat :=
  ((input.node loc).nbrs.filter fun nbr => ¬ input.Deleted nbr).take input.nSampledNbrs

/-- The body of the first loop. -/
def populateLoc (tables : Populated) (loc : Nat) : Populated :=
  match input.loc2id loc with
  | .real id =>
    if input.Deleted id then
      { tables with
        deletedNhoods := insertNew tables.deletedNhoods id (input.sampledNhood loc) }
    else
      { tables with
        newNpoints := tables.newNpoints + 1
        idMap := insertNew tables.idMap id tables.newNpoints }
  | .kAllocatedID | .kInvalidID => tables

/-- The locations in the order in which the first pass takes those of its first `batches`
batches. -/
def populateLocs (batches : Nat) : List Nat := (List.range batches).flatMap input.populateOrder

/-- The first pass. -/
def populate : Populated :=
  (input.populateLocs
    (input.params.geometry.nBatches input.index.layout.curLoc sectorsPerPopulate)).foldl
      input.populateLoc ⟨0, fun _ => none, fun _ => none⟩

/-! ### The second pass -/

/-- `nhood_set`: a deleted neighbour is replaced by its neighbours. `none` is the exception of
`find`. -/
def nhoodSet (tables : Populated) (id : Nat) (nbrs : List Nat) : Option (Finset Nat) :=
  (nbrs.foldlM (fun (nhoodSet : Finset Nat) nbr =>
    if input.Deleted nbr then
      (tables.deletedNhoods nbr).map fun nhoods => nhoodSet ∪ nhoods.toFinset
    else some (insert nbr nhoodSet)) ∅).map fun nhoodSet => nhoodSet.erase id

/-- A list that is longer than `range` is pruned. -/
def prunedNhood (id : Nat) (nhood : List Nat) : List Nat :=
  let pqDistance first second :=
    input.params.codeDistance (input.index.data first) (input.index.data second)
  if input.params.prune.range < nhood.length then
    pruneNeighborsPq input.params.prune pqDistance
      ((sortPool (nhood.map fun nbr => ⟨nbr, pqDistance id nbr⟩)).take input.params.prune.maxc)
  else nhood

/-- The list that is written for a point, in new ids. -/
def newNhood (tables : Populated) (id : Nat) (nbrs : List Nat) : Option (List Nat) := do
  let nhoodSet ← input.nhoodSet tables id nbrs
  (input.prunedNhood id (input.elements nhoodSet)).mapM tables.idMap

/-- The record that is written for the point at a location. -/
def newNode (tables : Populated) (loc id : Nat) : Option (DiskNode Point) :=
  (input.newNhood tables id (input.node loc).nbrs).map fun nbrs => ⟨(input.node loc).coords, nbrs⟩

/-! ### The medoid -/

/-- The loop that looks for a new medoid. `none` is a `find` that fails, a read of an empty
list, or a loop that has not ended after `fuel` rounds. -/
def replaceMedoid (tables : Populated) : Nat → Nat → Option Nat
  | 0, _ => none
  | fuel + 1, medoid =>
    if input.Deleted medoid then do
      let nhoods ← tables.deletedNhoods medoid
      let next ← nhoods.head?
      replaceMedoid tables fuel next
    else some medoid

/-! ### What the first pass leaves -/

omit [LinearOrder Distance] in
/-- An id is at one location. -/
theorem loc_unique {first second id : Nat} (here : input.loc2id first = .real id)
    (there : input.loc2id second = .real id) : first = second := by
  have bijective := input.wellFormed.consistent.bijective
  exact Option.some.inj (((bijective id first).mpr here).symm.trans ((bijective id second).mpr there))

omit [LinearOrder Distance] in
theorem liveAt_eq_some {loc id : Nat} :
    input.liveAt loc = some id ↔ input.loc2id loc = .real id ∧ ¬ input.Deleted id := by
  unfold liveAt
  cases there : input.loc2id loc with
  | real other =>
    dsimp only
    rw [Option.ite_none_left_eq_some, Option.some.injEq, SlotId.real.injEq, and_comm]
    exact and_congr_right fun same => by rw [same]
  | kInvalidID | kAllocatedID =>
    exact iff_of_false (fun equal => by cases equal) fun both => by cases both.1

omit [LinearOrder Distance] in
theorem lt_curLoc_of_real {loc id : Nat} (here : input.loc2id loc = .real id) :
    loc < input.index.layout.curLoc := by
  refine input.wellFormed.consistent.formed.lt_curLoc ?_
  have here : input.index.layout.loc2id input.params.geometry loc = .real id := here
  rw [here]
  exact fun equal => by cases equal

/-- The ids that get a new one, in the order of the new ones. -/
def liveIds (locs : List Nat) : List Nat := locs.filterMap input.liveAt

omit [LinearOrder Distance] in
theorem mem_liveIds {locs : List Nat} {id : Nat} :
    id ∈ input.liveIds locs ↔ ∃ loc ∈ locs, input.loc2id loc = .real id ∧ ¬ input.Deleted id := by
  rw [liveIds, List.mem_filterMap]
  exact exists_congr fun loc => and_congr_right fun _ => input.liveAt_eq_some

omit [LinearOrder Distance] in
theorem nodup_liveIds {locs : List Nat} (nodup : locs.Nodup) : (input.liveIds locs).Nodup := by
  refine nodup.filterMap fun first second id here there => ?_
  exact input.loc_unique (input.liveAt_eq_some.mp here).1 (input.liveAt_eq_some.mp there).1

/-- The tables after the first pass has taken some locations. -/
structure PopulatedBy (locs : List Nat) (tables : Populated) : Prop where
  newNpoints : tables.newNpoints = (input.liveIds locs).length
  idMap : ∀ id new, tables.idMap id = some new ↔ (input.liveIds locs)[new]? = some id
  nhoods : ∀ id nhood, tables.deletedNhoods id = some nhood ↔
    ∃ loc ∈ locs, input.loc2id loc = .real id ∧ input.Deleted id ∧ nhood = input.sampledNhood loc

theorem getElem?_concat_eq_some {Item : Type} {items : List Item} {last item : Item}
    {index : Nat} : (items ++ [last])[index]? = some item ↔
      items[index]? = some item ∨ (index = items.length ∧ last = item) := by
  rcases Nat.lt_trichotomy index items.length with less | same | more
  · rw [List.getElem?_append_left less]
    exact (or_iff_left fun both => absurd both.1 (Nat.ne_of_lt less)).symm
  · rw [same, List.getElem?_concat_length, List.getElem?_eq_none (Nat.le_refl _), Option.some.injEq]
    exact ⟨fun equal => .inr ⟨rfl, equal⟩,
      fun either => either.elim (fun none => absurd none.symm (Option.some_ne_none _)) And.right⟩
  · rw [List.getElem?_eq_none (by rw [List.length_append, List.length_singleton]; omega),
      List.getElem?_eq_none (Nat.le_of_lt more)]
    exact (or_iff_left fun both => absurd both.1 (Nat.ne_of_gt more)).symm

theorem insertNew_of_none {Value : Type} {table : Nat → Option Value} {key : Nat} {value : Value}
    (absent : table key = none) :
    insertNew table key value = Function.update table key (some value) := by
  unfold insertNew
  rw [absent]
  rfl

omit [LinearOrder Distance] in
theorem populatedBy_nil : input.PopulatedBy [] ⟨0, fun _ => none, fun _ => none⟩ where
  newNpoints := rfl
  idMap _ _ := iff_of_false (Option.some_ne_none _).symm (Option.some_ne_none _).symm
  nhoods _ _ := iff_of_false (Option.some_ne_none _).symm
    fun there => there.elim fun _ both => absurd both.1 List.not_mem_nil

omit [LinearOrder Distance] in
/-- One more location. -/
theorem PopulatedBy.snoc {input : MergeInput Point Code Distance} {locs : List Nat}
    {tables : Populated} (populated : input.PopulatedBy locs tables) {loc : Nat}
    (fresh : loc ∉ locs) : input.PopulatedBy (locs ++ [loc]) (input.populateLoc tables loc) := by
  have liveIds : input.liveIds (locs ++ [loc]) =
      input.liveIds locs ++ (input.liveAt loc).toList := by
    rw [MergeInput.liveIds, List.filterMap_append]
    cases there : input.liveAt loc with
    | none => rw [List.filterMap_cons_none there]; rfl
    | some id => rw [List.filterMap_cons_some there]; rfl
  have others : ∀ {id nhood}, (∃ other ∈ locs ++ [loc], input.loc2id other = .real id ∧
      input.Deleted id ∧ nhood = input.sampledNhood other) ↔
        (tables.deletedNhoods id = some nhood ∨ (input.loc2id loc = .real id ∧
          input.Deleted id ∧ nhood = input.sampledNhood loc)) := by
    intro id nhood
    rw [populated.nhoods]
    simp only [List.mem_append, List.mem_singleton, or_and_right, exists_or, exists_eq_left]
  unfold populateLoc
  cases here : input.loc2id loc with
  | real id =>
    have elsewhere : ∀ other ∈ locs, input.loc2id other ≠ .real id :=
      fun other inside there => fresh (input.loc_unique there here ▸ inside)
    dsimp only
    split
    · rename_i deleted
      have notLive : input.liveAt loc = none := by
        unfold liveAt
        rw [here]
        exact if_pos deleted
      have absent : tables.deletedNhoods id = none := by
        refine Option.eq_none_iff_forall_ne_some.mpr fun nhood there => ?_
        obtain ⟨other, inside, isThere, _⟩ := (populated.nhoods id nhood).mp there
        exact elsewhere other inside isThere
      rw [notLive, Option.toList_none, List.append_nil] at liveIds
      refine ⟨liveIds ▸ populated.newNpoints, liveIds ▸ populated.idMap, fun other nhood => ?_⟩
      rw [others, here, SlotId.real.injEq]
      dsimp only
      rw [insertNew_of_none absent]
      by_cases same : other = id
      · rw [same, Function.update_self, absent, Option.some.injEq]
        exact ⟨fun equal => .inr ⟨rfl, deleted, equal.symm⟩, fun either =>
          either.elim (fun none => absurd none.symm (Option.some_ne_none _))
            fun all => all.2.2.symm⟩
      · rw [Function.update_of_ne same]
        exact (or_iff_left fun all => same all.1.symm).symm
    · rename_i stays
      have live : input.liveAt loc = some id := input.liveAt_eq_some.mpr ⟨here, stays⟩
      have notThere : id ∉ input.liveIds locs := fun there => by
        obtain ⟨other, inside, isThere, _⟩ := input.mem_liveIds.mp there
        exact elsewhere other inside isThere
      have absent : tables.idMap id = none := by
        refine Option.eq_none_iff_forall_ne_some.mpr fun new there => ?_
        exact notThere (List.mem_of_getElem? ((populated.idMap id new).mp there))
      rw [live, Option.toList_some] at liveIds
      refine ⟨?_, fun other new => ?_, fun other nhood => ?_⟩
      · rw [liveIds, List.length_append, List.length_singleton, populated.newNpoints]
      · dsimp only
        rw [liveIds, getElem?_concat_eq_some, insertNew_of_none absent, populated.newNpoints]
        by_cases same : other = id
        · subst same
          rw [Function.update_self, Option.some.injEq]
          exact ⟨fun equal => .inr ⟨equal.symm, rfl⟩, fun either =>
            either.elim (fun there => absurd (List.mem_of_getElem? there) notThere)
              fun both => both.1.symm⟩
        · rw [Function.update_of_ne same, populated.idMap]
          exact (or_iff_left fun both => same both.2.symm).symm
      · rw [others, here, SlotId.real.injEq]
        exact (or_iff_left fun all => absurd (all.1 ▸ all.2.1) stays).symm
  | kAllocatedID | kInvalidID =>
    have notLive : input.liveAt loc = none := by
      unfold liveAt
      rw [here]
    rw [notLive, Option.toList_none, List.append_nil] at liveIds
    refine ⟨liveIds ▸ populated.newNpoints, liveIds ▸ populated.idMap, fun other nhood => ?_⟩
    rw [others, here]
    exact (or_iff_left fun all => by cases all.1).symm

/-! ### The whole first pass -/

omit [LinearOrder Distance] in
theorem mem_populateLocs {batches loc : Nat} : loc ∈ input.populateLocs batches ↔
    loc < input.index.layout.curLoc ∧
      loc < batches * (sectorsPerPopulate * input.params.geometry.nnodesPerSector) := by
  have positive : 0 < sectorsPerPopulate * input.params.geometry.nnodesPerSector :=
    Nat.mul_pos (by decide) input.params.geometry.nnodesPerSector_pos
  unfold populateLocs
  rw [List.mem_flatMap]
  refine ⟨fun ⟨batch, inRange, inside⟩ => ?_, fun ⟨inside, below⟩ => ?_⟩
  · obtain ⟨low, _, high⟩ := Geometry.mem_batchLocs.mp ((input.populate_perm batch).mem_iff.mp inside)
    exact ⟨low, high.trans_le (Nat.mul_le_mul_right _ (List.mem_range.mp inRange))⟩
  · refine ⟨loc / (sectorsPerPopulate * input.params.geometry.nnodesPerSector),
      List.mem_range.mpr ((Nat.div_lt_iff_lt_mul positive).mpr below), ?_⟩
    refine (input.populate_perm _).mem_iff.mpr (Geometry.mem_batchLocs.mpr ⟨inside, ?_, ?_⟩)
    · exact Nat.div_mul_le_self _ _
    · rw [Nat.mul_comm]
      exact Nat.lt_mul_div_succ loc positive

omit [LinearOrder Distance] in
theorem nodup_populateLocs (batches : Nat) : (input.populateLocs batches).Nodup := by
  unfold populateLocs
  refine List.nodup_flatMap.mpr ⟨fun batch _ => (input.populate_perm batch).nodup_iff.mpr
    (Geometry.nodup_batchLocs _ _ _), ?_⟩
  refine List.nodup_range.imp fun {first second} different loc inFirst inSecond => different ?_
  obtain ⟨_, low, high⟩ := Geometry.mem_batchLocs.mp ((input.populate_perm first).mem_iff.mp inFirst)
  obtain ⟨_, lowSecond, highSecond⟩ :=
    Geometry.mem_batchLocs.mp ((input.populate_perm second).mem_iff.mp inSecond)
  exact Nat.le_antisymm (Nat.lt_succ_iff.mp (lt_of_mul_lt_mul_right' (low.trans_lt highSecond)))
    (Nat.lt_succ_iff.mp (lt_of_mul_lt_mul_right' (lowSecond.trans_lt high)))

omit [LinearOrder Distance] in
theorem populatedBy_foldl {locs : List Nat} : ∀ (before : List Nat) {tables : Populated},
    (before ++ locs).Nodup → input.PopulatedBy before tables →
      input.PopulatedBy (before ++ locs) (locs.foldl input.populateLoc tables) := by
  induction locs with
  | nil => exact fun _ _ _ populated => (List.append_nil _).symm ▸ populated
  | cons loc rest inductionHypothesis =>
    intro before tables nodup populated
    have fresh : loc ∉ before := fun there =>
      (List.disjoint_of_nodup_append nodup) there List.mem_cons_self
    rw [List.append_cons] at nodup ⊢
    exact inductionHypothesis _ nodup (populated.snoc fresh)

/-- How many batches the first pass has. -/
def populateBatches : Nat :=
  input.params.geometry.nBatches input.index.layout.curLoc sectorsPerPopulate

omit [LinearOrder Distance] in
/-- The tables after the first pass. -/
theorem populate_populatedBy :
    input.PopulatedBy (input.populateLocs input.populateBatches) input.populate :=
  input.populatedBy_foldl [] (input.nodup_populateLocs _) input.populatedBy_nil

omit [LinearOrder Distance] in
theorem mem_allLocs {loc id : Nat} (here : input.loc2id loc = .real id) :
    loc ∈ input.populateLocs input.populateBatches := by
  have below := input.lt_curLoc_of_real here
  refine input.mem_populateLocs.mpr ⟨below, below.trans_le ?_⟩
  exact Geometry.le_nBatches_mul _ (by decide)

omit [LinearOrder Distance] in
/-- A point that stays has a new id. -/
theorem exists_newId {loc id : Nat} (here : input.loc2id loc = .real id)
    (stays : ¬ input.Deleted id) : ∃ new, input.populate.idMap id = some new := by
  have member := input.mem_liveIds.mpr ⟨loc, input.mem_allLocs here, here, stays⟩
  obtain ⟨new, inside⟩ := List.getElem?_of_mem member
  exact ⟨new, (input.populate_populatedBy.idMap id new).mpr inside⟩

omit [LinearOrder Distance] in
/-- The neighbours of a deleted point are in the table. -/
theorem nhood_of_deleted {loc id : Nat} (here : input.loc2id loc = .real id)
    (deleted : input.Deleted id) :
    input.populate.deletedNhoods id = some (input.sampledNhood loc) :=
  (input.populate_populatedBy.nhoods id _).mpr ⟨loc, input.mem_allLocs here, here, deleted, rfl⟩

/-! ### The second pass finds what it looks for -/

omit [LinearOrder Distance] in
/-- A neighbour in the list of a record has a location. -/
theorem exists_loc_of_nbr {loc id nbr : Nat} (here : input.loc2id loc = .real id)
    (listed : nbr ∈ (input.node loc).nbrs) : ∃ there, input.loc2id there = .real nbr := by
  have bijective := input.wellFormed.consistent.bijective
  have known := input.wellFormed.linked id loc ((bijective id loc).mpr here) nbr listed
  obtain ⟨there, mapped⟩ := Option.ne_none_iff_exists'.mp known
  exact ⟨there, (bijective nbr there).mp mapped⟩

omit [LinearOrder Distance] in
/-- Sampled neighbours are points that stay. -/
theorem live_of_sampled {loc id nbr : Nat} (here : input.loc2id loc = .real id)
    (sampled : nbr ∈ input.sampledNhood loc) :
    (∃ there, input.loc2id there = .real nbr) ∧ ¬ input.Deleted nbr := by
  obtain ⟨listed, stays⟩ := List.mem_filter.mp (List.mem_of_mem_take sampled)
  exact ⟨input.exists_loc_of_nbr here listed, of_decide_eq_true stays⟩

/-- The points that stay. -/
def Stays (id : Nat) : Prop := (∃ loc, input.loc2id loc = .real id) ∧ ¬ input.Deleted id

omit [LinearOrder Distance] in
theorem exists_nhoodSet {loc id : Nat} (here : input.loc2id loc = .real id) :
    ∃ nhoodSet, input.nhoodSet input.populate id (input.node loc).nbrs = some nhoodSet ∧
      ∀ nbr ∈ nhoodSet, input.Stays nbr := by
  have gathered : ∀ nbrs : List Nat, (∀ nbr ∈ nbrs, nbr ∈ (input.node loc).nbrs) →
      ∀ before : Finset Nat, (∀ nbr ∈ before, input.Stays nbr) →
        ∃ after, nbrs.foldlM (fun (nhoodSet : Finset Nat) nbr =>
          if input.Deleted nbr then
            (input.populate.deletedNhoods nbr).map fun nhoods => nhoodSet ∪ nhoods.toFinset
          else some (insert nbr nhoodSet)) before = some after ∧
            ∀ nbr ∈ after, input.Stays nbr := by
    intro nbrs
    induction nbrs with
    | nil => exact fun _ before stay => ⟨before, rfl, stay⟩
    | cons nbr rest inductionHypothesis =>
      intro listed before stay
      obtain ⟨there, isThere⟩ := input.exists_loc_of_nbr here (listed nbr List.mem_cons_self)
      have listedRest : ∀ other ∈ rest, other ∈ (input.node loc).nbrs :=
        fun other member => listed other (List.mem_cons_of_mem _ member)
      rw [List.foldlM_cons]
      by_cases deleted : input.Deleted nbr
      · rw [if_pos deleted, input.nhood_of_deleted isThere deleted]
        refine inductionHypothesis listedRest _ fun other member => ?_
        rcases Finset.mem_union.mp member with old | sampled
        · exact stay other old
        · exact input.live_of_sampled isThere (List.mem_toFinset.mp sampled)
      · rw [if_neg deleted]
        refine inductionHypothesis listedRest _ fun other member => ?_
        rcases Finset.mem_insert.mp member with rfl | old
        · exact ⟨⟨there, isThere⟩, deleted⟩
        · exact stay other old
  obtain ⟨after, found, stay⟩ := gathered _ (fun _ member => member) ∅
    fun nbr member => absurd member (Finset.notMem_empty nbr)
  unfold nhoodSet
  rw [found]
  exact ⟨after.erase id, rfl, fun nbr member => stay nbr (Finset.mem_of_mem_erase member)⟩

theorem mem_of_mem_prunedNhood {id : Nat} {nhood : List Nat} :
    ∀ nbr ∈ input.prunedNhood id nhood, nbr ∈ nhood := by
  intro nbr member
  unfold prunedNhood at member
  dsimp only at member
  split at member
  · have pool := (pruned_pruneNeighborsPq _).subset nbr member
    obtain ⟨neighbor, taken, rfl⟩ := List.mem_map.mp pool
    have sorted := (perm_sortPool _).mem_iff.mp (List.mem_of_mem_take taken)
    obtain ⟨listed, inside, rfl⟩ := List.mem_map.mp sorted
    exact inside
  · exact member

/-- No lookup of the second pass fails. -/
theorem exists_newNode {loc id : Nat} (here : input.loc2id loc = .real id) :
    ∃ nbrs, input.newNode input.populate loc id = some ⟨(input.node loc).coords, nbrs⟩ := by
  obtain ⟨nhoodSet, found, stay⟩ := input.exists_nhoodSet here
  have mapped : ∀ nbrs : List Nat, (∀ nbr ∈ nbrs, input.Stays nbr) →
      ∃ news, nbrs.mapM input.populate.idMap = some news := by
    intro nbrs
    induction nbrs with
    | nil => exact fun _ => ⟨[], List.mapM_nil⟩
    | cons nbr rest inductionHypothesis =>
      intro all
      obtain ⟨⟨there, isThere⟩, stays⟩ := all nbr List.mem_cons_self
      obtain ⟨new, isNew⟩ := input.exists_newId isThere stays
      obtain ⟨news, areNew⟩ :=
        inductionHypothesis fun other member => all other (List.mem_cons_of_mem _ member)
      refine ⟨new :: news, ?_⟩
      rw [List.mapM_cons, isNew, areNew]
      rfl
  obtain ⟨news, areNew⟩ := mapped (input.prunedNhood id (input.elements nhoodSet))
    fun nbr member => stay nbr ((input.mem_elements nhoodSet nbr).mp
      (input.mem_of_mem_prunedNhood nbr member))
  refine ⟨news, ?_⟩
  unfold newNode newNhood
  rw [found]
  show Option.map _ (List.mapM _ _) = _
  rw [areNew]
  rfl

end MergeInput

end OdinVector
