/-
This file models how the second pass of `merge_deletes` writes the new graph. Records go into
a buffer of two halves at their new id modulo its size. After a batch of sectors the older
half is written to the file if it is full, and what is left is written at the end.

New ids were given in batches of the first pass, whose size divides that of the second one.
So a batch of the second pass has the new ids between two counts, and they fit in the half
that is being filled and the one after it.
-/

import OdinVector.Merge.Deletes
import OdinVector.SlotRing

namespace OdinVector

variable {Point Code Distance : Type} [LinearOrder Distance]

/-! ### The buffer -/

/-- A write of `write_back`: which half, the first id in it, and where it goes. -/
structure HalfWrite where
  bufId : Nat
  firstId : Nat
  sector : Nat
  sectors : Nat
  deriving DecidableEq

/-- What happens to the buffer. -/
inductive WindowEvent
  | put (newId : Nat)
  | writeBack (write : HalfWrite)
  deriving DecidableEq

/-- The variables of the second pass. A record is addressed by a sector and a place in it. -/
structure WriteState (Point Code : Type) where
  /-- `wbuf`, which is not initialised. -/
  wbuf : Nat × Nat → Option (DiskNode Point)
  wbId : Nat
  nUsedId : Nat
  /-- The sectors of the new graph file. -/
  file : Nat × Nat → Option (DiskNode Point)
  pqCoords : Nat → Option Code
  newTags : Nat → Option Nat
  /-- What has happened so far. -/
  events : List WindowEvent

namespace MergeInput

variable (input : MergeInput Point Code Distance)

/-- `SECTORS_PER_MERGE * nnodes_per_sector`. -/
def halfLength : Nat := sectorsPerMerge * input.params.geometry.nnodesPerSector

/-- `kVecInWBuf`. -/
def kVecInWBuf : Nat := 2 * sectorsPerMerge * input.params.geometry.nnodesPerSector

/-- Where a new id is in `wbuf`. -/
def wbufAddress (newId : Nat) : Nat × Nat :=
  let off := newId % input.kVecInWBuf
  (off / input.params.geometry.nnodesPerSector, input.params.geometry.slotOf off)

/-- Where a new id is in the file. -/
def fileAddress (newId : Nat) : Nat × Nat :=
  (input.params.geometry.locSectorNo newId, input.params.geometry.slotOf newId)

/-- The body of the second loop. `none` is an exception. -/
def writeNode (state : WriteState Point Code) (loc : Nat) : Option (WriteState Point Code) :=
  match input.liveAt loc with
  | none => some state
  | some id => do
    let node ← input.newNode input.populate loc id
    let newId ← input.populate.idMap id
    some
      { state with
        wbuf := Function.update state.wbuf (input.wbufAddress newId) (some node)
        nUsedId := state.nUsedId + 1
        pqCoords := Function.update state.pqCoords newId (some (input.index.data id))
        newTags := Function.update state.newTags newId (some (input.index.id2tag id))
        events := state.events ++ [.put newId] }

/-- `write_back`. -/
def writeBack (state : WriteState Point Code) : WriteState Point Code :=
  let geometry := input.params.geometry
  let bufId := state.wbId % input.kVecInWBuf / input.halfLength
  let idDelta := min input.halfLength (state.nUsedId - state.wbId)
  let sector := geometry.locSectorNo state.wbId
  let sectors := roundUp idDelta geometry.nnodesPerSector / geometry.nnodesPerSector
  { state with
    file := fun address =>
      if sector ≤ address.1 ∧ address.1 < sector + sectors then
        state.wbuf (bufId * sectorsPerMerge + (address.1 - sector), address.2)
      else state.file address
    wbId := state.wbId + idDelta
    events := state.events ++ [.writeBack ⟨bufId, state.wbId, sector, sectors⟩] }

/-- A batch of the second pass. -/
def mergeBatch (state : WriteState Point Code) (batch : Nat) : Option (WriteState Point Code) :=
  ((input.mergeOrder batch).foldlM input.writeNode state).map fun state =>
    if input.halfLength ≤ state.nUsedId - state.wbId then input.writeBack state else state

/-- The loop that writes what is left, for at most `fuel` rounds. -/
def writeRest : Nat → WriteState Point Code → WriteState Point Code
  | 0, state => state
  | fuel + 1, state =>
    if state.wbId < state.nUsedId then writeRest fuel (input.writeBack state) else state

/-- The second pass. -/
def secondPass (file : Nat × Nat → Option (DiskNode Point)) : Option (WriteState Point Code) :=
  ((List.range (input.params.geometry.nBatches input.index.layout.curLoc
      sectorsPerMerge)).foldlM input.mergeBatch
    { wbuf := fun _ => none
      wbId := 0
      nUsedId := 0
      file := file
      pqCoords := fun _ => none
      newTags := fun _ => none
      events := [] }).map fun state => input.writeRest state.nUsedId state

end MergeInput

/-! ### The counts between the batches -/

/-- How many batches of the first pass a batch of the second one is. -/
def populatesPerMerge : Nat := 512

theorem populatesPerMerge_mul : populatesPerMerge * sectorsPerPopulate = sectorsPerMerge := rfl

theorem index_lt_of_mem_left {Item : Type} {front back : List Item} {item : Item} {index : Nat}
    (nodup : (front ++ back).Nodup) (member : item ∈ front)
    (found : (front ++ back)[index]? = some item) : index < front.length := by
  by_contra above
  rw [List.getElem?_append_right (Nat.not_lt.mp above)] at found
  exact List.disjoint_of_nodup_append nodup member (List.mem_of_getElem? found)

theorem mem_left_of_index_lt {Item : Type} {front back : List Item} {item : Item} {index : Nat}
    (inside : index < front.length) (found : (front ++ back)[index]? = some item) :
    item ∈ front := by
  rw [List.getElem?_append_left inside] at found
  exact List.mem_of_getElem? found

namespace MergeInput

variable {input : MergeInput Point Code Distance}

omit [LinearOrder Distance] in
/-- More batches take more locations, after those of the batches before. -/
theorem populateLocs_append {fewer more : Nat} (le : fewer ≤ more) :
    ∃ rest, input.populateLocs more = input.populateLocs fewer ++ rest := by
  obtain ⟨extra, rfl⟩ := Nat.exists_eq_add_of_le le
  refine ⟨((List.range extra).map (fewer + ·)).flatMap input.populateOrder, ?_⟩
  unfold populateLocs
  rw [List.range_add, List.flatMap_append]

omit [LinearOrder Distance] in
/-- There are no locations behind the last batch. -/
theorem populateLocs_of_le {batches : Nat} (all : input.populateBatches ≤ batches) :
    input.populateLocs batches = input.populateLocs input.populateBatches := by
  obtain ⟨rest, split⟩ := input.populateLocs_append all
  have nodup := input.nodup_populateLocs batches
  rw [split] at nodup ⊢
  cases rest with
  | nil => exact List.append_nil _
  | cons loc others =>
    have inside : loc ∈ input.populateLocs batches := by
      rw [split]
      exact List.mem_append_right _ List.mem_cons_self
    have below := (input.mem_populateLocs.mp inside).1
    have there : loc ∈ input.populateLocs input.populateBatches :=
      input.mem_populateLocs.mpr ⟨below, below.trans_le (Geometry.le_nBatches_mul _ (by decide))⟩
    exact absurd List.mem_cons_self (List.disjoint_of_nodup_append nodup there)

/-- How many new ids there are before a batch of the second pass. -/
def idsBefore (input : MergeInput Point Code Distance) (batch : Nat) : Nat :=
  (input.liveIds (input.populateLocs (batch * populatesPerMerge))).length

omit [LinearOrder Distance] in
/-- The first pass takes the locations of a batch of the second pass in 512 of its own. -/
theorem mem_populateLocs_mul {batch loc : Nat} :
    loc ∈ input.populateLocs (batch * populatesPerMerge) ↔
      loc < input.index.layout.curLoc ∧ loc < batch * input.halfLength := by
  rw [input.mem_populateLocs, Nat.mul_assoc, ← Nat.mul_assoc populatesPerMerge,
    populatesPerMerge_mul]
  rfl

omit [LinearOrder Distance] in
/-- The ids in front of a batch, those of the batch, and those behind. -/
theorem liveIds_split (batch : Nat) : ∃ middle back,
    input.liveIds (input.populateLocs ((batch + 1) * populatesPerMerge)) =
        input.liveIds (input.populateLocs (batch * populatesPerMerge)) ++ input.liveIds middle ∧
      input.liveIds (input.populateLocs input.populateBatches) =
        input.liveIds (input.populateLocs ((batch + 1) * populatesPerMerge)) ++ back ∧
      middle.Nodup ∧ ∀ loc, loc ∈ middle ↔ loc ∈ input.mergeOrder batch := by
  obtain ⟨middle, split⟩ := input.populateLocs_append
    (Nat.mul_le_mul_right populatesPerMerge (Nat.le_succ batch))
  obtain ⟨rest, whole⟩ := input.populateLocs_append
    (le_max_left ((batch + 1) * populatesPerMerge) input.populateBatches)
  rw [populateLocs_of_le (le_max_right _ _)] at whole
  have nodup := input.nodup_populateLocs ((batch + 1) * populatesPerMerge)
  rw [split] at nodup
  refine ⟨middle, input.liveIds rest, ?_, ?_, (List.nodup_append.mp nodup).2.1, fun loc => ?_⟩
  · rw [split]
    exact List.filterMap_append
  · rw [whole]
    exact List.filterMap_append
  · have inBoth : loc ∈ input.populateLocs ((batch + 1) * populatesPerMerge) ↔
        loc ∈ input.populateLocs (batch * populatesPerMerge) ∨ loc ∈ middle := by
      rw [split]
      exact List.mem_append
    rw [(input.merge_perm batch).mem_iff, Geometry.mem_batchLocs]
    rw [mem_populateLocs_mul, mem_populateLocs_mul] at inBoth
    constructor
    · intro inside
      have upper := inBoth.mpr (.inr inside)
      refine ⟨upper.1, Nat.not_lt.mp fun below => ?_, upper.2⟩
      exact List.disjoint_of_nodup_append nodup (mem_populateLocs_mul.mpr ⟨upper.1, below⟩) inside
    · intro both
      exact (inBoth.mp ⟨both.1, both.2.2⟩).resolve_left fun early =>
        absurd early.2 (Nat.not_lt.mpr both.2.1)

omit [LinearOrder Distance] in
/-- A batch has at most as many new ids as a half of the buffer has places. -/
theorem idsBefore_succ (batch : Nat) : input.idsBefore batch ≤ input.idsBefore (batch + 1) ∧
    input.idsBefore (batch + 1) ≤ input.idsBefore batch + input.halfLength := by
  obtain ⟨middle, back, split, _, nodup, members⟩ := input.liveIds_split batch
  have counted : input.idsBefore (batch + 1) =
      input.idsBefore batch + (input.liveIds middle).length := by
    unfold idsBefore
    rw [split, List.length_append]
  have fewer : (input.liveIds middle).length ≤ middle.length := List.length_filterMap_le _ _
  have inBatch : middle.length ≤ (input.mergeOrder batch).length :=
    (List.subperm_of_subset nodup fun loc => (members loc).mp).length_le
  have short : (input.mergeOrder batch).length ≤ input.halfLength :=
    (input.merge_perm batch).length_eq.trans_le (Geometry.length_batchLocs_le _ _ _)
  omega

omit [LinearOrder Distance] in
theorem idsBefore_zero : input.idsBefore 0 = 0 := by
  unfold idsBefore
  rw [Nat.zero_mul]
  rfl

omit [LinearOrder Distance] in
/-- After the last batch there are all of them. -/
theorem idsBefore_last :
    input.idsBefore (input.params.geometry.nBatches input.index.layout.curLoc sectorsPerMerge) =
      input.populate.newNpoints := by
  have all : input.index.layout.curLoc ≤
      input.params.geometry.nBatches input.index.layout.curLoc sectorsPerMerge *
        input.halfLength := Geometry.le_nBatches_mul _ (by decide)
  rw [input.populate_populatedBy.newNpoints, idsBefore]
  refine List.Perm.length_eq (List.Perm.filterMap _ ?_)
  refine (List.perm_ext_iff_of_nodup (input.nodup_populateLocs _)
    (input.nodup_populateLocs _)).mpr fun loc => ?_
  rw [mem_populateLocs_mul, input.mem_populateLocs]
  refine and_congr_right fun below => iff_of_true (below.trans_le all) (below.trans_le ?_)
  exact Geometry.le_nBatches_mul _ (by decide)

/-- The new id of the point at a location. -/
def newIdAt (input : MergeInput Point Code Distance) (loc : Nat) : Option Nat :=
  (input.liveAt loc).bind input.populate.idMap

omit [LinearOrder Distance] in
theorem newIdAt_eq_some {loc new : Nat} : input.newIdAt loc = some new ↔
    ∃ id, (input.loc2id loc = .real id ∧ ¬ input.Deleted id) ∧
      (input.liveIds (input.populateLocs input.populateBatches))[new]? = some id := by
  unfold newIdAt
  rw [Option.bind_eq_some_iff]
  exact exists_congr fun id => and_congr input.liveAt_eq_some
    (input.populate_populatedBy.idMap id new)

omit [LinearOrder Distance] in
/-- A location is determined by the new id of its point. -/
theorem newIdAt_unique {first second new : Nat} (here : input.newIdAt first = some new)
    (there : input.newIdAt second = some new) : first = second := by
  obtain ⟨id, ⟨isFirst, _⟩, found⟩ := newIdAt_eq_some.mp here
  obtain ⟨other, ⟨isSecond, _⟩, alsoFound⟩ := newIdAt_eq_some.mp there
  obtain rfl := Option.some.inj (found.symm.trans alsoFound)
  exact input.loc_unique isFirst isSecond

omit [LinearOrder Distance] in
/-- The new ids of a batch are those between its two counts. -/
theorem newIdAt_mem_batch {batch loc new : Nat} (inside : loc ∈ input.mergeOrder batch)
    (here : input.newIdAt loc = some new) :
    input.idsBefore batch ≤ new ∧ new < input.idsBefore (batch + 1) := by
  obtain ⟨id, live, found⟩ := newIdAt_eq_some.mp here
  obtain ⟨middle, back, split, whole, _, members⟩ := input.liveIds_split batch
  have nodup := input.nodup_liveIds (input.nodup_populateLocs input.populateBatches)
  have inMiddle : id ∈ input.liveIds middle :=
    input.mem_liveIds.mpr ⟨loc, (members loc).mpr inside, live⟩
  rw [whole] at found nodup
  constructor
  · refine Nat.not_lt.mp fun early => ?_
    rw [split, List.append_assoc] at found nodup
    have inFront : id ∈ input.liveIds (input.populateLocs (batch * populatesPerMerge)) :=
      mem_left_of_index_lt early found
    exact List.disjoint_of_nodup_append nodup inFront (List.mem_append_left _ inMiddle)
  · refine index_lt_of_mem_left nodup ?_ found
    rw [split]
    exact List.mem_append_right _ inMiddle

omit [LinearOrder Distance] in
theorem exists_newIdAt {batch new : Nat} (low : input.idsBefore batch ≤ new)
    (high : new < input.idsBefore (batch + 1)) :
    ∃ loc ∈ input.mergeOrder batch, input.newIdAt loc = some new := by
  obtain ⟨middle, back, split, whole, _, members⟩ := input.liveIds_split batch
  obtain ⟨id, found⟩ : ∃ id,
      (input.liveIds (input.populateLocs ((batch + 1) * populatesPerMerge)))[new]? = some id :=
    ⟨_, List.getElem?_eq_getElem high⟩
  have isNew : (input.liveIds (input.populateLocs input.populateBatches))[new]? = some id := by
    rw [whole, List.getElem?_append_left high]
    exact found
  rw [split, List.getElem?_append_right low] at found
  obtain ⟨loc, inMiddle, live⟩ := input.mem_liveIds.mp (List.mem_of_getElem? found)
  exact ⟨loc, (members loc).mp inMiddle, newIdAt_eq_some.mpr ⟨id, live, isNew⟩⟩

/-! ### Addresses -/

omit [LinearOrder Distance] in
theorem kVecInWBuf_eq : input.kVecInWBuf = 2 * input.halfLength := Nat.mul_assoc _ _ _

omit [LinearOrder Distance] in
theorem halfLength_pos : 0 < input.halfLength :=
  Nat.mul_pos (by decide) input.params.geometry.nnodesPerSector_pos

omit [LinearOrder Distance] in
/-- Ids of two halves that follow each other have places of their own. -/
theorem wbufAddress_injOn {start first second : Nat} (lowFirst : start ≤ first)
    (highFirst : first < start + 2 * input.halfLength) (lowSecond : start ≤ second)
    (highSecond : second < start + 2 * input.halfLength)
    (same : input.wbufAddress first = input.wbufAddress second) : first = second := by
  have sector := congrArg Prod.fst same
  have slot := congrArg Prod.snd same
  have offs : first % input.kVecInWBuf = second % input.kVecInWBuf := by
    rw [← Nat.div_add_mod (first % input.kVecInWBuf) input.params.geometry.nnodesPerSector,
      ← Nat.div_add_mod (second % input.kVecInWBuf) input.params.geometry.nnodesPerSector]
    exact congrArg₂ (fun x y => input.params.geometry.nnodesPerSector * x + y) sector slot
  rw [kVecInWBuf_eq] at offs
  exact SlotRing.mod_injOn (Nat.le_refl _) ⟨lowFirst, highFirst⟩ ⟨lowSecond, highSecond⟩ offs

omit [LinearOrder Distance] in
/-- The sector of the buffer that `write_back` takes for an id is the one that holds it. -/
theorem wbufAddress_eq {writes newId : Nat} (low : writes * input.halfLength ≤ newId)
    (high : newId < writes * input.halfLength + input.halfLength) :
    input.wbufAddress newId =
      (writes * input.halfLength % input.kVecInWBuf / input.halfLength * sectorsPerMerge +
        (input.params.geometry.locSectorNo newId -
          input.params.geometry.locSectorNo (writes * input.halfLength)),
        input.params.geometry.slotOf newId) := by
  have positive := input.params.geometry.nnodesPerSector_pos
  have half := @halfLength_pos _ _ _ input
  obtain ⟨place, rfl⟩ := Nat.exists_eq_add_of_le low
  have inHalf : place < input.halfLength := Nat.lt_of_add_lt_add_left high
  have parity : writes * input.halfLength % input.kVecInWBuf = writes % 2 * input.halfLength := by
    rw [kVecInWBuf_eq, Nat.mul_mod_mul_right]
  have small : writes % 2 * input.halfLength + place < 2 * input.halfLength := by
    have bit : writes % 2 < 2 := Nat.mod_lt _ (by decide)
    calc writes % 2 * input.halfLength + place
        < writes % 2 * input.halfLength + input.halfLength := Nat.add_lt_add_left inHalf _
      _ = (writes % 2 + 1) * input.halfLength := (Nat.succ_mul _ _).symm
      _ ≤ 2 * input.halfLength := Nat.mul_le_mul_right _ bit
  have off : (writes * input.halfLength + place) % input.kVecInWBuf =
      writes % 2 * input.halfLength + place := by
    rw [Nat.add_mod, parity, kVecInWBuf_eq, Nat.mod_eq_of_lt (a := place) (by omega),
      Nat.mod_eq_of_lt small]
  have whole : ∀ count place, (count * input.halfLength + place) /
      input.params.geometry.nnodesPerSector =
        count * sectorsPerMerge + place / input.params.geometry.nnodesPerSector := by
    intro count place
    rw [halfLength, ← Nat.mul_assoc, Nat.mul_comm _ input.params.geometry.nnodesPerSector,
      Nat.mul_add_div positive]
  have slots : ∀ count place, (count * input.halfLength + place) %
      input.params.geometry.nnodesPerSector = place % input.params.geometry.nnodesPerSector := by
    intro count place
    rw [halfLength, ← Nat.mul_assoc, Nat.mul_comm _ input.params.geometry.nnodesPerSector,
      Nat.mul_add_mod]
  have start := whole writes 0
  rw [Nat.add_zero, Nat.zero_div, Nat.add_zero] at start
  refine Prod.ext ?_ ?_
  · show (writes * input.halfLength + place) % input.kVecInWBuf / _ = _
    rw [off, whole, parity, Nat.mul_div_cancel _ half]
    show _ = _ + (1 + (writes * input.halfLength + place) / _ - (1 + writes * input.halfLength / _))
    rw [whole, start, Nat.add_sub_add_left, Nat.add_sub_cancel_left]
  · show (writes * input.halfLength + place) % input.kVecInWBuf % _ =
      (writes * input.halfLength + place) % _
    rw [off, slots, slots]

/-! ### The window -/

/-- The ids that were put into the buffer, in order. -/
def puts (events : List WindowEvent) : List Nat :=
  events.filterMap fun event => match event with
    | .put newId => some newId
    | .writeBack _ => none

/-- The writes to the file, in order. -/
def writes (events : List WindowEvent) : List HalfWrite :=
  events.filterMap fun event => match event with
    | .put _ => none
    | .writeBack write => some write

/-- The write of a half, when there are `count` ids in the end. -/
def halfWrite (input : MergeInput Point Code Distance) (count number : Nat) : HalfWrite where
  bufId := number % 2
  firstId := number * input.halfLength
  sector := input.params.geometry.locSectorNo (number * input.halfLength)
  sectors := divRoundUp (min input.halfLength (count - number * input.halfLength))
    input.params.geometry.nnodesPerSector

/-- A half of an id is not written before the id is there, and what was in it before is. -/
def PutsInWindow (input : MergeInput Point Code Distance) (events : List WindowEvent) : Prop :=
  ∀ before after newId, events = before ++ .put newId :: after →
    (writes before).length * input.halfLength ≤ newId ∧
      newId < (writes before).length * input.halfLength + 2 * input.halfLength

/-- The record that the second pass makes for a new id. -/
def IsNewNode (input : MergeInput Point Code Distance) (newId : Nat) (node : DiskNode Point) :
    Prop :=
  ∃ loc id, input.loc2id loc = .real id ∧ ¬ input.Deleted id ∧
    input.populate.idMap id = some newId ∧ input.newNode input.populate loc id = some node

/-- The buffer and the file while halves are written when they are full. -/
structure Windowed (input : MergeInput Point Code Distance) (state : WriteState Point Code) :
    Prop where
  used : state.nUsedId = (puts state.events).length
  aligned : state.wbId = (writes state.events).length * input.halfLength
  written : writes state.events =
    (List.range (writes state.events).length).map (input.halfWrite input.populate.newNpoints)
  nodup : (puts state.events).Nodup
  near : ∀ newId ∈ puts state.events, newId < state.wbId + 2 * input.halfLength
  inBuffer : ∀ newId ∈ puts state.events, state.wbId ≤ newId →
    ∃ node, input.IsNewNode newId node ∧ state.wbuf (input.wbufAddress newId) = some node
  inFile : ∀ newId ∈ puts state.events, newId < state.wbId →
    ∃ node, input.IsNewNode newId node ∧ state.file (input.fileAddress newId) = some node
  inWindow : input.PutsInWindow state.events

theorem puts_snoc_put (events : List WindowEvent) (newId : Nat) :
    puts (events ++ [.put newId]) = puts events ++ [newId] := List.filterMap_append

theorem puts_snoc_writeBack (events : List WindowEvent) (write : HalfWrite) :
    puts (events ++ [.writeBack write]) = puts events :=
  List.filterMap_append.trans (List.append_nil _)

theorem writes_snoc_put (events : List WindowEvent) (newId : Nat) :
    writes (events ++ [.put newId]) = writes events :=
  List.filterMap_append.trans (List.append_nil _)

theorem writes_snoc_writeBack (events : List WindowEvent) (write : HalfWrite) :
    writes (events ++ [.writeBack write]) = writes events ++ [write] := List.filterMap_append

omit [LinearOrder Distance] in
/-- Only the last event can be the one that is new. -/
theorem PutsInWindow.snoc {events : List WindowEvent} (inWindow : input.PutsInWindow events)
    {event : WindowEvent} (last : ∀ newId, event = .put newId →
      (writes events).length * input.halfLength ≤ newId ∧
        newId < (writes events).length * input.halfLength + 2 * input.halfLength) :
    input.PutsInWindow (events ++ [event]) := by
  intro before after newId split
  rcases List.eq_nil_or_concat after with rfl | ⟨others, other, rfl⟩
  · obtain ⟨same, isPut⟩ := List.append_inj' split rfl
    rw [← same]
    exact last newId (List.singleton_inj.mp isPut)
  · rw [List.concat_eq_append, ← List.cons_append, ← List.append_assoc] at split
    exact inWindow before others newId (List.append_inj' split rfl).1

/-- A record is put into the buffer. -/
theorem Windowed.writeNode {state : WriteState Point Code} (windowed : input.Windowed state)
    {loc newId : Nat} (here : input.newIdAt loc = some newId)
    (fresh : newId ∉ puts state.events) (low : state.wbId ≤ newId)
    (high : newId < state.wbId + 2 * input.halfLength) :
    ∃ next, input.writeNode state loc = some next ∧ input.Windowed next ∧
      next.wbId = state.wbId ∧ next.events = state.events ++ [.put newId] := by
  obtain ⟨id, live, found⟩ := newIdAt_eq_some.mp here
  have mapped : input.populate.idMap id = some newId :=
    (input.populate_populatedBy.idMap id newId).mpr found
  obtain ⟨nbrs, made⟩ := input.exists_newNode live.1
  have step : input.writeNode state loc = some
      { state with
        wbuf := Function.update state.wbuf (input.wbufAddress newId)
          (some ⟨(input.node loc).coords, nbrs⟩)
        nUsedId := state.nUsedId + 1
        pqCoords := Function.update state.pqCoords newId (some (input.index.data id))
        newTags := Function.update state.newTags newId (some (input.index.id2tag id))
        events := state.events ++ [.put newId] } := by
    unfold MergeInput.writeNode
    rw [input.liveAt_eq_some.mpr live]
    dsimp only
    rw [made, mapped]
    rfl
  refine ⟨_, step, ?_, rfl, rfl⟩
  have isNode : input.IsNewNode newId ⟨(input.node loc).coords, nbrs⟩ :=
    ⟨loc, id, live.1, live.2, mapped, made⟩
  refine
    { used := ?_
      aligned := ?_
      written := ?_
      nodup := ?_
      near := ?_
      inBuffer := ?_
      inFile := ?_
      inWindow := ?_ }
  · dsimp only
    rw [puts_snoc_put, List.length_append, List.length_singleton, windowed.used]
  · dsimp only
    rw [writes_snoc_put, windowed.aligned]
  · dsimp only
    rw [writes_snoc_put, ← windowed.written]
  · dsimp only
    rw [puts_snoc_put]
    exact nodup_snoc windowed.nodup fresh
  · dsimp only
    rw [puts_snoc_put]
    intro other member
    rcases List.mem_append.mp member with old | new
    · exact windowed.near other old
    · rw [List.mem_singleton.mp new]
      exact high
  · dsimp only
    rw [puts_snoc_put]
    intro other member above
    by_cases same : other = newId
    · rw [same, Function.update_self]
      exact ⟨_, isNode, rfl⟩
    · have old : other ∈ puts state.events :=
        (List.mem_append.mp member).resolve_right fun new => same (List.mem_singleton.mp new)
      have apart : input.wbufAddress other ≠ input.wbufAddress newId := fun equal =>
        same (wbufAddress_injOn above (windowed.near other old) low high equal)
      rw [Function.update_of_ne apart]
      exact windowed.inBuffer other old above
  · dsimp only
    rw [puts_snoc_put]
    intro other member below
    rcases List.mem_append.mp member with old | new
    · exact windowed.inFile other old below
    · rw [List.mem_singleton.mp new] at below
      exact absurd low (Nat.not_le.mpr below)
  · refine windowed.inWindow.snoc fun other isPut => ?_
    obtain rfl := WindowEvent.put.inj isPut
    rw [← windowed.aligned]
    exact ⟨low, high⟩

/-- `write_back` leaves every id below its new bound in the file. -/
theorem Windowed.file_writeBack {state : WriteState Point Code} (windowed : input.Windowed state) :
    ∀ newId ∈ puts state.events, newId < (input.writeBack state).wbId →
      ∃ node, input.IsNewNode newId node ∧
        (input.writeBack state).file (input.fileAddress newId) = some node := by
  intro newId member below
  have positive := input.params.geometry.nnodesPerSector_pos
  have below : newId < state.wbId + min input.halfLength (state.nUsedId - state.wbId) := below
  have aligned : state.wbId % input.params.geometry.nnodesPerSector = 0 := by
    rw [windowed.aligned, halfLength, ← Nat.mul_assoc, Nat.mul_mod_left]
  have start : state.wbId / input.params.geometry.nnodesPerSector *
      input.params.geometry.nnodesPerSector = state.wbId := by
    rw [Nat.div_mul_cancel (Nat.dvd_of_mod_eq_zero aligned)]
  unfold writeBack fileAddress
  dsimp only
  by_cases old : newId < state.wbId
  · have before : newId / input.params.geometry.nnodesPerSector <
        state.wbId / input.params.geometry.nnodesPerSector :=
      (Nat.div_lt_iff_lt_mul positive).mpr (start.symm ▸ old)
    rw [if_neg fun range => absurd range.1 (Nat.not_le.mpr (Nat.add_lt_add_left before 1))]
    exact windowed.inFile newId member old
  · have low : state.wbId ≤ newId := Nat.not_lt.mp old
    obtain ⟨node, isNode, there⟩ := windowed.inBuffer newId member low
    have room : min input.halfLength (state.nUsedId - state.wbId) ≤
        roundUp (min input.halfLength (state.nUsedId - state.wbId))
            input.params.geometry.nnodesPerSector / input.params.geometry.nnodesPerSector *
          input.params.geometry.nnodesPerSector := by
      rw [roundUp, Nat.mul_div_cancel _ positive]
      exact le_divRoundUp_mul _ positive
    have inRange : input.params.geometry.locSectorNo state.wbId ≤
          input.params.geometry.locSectorNo newId ∧
        input.params.geometry.locSectorNo newId < input.params.geometry.locSectorNo state.wbId +
          roundUp (min input.halfLength (state.nUsedId - state.wbId))
            input.params.geometry.nnodesPerSector / input.params.geometry.nnodesPerSector := by
      refine ⟨Nat.add_le_add_left (Nat.div_le_div_right low) 1, ?_⟩
      rw [Geometry.locSectorNo, Geometry.locSectorNo, Nat.add_assoc]
      refine Nat.add_lt_add_left ((Nat.div_lt_iff_lt_mul positive).mpr ?_) 1
      rw [Nat.add_mul, start]
      exact below.trans_le (Nat.add_le_add_left room _)
    rw [if_pos inRange]
    have inHalf : newId < (writes state.events).length * input.halfLength + input.halfLength := by
      rw [← windowed.aligned]
      exact below.trans_le (Nat.add_le_add_left (Nat.min_le_left _ _) _)
    refine ⟨node, isNode, ?_⟩
    rw [← there, wbufAddress_eq (windowed.aligned ▸ low) inHalf, windowed.aligned]

/-- The write that `write_back` adds. -/
theorem Windowed.writes_writeBack {state : WriteState Point Code} (windowed : input.Windowed state)
    (length : min input.halfLength (state.nUsedId - state.wbId) =
      min input.halfLength (input.populate.newNpoints - state.wbId)) :
    writes (input.writeBack state).events = (List.range ((writes state.events).length + 1)).map
      (input.halfWrite input.populate.newNpoints) := by
  have positive := input.params.geometry.nnodesPerSector_pos
  unfold writeBack
  dsimp only
  rw [writes_snoc_writeBack, List.range_succ, List.map_append, ← windowed.written,
    List.map_singleton]
  refine congrArg (writes state.events ++ [·]) ?_
  rw [halfWrite, ← windowed.aligned, HalfWrite.mk.injEq]
  refine ⟨?_, rfl, rfl, ?_⟩
  · rw [windowed.aligned, kVecInWBuf_eq, Nat.mul_mod_mul_right, Nat.mul_div_cancel _ halfLength_pos]
  · rw [roundUp, Nat.mul_div_cancel _ positive, length]

omit [LinearOrder Distance] in
theorem puts_writeBack (state : WriteState Point Code) :
    puts (input.writeBack state).events = puts state.events := puts_snoc_writeBack _ _

/-- A full half is written. -/
theorem Windowed.writeBack {state : WriteState Point Code} (windowed : input.Windowed state)
    (full : input.halfLength ≤ state.nUsedId - state.wbId)
    (within : state.nUsedId ≤ input.populate.newNpoints) :
    input.Windowed (input.writeBack state) ∧
      (input.writeBack state).wbId = state.wbId + input.halfLength := by
  have wbId : (input.writeBack state).wbId = state.wbId + input.halfLength := by
    show state.wbId + min input.halfLength _ = _
    rw [Nat.min_eq_left full]
  have writes := windowed.writes_writeBack (by
    rw [Nat.min_eq_left full, Nat.min_eq_left (full.trans (Nat.sub_le_sub_right within _))])
  have count : (MergeInput.writes (input.writeBack state).events).length =
      (MergeInput.writes state.events).length + 1 := by
    rw [writes, List.length_map, List.length_range]
  refine ⟨?_, wbId⟩
  refine
    { used := windowed.used.trans (congrArg List.length (puts_writeBack state)).symm
      aligned := ?_
      written := ?_
      nodup := (puts_writeBack state).symm ▸ windowed.nodup
      near := fun newId member => ?_
      inBuffer := fun newId member above => ?_
      inFile := fun newId member below => ?_
      inWindow := ?_ }
  · show (input.writeBack state).wbId = _ * input.halfLength
    rw [wbId, count, windowed.aligned, Nat.succ_mul]
  · rw [count]
    exact writes
  · rw [puts_writeBack] at member
    rw [wbId]
    have near := windowed.near newId member
    omega
  · rw [puts_writeBack] at member
    exact windowed.inBuffer newId member (Nat.le_trans (wbId ▸ Nat.le_add_right _ _) above)
  · rw [puts_writeBack] at member
    exact windowed.file_writeBack newId member below
  · exact windowed.inWindow.snoc fun newId isPut => by cases isPut

/-! ### Batch by batch -/

/-- Before a batch the ids of the batches before it are there, and less than a half of them is
not written. -/
structure BatchDone (input : MergeInput Point Code Distance) (batch : Nat)
    (state : WriteState Point Code) : Prop where
  windowed : input.Windowed state
  there : ∀ newId, newId ∈ puts state.events ↔ newId < input.idsBefore batch
  written : state.wbId ≤ input.idsBefore batch
  pending : input.idsBefore batch < state.wbId + input.halfLength

/-- The ids that are there are counted by `n_used_id`. -/
theorem Windowed.used_eq {state : WriteState Point Code} (windowed : input.Windowed state)
    {count : Nat} (there : ∀ newId, newId ∈ puts state.events ↔ newId < count) :
    state.nUsedId = count := by
  rw [windowed.used]
  have perm : (puts state.events).Perm (List.range count) :=
    (List.perm_ext_iff_of_nodup windowed.nodup List.nodup_range).mpr fun newId => by
      rw [there, List.mem_range]
  rw [perm.length_eq, List.length_range]

/-- The threads put the records of some locations of a batch into the buffer. -/
theorem writeNodes {batch : Nat} {start : WriteState Point Code} (done : input.BatchDone batch start) :
    ∀ (locs taken : List Nat) (state : WriteState Point Code),
      (∀ loc ∈ locs, loc ∈ input.mergeOrder batch) → (taken ++ locs).Nodup →
        input.Windowed state → state.wbId = start.wbId →
          (∀ newId, newId ∈ puts state.events ↔ newId < input.idsBefore batch ∨
            ∃ loc ∈ taken, input.newIdAt loc = some newId) →
            ∃ next, locs.foldlM input.writeNode state = some next ∧ input.Windowed next ∧
              next.wbId = start.wbId ∧
                ∀ newId, newId ∈ puts next.events ↔ newId < input.idsBefore batch ∨
                  ∃ loc ∈ taken ++ locs, input.newIdAt loc = some newId := by
  intro locs
  induction locs with
  | nil =>
    intro taken state _ _ windowed wbId there
    rw [List.append_nil]
    exact ⟨state, rfl, windowed, wbId, there⟩
  | cons loc rest inductionHypothesis =>
    intro taken state inBatch nodup windowed wbId there
    have fresh : loc ∉ taken := fun old =>
      List.disjoint_of_nodup_append nodup old List.mem_cons_self
    have restInBatch : ∀ other ∈ rest, other ∈ input.mergeOrder batch :=
      fun other member => inBatch other (List.mem_cons_of_mem _ member)
    rw [List.append_cons] at nodup ⊢
    rw [List.foldlM_cons]
    cases here : input.newIdAt loc with
    | none =>
      have notLive : input.liveAt loc = none := by
        refine Option.eq_none_iff_forall_ne_some.mpr fun id live => ?_
        obtain ⟨isThere, stays⟩ := input.liveAt_eq_some.mp live
        obtain ⟨newId, mapped⟩ := input.exists_newId isThere stays
        rw [newIdAt, live, Option.bind_some, mapped] at here
        exact Option.some_ne_none _ here
      have skipped : input.writeNode state loc = some state := by
        unfold MergeInput.writeNode
        rw [notLive]
      rw [skipped]
      refine inductionHypothesis _ state restInBatch nodup windowed wbId fun newId => ?_
      rw [there]
      refine or_congr_right ⟨fun ⟨other, member, isNew⟩ =>
        ⟨other, List.mem_append_left _ member, isNew⟩, fun ⟨other, member, isNew⟩ => ?_⟩
      rcases List.mem_append.mp member with old | same
      · exact ⟨other, old, isNew⟩
      · rw [List.mem_singleton.mp same, here] at isNew
        exact absurd isNew.symm (Option.some_ne_none _)
    | some newId =>
      obtain ⟨low, high⟩ := newIdAt_mem_batch (inBatch loc List.mem_cons_self) here
      have grows : _ ∧ input.idsBefore (batch + 1) ≤ _ := idsBefore_succ batch
      have pending := done.pending
      have written := done.written
      have notThere : newId ∉ puts state.events := by
        rw [there]
        refine fun either => either.elim (fun early => absurd low (Nat.not_le.mpr early)) ?_
        rintro ⟨other, member, isNew⟩
        exact fresh (newIdAt_unique isNew here ▸ member)
      obtain ⟨next, step, nextWindowed, same, events⟩ :=
        windowed.writeNode here notThere (by omega) (by omega)
      rw [step]
      refine inductionHypothesis _ next restInBatch nodup nextWindowed (same.trans wbId)
        fun other => ?_
      rw [events, puts_snoc_put, List.mem_append, there, List.mem_singleton, or_assoc]
      refine or_congr_right ⟨?_, fun ⟨old, member, isNew⟩ => ?_⟩
      · rintro (⟨old, member, isNew⟩ | rfl)
        · exact ⟨old, List.mem_append_left _ member, isNew⟩
        · exact ⟨loc, List.mem_append_right _ (List.mem_singleton_self loc), here⟩
      · rcases List.mem_append.mp member with before | same
        · exact .inl ⟨old, before, isNew⟩
        · rw [List.mem_singleton.mp same, here] at isNew
          exact .inr (Option.some.inj isNew).symm

/-- A batch, with the write after it. -/
theorem BatchDone.next {batch : Nat} {state : WriteState Point Code}
    (done : input.BatchDone batch state)
    (within : input.idsBefore (batch + 1) ≤ input.populate.newNpoints) :
    ∃ next, input.mergeBatch state batch = some next ∧ input.BatchDone (batch + 1) next := by
  have nodup : (input.mergeOrder batch).Nodup :=
    (input.merge_perm batch).nodup_iff.mpr (Geometry.nodup_batchLocs _ _ _)
  obtain ⟨last, folded, windowed, wbId, there⟩ := writeNodes done (input.mergeOrder batch) [] state
    (fun _ member => member) nodup done.windowed rfl fun newId => by
      rw [done.there]
      exact (or_iff_left fun none => none.elim fun _ both => absurd both.1 List.not_mem_nil).symm
  have grows : _ ∧ input.idsBefore (batch + 1) ≤ _ := idsBefore_succ batch
  have written := done.written
  have pending := done.pending
  have thereNow : ∀ newId, newId ∈ puts last.events ↔ newId < input.idsBefore (batch + 1) := by
    intro newId
    rw [there, List.nil_append]
    constructor
    · rintro (early | ⟨loc, member, isNew⟩)
      · exact early.trans_le grows.1
      · exact (newIdAt_mem_batch member isNew).2
    · intro below
      rcases Nat.lt_or_ge newId (input.idsBefore batch) with early | now
      · exact .inl early
      · exact .inr (exists_newIdAt now below)
  have used := windowed.used_eq thereNow
  unfold mergeBatch
  rw [folded]
  by_cases full : input.halfLength ≤ last.nUsedId - last.wbId
  · obtain ⟨writtenBack, moved⟩ := windowed.writeBack full (used ▸ within)
    refine ⟨input.writeBack last, congrArg some (if_pos full), writtenBack, fun newId => ?_, ?_, ?_⟩
    · rw [puts_writeBack, thereNow]
    · omega
    · omega
  · refine ⟨last, congrArg some (if_neg full), windowed, thereNow, ?_, ?_⟩
    · omega
    · omega

/-- What the second pass has done in the end. -/
structure Lossless (input : MergeInput Point Code Distance) (last : WriteState Point Code) :
    Prop where
  used : last.nUsedId = input.populate.newNpoints
  written : last.wbId = input.populate.newNpoints
  /-- Every new id is put into the buffer once. -/
  puts_perm : (puts last.events).Perm (List.range input.populate.newNpoints)
  inWindow : input.PutsInWindow last.events
  /-- Every half is written once. -/
  writes_eq : writes last.events =
    (List.range (divRoundUp input.populate.newNpoints input.halfLength)).map
      (input.halfWrite input.populate.newNpoints)
  /-- The record of every point that stays is at the place of its new id. -/
  recorded : ∀ loc id, input.loc2id loc = .real id → ¬ input.Deleted id →
    ∃ newId node, input.populate.idMap id = some newId ∧ newId < input.populate.newNpoints ∧
      input.newNode input.populate loc id = some node ∧
        last.file (input.fileAddress newId) = some node

omit [LinearOrder Distance] in
theorem idsBefore_le {batch : Nat} (inPass : batch ≤
      input.params.geometry.nBatches input.index.layout.curLoc sectorsPerMerge) :
    input.idsBefore batch ≤ input.populate.newNpoints :=
  (monotone_nat_of_le_succ (f := input.idsBefore) (fun batch => (idsBefore_succ batch).1)
    inPass).trans_eq idsBefore_last

theorem mergeBatches_done (file : Nat × Nat → Option (DiskNode Point)) : ∀ batches,
    batches ≤ input.params.geometry.nBatches input.index.layout.curLoc sectorsPerMerge →
      ∃ state, (List.range batches).foldlM input.mergeBatch
        { wbuf := fun _ => none
          wbId := 0
          nUsedId := 0
          file := file
          pqCoords := fun _ => none
          newTags := fun _ => none
          events := [] } = some state ∧ input.BatchDone batches state
  | 0, _ => by
    refine ⟨_, rfl, ⟨?_, ?_, ?_, ?_⟩⟩
    · exact
        { used := rfl
          aligned := (Nat.zero_mul _).symm
          written := rfl
          nodup := .nil
          near := fun _ member => absurd member List.not_mem_nil
          inBuffer := fun _ member => absurd member List.not_mem_nil
          inFile := fun _ member => absurd member List.not_mem_nil
          inWindow := fun before after newId split =>
            absurd split.symm (List.append_ne_nil_of_right_ne_nil _ (List.cons_ne_nil _ _)) }
    · intro newId
      rw [idsBefore_zero]
      exact iff_of_false List.not_mem_nil (Nat.not_lt_zero _)
    · exact Nat.zero_le _
    · rw [idsBefore_zero]
      exact (Nat.zero_add _).symm ▸ halfLength_pos
  | batches + 1, inPass => by
    obtain ⟨state, folded, done⟩ := mergeBatches_done file batches (Nat.le_of_succ_le inPass)
    obtain ⟨next, step, nextDone⟩ := done.next (idsBefore_le inPass)
    refine ⟨next, ?_, nextDone⟩
    rw [List.range_succ, List.foldlM_append, folded]
    show List.foldlM input.mergeBatch state [batches] = some next
    rw [List.foldlM_cons, step]
    rfl

omit [LinearOrder Distance] in
theorem writeRest_of_le {state : WriteState Point Code} (done : state.nUsedId ≤ state.wbId) :
    ∀ fuel, input.writeRest fuel state = state
  | 0 => rfl
  | _ + 1 => if_neg (Nat.not_lt.mpr done)

/-- The loop at the end writes at most one half, which may be partly filled. -/
theorem BatchDone.writeRest {state : WriteState Point Code}
    (done : input.BatchDone
      (input.params.geometry.nBatches input.index.layout.curLoc sectorsPerMerge) state) :
    input.Lossless (input.writeRest state.nUsedId state) := by
  have windowed := done.windowed
  have there := done.there
  have pending := done.pending
  have written := done.written
  rw [idsBefore_last] at there pending written
  have used := windowed.used_eq there
  have perm : (puts state.events).Perm (List.range input.populate.newNpoints) :=
    (List.perm_ext_iff_of_nodup windowed.nodup List.nodup_range).mpr fun newId => by
      rw [there, List.mem_range]
  have recorded : ∀ file : Nat × Nat → Option (DiskNode Point),
      (∀ newId ∈ puts state.events, ∃ node, input.IsNewNode newId node ∧
        file (input.fileAddress newId) = some node) →
        ∀ loc id, input.loc2id loc = .real id → ¬ input.Deleted id →
          ∃ newId node, input.populate.idMap id = some newId ∧
            newId < input.populate.newNpoints ∧
              input.newNode input.populate loc id = some node ∧
                file (input.fileAddress newId) = some node := by
    intro file all loc id here stays
    obtain ⟨newId, mapped⟩ := input.exists_newId here stays
    have found := (input.populate_populatedBy.idMap id newId).mp mapped
    have below : newId < input.populate.newNpoints := by
      rw [input.populate_populatedBy.newNpoints]
      exact (List.getElem?_eq_some_iff.mp found).1
    obtain ⟨node, ⟨other, otherId, isThere, _, otherMapped, made⟩, inFile⟩ :=
      all newId ((there newId).mpr below)
    have same : otherId = id := Option.some.inj
      (((input.populate_populatedBy.idMap otherId newId).mp otherMapped).symm.trans found)
    rw [same] at isThere made
    rw [input.loc_unique isThere here] at made
    exact ⟨newId, node, mapped, below, made, inFile⟩
  have half := @halfLength_pos _ _ _ input
  by_cases all : state.nUsedId ≤ state.wbId
  · rw [writeRest_of_le all]
    have whole : state.wbId = input.populate.newNpoints := by omega
    refine ⟨used, whole, perm, windowed.inWindow, ?_, recorded _ fun newId member =>
      windowed.inFile newId member (whole.symm ▸ (there newId).mp member)⟩
    have count : divRoundUp input.populate.newNpoints input.halfLength =
        (writes state.events).length := by
      rw [← whole, windowed.aligned, divRoundUp, Nat.mul_div_cancel _ half,
        if_pos (Nat.mul_mod_left _ _), Nat.add_zero]
    rw [count]
    exact windowed.written
  · have some : state.nUsedId = state.nUsedId - 1 + 1 := by omega
    have wbId : (input.writeBack state).wbId = input.populate.newNpoints := by
      show state.wbId + min input.halfLength (state.nUsedId - state.wbId) = _
      rw [Nat.min_eq_right (by omega)]
      omega
    have once : input.writeRest state.nUsedId state = input.writeBack state := by
      rw [some, MergeInput.writeRest, if_pos (Nat.not_le.mp all)]
      have rest : (input.writeBack state).nUsedId ≤ (input.writeBack state).wbId :=
        used.trans_le wbId.ge
      exact writeRest_of_le rest _
    rw [once]
    refine ⟨used, wbId, (puts_writeBack state).symm ▸ perm,
      windowed.inWindow.snoc (fun newId isPut => by cases isPut), ?_,
      recorded _ fun newId member => windowed.file_writeBack newId member
        (wbId.symm ▸ (there newId).mp member)⟩
    have count : divRoundUp input.populate.newNpoints input.halfLength =
        (writes state.events).length + 1 := by
      have split : input.populate.newNpoints = input.halfLength * (writes state.events).length +
          (input.populate.newNpoints - state.wbId) := by
        rw [Nat.mul_comm, ← windowed.aligned]
        omega
      have small : input.populate.newNpoints - state.wbId < input.halfLength := by omega
      rw [divRoundUp, split, Nat.mul_add_div half, Nat.mul_add_mod, Nat.div_eq_of_lt small,
        Nat.mod_eq_of_lt small, if_neg (by omega)]
    rw [count]
    exact windowed.writes_writeBack (by rw [used])

/-- The second pass ends, and no record is lost in the buffer. -/
theorem secondPass_lossless (input : MergeInput Point Code Distance)
    (file : Nat × Nat → Option (DiskNode Point)) :
    ∃ last, input.secondPass file = some last ∧ input.Lossless last := by
  obtain ⟨state, folded, done⟩ := @mergeBatches_done _ _ _ _ input file _ (Nat.le_refl _)
  refine ⟨_, ?_, done.writeRest⟩
  unfold secondPass
  rw [folded]
  rfl

end MergeInput

end OdinVector
