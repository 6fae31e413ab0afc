/-
This file follows the divisions by `nnodes_per_sector`, which is 0 when a node is longer
than a sector: in `load`, in the maps between ids and locations, in `alloc_loc`, in the
merges and in `reload`. `loc_sector_no` and `offset_to_loc` ask for 0 first, the other
functions do not.

A division by 0 ends the program. Of a merge the model has what its addresses depend on:
the layout, the ids that are deleted and the counts, but not the records.
-/

import OdinVector.InMemory.DiskImported
import OdinVector.Merge.WriteWindow

namespace OdinVector

open Binary

/-! ### Division -/

/-- How a function ends the program. -/
inductive Fault
  /-- A division or a remainder by 0. -/
  | division
  /-- `crash()` or `exit(-1)`. -/
  | crash
  deriving DecidableEq

/-- `x / y`. -/
def divide (x y : Nat) : Except Fault Nat :=
  if y = 0 then .error .division else .ok (x / y)

/-- `x % y`. -/
def remainder (x y : Nat) : Except Fault Nat :=
  if y = 0 then .error .division else .ok (x % y)

/-- `ROUND_UP(x, y)`. -/
def roundUpBy (x y : Nat) : Except Fault Nat := do
  let quotient ← divide x y
  let rest ← remainder x y
  return (quotient + if rest = 0 then 0 else 1) * y

/-- Nothing is divided by 0. -/
def DividesSafely {Result : Type} (run : Except Fault Result) : Prop :=
  run ≠ .error .division

section Safety

variable {Result Next State Item : Type}

theorem safe_ok (result : Result) : DividesSafely (.ok result) :=
  fun wrong => by cases wrong

theorem safe_crash : DividesSafely (.error .crash : Except Fault Result) :=
  fun wrong => by cases wrong

theorem safe_bind {run : Except Fault Result} {next : Result → Except Fault Next}
    (first : DividesSafely run) (then' : ∀ result, DividesSafely (next result)) :
    DividesSafely (run >>= next) := by
  cases run with
  | error fault => exact fun wrong => first (congrArg Except.error (Except.error.inj wrong))
  | ok result => exact then' result

theorem safe_ite {condition : Prop} [Decidable condition] {first second : Except Fault Result}
    (yes : DividesSafely first) (no : DividesSafely second) :
    DividesSafely (if condition then first else second) := by
  split
  · exact yes
  · exact no

theorem safe_foldlM {items : List Item} {body : State → Item → Except Fault State}
    (step : ∀ state item, DividesSafely (body state item)) (state : State) :
    DividesSafely (items.foldlM body state) := by
  induction items generalizing state with
  | nil => exact safe_ok state
  | cons item rest inductionHypothesis =>
    rw [List.foldlM_cons]
    exact safe_bind (step state item) inductionHypothesis

variable {x y : Nat}

theorem divide_eq (positive : 0 < y) : divide x y = .ok (x / y) :=
  if_neg positive.ne'

theorem remainder_eq (positive : 0 < y) : remainder x y = .ok (x % y) :=
  if_neg positive.ne'

theorem safe_divide (positive : 0 < y) : DividesSafely (divide x y) :=
  divide_eq positive ▸ safe_ok _

theorem safe_remainder (positive : 0 < y) : DividesSafely (remainder x y) :=
  remainder_eq positive ▸ safe_ok _

theorem safe_roundUpBy (positive : 0 < y) : DividesSafely (roundUpBy x y) :=
  safe_bind (safe_divide positive) fun _ => safe_bind (safe_remainder positive) fun _ => safe_ok _

end Safety

namespace DiskHeader

variable (header : DiskHeader)

/-! ### Loading -/

/-- The tail behind `numPoints` locations, at a full sector. -/
def alignTail (numPoints : Nat) : Except Fault Nat := do
  if (← remainder numPoints header.nnodesPerSector) ≠ 0 then
    return numPoints + (header.nnodesPerSector - (← remainder numPoints header.nnodesPerSector))
  else return numPoints

/-- `load_page_layout`. -/
def loadPageLayout (partition' : Option PartitionFile) (numPoints : Nat) :
    Except Fault Layout := do
  let pageOffset := header.locSectorNo 0
  match partition' with
  | some file =>
    if header.nnodesPerSector ≠ 0 ∧ numPoints ≠ 0 ∧ file.nodesPerPage ≠ header.nnodesPerSector then
      throw .crash
    else return {
      pageLayout page :=
        if pageOffset ≤ page then (file.pages[page - pageOffset]?).map Layout.PartitionPage.slots
        else none
      id2loc := file.pages.zipIdx.foldl (fun assigned entry =>
        (List.range entry.1.used).foldl (fun current slot =>
          Layout.assignLoc current (entry.1.slots slot)
            (entry.2 * header.nnodesPerSector + slot)) assigned) fun _ => none
      emptyPages := []
      curLoc := file.pages.length * header.nnodesPerSector }
  | none =>
    let numSectors ← divide (numPoints + header.nnodesPerSector - 1) header.nnodesPerSector
    let curLoc ← header.alignTail numPoints
    return {
      pageLayout page :=
        if pageOffset ≤ page ∧ page < pageOffset + numSectors then
          some fun slot =>
            let id := (page - pageOffset) * header.nnodesPerSector + slot
            if slot < header.nnodesPerSector ∧ id < numPoints then .real id else .kInvalidID
        else none
      id2loc id := if id < numPoints then some id else none
      emptyPages := []
      curLoc := curLoc }

/-- `load`, with the number of points in the header of the PQ file when it can be read. The
result -1 is `none`. -/
def load (pqPoints : Option Nat) (partition' : Option PartitionFile) :
    Except Fault (Option Layout) :=
  if kMaxElemInAPage < header.nnodesPerSector then .ok none
  else
    match pqPoints with
    | none => .ok none
    | some numPoints =>
      if header.diskNnodes ≠ numPoints then .ok none
      else do
        let layout ← header.loadPageLayout partition' numPoints
        return some layout

/-! ### Slots -/

/-- `loc2id`. -/
def loc2id (layout : Layout) (loc : Nat) : Except Fault SlotId := do
  let offset ← remainder loc header.nnodesPerSector
  match layout.pageLayout (header.locSectorNo loc) with
  | some slots => return slots offset
  | none => return .kInvalidID

/-- `set_loc2id`. -/
def setLoc2id (layout : Layout) (loc : Nat) (id : SlotId) : Except Fault Layout := do
  let page := header.locSectorNo loc
  let offset ← remainder loc header.nnodesPerSector
  let slots := (layout.pageLayout page).getD fun _ => .kInvalidID
  return layout.storePage page (Function.update slots offset id)

/-- `erase_loc2id`. -/
def eraseLoc2id (layout : Layout) (loc : Nat) : Except Fault Layout := do
  let page := header.locSectorNo loc
  let offset ← remainder loc header.nnodesPerSector
  match layout.pageLayout page with
  | none => return layout.storePage page fun _ => .real 0
  | some slots =>
    let erased := Function.update slots offset .kInvalidID
    let stored := layout.storePage page erased
    if (List.range header.nnodesPerSector).all fun slot => erased slot = .kInvalidID then
      return { stored with emptyPages := stored.emptyPages ++ [page] }
    else return stored

/-! ### Handing out slots -/

/-- `sector_to_loc`. -/
def sectorToLoc (sectorNo sectorOff : Nat) : Nat :=
  (sectorNo - 1) * header.nnodesPerSector + sectorOff

/-- The first loop of `alloc_loc`. -/
def popEmptyPages : Nat → List Nat → Layout → Except Fault (Layout × List Nat)
  | _, [], layout => .ok ({ layout with emptyPages := [] }, [])
  | remaining, page :: queue, layout =>
    match layout.pageLayout page with
    | none => popEmptyPages remaining queue layout
    | some slots =>
      match Layout.takeEmptyPage (List.range header.nnodesPerSector) remaining slots with
      | none => .error .crash
      | some (marked, taken) =>
        let stored := layout.storePage page marked
        let locs := taken.map (header.sectorToLoc page)
        if taken.length = remaining then .ok ({ stored with emptyPages := queue }, locs)
        else do
          let result ← popEmptyPages (remaining - taken.length) queue stored
          return (result.1, locs ++ result.2)

/-- `threshold`. -/
def threshold : Nat :=
  (header.nnodesPerSector + Layout.kIndexSizeFactor - 1) / Layout.kIndexSizeFactor

/-- The second loop of `alloc_loc`. -/
def useHintPages : Nat → List Nat → Layout → Layout × List Nat × List Nat
  | _, [], layout => (layout, [], [])
  | remaining, page :: hints, layout =>
    match layout.pageLayout page with
    | none => useHintPages remaining hints layout
    | some slots =>
      let cnt := ((List.range header.nnodesPerSector).filter fun slot =>
        slots slot = .kInvalidID).length
      if cnt < header.threshold then useHintPages remaining hints layout
      else
        let read := if cnt < header.nnodesPerSector then [page] else []
        let (marked, taken) :=
          Layout.takeHoles (List.range header.nnodesPerSector) remaining slots
        let stored := layout.storePage page marked
        let locs := taken.map (header.sectorToLoc page)
        if taken.length = remaining then (stored, locs, read)
        else
          let (final, moreLocs, moreRead) :=
            useHintPages (remaining - taken.length) hints stored
          (final, locs ++ moreLocs, read ++ moreRead)

/-- The last part of `alloc_loc`. -/
def reserveTail (remaining : Nat) (layout : Layout) : Except Fault (Layout × List Nat) := do
  let locs := (List.range remaining).map (layout.curLoc + ·)
  let marked ← locs.foldlM (fun current loc => header.setLoc2id current loc .kAllocatedID) layout
  let curLoc ← header.alignTail (layout.curLoc + remaining)
  return ({ marked with curLoc := curLoc }, locs)

/-- `alloc_loc`. -/
def allocLoc (count : Nat) (hintPages : List Nat) (layout : Layout) :
    Except Fault (Layout × List Nat × List Nat) := do
  let (popped, emptyLocs) ← header.popEmptyPages count layout.emptyPages layout
  if emptyLocs.length = count then return (popped, emptyLocs, [])
  let (hinted, hintLocs, needRead) :=
    header.useHintPages (count - emptyLocs.length) hintPages popped
  if emptyLocs.length + hintLocs.length = count then
    return (hinted, emptyLocs ++ hintLocs, needRead)
  let (extended, freshLocs) ←
    header.reserveTail (count - (emptyLocs.length + hintLocs.length)) hinted
  return (extended, emptyLocs ++ hintLocs ++ freshLocs, needRead)

/-! ### Merging -/

/-- The counts of a merge, with the places of `rbuf` and `wbuf` that it has used: a sector of the
buffer and an offset in it. -/
structure MergeCounts where
  newNpoints : Nat
  /-- `id_map`. -/
  idMap : SlotId → Option Nat
  nUsedId : Nat
  wbId : Nat
  places : List (Nat × Nat)

/-- Before a merge. -/
def MergeCounts.start : MergeCounts := ⟨0, fun _ => none, 0, 0, []⟩

/-- A loop over the sectors that takes `step` of them at a time. -/
def forSectors {State : Type} (nSectors step : Nat)
    (body : Nat → Nat → State → Except Fault State) (state : State) : Except Fault State :=
  (List.range (divRoundUp nSectors step)).foldlM (fun current batch =>
    body (batch * step) (min (batch * step + step) nSectors) current) state

/-- A loop over the locations of some sectors. -/
def forLocs {State : Type} (curLoc stSector edSector : Nat)
    (body : State → Nat → Except Fault State) (state : State) : Except Fault State :=
  let locSt := stSector * header.nnodesPerSector
  let locEd := min curLoc (edSector * header.nnodesPerSector)
  (List.range' locSt (locEd - locSt)).foldlM body state

/-- `n_sectors` of a merge. -/
def mergeSectors (curLoc : Nat) : Except Fault Nat :=
  divide (curLoc + header.nnodesPerSector - 1) header.nnodesPerSector

/-- `page_rbuf` and `offset_to_loc` of a location in the sectors from `stSector` on. -/
def readPlace (stSector loc : Nat) : Except Fault (Nat × Nat) := do
  let sector ← divide loc header.nnodesPerSector
  return (sector - stSector, header.offsetToLoc loc)

/-- The first pass over a location. Slots that are handed out are passed over by one of the two
merges only. -/
def populateLoc (skipsAllocated : Bool) (layout : Layout) (deleted : SlotId → Bool)
    (stSector : Nat) (state : MergeCounts) (loc : Nat) : Except Fault MergeCounts := do
  let id ← header.loc2id layout loc
  if id = .kInvalidID ∨ skipsAllocated = true ∧ id = .kAllocatedID then return state
  if deleted id = false then
    return { state with
      newNpoints := state.newNpoints + 1
      idMap := if (state.idMap id).isSome then state.idMap
        else Function.update state.idMap id (some state.newNpoints) }
  let place ← header.readPlace stSector loc
  return { state with places := state.places ++ [place] }

/-- `SECTORS_PER_MERGE * nnodes_per_sector`. -/
def halfLength : Nat := sectorsPerMerge * header.nnodesPerSector

/-- `kVecInWBuf`. -/
def kVecInWBuf : Nat := 2 * sectorsPerMerge * header.nnodesPerSector

/-- The second pass over a location. -/
def mergeLoc (skipsAllocated : Bool) (layout : Layout) (deleted : SlotId → Bool)
    (stSector : Nat) (state : MergeCounts) (loc : Nat) : Except Fault MergeCounts := do
  let id ← header.loc2id layout loc
  if id = .kInvalidID ∨ skipsAllocated = true ∧ id = .kAllocatedID then return state
  if deleted id = true then return state
  let read ← header.readPlace stSector loc
  match state.idMap id with
  | none => throw .crash
  | some newId =>
    let off ← remainder newId header.kVecInWBuf
    let sector ← divide off header.nnodesPerSector
    return { state with
      nUsedId := state.nUsedId + 1
      places := state.places ++ [read, (sector, header.offsetToLoc off)] }

/-- `write_back`. -/
def writeBack (state : MergeCounts) : Except Fault MergeCounts := do
  let inWindow ← remainder state.wbId header.kVecInWBuf
  let bufId ← divide inWindow header.halfLength
  let idDelta := min header.halfLength (state.nUsedId - state.wbId)
  let rounded ← roundUpBy idDelta header.nnodesPerSector
  let sectors ← divide rounded header.nnodesPerSector
  return { state with
    wbId := state.wbId + idDelta
    places := state.places ++ (List.range sectors).map (bufId * sectorsPerMerge + ·, 0) }

/-- A batch of the second pass. -/
def mergeBatch (skipsAllocated : Bool) (layout : Layout) (deleted : SlotId → Bool)
    (stSector edSector : Nat) (state : MergeCounts) : Except Fault MergeCounts := do
  let state ← header.forLocs layout.curLoc stSector edSector
    (header.mergeLoc skipsAllocated layout deleted stSector) state
  if header.halfLength ≤ state.nUsedId - state.wbId then header.writeBack state
  else return state

/-- The loop that writes what is left, for at most `fuel` rounds. -/
def writeRest : Nat → MergeCounts → Except Fault MergeCounts
  | 0, state => .ok state
  | fuel + 1, state =>
    if state.wbId < state.nUsedId then do
      let written ← header.writeBack state
      writeRest fuel written
    else .ok state

/-- The size of the file for so many points. -/
def fileSize (newNpoints : Nat) : Except Fault Nat := do
  let rounded ← roundUpBy newNpoints header.nnodesPerSector
  let sectors ← divide rounded header.nnodesPerSector
  return sectorLen + sectors * sectorLen

/-- `write_metadata_and_pq`, as far as it computes. -/
def writeMetadataAndPq (newNpoints : Nat) : Except Fault Nat := header.fileSize newNpoints

/-- `merge_deletes`: the counts, the layout it leaves and the size of the file. -/
def mergeDeletes (layout : Layout) (deleted : SlotId → Bool) :
    Except Fault (MergeCounts × Layout × Nat) := do
  let nSectors ← header.mergeSectors layout.curLoc
  let populated ← forSectors nSectors sectorsPerPopulate (fun stSector edSector =>
    header.forLocs layout.curLoc stSector edSector
      (header.populateLoc true layout deleted stSector)) MergeCounts.start
  let merged ← forSectors nSectors sectorsPerMerge (header.mergeBatch true layout deleted) populated
  let written ← header.writeRest merged.nUsedId merged
  let cleared : Layout := { layout with pageLayout := fun _ => none, id2loc := fun _ => none }
  let newLayout ← (List.range written.newNpoints).foldlM (fun (current : Layout) i =>
    header.setLoc2id { current with id2loc := Function.update current.id2loc i (some i) } i
      (.real i)) cleared
  let size ← header.writeMetadataAndPq written.newNpoints
  return (written, newLayout, size)

/-- `merge_deletes_stream_pq_tags`: the counts and the size of the file. -/
def mergeDeletesStreamPqTags (layout : Layout) (deleted : SlotId → Bool) :
    Except Fault (MergeCounts × Nat) := do
  let nSectors ← header.mergeSectors layout.curLoc
  let populated ← forSectors nSectors sectorsPerPopulate (fun stSector edSector =>
    header.forLocs layout.curLoc stSector edSector
      (header.populateLoc false layout deleted stSector)) MergeCounts.start
  let size ← header.fileSize populated.newNpoints
  let merged ← forSectors nSectors sectorsPerMerge (header.mergeBatch false layout deleted)
    populated
  let written ← header.writeRest merged.nUsedId merged
  return (written, size)

/-- A location in the loops of the merges that keep all points. -/
def rebuildLoc (layout : Layout) (stSector : Nat) (places : List (Nat × Nat)) (loc : Nat) :
    Except Fault (List (Nat × Nat)) := do
  let id ← header.loc2id layout loc
  if id = .kInvalidID ∨ id = .kAllocatedID then return places
  let place ← header.readPlace stSector loc
  return places ++ [place]

/-- `rebuild_graph_in_place`, as far as it computes addresses. -/
def rebuildGraphInPlace (layout : Layout) : Except Fault (List (Nat × Nat)) := do
  let nSectors ← header.mergeSectors layout.curLoc
  forSectors nSectors sectorsPerMerge (fun stSector edSector =>
    header.forLocs layout.curLoc stSector edSector (header.rebuildLoc layout stSector)) []

/-- `merge_graph_only`: the addresses and the size of the file. -/
def mergeGraphOnly (layout : Layout) (curId : Nat) :
    Except Fault (List (Nat × Nat) × Nat) := do
  let size ← header.fileSize curId
  let nSectors ← header.mergeSectors layout.curLoc
  let places ← forSectors nSectors sectorsPerMerge (fun stSector edSector =>
    header.forLocs layout.curLoc stSector edSector (header.rebuildLoc layout stSector)) []
  return (places, size)

/-- `reload`: the layout with its tail behind `num_points` locations. -/
def reload (layout : Layout) (numPoints : Nat) : Except Fault Layout := do
  let curLoc ← header.alignTail numPoints
  return { layout with emptyPages := [], curLoc := curLoc }

/-! ### What divides safely -/

/-- All functions of an index divide safely, and `load` ends with an index or with -1 unless the
partition file was made for other sectors. -/
structure NeverDividesByZero : Prop where
  load : ∀ pqPoints partition', DividesSafely (header.load pqPoints partition') ∧
    (header.load pqPoints partition' = .error .crash → ∃ file : PartitionFile,
      partition' = some file ∧ file.nodesPerPage ≠ header.nnodesPerSector)
  loadPageLayout : ∀ partition' numPoints,
    DividesSafely (header.loadPageLayout partition' numPoints)
  loc2id : ∀ layout loc, DividesSafely (header.loc2id layout loc)
  setLoc2id : ∀ layout loc id, DividesSafely (header.setLoc2id layout loc id)
  eraseLoc2id : ∀ layout loc, DividesSafely (header.eraseLoc2id layout loc)
  allocLoc : ∀ count hintPages layout, DividesSafely (header.allocLoc count hintPages layout)
  reload : ∀ layout numPoints, DividesSafely (header.reload layout numPoints)
  mergeDeletes : ∀ layout deleted, DividesSafely (header.mergeDeletes layout deleted)
  mergeDeletesStreamPqTags : ∀ layout deleted,
    DividesSafely (header.mergeDeletesStreamPqTags layout deleted)
  writeMetadataAndPq : ∀ newNpoints, DividesSafely (header.writeMetadataAndPq newNpoints)
  rebuildGraphInPlace : ∀ layout, DividesSafely (header.rebuildGraphInPlace layout)
  mergeGraphOnly : ∀ layout curId, DividesSafely (header.mergeGraphOnly layout curId)

section Several

variable {header} (several : 0 < header.nnodesPerSector)
include several

theorem safe_alignTail (numPoints : Nat) : DividesSafely (header.alignTail numPoints) := by
  unfold alignTail
  refine safe_bind (safe_remainder several) fun rest => safe_ite ?_ (safe_ok _)
  exact safe_bind (safe_remainder several) fun _ => safe_ok _

theorem safe_loadPageLayout (partition' : Option PartitionFile) (numPoints : Nat) :
    DividesSafely (header.loadPageLayout partition' numPoints) := by
  unfold loadPageLayout
  cases partition' with
  | none =>
    exact safe_bind (safe_divide several) fun _ =>
      safe_bind (safe_alignTail several numPoints) fun _ => safe_ok _
  | some file => exact safe_ite safe_crash (safe_ok _)

theorem safe_load (pqPoints : Option Nat) (partition' : Option PartitionFile) :
    DividesSafely (header.load pqPoints partition') := by
  unfold load
  refine safe_ite (safe_ok _) ?_
  cases pqPoints with
  | none => exact safe_ok _
  | some numPoints =>
    exact safe_ite (safe_ok _)
      (safe_bind (safe_loadPageLayout several partition' numPoints) fun _ => safe_ok _)

theorem safe_loc2id (layout : Layout) (loc : Nat) : DividesSafely (header.loc2id layout loc) := by
  unfold loc2id
  refine safe_bind (safe_remainder several) fun offset => ?_
  split <;> exact safe_ok _

theorem safe_setLoc2id (layout : Layout) (loc : Nat) (id : SlotId) :
    DividesSafely (header.setLoc2id layout loc id) :=
  safe_bind (safe_remainder several) fun _ => safe_ok _

theorem safe_eraseLoc2id (layout : Layout) (loc : Nat) :
    DividesSafely (header.eraseLoc2id layout loc) := by
  unfold eraseLoc2id
  refine safe_bind (safe_remainder several) fun offset => ?_
  split
  · exact safe_ok _
  · exact safe_ite (safe_ok _) (safe_ok _)

omit several in
theorem safe_popEmptyPages (remaining : Nat) (queue : List Nat) (layout : Layout) :
    DividesSafely (header.popEmptyPages remaining queue layout) := by
  induction queue generalizing remaining layout with
  | nil => exact safe_ok _
  | cons page queue inductionHypothesis =>
    unfold popEmptyPages
    split
    · exact inductionHypothesis remaining layout
    · split
      · exact safe_crash
      · exact safe_ite (safe_ok _) (safe_bind (inductionHypothesis _ _) fun _ => safe_ok _)

theorem safe_allocLoc (count : Nat) (hintPages : List Nat) (layout : Layout) :
    DividesSafely (header.allocLoc count hintPages layout) := by
  have tail (remaining : Nat) (current : Layout) :
      DividesSafely (header.reserveTail remaining current) :=
    safe_bind (safe_foldlM (fun state loc => safe_setLoc2id several state loc _) current)
      fun _ => safe_bind (safe_alignTail several _) fun _ => safe_ok _
  unfold allocLoc
  refine safe_bind (safe_popEmptyPages count layout.emptyPages layout) fun popped => ?_
  refine safe_ite (safe_ok _) (safe_ite (safe_ok _) ?_)
  exact safe_bind (tail _ _) fun _ => safe_ok _

theorem safe_reload (layout : Layout) (numPoints : Nat) :
    DividesSafely (header.reload layout numPoints) :=
  safe_bind (safe_alignTail several numPoints) fun _ => safe_ok _

section Merging

omit several in
theorem safe_forSectors {State : Type} {body : Nat → Nat → State → Except Fault State}
    (step : ∀ stSector edSector state, DividesSafely (body stSector edSector state))
    (nSectors size : Nat) (state : State) :
    DividesSafely (forSectors nSectors size body state) :=
  safe_foldlM (fun current _ => step _ _ current) state

omit several in
theorem safe_forLocs {State : Type} {body : State → Nat → Except Fault State}
    (step : ∀ state loc, DividesSafely (body state loc)) (curLoc stSector edSector : Nat)
    (state : State) : DividesSafely (header.forLocs curLoc stSector edSector body state) :=
  safe_foldlM step state

theorem safe_readPlace (stSector loc : Nat) : DividesSafely (header.readPlace stSector loc) :=
  safe_bind (safe_divide several) fun _ => safe_ok _

theorem safe_populateLoc (skipsAllocated : Bool) (layout : Layout) (deleted : SlotId → Bool)
    (stSector : Nat) (state : MergeCounts) (loc : Nat) :
    DividesSafely (header.populateLoc skipsAllocated layout deleted stSector state loc) := by
  unfold populateLoc
  refine safe_bind (safe_loc2id several layout loc) fun id => ?_
  refine safe_ite (safe_ok _) (safe_ite (safe_ok _) ?_)
  exact safe_bind (safe_readPlace several stSector loc) fun _ => safe_ok _

theorem halfLength_pos : 0 < header.halfLength :=
  Nat.mul_pos (Nat.succ_pos _) several

theorem kVecInWBuf_pos : 0 < header.kVecInWBuf :=
  Nat.mul_pos (Nat.succ_pos _) several

theorem safe_mergeLoc (skipsAllocated : Bool) (layout : Layout) (deleted : SlotId → Bool)
    (stSector : Nat) (state : MergeCounts) (loc : Nat) :
    DividesSafely (header.mergeLoc skipsAllocated layout deleted stSector state loc) := by
  unfold mergeLoc
  refine safe_bind (safe_loc2id several layout loc) fun id => ?_
  refine safe_ite (safe_ok _) (safe_ite (safe_ok _) ?_)
  refine safe_bind (safe_readPlace several stSector loc) fun read => ?_
  split
  · exact safe_crash
  · exact safe_bind (safe_remainder (kVecInWBuf_pos several)) fun _ =>
      safe_bind (safe_divide several) fun _ => safe_ok _

theorem safe_writeBack (state : MergeCounts) : DividesSafely (header.writeBack state) :=
  safe_bind (safe_remainder (kVecInWBuf_pos several)) fun _ =>
    safe_bind (safe_divide (halfLength_pos several)) fun _ =>
      safe_bind (safe_roundUpBy several) fun _ =>
        safe_bind (safe_divide several) fun _ => safe_ok _

theorem safe_mergeBatch (skipsAllocated : Bool) (layout : Layout) (deleted : SlotId → Bool)
    (stSector edSector : Nat) (state : MergeCounts) :
    DividesSafely (header.mergeBatch skipsAllocated layout deleted stSector edSector state) :=
  safe_bind (safe_forLocs (safe_mergeLoc several skipsAllocated layout deleted stSector) _ _ _ _)
    fun _ => safe_ite (safe_writeBack several _) (safe_ok _)

theorem safe_writeRest (fuel : Nat) (state : MergeCounts) :
    DividesSafely (header.writeRest fuel state) := by
  induction fuel generalizing state with
  | zero => exact safe_ok _
  | succ fuel inductionHypothesis =>
    exact safe_ite (safe_bind (safe_writeBack several state) inductionHypothesis) (safe_ok _)

theorem safe_fileSize (newNpoints : Nat) : DividesSafely (header.fileSize newNpoints) :=
  safe_bind (safe_roundUpBy several) fun _ => safe_bind (safe_divide several) fun _ => safe_ok _

theorem safe_mergeDeletes (layout : Layout) (deleted : SlotId → Bool) :
    DividesSafely (header.mergeDeletes layout deleted) := by
  unfold mergeDeletes
  refine safe_bind (safe_divide several) fun nSectors => ?_
  refine safe_bind (safe_forSectors (fun stSector _ => safe_forLocs
    (safe_populateLoc several true layout deleted stSector) _ _ _) _ _ _) fun populated => ?_
  refine safe_bind (safe_forSectors (safe_mergeBatch several true layout deleted) _ _ _)
    fun merged => ?_
  refine safe_bind (safe_writeRest several _ _) fun written => ?_
  refine safe_bind (safe_foldlM (fun current i => safe_setLoc2id several _ i _) _)
    fun newLayout => ?_
  exact safe_bind (safe_fileSize several _) fun _ => safe_ok _

theorem safe_mergeDeletesStreamPqTags (layout : Layout) (deleted : SlotId → Bool) :
    DividesSafely (header.mergeDeletesStreamPqTags layout deleted) := by
  unfold mergeDeletesStreamPqTags
  refine safe_bind (safe_divide several) fun nSectors => ?_
  refine safe_bind (safe_forSectors (fun stSector _ => safe_forLocs
    (safe_populateLoc several false layout deleted stSector) _ _ _) _ _ _) fun populated => ?_
  refine safe_bind (safe_fileSize several _) fun size => ?_
  refine safe_bind (safe_forSectors (safe_mergeBatch several false layout deleted) _ _ _)
    fun merged => ?_
  exact safe_bind (safe_writeRest several _ _) fun _ => safe_ok _

theorem safe_rebuildLoc (layout : Layout) (stSector : Nat) (places : List (Nat × Nat))
    (loc : Nat) : DividesSafely (header.rebuildLoc layout stSector places loc) :=
  safe_bind (safe_loc2id several layout loc) fun _ =>
    safe_ite (safe_ok _) (safe_bind (safe_readPlace several stSector loc) fun _ => safe_ok _)

theorem safe_rebuildGraphInPlace (layout : Layout) :
    DividesSafely (header.rebuildGraphInPlace layout) :=
  safe_bind (safe_divide several) fun _ =>
    safe_forSectors (fun stSector _ =>
      safe_forLocs (safe_rebuildLoc several layout stSector) _ _ _) _ _ _

theorem safe_mergeGraphOnly (layout : Layout) (curId : Nat) :
    DividesSafely (header.mergeGraphOnly layout curId) :=
  safe_bind (safe_fileSize several curId) fun _ =>
    safe_bind (safe_divide several) fun _ =>
      safe_bind (safe_forSectors (fun stSector _ =>
        safe_forLocs (safe_rebuildLoc several layout stSector) _ _ _) _ _ _) fun _ => safe_ok _

end Merging

end Several

/-! ### Sectors of several nodes -/

section Geometry

variable {header} (several : 0 < header.nnodesPerSector)

/-- What the other modules know about the sectors. -/
def geometry : Geometry := ⟨header.nnodesPerSector, several⟩

/-- A result that is missing after a crash. -/
def orCrash {Result : Type} (result : Option Result) : Except Fault Result :=
  result.elim (.error .crash) .ok

theorem locSectorNo_eq (loc : Nat) :
    header.locSectorNo loc = (geometry several).locSectorNo loc := by
  unfold locSectorNo Geometry.locSectorNo
  rw [if_pos several]
  rfl

theorem alignTail_eq (numPoints : Nat) :
    header.alignTail numPoints = .ok (Layout.alignedTail (geometry several) numPoints) := by
  unfold alignTail Layout.alignedTail
  rw [remainder_eq several]
  dsimp only [bind, Except.bind]
  by_cases rest : numPoints % header.nnodesPerSector ≠ 0
  · rw [if_pos rest]
    exact congrArg Except.ok (if_pos rest).symm
  · rw [if_neg rest]
    exact congrArg Except.ok (if_neg rest).symm

theorem loadPageLayout_eq (numPoints : Nat) :
    header.loadPageLayout none numPoints =
      .ok (Layout.loadIdentity (geometry several) numPoints) := by
  unfold loadPageLayout
  rw [alignTail_eq several, divide_eq several, locSectorNo_eq several]
  rfl

theorem loc2id_eq (layout : Layout) (loc : Nat) :
    header.loc2id layout loc = .ok (layout.loc2id (geometry several) loc) := by
  unfold loc2id Layout.loc2id
  rw [remainder_eq several, locSectorNo_eq several]
  cases layout.pageLayout ((geometry several).locSectorNo loc) <;> rfl

theorem setLoc2id_eq (layout : Layout) (loc : Nat) (id : SlotId) :
    header.setLoc2id layout loc id = .ok (layout.setLoc2id (geometry several) loc id) := by
  unfold setLoc2id
  rw [remainder_eq several, locSectorNo_eq several]
  rfl

theorem eraseLoc2id_eq (layout : Layout) (loc : Nat) :
    header.eraseLoc2id layout loc = .ok (layout.eraseLoc2id (geometry several) loc) := by
  unfold eraseLoc2id Layout.eraseLoc2id Layout.pageIsEmpty
  rw [remainder_eq several, locSectorNo_eq several]
  dsimp only [bind, Except.bind]
  cases layout.pageLayout ((geometry several).locSectorNo loc) with
  | none => rfl
  | some slots =>
    dsimp only
    by_cases empty : (List.range header.nnodesPerSector).all (fun slot =>
        Function.update slots (loc % header.nnodesPerSector) .kInvalidID slot = .kInvalidID) = true
    · rw [if_pos empty]
      exact congrArg (fun queue => Except.ok { layout with
        pageLayout := Function.update layout.pageLayout ((geometry several).locSectorNo loc)
          (some (Function.update slots (loc % header.nnodesPerSector) .kInvalidID))
        emptyPages := queue }) (if_pos empty).symm
    · rw [if_neg empty]
      exact congrArg (fun queue => Except.ok { layout with
        pageLayout := Function.update layout.pageLayout ((geometry several).locSectorNo loc)
          (some (Function.update slots (loc % header.nnodesPerSector) .kInvalidID))
        emptyPages := queue }) (if_neg empty).symm

theorem popEmptyPages_eq (remaining : Nat) (queue : List Nat) (layout : Layout) :
    header.popEmptyPages remaining queue layout =
      orCrash (Layout.popEmptyPages (geometry several) remaining queue layout) := by
  induction queue generalizing remaining layout with
  | nil => rfl
  | cons page queue inductionHypothesis =>
    have slotCount : (geometry several).nnodesPerSector = header.nnodesPerSector := rfl
    unfold popEmptyPages Layout.popEmptyPages
    rw [slotCount]
    cases layout.pageLayout page with
    | none => exact inductionHypothesis remaining layout
    | some slots =>
      dsimp only
      cases Layout.takeEmptyPage (List.range header.nnodesPerSector) remaining slots with
      | none => rfl
      | some result =>
        obtain ⟨marked, taken⟩ := result
        dsimp only
        split
        · rfl
        · rw [inductionHypothesis]
          cases Layout.popEmptyPages (geometry several) (remaining - taken.length) queue
            (layout.storePage page marked) <;> rfl

theorem useHintPages_eq (remaining : Nat) (hints : List Nat) (layout : Layout) :
    header.useHintPages remaining hints layout =
      Layout.useHintPages (geometry several) remaining hints layout := by
  induction hints generalizing remaining layout with
  | nil => rfl
  | cons page hints inductionHypothesis =>
    unfold useHintPages Layout.useHintPages
    simp only [inductionHypothesis]
    rfl

theorem reserveTail_eq (remaining : Nat) (layout : Layout) :
    header.reserveTail remaining layout =
      .ok (Layout.reserveTail (geometry several) remaining layout) := by
  have marks (locs : List Nat) (current : Layout) :
      locs.foldlM (fun current loc => header.setLoc2id current loc .kAllocatedID) current =
        .ok (locs.foldl (fun current loc =>
          current.setLoc2id (geometry several) loc .kAllocatedID) current) := by
    induction locs generalizing current with
    | nil => rfl
    | cons loc rest inductionHypothesis =>
      rw [List.foldlM_cons, setLoc2id_eq several, List.foldl_cons]
      exact inductionHypothesis _
  unfold reserveTail
  dsimp only
  rw [marks, alignTail_eq several]
  rfl

/-- The allocator is the one of the layout, whose crash is a fault here. -/
theorem allocLoc_eq (count : Nat) (hintPages : List Nat) (layout : Layout) :
    header.allocLoc count hintPages layout =
      orCrash (Layout.allocLoc (geometry several) count hintPages layout) := by
  unfold allocLoc Layout.allocLoc
  rw [popEmptyPages_eq several]
  cases Layout.popEmptyPages (geometry several) count layout.emptyPages layout with
  | none => rfl
  | some popped =>
    dsimp only [orCrash, Option.elim, bind, Except.bind]
    rw [useHintPages_eq several]
    split
    · rfl
    · split
      · rfl
      · rw [reserveTail_eq several]
        rfl

end Geometry

/-! ### All functions -/

/-- A load that ends the program has read a partition file for other sectors. -/
theorem load_crash {pqPoints : Option Nat} {partition' : Option PartitionFile}
    (several : 0 < header.nnodesPerSector)
    (crashed : header.load pqPoints partition' = .error .crash) :
    ∃ file : PartitionFile, partition' = some file ∧
      file.nodesPerPage ≠ header.nnodesPerSector := by
  unfold load at crashed
  split at crashed
  · cases crashed
  · split at crashed
    · cases crashed
    · rename_i numPoints
      split at crashed
      · cases crashed
      · cases partition' with
        | none =>
          rw [loadPageLayout_eq several] at crashed
          cases crashed
        | some file =>
          refine ⟨file, rfl, fun same => ?_⟩
          have right : ¬ (header.nnodesPerSector ≠ 0 ∧ numPoints ≠ 0 ∧
              file.nodesPerPage ≠ header.nnodesPerSector) := fun wrong => wrong.2.2 same
          unfold loadPageLayout at crashed
          dsimp only at crashed
          rw [if_neg right] at crashed
          cases crashed

theorem neverDividesByZero (several : 0 < header.nnodesPerSector) : header.NeverDividesByZero where
  load pqPoints partition' := ⟨safe_load several pqPoints partition', header.load_crash several⟩
  loadPageLayout := safe_loadPageLayout several
  loc2id := safe_loc2id several
  setLoc2id := safe_setLoc2id several
  eraseLoc2id := safe_eraseLoc2id several
  allocLoc := safe_allocLoc several
  reload := safe_reload several
  mergeDeletes := safe_mergeDeletes several
  mergeDeletesStreamPqTags := safe_mergeDeletesStreamPqTags several
  writeMetadataAndPq := safe_fileSize several
  rebuildGraphInPlace := safe_rebuildGraphInPlace several
  mergeGraphOnly := safe_mergeGraphOnly several

end DiskHeader

/-! ### Disk indexes -/

namespace DiskInput

variable {Component Tag : Type} {format : Format Component} {tagFormat : Format Tag}

/-- The functions of an index that `create_disk_layout` has written never divide by 0 exactly when
a node fits into a sector. -/
theorem neverDividesByZero_iff (input : DiskInput format tagFormat)
    (previousTags : Option Bytes) :
    ∃ files header fits, createDiskLayout format.width tagFormat.width input.memIndexFile
        input.baseFile input.tagFile previousTags = some files ∧
      loadHeader format.width files.index = some (header, fits) ∧
      (header.NeverDividesByZero ↔
        (input.width + 1) * 4 + input.ndims * format.width ≤ sectorLen) := by
  obtain ⟨tags, created⟩ := input.createDiskLayout_index previousTags
  refine ⟨_, input.header, _, created, input.loadHeader_diskIndex, ?_⟩
  have positive : 0 < (input.width + 1) * 4 + input.ndims * format.width := by omega
  constructor
  · intro never
    by_contra long
    have noneFits : input.header.nnodesPerSector = 0 :=
      Nat.div_eq_of_lt (by exact Nat.lt_of_not_le long)
    have trap : input.header.loc2id (Layout.mk (fun _ => none) (fun _ => none) [] 0) 0 =
        .error .division := by
      unfold DiskHeader.loc2id remainder
      rw [if_pos noneFits]
      rfl
    exact never.loc2id _ _ trap
  · intro short
    exact input.header.neverDividesByZero (Nat.div_pos short positive)

/-- Two vectors of 5000 bytes without a partition file: `load` divides by 0. -/
theorem longNodes_trap : ∃ files header fits,
    createDiskLayout 1 4 (pairOf 5000 (by decide) 5 7).memIndexFile
      (pairOf 5000 (by decide) 5 7).baseFile (pairOf 5000 (by decide) 5 7).tagFile none =
        some files ∧
    loadHeader 1 files.index = some (header, fits) ∧
    header.load (some 2) none = .error .division ∧ ¬ header.NeverDividesByZero := by
  obtain ⟨tags, created⟩ := (pairOf 5000 (by decide) 5 7).createDiskLayout_index none
  have trap : (pairOf 5000 (by decide) 5 7).header.load (some 2) none = .error .division := rfl
  exact ⟨_, (pairOf 5000 (by decide) 5 7).header, _, created,
    (pairOf 5000 (by decide) 5 7).loadHeader_diskIndex, trap,
    fun never => (never.load (some 2) none).1 trap⟩

end DiskInput

end OdinVector
