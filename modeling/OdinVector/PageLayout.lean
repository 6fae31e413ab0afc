/-
This file models the maps between ids and locations and the slot allocator of
`SSDIndex`: `page_layout`, `id2loc_`, the queue of empty pages and `cur_loc`,
with `loc2id`, `set_loc2id`, `erase_loc2id`, `erase_and_set_loc`, `alloc_loc`
and `load_page_layout`.

A slot holds a real id or one of the two sentinels, so the sentinels are
constructors and not the two largest 32-bit numbers. The slots of a page are a
function of the place in the page; only the places below `nnodes_per_sector`
are used.
-/

import OdinVector.Geometry
import Mathlib.Logic.Function.Basic
import Mathlib.Data.List.Nodup

namespace OdinVector

/-- What a slot of `page_layout` holds. -/
inductive SlotId
  /-- A hole. -/
  | kInvalidID
  /-- Handed out by `alloc_loc`, not yet mapped. -/
  | kAllocatedID
  /-- The record of this id. -/
  | real (id : Nat)
  deriving DecidableEq

/-- `PageArr`: the slots of one page. -/
abbrev PageArr := Nat → SlotId

/-- The id and location maps of an index, with the state of its allocator. -/
structure Layout where
  /-- `page_layout`: the slots of the pages that have been laid out. -/
  pageLayout : Nat → Option PageArr
  /-- `id2loc_`: the location of each mapped id. -/
  id2loc : Nat → Option Nat
  /-- `empty_pages`: pages whose slots were all given back, first in first out. -/
  emptyPages : List Nat
  /-- `cur_loc`: the first location never handed out. -/
  curLoc : Nat

/-! ### Reading and writing slots -/

namespace Layout

variable (geometry : Geometry)

/-- `loc2id`. -/
def loc2id (layout : Layout) (loc : Nat) : SlotId :=
  match layout.pageLayout (geometry.locSectorNo loc) with
  | some slots => slots (geometry.slotOf loc)
  | none => .kInvalidID

/-- `set_loc2id`: a page that is not laid out yet starts as holes. -/
def setLoc2id (layout : Layout) (loc : Nat) (id : SlotId) : Layout :=
  let page := geometry.locSectorNo loc
  let slots := (layout.pageLayout page).getD fun _ => .kInvalidID
  { layout with
    pageLayout := Function.update layout.pageLayout page
      (some (Function.update slots (geometry.slotOf loc) id)) }

/-- Every slot of the page is a hole. -/
def pageIsEmpty (slots : PageArr) : Bool :=
  (List.range geometry.nnodesPerSector).all fun slot => slots slot = .kInvalidID

/-- `erase_loc2id`: the page joins the queue when its last slot goes. On a page that is not
laid out the upsert runs no callback and inserts a zeroed array. -/
def eraseLoc2id (layout : Layout) (loc : Nat) : Layout :=
  let page := geometry.locSectorNo loc
  match layout.pageLayout page with
  | none =>
    { layout with pageLayout := Function.update layout.pageLayout page (some fun _ => .real 0) }
  | some slots =>
    let erased := Function.update slots (geometry.slotOf loc) .kInvalidID
    { layout with
      pageLayout := Function.update layout.pageLayout page (some erased)
      emptyPages :=
        if pageIsEmpty geometry erased then layout.emptyPages ++ [page] else layout.emptyPages }

/-- `erase_and_set_loc`, atomic under `alloc_lock`. -/
def eraseAndSetLoc (layout : Layout) (oldLocs newLocs newIds : List Nat) : Layout :=
  let set := (newLocs.zip newIds).foldl
    (fun current pair => current.setLoc2id geometry pair.1 (.real pair.2)) layout
  oldLocs.foldl (fun current loc => current.eraseLoc2id geometry loc) set

/-! ### Handing out slots -/

/-- The scan of one hint page in `alloc_loc`: mark holes in order until `remaining` slots are
found. The marked places are returned with the page. -/
def takeHoles : List Nat → Nat → PageArr → PageArr × List Nat
  | [], _, slots => (slots, [])
  | slot :: rest, remaining, slots =>
    if slots slot = .kInvalidID then
      let marked := Function.update slots slot .kAllocatedID
      if remaining = 1 then (marked, [slot])
      else
        let (final, taken) := takeHoles rest (remaining - 1) marked
        (final, slot :: taken)
    else takeHoles rest remaining slots

/-- The scan of one page of the empty-page queue in `alloc_loc`: `none` is the crash on a
slot that is not a hole. -/
def takeEmptyPage : List Nat → Nat → PageArr → Option (PageArr × List Nat)
  | [], _, slots => some (slots, [])
  | slot :: rest, remaining, slots =>
    if slots slot = .kInvalidID then
      let marked := Function.update slots slot .kAllocatedID
      if remaining = 1 then some (marked, [slot])
      else (takeEmptyPage rest (remaining - 1) marked).map fun result =>
        (result.1, slot :: result.2)
    else none

/-- Store a page and return the locations of some of its slots. -/
def storePage (layout : Layout) (page : Nat) (slots : PageArr) : Layout :=
  { layout with pageLayout := Function.update layout.pageLayout page (some slots) }

/-- The first loop of `alloc_loc`: pop pages of the queue and take their slots. -/
def popEmptyPages : Nat → List Nat → Layout → Option (Layout × List Nat)
  | _, [], layout => some ({ layout with emptyPages := [] }, [])
  | remaining, page :: queue, layout =>
    match layout.pageLayout page with
    | none => popEmptyPages remaining queue layout
    | some slots =>
      match takeEmptyPage (List.range geometry.nnodesPerSector) remaining slots with
      | none => none
      | some (marked, taken) =>
        let stored := layout.storePage page marked
        let locs := taken.map (geometry.sectorToLoc page)
        if taken.length = remaining then some ({ stored with emptyPages := queue }, locs)
        else (popEmptyPages (remaining - taken.length) queue stored).map fun result =>
          (result.1, locs ++ result.2)

/-- `kIndexSizeFactor`. -/
def kIndexSizeFactor : Nat := 2

/-- The number of holes from which on a hint page is used. -/
def threshold : Nat := (geometry.nnodesPerSector + kIndexSizeFactor - 1) / kIndexSizeFactor

/-- The number of holes of a page. -/
def holeCount (slots : PageArr) : Nat :=
  ((List.range geometry.nnodesPerSector).filter fun slot => slots slot = .kInvalidID).length

/-- The second loop of `alloc_loc`: take the holes of half-empty hint pages. The last
component is `page_need_to_read`. -/
def useHintPages : Nat → List Nat → Layout → Layout × List Nat × List Nat
  | _, [], layout => (layout, [], [])
  | remaining, page :: hints, layout =>
    match layout.pageLayout page with
    | none => useHintPages remaining hints layout
    | some slots =>
      if holeCount geometry slots < threshold geometry then useHintPages remaining hints layout
      else
        let read := if holeCount geometry slots < geometry.nnodesPerSector then [page] else []
        let (marked, taken) := takeHoles (List.range geometry.nnodesPerSector) remaining slots
        let stored := layout.storePage page marked
        let locs := taken.map (geometry.sectorToLoc page)
        if taken.length = remaining then (stored, locs, read)
        else
          let (final, moreLocs, moreRead) :=
            useHintPages (remaining - taken.length) hints stored
          (final, locs ++ moreLocs, read ++ moreRead)

/-- The last part of `alloc_loc`: fresh slots at the tail, which stays aligned. -/
def reserveTail (remaining : Nat) (layout : Layout) : Layout × List Nat :=
  let locs := (List.range remaining).map (layout.curLoc + ·)
  let marked := locs.foldl (fun current loc => current.setLoc2id geometry loc .kAllocatedID) layout
  let tail := layout.curLoc + remaining
  let aligned :=
    if tail % geometry.nnodesPerSector ≠ 0 then
      tail + (geometry.nnodesPerSector - tail % geometry.nnodesPerSector)
    else tail
  ({ marked with curLoc := aligned }, locs)

/-- `alloc_loc`, atomic under `alloc_lock`: the layout afterwards, the locations handed out
and the pages the caller has to read. `none` is the 'Page is not empty' crash. -/
def allocLoc (count : Nat) (hintPages : List Nat) (layout : Layout) :
    Option (Layout × List Nat × List Nat) :=
  match popEmptyPages geometry count layout.emptyPages layout with
  | none => none
  | some (popped, emptyLocs) =>
    if emptyLocs.length = count then some (popped, emptyLocs, [])
    else
      let (hinted, hintLocs, needRead) :=
        useHintPages geometry (count - emptyLocs.length) hintPages popped
      if emptyLocs.length + hintLocs.length = count then
        some (hinted, emptyLocs ++ hintLocs, needRead)
      else
        let (extended, freshLocs) :=
          reserveTail geometry (count - (emptyLocs.length + hintLocs.length)) hinted
        some (extended, emptyLocs ++ hintLocs ++ freshLocs, needRead)

/-! ### Loading -/

/-- The tail after `count` locations, rounded up to a full sector. -/
def alignedTail (count : Nat) : Nat :=
  if count % geometry.nnodesPerSector ≠ 0 then
    count + (geometry.nnodesPerSector - count % geometry.nnodesPerSector)
  else count

/-- `load_page_layout` without a partition file: location and id are equal. -/
def loadIdentity (numPoints : Nat) : Layout where
  pageLayout page :=
    let sectors := (numPoints + geometry.nnodesPerSector - 1) / geometry.nnodesPerSector
    if geometry.locSectorNo 0 ≤ page ∧ page < geometry.locSectorNo 0 + sectors then
      some fun slot =>
        let id := (page - geometry.locSectorNo 0) * geometry.nnodesPerSector + slot
        if slot < geometry.nnodesPerSector ∧ id < numPoints then .real id else .kInvalidID
    else none
  id2loc id := if id < numPoints then some id else none
  emptyPages := []
  curLoc := alignedTail geometry numPoints

/-- One page of a partition file: the number of entries that are ids, and the entries. -/
structure PartitionPage where
  used : Nat
  slots : PageArr

/-- `id2loc_.insert_or_assign(tmp_arr[j], loc)`. An entry that is no id is stored under the
sentinel's number in the source and never looked up. -/
def assignLoc (id2loc : Nat → Option Nat) (entry : SlotId) (loc : Nat) : Nat → Option Nat :=
  match entry with
  | .real id => Function.update id2loc id (some loc)
  | _ => id2loc

/-- `load_page_layout` from a partition file. -/
def loadPartition (pages : List PartitionPage) : Layout where
  pageLayout page :=
    if geometry.locSectorNo 0 ≤ page then
      (pages[page - geometry.locSectorNo 0]?).map PartitionPage.slots
    else none
  id2loc := pages.zipIdx.foldl (fun assigned entry =>
    (List.range entry.1.used).foldl (fun current slot =>
      assignLoc current (entry.1.slots slot) (entry.2 * geometry.nnodesPerSector + slot))
      assigned) fun _ => none
  emptyPages := []
  curLoc := pages.length * geometry.nnodesPerSector

end Layout

end OdinVector
