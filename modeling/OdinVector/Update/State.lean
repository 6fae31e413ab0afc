/-
This file models the state that the update path and the searches of one
`SSDIndex` share, and the state of the calls in flight: `insert_in_place`,
`beam_search`, `page_search`, `pipe_search` and the background I/O thread.

A call is a thread of its own. It has a phase and a list of pending operations:
the operations run one at a time, each of them atomic in the source, and when
none is left the phase ends with the step that starts the next one.

`pages` is what a read of a page returns, the copy in `v2::cache` or else the one
on disk: a read is one step here. How the cache keeps the two apart has a file
of its own.
-/

import OdinVector.PageLayout
import OdinVector.LockTable
import OdinVector.Prune
import Mathlib.Data.List.Dedup
import Mathlib.Data.Prod.Lex

namespace OdinVector

/-- A record of the graph: `DiskNode`. -/
structure DiskNode (Point : Type) where
  coords : Point
  nbrs : List Nat
  deriving DecidableEq

/-- The records of a page by their place in it. -/
abbrev PageImage (Point : Type) := Nat → DiskNode Point

/-- The settings of an index. -/
structure IndexParams (Point Code Distance : Type) where
  geometry : Geometry
  prune : PruneParams Distance
  /-- `deflate_vector`. -/
  deflateVector : Point → Code
  /-- The distance between two PQ codes. -/
  codeDistance : Code → Code → Distance
  /-- `use_page_search_`. -/
  usePageSearch : Bool

/-! ### Locks -/

/-- The lock tables of an index. -/
inductive LockTableName
  | pageLockTable
  | vecLockTable
  | idxLockTable
  | pageIdxLockTable
  deriving DecidableEq

/-- A key of one of the lock tables. -/
structure LockKey where
  table : LockTableName
  key : Nat
  deriving DecidableEq

namespace LockKey

abbrev page (number : Nat) : LockKey := ⟨.pageLockTable, number⟩
abbrev vec (id : Nat) : LockKey := ⟨.vecLockTable, id⟩
abbrev idx (id : Nat) : LockKey := ⟨.idxLockTable, id⟩
abbrev pageIdx (number : Nat) : LockKey := ⟨.pageIdxLockTable, number⟩

end LockKey

/-- `std::sort` followed by `std::unique`, and the order of `std::set`. -/
def sortUnique (keys : List Nat) : List Nat := keys.dedup.insertionSort (· ≤ ·)

/-- Sorting distinct keys puts them in strictly ascending order. -/
theorem pairwise_lt_insertionSort {keys : List Nat} (distinct : keys.Nodup) :
    (keys.insertionSort (· ≤ ·)).Pairwise (· < ·) := by
  have sorted := List.pairwise_insertionSort (· ≤ ·) keys
  have nodup : (keys.insertionSort (· ≤ ·)).Nodup :=
    (List.perm_insertionSort (· ≤ ·) keys).nodup_iff.mpr distinct
  exact (sorted.and nodup).imp fun both => lt_of_le_of_ne both.1 both.2

theorem sortUnique_pairwise (keys : List Nat) : (sortUnique keys).Pairwise (· < ·) :=
  pairwise_lt_insertionSort (List.nodup_dedup keys)

theorem mem_sortUnique {keys : List Nat} {key : Nat} : key ∈ sortUnique keys ↔ key ∈ keys := by
  rw [sortUnique, List.mem_insertionSort, List.mem_dedup]

/-! ### Threads -/

/-- Who takes steps: the background I/O thread and the calls. -/
inductive Agent
  | bgIoThread
  | caller (number : Nat)
  deriving DecidableEq

/-- What a thread does. -/
inductive Role
  | idle
  | bgIo
  | insertInPlace
  | beamSearch
  | pageSearch
  | pipeSearch
  deriving DecidableEq

/-- Where a call is. The operations of a phase are pending; the phase ends when they are
done. -/
inductive Phase
  /-- Before the PQ code is written. -/
  | writePq
  /-- `do_beam_search`: a round over a frontier. -/
  | beam
  /-- Before `alloc_loc`. -/
  | alloc
  /-- `lockReqs` on the pages to write. -/
  | lockPages
  /-- `lock_vec`. -/
  | lockVec
  /-- The pages of the neighbours are looked up. -/
  | plan
  /-- `read_alloc`. -/
  | read
  /-- The records are written into the buffers. -/
  | edit
  /-- `wbc_write`. -/
  | put
  /-- `lock_idx`. -/
  | lockIdx
  /-- `lock_page_idx`. -/
  | lockPageIdx
  /-- The neighbours are mapped to their new locations. -/
  | remap
  /-- The locks other than those of the pages are given back. -/
  | unlock
  /-- `page_search` between two rounds, and the reads of a round. -/
  | pageLoop
  /-- `page_search`: `lock_idx` on the frontier. -/
  | pageLock
  /-- `pipe_search`. -/
  | pipeLoop
  /-- The call returns. -/
  | finish
  deriving DecidableEq

/-- An atomic operation of a thread. -/
inductive Op (Point : Type)
  | lock (lock : LockKey) (mode : Mode)
  | unlock (lock : LockKey)
  /-- `id2loc` of an id of the frontier. -/
  | locate (id : Nat)
  /-- The reads of a frontier. -/
  | readFrontier
  /-- The layout of the page of an id of the frontier. -/
  | snapshot (id : Nat)
  /-- The read of a neighbour's page is planned into the buffer at this place. -/
  | planNeighbor (buf id : Nat)
  | readPage (page buf : Nat)
  | writeTarget
  /-- The list of a neighbour is edited and its record written at a location. -/
  | writeNeighbor (id loc : Nat)
  /-- One page of `wbc_write`. -/
  | putPage (page buf : Nat)
  /-- `orig_locs.emplace_back` and `id2loc_.insert_or_assign`. -/
  | remap (id loc : Nat)
  /-- `send_read_req` after its lock is taken. -/
  | sendRead (id : Nat)
  /-- A page is written to disk by the background thread. -/
  | writeDisk (page : Nat) (image : PageImage Point)

/-- A write request of one or several contiguous pages, from consecutive buffers. -/
structure WriteReq where
  page : Nat
  count : Nat
  buf : Nat
  deriving DecidableEq

/-- The local state of a thread. -/
structure Thread (Point : Type) where
  role : Role
  phase : Phase := .finish
  pending : List (Op Point) := []
  /-- The last attempt at the pending lock failed. -/
  spinning : Bool := false
  /-- `target_id`. -/
  target : Nat := 0
  point : Point
  tag : Nat := 0
  /-- The pages of `update_buf`. -/
  updateBuf : Nat → PageImage Point
  /-- The ids of `exp_node_info`. -/
  expanded : List Nat := []
  /-- The ids of `frontier_nhoods` with their locations. -/
  frontier : List (Nat × Nat) := []
  pageRef : List Nat := []
  newNhood : List Nat := []
  locs : List Nat := []
  pagesNeedToRead : List Nat := []
  /-- `pages_locked`, which are the pages of `pages_to_rmw`. -/
  pagesLocked : List Nat := []
  pageBufMap : Nat → Option Nat := fun _ => none
  reads : List (Nat × Nat) := []
  writes : List WriteReq := []
  /-- `locked`. -/
  idxLocked : List Nat := []
  /-- `page_locked`. -/
  pageLocked : List Nat := []
  origLocs : List Nat := []
  /-- The layouts `page_search` has looked up, with the id and the page. -/
  snapshots : List (Nat × Nat × PageArr) := []
  /-- The ids of `on_flight_ios`. -/
  onFlight : List Nat := []

/-- The state of an index and of the calls on it. -/
structure IndexState (Point Code : Type) where
  layout : Layout
  /-- What a read of a page returns. -/
  pages : Nat → PageImage Point
  /-- The graph file. -/
  disk : Nat → PageImage Point
  /-- `data`: the PQ codes. -/
  data : Nat → Code
  tags : Nat → Option Nat
  curId : Nat
  /-- The four lock tables. -/
  locks : SparseLockTable LockKey
  /-- The acquisitions that have not been given back. -/
  holders : List (Holding Agent LockKey)
  /-- The record that the insert which last mapped an id wrote for it. -/
  record : Nat → DiskNode Point
  threads : Agent → Thread Point

/-! ### Coalescing contiguous writes -/

/-- Extend a run of contiguous pages as far as it goes. -/
def coalesceFrom : WriteReq → List (Nat × Nat) → List WriteReq
  | run, [] => [run]
  | run, (page, buf) :: rest =>
    if page = run.page + run.count then coalesceFrom { run with count := run.count + 1 } rest
    else run :: coalesceFrom ⟨page, 1, buf⟩ rest

/-- `writes` from `writes_4k`. -/
def coalesce : List (Nat × Nat) → List WriteReq
  | [] => []
  | (page, buf) :: rest => coalesceFrom ⟨page, 1, buf⟩ rest

/-- The pages of write requests with their buffers, in the order `wbc_write` puts them. -/
def pagesOf (writes : List WriteReq) : List (Nat × Nat) :=
  writes.flatMap fun write =>
    (List.range write.count).map fun offset => (write.page + offset, write.buf + offset)

/-- The pages of a run from consecutive buffers. -/
theorem pagesOf_coalesceFrom (run : WriteReq) (pages : List Nat) :
    pagesOf (coalesceFrom run (pages.zipIdx (run.buf + run.count))) =
      pagesOf [run] ++ pages.zipIdx (run.buf + run.count) := by
  induction pages generalizing run with
  | nil => simp [coalesceFrom]
  | cons page rest inductionHypothesis =>
    rw [List.zipIdx_cons, coalesceFrom]
    split
    · rename_i contiguous
      have extended := inductionHypothesis { run with count := run.count + 1 }
      simp only [← Nat.add_assoc] at extended
      rw [extended]
      simp [pagesOf, List.range_succ, contiguous]
    · have restarted := inductionHypothesis ⟨page, 1, run.buf + run.count⟩
      rw [pagesOf, List.flatMap_cons, ← pagesOf, restarted]
      simp [pagesOf]

/-- Coalescing changes neither the pages that are written nor their contents. -/
theorem pagesOf_coalesce (pages : List Nat) (first : Nat) :
    pagesOf (coalesce (pages.zipIdx first)) = pages.zipIdx first := by
  cases pages with
  | nil => rfl
  | cons page rest =>
    rw [List.zipIdx_cons, coalesce, pagesOf_coalesceFrom ⟨page, 1, first⟩]
    simp [pagesOf]

end OdinVector
