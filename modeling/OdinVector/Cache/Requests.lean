/-
This file models the calls on the page cache: `read_alloc` with its lookups, its
disk reads and its puts, `send_read_no_alloc`, `wbc_write`, `deref`, the
background I/O thread, and `flush_page_cache`, each split into its atomic steps.

What an insert writes into its buffers and which pages it reads and locks is
left to the action, and so is the order in which the reads of one request
complete. The locks here are those of `page_lock_table`, which an insert holds
from before its re-read until the background thread has written the page.

The model keeps what the source does not: the references with their holders, the
images that were written to each page in the order of the puts, and with every
copy of a page the number of the write it stems from.
-/

import OdinVector.Cache.PageCache
import OdinVector.Update.State
import OdinVector.Transition

namespace OdinVector

/-- An image of a page, with its number among the images of the page. -/
structure Copy (Image : Type) where
  image : Image
  version : Nat
  deriving DecidableEq

/-- The vectors that references are given back from. -/
inductive Holder
  /-- `page_ref` of a call, and the requests of its `read_alloc` on their way there. -/
  | pageRef (number : Nat)
  /-- `write_page_ref` of an insert. -/
  | writePageRef (number : Nat)
  /-- `pages_to_deref` of the tasks of the background thread. -/
  | pagesToDeref
  /-- The references of an insert that hands no task over. -/
  | nobody
  deriving DecidableEq

open PageCache (Reference)

/-- A request, with the number of images its page had when the call of the reader began. -/
structure ReadRequest where
  page : Nat
  since : Nat
  deriving DecidableEq

/-- One of `disk_read_reqs`, with what the disk read has returned. -/
structure DiskRead (Image : Type) where
  request : ReadRequest
  copy : Option (Copy Image)
  deriving DecidableEq

/-- Whether the reads of a call keep the pages in the cache: `read_alloc`. The searches that
do not run `do_beam_search` call `send_read_no_alloc`. -/
def Role.allocates : Role → Bool
  | .insertInPlace | .beamSearch => true
  | _ => false

/-- Where a call is between two requests. -/
inductive CallStage
  /-- `do_beam_search`, or the loop of another search. -/
  | search
  /-- `lockReqs`. -/
  | lock
  /-- The candidate pages are read again and their records edited. -/
  | edit
  /-- `wbc_write`. -/
  | put
  /-- `unlockReqs` of an insert without page references. -/
  | unlock
  /-- `deref` of `page_ref`. -/
  | finish
  deriving DecidableEq

/-- The local state of a call. -/
structure CacheThread (Image : Type) where
  role : Role := .idle
  stage : CallStage := .search
  /-- `read_reqs` of the `read_alloc` that runs. -/
  readReqs : List Nat := []
  /-- The requests that are not looked up yet. -/
  lookups : List ReadRequest := []
  /-- `disk_read_reqs`. -/
  diskReads : List (DiskRead Image) := []
  /-- What the last call of the reader has returned. -/
  results : List (ReadRequest × Copy Image) := []
  pageRef : List Nat := []
  /-- The pages that `lockReqs` has still to lock. -/
  unlocked : List Nat := []
  pagesLocked : List Nat := []
  /-- The pages that `wbc_write` has still to put. -/
  unwritten : List (Nat × Image) := []
  /-- The pages it has put. -/
  written : List (Nat × Copy Image) := []

namespace CacheThread

variable {Image : Type} (thread : CacheThread Image)

/-- No call of the reader runs. -/
def Settled : Prop := thread.lookups = [] ∧ thread.diskReads = [] ∧ thread.readReqs = []

instance : Decidable thread.Settled :=
  inferInstanceAs (Decidable (thread.lookups = [] ∧ thread.diskReads = [] ∧ _))

/-- The next put of `read_alloc`, when all the disk reads have completed. -/
def nextPut : Option (ReadRequest × Copy Image) :=
  match thread.role.allocates, thread.lookups, thread.diskReads with
  | true, [], ⟨request, some copy⟩ :: rest =>
    if ∀ other ∈ rest, other.copy.isSome then some (request, copy) else none
  | _, _, _ => none

theorem nextPut_cases {thread : CacheThread Image} {request : ReadRequest} {copy : Copy Image}
    (next : thread.nextPut = some (request, copy)) :
    thread.role.allocates = true ∧ thread.lookups = [] ∧
      ∃ rest, thread.diskReads = ⟨request, some copy⟩ :: rest := by
  unfold nextPut at next
  split at next
  · rename_i allocates looked reads
    split at next
    · obtain ⟨rfl, rfl⟩ := Prod.mk.inj (Option.some.inj next)
      exact ⟨allocates, looked, _, reads⟩
    · cases next
  · cases next

end CacheThread

/-- The operations of the tasks of the background thread. -/
inductive BgOp (Image : Type)
  | writeDisk (page : Nat) (copy : Copy Image)
  | unlock (page : Nat)
  | deref (page : Nat)

/-- The page cache, the graph file and the calls on them. -/
structure CacheState (Image : Type) where
  pages : PageCache (Copy Image)
  disk : Nat → Copy Image
  /-- The first image of each page on disk, and those of `wbc_write` since. -/
  images : Nat → List Image
  pageLocks : Nat → Option Agent
  refs : List (Reference Holder)
  threads : Nat → CacheThread Image
  /-- What is left of the tasks of the background thread, in the order it runs them. -/
  bgTasks : List (BgOp Image)
  /-- The inserts that hold `_merge_lock`. -/
  inserts : Nat
  /-- `flush_page_cache` has written the pages. -/
  flushing : Bool

/-- What a call does next. -/
inductive CacheStep (Image : Type)
  | call (role : Role)
  | read (pages : List Nat)
  | lookup
  | complete (place : Nat)
  | put
  | gather
  | lockPages (pages : List Nat)
  | lock
  | edit (image : Nat → Image)
  | write
  | handOff
  | unlock
  | finish
  | deref
  | leave

/-- A step of the system: a call, the background thread or `flush_page_cache` goes on. -/
inductive CacheAction (Image : Type)
  | step (number : Nat) (next : CacheStep Image)
  | bgIo
  | flush
  | clear

namespace CacheState

variable {Image : Type} (state : CacheState Image) (number : Nat)

/-- The state with another local state of a call. -/
def setThread (thread : CacheThread Image) : CacheState Image :=
  { state with threads := Function.update state.threads number thread }

/-! ### Calls of the reader -/

/-- A call starts. An insert needs `_merge_lock`, which a merge holds. -/
def call (role : Role) : Option (CacheState Image) :=
  if (state.threads number).role = .idle ∧ role ≠ .idle ∧ role ≠ .bgIo ∧
      (role = .insertInPlace → state.flushing = false) then
    some { state.setThread number { role := role } with
      inserts := if role = .insertInPlace then state.inserts + 1 else state.inserts }
  else none

/-- `read_alloc` or `send_read_no_alloc` is called: in a search, or with the page locks for
the candidate pages. -/
def read (pages : List Nat) : Option (CacheState Image) :=
  let thread := state.threads number
  if thread.role ≠ .idle ∧ thread.Settled ∧
      (thread.stage = .search ∨ thread.stage = .lock ∧ thread.unlocked = []) then
    some <| state.setThread number
      { thread with
        stage := if thread.stage = .lock then .edit else .search
        readReqs := if thread.role.allocates then pages else []
        lookups := pages.map fun page => ⟨page, (state.images page).length⟩
        results := [] }
  else none

/-- The next lookup. A miss is added to `disk_read_reqs`. -/
def lookup : Option (CacheState Image) :=
  let thread := state.threads number
  match thread.lookups with
  | [] => none
  | request :: rest =>
    match state.pages.get request.page thread.role.allocates with
    | some (pages, copy) => some
      { state.setThread number
          { thread with lookups := rest, results := (request, copy) :: thread.results } with
        pages := pages
        refs := if thread.role.allocates then ⟨.pageRef number, request.page⟩ :: state.refs
          else state.refs }
    | none => some <| state.setThread number
      { thread with lookups := rest, diskReads := thread.diskReads ++ [⟨request, none⟩] }

/-- A disk read completes. `send_read_no_alloc` is done with it. -/
def complete (place : Nat) : Option (CacheState Image) :=
  let thread := state.threads number
  match thread.lookups, thread.diskReads[place]? with
  | [], some ⟨request, none⟩ =>
    let copy := state.disk request.page
    some <| state.setThread number
      { thread with
        results := (request, copy) :: thread.results
        diskReads := if thread.role.allocates then thread.diskReads.set place ⟨request, some copy⟩
          else thread.diskReads.eraseIdx place }
  | _, _ => none

/-- The next put of `read_alloc`. -/
def put : Option (CacheState Image) :=
  let thread := state.threads number
  thread.nextPut.map fun (request, copy) =>
    { state.setThread number { thread with diskReads := thread.diskReads.tail } with
      pages := state.pages.put request.page copy true
      refs := ⟨.pageRef number, request.page⟩ :: state.refs }

/-- The requests are added to `page_ref`. -/
def gather : Option (CacheState Image) :=
  let thread := state.threads number
  if thread.lookups = [] ∧ thread.diskReads = [] ∧ thread.readReqs ≠ [] then
    some <| state.setThread number
      { thread with readReqs := [], pageRef := thread.pageRef ++ thread.readReqs }
  else none

/-! ### Inserts -/

/-- The search of an insert is over and its pages to write are known. -/
def lockPages (pages : List Nat) : Option (CacheState Image) :=
  let thread := state.threads number
  if thread.role = .insertInPlace ∧ thread.stage = .search ∧ thread.Settled then
    some <| state.setThread number
      { thread with stage := .lock, unlocked := sortUnique pages, pagesLocked := sortUnique pages }
  else none

/-- `lockReqs` takes its next lock when it is free. -/
def lock : Option (CacheState Image) :=
  let thread := state.threads number
  match thread.unlocked with
  | [] => none
  | page :: rest =>
    if thread.stage = .lock ∧ state.pageLocks page = none then
      some { state.setThread number { thread with unlocked := rest } with
        pageLocks := Function.update state.pageLocks page (some (.caller number)) }
    else none

/-- The buffers of the pages to write are filled. -/
def edit (image : Nat → Image) : Option (CacheState Image) :=
  let thread := state.threads number
  if thread.stage = .edit ∧ thread.Settled then
    some <| state.setThread number
      { thread with
        stage := .put
        unwritten := thread.pagesLocked.map fun page => (page, image page) }
  else none

/-- The next put of `wbc_write`. -/
def write : Option (CacheState Image) :=
  let thread := state.threads number
  match thread.unwritten with
  | [] => none
  | (page, image) :: rest =>
    if thread.stage = .put then
      let copy := ⟨image, (state.images page).length⟩
      some
        { state.setThread number
            { thread with unwritten := rest, written := thread.written ++ [(page, copy)] } with
          pages := state.pages.put page copy true
          images := Function.update state.images page (state.images page ++ [image])
          refs := ⟨.writePageRef number, page⟩ :: state.refs }
    else none

/-- The task of an insert: the writes, the unlocks and the derefs. -/
def bgTask (thread : CacheThread Image) : List (BgOp Image) :=
  thread.written.map (fun entry => .writeDisk entry.1 entry.2) ++
    thread.pagesLocked.map .unlock ++ thread.written.map fun entry => .deref entry.1

/-- The references of `write_page_ref` pass to another holder. -/
def pass (holder : Holder) (ref : Reference Holder) : Reference Holder :=
  { ref with holder := if ref.holder = .writePageRef number then holder else ref.holder }

/-- The page locks of an insert pass to the background thread. -/
def handOver (owner : Option Agent) : Option Agent :=
  if owner = some (.caller number) then some .bgIoThread else owner

/-- The task is pushed for the background thread. Without page references nothing is
pushed: the insert gives the page locks back, and nobody the references. -/
def handOff : Option (CacheState Image) :=
  let thread := state.threads number
  if thread.stage = .put ∧ thread.unwritten = [] then
    some <|
      if thread.pageRef = [] then
        { state.setThread number { thread with stage := .unlock, written := [] } with
          refs := state.refs.map (pass number .nobody) }
      else
        { state.setThread number
            { thread with stage := .finish, written := [], pagesLocked := [] } with
          bgTasks := state.bgTasks ++ bgTask thread
          pageLocks := fun page => handOver number (state.pageLocks page)
          refs := state.refs.map (pass number .pagesToDeref) }
  else none

/-- `unlockReqs`. -/
def unlock : Option (CacheState Image) :=
  let thread := state.threads number
  if thread.stage = .unlock then
    match thread.pagesLocked with
    | [] => some <| state.setThread number { thread with stage := .finish }
    | page :: rest => some
      { state.setThread number { thread with pagesLocked := rest } with
        pageLocks := Function.update state.pageLocks page none }
  else none

/-! ### The end of a call -/

/-- A search has expanded its last node. -/
def finish : Option (CacheState Image) :=
  let thread := state.threads number
  if thread.role ≠ .idle ∧ thread.role ≠ .insertInPlace ∧ thread.stage = .search ∧
      thread.Settled then
    some <| state.setThread number { thread with stage := .finish }
  else none

/-- `deref` of the next entry of `page_ref`. -/
def deref : Option (CacheState Image) :=
  let thread := state.threads number
  match thread.pageRef with
  | [] => none
  | page :: rest =>
    if thread.stage = .finish ∧ thread.Settled then
      some { state.setThread number { thread with pageRef := rest } with
        pages := state.pages.deref page
        refs := state.refs.erase ⟨.pageRef number, page⟩ }
    else none

/-- The call returns. An insert gives `_merge_lock` back. -/
def leave : Option (CacheState Image) :=
  let thread := state.threads number
  if thread.stage = .finish ∧ thread.Settled ∧ thread.pageRef = [] then
    some { state.setThread number {} with
      inserts := if thread.role = .insertInPlace then state.inserts - 1 else state.inserts }
  else none

/-- A step of a call. -/
def goOn : CacheStep Image → Option (CacheState Image)
  | .call role => state.call number role
  | .read pages => state.read number pages
  | .lookup => state.lookup number
  | .complete place => state.complete number place
  | .put => state.put number
  | .gather => state.gather number
  | .lockPages pages => state.lockPages number pages
  | .lock => state.lock number
  | .edit image => state.edit number image
  | .write => state.write number
  | .handOff => state.handOff number
  | .unlock => state.unlock number
  | .finish => state.finish number
  | .deref => state.deref number
  | .leave => state.leave number

/-! ### The background thread and the merge -/

/-- The next operation of the background thread. -/
def bgIo : Option (CacheState Image) :=
  match state.bgTasks with
  | [] => none
  | .writeDisk page copy :: rest => some
    { state with bgTasks := rest, disk := Function.update state.disk page copy }
  | .unlock page :: rest => some
    { state with bgTasks := rest, pageLocks := Function.update state.pageLocks page none }
  | .deref page :: rest => some
    { state with
      bgTasks := rest
      pages := state.pages.deref page
      refs := state.refs.erase ⟨.pagesToDeref, page⟩ }

/-- `flush_page_cache` writes the cached pages: with `_merge_lock`, and when the background
thread is done. -/
def flush : Option (CacheState Image) :=
  if state.inserts = 0 ∧ state.bgTasks = [] ∧ state.flushing = false then
    some { state with
      flushing := true
      disk := fun page => ((state.pages.cache page).map PageCacheItem.buf).getD (state.disk page) }
  else none

/-- The end of `flush_page_cache`: `cache.clear()`. -/
def clear : Option (CacheState Image) :=
  if state.flushing then some { state with flushing := false, pages := state.pages.clear }
  else none

/-- A step of the system. -/
def step : CacheAction Image → Option (CacheState Image)
  | .step number next => state.goOn number next
  | .bgIo => state.bgIo
  | .flush => state.flush
  | .clear => state.clear

/-- Nothing is cached, no call runs and no image was written. -/
def init (disk : Nat → Image) : CacheState Image where
  pages := PageCache.empty
  disk page := ⟨disk page, 0⟩
  images page := [disk page]
  pageLocks _ := none
  refs := []
  threads _ := {}
  bgTasks := []
  inserts := 0
  flushing := false

end CacheState

/-- The system of all calls on the page cache. -/
def cacheSystem (Image : Type) : Transition.System (CacheState Image) (CacheAction Image) where
  initial state := ∃ disk, state = CacheState.init disk
  step := CacheState.step

end OdinVector
