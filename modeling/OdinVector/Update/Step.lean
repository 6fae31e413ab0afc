/-
This file is the step function of the update path: what each operation and each
phase of `insert_in_place`, of the searches and of the background thread does to
the index. An exit of the process has no next state.

A step says which thread runs next and, where the source decides by distances
(the next frontier, the pruned neighbours, the next read of `pipe_search`), what
it decides. A search may visit any mapped id; the neighbours of a new point are
distinct ids that its search has expanded.
-/

import OdinVector.Update.State
import OdinVector.Transition

namespace OdinVector

variable {Point Code Distance : Type} [LinearOrder Distance]

/-- What a call asks for. -/
inductive Request (Point : Type)
  | insertInPlace (point : Point) (tag : Nat)
  | beamSearch
  | pageSearch
  | pipeSearch

/-- What a search decides between two rounds. -/
inductive Choice
  | go
  | frontier (ids : List Nat)
  | prune (nhood : List Nat)
  | send (id : Nat)
  | complete
  | finish

/-- A step of the system: a call starts, with whatever its query buffer holds, or a thread
goes on. -/
inductive Action (Point : Type)
  | call (number : Nat) (request : Request Point) (buffer : Nat → PageImage Point)
  | step (agent : Agent) (choice : Choice)

namespace IndexState

variable (params : IndexParams Point Code Distance)

/-- The state with another local state of a thread. -/
def setThread (state : IndexState Point Code) (agent : Agent) (thread : Thread Point) :
    IndexState Point Code :=
  { state with threads := Function.update state.threads agent thread }

/-- `id2page`. -/
def id2page (state : IndexState Point Code) (id : Nat) : Option Nat :=
  (state.layout.id2loc id).map params.geometry.locSectorNo

/-- The keys of `lock_page_idx`. -/
def pageKeys (state : IndexState Point Code) (ids : List Nat) : Option (List Nat) :=
  if params.usePageSearch then (ids.mapM (state.id2page params)).map sortUnique else some []

/-- The buffer that `page_buf_map` has for the page of a location. -/
def bufOf (thread : Thread Point) (loc : Nat) : Nat :=
  (thread.pageBufMap (params.geometry.locSectorNo loc)).getD 0

/-- The record at a location in the buffers. -/
def bufRecord (thread : Thread Point) (loc : Nat) : DiskNode Point :=
  thread.updateBuf (bufOf params thread loc) (params.geometry.slotOf loc)

/-- Write a record at a location in the buffers. -/
def editBuf (thread : Thread Point) (loc : Nat) (node : DiskNode Point) : Thread Point :=
  { thread with
    updateBuf := Function.update thread.updateBuf (bufOf params thread loc)
      (Function.update (thread.updateBuf (bufOf params thread loc))
        (params.geometry.slotOf loc) node) }

/-! ### Operations -/

/-- Try a lock. The operation stays pending when the lock is not free. -/
def tryLock (state : IndexState Point Code) (agent : Agent) (thread : Thread Point)
    (lock : LockKey) (mode : Mode) : IndexState Point Code :=
  match state.locks.tryLock lock mode with
  | some locks =>
    { state.setThread agent { thread with spinning := false } with
      locks := locks
      holders := ⟨agent, lock, mode⟩ :: state.holders }
  | none => state.setThread agent { state.threads agent with spinning := true }

/-- The record that `insert_in_place` writes for a neighbour: the list read from the buffers
with the target appended, pruned when it is longer than `range`. -/
def editedNeighbor (state : IndexState Point Code) (target id : Nat) (node : DiskNode Point) :
    DiskNode Point :=
  ⟨node.coords, boundedNhood params.prune
    (fun first second => params.codeDistance (state.data first) (state.data second)) id
    (node.nbrs ++ [target])⟩

/-- `id2loc_.insert_or_assign`, with the record that was written for the id. -/
def mapId (state : IndexState Point Code) (thread : Thread Point) (id loc : Nat) :
    IndexState Point Code :=
  { state with
    layout := { state.layout with id2loc := Function.update state.layout.id2loc id (some loc) }
    record := Function.update state.record id (bufRecord params thread loc) }

/-- The effect of an operation. The thread is given with the operation taken off. -/
def execute (state : IndexState Point Code) (agent : Agent) (thread : Thread Point) :
    Op Point → Option (IndexState Point Code)
  | .lock lock mode => some (state.tryLock agent thread lock mode)
  | .unlock lock => some
    { state.setThread agent thread with
      locks := state.locks.unlock lock
      holders := Holding.release state.holders agent lock }
  | .locate id => (state.layout.id2loc id).map fun loc =>
    state.setThread agent { thread with frontier := thread.frontier ++ [(id, loc)] }
  | .readFrontier => some <| state.setThread agent
    { thread with
      frontier := []
      expanded := thread.expanded ++ thread.frontier.map Prod.fst
      pageRef := thread.pageRef ++
        thread.frontier.map fun entry => params.geometry.locSectorNo entry.2 }
  | .snapshot id => (state.id2page params id).bind fun page =>
    (state.layout.pageLayout page).map fun slots =>
      state.setThread agent { thread with snapshots := thread.snapshots ++ [(id, page, slots)] }
  | .planNeighbor buf id => (state.id2page params id).map fun page =>
    state.setThread agent
      { thread with
        reads := thread.reads ++ [(page, buf)]
        pageBufMap := Function.update thread.pageBufMap page (some buf) }
  | .readPage page buf => some <| state.setThread agent
    { thread with updateBuf := Function.update thread.updateBuf buf (state.pages page) }
  | .writeTarget => (thread.locs[thread.newNhood.length]?).map fun loc =>
    { state.setThread agent (editBuf params thread loc ⟨thread.point, thread.newNhood⟩) with
      tags := Function.update state.tags thread.target (some thread.tag) }
  | .writeNeighbor id loc => (state.layout.id2loc id).bind fun current =>
    (thread.pageBufMap (params.geometry.locSectorNo current)).map fun _ =>
      state.setThread agent <| editBuf params thread loc <|
        state.editedNeighbor params thread.target id (bufRecord params thread current)
  | .putPage page buf => some
    { state.setThread agent thread with
      pages := Function.update state.pages page (thread.updateBuf buf) }
  | .remap id loc => (state.layout.id2loc id).map fun current =>
    (state.setThread agent { thread with origLocs := thread.origLocs ++ [current] }).mapId
      params thread id loc
  | .sendRead id => (state.layout.id2loc id).map fun _ =>
    state.setThread agent { thread with onFlight := thread.onFlight ++ [id] }
  | .writeDisk page image => some
    { state.setThread agent thread with disk := Function.update state.disk page image }

/-! ### Phases of `insert_in_place` -/

/-- A round of `do_beam_search`, or its end. -/
def beamStep (state : IndexState Point Code) (agent : Agent) (thread : Thread Point) :
    Choice → Option (IndexState Point Code)
  | .frontier ids => some <| state.setThread agent
    { thread with
      frontier := []
      pending := (sortUnique ids).map (fun id => .lock (.idx id) .rd) ++ ids.map .locate ++
        .readFrontier :: (sortUnique ids).map fun id => .unlock (.idx id) }
  | .prune nhood =>
    if thread.role = .insertInPlace ∧ nhood.Nodup ∧ ∀ id ∈ nhood, id ∈ thread.expanded then
      some <| state.setThread agent { thread with phase := .alloc, newNhood := nhood }
    else none
  | .finish =>
    if thread.role = .beamSearch then some (state.setThread agent { thread with phase := .finish })
    else none
  | _ => none

/-- `alloc_loc`, and the pages to lock. -/
def allocStep (state : IndexState Point Code) (agent : Agent) (thread : Thread Point) :
    Option (IndexState Point Code) :=
  (state.layout.allocLoc params.geometry (thread.newNhood.length + 1) thread.pageRef).map
    fun (layout, locs, needRead) =>
      let pages := sortUnique (locs.map params.geometry.locSectorNo)
      { state.setThread agent
          { thread with
            phase := .lockPages
            locs := locs
            pagesNeedToRead := needRead
            pagesLocked := pages
            pending := pages.map fun page => .lock (.page page) .wr } with
        layout := layout }

/-- `lock_vec`. -/
def lockVecStep (thread : Thread Point) : Thread Point :=
  { thread with
    phase := .lockVec
    pending := ((thread.newNhood ++ [thread.target]).insertionSort (· ≤ ·)).map
      fun id => .lock (.vec id) .wr }

/-- The loop over the neighbours that plans their reads. -/
def planStep (thread : Thread Point) : Thread Point :=
  { thread with
    phase := .plan
    pending := thread.newNhood.zipIdx.map fun entry => .planNeighbor entry.2 entry.1 }

/-- The pages to write with their buffers, which follow those of the neighbours. -/
def rmwPages (thread : Thread Point) : List (Nat × Nat) :=
  thread.pagesLocked.zipIdx thread.newNhood.length

/-- The loop over the pages to write, the coalescing loop, and the reads. -/
def readStep (thread : Thread Point) : Thread Point :=
  let reads := thread.reads ++
    (rmwPages thread).filter fun entry => entry.1 ∈ thread.pagesNeedToRead
  { thread with
    phase := .read
    reads := reads
    writes := coalesce (rmwPages thread)
    pageBufMap := (rmwPages thread).foldl
      (fun current entry => Function.update current entry.1 (some entry.2)) thread.pageBufMap
    pending := reads.map fun entry => .readPage entry.1 entry.2 }

/-- The records of the target and of the neighbours are written next. -/
def editStep (thread : Thread Point) : Thread Point :=
  { thread with
    phase := .edit
    pageRef := thread.pageRef ++ thread.reads.map Prod.fst
    pending := .writeTarget ::
      (thread.newNhood.zip thread.locs).map fun entry => .writeNeighbor entry.1 entry.2 }

/-- `wbc_write`. -/
def putStep (thread : Thread Point) : Thread Point :=
  { thread with
    phase := .put
    pending := (pagesOf thread.writes).map fun entry => .putPage entry.1 entry.2 }

/-- The target is mapped, then `lock_idx`. -/
def publishStep (state : IndexState Point Code) (agent : Agent) (thread : Thread Point) :
    Option (IndexState Point Code) :=
  (thread.locs[thread.newNhood.length]?).map fun loc =>
    let locked := sortUnique (thread.newNhood ++ [thread.target])
    (state.setThread agent
      { thread with
        phase := .lockIdx
        idxLocked := locked
        pending := locked.map fun id => .lock (.idx id) .wr }).mapId params thread thread.target loc

/-- `lock_page_idx`. -/
def lockPageIdxStep (state : IndexState Point Code) (agent : Agent) (thread : Thread Point) :
    Option (IndexState Point Code) :=
  (state.pageKeys params (thread.newNhood ++ [thread.target])).map fun locked =>
    state.setThread agent
      { thread with
        phase := .lockPageIdx
        pageLocked := locked
        pending := locked.map fun page => .lock (.pageIdx page) .wr }

/-- The loop that maps the neighbours to their new locations. -/
def remapStep (thread : Thread Point) : Thread Point :=
  { thread with
    phase := .remap
    pending := (thread.newNhood.zip thread.locs).map fun entry => .remap entry.1 entry.2 }

/-- `unlock_vec`: the target is given back first, and then every id of the vector. -/
def unlockVec (target : Nat) (ids : List Nat) : List (Op Point) :=
  .unlock (.vec target) :: ids.map fun id => .unlock (.vec id)

/-- `erase_and_set_loc` with the target pushed onto the neighbours, then the unlocks. -/
def commitStep (state : IndexState Point Code) (agent : Agent) (thread : Thread Point) :
    IndexState Point Code :=
  let ids := thread.newNhood ++ [thread.target]
  { state.setThread agent
      { thread with
        phase := .unlock
        newNhood := ids
        idxLocked := []
        pageLocked := []
        pending := thread.pageLocked.map (fun page => .unlock (.pageIdx page)) ++
          thread.idxLocked.map (fun id => .unlock (.idx id)) ++ unlockVec thread.target ids } with
    layout := state.layout.eraseAndSetLoc params.geometry thread.origLocs thread.locs ids }

/-- The operations of the background thread for the task of an insert. -/
def bgTask (thread : Thread Point) : List (Op Point) :=
  (pagesOf thread.writes).map (fun entry => .writeDisk entry.1 (thread.updateBuf entry.2)) ++
    thread.pagesLocked.map fun page => .unlock (.page page)

/-- The page locks of an agent pass to the background thread. -/
def handOver (agent : Agent) (holding : Holding Agent LockKey) : Holding Agent LockKey :=
  if holding.agent = agent ∧ holding.key.table = .pageLockTable then
    { holding with agent := .bgIoThread }
  else holding

/-- The task is pushed for the background thread, which runs its tasks in the order of the
queue. Without page references the insert gives the page locks back itself. -/
def handOffStep (state : IndexState Point Code) (agent : Agent) (thread : Thread Point) :
    IndexState Point Code :=
  if thread.pageRef = [] then
    state.setThread agent
      { thread with
        phase := .finish
        pending := thread.pagesLocked.map fun page => .unlock (.page page) }
  else
    let bg := state.threads .bgIoThread
    { (state.setThread agent { thread with phase := .finish }).setThread .bgIoThread
        { bg with pending := bg.pending ++ bgTask thread } with
      holders := state.holders.map (handOver agent) }

/-! ### Phases of the other searches -/

/-- `page_search` between two rounds. -/
def pageLoopStep (state : IndexState Point Code) (agent : Agent) (thread : Thread Point) :
    Choice → Option (IndexState Point Code)
  | .frontier ids => some <| state.setThread agent
    { thread with
      phase := .pageLock
      newNhood := ids
      snapshots := []
      idxLocked := sortUnique ids
      pending := (sortUnique ids).map fun id => .lock (.idx id) .rd }
  | .finish => some (state.setThread agent { thread with phase := .finish })
  | _ => none

/-- `page_search` with the idx locks: `lock_page_idx`, the layouts and the unlocks. -/
def pageLockStep (state : IndexState Point Code) (agent : Agent) (thread : Thread Point) :
    Option (IndexState Point Code) :=
  (state.pageKeys params thread.newNhood).map fun locked =>
    state.setThread agent
      { thread with
        phase := .pageLoop
        idxLocked := []
        pending := locked.map (fun page => .lock (.pageIdx page) .rd) ++
          thread.newNhood.map .snapshot ++
          (locked.map (fun page => .unlock (.pageIdx page)) ++
            thread.idxLocked.map fun id => .unlock (.idx id)) }

/-- `pipe_search`: the next read is sent while others are in flight, or the oldest one has
completed. A search that returns leaves the locks of the reads in flight. -/
def pipeLoopStep (state : IndexState Point Code) (agent : Agent) (thread : Thread Point) :
    Choice → Option (IndexState Point Code)
  | .send id => some <| state.setThread agent
    { thread with pending := [.lock (.idx id) .rd, .sendRead id] }
  | .complete =>
    match thread.onFlight with
    | [] => none
    | id :: later => some <| state.setThread agent
      { thread with onFlight := later, pending := [.unlock (.idx id)] }
  | .finish => some (state.setThread agent { thread with phase := .finish })
  | _ => none

/-! ### The system -/

/-- The step that ends a phase. -/
def advance (state : IndexState Point Code) (agent : Agent) (choice : Choice) :
    Option (IndexState Point Code) :=
  let thread := state.threads agent
  match thread.phase with
  | .writePq => some
    { state.setThread agent { thread with phase := .beam } with
      data := Function.update state.data thread.target (params.deflateVector thread.point) }
  | .beam => state.beamStep agent thread choice
  | .alloc => state.allocStep params agent thread
  | .lockPages => some (state.setThread agent (lockVecStep thread))
  | .lockVec => some (state.setThread agent (planStep thread))
  | .plan => some (state.setThread agent (readStep thread))
  | .read => some (state.setThread agent (editStep thread))
  | .edit => some (state.setThread agent (putStep thread))
  | .put => state.publishStep params agent thread
  | .lockIdx => state.lockPageIdxStep params agent thread
  | .lockPageIdx => some (state.setThread agent (remapStep thread))
  | .remap => some (state.commitStep params agent thread)
  | .unlock => some (state.handOffStep agent thread)
  | .pageLoop => state.pageLoopStep agent thread choice
  | .pageLock => state.pageLockStep params agent thread
  | .pipeLoop => state.pipeLoopStep agent thread choice
  | .finish => none

/-- The local state of a call that has just started. -/
def startThread (target : Nat) (buffer : Nat → PageImage Point) (idle : Thread Point) :
    Request Point → Thread Point
  | .insertInPlace point tag =>
    { role := .insertInPlace, phase := .writePq, target := target, point := point, tag := tag,
      updateBuf := buffer }
  | .beamSearch =>
    { role := .beamSearch, phase := .beam, point := idle.point, updateBuf := buffer }
  | .pageSearch =>
    { role := .pageSearch, phase := .pageLoop, point := idle.point, updateBuf := buffer }
  | .pipeSearch =>
    { role := .pipeSearch, phase := .pipeLoop, point := idle.point, updateBuf := buffer }

/-- A call starts. An insert takes the next id, `cur_id++`. -/
def start (state : IndexState Point Code) (number : Nat) (request : Request Point)
    (buffer : Nat → PageImage Point) : Option (IndexState Point Code) :=
  let idle := state.threads (.caller number)
  if idle.role = .idle then
    some { state.setThread (.caller number) (startThread state.curId buffer idle request) with
      curId := match request with
        | .insertInPlace _ _ => state.curId + 1
        | _ => state.curId }
  else none

/-- A step of the index. -/
def step (state : IndexState Point Code) : Action Point → Option (IndexState Point Code)
  | .call number request buffer => state.start number request buffer
  | .step agent choice =>
    match (state.threads agent).pending with
    | [] => state.advance params agent choice
    | op :: rest => state.execute params agent { state.threads agent with pending := rest } op

end IndexState

/-- The states from which calls start: no thread has work and no lock is held. -/
structure IndexState.Quiescent (state : IndexState Point Code) : Prop where
  callers : ∀ number, (state.threads (.caller number)).role = .idle ∧
    (state.threads (.caller number)).pending = [] ∧
    (state.threads (.caller number)).phase = .finish
  bgIo : (state.threads .bgIoThread).role = .bgIo ∧
    (state.threads .bgIoThread).pending = [] ∧ (state.threads .bgIoThread).phase = .finish
  spinning : ∀ agent, (state.threads agent).spinning = false
  locks : state.locks = fun _ => none
  holders : state.holders = []

theorem IndexState.Quiescent.finished {state : IndexState Point Code}
    (quiescent : state.Quiescent) (agent : Agent) : (state.threads agent).phase = .finish := by
  cases agent with
  | bgIoThread => exact quiescent.bgIo.2.2
  | caller number => exact (quiescent.callers number).2.2

/-- The system of all calls on an index. -/
def updateSystem (params : IndexParams Point Code Distance)
    (initial : IndexState Point Code → Prop) :
    Transition.System (IndexState Point Code) (Action Point) where
  initial := initial
  step := IndexState.step params

namespace IndexState

variable {params : IndexParams Point Code Distance} {state next : IndexState Point Code}

@[simp] theorem setThread_threads_self (state : IndexState Point Code) (agent : Agent)
    (thread : Thread Point) : (state.setThread agent thread).threads agent = thread := by
  show Function.update state.threads agent thread agent = thread
  exact Function.update_self _ _ _

theorem setThread_threads_other (state : IndexState Point Code) {agent other : Agent}
    (thread : Thread Point) (different : other ≠ agent) :
    (state.setThread agent thread).threads other = state.threads other := by
  show Function.update state.threads agent thread other = state.threads other
  exact Function.update_of_ne different _ _

/-- A call starts in a thread without work. -/
theorem start_cases {number : Nat} {request : Request Point} {buffer : Nat → PageImage Point} :
    state.start number request buffer = some next →
      (state.threads (.caller number)).role = .idle ∧
        { state.setThread (.caller number)
            (startThread state.curId buffer (state.threads (.caller number)) request) with
          curId := match request with
            | .insertInPlace _ _ => state.curId + 1
            | _ => state.curId } = next := by
  intro taken
  obtain ⟨idle, same⟩ := Option.ite_none_right_eq_some.mp taken
  exact ⟨idle, Option.some.inj same⟩

/-- A step is the start of a call, the next operation of a thread, or the end of a phase. -/
theorem step_cases {action : Action Point} (taken : state.step params action = some next) :
    (∃ number request buffer, action = .call number request buffer ∧
      state.start number request buffer = some next) ∨
    (∃ agent choice op rest, action = .step agent choice ∧
      (state.threads agent).pending = op :: rest ∧
      state.execute params agent { state.threads agent with pending := rest } op = some next) ∨
    (∃ agent choice, action = .step agent choice ∧ (state.threads agent).pending = [] ∧
      state.advance params agent choice = some next) := by
  cases action with
  | call number request buffer => exact .inl ⟨number, request, buffer, rfl, taken⟩
  | step agent choice =>
    rw [step] at taken
    split at taken
    · exact .inr (.inr ⟨agent, choice, rfl, ‹_›, taken⟩)
    · exact .inr (.inl ⟨agent, choice, _, _, rfl, ‹_›, taken⟩)

/-! ### The ends of the phases -/

/-- The steps that end a phase, one by one. -/
inductive Advances (params : IndexParams Point Code Distance) (state : IndexState Point Code)
    (agent : Agent) : Choice → IndexState Point Code → Prop
  | writePq {choice : Choice} (phase : (state.threads agent).phase = .writePq) :
      Advances params state agent choice
        { state.setThread agent { state.threads agent with phase := .beam } with
          data := Function.update state.data (state.threads agent).target
            (params.deflateVector (state.threads agent).point) }
  | beam {ids : List Nat} (phase : (state.threads agent).phase = .beam) :
      Advances params state agent (.frontier ids) (state.setThread agent
        { state.threads agent with
          frontier := []
          pending := (sortUnique ids).map (fun id => .lock (.idx id) .rd) ++ ids.map .locate ++
            .readFrontier :: (sortUnique ids).map fun id => .unlock (.idx id) })
  | prune {nhood : List Nat} (phase : (state.threads agent).phase = .beam)
      (allowed : (state.threads agent).role = .insertInPlace ∧ nhood.Nodup ∧
        ∀ id ∈ nhood, id ∈ (state.threads agent).expanded) :
      Advances params state agent (.prune nhood) (state.setThread agent
        { state.threads agent with phase := .alloc, newNhood := nhood })
  | beamFinish (phase : (state.threads agent).phase = .beam)
      (role : (state.threads agent).role = .beamSearch) :
      Advances params state agent .finish
        (state.setThread agent { state.threads agent with phase := .finish })
  | alloc {choice : Choice} {layout : Layout} {locs needRead : List Nat}
      (phase : (state.threads agent).phase = .alloc)
      (allocated : state.layout.allocLoc params.geometry
        ((state.threads agent).newNhood.length + 1) (state.threads agent).pageRef =
          some (layout, locs, needRead)) :
      Advances params state agent choice
        { state.setThread agent
            { state.threads agent with
              phase := .lockPages
              locs := locs
              pagesNeedToRead := needRead
              pagesLocked := sortUnique (locs.map params.geometry.locSectorNo)
              pending := (sortUnique (locs.map params.geometry.locSectorNo)).map
                fun page => .lock (.page page) .wr } with
          layout := layout }
  | lockPages {choice : Choice} (phase : (state.threads agent).phase = .lockPages) :
      Advances params state agent choice
        (state.setThread agent (lockVecStep (state.threads agent)))
  | lockVec {choice : Choice} (phase : (state.threads agent).phase = .lockVec) :
      Advances params state agent choice (state.setThread agent (planStep (state.threads agent)))
  | plan {choice : Choice} (phase : (state.threads agent).phase = .plan) :
      Advances params state agent choice (state.setThread agent (readStep (state.threads agent)))
  | read {choice : Choice} (phase : (state.threads agent).phase = .read) :
      Advances params state agent choice (state.setThread agent (editStep (state.threads agent)))
  | edit {choice : Choice} (phase : (state.threads agent).phase = .edit) :
      Advances params state agent choice (state.setThread agent (putStep (state.threads agent)))
  | put {choice : Choice} {loc : Nat} (phase : (state.threads agent).phase = .put)
      (last : (state.threads agent).locs[(state.threads agent).newNhood.length]? = some loc) :
      Advances params state agent choice ((state.setThread agent
        { state.threads agent with
          phase := .lockIdx
          idxLocked := sortUnique ((state.threads agent).newNhood ++ [(state.threads agent).target])
          pending := (sortUnique ((state.threads agent).newNhood ++
            [(state.threads agent).target])).map fun id => .lock (.idx id) .wr }).mapId params
              (state.threads agent) (state.threads agent).target loc)
  | lockIdx {choice : Choice} {locked : List Nat} (phase : (state.threads agent).phase = .lockIdx)
      (keys : state.pageKeys params
        ((state.threads agent).newNhood ++ [(state.threads agent).target]) = some locked) :
      Advances params state agent choice (state.setThread agent
        { state.threads agent with
          phase := .lockPageIdx
          pageLocked := locked
          pending := locked.map fun page => .lock (.pageIdx page) .wr })
  | lockPageIdx {choice : Choice} (phase : (state.threads agent).phase = .lockPageIdx) :
      Advances params state agent choice (state.setThread agent (remapStep (state.threads agent)))
  | remap {choice : Choice} (phase : (state.threads agent).phase = .remap) :
      Advances params state agent choice (state.commitStep params agent (state.threads agent))
  | giveBack {choice : Choice} (phase : (state.threads agent).phase = .unlock)
      (noPages : (state.threads agent).pageRef = []) :
      Advances params state agent choice (state.setThread agent
        { state.threads agent with
          phase := .finish
          pending := (state.threads agent).pagesLocked.map fun page => .unlock (.page page) })
  | handOff {choice : Choice} (phase : (state.threads agent).phase = .unlock)
      (pages : (state.threads agent).pageRef ≠ []) :
      Advances params state agent choice
        { (state.setThread agent { state.threads agent with phase := .finish }).setThread
            .bgIoThread
              { state.threads .bgIoThread with
                pending := (state.threads .bgIoThread).pending ++ bgTask (state.threads agent) } with
          holders := state.holders.map (handOver agent) }
  | pageLoop {ids : List Nat} (phase : (state.threads agent).phase = .pageLoop) :
      Advances params state agent (.frontier ids) (state.setThread agent
        { state.threads agent with
          phase := .pageLock
          newNhood := ids
          snapshots := []
          idxLocked := sortUnique ids
          pending := (sortUnique ids).map fun id => .lock (.idx id) .rd })
  | pageFinish (phase : (state.threads agent).phase = .pageLoop) :
      Advances params state agent .finish
        (state.setThread agent { state.threads agent with phase := .finish })
  | pageLock {choice : Choice} {locked : List Nat}
      (phase : (state.threads agent).phase = .pageLock)
      (keys : state.pageKeys params (state.threads agent).newNhood = some locked) :
      Advances params state agent choice (state.setThread agent
        { state.threads agent with
          phase := .pageLoop
          idxLocked := []
          pending := locked.map (fun page => .lock (.pageIdx page) .rd) ++
            (state.threads agent).newNhood.map .snapshot ++
            (locked.map (fun page => .unlock (.pageIdx page)) ++
              (state.threads agent).idxLocked.map fun id => .unlock (.idx id)) })
  | send {id : Nat} (phase : (state.threads agent).phase = .pipeLoop) :
      Advances params state agent (.send id) (state.setThread agent
        { state.threads agent with pending := [.lock (.idx id) .rd, .sendRead id] })
  | complete {id : Nat} {later : List Nat} (phase : (state.threads agent).phase = .pipeLoop)
      (flight : (state.threads agent).onFlight = id :: later) :
      Advances params state agent .complete (state.setThread agent
        { state.threads agent with onFlight := later, pending := [.unlock (.idx id)] })
  | pipeFinish (phase : (state.threads agent).phase = .pipeLoop) :
      Advances params state agent .finish
        (state.setThread agent { state.threads agent with phase := .finish })

section Advances

variable {agent : Agent} {choice : Choice}

omit [LinearOrder Distance] in
theorem advances_beam (phase : (state.threads agent).phase = .beam)
    (taken : state.beamStep agent (state.threads agent) choice = some next) :
    Advances params state agent choice next := by
  cases choice with
  | frontier ids =>
    obtain rfl := Option.some.inj taken
    exact .beam phase
  | prune nhood =>
    obtain ⟨allowed, same⟩ := Option.ite_none_right_eq_some.mp taken
    obtain rfl := Option.some.inj same
    exact .prune phase allowed
  | finish =>
    obtain ⟨role, same⟩ := Option.ite_none_right_eq_some.mp taken
    obtain rfl := Option.some.inj same
    exact .beamFinish phase role
  | go | send | complete => cases taken

omit [LinearOrder Distance] in
theorem advances_pageLoop (phase : (state.threads agent).phase = .pageLoop)
    (taken : state.pageLoopStep agent (state.threads agent) choice = some next) :
    Advances params state agent choice next := by
  cases choice with
  | frontier ids =>
    obtain rfl := Option.some.inj taken
    exact .pageLoop phase
  | finish =>
    obtain rfl := Option.some.inj taken
    exact .pageFinish phase
  | go | prune | send | complete => cases taken

omit [LinearOrder Distance] in
theorem advances_pipeLoop (phase : (state.threads agent).phase = .pipeLoop)
    (taken : state.pipeLoopStep agent (state.threads agent) choice = some next) :
    Advances params state agent choice next := by
  cases choice with
  | send id =>
    obtain rfl := Option.some.inj taken
    exact .send phase
  | complete =>
    simp only [pipeLoopStep] at taken
    split at taken
    · cases taken
    · rename_i id later flight
      obtain rfl := Option.some.inj taken
      exact .complete phase flight
  | finish =>
    obtain rfl := Option.some.inj taken
    exact .pipeFinish phase
  | go | frontier | prune => cases taken

omit [LinearOrder Distance] in
theorem advances_unlock (phase : (state.threads agent).phase = .unlock) :
    Advances params state agent choice (state.handOffStep agent (state.threads agent)) := by
  unfold handOffStep
  split
  · rename_i noPages
    exact .giveBack phase noPages
  · rename_i pages
    exact .handOff phase pages

omit [LinearOrder Distance] in
theorem advances (taken : state.advance params agent choice = some next) :
    Advances params state agent choice next := by
  unfold advance at taken
  cases phase : (state.threads agent).phase with
  | writePq =>
    simp only [phase, Option.some.injEq] at taken
    subst taken
    exact .writePq phase
  | beam =>
    simp only [phase] at taken
    exact advances_beam phase taken
  | alloc =>
    simp only [phase, allocStep, Option.map_eq_some_iff] at taken
    obtain ⟨⟨layout, locs, needRead⟩, allocated, rfl⟩ := taken
    exact .alloc phase allocated
  | lockPages =>
    simp only [phase, Option.some.injEq] at taken
    subst taken
    exact .lockPages phase
  | lockVec =>
    simp only [phase, Option.some.injEq] at taken
    subst taken
    exact .lockVec phase
  | plan =>
    simp only [phase, Option.some.injEq] at taken
    subst taken
    exact .plan phase
  | read =>
    simp only [phase, Option.some.injEq] at taken
    subst taken
    exact .read phase
  | edit =>
    simp only [phase, Option.some.injEq] at taken
    subst taken
    exact .edit phase
  | put =>
    simp only [phase, publishStep, Option.map_eq_some_iff] at taken
    obtain ⟨loc, last, rfl⟩ := taken
    exact .put phase last
  | lockIdx =>
    simp only [phase, lockPageIdxStep, Option.map_eq_some_iff] at taken
    obtain ⟨locked, keys, rfl⟩ := taken
    exact .lockIdx phase keys
  | lockPageIdx =>
    simp only [phase, Option.some.injEq] at taken
    subst taken
    exact .lockPageIdx phase
  | remap =>
    simp only [phase, Option.some.injEq] at taken
    subst taken
    exact .remap phase
  | unlock =>
    simp only [phase, Option.some.injEq] at taken
    subst taken
    exact advances_unlock phase
  | pageLoop =>
    simp only [phase] at taken
    exact advances_pageLoop phase taken
  | pageLock =>
    simp only [phase, pageLockStep, Option.map_eq_some_iff] at taken
    obtain ⟨locked, keys, rfl⟩ := taken
    exact .pageLock phase keys
  | pipeLoop =>
    simp only [phase] at taken
    exact advances_pipeLoop phase taken
  | finish =>
    simp only [phase] at taken
    cases taken

end Advances

end IndexState

end OdinVector
