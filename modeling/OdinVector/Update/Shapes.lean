/-
This file says what an operation does to the thread that runs it, and what is
still pending in the phases of an insert that the later proofs look into: the
neighbours left to map, and the unlocks left to do.
-/

import OdinVector.Update.Phases

namespace OdinVector

variable {Point Code Distance : Type}

/-- Two local states of one phase of one call. -/
structure Thread.SameCall (later thread : Thread Point) : Prop where
  role : later.role = thread.role
  phase : later.phase = thread.phase
  target : later.target = thread.target
  point : later.point = thread.point
  tag : later.tag = thread.tag
  newNhood : later.newNhood = thread.newNhood
  locs : later.locs = thread.locs
  pagesNeedToRead : later.pagesNeedToRead = thread.pagesNeedToRead
  pagesLocked : later.pagesLocked = thread.pagesLocked
  writes : later.writes = thread.writes
  idxLocked : later.idxLocked = thread.idxLocked
  pageLocked : later.pageLocked = thread.pageLocked

theorem Thread.SameCall.refl (thread : Thread Point) : thread.SameCall thread :=
  ⟨rfl, rfl, rfl, rfl, rfl, rfl, rfl, rfl, rfl, rfl, rfl, rfl⟩

section Execute

variable [LinearOrder Distance] {params : IndexParams Point Code Distance}
  {state next : IndexState Point Code} {agent : Agent} {rest : List (Op Point)} {op : Op Point}

/-- An operation changes only the thread that runs it, which stays in its phase. A lock that
is not free stays pending. -/
theorem execute_thread
    (taken : state.execute params agent { state.threads agent with pending := rest } op =
      some next) :
    ∃ later : Thread Point, next.threads = Function.update state.threads agent later ∧
      later.SameCall (state.threads agent) ∧
      (later.pending = rest ∧ (∀ lock mode, op = .lock lock mode →
          state.locks.tryLock lock mode = some next.locks) ∨ ∃ lock mode, op = .lock lock mode ∧
        later.pending = (state.threads agent).pending ∧ state.locks.tryLock lock mode = none ∧
        next.locks = state.locks ∧ next.holders = state.holders) := by
  cases op with
  | lock lock mode =>
    simp only [IndexState.execute, IndexState.tryLock, Option.some.injEq] at taken
    cases free : state.locks.tryLock lock mode with
    | some locks =>
      simp only [free] at taken
      subst taken
      refine ⟨_, rfl, ⟨rfl, rfl, rfl, rfl, rfl, rfl, rfl, rfl, rfl, rfl, rfl, rfl⟩,
        .inl ⟨rfl, fun _ _ equal => ?_⟩⟩
      cases equal
      exact free
    | none =>
      simp only [free] at taken
      subst taken
      exact ⟨_, rfl, ⟨rfl, rfl, rfl, rfl, rfl, rfl, rfl, rfl, rfl, rfl, rfl, rfl⟩,
        .inr ⟨lock, mode, rfl, rfl, free, rfl, rfl⟩⟩
  | locate | planNeighbor | writeTarget | remap | sendRead =>
    simp only [IndexState.execute, Option.map_eq_some_iff] at taken
    obtain ⟨_, _, rfl⟩ := taken
    exact ⟨_, rfl, ⟨rfl, rfl, rfl, rfl, rfl, rfl, rfl, rfl, rfl, rfl, rfl, rfl⟩,
      .inl ⟨rfl, (by intros; contradiction)⟩⟩
  | snapshot | writeNeighbor =>
    simp only [IndexState.execute, Option.bind_eq_some_iff, Option.map_eq_some_iff] at taken
    obtain ⟨_, _, _, _, rfl⟩ := taken
    exact ⟨_, rfl, ⟨rfl, rfl, rfl, rfl, rfl, rfl, rfl, rfl, rfl, rfl, rfl, rfl⟩,
      .inl ⟨rfl, (by intros; contradiction)⟩⟩
  | unlock | readFrontier | readPage | putPage | writeDisk =>
    simp only [IndexState.execute, Option.some.injEq] at taken
    subst taken
    exact ⟨_, rfl, ⟨rfl, rfl, rfl, rfl, rfl, rfl, rfl, rfl, rfl, rfl, rfl, rfl⟩,
      .inl ⟨rfl, (by intros; contradiction)⟩⟩

/-- An operation other than `remap` leaves the maps and the id counter. -/
theorem execute_layout (notRemap : ∀ id loc, op ≠ .remap id loc)
    (taken : state.execute params agent { state.threads agent with pending := rest } op =
      some next) :
    next.layout = state.layout ∧ next.curId = state.curId ∧ next.record = state.record ∧
      (next.threads agent).origLocs = (state.threads agent).origLocs := by
  cases op with
  | remap id loc => exact absurd rfl (notRemap id loc)
  | lock lock mode =>
    simp only [IndexState.execute, IndexState.tryLock, Option.some.injEq] at taken
    split at taken
    all_goals
      subst taken
      refine ⟨rfl, rfl, rfl, ?_⟩
      simp only [IndexState.setThread, Function.update_self]
  | locate | planNeighbor | writeTarget | sendRead =>
    simp only [IndexState.execute, Option.map_eq_some_iff] at taken
    obtain ⟨_, _, rfl⟩ := taken
    refine ⟨rfl, rfl, rfl, ?_⟩
    simp only [IndexState.setThread, Function.update_self, IndexState.editBuf]
  | snapshot | writeNeighbor =>
    simp only [IndexState.execute, Option.bind_eq_some_iff, Option.map_eq_some_iff] at taken
    obtain ⟨_, _, _, _, rfl⟩ := taken
    refine ⟨rfl, rfl, rfl, ?_⟩
    simp only [IndexState.setThread, Function.update_self, IndexState.editBuf]
  | unlock | readFrontier | readPage | putPage | writeDisk =>
    simp only [IndexState.execute, Option.some.injEq] at taken
    subst taken
    refine ⟨rfl, rfl, rfl, ?_⟩
    simp only [IndexState.setThread, Function.update_self]

/-- What an operation does to the lock tables. -/
theorem execute_locks
    (taken : state.execute params agent { state.threads agent with pending := rest } op =
      some next) :
    next.locks = state.locks ∧ next.holders = state.holders ∨
      (∃ lock mode, op = .lock lock mode ∧ state.locks.tryLock lock mode = some next.locks ∧
        next.holders = ⟨agent, lock, mode⟩ :: state.holders) ∨
      ∃ lock, op = .unlock lock ∧ next.locks = state.locks.unlock lock ∧
        next.holders = Holding.release state.holders agent lock := by
  cases op with
  | lock lock mode =>
    simp only [IndexState.execute, IndexState.tryLock, Option.some.injEq] at taken
    split at taken
    · subst taken
      exact .inr (.inl ⟨lock, mode, rfl, ‹_›, rfl⟩)
    · subst taken
      exact .inl ⟨rfl, rfl⟩
  | unlock lock =>
    simp only [IndexState.execute, Option.some.injEq] at taken
    subst taken
    exact .inr (.inr ⟨lock, rfl, rfl, rfl⟩)
  | locate | planNeighbor | writeTarget | remap | sendRead =>
    simp only [IndexState.execute, Option.map_eq_some_iff] at taken
    obtain ⟨_, _, rfl⟩ := taken
    exact .inl ⟨rfl, rfl⟩
  | snapshot | writeNeighbor =>
    simp only [IndexState.execute, Option.bind_eq_some_iff, Option.map_eq_some_iff] at taken
    obtain ⟨_, _, _, _, rfl⟩ := taken
    exact .inl ⟨rfl, rfl⟩
  | readFrontier | readPage | putPage | writeDisk =>
    simp only [IndexState.execute, Option.some.injEq] at taken
    subst taken
    exact .inl ⟨rfl, rfl⟩

end Execute

/-! ### What is pending in the later phases of an insert -/

/-- The unlocks before `unlock_vec` are not done, or all of `unlock_vec` is still to do. -/
def Thread.Unlocking (thread : Thread Point) : Prop :=
  ∃ others : List (Op Point),
    (∀ op ∈ others, ∃ lock : LockKey, op = .unlock lock ∧ lock.table ≠ .vecLockTable) ∧
      thread.pending = others ++ IndexState.unlockVec thread.target thread.newNhood

/-- The first unlock of `unlock_vec`, that of the target, is done. -/
def Thread.TargetFreed (thread : Thread Point) : Prop :=
  ∃ todo, todo <:+ thread.newNhood ∧ thread.pending = todo.map fun id => .unlock (.vec id)

/-- The phases in which an insert has slots and page locks. -/
def Phase.writes : Phase → Bool
  | .lockPages | .lockVec | .plan | .read | .edit | .put | .lockIdx | .lockPageIdx | .remap => true
  | _ => false

/-- The phases in which an insert has taken its idx locks or is taking them. -/
def Phase.maps : Phase → Bool
  | .lockIdx | .lockPageIdx | .remap => true
  | _ => false

/-- What is pending in a phase, and which locks it goes with. -/
structure Thread.Shape (params : IndexParams Point Code Distance) (thread : Thread Point) :
    Prop where
  pagesLocked : thread.phase.writes →
    thread.pagesLocked = sortUnique (thread.locs.map params.geometry.locSectorNo)
  idxLocked : thread.phase.maps →
    thread.idxLocked = sortUnique (thread.newNhood ++ [thread.target])
  moving : thread.phase = .remap →
    thread.pending = ((thread.newNhood.zip thread.locs).drop thread.origLocs.length).map
      fun entry => .remap entry.1 entry.2
  unmoved : thread.phase ≠ .remap → thread.phase ≠ .unlock → thread.phase ≠ .finish →
    thread.origLocs = []
  unlocking : thread.phase = .unlock → thread.Unlocking ∨ thread.TargetFreed

/-- An unlock keeps to the unlocks that are left. -/
theorem Thread.unlocking_step {thread later : Thread Point} {op : Op Point}
    {rest : List (Op Point)} (target : later.target = thread.target)
    (newNhood : later.newNhood = thread.newNhood) (pending : thread.pending = op :: rest)
    (left : later.pending = rest) (unlocking : thread.Unlocking ∨ thread.TargetFreed) :
    (∃ lock : LockKey, op = .unlock lock ∧ lock.table ≠ .vecLockTable ∧ thread.Unlocking ∧
        later.Unlocking) ∨
      (op = .unlock (.vec thread.target) ∧ thread.Unlocking ∧ later.TargetFreed) ∨
      ∃ id ∈ thread.newNhood, op = .unlock (.vec id) ∧ thread.TargetFreed ∧ later.TargetFreed := by
  rcases unlocking with ⟨others, away, shape⟩ | ⟨todo, suffix, shape⟩
  · cases others with
    | nil =>
      rw [pending, List.nil_append, IndexState.unlockVec, List.cons.injEq] at shape
      obtain ⟨rfl, rfl⟩ := shape
      exact .inr (.inl ⟨rfl, ⟨[], (by intros; contradiction), pending⟩, thread.newNhood,
        newNhood ▸ List.suffix_refl _, left⟩)
    | cons first others =>
      have whole := shape
      rw [pending, List.cons_append, List.cons.injEq] at shape
      obtain ⟨rfl, rfl⟩ := shape
      obtain ⟨lock, rfl, table⟩ := away _ List.mem_cons_self
      refine .inl ⟨lock, rfl, table, ⟨_, away, whole⟩, others,
        fun op member => away op (List.mem_cons_of_mem _ member), ?_⟩
      rw [left, target, newNhood]
  · cases todo with
    | nil => cases pending.symm.trans shape
    | cons id todo =>
      have whole := shape
      rw [pending, List.map_cons, List.cons.injEq] at shape
      obtain ⟨rfl, rfl⟩ := shape
      refine .inr (.inr ⟨id, suffix.subset List.mem_cons_self, rfl, ⟨_, suffix, whole⟩, todo, ?_,
        left⟩)
      exact newNhood ▸ (List.suffix_cons id todo).trans suffix

section Shape

variable [LinearOrder Distance] {params : IndexParams Point Code Distance}
  {state next : IndexState Point Code} {agent : Agent} {rest : List (Op Point)} {op : Op Point}

theorem shape_execute (phases : InPhases state.threads)
    (shape : (state.threads agent).Shape params)
    (pending : (state.threads agent).pending = op :: rest)
    (taken : state.execute params agent { state.threads agent with pending := rest } op =
      some next) : (next.threads agent).Shape params := by
  have allows : (state.threads agent).phase.Allows op :=
    (phases.inPhase agent).allows op (by rw [pending]; exact List.mem_cons_self)
  obtain ⟨later, threads, same, left⟩ := execute_thread taken
  have here : next.threads agent = later := by rw [threads, Function.update_self]
  rw [here]
  by_cases isRemap : ∃ id loc, op = .remap id loc
  · obtain ⟨id, loc, rfl⟩ := isRemap
    have phase : (state.threads agent).phase = .remap := allows
    have origLocs : ∃ current, later.origLocs = (state.threads agent).origLocs ++ [current] := by
      rw [← here]
      simp only [IndexState.execute, Option.map_eq_some_iff] at taken
      obtain ⟨current, _, rfl⟩ := taken
      refine ⟨current, ?_⟩
      simp only [IndexState.mapId, IndexState.setThread, Function.update_self]
    obtain ⟨current, origLocs⟩ := origLocs
    have popped : later.pending = rest := (left.resolve_right (by simp)).1
    refine ⟨?_, ?_, fun _ => ?_, ?_, ?_⟩
    · rw [same.phase, same.pagesLocked, same.locs]
      exact shape.pagesLocked
    · rw [same.phase, same.idxLocked, same.newNhood, same.target]
      exact shape.idxLocked
    · have before := shape.moving phase
      rw [pending] at before
      rw [popped, origLocs, same.newNhood, same.locs, List.length_append, List.length_singleton,
        ← List.tail_drop, List.map_tail, ← before, List.tail_cons]
    · rw [same.phase]
      exact fun other => absurd phase other
    · rw [same.phase, phase]
      rintro ⟨⟩
  · have notRemap : ∀ id loc, op ≠ .remap id loc := fun id loc equal => isRemap ⟨id, loc, equal⟩
    have origLocs : later.origLocs = (state.threads agent).origLocs :=
      here ▸ (execute_layout notRemap taken).2.2.2
    refine ⟨?_, ?_, fun phase => ?_, ?_, fun phase => ?_⟩
    · rw [same.phase, same.pagesLocked, same.locs]
      exact shape.pagesLocked
    · rw [same.phase, same.idxLocked, same.newNhood, same.target]
      exact shape.idxLocked
    · -- only `remap` is pending in this phase
      rw [same.phase] at phase
      have before := shape.moving phase
      rw [pending] at before
      have member : op ∈ ((((state.threads agent).newNhood.zip (state.threads agent).locs).drop
          (state.threads agent).origLocs.length).map fun entry => Op.remap entry.1 entry.2) :=
        before ▸ List.mem_cons_self
      obtain ⟨entry, _, equal⟩ := List.mem_map.mp member
      exact absurd equal.symm (notRemap _ _)
    · rw [same.phase, origLocs]
      exact shape.unmoved
    · rw [same.phase] at phase
      rw [phase] at allows
      have popped : later.pending = rest := by
        refine (left.resolve_right ?_).1
        rintro ⟨lock, mode, rfl, _⟩
        exact allows
      rcases Thread.unlocking_step same.target same.newNhood pending popped (shape.unlocking phase)
        with ⟨_, _, _, _, after⟩ | ⟨_, _, after⟩ | ⟨_, _, _, _, after⟩
      · exact .inl after
      · exact .inr after
      · exact .inr after

omit [LinearOrder Distance] in
/-- A phase that looks into nothing. -/
theorem Thread.Shape.plain {thread : Thread Point} (writes : thread.phase.writes = false)
    (maps : thread.phase.maps = false) (unlock : thread.phase ≠ .unlock)
    (unmoved : thread.phase ≠ .finish → thread.origLocs = []) : thread.Shape params := by
  refine ⟨fun held => ?_, fun held => ?_, fun phase => ?_, fun _ _ => unmoved,
    fun phase => absurd phase unlock⟩
  · rw [writes] at held
    cases held
  · rw [maps] at held
    cases held
  · rw [phase] at maps
    cases maps

omit [LinearOrder Distance] in
/-- The next phase in which the insert has the same slots. -/
theorem Thread.Shape.writing {thread later : Thread Point} (shape : thread.Shape params)
    (before : thread.phase.writes = true) (notRemap : thread.phase ≠ .remap)
    (notMaps : later.phase.maps = false) (notUnlock : later.phase ≠ .unlock)
    (pagesLocked : later.pagesLocked = thread.pagesLocked) (locs : later.locs = thread.locs)
    (origLocs : later.origLocs = thread.origLocs) : later.Shape params := by
  refine ⟨fun _ => ?_, fun held => ?_, fun phase => ?_, fun _ _ _ => ?_,
    fun phase => absurd phase notUnlock⟩
  · rw [pagesLocked, locs]
    exact shape.pagesLocked before
  · rw [notMaps] at held
    cases held
  · rw [phase] at notMaps
    cases notMaps
  · rw [origLocs]
    refine shape.unmoved notRemap ?_ ?_
    · intro phase
      rw [phase] at before
      cases before
    · intro phase
      rw [phase] at before
      cases before

omit [LinearOrder Distance] in
theorem shape_advance (shape : (state.threads agent).Shape params) {choice : Choice}
    (taken : state.advance params agent choice = some next) (notBackground : agent ≠ .bgIoThread) :
    (next.threads agent).Shape params := by
  have unmoved := shape.unmoved
  cases IndexState.advances taken with
  | writePq phase | prune phase | beamFinish phase | pageLoop phase | pageFinish phase
  | pageLock phase | pipeFinish phase =>
    simp only [phase] at unmoved
    dsimp only
    rw [IndexState.setThread_threads_self]
    exact .plain rfl rfl (fun equal => by cases equal) fun _ => unmoved (by decide) (by decide)
      (by decide)
  | beam phase | send phase | complete phase =>
    simp only [phase] at unmoved
    rw [IndexState.setThread_threads_self]
    exact .plain (by simp only [phase]; rfl) (by simp only [phase]; rfl)
      (by simp only [phase]; decide) fun _ => unmoved (by decide) (by decide) (by decide)
  | alloc phase =>
    simp only [phase] at unmoved
    dsimp only
    rw [IndexState.setThread_threads_self]
    exact ⟨fun _ => rfl, (fun equal => by cases equal), (fun equal => by cases equal),
      fun _ _ _ => unmoved (by decide) (by decide) (by decide), (fun equal => by cases equal)⟩
  | lockPages phase | lockVec phase | plan phase | read phase | edit phase =>
    rw [IndexState.setThread_threads_self]
    exact shape.writing (by rw [phase]; rfl) (by rw [phase]; decide) rfl
      (fun equal => by cases equal) rfl rfl rfl
  | lockPageIdx phase =>
    rw [IndexState.setThread_threads_self]
    refine ⟨fun _ => shape.pagesLocked (by rw [phase]; rfl),
      fun _ => shape.idxLocked (by rw [phase]; rfl), fun _ => ?_,
      fun other => absurd rfl other, fun equal => by cases equal⟩
    show _ = List.map _ (List.drop (state.threads agent).origLocs.length _)
    rw [unmoved (by rw [phase]; decide) (by rw [phase]; decide) (by rw [phase]; decide)]
    rfl
  | put phase =>
    simp only [phase] at unmoved
    exact ⟨fun _ => by simpa [IndexState.mapId] using shape.pagesLocked (by rw [phase]; rfl),
      fun _ => by simp [IndexState.mapId], by simp [IndexState.mapId],
      fun _ _ _ => by simpa [IndexState.mapId] using unmoved (by decide) (by decide) (by decide),
      by simp [IndexState.mapId]⟩
  | lockIdx phase =>
    simp only [phase] at unmoved
    rw [IndexState.setThread_threads_self]
    exact ⟨fun _ => shape.pagesLocked (by rw [phase]; rfl),
      fun _ => shape.idxLocked (by rw [phase]; rfl), (fun equal => by cases equal),
      fun _ _ _ => unmoved (by decide) (by decide) (by decide), (fun equal => by cases equal)⟩
  | remap =>
    rw [IndexState.commitStep]
    dsimp only
    rw [IndexState.setThread_threads_self]
    refine ⟨(fun equal => by cases equal), (fun equal => by cases equal),
      (fun equal => by cases equal), fun _ other => absurd rfl other, fun _ => .inl ⟨_, ?_, rfl⟩⟩
    intro op member
    rcases List.mem_append.mp member with pageIdx | idx
    · obtain ⟨page, _, rfl⟩ := List.mem_map.mp pageIdx
      exact ⟨_, rfl, (fun equal => by cases equal)⟩
    · obtain ⟨id, _, rfl⟩ := List.mem_map.mp idx
      exact ⟨_, rfl, (fun equal => by cases equal)⟩
  | giveBack =>
    rw [IndexState.setThread_threads_self]
    exact .plain rfl rfl (fun equal => by cases equal) fun other => absurd rfl other
  | handOff =>
    dsimp only
    rw [IndexState.setThread_threads_other _ _ notBackground, IndexState.setThread_threads_self]
    exact .plain rfl rfl (fun equal => by cases equal) fun other => absurd rfl other

omit [LinearOrder Distance] in
/-- The end of a phase concerns one thread, besides the task that an insert hands to the
background thread. -/
theorem advance_other {choice : Choice}
    (taken : state.advance params agent choice = some next) {other : Agent}
    (different : other ≠ agent) :
    next.threads other = state.threads other ∨
      (state.threads agent).phase = .unlock ∧ other = .bgIoThread ∧
        next.threads other = { state.threads other with
          pending := (state.threads other).pending ++ IndexState.bgTask (state.threads agent) } := by
  cases IndexState.advances taken with
  | handOff phase =>
    by_cases background : other = .bgIoThread
    · subst background
      exact .inr ⟨phase, rfl, by simp only [IndexState.setThread, Function.update_self]⟩
    · exact .inl ((Function.update_of_ne background _ _).trans
        (Function.update_of_ne different _ _))
  | _ => exact .inl (Function.update_of_ne different _ _)

/-- What the end of a phase leaves as it is. -/
structure AdvanceFrame (state next : IndexState Point Code) (agent : Agent) : Prop where
  role : (next.threads agent).role = (state.threads agent).role
  target : (next.threads agent).target = (state.threads agent).target
  point : (next.threads agent).point = (state.threads agent).point
  tag : (next.threads agent).tag = (state.threads agent).tag
  spinning : (next.threads agent).spinning = (state.threads agent).spinning
  expanded : (next.threads agent).expanded = (state.threads agent).expanded
  frontier : (next.threads agent).frontier = (state.threads agent).frontier ∨
    (next.threads agent).frontier = []
  curId : next.curId = state.curId
  pages : next.pages = state.pages
  disk : next.disk = state.disk
  tags : next.tags = state.tags
  locks : next.locks = state.locks
  holders : next.holders = state.holders ∨ (state.threads agent).phase = .unlock ∧
    next.holders = state.holders.map (IndexState.handOver agent)

omit [LinearOrder Distance] in
theorem AdvanceFrame.of_setThread {later : Thread Point}
    (threads : next.threads = Function.update state.threads agent later)
    (role : later.role = (state.threads agent).role)
    (target : later.target = (state.threads agent).target)
    (point : later.point = (state.threads agent).point)
    (tag : later.tag = (state.threads agent).tag)
    (spinning : later.spinning = (state.threads agent).spinning)
    (expanded : later.expanded = (state.threads agent).expanded)
    (frontier : later.frontier = (state.threads agent).frontier ∨ later.frontier = [])
    (curId : next.curId = state.curId) (pages : next.pages = state.pages)
    (disk : next.disk = state.disk) (tags : next.tags = state.tags)
    (locks : next.locks = state.locks) (holders : next.holders = state.holders) :
    AdvanceFrame state next agent := by
  refine ⟨?_, ?_, ?_, ?_, ?_, ?_, ?_, curId, pages, disk, tags, locks, .inl holders⟩
  all_goals rw [threads, Function.update_self]
  · exact role
  · exact target
  · exact point
  · exact tag
  · exact spinning
  · exact expanded
  · exact frontier

omit [LinearOrder Distance] in
theorem advance_frame {choice : Choice}
    (taken : state.advance params agent choice = some next) (notBackground : agent ≠ .bgIoThread) :
    AdvanceFrame state next agent := by
  cases IndexState.advances taken with
  | beam =>
    exact .of_setThread rfl rfl rfl rfl rfl rfl rfl (.inr rfl) rfl rfl rfl rfl rfl rfl
  | handOff phase =>
    constructor
    case holders => exact .inr ⟨phase, rfl⟩
    case frontier =>
      dsimp only
      rw [IndexState.setThread_threads_other _ _ notBackground, IndexState.setThread_threads_self]
      exact .inl rfl
    all_goals first
      | rfl
      | dsimp only
        rw [IndexState.setThread_threads_other _ _ notBackground,
          IndexState.setThread_threads_self]
  | _ => exact .of_setThread rfl rfl rfl rfl rfl rfl rfl (.inl rfl) rfl rfl rfl rfl rfl rfl

/-- The phases that may come after a phase. -/
def Phase.follows : Phase → List Phase
  | .writePq => [.beam]
  | .beam => [.beam, .alloc, .finish]
  | .alloc => [.lockPages]
  | .lockPages => [.lockVec]
  | .lockVec => [.plan]
  | .plan => [.read]
  | .read => [.edit]
  | .edit => [.put]
  | .put => [.lockIdx]
  | .lockIdx => [.lockPageIdx]
  | .lockPageIdx => [.remap]
  | .remap => [.unlock]
  | .unlock => [.finish]
  | .pageLoop => [.pageLock, .finish]
  | .pageLock => [.pageLoop]
  | .pipeLoop => [.pipeLoop, .finish]
  | .finish => []

omit [LinearOrder Distance] in
theorem advance_follows {choice : Choice}
    (taken : state.advance params agent choice = some next) (notBackground : agent ≠ .bgIoThread) :
    (next.threads agent).phase ∈ (state.threads agent).phase.follows := by
  cases IndexState.advances taken with
  | writePq phase | alloc phase =>
    dsimp only
    rw [phase, IndexState.setThread_threads_self]
    exact List.mem_cons_self
  | lockPages phase | lockVec phase | plan phase | read phase | edit phase | lockPageIdx phase
  | lockIdx phase | pageLock phase | giveBack phase =>
    rw [phase, IndexState.setThread_threads_self]
    exact List.mem_cons_self
  | beam phase | prune phase | beamFinish phase | pageLoop phase | pageFinish phase | send phase
  | complete phase | pipeFinish phase =>
    simp [Phase.follows, phase]
  | put phase =>
    rw [phase]
    simp [Phase.follows, IndexState.mapId, IndexState.setThread]
  | remap phase =>
    rw [phase]
    simp [Phase.follows, IndexState.commitStep, IndexState.setThread]
  | handOff phase =>
    dsimp only
    rw [phase, IndexState.setThread_threads_other _ _ notBackground,
      IndexState.setThread_threads_self]
    exact List.mem_cons_self

omit [LinearOrder Distance] in
theorem phase_of_advance {choice : Choice}
    (taken : state.advance params agent choice = some next) :
    (state.threads agent).phase ≠ .finish := by
  intro finished
  unfold IndexState.advance at taken
  simp only [finished] at taken
  cases taken

omit [LinearOrder Distance] in
/-- The start of a call concerns one thread. -/
theorem start_other {number : Nat} {request : Request Point} {buffer : Nat → PageImage Point}
    (taken : state.start number request buffer = some next) {other : Agent}
    (different : other ≠ .caller number) : next.threads other = state.threads other := by
  obtain ⟨_, rfl⟩ := IndexState.start_cases taken
  exact Function.update_of_ne different _ _

omit [LinearOrder Distance] in
theorem shape_start {number : Nat} {request : Request Point} {buffer : Nat → PageImage Point}
    (taken : state.start number request buffer = some next) :
    (next.threads (.caller number)).Shape params := by
  obtain ⟨_, rfl⟩ := IndexState.start_cases taken
  dsimp only
  rw [IndexState.setThread_threads_self]
  cases request <;> exact .plain rfl rfl nofun fun _ => rfl

/-- Every step keeps the shapes. -/
theorem shape_step (phases : InPhases state.threads)
    (shapes : ∀ agent, (state.threads agent).Shape params) {action : Action Point}
    (taken : state.step params action = some next) (agent : Agent) :
    (next.threads agent).Shape params := by
  rcases IndexState.step_cases taken with ⟨number, _, _, _, started⟩ |
    ⟨runner, _, _, _, _, pending, ran⟩ | ⟨runner, _, _, pending, ended⟩
  · by_cases same : agent = .caller number
    · exact same ▸ shape_start started
    · exact start_other started same ▸ shapes agent
  · by_cases same : agent = runner
    · exact same ▸ shape_execute phases (shapes runner) pending ran
    · obtain ⟨later, threads, _⟩ := execute_thread ran
      rw [threads, Function.update_of_ne same]
      exact shapes agent
  · by_cases same : agent = runner
    · subst same
      refine shape_advance (shapes agent) ended ?_
      rintro rfl
      exact phase_of_advance ended phases.phase_of_background
    · rcases advance_other ended same with kept | ⟨_, rfl, kept⟩
      · exact kept ▸ shapes agent
      · have finished := phases.phase_of_background
        rw [kept]
        exact .plain (by simp only [finished]; rfl) (by simp only [finished]; rfl)
          (by simp only [finished]; nofun) fun other => absurd finished other

end Shape

theorem IndexState.Quiescent.shapes {params : IndexParams Point Code Distance}
    {state : IndexState Point Code} (quiescent : state.Quiescent) (agent : Agent) :
    (state.threads agent).Shape params := by
  have finished := quiescent.finished agent
  exact .plain (by rw [finished]; rfl) (by rw [finished]; rfl) (by rw [finished]; nofun)
    fun other => absurd finished other

end OdinVector
