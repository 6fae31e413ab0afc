/-
This file says which phases a call of each kind goes through and which operations
are pending in a phase, and proves that every step keeps to it.
-/

import OdinVector.Update.Step

namespace OdinVector

variable {Point Code Distance : Type}

/-- The phases of a call. -/
def Role.visits : Role → Phase → Bool
  | .insertInPlace, phase => phase ≠ .pageLoop ∧ phase ≠ .pageLock ∧ phase ≠ .pipeLoop
  | .beamSearch, phase => phase = .beam ∨ phase = .finish
  | .pageSearch, phase => phase = .pageLoop ∨ phase = .pageLock ∨ phase = .finish
  | .pipeSearch, phase => phase = .pipeLoop ∨ phase = .finish
  | .idle, phase => phase = .finish
  | .bgIo, phase => phase = .finish

/-- The operations that are pending in a phase. -/
def Phase.Allows (phase : Phase) : Op Point → Prop
  | .lock lock mode =>
    match phase with
    | .beam | .pageLock | .pipeLoop => lock.table = .idxLockTable ∧ mode = .rd
    | .pageLoop => lock.table = .pageIdxLockTable ∧ mode = .rd
    | .lockPages => lock.table = .pageLockTable ∧ mode = .wr
    | .lockVec => lock.table = .vecLockTable ∧ mode = .wr
    | .lockIdx => lock.table = .idxLockTable ∧ mode = .wr
    | .lockPageIdx => lock.table = .pageIdxLockTable ∧ mode = .wr
    | _ => False
  | .unlock lock =>
    match phase with
    | .beam | .pipeLoop => lock.table = .idxLockTable
    | .pageLoop => lock.table = .idxLockTable ∨ lock.table = .pageIdxLockTable
    | .unlock => lock.table ≠ .pageLockTable
    | .finish => lock.table = .pageLockTable
    | _ => False
  | .locate _ | .readFrontier => phase = .beam
  | .snapshot _ => phase = .pageLoop
  | .planNeighbor _ _ => phase = .plan
  | .readPage _ _ => phase = .read
  | .writeTarget | .writeNeighbor _ _ => phase = .edit
  | .putPage _ _ => phase = .put
  | .remap _ _ => phase = .remap
  | .sendRead _ => phase = .pipeLoop
  | .writeDisk _ _ => phase = .finish

/-- A thread is in a phase of its call, with operations of that phase. -/
structure Thread.InPhase (thread : Thread Point) : Prop where
  visits : thread.role.visits thread.phase
  allows : ∀ op ∈ thread.pending, thread.phase.Allows op
  idle : thread.role = .idle → thread.pending = []

/-- Every thread is in a phase of its call, and only the background thread runs the
background role. -/
structure InPhases (threads : Agent → Thread Point) : Prop where
  inPhase : ∀ agent, (threads agent).InPhase
  background : ∀ agent, (threads agent).role = .bgIo ↔ agent = .bgIoThread

namespace InPhases

variable {threads : Agent → Thread Point} {agent : Agent} {thread : Thread Point}

theorem set (phases : InPhases threads) (inPhase : thread.InPhase)
    (role : thread.role = .bgIo ↔ (threads agent).role = .bgIo) :
    InPhases (Function.update threads agent thread) := by
  refine ⟨fun other => ?_, fun other => ?_⟩
  · by_cases same : other = agent
    · subst same
      rwa [Function.update_self]
    · rw [Function.update_of_ne same]
      exact phases.inPhase other
  · by_cases same : other = agent
    · subst same
      rw [Function.update_self, role]
      exact phases.background other
    · rw [Function.update_of_ne same]
      exact phases.background other

/-- A thread that is not idle goes on. -/
theorem update (phases : InPhases threads) (visits : thread.role.visits thread.phase)
    (allows : ∀ op ∈ thread.pending, thread.phase.Allows op)
    (running : (threads agent).pending ≠ [] ∨ (threads agent).phase ≠ .finish)
    (role : thread.role = (threads agent).role) :
    InPhases (Function.update threads agent thread) := by
  refine phases.set ⟨visits, allows, fun idle => ?_⟩ (by rw [role])
  have before := phases.inPhase agent
  rw [role] at idle
  have visited := before.visits
  rw [idle] at visited
  rcases running with pending | phase
  · exact absurd (before.idle idle) pending
  · exact absurd (by simpa [Role.visits] using visited) phase

/-- A thread with background work is in its last phase. -/
theorem phase_of_background (phases : InPhases threads) :
    (threads .bgIoThread).phase = .finish := by
  have visits := (phases.inPhase .bgIoThread).visits
  rw [(phases.background .bgIoThread).mpr rfl] at visits
  simpa [Role.visits] using visits

end InPhases

variable [LinearOrder Distance] {params : IndexParams Point Code Distance}
  {state next : IndexState Point Code} {agent : Agent}

theorem inPhases_execute (phases : InPhases state.threads) {op : Op Point}
    {rest : List (Op Point)} (pending : (state.threads agent).pending = op :: rest)
    (taken : state.execute params agent { state.threads agent with pending := rest } op =
      some next) : InPhases next.threads := by
  have visits := (phases.inPhase agent).visits
  have later : ∀ other ∈ rest, (state.threads agent).phase.Allows other :=
    fun other member => (phases.inPhase agent).allows other (by rw [pending]; exact .tail _ member)
  cases op with
  | lock lock mode =>
    simp only [IndexState.execute, IndexState.tryLock, Option.some.injEq] at taken
    split at taken
    · subst taken
      exact phases.update visits later (.inl (pending ▸ nofun)) rfl
    · subst taken
      exact phases.update visits (phases.inPhase agent).allows (.inl (pending ▸ nofun)) rfl
  | locate | planNeighbor | writeTarget | remap | sendRead =>
    simp only [IndexState.execute, Option.map_eq_some_iff] at taken
    obtain ⟨_, _, rfl⟩ := taken
    exact phases.update visits later (.inl (pending ▸ nofun)) rfl
  | snapshot | writeNeighbor =>
    simp only [IndexState.execute, Option.bind_eq_some_iff, Option.map_eq_some_iff] at taken
    obtain ⟨_, _, _, _, rfl⟩ := taken
    exact phases.update visits later (.inl (pending ▸ nofun)) rfl
  | unlock | readFrontier | readPage | putPage | writeDisk =>
    simp only [IndexState.execute, Option.some.injEq] at taken
    subst taken
    exact phases.update visits later (.inl (pending ▸ nofun)) rfl

/-- A thread that ends an insert phase belongs to an insert. -/
theorem Thread.InPhase.isInsert {thread : Thread Point} (inPhase : thread.InPhase)
    (phase : thread.phase ∉ [Phase.beam, .pageLoop, .pageLock, .pipeLoop, .finish]) :
    thread.role = .insertInPlace := by
  have visits := inPhase.visits
  cases role : thread.role <;> simp_all [Role.visits]

/-- The next phase of an insert. -/
theorem InPhases.advanceInsert {threads : Agent → Thread Point} {agent : Agent}
    {later : Thread Point} (phases : InPhases threads) (before next : Phase)
    (phase : (threads agent).phase = before) (next_eq : later.phase = next)
    (inserting : before ∉ [Phase.beam, .pageLoop, .pageLock, .pipeLoop, .finish])
    (allowed : next ∉ [Phase.pageLoop, .pageLock, .pipeLoop])
    (role : later.role = (threads agent).role)
    (allows : ∀ op ∈ later.pending, next.Allows op) :
    InPhases (Function.update threads agent later) := by
  have isInsert := (phases.inPhase agent).isInsert (by rwa [phase])
  refine phases.update ?_ (by rwa [next_eq]) (.inr fun finished => ?_) role
  · rw [role, isInsert, next_eq]
    simpa [Role.visits] using allowed
  · rw [phase] at finished
    subst finished
    exact inserting (by decide)

theorem inPhases_handOff (phases : InPhases state.threads)
    (pending : (state.threads agent).pending = [])
    (phase : (state.threads agent).phase = .unlock) :
    InPhases ((state.setThread agent { state.threads agent with phase := .finish }).setThread
      .bgIoThread
        { state.threads .bgIoThread with
          pending := (state.threads .bgIoThread).pending ++
            IndexState.bgTask (state.threads agent) }).threads := by
  have different : Agent.bgIoThread ≠ agent := by
    rintro rfl
    exact absurd (phases.phase_of_background.symm.trans phase) nofun
  have done : InPhases (Function.update state.threads agent
      { state.threads agent with phase := .finish }) := by
    refine phases.advanceInsert .unlock .finish phase rfl (by decide) (by decide) rfl ?_
    show ∀ op ∈ (state.threads agent).pending, _
    rw [pending]
    exact nofun
  refine done.set ⟨(phases.inPhase .bgIoThread).visits, ?_, ?_⟩ ?_
  · intro op member
    show (state.threads .bgIoThread).phase.Allows op
    rcases List.mem_append.mp member with old | new
    · exact (phases.inPhase .bgIoThread).allows op old
    · rw [phases.phase_of_background]
      rcases List.mem_append.mp new with write | unlock
      · obtain ⟨_, _, rfl⟩ := List.mem_map.mp write
        rfl
      · obtain ⟨_, _, rfl⟩ := List.mem_map.mp unlock
        rfl
  · intro idle
    have background : (state.threads .bgIoThread).role = .bgIo :=
      (phases.background .bgIoThread).mpr rfl
    exact nomatch background.symm.trans idle
  · rw [Function.update_of_ne different]

omit [LinearOrder Distance] in
theorem inPhases_advance (phases : InPhases state.threads) {choice : Choice}
    (pending : (state.threads agent).pending = [])
    (taken : state.advance params agent choice = some next) : InPhases next.threads := by
  have visits := (phases.inPhase agent).visits
  have nothing : ∀ op ∈ (state.threads agent).pending, ∀ phase : Phase, phase.Allows op := by
    rw [pending]
    exact nofun
  have pageSearch : (state.threads agent).phase = .pageLoop ∨
      (state.threads agent).phase = .pageLock → (state.threads agent).role = .pageSearch := by
    rintro (phase | phase)
    all_goals cases role : (state.threads agent).role <;> simp_all [Role.visits]
  have pipeSearch : (state.threads agent).phase = .pipeLoop →
      (state.threads agent).role = .pipeSearch := by
    intro phase
    cases role : (state.threads agent).role <;> simp_all [Role.visits]
  cases IndexState.advances taken with
  | writePq phase =>
    exact phases.advanceInsert .writePq .beam phase rfl (by decide) (by decide) rfl
      fun op member => nothing op member _
  | beam phase =>
    refine phases.update visits ?_ (.inr (phase ▸ nofun)) rfl
    simp [phase, Phase.Allows, or_imp, forall_and]
  | prune phase allowed =>
    refine phases.update ?_ (fun op member => nothing op member _)
      (.inr (phase ▸ nofun)) rfl
    rw [allowed.1]
    rfl
  | beamFinish phase role =>
    refine phases.update ?_ (fun op member => nothing op member _)
      (.inr (phase ▸ nofun)) rfl
    rw [role]
    rfl
  | alloc phase =>
    refine phases.advanceInsert .alloc .lockPages phase rfl (by decide) (by decide) rfl
      fun op member => ?_
    obtain ⟨_, _, rfl⟩ := List.mem_map.mp member
    exact ⟨rfl, rfl⟩
  | lockPages phase =>
    refine phases.advanceInsert .lockPages .lockVec phase rfl (by decide) (by decide) rfl
      fun op member => ?_
    obtain ⟨_, _, rfl⟩ := List.mem_map.mp member
    exact ⟨rfl, rfl⟩
  | lockVec phase =>
    refine phases.advanceInsert .lockVec .plan phase rfl (by decide) (by decide) rfl
      fun op member => ?_
    obtain ⟨_, _, rfl⟩ := List.mem_map.mp member
    rfl
  | plan phase =>
    refine phases.advanceInsert .plan .read phase rfl (by decide) (by decide) rfl
      fun op member => ?_
    obtain ⟨_, _, rfl⟩ := List.mem_map.mp member
    rfl
  | read phase =>
    refine phases.advanceInsert .read .edit phase rfl (by decide) (by decide) rfl
      fun op member => ?_
    rcases List.mem_cons.mp member with rfl | member
    · rfl
    · obtain ⟨_, _, rfl⟩ := List.mem_map.mp member
      rfl
  | edit phase =>
    refine phases.advanceInsert .edit .put phase rfl (by decide) (by decide) rfl
      fun op member => ?_
    obtain ⟨_, _, rfl⟩ := List.mem_map.mp member
    rfl
  | put phase =>
    refine phases.advanceInsert .put .lockIdx phase rfl (by decide) (by decide) rfl
      fun op member => ?_
    obtain ⟨_, _, rfl⟩ := List.mem_map.mp member
    exact ⟨rfl, rfl⟩
  | lockIdx phase =>
    refine phases.advanceInsert .lockIdx .lockPageIdx phase rfl (by decide) (by decide) rfl
      fun op member => ?_
    obtain ⟨_, _, rfl⟩ := List.mem_map.mp member
    exact ⟨rfl, rfl⟩
  | lockPageIdx phase =>
    refine phases.advanceInsert .lockPageIdx .remap phase rfl (by decide) (by decide) rfl
      fun op member => ?_
    obtain ⟨_, _, rfl⟩ := List.mem_map.mp member
    rfl
  | remap phase =>
    refine phases.advanceInsert .remap .unlock phase rfl (by decide) (by decide) rfl ?_
    simp [IndexState.unlockVec, Phase.Allows, or_imp, forall_and]
  | giveBack phase =>
    refine phases.advanceInsert .unlock .finish phase rfl (by decide) (by decide) rfl
      fun op member => ?_
    obtain ⟨_, _, rfl⟩ := List.mem_map.mp member
    rfl
  | handOff phase => exact inPhases_handOff phases pending phase
  | pageLoop phase =>
    refine phases.update (by rw [pageSearch (.inl phase)]; rfl) (fun op member => ?_)
      (.inr (phase ▸ nofun)) rfl
    obtain ⟨_, _, rfl⟩ := List.mem_map.mp member
    exact ⟨rfl, rfl⟩
  | pageFinish phase =>
    exact phases.update (by rw [pageSearch (.inl phase)]; rfl)
      (fun op member => nothing op member _) (.inr (phase ▸ nofun)) rfl
  | pageLock phase =>
    refine phases.update (by rw [pageSearch (.inr phase)]; rfl) ?_ (.inr (phase ▸ nofun)) rfl
    simp [Phase.Allows, or_imp, forall_and]
  | send phase | complete phase =>
    refine phases.update (by rw [pipeSearch phase, phase]; rfl) ?_ (.inr (phase ▸ nofun)) rfl
    simp [phase, Phase.Allows]
  | pipeFinish phase =>
    exact phases.update (by rw [pipeSearch phase]; rfl) (fun op member => nothing op member _)
      (.inr (phase ▸ nofun)) rfl

theorem inPhases_start (phases : InPhases state.threads) {number : Nat} {request : Request Point}
    {buffer : Nat → PageImage Point} (taken : state.start number request buffer = some next) :
    InPhases next.threads := by
  obtain ⟨idle, rfl⟩ := IndexState.start_cases taken
  refine phases.set ⟨?_, ?_, ?_⟩ ?_
  · cases request <;> rfl
  · have nothing : (IndexState.startThread state.curId buffer
        (state.threads (.caller number)) request).pending = [] := by
      cases request <;> rfl
    rw [nothing]
    exact nofun
  · cases request <;> exact nofun
  · rw [idle]
    cases request <;> exact ⟨nofun, nofun⟩

theorem inPhases_step (phases : InPhases state.threads) {action : Action Point}
    (taken : state.step params action = some next) : InPhases next.threads := by
  rcases IndexState.step_cases taken with ⟨_, _, _, _, started⟩ | ⟨_, _, _, _, _, pending, ran⟩ |
    ⟨_, _, _, pending, ended⟩
  · exact inPhases_start phases started
  · exact inPhases_execute phases pending ran
  · exact inPhases_advance phases pending ended

theorem IndexState.Quiescent.inPhases (quiescent : state.Quiescent) : InPhases state.threads := by
  refine ⟨fun agent => ?_, fun agent => ?_⟩
  · cases agent with
    | bgIoThread =>
      obtain ⟨role, pending, phase⟩ := quiescent.bgIo
      exact ⟨by rw [role, phase]; rfl, by rw [pending]; exact nofun, fun _ => pending⟩
    | caller number =>
      obtain ⟨role, pending, phase⟩ := quiescent.callers number
      exact ⟨by rw [role, phase]; rfl, by rw [pending]; exact nofun, fun _ => pending⟩
  · cases agent with
    | bgIoThread => simp [quiescent.bgIo.1]
    | caller number => simp [(quiescent.callers number).1]

end OdinVector
