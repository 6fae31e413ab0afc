/-
This file proves that an insert that runs alone can go on until it has returned: it finds
every lock free and all that it looks up mapped, as long as its search visits mapped ids.
The pages that it reads and writes are no more than `update_buf` has.
-/

import OdinVector.Update.Alone
import OdinVector.Update.Waiting

namespace OdinVector

open IndexState (rmwPages bufOf)

variable {Point Code Distance : Type}

/-! ### The size of `update_buf` -/

/-- `MAX_N_EDGES`. -/
def maxNEdges : Nat := 512

/-- The pages of `update_buf`. -/
def updateBufPages : Nat := 2 * maxNEdges + 1

/-- The page of `update_buf` that an operation names. -/
def Op.buffer : Op Point → Option Nat
  | .planNeighbor buf _ | .readPage _ buf | .putPage _ buf => some buf
  | _ => none

section Buffers

variable [LinearOrder Distance] {params : IndexParams Point Code Distance}
  {state : IndexState Point Code} {agent : Agent}

omit [LinearOrder Distance] in
/-- An insert has a buffer for each neighbour and one for each page of its slots. -/
theorem rmwPages_lt (sound : Sound params state) (writes : (state.threads agent).phase.writes)
    {entry : Nat × Nat} (member : entry ∈ rmwPages (state.threads agent)) :
    entry.2 < 2 * (state.threads agent).newNhood.length + 1 := by
  have role := (sound.phases.inPhase agent).isInsert (by
    revert writes
    cases (state.threads agent).phase <;> decide)
  have slots := (sound.tracked.valid agent _ (Thread.reservation_eq role)).length (by
    revert writes
    cases (state.threads agent).phase <;> simp [Phase.writes, Phase.stage, Stage.Holds])
  have pages : (state.threads agent).pagesLocked.length ≤ (state.threads agent).locs.length := by
    rw [(sound.shapes agent).pagesLocked writes, sortUnique, List.length_insertionSort]
    exact (List.dedup_sublist _).length_le.trans (List.length_map _).le
  obtain ⟨above, present⟩ := mem_rmwPages.mp member
  have inside := (List.getElem?_eq_some_iff.mp present).1
  simp only at slots
  omega

omit [LinearOrder Distance] in
theorem buffer_lt (sound : Sound params state) (buffered : (state.threads agent).Buffered)
    {op : Op Point} (member : op ∈ (state.threads agent).pending) {buf : Nat}
    (names : op.buffer = some buf) : buf < 2 * (state.threads agent).newNhood.length + 1 := by
  have allows := (sound.phases.inPhase agent).allows op member
  cases op with
  | planNeighbor other id =>
    obtain rfl := Option.some.inj names
    exact (buffered.planning allows other id member).trans (by omega)
  | readPage page other =>
    obtain rfl := Option.some.inj names
    have phase : (state.threads agent).phase = .read := allows
    rcases buffered.fetching phase page other member with source | written
    · exact source.trans (by omega)
    · exact rmwPages_lt sound (by rw [phase]; rfl) written
  | putPage page other =>
    obtain rfl := Option.some.inj names
    have phase : (state.threads agent).phase = .put := allows
    exact rmwPages_lt sound (by rw [phase]; rfl) (buffered.putting phase page other member)
  | _ => cases names

variable {codes : (Nat → Code) → Prop}

/-- The records of the slots and those of the neighbours that have not been moved. -/
theorem bufOf_lt (undisturbed : Undisturbed params codes state)
    (phase : (state.threads agent).phase.buffered) {loc : Nat}
    (edited : loc ∈ (state.threads agent).locs ∨
      ∃ id ∈ (state.threads agent).newNhood.drop (state.threads agent).origLocs.length,
        state.layout.id2loc id = some loc) :
    bufOf params (state.threads agent) loc < 2 * (state.threads agent).newNhood.length + 1 := by
  have sound := undisturbed.sound
  have buffered := undisturbed.buffered agent
  have writes : (state.threads agent).phase.writes := by
    revert phase
    cases (state.threads agent).phase <;> decide
  by_cases locked : params.geometry.locSectorNo loc ∈ (state.threads agent).pagesLocked
  · obtain ⟨buf, entry⟩ := exists_buf locked
    rw [buffered.bufOf_eq phase entry]
    exact rmwPages_lt sound writes entry
  · rcases edited with slot | ⟨id, member, mapped⟩
    · refine absurd ?_ locked
      rw [(sound.shapes agent).pagesLocked writes, mem_sortUnique]
      exact List.mem_map_of_mem slot
    · obtain ⟨buf, inside, entry, _⟩ :=
        undisturbed.copies.fetched agent phase id member loc mapped locked
      rw [bufOf, entry, Option.getD_some]
      omega

/-- With fewer neighbours than `MAX_N_EDGES`, which the source asserts, an insert uses pages of
`update_buf` only. -/
theorem Undisturbed.in_updateBuf (undisturbed : Undisturbed params codes state)
    (asserted : (state.threads agent).newNhood.length < maxNEdges) :
    (∀ op ∈ (state.threads agent).pending, ∀ buf, op.buffer = some buf → buf < updateBufPages) ∧
      ((state.threads agent).phase.buffered → ∀ loc, (loc ∈ (state.threads agent).locs ∨
        ∃ id ∈ (state.threads agent).newNhood.drop (state.threads agent).origLocs.length,
          state.layout.id2loc id = some loc) →
        bufOf params (state.threads agent) loc < updateBufPages) := by
  have enough : 2 * (state.threads agent).newNhood.length + 1 ≤ updateBufPages :=
    Nat.succ_le_succ (Nat.mul_le_mul_left 2 asserted.le)
  exact ⟨fun op member buf names =>
      (buffer_lt undisturbed.sound (undisturbed.buffered agent) member names).trans_le enough,
    fun phase loc edited => (bufOf_lt undisturbed phase edited).trans_le enough⟩

end Buffers

/-! ### What an insert that runs alone finds -/

/-- A search visits ids that are mapped. -/
def VisitsMapped (state : IndexState Point Code) : Action Point → Prop
  | .step _ (.frontier ids) => ∀ id ∈ ids, state.layout.id2loc id ≠ none
  | _ => True

/-- An insert runs alone and has started its search: the background thread has nothing to do before
the insert has returned, and the ids that the insert is about to locate are mapped. -/
structure Unhindered [LinearOrder Distance] (params : IndexParams Point Code Distance)
    (first : IndexState Point Code) (number : Nat) (point : Point) (tag : Nat)
    (state : IndexState Point Code) : Prop where
  alone : RunsAlone params first number point tag state
  maps : MapsAlone params first number point state
  background : (state.threads (.caller number)).phase ≠ .finish →
    (state.threads .bgIoThread).pending = []
  located : ∀ id, .locate id ∈ (state.threads (.caller number)).pending →
    state.layout.id2loc id ≠ none

theorem follows_beam {phase : Phase} (follows : .beam ∈ phase.follows) :
    phase = .writePq ∨ phase = .beam := by
  revert follows
  cases phase <;> decide

section Unhindered

variable [LinearOrder Distance] {params : IndexParams Point Code Distance}
  {first state next : IndexState Point Code} {number : Nat} {point : Point} {tag : Nat}

theorem Unhindered.step (unhindered : Unhindered params first number point tag state)
    (fresh : first.WellFormed params) {action : Action Point} (own : action.OfInsert number)
    (expands : ExpandsFirst state action) (visits : VisitsMapped state action)
    (taken : state.step params action = some next) :
    Unhindered params first number point tag next := by
  have sound := unhindered.alone.undisturbed.sound
  refine ⟨unhindered.alone.step unhindered.maps fresh own expands taken,
    unhindered.maps.step unhindered.alone own taken, fun running => ?_, fun id located => ?_⟩
  · rcases step_alone sound own taken with ⟨op, rest, pending, ran⟩ | ⟨op, rest, pending, ran⟩ |
      ⟨choice, _, pending, ended⟩
    · rw [(background_frame sound pending ran).1 number] at running
      exact nomatch pending.symm.trans (unhindered.background running)
    · obtain ⟨later, threads, same, _⟩ := execute_thread ran
      rw [threads, Function.update_self, same.phase] at running
      rw [threads, Function.update_of_ne (by simp)]
      exact unhindered.background running
    · have different : Agent.bgIoThread ≠ .caller number := nofun
      rcases advance_other ended different with kept | ⟨phase, _, _⟩
      · rw [kept]
        exact unhindered.background (phase_of_advance ended)
      · have follows := advance_follows ended nofun
        rw [phase, Phase.follows, List.mem_singleton] at follows
        exact absurd follows running
  · rcases step_alone sound own taken with ⟨op, rest, pending, ran⟩ | ⟨op, rest, pending, ran⟩ |
      ⟨choice, isStep, pending, ended⟩
    · obtain ⟨threads, layout, _⟩ := background_frame sound pending ran
      rw [threads number] at located
      rw [layout]
      exact unhindered.located id located
    · obtain ⟨later, threads, _, popped⟩ := execute_thread ran
      rw [threads, Function.update_self] at located
      refine mapped_step sound taken (unhindered.located id ?_)
      rcases popped with ⟨left, _⟩ | ⟨_, _, _, still, _⟩
      · rw [pending]
        exact List.mem_cons_of_mem _ (left ▸ located)
      · rwa [still] at located
    · -- only a new frontier is located
      have searching : (next.threads (.caller number)).phase = .beam :=
        ((inPhases_step sound.phases taken).inPhase _).allows _ located
      have follows := advance_follows ended nofun
      rw [searching] at follows
      have phase := (follows_beam follows).resolve_left unhindered.alone.started
      subst isStep
      cases choice with
      | frontier ids =>
        simp only [IndexState.advance, phase, IndexState.beamStep, Option.some.injEq] at ended
        subst ended
        rw [IndexState.setThread_threads_self] at located
        exact visits id (by simpa using located)
      | prune nhood =>
        simp only [IndexState.advance, phase, IndexState.beamStep, Option.ite_none_right_eq_some,
          Option.some.injEq] at ended
        obtain ⟨_, rfl⟩ := ended
        rw [IndexState.setThread_threads_self] at searching
        cases searching
      | finish =>
        simp only [IndexState.advance, phase, IndexState.beamStep,
          Option.ite_none_right_eq_some] at ended
        cases unhindered.alone.role.symm.trans ended.1
      | _ => simp [IndexState.advance, phase, IndexState.beamStep] at ended

/-- Nobody else holds a lock before the insert has returned. -/
theorem Unhindered.heldBy_other (unhindered : Unhindered params first number point tag state)
    (fresh : first.WellFormed params)
    (running : (state.threads (.caller number)).phase ≠ .finish) {agent : Agent}
    (different : agent ≠ .caller number) : Holding.heldBy state.holders agent = [] := by
  have alone := unhindered.alone
  have sound := alone.undisturbed.sound
  cases agent with
  | bgIoThread =>
    refine heldBy_of_finished alone.accounted alone.undisturbed.kept
      sound.phases.phase_of_background (unhindered.background running) ?_
    rw [(sound.phases.background .bgIoThread).mpr rfl]
    nofun
  | caller other =>
    have idle := (alone.idle fresh fun same => different (congrArg Agent.caller same)).1
    exact sound.phases.heldBy_idle sound.keeps idle

/-- The insert finds every lock free: it does not hold the lock itself, since it takes its locks in
order. -/
theorem Unhindered.tryLock (unhindered : Unhindered params first number point tag state)
    (fresh : first.WellFormed params) {lock : LockKey} {mode : Mode} {rest : List (Op Point)}
    (pending : (state.threads (.caller number)).pending = .lock lock mode :: rest) :
    ∃ locks, state.locks.tryLock lock mode = some locks := by
  have sound := unhindered.alone.undisturbed.sound
  have running : (state.threads (.caller number)).phase ≠ .finish := by
    intro phase
    have allows := (sound.phases.inPhase (.caller number)).allows (.lock lock mode)
      (by rw [pending]; exact List.mem_cons_self)
    rw [phase] at allows
    exact allows
  have unheld : ∀ agent, lock ∉ Holding.heldBy state.holders agent := by
    intro agent held
    by_cases own : agent = .caller number
    · subst own
      have notPipe : (state.threads (.caller number)).role ≠ .pipeSearch := by
        rw [unhindered.alone.role]
        nofun
      exact (sound.keeps.level_lt notPipe (waitsFor_iff.mpr ⟨mode, rest, pending⟩) held).false
    · rw [unhindered.heldBy_other fresh running own] at held
      cases held
  have noModes : Holding.modesOf state.holders lock = [] := by
    rw [Holding.modesOf, List.map_eq_nil_iff, List.filter_eq_nil_iff]
    intro holding member isKey
    refine unheld holding.agent (Holding.mem_heldBy.mpr ⟨holding.mode, ?_⟩)
    rwa [← of_decide_eq_true isKey]
  have free : state.locks lock = none := by
    rw [unhindered.alone.undisturbed.entry_eq, noModes]
    exact SparseLockTable.entryOf_nil
  unfold SparseLockTable.tryLock
  rw [free]
  cases mode <;> exact ⟨_, rfl⟩

/-- The neighbours of the insert are mapped. -/
theorem RunsAlone.mapped (alone : RunsAlone params first number point tag state)
    (chosen : (state.threads (.caller number)).phase.stage ≠ .searching) {id : Nat}
    (member : id ∈ (state.threads (.caller number)).newNhood) : state.layout.id2loc id ≠ none :=
  (alone.undisturbed.sound.tracked.valid _ _ (Thread.reservation_eq alone.role)).known chosen id
    member

/-- The insert has a slot for its target. -/
theorem RunsAlone.targetSlot (alone : RunsAlone params first number point tag state)
    (holds : (state.threads (.caller number)).phase.stage.Holds) :
    ∃ loc, (state.threads (.caller number)).locs[
      (state.threads (.caller number)).newNhood.length]? = some loc := by
  have length := (alone.undisturbed.sound.tracked.valid _ _
    (Thread.reservation_eq alone.role)).length holds
  exact ⟨_, List.getElem?_eq_getElem (length.symm ▸ Nat.lt_succ_self _)⟩

/-- The page of a neighbour that is edited has a buffer. -/
theorem Unhindered.hasBuffer (unhindered : Unhindered params first number point tag state)
    (phase : (state.threads (.caller number)).phase = .edit) {id current : Nat}
    (member : id ∈ (state.threads (.caller number)).newNhood)
    (mapped : state.layout.id2loc id = some current) :
    ∃ buf, (state.threads (.caller number)).pageBufMap (params.geometry.locSectorNo current) =
      some buf := by
  have undisturbed := unhindered.alone.undisturbed
  have buffered : (state.threads (.caller number)).phase.buffered := by
    rw [phase]
    rfl
  by_cases locked :
      params.geometry.locSectorNo current ∈ (state.threads (.caller number)).pagesLocked
  · obtain ⟨buf, entry⟩ := exists_buf locked
    exact ⟨buf, (undisturbed.buffered _).bufMap buffered _ entry⟩
  · have unmoved := (undisturbed.sound.shapes (.caller number)).unmoved (by rw [phase]; nofun)
      (by rw [phase]; nofun) (by rw [phase]; nofun)
    obtain ⟨buf, _, entry, _⟩ := undisturbed.copies.fetched _ buffered id
      (by rw [unmoved]; exact member) current mapped locked
    exact ⟨buf, entry⟩

/-- The next operation of the insert has what it needs. -/
theorem Unhindered.executes (unhindered : Unhindered params first number point tag state)
    {op : Op Point} {rest : List (Op Point)}
    (pending : (state.threads (.caller number)).pending = op :: rest) :
    ∃ next, state.execute params (.caller number)
      { state.threads (.caller number) with pending := rest } op = some next := by
  have alone := unhindered.alone
  have sound := alone.undisturbed.sound
  have head : op ∈ (state.threads (.caller number)).pending := by
    rw [pending]
    exact List.mem_cons_self
  have allows := (sound.phases.inPhase (.caller number)).allows op head
  have visits := (sound.phases.inPhase (.caller number)).visits
  rw [alone.role] at visits
  rw [← Option.isSome_iff_exists]
  cases op with
  | lock | unlock | readFrontier | readPage | putPage | writeDisk => rfl
  | locate id =>
    obtain ⟨loc, mapped⟩ := Option.ne_none_iff_exists'.mp (unhindered.located id head)
    simp only [IndexState.execute, mapped, Option.map_some, Option.isSome_some]
  | snapshot id =>
    rw [show (state.threads (.caller number)).phase = .pageLoop from allows] at visits
    cases visits
  | sendRead id =>
    rw [show (state.threads (.caller number)).phase = .pipeLoop from allows] at visits
    cases visits
  | planNeighbor buf id =>
    have phase : (state.threads (.caller number)).phase = .plan := allows
    have listed := ((alone.undisturbed.copies.planned _).head phase pending).2.1
    obtain ⟨loc, mapped⟩ := Option.ne_none_iff_exists'.mp
      (alone.mapped (by rw [phase]; decide) (List.mem_of_getElem? listed))
    simp only [IndexState.execute, IndexState.id2page, mapped, Option.map_some,
      Option.isSome_some]
  | writeTarget =>
    have phase : (state.threads (.caller number)).phase = .edit := allows
    obtain ⟨loc, slot⟩ := alone.targetSlot (by rw [phase]; exact .inl rfl)
    simp only [IndexState.execute, slot, Option.map_some, Option.isSome_some]
  | writeNeighbor id loc =>
    have phase : (state.threads (.caller number)).phase = .edit := allows
    have member := (List.of_mem_zip
      ((alone.undisturbed.copies.edited _).pairs phase id loc head)).1
    obtain ⟨current, mapped⟩ := Option.ne_none_iff_exists'.mp
      (alone.mapped (by rw [phase]; decide) member)
    obtain ⟨buf, entry⟩ := unhindered.hasBuffer phase member mapped
    simp only [IndexState.execute, mapped, Option.bind_some, entry, Option.map_some,
      Option.isSome_some]
  | remap id loc =>
    obtain ⟨phase, atId, _⟩ := remap_head sound pending
    obtain ⟨current, mapped⟩ := Option.ne_none_iff_exists'.mp
      (alone.mapped (by rw [phase]; decide) (List.mem_of_getElem? atId))
    simp only [IndexState.execute, mapped, Option.map_some, Option.isSome_some]

/-- The insert can take its next operation, and it is done then. -/
theorem Unhindered.goes (unhindered : Unhindered params first number point tag state)
    (fresh : first.WellFormed params) {op : Op Point} {rest : List (Op Point)}
    (pending : (state.threads (.caller number)).pending = op :: rest) :
    ∃ next, state.step params (.step (.caller number) .go) = some next ∧
      state.execute params (.caller number)
        { state.threads (.caller number) with pending := rest } op = some next ∧
      Unhindered params first number point tag next ∧
      (next.threads (.caller number)).pending = rest ∧
      (next.threads (.caller number)).phase = (state.threads (.caller number)).phase := by
  obtain ⟨next, ran⟩ := unhindered.executes pending
  have taken : state.step params (.step (.caller number) .go) = some next := by
    simp only [IndexState.step, pending]
    exact ran
  have own : (Action.step (.caller number) .go : Action Point).OfInsert number := rfl
  refine ⟨next, taken, ran, unhindered.step fresh own trivial trivial taken, ?_⟩
  obtain ⟨later, threads, same, popped⟩ := execute_thread ran
  rw [threads, Function.update_self]
  refine ⟨?_, same.phase⟩
  rcases popped with ⟨left, _⟩ | ⟨lock, mode, rfl, _, busy, _⟩
  · exact left
  · obtain ⟨locks, free⟩ := unhindered.tryLock fresh pending
    cases busy.symm.trans free

end Unhindered

/-! ### The insert returns -/

/-- How many phases an insert has left. -/
def Phase.left : Phase → Nat
  | .writePq => 13
  | .beam => 12
  | .alloc => 11
  | .lockPages => 10
  | .lockVec => 9
  | .plan => 8
  | .read => 7
  | .edit => 6
  | .put => 5
  | .lockIdx => 4
  | .lockPageIdx => 3
  | .remap => 2
  | .unlock => 1
  | .pageLoop | .pageLock | .pipeLoop | .finish => 0

theorem left_lt_of_follows {phase later : Phase} (visits : Role.insertInPlace.visits phase)
    (follows : later ∈ phase.follows) (notBeam : later ≠ .beam) : later.left < phase.left := by
  cases phase with
  | pageLoop | pageLock | pipeLoop => cases visits
  | finish => cases follows
  | writePq => exact absurd (List.mem_singleton.mp follows) notBeam
  | beam =>
    simp only [Phase.follows, List.mem_cons, notBeam, List.not_mem_nil, or_false,
      false_or] at follows
    rcases follows with rfl | rfl <;> decide
  | _ =>
    obtain rfl := List.mem_singleton.mp follows
    decide

/-- Steps of the insert and of the background thread lead from one state to another. -/
def LeadsTo [LinearOrder Distance] (params : IndexParams Point Code Distance) (number : Nat)
    (state last : IndexState Point Code) : Prop :=
  ∃ more : List (Action Point), (∀ action ∈ more, action.OfInsert number) ∧
    (updateSystem params (IndexState.WellFormed params)).run state more = some last ∧
    (updateSystem params (IndexState.WellFormed params)).Along ExpandsFirst state more

section Returns

variable [LinearOrder Distance] {params : IndexParams Point Code Distance}
  {first state next last : IndexState Point Code} {number : Nat} {point : Point} {tag : Nat}

theorem LeadsTo.refl (state : IndexState Point Code) : LeadsTo params number state state :=
  ⟨[], (List.forall_mem_nil _), rfl, trivial⟩

theorem LeadsTo.trans (before : LeadsTo params number state next)
    (later : LeadsTo params number next last) : LeadsTo params number state last := by
  obtain ⟨actions, own, replay, along⟩ := before
  obtain ⟨more, ownMore, replayMore, alongMore⟩ := later
  exact ⟨actions ++ more, List.forall_mem_append.mpr ⟨own, ownMore⟩,
    Transition.System.run_trans replay replayMore, along.append replay alongMore⟩

theorem LeadsTo.single {action : Action Point} (own : action.OfInsert number)
    (expands : ExpandsFirst state action) (taken : state.step params action = some next) :
    LeadsTo params number state next := by
  refine ⟨[action], List.forall_mem_singleton.mpr own, ?_, expands, fun _ _ => trivial⟩
  show (state.step params action).bind _ = _
  rw [taken]
  rfl

/-- The insert takes all its operations. -/
theorem Unhindered.drain (unhindered : Unhindered params first number point tag state)
    (fresh : first.WellFormed params) :
    ∃ last, LeadsTo params number state last ∧ Unhindered params first number point tag last ∧
      (last.threads (.caller number)).pending = [] ∧
      (last.threads (.caller number)).phase = (state.threads (.caller number)).phase ∧
      ((state.threads (.caller number)).expanded ≠ [] →
        (last.threads (.caller number)).expanded ≠ []) := by
  induction pending : (state.threads (.caller number)).pending generalizing state with
  | nil => exact ⟨state, .refl state, unhindered, pending, rfl, id⟩
  | cons op rest inductionHypothesis =>
    obtain ⟨next, taken, ran, after, left, phase⟩ := unhindered.goes fresh pending
    obtain ⟨last, leads, atLast, empty, samePhase, expanded⟩ := inductionHypothesis after left
    have own : (Action.step (.caller number) .go : Action Point).OfInsert number := rfl
    refine ⟨last, (LeadsTo.single own trivial taken).trans leads, atLast, empty,
      samePhase.trans phase, fun visited => expanded ?_⟩
    obtain ⟨entries, more, _⟩ := execute_references ran
    rw [more]
    exact List.append_ne_nil_of_left_ne_nil visited _

omit [LinearOrder Distance] in
/-- The keys of `lock_page_idx` are there when all ids are mapped. -/
theorem isSome_pageKeys {ids : List Nat} (mapped : ∀ id ∈ ids, state.layout.id2loc id ≠ none) :
    (state.pageKeys params ids).isSome := by
  have pages : (ids.mapM (state.id2page params)).isSome := by
    induction ids with
    | nil => rfl
    | cons id rest inductionHypothesis =>
      obtain ⟨loc, isHead⟩ := Option.ne_none_iff_exists'.mp (mapped id List.mem_cons_self)
      obtain ⟨others, areRest⟩ := Option.isSome_iff_exists.mp
        (inductionHypothesis fun other member => mapped other (List.mem_cons_of_mem _ member))
      rw [List.mapM_cons, IndexState.id2page, isHead, areRest]
      rfl
  unfold IndexState.pageKeys
  split
  · rwa [Option.isSome_map]
  · rfl

/-- A phase of the insert other than the search ends when its operations are done. -/
theorem Unhindered.isSome_advance (unhindered : Unhindered params first number point tag state)
    (running : (state.threads (.caller number)).phase ≠ .finish)
    (notBeam : (state.threads (.caller number)).phase ≠ .beam) :
    (state.advance params (.caller number) .go).isSome := by
  have alone := unhindered.alone
  have sound := alone.undisturbed.sound
  have visits := (sound.phases.inPhase (.caller number)).visits
  rw [alone.role] at visits
  unfold IndexState.advance
  cases phase : (state.threads (.caller number)).phase with
  | beam => exact absurd phase notBeam
  | finish => exact absurd phase running
  | pageLoop | pageLock | pipeLoop =>
    rw [phase] at visits
    cases visits
  | alloc =>
    have formed : state.layout.WellFormed params.geometry := sound.tracked.formed
    have positive : 0 < (state.threads (.caller number)).newNhood.length + 1 := Nat.succ_pos _
    obtain ⟨_, _, _, allocated, _⟩ :=
      Layout.allocLoc_spec formed positive (state.threads (.caller number)).pageRef
    simp only [phase, IndexState.allocStep, allocated, Option.map_some, Option.isSome_some]
  | put =>
    obtain ⟨loc, slot⟩ := alone.targetSlot (by rw [phase]; exact .inl rfl)
    simp only [phase, IndexState.publishStep, slot, Option.map_some, Option.isSome_some]
  | lockIdx =>
    simp only [phase, IndexState.lockPageIdxStep, Option.isSome_map]
    refine isSome_pageKeys fun id member => ?_
    rcases List.mem_append.mp member with neighbor | target
    · exact alone.mapped (by rw [phase]; decide) neighbor
    · rw [List.mem_singleton.mp target, alone.target]
      exact (unhindered.maps.published (by rw [phase]; rfl)).mapped
  | _ => simp only [phase, Option.isSome_some]

/-- When its operations are done, the insert goes on to its next phase. -/
theorem Unhindered.ends (unhindered : Unhindered params first number point tag state)
    (fresh : first.WellFormed params)
    (pending : (state.threads (.caller number)).pending = [])
    (running : (state.threads (.caller number)).phase ≠ .finish)
    (expanded : (state.threads (.caller number)).phase = .beam →
      (state.threads (.caller number)).expanded ≠ []) :
    ∃ next, LeadsTo params number state next ∧ Unhindered params first number point tag next ∧
      (next.threads (.caller number)).phase ≠ .beam ∧
      (next.threads (.caller number)).phase.left <
        (state.threads (.caller number)).phase.left := by
  have alone := unhindered.alone
  have visits := (alone.undisturbed.sound.phases.inPhase (.caller number)).visits
  rw [alone.role] at visits
  obtain ⟨choice, next, ended, expands, visited, notBeam⟩ : ∃ choice next,
      state.advance params (.caller number) choice = some next ∧
        ExpandsFirst state (.step (.caller number) choice) ∧
        VisitsMapped state (.step (.caller number) choice) ∧
        (next.threads (.caller number)).phase ≠ .beam := by
    by_cases phase : (state.threads (.caller number)).phase = .beam
    · refine ⟨.prune [], state.setThread (.caller number)
        { state.threads (.caller number) with phase := .alloc, newNhood := [] }, ?_,
        expanded phase, trivial, ?_⟩
      · simp only [IndexState.advance, phase, IndexState.beamStep]
        exact if_pos ⟨alone.role, List.nodup_nil, List.forall_mem_nil _⟩
      · rw [IndexState.setThread_threads_self]
        exact fun searching => by cases searching
    · obtain ⟨next, ended⟩ :=
        Option.isSome_iff_exists.mp (unhindered.isSome_advance running phase)
      refine ⟨.go, next, ended, trivial, trivial, fun searching => ?_⟩
      have follows := advance_follows ended (by simp)
      rw [searching] at follows
      exact (follows_beam follows).elim alone.started phase
  have own : (Action.step (.caller number) choice : Action Point).OfInsert number := rfl
  have taken : state.step params (.step (.caller number) choice) = some next := by
    simp only [IndexState.step, pending]
    exact ended
  exact ⟨next, .single own expands taken, unhindered.step fresh own expands visited taken, notBeam,
    left_lt_of_follows visits (advance_follows ended (by simp)) notBeam⟩

/-- An insert that has expanded a node goes through its phases. -/
theorem Unhindered.finishes (unhindered : Unhindered params first number point tag state)
    (fresh : first.WellFormed params)
    (expanded : (state.threads (.caller number)).phase = .beam →
      (state.threads (.caller number)).expanded ≠ []) :
    ∃ last, LeadsTo params number state last ∧ Unhindered params first number point tag last ∧
      (last.threads (.caller number)).phase = .finish ∧
      (last.threads (.caller number)).pending = [] := by
  induction left : (state.threads (.caller number)).phase.left using Nat.strong_induction_on
    generalizing state with
  | _ left inductionHypothesis =>
    obtain ⟨drained, leads, after, empty, phase, visited⟩ := unhindered.drain fresh
    by_cases finished : (drained.threads (.caller number)).phase = .finish
    · exact ⟨drained, leads, after, finished, empty⟩
    · obtain ⟨next, goesOn, atNext, notBeam, fewer⟩ := after.ends fresh empty finished
        fun searching => visited (expanded (phase.symm.trans searching))
      rw [phase, left] at fewer
      obtain ⟨last, leadsOn, atLast⟩ := inductionHypothesis _ fewer atNext
        (fun searching => absurd searching notBeam) rfl
      exact ⟨last, (leads.trans goesOn).trans leadsOn, atLast⟩

/-- A search that has not expanded a node can expand one that is mapped. -/
theorem Unhindered.expands (unhindered : Unhindered params first number point tag state)
    (fresh : first.WellFormed params) {id : Nat} (mapped : first.layout.id2loc id ≠ none)
    (phase : (state.threads (.caller number)).phase = .beam) :
    ∃ last, LeadsTo params number state last ∧ Unhindered params first number point tag last ∧
      (last.threads (.caller number)).expanded ≠ [] := by
  obtain ⟨drained, leads, after, empty, samePhase, _⟩ := unhindered.drain fresh
  have phase := samePhase.trans phase
  have mapped : drained.layout.id2loc id ≠ none := by
    rwa [(after.maps.unpublished (by rw [phase]; rfl) (by rw [phase]; rfl)).1]
  obtain ⟨asked, taken, pending⟩ : ∃ asked,
      drained.step params (.step (.caller number) (.frontier [id])) = some asked ∧
        (asked.threads (.caller number)).pending =
          [.lock (.idx id) .rd, .locate id, .readFrontier, .unlock (.idx id)] := by
    simp only [IndexState.step, empty, IndexState.advance, phase, IndexState.beamStep]
    refine ⟨_, rfl, ?_⟩
    rw [IndexState.setThread_threads_self]
    rfl
  have own : (Action.step (.caller number) (.frontier [id]) : Action Point).OfInsert number := rfl
  have go : (Action.step (.caller number) .go : Action Point).OfInsert number := rfl
  have atAsked := after.step fresh own trivial (List.forall_mem_singleton.mpr mapped) taken
  obtain ⟨locked, took, _, atLocked, pending, _⟩ := atAsked.goes fresh pending
  obtain ⟨located, looked, ran, atLocated, pending, _⟩ := atLocked.goes fresh pending
  have frontier : (located.threads (.caller number)).frontier ≠ [] := by
    simp only [IndexState.execute, Option.map_eq_some_iff] at ran
    obtain ⟨loc, _, rfl⟩ := ran
    rw [IndexState.setThread_threads_self]
    exact List.append_ne_nil_of_right_ne_nil _ (List.cons_ne_nil _ _)
  obtain ⟨reached, reads, ran, atReached, _⟩ := atLocated.goes fresh pending
  refine ⟨reached, leads.trans ((LeadsTo.single own trivial taken).trans
    ((LeadsTo.single go trivial took).trans ((LeadsTo.single go trivial looked).trans
      (.single go trivial reads)))), atReached, ?_⟩
  simp only [IndexState.execute, Option.some.injEq] at ran
  rw [← ran, IndexState.setThread_threads_self]
  exact List.append_ne_nil_of_right_ne_nil _ (List.map_eq_nil_iff.not.mpr frontier)

/-- The background thread takes all its operations when the insert has returned. -/
theorem Unhindered.written (unhindered : Unhindered params first number point tag state)
    (fresh : first.WellFormed params)
    (returned : (state.threads (.caller number)).phase = .finish ∧
      (state.threads (.caller number)).pending = []) :
    ∃ last, LeadsTo params number state last ∧
      ((last.threads (.caller number)).phase = .finish ∧
        (last.threads (.caller number)).pending = []) ∧
      (last.threads .bgIoThread).pending = [] := by
  induction pending : (state.threads .bgIoThread).pending generalizing state with
  | nil => exact ⟨state, .refl state, returned, pending⟩
  | cons op rest inductionHypothesis =>
    have sound := unhindered.alone.undisturbed.sound
    have allows := (sound.phases.inPhase .bgIoThread).allows op
      (by rw [pending]; exact List.mem_cons_self)
    rw [sound.phases.phase_of_background] at allows
    obtain ⟨next, ran, left⟩ : ∃ next, state.execute params .bgIoThread
        { state.threads .bgIoThread with pending := rest } op = some next ∧
          (next.threads .bgIoThread).pending = rest := by
      cases op with
      | unlock | writeDisk =>
        refine ⟨_, rfl, ?_⟩
        simp only [IndexState.setThread, Function.update_self]
      | _ => cases allows
    have taken : state.step params (.step .bgIoThread .go) = some next := by
      simp only [IndexState.step, pending]
      exact ran
    have own : (Action.step .bgIoThread .go : Action Point).OfInsert number := trivial
    obtain ⟨threads, _⟩ := background_frame sound pending ran
    obtain ⟨last, leads, atLast⟩ := inductionHypothesis
      (unhindered.step fresh own trivial trivial taken) (threads number ▸ returned) left
    exact ⟨last, (LeadsTo.single own trivial taken).trans leads, atLast⟩

theorem Begun.unhindered (fresh : first.WellFormed params) {buffer : Nat → PageImage Point}
    {called begun : IndexState Point Code} {choice : Choice}
    (start : Begun params first begun number point tag buffer)
    (call : first.step params (.call number (.insertInPlace point tag) buffer) = some called)
    (goes : called.step params (.step (.caller number) choice) = some begun)
    (quiet : (called.threads (.caller number)).pending = [])
    (expands : ExpandsFirst called (.step (.caller number) choice)) :
    Unhindered params first number point tag begun where
  alone := start.runsAlone fresh call goes quiet expands
  maps := start.mapsAlone
  background _ := by
    rw [start.apart .bgIoThread nofun]
    exact fresh.records.loaded.quiescent.bgIo.2.1
  located id member := by
    rw [start.own] at member
    cases member

theorem unhindered_of_run (fresh : first.WellFormed params) {actions : List (Action Point)}
    (replay : (updateSystem params (IndexState.WellFormed params)).run state actions = some last)
    (own : ∀ action ∈ actions, action.OfInsert number)
    (along : (updateSystem params (IndexState.WellFormed params)).Along
      (fun before action => ExpandsFirst before action ∧ VisitsMapped before action) state actions)
    (unhindered : Unhindered params first number point tag state) :
    Unhindered params first number point tag last := by
  induction actions generalizing state with
  | nil =>
    obtain rfl := Option.some.inj replay
    exact unhindered
  | cons action rest inductionHypothesis =>
    obtain ⟨next, taken, remaining⟩ := Transition.System.run_cons replay
    exact inductionHypothesis remaining
      (fun other member => own other (List.mem_cons_of_mem _ member)) (along.2 next taken)
      (unhindered.step fresh (own action List.mem_cons_self) along.1.1 along.1.2 taken)

/-- From every state of its run, an insert that runs alone and visits mapped ids can go on until it
has returned and its pages are written. -/
theorem insert_alone_returns (fresh : first.WellFormed params)
    (points : ∃ id, first.layout.id2loc id ≠ none) {buffer : Nat → PageImage Point}
    {actions : List (Action Point)}
    (replay : (updateSystem params (IndexState.WellFormed params)).run first
      (.call number (.insertInPlace point tag) buffer :: actions) = some state)
    (own : ∀ action ∈ actions, action.OfInsert number)
    (along : (updateSystem params (IndexState.WellFormed params)).Along
      (fun before action => ExpandsFirst before action ∧ VisitsMapped before action) first
      (.call number (.insertInPlace point tag) buffer :: actions)) :
    ∃ more last, InsertsAlone params first number point tag buffer (actions ++ more) last := by
  obtain ⟨begun, leads, unhindered⟩ : ∃ begun, LeadsTo params number state begun ∧
      Unhindered params first number point tag begun := by
    by_cases goesOn : actions = []
    · subst goesOn
      -- the PQ code is written next
      obtain ⟨called, call, ended⟩ := Transition.System.run_cons replay
      obtain rfl : called = state := Option.some.inj ended
      have thread : called.threads (.caller number) = _ := called_thread call
      obtain ⟨begun, goes⟩ : ∃ begun,
          called.step params (.step (.caller number) .go) = some begun := by
        simp only [IndexState.step, thread, IndexState.advance]
        exact ⟨_, rfl⟩
      have own : (Action.step (.caller number) .go : Action Point).OfInsert number := rfl
      exact ⟨begun, .single own trivial goes,
        (begun_of_step call goes).unhindered fresh call goes (by rw [thread]) trivial⟩
    · obtain ⟨called, choice, later, begun, rfl, call, goes, quiet, remaining, start⟩ :=
        begun_of_run fresh replay own goesOn
      have steps := along.2 called call
      exact ⟨state, .refl state, unhindered_of_run fresh remaining
        (fun action member => own action (List.mem_cons_of_mem _ member)) (steps.2 begun goes)
        (start.unhindered fresh call goes quiet steps.1.1)⟩
  obtain ⟨id, mapped⟩ := points
  obtain ⟨visited, leadsToVisited, atVisited, expanded⟩ : ∃ visited,
      LeadsTo params number begun visited ∧ Unhindered params first number point tag visited ∧
        ((visited.threads (.caller number)).phase = .beam →
          (visited.threads (.caller number)).expanded ≠ []) := by
    by_cases phase : (begun.threads (.caller number)).phase = .beam
    · obtain ⟨visited, leads, atVisited, expanded⟩ := unhindered.expands fresh mapped phase
      exact ⟨visited, leads, atVisited, fun _ => expanded⟩
    · exact ⟨begun, .refl begun, unhindered, fun searching => absurd searching phase⟩
  obtain ⟨finished, leadsToFinished, atFinished, returned⟩ := atVisited.finishes fresh expanded
  obtain ⟨last, leadsToLast, stillReturned, written⟩ := atFinished.written fresh returned
  obtain ⟨more, ownMore, replayMore, alongMore⟩ :=
    leads.trans (leadsToVisited.trans (leadsToFinished.trans leadsToLast))
  have expands := Transition.System.Along.imply (fun _ => True) (fun _ _ _ _ _ _ => trivial)
    (fun _ _ _ both => both.1) trivial along
  exact ⟨more, last,
    { replay := Transition.System.run_trans replay replayMore
      own := List.forall_mem_append.mpr ⟨own, ownMore⟩
      expands := expands.append replay alongMore
      returned := stillReturned
      written := written }⟩

end Returns

end OdinVector
