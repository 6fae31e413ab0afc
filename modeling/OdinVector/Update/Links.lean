/-
This file is about the ids in neighbour lists. An insert takes its id, writes the
PQ code and the tag, writes the records of its target and of the neighbours, maps
the target and then the neighbours. When each insert rewrites its neighbours alone
and from their own records, an id is in the list of a mapped record only after all
of this, and a search can look up what it reads.
-/

import OdinVector.Update.Recycling
import OdinVector.Update.Neighbors

namespace OdinVector

open IndexState (bufRecord)

variable {Point Code Distance : Type}

/-! ### Known ids -/

/-- An id that a search may meet: it has been given out, has a location and a tag, and the PQ code
of its point is in `data`. -/
structure Known (params : IndexParams Point Code Distance) (state : IndexState Point Code)
    (id : Nat) : Prop where
  below : id < state.curId
  mapped : state.layout.id2loc id ≠ none
  tagged : state.tags id ≠ none
  coded : ∀ agent, (state.threads agent).role = .insertInPlace →
    (state.threads agent).target = id → (state.threads agent).phase ≠ .writePq ∧
      state.data id = params.deflateVector (state.threads agent).point

section Known

variable [LinearOrder Distance] {params : IndexParams Point Code Distance}
  {state next : IndexState Point Code} {agent : Agent} {rest : List (Op Point)} {op : Op Point}
  {id : Nat}

theorem execute_data
    (taken : state.execute params agent { state.threads agent with pending := rest } op =
      some next) : next.data = state.data ∧ next.curId = state.curId ∧
        ∀ id, state.tags id ≠ none → next.tags id ≠ none := by
  cases op with
  | lock lock mode =>
    simp only [IndexState.execute, IndexState.tryLock, Option.some.injEq] at taken
    split at taken <;> exact taken ▸ ⟨rfl, rfl, fun _ tagged => tagged⟩
  | writeTarget =>
    simp only [IndexState.execute, Option.map_eq_some_iff] at taken
    obtain ⟨loc, _, rfl⟩ := taken
    refine ⟨rfl, rfl, fun id tagged => ?_⟩
    show Function.update state.tags (state.threads agent).target _ id ≠ none
    by_cases same : id = (state.threads agent).target
    · rw [same, Function.update_self]
      exact Option.some_ne_none _
    · rwa [Function.update_of_ne same]
  | locate | planNeighbor | remap | sendRead =>
    simp only [IndexState.execute, Option.map_eq_some_iff] at taken
    obtain ⟨_, _, rfl⟩ := taken
    exact ⟨rfl, rfl, fun _ tagged => tagged⟩
  | snapshot | writeNeighbor =>
    simp only [IndexState.execute, Option.bind_eq_some_iff, Option.map_eq_some_iff] at taken
    obtain ⟨_, _, _, _, rfl⟩ := taken
    exact ⟨rfl, rfl, fun _ tagged => tagged⟩
  | unlock | readFrontier | readPage | putPage | writeDisk =>
    simp only [IndexState.execute, Option.some.injEq] at taken
    subst taken
    exact ⟨rfl, rfl, fun _ tagged => tagged⟩

omit [LinearOrder Distance] in
/-- Only the end of the first phase writes a PQ code. -/
theorem advance_data {choice : Choice} (notFirst : (state.threads agent).phase ≠ .writePq)
    (taken : state.advance params agent choice = some next) : next.data = state.data := by
  cases IndexState.advances taken with
  | writePq phase => exact absurd phase notFirst
  | _ => rfl

/-- An id keeps a location once it has one. -/
theorem mapped_step (sound : Sound params state) {action : Action Point}
    (taken : state.step params action = some next) {id : Nat}
    (mapped : state.layout.id2loc id ≠ none) : next.layout.id2loc id ≠ none := by
  by_cases maps : action.Maps state id
  · obtain ⟨loc, here⟩ := Option.ne_none_iff_exists'.mp mapped
    obtain ⟨runner, choice, rfl, phase, _⟩ := remapped_under_lock sound here maps
    have maps : (state.threads runner).MapsNext id := maps
    rcases IndexState.step_cases taken with ⟨_, _, _, other, _⟩ |
      ⟨_, _, op, rest, same, pending, ran⟩ | ⟨_, _, same, pending, _⟩
    · cases other
    · rw [Action.step.injEq] at same
      obtain ⟨rfl, rfl⟩ := same
      rw [Thread.MapsNext, pending] at maps
      cases op with
      | remap moved loc =>
        simp only [IndexState.execute, Option.map_eq_some_iff] at ran
        obtain ⟨_, _, rfl⟩ := ran
        show Function.update state.layout.id2loc moved _ id ≠ none
        rw [← show moved = id from maps, Function.update_self]
        exact Option.some_ne_none _
      | _ => exact maps.elim
    · rw [Action.step.injEq] at same
      obtain ⟨rfl, rfl⟩ := same
      rw [Thread.MapsNext, pending] at maps
      cases phase.symm.trans maps.1
  · rwa [(record_of_step sound taken maps).1]

end Known

/-! ### PQ codes of inserted points -/

/-- Every insert that has gone on to its search has written the PQ code of its point. -/
def Coded (params : IndexParams Point Code Distance) (state : IndexState Point Code) : Prop :=
  ∀ agent, (state.threads agent).role = .insertInPlace → (state.threads agent).phase ≠ .writePq →
    state.data (state.threads agent).target = params.deflateVector (state.threads agent).point

section Coded

variable [LinearOrder Distance] {params : IndexParams Point Code Distance}
  {state next : IndexState Point Code}

omit [LinearOrder Distance] in
theorem coded_start (coded : Coded params state) {number : Nat} {request : Request Point}
    {buffer : Nat → PageImage Point} (started : state.start number request buffer = some next) :
    Coded params next := by
  intro agent role notFirst
  by_cases starts : agent = .caller number
  · subst starts
    obtain ⟨_, rfl⟩ := IndexState.start_cases started
    dsimp only at role notFirst
    rw [IndexState.setThread_threads_self] at role notFirst
    cases request with
    | insertInPlace => exact absurd rfl notFirst
    | _ => cases role
  · have other := start_other started starts
    obtain ⟨_, rfl⟩ := IndexState.start_cases started
    rw [other] at role notFirst ⊢
    exact coded agent role notFirst

theorem coded_execute (coded : Coded params state) {agent : Agent} {rest : List (Op Point)}
    {op : Op Point} (pending : (state.threads agent).pending = op :: rest)
    (taken : state.execute params agent { state.threads agent with pending := rest } op =
      some next) : Coded params next := by
  intro other role notFirst
  obtain ⟨later, threads, same, _⟩ := execute_thread taken
  rw [(execute_data taken).1]
  by_cases runs : other = agent
  · subst runs
    rw [threads, Function.update_self] at role notFirst ⊢
    rw [same.role] at role
    rw [same.phase] at notFirst
    rw [same.target, same.point]
    exact coded other role notFirst
  · rw [threads, Function.update_of_ne runs] at role notFirst ⊢
    exact coded other role notFirst

omit [LinearOrder Distance] in
theorem coded_advance (coded : Coded params state) (sound : Sound params state) {agent : Agent}
    {choice : Choice} (taken : state.advance params agent choice = some next) :
    Coded params next := by
  have notBackground : agent ≠ .bgIoThread := by
    rintro rfl
    exact phase_of_advance taken sound.phases.phase_of_background
  have frame := advance_frame taken notBackground
  intro other role notFirst
  by_cases first : (state.threads agent).phase = .writePq
  · have runnerRole := (sound.phases.inPhase agent).isInsert (by rw [first]; decide)
    unfold IndexState.advance at taken
    simp only [first, Option.some.injEq] at taken
    subst taken
    by_cases runs : other = agent
    · subst runs
      simp only [IndexState.setThread_threads_self]
      exact Function.update_self _ _ _
    · simp only [IndexState.setThread_threads_other _ _ runs] at role notFirst ⊢
      refine (Function.update_of_ne (fun same => runs ?_) _ _).trans (coded other role notFirst)
      exact sound.tracked.targets _ _ _ _ (Thread.reservation_eq role)
        (Thread.reservation_eq runnerRole) same
  · rw [advance_data first taken]
    by_cases runs : other = agent
    · subst runs
      rw [frame.target, frame.point]
      exact coded other (frame.role ▸ role) first
    · rcases advance_other taken runs with unchanged | ⟨_, rfl, changed⟩
      · rw [unchanged] at role notFirst ⊢
        exact coded other role notFirst
      · have background := (sound.phases.background .bgIoThread).mpr rfl
        rw [changed] at role
        exact nomatch background.symm.trans role

theorem Coded.step (coded : Coded params state) (sound : Sound params state)
    {action : Action Point} (taken : state.step params action = some next) :
    Coded params next := by
  rcases IndexState.step_cases taken with ⟨_, _, _, _, started⟩ | ⟨_, _, _, _, _, pending, ran⟩ |
    ⟨_, _, _, _, ended⟩
  · exact coded_start coded started
  · exact coded_execute coded pending ran
  · exact coded_advance coded sound ended

end Coded

/-! ### Tags of inserted points -/

/-- Every insert that puts its pages has written its tag. -/
def Tagging (state : IndexState Point Code) : Prop :=
  ∀ agent, ((state.threads agent).phase = .edit ∧
      .writeTarget ∉ (state.threads agent).pending ∨ (state.threads agent).phase = .put) →
    state.tags (state.threads agent).target ≠ none

section Tagging

variable [LinearOrder Distance] {params : IndexParams Point Code Distance}
  {state next : IndexState Point Code}

theorem tagging_execute (tagging : Tagging state) {agent : Agent} {rest : List (Op Point)}
    {op : Op Point} (pending : (state.threads agent).pending = op :: rest)
    (taken : state.execute params agent { state.threads agent with pending := rest } op =
      some next) : Tagging next := by
  intro other writes
  have kept := (execute_data taken).2.2
  obtain ⟨later, threads, same, popped⟩ := execute_thread taken
  by_cases runs : other = agent
  · subst runs
    rw [threads, Function.update_self] at writes ⊢
    rw [same.phase] at writes
    rw [same.target]
    by_cases isTarget : op = .writeTarget
    · subst isTarget
      simp only [IndexState.execute, Option.map_eq_some_iff] at taken
      obtain ⟨loc, _, rfl⟩ := taken
      show Function.update state.tags (state.threads other).target _ _ ≠ none
      rw [Function.update_self]
      exact Option.some_ne_none _
    · refine kept _ (tagging other (writes.imp_left fun edits => ⟨edits.1, fun member => ?_⟩))
      refine edits.2 ?_
      rcases popped with ⟨left, _⟩ | ⟨_, _, _, still, _⟩
      · rw [pending] at member
        rw [left]
        exact (List.mem_cons.mp member).resolve_left (Ne.symm isTarget)
      · rwa [still]
  · rw [threads, Function.update_of_ne runs] at writes ⊢
    exact kept _ (tagging other writes)

omit [LinearOrder Distance] in
theorem tagging_advance (tagging : Tagging state) (phases : InPhases state.threads)
    {agent : Agent} {choice : Choice} (pending : (state.threads agent).pending = [])
    (taken : state.advance params agent choice = some next) : Tagging next := by
  have notBackground : agent ≠ .bgIoThread := by
    rintro rfl
    exact phase_of_advance taken phases.phase_of_background
  have frame := advance_frame taken notBackground
  intro other writes
  rw [frame.tags]
  by_cases runs : other = agent
  · subst runs
    have follows := advance_follows taken notBackground
    rw [frame.target]
    rcases writes with ⟨isEdit, written⟩ | isPut
    · have reading : (state.threads other).phase = .read := by
        rw [isEdit] at follows
        revert follows
        cases (state.threads other).phase <;> decide
      refine absurd ?_ written
      unfold IndexState.advance at taken
      simp only [reading, Option.some.injEq] at taken
      subst taken
      rw [IndexState.setThread_threads_self]
      exact List.mem_cons_self
    · have editing : (state.threads other).phase = .edit := by
        rw [isPut] at follows
        revert follows
        cases (state.threads other).phase <;> decide
      exact tagging other (.inl ⟨editing, pending ▸ List.not_mem_nil⟩)
  · rcases advance_other taken runs with unchanged | ⟨_, rfl, changed⟩
    · rw [unchanged] at writes ⊢
      exact tagging other writes
    · have finished := phases.phase_of_background
      rw [changed] at writes
      rcases writes with ⟨isEdit, _⟩ | isPut
      · exact nomatch finished.symm.trans isEdit
      · exact nomatch finished.symm.trans isPut

theorem Tagging.step (tagging : Tagging state) (phases : InPhases state.threads)
    {action : Action Point} (taken : state.step params action = some next) : Tagging next := by
  rcases IndexState.step_cases taken with ⟨number, request, _, _, started⟩ |
    ⟨_, _, _, _, _, pending, ran⟩ | ⟨_, _, _, pending, ended⟩
  · intro agent writes
    by_cases starts : agent = .caller number
    · subst starts
      obtain ⟨_, rfl⟩ := IndexState.start_cases started
      dsimp only at writes
      rw [IndexState.setThread_threads_self] at writes
      cases request <;> exact writes.elim (fun edits => nomatch edits.1) nofun
    · have other := start_other started starts
      obtain ⟨_, rfl⟩ := IndexState.start_cases started
      rw [other] at writes ⊢
      exact tagging agent writes
  · exact tagging_execute tagging pending ran
  · exact tagging_advance tagging phases pending ended

/-- A step keeps the tags there are. -/
theorem tags_step (phases : InPhases state.threads) {action : Action Point}
    (taken : state.step params action = some next) {id : Nat} (tagged : state.tags id ≠ none) :
    next.tags id ≠ none := by
  rcases IndexState.step_cases taken with ⟨_, _, _, _, started⟩ | ⟨_, _, _, _, _, _, ran⟩ |
    ⟨runner, _, _, _, ended⟩
  · obtain ⟨_, rfl⟩ := IndexState.start_cases started
    exact tagged
  · exact (execute_data ran).2.2 id tagged
  · have notBackground : runner ≠ .bgIoThread := by
      rintro rfl
      exact phase_of_advance ended phases.phase_of_background
    rwa [(advance_frame ended notBackground).tags]

end Tagging

/-! ### The ids in neighbour lists -/

/-- The ids in the lists of mapped records are mapped, and what is mapped is written. -/
structure Linked (params : IndexParams Point Code Distance) (state : IndexState Point Code) :
    Prop where
  linked : ∀ id, state.layout.id2loc id ≠ none → ∀ nbr ∈ (state.record id).nbrs,
    state.layout.id2loc nbr ≠ none
  tagged : ∀ id, state.layout.id2loc id ≠ none → state.tags id ≠ none
  coded : Coded params state
  tagging : Tagging state

section Linked

variable [LinearOrder Distance] {params : IndexParams Point Code Distance}
  {state next : IndexState Point Code} {codes : (Nat → Code) → Prop}

omit [LinearOrder Distance] in
/-- A mapped id is known. -/
theorem Linked.known (linked : Linked params state) (sound : Sound params state) {id : Nat}
    (mapped : state.layout.id2loc id ≠ none) : Known params state id where
  below := sound.tracked.below id mapped
  mapped := mapped
  tagged := linked.tagged id mapped
  coded agent role target := by
    have notFirst : (state.threads agent).phase ≠ .writePq := by
      intro first
      have valid := sound.tracked.valid agent _ (Thread.reservation_eq role)
      refine mapped (target ▸ valid.unmapped ?_)
      simp only [first]
      exact .inl rfl
    exact ⟨notFirst, target ▸ linked.coded agent role notFirst⟩

omit [LinearOrder Distance] in
/-- The target of an insert has a location when it moves the neighbours. -/
theorem target_mapped (sound : Sound params state) {agent : Agent}
    (phase : (state.threads agent).phase = .remap) :
    state.layout.id2loc (state.threads agent).target ≠ none := by
  have role := (sound.phases.inPhase agent).isInsert (by rw [phase]; decide)
  have valid := sound.tracked.valid agent _ (Thread.reservation_eq role)
  have stage : (state.threads agent).phase.stage = .moving := Phase.stage_eq_moving.mpr phase
  have inside : (state.threads agent).newNhood.length < (state.threads agent).locs.length := by
    rw [valid.length (.inr (.inr stage))]
    exact Nat.lt_succ_self _
  have mapped := valid.mapped _ _ (.inl ⟨.inr stage, rfl, List.getElem?_eq_getElem inside⟩)
  exact Option.ne_none_iff_exists'.mpr ⟨_, mapped⟩

theorem Linked.step (linked : Linked params state) (undisturbed : Undisturbed params codes state)
    {action : Action Point} (taken : state.step params action = some next) :
    Linked params next where
  linked id mapped nbr listed := by
    have sound := undisturbed.sound
    refine mapped_step sound taken ?_
    rcases undisturbed.record_step taken id with ⟨sameLoc, sameRecord⟩ |
      ⟨runner, _, _, phase, _, before, _, _, edited⟩ | ⟨runner, _, _, phase, _, _, written⟩
    · rw [sameRecord] at listed
      exact linked.linked id (sameLoc ▸ mapped) nbr listed
    · rw [edited] at listed
      rcases List.mem_append.mp ((pruned_boundedNhood _ _).subset nbr listed) with old | new
      · exact linked.linked id before nbr old
      · rw [List.mem_singleton.mp new]
        exact target_mapped sound phase
    · rw [written] at listed
      have role := (sound.phases.inPhase runner).isInsert (by rw [phase]; decide)
      have valid := sound.tracked.valid runner _ (Thread.reservation_eq role)
      exact valid.known (by simp only [phase]; nofun) nbr listed
  tagged id mapped := by
    refine tags_step undisturbed.sound.phases taken ?_
    by_cases before : state.layout.id2loc id = none
    · rcases undisturbed.record_step taken id with ⟨sameLoc, _⟩ |
        ⟨_, _, _, _, _, already, _⟩ | ⟨runner, _, _, phase, _, rfl, _⟩
      · exact absurd (sameLoc.trans before) mapped
      · exact absurd before already
      · exact linked.tagging runner (.inr phase)
    · exact linked.tagged id before
  coded := linked.coded.step undisturbed.sound taken
  tagging := linked.tagging.step undisturbed.sound.phases taken

end Linked

/-! ### Frontiers -/

/-- A round of `do_beam_search` that has not read its frontier: the locations it has looked up are
those of ids whose idx locks it takes before and gives back after the read. -/
def Thread.Reading (layout : Layout) (thread : Thread Point) : Prop :=
  .readFrontier ∈ thread.pending → ∃ ids locked located : List Nat,
    thread.pending = locked.map (fun id => .lock (.idx id) .rd) ++ located.map .locate ++
      .readFrontier :: (sortUnique ids).map (fun id => .unlock (.idx id)) ∧
    (∀ id ∈ located, id ∈ ids) ∧ (locked = [] ∨ thread.frontier = []) ∧
      ∀ entry ∈ thread.frontier, entry.1 ∈ ids ∧ layout.id2loc entry.1 = some entry.2

section Reading

variable {params : IndexParams Point Code Distance} {state next : IndexState Point Code}
  {agent : Agent} {layout : Layout}

theorem Thread.Reading.plain {thread : Thread Point} (noRead : .readFrontier ∉ thread.pending) :
    thread.Reading layout :=
  fun reads => absurd reads noRead

theorem Thread.Reading.keep {after : Layout} {thread : Thread Point}
    (reading : thread.Reading layout)
    (same : .readFrontier ∈ thread.pending → ∀ entry ∈ thread.frontier,
      layout.id2loc entry.1 = some entry.2 → after.id2loc entry.1 = some entry.2) :
    thread.Reading after := by
  intro reads
  obtain ⟨ids, locked, located, pending, listed, started, entries⟩ := reading reads
  refine ⟨ids, locked, located, pending, listed, started, fun entry member => ?_⟩
  exact ⟨(entries entry member).1, same reads entry member (entries entry member).2⟩

/-- The idx locks of the ids of a frontier are in hand. -/
theorem Thread.Reading.inHand (keeps : KeepsRules state.threads state.holders)
    (reading : (state.threads agent).Reading layout)
    (reads : .readFrontier ∈ (state.threads agent).pending) {entry : Nat × Nat}
    (member : entry ∈ (state.threads agent).frontier) :
    LockKey.idx entry.1 ∈ Holding.heldBy state.holders agent := by
  obtain ⟨ids, locked, located, pending, listed, started, entries⟩ := reading reads
  obtain rfl : locked = [] :=
    started.resolve_right fun empty => by rw [empty] at member; cases member
  obtain ⟨before, after, split⟩ :=
    List.append_of_mem (mem_sortUnique.mpr (entries entry member).1)
  have own := keeps agent
  have program : (state.threads agent).pending.map Op.instruction =
      (located.map (fun _ => .skip) ++ .skip :: before.map fun id => .release (.idx id)) ++
        .release (.idx entry.1) :: after.map fun id => .release (.idx id) := by
    rw [pending, split]
    simp only [List.map_append, List.map_cons, List.map_map, List.map_nil, List.nil_append,
      List.append_assoc, List.cons_append]
    rfl
  rw [Thread.program, program, List.append_assoc, List.cons_append] at own
  have notVec : (LockKey.idx entry.1).table ≠ .vecLockTable := (fun equal => by cases equal)
  refine (own.inHand notVec).resolve_right fun acquired => ?_
  rcases List.mem_append.mp acquired with skip | later
  · obtain ⟨_, _, equal⟩ := List.mem_map.mp skip
    cases equal
  · rcases List.mem_cons.mp later with equal | release
    · cases equal
    · obtain ⟨_, _, equal⟩ := List.mem_map.mp release
      cases equal

variable [LinearOrder Distance]

/-- Another call does not move an id of a frontier. -/
theorem Thread.Reading.unmoved (sound : Sound params state)
    (reading : (state.threads agent).Reading state.layout) {action : Action Point}
    (taken : state.step params action = some next)
    (reads : .readFrontier ∈ (state.threads agent).pending) {entry : Nat × Nat}
    (member : entry ∈ (state.threads agent).frontier)
    (mapped : state.layout.id2loc entry.1 = some entry.2) :
    next.layout.id2loc entry.1 = some entry.2 := by
  by_cases maps : action.Maps state entry.1
  · obtain ⟨runner, _, _, phase, _, held⟩ := remapped_under_lock sound mapped maps
    have role := (sound.phases.inPhase runner).isInsert (by rw [phase]; decide)
    have also := reading.inHand sound.keeps reads member
    have notVec : (LockKey.idx entry.1).table ≠ .vecLockTable := nofun
    have same := sound.exclusion.unique notVec role (by rw [phase]; nofun) held also
    have beam : (state.threads agent).phase = .beam := (sound.phases.inPhase agent).allows _ reads
    rw [same] at phase
    exact nomatch phase.symm.trans beam
  · exact (record_of_step sound taken maps).1.trans mapped

theorem reading_execute (reading : (state.threads agent).Reading state.layout) {op : Op Point}
    {rest : List (Op Point)} (pending : (state.threads agent).pending = op :: rest)
    (taken : state.execute params agent { state.threads agent with pending := rest } op =
      some next) : (next.threads agent).Reading next.layout := by
  intro after
  have reads : .readFrontier ∈ (state.threads agent).pending := by
    obtain ⟨later, threads, _, popped⟩ := execute_thread taken
    rw [threads, Function.update_self] at after
    rcases popped with ⟨left, _⟩ | ⟨_, _, _, still, _⟩
    · rw [pending]
      exact List.mem_cons_of_mem _ (left ▸ after)
    · exact still ▸ after
  obtain ⟨ids, locked, located, shape, listed, started, entries⟩ := reading reads
  rw [pending] at shape
  cases locked with
  | cons id locked =>
    have empty := started.resolve_left (by nofun)
    rw [List.map_cons, List.cons_append, List.cons_append, List.cons.injEq] at shape
    obtain ⟨rfl, rfl⟩ := shape
    simp only [IndexState.execute, IndexState.tryLock, Option.some.injEq] at taken
    split at taken
    · subst taken
      simp only [IndexState.setThread_threads_self]
      exact ⟨ids, locked, located, rfl, listed, .inr empty, entries⟩
    · subst taken
      rw [IndexState.setThread_threads_self]
      exact ⟨ids, id :: locked, located, pending, listed, .inr empty, entries⟩
  | nil =>
    rw [List.map_nil, List.nil_append] at shape
    cases located with
    | cons id located =>
      rw [List.map_cons, List.cons_append, List.cons.injEq] at shape
      obtain ⟨rfl, rfl⟩ := shape
      simp only [IndexState.execute, Option.map_eq_some_iff] at taken
      obtain ⟨loc, mapped, rfl⟩ := taken
      rw [IndexState.setThread_threads_self]
      refine ⟨ids, [], located, rfl, fun other member => listed other (List.mem_cons_of_mem _ member),
        .inl rfl, fun entry member => ?_⟩
      rcases List.mem_append.mp member with old | new
      · exact entries entry old
      · rw [List.mem_singleton.mp new]
        exact ⟨listed id List.mem_cons_self, mapped⟩
    | nil =>
      rw [List.map_nil, List.nil_append, List.cons.injEq] at shape
      obtain ⟨rfl, rfl⟩ := shape
      simp only [IndexState.execute, Option.some.injEq] at taken
      subst taken
      rw [IndexState.setThread_threads_self] at after
      obtain ⟨_, _, equal⟩ := List.mem_map.mp after
      cases equal

omit [LinearOrder Distance] in
theorem reading_advance (after : InPhases next.threads) {choice : Choice}
    (pending : (state.threads agent).pending = [])
    (taken : state.advance params agent choice = some next) (notBackground : agent ≠ .bgIoThread) :
    (next.threads agent).Reading next.layout := by
  intro reads
  have beam : (next.threads agent).phase = .beam := (after.inPhase agent).allows _ reads
  have follows := advance_follows taken notBackground
  unfold IndexState.advance at taken
  cases phase : (state.threads agent).phase with
  | writePq =>
    simp only [phase, Option.some.injEq] at taken
    subst taken
    simp only [IndexState.setThread_threads_self, pending] at reads
    cases reads
  | beam =>
    simp only [phase] at taken
    cases choice with
    | frontier ids =>
      simp only [IndexState.beamStep, Option.some.injEq] at taken
      subst taken
      simp only [IndexState.setThread_threads_self]
      exact ⟨ids, sortUnique ids, ids, rfl, fun _ member => member, .inr trivial,
        (by intros; contradiction)⟩
    | prune | finish =>
      rw [IndexState.beamStep, Option.ite_none_right_eq_some, Option.some.injEq] at taken
      obtain ⟨_, rfl⟩ := taken
      rw [IndexState.setThread_threads_self] at beam
      cases beam
    | _ => cases taken
  | _ =>
    rw [phase, beam] at follows
    exact absurd follows (by decide)

theorem reading_step (sound : Sound params state)
    (reading : ∀ agent, (state.threads agent).Reading state.layout) {action : Action Point}
    (taken : state.step params action = some next) :
    ∀ agent, (next.threads agent).Reading next.layout := by
  intro agent
  -- a thread that another one leaves alone
  have away : next.threads agent = state.threads agent →
      (next.threads agent).Reading next.layout := by
    intro same
    rw [same]
    exact (reading agent).keep fun reads _ member mapped =>
      (reading agent).unmoved sound taken reads member mapped
  rcases IndexState.step_cases taken with ⟨number, request, _, _, started⟩ |
    ⟨runner, _, op, rest, _, pending, ran⟩ | ⟨runner, _, _, pending, ended⟩
  · by_cases starts : agent = .caller number
    · subst starts
      obtain ⟨_, rfl⟩ := IndexState.start_cases started
      dsimp only
      rw [IndexState.setThread_threads_self]
      cases request <;> exact .plain List.not_mem_nil
    · exact away (start_other started starts)
  · by_cases runs : agent = runner
    · subst runs
      exact reading_execute (reading agent) pending ran
    · obtain ⟨later, threads, _⟩ := execute_thread ran
      exact away (by rw [threads, Function.update_of_ne runs])
  · have notBackground : runner ≠ .bgIoThread := by
      rintro rfl
      exact phase_of_advance ended sound.phases.phase_of_background
    have after := inPhases_step sound.phases taken
    by_cases runs : agent = runner
    · subst runs
      exact reading_advance after pending ended notBackground
    · rcases advance_other ended runs with unchanged | ⟨_, rfl, _⟩
      · exact away unchanged
      · refine .plain fun reads => ?_
        have beam : (next.threads .bgIoThread).phase = .beam :=
          (after.inPhase .bgIoThread).allows _ reads
        exact nomatch after.phase_of_background.symm.trans beam

end Reading

/-! ### Puts of own slots -/

/-- The page that the next operation of a thread puts, with its buffer. -/
def Thread.putsFrom (thread : Thread Point) : Option (Nat × Nat) :=
  match thread.pending with
  | .putPage page buf :: _ => some (page, buf)
  | _ => none

/-- A page that the step puts changes in the slots of the insert only. -/
def PutsOwn (params : IndexParams Point Code Distance) (state : IndexState Point Code) :
    Action Point → Prop
  | .step agent _ => ∀ entry ∈ (state.threads agent).putsFrom,
      ∀ slot < params.geometry.nnodesPerSector,
        params.geometry.sectorToLoc entry.1 slot ∉ (state.threads agent).locs →
          (state.threads agent).updateBuf entry.2 slot = state.pages entry.1 slot
  | .call _ _ _ => True

theorem PutsOwn.putsKeep {params : IndexParams Point Code Distance}
    {state : IndexState Point Code} {action : Action Point} (own : PutsOwn params state action)
    (sound : Sound params state) : PutsKeep params state action := by
  cases action with
  | call => trivial
  | step agent choice =>
    rintro _ buf rest pending id loc mapped rfl
    have phase : (state.threads agent).phase = .put :=
      (sound.phases.inPhase agent).allows (.putPage (params.geometry.locSectorNo loc) buf)
        (pending ▸ List.mem_cons_self)
    have puts : (params.geometry.locSectorNo loc, buf) ∈ (state.threads agent).putsFrom := by
      rw [Thread.putsFrom, pending]
      exact Option.mem_some_self _
    refine own _ puts _ (params.geometry.slotOf_lt loc) ?_
    rw [params.geometry.sectorToLoc_locSectorNo]
    exact mapped_not_own sound (by rw [phase]; rfl) mapped

/-! ### Readers -/

/-- A loaded index with its records whose neighbours are mapped and whose points have tags. -/
structure IndexState.LinkedLoaded (params : IndexParams Point Code Distance)
    (state : IndexState Point Code) : Prop where
  records : state.RecordsLoaded params
  linked : ∀ id, state.layout.id2loc id ≠ none → ∀ nbr ∈ (state.record id).nbrs,
    state.layout.id2loc nbr ≠ none
  tagged : ∀ id, state.layout.id2loc id ≠ none → state.tags id ≠ none

/-- What readers rely on. -/
structure Readable (params : IndexParams Point Code Distance) [LinearOrder Distance]
    (state : IndexState Point Code) : Prop where
  undisturbed : Undisturbed params (fun _ => True) state
  linked : Linked params state
  reading : ∀ agent, (state.threads agent).Reading state.layout

section Readable

variable [LinearOrder Distance] {params : IndexParams Point Code Distance}
  {state next : IndexState Point Code}

theorem Readable.step (readable : Readable params state) {action : Action Point}
    (own : PutsOwn params state action) (noOther : UnlocksNoOther state action)
    (taken : state.step params action = some next) : Readable params next where
  undisturbed := readable.undisturbed.step trivial (own.putsKeep readable.undisturbed.sound)
    noOther taken
  linked := readable.linked.step readable.undisturbed taken
  reading := reading_step readable.undisturbed.sound readable.reading taken

theorem IndexState.LinkedLoaded.readable (fresh : state.LinkedLoaded params) :
    Readable params state where
  undisturbed := fresh.records.undisturbed
  linked :=
    { linked := fresh.linked
      tagged := fresh.tagged
      coded := fun agent role => by
        have quiet := fresh.records.loaded.quiescent.not_insert agent
        exact absurd role quiet
      tagging := fun agent writes => by
        have finished := fresh.records.loaded.quiescent.finished agent
        rw [finished] at writes
        rcases writes with ⟨isEdit, _⟩ | isPut
        · cases isEdit
        · cases isPut }
  reading agent := by
    refine .plain fun reads => ?_
    have beam : (state.threads agent).phase = .beam :=
      (fresh.records.loaded.sound.phases.inPhase agent).allows _ reads
    exact nomatch (fresh.records.loaded.quiescent.finished agent).symm.trans beam

/-- The ids in the record at the location of an id are known. -/
theorem Readable.known (readable : Readable params state) {id loc : Nat}
    (mapped : state.layout.id2loc id = some loc) :
    ∀ nbr ∈ (recordAt params.geometry state.pages loc).nbrs, Known params state nbr := by
  intro nbr listed
  rw [readable.undisturbed.recorded id loc mapped] at listed
  refine readable.linked.known readable.undisturbed.sound (readable.linked.linked id ?_ nbr listed)
  rw [mapped]
  nofun

/-- In runs in which every page write changes the slots of its insert only and no insert gives
back a vec lock that another one has, the neighbours in the record of a mapped id are known, and
so are those in the records that a search is about to read. What is known stays known. -/
theorem readers_meet_known_ids (params : IndexParams Point Code Distance)
    {state : IndexState Point Code}
    (reachable : (updateSystem params (IndexState.LinkedLoaded params)).Reachable
      (fun before action => PutsOwn params before action ∧ UnlocksNoOther before action) state) :
    (∀ id loc, state.layout.id2loc id = some loc →
      ∀ nbr ∈ (recordAt params.geometry state.pages loc).nbrs, Known params state nbr) ∧
    (∀ agent, .readFrontier ∈ (state.threads agent).pending →
      ∀ entry ∈ (state.threads agent).frontier,
        ∀ nbr ∈ (recordAt params.geometry state.pages entry.2).nbrs, Known params state nbr) ∧
    ∀ actions last, (updateSystem params (IndexState.LinkedLoaded params)).run state actions =
        some last →
      (updateSystem params (IndexState.LinkedLoaded params)).Along
        (fun before action => PutsOwn params before action ∧ UnlocksNoOther before action)
        state actions →
      ∀ id, Known params state id → Known params last id := by
  have start : ∀ first, IndexState.LinkedLoaded params first → Readable params first :=
    fun _ fresh => fresh.readable
  have keep : ∀ before action after, Readable params before →
      PutsOwn params before action ∧ UnlocksNoOther before action →
        before.step params action = some after → Readable params after :=
    fun _ _ _ readable guarded taken => readable.step guarded.1 guarded.2 taken
  have readable : Readable params state := reachable.invariant start keep
  refine ⟨fun id loc mapped => readable.known mapped, fun agent reads entry member => ?_,
    fun actions last replay along id known => ?_⟩
  · obtain ⟨_, _, _, _, _, _, entries⟩ := readable.reading agent reads
    exact readable.known (entries entry member).2
  · have carried : Readable params last ∧ last.layout.id2loc id ≠ none := by
      refine along.carries (fun before => Readable params before ∧ before.layout.id2loc id ≠ none)
        (fun before action after both guarded taken => ?_) replay ⟨readable, known.mapped⟩
      exact ⟨keep before action after both.1 guarded taken,
        mapped_step both.1.undisturbed.sound taken both.2⟩
    exact carried.1.linked.known carried.1.undisturbed.sound carried.2

end Readable

instance [DecidableEq Point] (params : IndexParams Point Code Distance)
    (state : IndexState Point Code) (action : Action Point) :
    Decidable (PutsOwn params state action) :=
  match action with
  | .call _ _ _ => inferInstanceAs (Decidable True)
  | .step agent _ => inferInstanceAs (Decidable (∀ entry ∈ (state.threads agent).putsFrom,
      ∀ slot < params.geometry.nnodesPerSector,
        params.geometry.sectorToLoc entry.1 slot ∉ (state.threads agent).locs →
          (state.threads agent).updateBuf entry.2 slot = state.pages entry.1 slot))

theorem smallIndex_linked : smallIndex.LinkedLoaded smallParams where
  records := smallIndex_records
  linked id _ nbr listed := by
    have listed : nbr ∈ ([] : List Nat) := listed
    cases listed
  tagged id mapped := by
    show (if id < 2 then some id else none) ≠ none
    have mapped : (if id < 2 then some id else none) ≠ none := mapped
    exact mapped

/-- After two inserts that overlap a search can look up the new points, which are in the list of
their neighbour. -/
theorem readers_meet_known_ids_overlappingInserts :
    Known smallParams ((updateSystem smallParams (IndexState.LinkedLoaded smallParams)).after
        smallIndex overlappingInserts) 2 ∧
      Known smallParams ((updateSystem smallParams (IndexState.LinkedLoaded smallParams)).after
        smallIndex overlappingInserts) 3 := by
  have along : (updateSystem smallParams (IndexState.LinkedLoaded smallParams)).Along
      (fun before action => PutsOwn smallParams before action ∧ UnlocksNoOther before action)
      smallIndex overlappingInserts := by
    decide +kernel
  have reachable := (Transition.System.Reachable.initial smallIndex_linked).after along
  have listed : (recordAt smallParams.geometry ((updateSystem smallParams
      (IndexState.LinkedLoaded smallParams)).after smallIndex overlappingInserts).pages 4).nbrs =
        [2, 3] := by
    decide +kernel
  have known := (readers_meet_known_ids smallParams reachable).1 0 4 (by decide +kernel)
  rw [listed] at known
  exact ⟨known 2 (by decide), known 3 (by decide)⟩

/-- An index of three points. The slots without a point have a record with an id that has never
been given out. -/
def threePoints : IndexState Nat Unit where
  layout := .loadIdentity smallParams.geometry 3
  pages page slot :=
    if (page - 1) * 2 + slot < 3 then ⟨(page - 1) * 2 + slot, []⟩ else ⟨77, [77]⟩
  disk page slot :=
    if (page - 1) * 2 + slot < 3 then ⟨(page - 1) * 2 + slot, []⟩ else ⟨77, [77]⟩
  data _ := ()
  tags id := if id < 3 then some id else none
  curId := 3
  locks _ := none
  holders := []
  record id := ⟨id, []⟩
  threads
    | .bgIoThread => { role := .bgIo, point := 0, updateBuf := fun _ _ => ⟨0, []⟩ }
    | .caller _ => { role := .idle, point := 0, updateBuf := fun _ _ => ⟨0, []⟩ }

theorem threePoints_linked : threePoints.LinkedLoaded smallParams where
  records :=
    { loaded := by
        refine IndexState.PageLayoutLoaded.loaded ⟨?_, .inl rfl, fun agent => ?_⟩
        · exact
            { callers := fun _ => ⟨rfl, rfl, rfl⟩
              bgIo := ⟨rfl, rfl, rfl⟩
              spinning := fun agent => by cases agent <;> rfl
              locks := rfl
              holders := rfl }
        · cases agent <;> exact ⟨rfl, rfl⟩
      recorded := fun id loc mapped => by
        have mapped : (if id < 3 then some id else none) = some loc := mapped
        split at mapped
        · rename_i below
          obtain rfl := Option.some.inj mapped
          have loc_eq : (smallParams.geometry.locSectorNo id - 1) * 2 +
              smallParams.geometry.slotOf id = id :=
            smallParams.geometry.sectorToLoc_locSectorNo id
          show (if (smallParams.geometry.locSectorNo id - 1) * 2 +
            smallParams.geometry.slotOf id < 3 then _ else _) = (⟨id, []⟩ : DiskNode Nat)
          rw [loc_eq, if_pos below]
        · cases mapped }
  linked id _ nbr listed := by
    have listed : nbr ∈ ([] : List Nat) := listed
    cases listed
  tagged id mapped := by
    have mapped : (if id < 3 then some id else none) ≠ none := mapped
    exact mapped

/-- The first insert gives the vec lock of its target 3 back, the second one takes it and gets a slot
next to the id 2, the first one gives it back again. The third insert, with the neighbours 3 and 2,
reads the page of 2 and waits; the second one puts this page and moves 3 to it. The third insert
finds its neighbour 3 on the page that it has read before. -/
def staleCopy : List (Action Nat) :=
  searchThenPrune 0 [0] 4 [0] ++ List.replicate 29 (.step (.caller 0) .go) ++
    searchThenPrune 1 [3, 2] 7 [3] ++ List.replicate 6 (.step (.caller 1) .go) ++
    [.step (.caller 0) .go] ++
    searchThenPrune 2 [3, 2] 7 [3, 2] ++ List.replicate 13 (.step (.caller 2) .go) ++
    List.replicate 24 (.step (.caller 1) .go) ++ List.replicate 16 (.step (.caller 2) .go)

/-- A mapped record gets an id that has no location into its list. -/
theorem reader_meets_unknown_id :
    ¬ ∀ state, (updateSystem smallParams (IndexState.LinkedLoaded smallParams)).Reachable
        (fun before action => PutsOwn smallParams before action) state →
      ∀ id loc, state.layout.id2loc id = some loc →
        ∀ nbr ∈ (recordAt smallParams.geometry state.pages loc).nbrs,
          Known smallParams state nbr := by
  intro met
  have along : (updateSystem smallParams (IndexState.LinkedLoaded smallParams)).Along
      (fun before action => PutsOwn smallParams before action) threePoints staleCopy := by
    decide +kernel
  have reachable := (Transition.System.Reachable.initial threePoints_linked).after along
  have known := met _ reachable 3 8 (by decide +kernel) 77 (by decide +kernel)
  exact known.mapped (by decide +kernel)

end OdinVector
