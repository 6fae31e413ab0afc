/-
This file proves that an insert that runs alone is an insert into the graph of
points. The call and the background thread are the only ones that take steps, from
a state in which nothing is in flight to one in which nothing is again. Whichever
slots `alloc_loc` hands out, on pages of neighbours or not, read or not, each id is
read back with the record that the graph insert gives it.
-/

import OdinVector.PointGraph
import OdinVector.Update.Links
import OdinVector.Update.Persistence
import OdinVector.Update.Release

namespace OdinVector

variable {Point Code Distance : Type}

/-- The graph of an index: every record is read back from the file through `id2loc`. -/
def IndexState.graph (params : IndexParams Point Code Distance) (state : IndexState Point Code) :
    PointGraph Point Code where
  record id := (state.layout.id2loc id).map (recordAt params.geometry state.disk)
  tags := state.tags
  data := state.data
  nextId := state.curId

/-- An index that nothing uses: the maps are inverse to each other, every record is on disk, and
the ids in neighbour lists are mapped. -/
structure IndexState.WellFormed (params : IndexParams Point Code Distance)
    (state : IndexState Point Code) : Prop where
  records : state.RecordsLoaded params
  linked : ∀ id, state.layout.id2loc id ≠ none → ∀ nbr ∈ (state.record id).nbrs,
    state.layout.id2loc nbr ≠ none
  disk : state.disk = state.pages

/-- The index when all calls have returned: their local state is gone. -/
def IndexState.settle (state : IndexState Point Code) : IndexState Point Code :=
  { state with
    threads := fun agent =>
      { role := if agent = .bgIoThread then .bgIo else .idle
        point := (state.threads agent).point
        updateBuf := (state.threads agent).updateBuf } }

/-- A step of the insert or of the background thread. -/
def Action.OfInsert (number : Nat) : Action Point → Prop
  | .step (.caller other) _ => other = number
  | .step .bgIoThread _ => True
  | .call _ _ _ => False

instance (number : Nat) (action : Action Point) : Decidable (action.OfInsert number) :=
  match action with
  | .step (.caller other) _ => inferInstanceAs (Decidable (other = number))
  | .step .bgIoThread _ => inferInstanceAs (Decidable True)
  | .call _ _ _ => inferInstanceAs (Decidable False)

/-- A run of one insert from its start until it has returned and its pages are written. Its
search has expanded a node. -/
structure InsertsAlone [LinearOrder Distance] (params : IndexParams Point Code Distance)
    (first : IndexState Point Code) (number : Nat) (point : Point) (tag : Nat)
    (buffer : Nat → PageImage Point) (actions : List (Action Point))
    (last : IndexState Point Code) : Prop where
  replay : (updateSystem params (IndexState.WellFormed params)).run first
    (.call number (.insertInPlace point tag) buffer :: actions) = some last
  own : ∀ action ∈ actions, action.OfInsert number
  expands : (updateSystem params (IndexState.WellFormed params)).Along ExpandsFirst first
    (.call number (.insertInPlace point tag) buffer :: actions)
  returned : (last.threads (.caller number)).phase = .finish ∧
    (last.threads (.caller number)).pending = []
  written : (last.threads .bgIoThread).pending = []

/-- The phases after the target is mapped and before the locks are given back. -/
def Phase.published : Phase → Bool
  | .lockIdx | .lockPageIdx | .remap => true
  | _ => false

/-- The phases after the slots are committed. -/
def Phase.committed : Phase → Bool
  | .unlock | .finish => true
  | _ => false

/-- The target has been inserted and some of its neighbours have been moved. -/
structure Linking [LinearOrder Distance] (params : IndexParams Point Code Distance)
    (first : IndexState Point Code) (point : Point) (nhood moved : List Nat)
    (state : IndexState Point Code) : Prop where
  mapped : state.layout.id2loc first.curId ≠ none
  target : state.record first.curId = ⟨point, nhood⟩
  linked : ∀ id ∈ moved, id ≠ first.curId → state.layout.id2loc id ≠ none ∧
    state.record id = PointGraph.link params state.data first.curId id (first.record id)
  others : ∀ id, id ≠ first.curId → id ∉ moved →
    state.layout.id2loc id = first.layout.id2loc id ∧ state.record id = first.record id

/-- What is known while an insert runs alone. -/
structure RunsAlone [LinearOrder Distance] (params : IndexParams Point Code Distance)
    (first : IndexState Point Code) (number : Nat) (point : Point) (tag : Nat)
    (state : IndexState Point Code) : Prop where
  undisturbed : Undisturbed params
    (· = Function.update first.data first.curId (params.deflateVector point)) state
  persistent : Persistent params state
  accounted : Accounted state
  handed : state.maps.Handed params.geometry
  apart : ∀ other, other ≠ number → state.threads (.caller other) = first.threads (.caller other)
  role : (state.threads (.caller number)).role = .insertInPlace
  target : (state.threads (.caller number)).target = first.curId
  isPoint : (state.threads (.caller number)).point = point
  hasTag : (state.threads (.caller number)).tag = tag
  started : (state.threads (.caller number)).phase ≠ .writePq
  curId : state.curId = first.curId + 1
  data : state.data = Function.update first.data first.curId (params.deflateVector point)

/-- The insert has written the tag of its target, unless it has still to edit its record. -/
structure TagsAlone (first : IndexState Point Code) (number tag : Nat)
    (state : IndexState Point Code) : Prop where
  either : state.tags = first.tags ∨
    state.tags = Function.update first.tags first.curId (some tag)
  written : (state.threads (.caller number)).phase = .edit ∧
      .writeTarget ∉ (state.threads (.caller number)).pending ∨
      (state.threads (.caller number)).phase = .put ∨
      (state.threads (.caller number)).phase.published ∨
      (state.threads (.caller number)).phase.committed →
    state.tags = Function.update first.tags first.curId (some tag)

/-- How far the insert is with the maps. Before it maps its target all ids are where they were. -/
structure MapsAlone [LinearOrder Distance] (params : IndexParams Point Code Distance)
    (first : IndexState Point Code) (number : Nat) (point : Point)
    (state : IndexState Point Code) : Prop where
  known : (state.threads (.caller number)).phase.committed = false →
    ∀ id ∈ (state.threads (.caller number)).newNhood, first.layout.id2loc id ≠ none
  unread : (state.threads (.caller number)).phase.stage = .reserved →
    ∀ page ∈ (state.threads (.caller number)).pagesLocked,
      page ∉ (state.threads (.caller number)).pagesNeedToRead →
        ∀ id loc, state.layout.id2loc id = some loc → params.geometry.locSectorNo loc ≠ page
  unpublished : (state.threads (.caller number)).phase.published = false →
    (state.threads (.caller number)).phase.committed = false →
      state.layout.id2loc = first.layout.id2loc ∧ state.record = first.record
  published : (state.threads (.caller number)).phase.published →
    Linking params first point (state.threads (.caller number)).newNhood
      ((state.threads (.caller number)).newNhood.take
        (state.threads (.caller number)).origLocs.length) state
  committed : (state.threads (.caller number)).phase.committed →
    ∃ nhood, (state.threads (.caller number)).newNhood = nhood ++ [first.curId] ∧
      (nhood ++ [first.curId]).Nodup ∧ (∀ id ∈ nhood, first.layout.id2loc id ≠ none) ∧
        Linking params first point nhood nhood state

section Steps

variable [LinearOrder Distance] {params : IndexParams Point Code Distance}
  {first state next : IndexState Point Code} {number : Nat} {point : Point} {tag : Nat}

/-! ### The other threads -/

/-- Calls that have not started are idle. -/
theorem RunsAlone.idle (alone : RunsAlone params first number point tag state)
    (fresh : first.WellFormed params) {other : Nat} (different : other ≠ number) :
    (state.threads (.caller other)).role = .idle ∧
      (state.threads (.caller other)).pending = [] := by
  have quiescent := fresh.records.loaded.quiescent.callers other
  rw [alone.apart other different]
  exact ⟨quiescent.1, quiescent.2.1⟩

/-- Only the call that runs has vec locks. -/
theorem RunsAlone.noOther (alone : RunsAlone params first number point tag state)
    (fresh : first.WellFormed params) {action : Action Point} (own : action.OfInsert number) :
    UnlocksNoOther state action := by
  have sound := alone.undisturbed.sound
  cases action with
  | call => trivial
  | step agent choice =>
    intro again holding member
    have whole := again
    rw [Thread.UnlocksAgain] at whole
    split at whole
    swap
    · exact whole.elim
    rename_i lock pending
    subst whole
    have notHeld := mt (held_iff sound.phases (sound.shapes agent) (alone.undisturbed.kept agent)
      pending).mp (not_not.mpr again)
    intro isTarget
    obtain ⟨holder, key, mode⟩ := holding
    obtain rfl : key = .vec (state.threads agent).target := isTarget
    have held := Holding.mem_heldBy.mpr ⟨mode, member⟩
    have different : holder ≠ agent := by
      rintro rfl
      exact notHeld held
    have unlocking : (state.threads agent).phase = .unlock :=
      (unlock_vec_phase sound.phases (by rw [pending]; exact List.mem_cons_self)).1
    have isCall : agent = .caller number := by
      cases agent with
      | bgIoThread => exact nomatch sound.phases.phase_of_background.symm.trans unlocking
      | caller other => exact congrArg Agent.caller own
    subst isCall
    cases holder with
    | bgIoThread =>
      have inHand := mem_vecsInHand.mpr held
      rw [(alone.undisturbed.kept .bgIoThread).outside
        (by rw [sound.phases.phase_of_background]; nofun)
        (by rw [sound.phases.phase_of_background]; rfl)] at inHand
      cases inHand
    | caller other =>
      have idle := (alone.idle fresh fun same => different (congrArg Agent.caller same)).1
      rw [sound.phases.heldBy_idle sound.keeps idle] at held
      cases held

/-- A page that the insert puts without having read it has no mapped id on it. -/
theorem MapsAlone.putsKeep (maps : MapsAlone params first number point state)
    (alone : RunsAlone params first number point tag state) {action : Action Point}
    (own : action.OfInsert number) : PutsKeep params state action := by
  have sound := alone.undisturbed.sound
  have sighted : NoBlindPut params state action := by
    cases action with
    | call => trivial
    | step agent choice =>
      intro page puts unread id _ loc mapped
      rw [Thread.puts] at puts
      split at puts
      swap
      · cases puts
      rename_i put buf rest pending
      obtain rfl : page = put := (Option.mem_some.mp puts).symm
      have member : .putPage page buf ∈ (state.threads agent).pending := by
        rw [pending]
        exact List.mem_cons_self
      have phase : (state.threads agent).phase = .put :=
        (sound.phases.inPhase agent).allows _ member
      cases agent with
      | bgIoThread => cases sound.phases.phase_of_background.symm.trans phase
      | caller other =>
        obtain rfl : other = number := own
        have locked := mem_pagesLocked
          ((alone.undisturbed.buffered (.caller other)).putting phase page buf member)
        exact maps.unread (by rw [phase]; rfl) page locked unread id loc mapped
  exact sighted.putsKeep sound alone.undisturbed.buffered alone.undisturbed.mirrors

/-! ### Every step -/

theorem execute_tags {agent : Agent} {op : Op Point} {rest : List (Op Point)}
    (notTarget : op ≠ .writeTarget)
    (taken : state.execute params agent { state.threads agent with pending := rest } op =
      some next) : next.tags = state.tags := by
  cases op with
  | writeTarget => exact absurd rfl notTarget
  | lock lock mode =>
    simp only [IndexState.execute, IndexState.tryLock, Option.some.injEq] at taken
    split at taken <;> exact taken ▸ rfl
  | locate | planNeighbor | remap | sendRead =>
    simp only [IndexState.execute, Option.map_eq_some_iff] at taken
    obtain ⟨_, _, rfl⟩ := taken
    rfl
  | snapshot | writeNeighbor =>
    simp only [IndexState.execute, Option.bind_eq_some_iff, Option.map_eq_some_iff] at taken
    obtain ⟨_, _, _, _, rfl⟩ := taken
    rfl
  | unlock | readFrontier | readPage | putPage | writeDisk =>
    simp only [IndexState.execute, Option.some.injEq] at taken
    subst taken
    rfl

/-- What a step of the insert or of the background thread is. -/
theorem step_alone (sound : Sound params state) {action : Action Point}
    (own : action.OfInsert number) (taken : state.step params action = some next) :
    (∃ op rest, (state.threads .bgIoThread).pending = op :: rest ∧
      state.execute params .bgIoThread { state.threads .bgIoThread with pending := rest } op =
        some next) ∨
    (∃ op rest, (state.threads (.caller number)).pending = op :: rest ∧
      state.execute params (.caller number)
        { state.threads (.caller number) with pending := rest } op = some next) ∨
    (∃ choice, action = .step (.caller number) choice ∧
      (state.threads (.caller number)).pending = [] ∧
      state.advance params (.caller number) choice = some next) := by
  rcases IndexState.step_cases taken with ⟨_, _, _, rfl, _⟩ |
    ⟨agent, _, op, rest, rfl, pending, ran⟩ | ⟨agent, choice, rfl, pending, ended⟩
  · exact own.elim
  · cases agent with
    | bgIoThread => exact .inl ⟨op, rest, pending, ran⟩
    | caller other =>
      obtain rfl : other = number := own
      exact .inr (.inl ⟨op, rest, pending, ran⟩)
  · cases agent with
    | bgIoThread => exact absurd sound.phases.phase_of_background (phase_of_advance ended)
    | caller other =>
      obtain rfl : other = number := own
      exact .inr (.inr ⟨choice, rfl, pending, ended⟩)

/-- An operation of the background thread leaves the call, the maps and the tags. -/
theorem background_frame (sound : Sound params state) {op : Op Point} {rest : List (Op Point)}
    (pending : (state.threads .bgIoThread).pending = op :: rest)
    (ran : state.execute params .bgIoThread
      { state.threads .bgIoThread with pending := rest } op = some next) :
    (∀ other, next.threads (.caller other) = state.threads (.caller other)) ∧
      next.layout = state.layout ∧ next.record = state.record ∧ next.tags = state.tags ∧
        next.data = state.data ∧ next.curId = state.curId := by
  have allows := (sound.phases.inPhase .bgIoThread).allows op
    (by rw [pending]; exact List.mem_cons_self)
  rw [sound.phases.phase_of_background] at allows
  have notRemap : ∀ id loc, op ≠ .remap id loc := by
    rintro id loc rfl
    cases allows
  have notTarget : op ≠ .writeTarget := by
    rintro rfl
    cases allows
  obtain ⟨later, threads, _⟩ := execute_thread ran
  obtain ⟨layout, curId, record, _⟩ := execute_layout notRemap ran
  refine ⟨fun other => ?_, layout, record, execute_tags notTarget ran, (execute_data ran).1, curId⟩
  rw [threads, Function.update_of_ne (by simp)]

theorem RunsAlone.step (alone : RunsAlone params first number point tag state)
    (maps : MapsAlone params first number point state) (fresh : first.WellFormed params)
    {action : Action Point} (own : action.OfInsert number) (expands : ExpandsFirst state action)
    (taken : state.step params action = some next) :
    RunsAlone params first number point tag next := by
  have sound := alone.undisturbed.sound
  have frame : (∀ other, other ≠ number →
        next.threads (.caller other) = state.threads (.caller other)) ∧
      (next.threads (.caller number)).role = (state.threads (.caller number)).role ∧
      (next.threads (.caller number)).target = (state.threads (.caller number)).target ∧
      (next.threads (.caller number)).point = (state.threads (.caller number)).point ∧
      (next.threads (.caller number)).tag = (state.threads (.caller number)).tag ∧
      (next.threads (.caller number)).phase ≠ .writePq ∧ next.curId = state.curId ∧
        next.data = state.data := by
    rcases step_alone sound own taken with ⟨op, rest, pending, ran⟩ | ⟨op, rest, pending, ran⟩ |
      ⟨choice, _, pending, ended⟩
    · obtain ⟨threads, _, _, _, data, curId⟩ := background_frame sound pending ran
      rw [threads number]
      exact ⟨fun other _ => threads other, rfl, rfl, rfl, rfl, alone.started, curId, data⟩
    · obtain ⟨later, threads, same, _⟩ := execute_thread ran
      obtain ⟨data, curId, _⟩ := execute_data ran
      rw [threads, Function.update_self]
      refine ⟨fun other different => Function.update_of_ne (by simpa using different) _ _,
        same.role, same.target, same.point, same.tag, ?_, curId, data⟩
      rw [same.phase]
      exact alone.started
    · have framed := advance_frame ended nofun
      refine ⟨fun other different => ?_, framed.role, framed.target, framed.point, framed.tag, ?_,
        framed.curId, advance_data alone.started ended⟩
      · have away : Agent.caller other ≠ .caller number := by simpa using different
        rcases advance_other ended away with kept | ⟨_, background, _⟩
        · exact kept
        · cases background
      · intro first
        have follows := advance_follows ended nofun
        rw [first] at follows
        revert follows
        cases (state.threads (.caller number)).phase <;> decide
  obtain ⟨others, role, target, isPoint, hasTag, started, curId, data⟩ := frame
  exact
    { undisturbed := alone.undisturbed.step alone.data (maps.putsKeep alone own)
        (alone.noOther fresh own) taken
      persistent := alone.persistent.step expands taken
      accounted := alone.accounted.step sound taken
      handed := alone.handed.step sound.tracked (maps_step sound taken)
      apart := fun other different => (others other different).trans (alone.apart other different)
      role := role.trans alone.role
      target := target.trans alone.target
      isPoint := isPoint.trans alone.isPoint
      hasTag := hasTag.trans alone.hasTag
      started := started
      curId := curId.trans alone.curId
      data := data.trans alone.data }

omit [LinearOrder Distance] in
/-- The search of an insert goes on or chooses neighbours. -/
theorem beam_goesOn {agent : Agent} {choice : Choice}
    (role : (state.threads agent).role = .insertInPlace)
    (phase : (state.threads agent).phase = .beam)
    (ended : state.advance params agent choice = some next) :
    (next.threads agent).phase = .beam ∨ (next.threads agent).phase = .alloc := by
  unfold IndexState.advance at ended
  simp only [phase] at ended
  cases choice with
  | frontier ids =>
    simp only [IndexState.beamStep, Option.some.injEq] at ended
    subst ended
    rw [IndexState.setThread_threads_self]
    exact .inl phase
  | prune nhood =>
    rw [IndexState.beamStep, Option.ite_none_right_eq_some, Option.some.injEq] at ended
    obtain ⟨_, rfl⟩ := ended
    rw [IndexState.setThread_threads_self]
    exact .inr rfl
  | finish =>
    rw [IndexState.beamStep, Option.ite_none_right_eq_some] at ended
    cases role.symm.trans ended.1
  | _ => cases ended

theorem TagsAlone.step (tags : TagsAlone first number tag state)
    (alone : RunsAlone params first number point tag state) {action : Action Point}
    (own : action.OfInsert number) (taken : state.step params action = some next) :
    TagsAlone first number tag next := by
  have sound := alone.undisturbed.sound
  rcases step_alone sound own taken with ⟨op, rest, pending, ran⟩ | ⟨op, rest, pending, ran⟩ |
    ⟨choice, _, pending, ended⟩
  · obtain ⟨threads, _, _, same, _⟩ := background_frame sound pending ran
    refine ⟨same ▸ tags.either, fun later => ?_⟩
    rw [threads number] at later
    exact same.trans (tags.written later)
  · obtain ⟨later, threads, same, popped⟩ := execute_thread ran
    by_cases isTarget : op = .writeTarget
    · subst isTarget
      have written : next.tags = Function.update first.tags first.curId (some tag) := by
        simp only [IndexState.execute, Option.map_eq_some_iff] at ran
        obtain ⟨_, _, rfl⟩ := ran
        show Function.update state.tags _ (some _) = _
        rw [alone.target, alone.hasTag]
        rcases tags.either with before | before
        · rw [before]
        · rw [before, Function.update_idem]
      exact ⟨.inr written, fun _ => written⟩
    · have sameTags := execute_tags isTarget ran
      refine ⟨sameTags ▸ tags.either, fun isLater => sameTags.trans (tags.written ?_)⟩
      rw [threads, Function.update_self, same.phase] at isLater
      refine isLater.imp_left fun edits => ⟨edits.1, fun member => edits.2 ?_⟩
      rcases popped with ⟨left, _⟩ | ⟨_, _, _, still, _⟩
      · rw [pending] at member
        rw [left]
        exact (List.mem_cons.mp member).resolve_left (Ne.symm isTarget)
      · rwa [still]
  · have sameTags := (advance_frame ended (fun equal => by cases equal)).tags
    refine ⟨sameTags ▸ tags.either, fun isLater => sameTags.trans (tags.written ?_)⟩
    have follows := advance_follows ended (fun equal => by cases equal)
    have visits := (sound.phases.inPhase (.caller number)).visits
    rw [alone.role] at visits
    have noTarget : .writeTarget ∉ (state.threads (.caller number)).pending := by
      rw [pending]
      exact List.not_mem_nil
    cases phase : (state.threads (.caller number)).phase with
    | edit => exact .inl ⟨rfl, noTarget⟩
    | put => exact .inr (.inl rfl)
    | lockIdx | lockPageIdx | remap => exact .inr (.inr (.inl rfl))
    | unlock | finish => exact .inr (.inr (.inr rfl))
    | read =>
      -- the tag is still to be written
      unfold IndexState.advance at ended
      simp only [phase, Option.some.injEq] at ended
      subst ended
      rw [IndexState.setThread_threads_self] at isLater
      rcases isLater with ⟨_, written⟩ | isPut | published | committed
      · exact absurd List.mem_cons_self written
      · cases isPut
      · cases published
      · cases committed
    | pageLoop | pageLock | pipeLoop =>
      rw [phase] at visits
      cases visits
    | beam =>
      have goesOn := beam_goesOn alone.role phase ended
      rcases goesOn with searching | chosen
      · rw [searching] at isLater
        simp [Phase.published, Phase.committed] at isLater
      · rw [chosen] at isLater
        simp [Phase.published, Phase.committed] at isLater
    | writePq | alloc | lockPages | lockVec | plan =>
      rw [phase, Phase.follows, List.mem_singleton] at follows
      rw [follows] at isLater
      simp [Phase.published, Phase.committed] at isLater

/-! ### The maps -/

omit [LinearOrder Distance] in
/-- The call is as far with the maps as it was. -/
structure SameMaps (state next : IndexState Point Code) (number : Nat) : Prop where
  isPublished : (next.threads (.caller number)).phase.published =
    (state.threads (.caller number)).phase.published
  isCommitted : (next.threads (.caller number)).phase.committed =
    (state.threads (.caller number)).phase.committed
  reserved : (next.threads (.caller number)).phase.stage = .reserved →
    (state.threads (.caller number)).phase.stage = .reserved
  newNhood : (next.threads (.caller number)).newNhood = (state.threads (.caller number)).newNhood
  origLocs : (next.threads (.caller number)).origLocs = (state.threads (.caller number)).origLocs
  pagesLocked : (next.threads (.caller number)).pagesLocked =
    (state.threads (.caller number)).pagesLocked
  needRead : (next.threads (.caller number)).pagesNeedToRead =
    (state.threads (.caller number)).pagesNeedToRead
  id2loc : next.layout.id2loc = state.layout.id2loc
  record : next.record = state.record
  data : next.data = state.data

theorem Linking.congr {nhood moved : List Nat}
    (linking : Linking params first point nhood moved state)
    (id2loc : next.layout.id2loc = state.layout.id2loc) (record : next.record = state.record)
    (data : next.data = state.data) : Linking params first point nhood moved next where
  mapped := id2loc ▸ linking.mapped
  target := record ▸ linking.target
  linked := by
    rw [id2loc, record, data]
    exact linking.linked
  others := by
    rw [id2loc, record]
    exact linking.others

theorem MapsAlone.congr (maps : MapsAlone params first number point state)
    (same : SameMaps state next number) : MapsAlone params first number point next where
  known := by
    rw [same.isCommitted, same.newNhood]
    exact maps.known
  unread reserved := by
    rw [same.pagesLocked, same.needRead, same.id2loc]
    exact maps.unread (same.reserved reserved)
  unpublished := by
    rw [same.isPublished, same.isCommitted, same.id2loc, same.record]
    exact maps.unpublished
  published := by
    rw [same.isPublished, same.newNhood, same.origLocs]
    exact fun phase => (maps.published phase).congr same.id2loc same.record same.data
  committed := by
    rw [same.isCommitted, same.newNhood]
    intro phase
    obtain ⟨nhood, ends, nodup, known, linking⟩ := maps.committed phase
    exact ⟨nhood, ends, nodup, known, linking.congr same.id2loc same.record same.data⟩

/-- An operation that maps nothing. -/
theorem MapsAlone.execute (maps : MapsAlone params first number point state) {op : Op Point}
    {rest : List (Op Point)} (notRemap : ∀ id loc, op ≠ .remap id loc)
    (ran : state.execute params (.caller number)
      { state.threads (.caller number) with pending := rest } op = some next) :
    MapsAlone params first number point next := by
  obtain ⟨later, threads, same, _⟩ := execute_thread ran
  obtain ⟨layout, _, record, origLocs⟩ := execute_layout notRemap ran
  have thread : next.threads (.caller number) = later := by
    rw [threads, Function.update_self]
  refine maps.congr ⟨?_, ?_, ?_, ?_, origLocs, ?_, ?_, ?_, record, (execute_data ran).1⟩
  · rw [thread, same.phase]
  · rw [thread, same.phase]
  · rw [thread, same.phase]
    exact id
  · rw [thread, same.newNhood]
  · rw [thread, same.pagesLocked]
  · rw [thread, same.pagesNeedToRead]
  · rw [layout]

omit [LinearOrder Distance] in
/-- The ids of an insert that has its slots are distinct. -/
theorem nodup_nhood (sound : Sound params state) {agent : Agent}
    (role : (state.threads agent).role = .insertInPlace)
    (engaged : (state.threads agent).phase.stage.Engaged) :
    ((state.threads agent).newNhood ++ [(state.threads agent).target]).Nodup :=
  (sound.tracked.valid agent _ (Thread.reservation_eq role)).nodup engaged

/-- The neighbours are chosen. -/
theorem MapsAlone.prune (maps : MapsAlone params first number point state)
    (alone : RunsAlone params first number point tag state) {nhood : List Nat}
    (phase : (state.threads (.caller number)).phase = .beam)
    (ended : state.advance params (.caller number) (.prune nhood) = some next) :
    MapsAlone params first number point next := by
  have before := maps.unpublished (by rw [phase]; rfl) (by rw [phase]; rfl)
  simp only [IndexState.advance, phase, IndexState.beamStep, Option.ite_none_right_eq_some,
    Option.some.injEq] at ended
  obtain ⟨⟨_, _, expanded⟩, rfl⟩ := ended
  refine ⟨fun _ => ?_, ?_, fun _ _ => before, ?_, ?_⟩
  · rw [IndexState.setThread_threads_self]
    intro id member
    rw [← before.1]
    exact alone.undisturbed.sound.seen _ id (.inl (expanded id member))
  all_goals
    rw [IndexState.setThread_threads_self]
    exact fun equal => by cases equal

/-- The slots are handed out. A page that is not read has no mapped id on it. -/
theorem MapsAlone.alloc (maps : MapsAlone params first number point state)
    (alone : RunsAlone params first number point tag state) {choice : Choice}
    (phase : (state.threads (.caller number)).phase = .alloc)
    (ended : state.advance params (.caller number) choice = some next) :
    MapsAlone params first number point next := by
  have sound := alone.undisturbed.sound
  have before := maps.unpublished (by rw [phase]; rfl) (by rw [phase]; rfl)
  simp only [IndexState.advance, phase, IndexState.allocStep, Option.map_eq_some_iff] at ended
  obtain ⟨_, allocated, rfl⟩ := ended
  obtain ⟨layout, locs, needRead, result, _, takes⟩ := Layout.allocLoc_spec sound.tracked.formed
    (Nat.succ_pos (state.threads (.caller number)).newNhood.length)
    (state.threads (.caller number)).pageRef
  obtain rfl := Option.some.inj (result.symm.trans allocated)
  have unpublished : layout.id2loc = first.layout.id2loc ∧ state.record = first.record :=
    ⟨takes.id2loc.trans before.1, before.2⟩
  refine ⟨fun _ => ?_, fun _ => ?_, fun _ _ => unpublished, ?_, ?_⟩
  · rw [IndexState.setThread_threads_self]
    exact maps.known (by rw [phase]; rfl)
  · rw [IndexState.setThread_threads_self]
    intro page locked unread id loc mapped here
    have locked : page ∈ sortUnique (locs.map params.geometry.locSectorNo) := locked
    rw [mem_sortUnique, List.mem_map] at locked
    obtain ⟨slot, member, rfl⟩ := locked
    have mapped : layout.id2loc id = some loc := mapped
    rw [takes.id2loc] at mapped
    exact sound.tracked.used mapped (takes.unread slot member unread loc here)
  all_goals
    rw [IndexState.setThread_threads_self]
    exact fun equal => by cases equal

theorem MapsAlone.remap (maps : MapsAlone params first number point state)
    (alone : RunsAlone params first number point tag state) {id loc : Nat} {rest : List (Op Point)}
    (pending : (state.threads (.caller number)).pending = .remap id loc :: rest)
    (ran : state.execute params (.caller number)
      { state.threads (.caller number) with pending := rest } (.remap id loc) = some next) :
    MapsAlone params first number point next := by
  have sound := alone.undisturbed.sound
  obtain ⟨phase, atId, _⟩ := remap_head sound pending
  have nodup := nodup_nhood sound alone.role (by rw [phase]; exact ⟨(by decide), (by decide)⟩)
  rw [alone.target] at nodup
  have linking := maps.published (by rw [phase]; rfl)
  have inside := (List.getElem?_eq_some_iff.mp atId).1
  have notTarget : id ≠ first.curId := by
    rintro rfl
    exact (List.disjoint_of_nodup_append nodup) (List.mem_of_getElem? atId)
      (List.mem_singleton.mpr rfl)
  -- the neighbour has not been moved
  have unmoved : id ∉ (state.threads (.caller number)).newNhood.take
      (state.threads (.caller number)).origLocs.length := by
    intro early
    obtain ⟨index, listed⟩ := List.mem_iff_getElem?.mp early
    rw [List.getElem?_take, Option.ite_none_right_eq_some] at listed
    have same := (List.getElem?_inj inside (List.Nodup.of_append_left nodup)).mp
      (atId.trans listed.2.symm)
    omega
  have before := linking.others id notTarget unmoved
  have mapped : state.layout.id2loc id ≠ none := by
    rw [before.1]
    exact maps.known (by rw [phase]; rfl) id (List.mem_of_getElem? atId)
  obtain ⟨current, here⟩ := Option.ne_none_iff_exists'.mp mapped
  obtain ⟨data, rfl, written⟩ := remapped_record sound (alone.undisturbed.buffered _)
    (alone.undisturbed.mirrors _) alone.undisturbed.recorded alone.undisturbed.copies pending here
  simp only [IndexState.execute, here, Option.map_some, Option.some.injEq] at ran
  have thread : next.threads (.caller number) =
      { state.threads (.caller number) with
        pending := rest
        origLocs := (state.threads (.caller number)).origLocs ++ [current] } := by
    rw [← ran]
    exact Function.update_self _ _ _
  have id2loc : next.layout.id2loc = Function.update state.layout.id2loc id (some loc) := by
    rw [← ran]
    rfl
  have record : next.record = Function.update state.record id
      (IndexState.bufRecord params (state.threads (.caller number)) loc) := by
    rw [← ran]
    rfl
  have data : next.data = state.data := by
    rw [← ran]
    rfl
  have taken : (state.threads (.caller number)).newNhood.take
      ((state.threads (.caller number)).origLocs ++ [current]).length =
        (state.threads (.caller number)).newNhood.take
          (state.threads (.caller number)).origLocs.length ++ [id] := by
    rw [List.length_append, List.length_singleton, List.take_add_one, atId]
    rfl
  have notPublished : ∀ {goal : Prop}, (next.threads (.caller number)).phase.published = false →
      goal := by
    intro goal unpublished
    rw [thread] at unpublished
    cases (congrArg Phase.published phase).symm.trans unpublished
  have notCommitted : ∀ {goal : Prop}, (next.threads (.caller number)).phase.committed →
      goal := by
    intro goal committed
    rw [thread] at committed
    cases (congrArg Phase.committed phase).symm.trans committed
  refine ⟨fun uncommitted => ?_, fun reserved => ?_, notPublished, fun _ => ?_, notCommitted⟩
  · rw [thread]
    exact maps.known (by rw [phase]; rfl)
  · rw [thread] at reserved
    cases (congrArg Phase.stage phase).symm.trans reserved
  · rw [thread]
    show Linking _ _ _ _ (_ : List Nat) _
    rw [taken]
    refine ⟨?_, ?_, fun other member different => ?_, fun other different unmoved => ?_⟩
    · rw [id2loc, Function.update_of_ne (Ne.symm notTarget)]
      exact linking.mapped
    · rw [record, Function.update_of_ne (Ne.symm notTarget)]
      exact linking.target
    · rw [id2loc, record, data]
      by_cases isHead : other = id
      · subst isHead
        rw [Function.update_self, Function.update_self, written, alone.target, before.2,
          alone.data]
        exact ⟨(fun equal => by cases equal), rfl⟩
      · rw [Function.update_of_ne isHead, Function.update_of_ne isHead]
        refine linking.linked other ?_ different
        exact (List.mem_append.mp member).resolve_right (by simpa using isHead)
    · rw [List.mem_append, not_or, List.mem_singleton] at unmoved
      rw [id2loc, record, Function.update_of_ne unmoved.2, Function.update_of_ne unmoved.2]
      exact linking.others other different unmoved.1

/-- The target is mapped to the record that was written for it. -/
theorem MapsAlone.publish (maps : MapsAlone params first number point state)
    (alone : RunsAlone params first number point tag state) {choice : Choice}
    (phase : (state.threads (.caller number)).phase = .put)
    (pending : (state.threads (.caller number)).pending = [])
    (ended : state.advance params (.caller number) choice = some next) :
    MapsAlone params first number point next := by
  have sound := alone.undisturbed.sound
  have before := maps.unpublished (by rw [phase]; rfl) (by rw [phase]; rfl)
  have unmoved : (state.threads (.caller number)).origLocs = [] :=
    (sound.shapes _).unmoved (by rw [phase]; decide) (by rw [phase]; decide) (by rw [phase]; decide)
  simp only [IndexState.advance, phase, IndexState.publishStep, Option.map_eq_some_iff] at ended
  obtain ⟨loc, last, rfl⟩ := ended
  have written : IndexState.bufRecord params (state.threads (.caller number)) loc =
      ⟨point, (state.threads (.caller number)).newNhood⟩ := by
    rw [← alone.isPoint]
    refine (alone.undisturbed.copies.edited _).target (by rw [phase]; rfl) ?_ loc last
    rw [pending]
    exact List.not_mem_nil
  simp only [IndexState.mapId, alone.target]
  refine ⟨fun _ => ?_, ?_, ?_, fun _ => ?_, ?_⟩
  · rw [IndexState.setThread_threads_self]
    exact maps.known (by rw [phase]; rfl)
  · rw [IndexState.setThread_threads_self]
    exact fun equal => by cases equal
  · rw [IndexState.setThread_threads_self]
    exact fun equal => by cases equal
  · rw [IndexState.setThread_threads_self]
    refine ⟨?_, ?_, fun id member => ?_, fun id different _ => ?_⟩
    · show Function.update state.layout.id2loc first.curId (some loc) first.curId ≠ none
      rw [Function.update_self]
      exact Option.some_ne_none _
    · show Function.update state.record first.curId _ first.curId = _
      rw [Function.update_self, written]
    · have member : id ∈ (state.threads (.caller number)).newNhood.take
          (state.threads (.caller number)).origLocs.length := member
      rw [unmoved] at member
      cases member
    · show Function.update state.layout.id2loc first.curId _ id = _ ∧
        Function.update state.record first.curId _ id = _
      rw [Function.update_of_ne different, Function.update_of_ne different, before.1, before.2]
      exact ⟨rfl, rfl⟩
  · rw [IndexState.setThread_threads_self]
    exact fun equal => by cases equal

/-- All neighbours are moved when the slots are committed. -/
theorem MapsAlone.commit (maps : MapsAlone params first number point state)
    (alone : RunsAlone params first number point tag state) {choice : Choice}
    (phase : (state.threads (.caller number)).phase = .remap)
    (pending : (state.threads (.caller number)).pending = [])
    (ended : state.advance params (.caller number) choice = some next) :
    MapsAlone params first number point next := by
  have sound := alone.undisturbed.sound
  have nodup := nodup_nhood sound alone.role (by rw [phase]; exact ⟨(by decide), (by decide)⟩)
  rw [alone.target] at nodup
  have known := maps.known (by rw [phase]; rfl)
  have linking := maps.published (by rw [phase]; rfl)
  have length : (state.threads (.caller number)).locs.length =
      (state.threads (.caller number)).newNhood.length + 1 := by
    refine (sound.tracked.valid _ _ (Thread.reservation_eq alone.role)).length ?_
    rw [phase]
    exact .inr (.inr rfl)
  have all : (state.threads (.caller number)).newNhood.length ≤
      (state.threads (.caller number)).origLocs.length := by
    have shape := (sound.shapes (.caller number)).moving phase
    rw [pending] at shape
    have none := List.drop_eq_nil_iff.mp (List.map_eq_nil_iff.mp shape.symm)
    rw [List.length_zip, length] at none
    omega
  rw [List.take_of_length_le all] at linking
  simp only [IndexState.advance, phase, Option.some.injEq] at ended
  subst ended
  simp only [IndexState.commitStep, alone.target]
  refine ⟨?_, ?_, ?_, ?_, fun _ => ?_⟩
  case refine_5 =>
    rw [IndexState.setThread_threads_self]
    refine ⟨_, rfl, nodup, known, linking.congr ?_ rfl rfl⟩
    exact Layout.eraseAndSetLoc_id2loc _ _ _ _
  case refine_3 =>
    rw [IndexState.setThread_threads_self]
    intro published committed
    cases committed
  all_goals
    rw [IndexState.setThread_threads_self]
    exact fun equal => by cases equal

omit [LinearOrder Distance] in
/-- The phases that end without a change of the maps. -/
theorem sameMaps_advance {choice : Choice}
    (phase : (state.threads (.caller number)).phase ∈
      [Phase.lockPages, .lockVec, .plan, .read, .edit, .lockIdx, .lockPageIdx, .unlock])
    (ended : state.advance params (.caller number) choice = some next) :
    SameMaps state next number := by
  cases IndexState.advances ended with
  | lockPages now | lockVec now | plan now | read now | edit now | lockPageIdx now =>
    refine ⟨?_, ?_, ?_, ?_, ?_, ?_, ?_, rfl, rfl, rfl⟩
    all_goals rw [IndexState.setThread_threads_self]
    · rw [now]
      rfl
    · rw [now]
      rfl
    · rw [now]
      exact fun reserved => by cases reserved <;> rfl
    all_goals rfl
  | lockIdx now | giveBack now =>
    refine ⟨?_, ?_, ?_, ?_, ?_, ?_, ?_, rfl, rfl, rfl⟩
    all_goals rw [IndexState.setThread_threads_self]
    · rw [now]
      rfl
    · rw [now]
      rfl
    · rintro ⟨⟩
  | handOff now =>
    refine ⟨?_, ?_, ?_, ?_, ?_, ?_, ?_, rfl, rfl, rfl⟩
    all_goals
      dsimp only
      rw [IndexState.setThread_threads_other _ _ (by simp), IndexState.setThread_threads_self]
    · rw [now]
      rfl
    · rw [now]
      rfl
    · rintro ⟨⟩
  | writePq now | beam now | prune now | beamFinish now | alloc now | put now | remap now
  | pageLoop now | pageFinish now | pageLock now | send now | complete now | pipeFinish now =>
    simp [now] at phase

theorem MapsAlone.step (maps : MapsAlone params first number point state)
    (alone : RunsAlone params first number point tag state) {action : Action Point}
    (own : action.OfInsert number) (taken : state.step params action = some next) :
    MapsAlone params first number point next := by
  have sound := alone.undisturbed.sound
  rcases step_alone sound own taken with ⟨op, rest, pending, ran⟩ | ⟨op, rest, pending, ran⟩ |
    ⟨choice, _, pending, ended⟩
  · obtain ⟨threads, layout, record, _, data, _⟩ := background_frame sound pending ran
    have thread := threads number
    refine maps.congr ⟨?_, ?_, ?_, ?_, ?_, ?_, ?_, ?_, record, data⟩
    case refine_8 => rw [layout]
    all_goals rw [thread]
    exact id
  · by_cases isRemap : ∃ id loc, op = .remap id loc
    · obtain ⟨id, loc, rfl⟩ := isRemap
      exact maps.remap alone pending ran
    · exact maps.execute (fun id loc same => isRemap ⟨id, loc, same⟩) ran
  · have quiet : (state.threads (.caller number)).phase ∈
        [Phase.lockPages, .lockVec, .plan, .read, .edit, .lockIdx, .lockPageIdx, .unlock] →
          MapsAlone params first number point next :=
      fun phase => maps.congr (sameMaps_advance phase ended)
    have visits := (sound.phases.inPhase (.caller number)).visits
    rw [alone.role] at visits
    cases phase : (state.threads (.caller number)).phase with
    | writePq => exact absurd phase alone.started
    | beam =>
      cases choice with
      | prune nhood => exact maps.prune alone phase ended
      | frontier ids =>
        simp only [IndexState.advance, phase, IndexState.beamStep, Option.some.injEq] at ended
        subst ended
        refine maps.congr ⟨?_, ?_, ?_, ?_, ?_, ?_, ?_, rfl, rfl, rfl⟩
        all_goals rw [IndexState.setThread_threads_self]
        · rw [phase]
        · rw [phase]
        · rintro ⟨⟩
      | finish =>
        simp only [IndexState.advance, phase, IndexState.beamStep,
          Option.ite_none_right_eq_some] at ended
        cases alone.role.symm.trans ended.1
      | _ => simp [IndexState.advance, phase, IndexState.beamStep] at ended
    | alloc => exact maps.alloc alone phase ended
    | put => exact maps.publish alone phase pending ended
    | remap => exact maps.commit alone phase pending ended
    | finish => exact absurd phase (phase_of_advance ended)
    | pageLoop | pageLock | pipeLoop =>
      rw [phase] at visits
      cases visits
    | _ => exact quiet (by rw [phase]; decide)

/-! ### From the start to the end -/

/-- A call that has its PQ code written and has not searched yet. -/
structure Begun (params : IndexParams Point Code Distance) (first state : IndexState Point Code)
    (number : Nat) (point : Point) (tag : Nat) (buffer : Nat → PageImage Point) : Prop where
  own : state.threads (.caller number) =
    { role := .insertInPlace, phase := .beam, target := first.curId, point := point, tag := tag,
      updateBuf := buffer }
  apart : ∀ agent, agent ≠ .caller number → state.threads agent = first.threads agent
  layout : state.layout = first.layout
  record : state.record = first.record
  tags : state.tags = first.tags
  curId : state.curId = first.curId + 1
  data : state.data = Function.update first.data first.curId (params.deflateVector point)

omit [LinearOrder Distance] in
/-- The start of a call. -/
theorem called_eq {buffer : Nat → PageImage Point} {called : IndexState Point Code}
    (started : first.start number (.insertInPlace point tag) buffer = some called) :
    called =
      { first.setThread (.caller number)
          { role := .insertInPlace, phase := .writePq, target := first.curId, point := point,
            tag := tag, updateBuf := buffer } with
        curId := first.curId + 1 } := by
  rw [IndexState.start, Option.ite_none_right_eq_some, Option.some.injEq] at started
  exact started.2.symm

omit [LinearOrder Distance] in
theorem called_thread {buffer : Nat → PageImage Point} {called : IndexState Point Code}
    (started : first.start number (.insertInPlace point tag) buffer = some called) :
    called.threads (.caller number) =
      { role := .insertInPlace, phase := .writePq, target := first.curId, point := point,
        tag := tag, updateBuf := buffer } := by
  rw [called_eq started]
  exact Function.update_self _ _ _

theorem begun_of_step {buffer : Nat → PageImage Point}
    {called begun : IndexState Point Code} {choice : Choice}
    (call : first.step params (.call number (.insertInPlace point tag) buffer) = some called)
    (goes : called.step params (.step (.caller number) choice) = some begun) :
    Begun params first begun number point tag buffer := by
  have started : called = _ := called_eq call
  have thread : called.threads (.caller number) = _ := called_thread call
  have moved : called.advance params (.caller number) choice = some begun := by
    simpa only [IndexState.step, thread] using goes
  simp only [IndexState.advance, thread, Option.some.injEq] at moved
  subst moved
  subst started
  refine ⟨?_, fun agent different => ?_, rfl, rfl, rfl, rfl, rfl⟩
  · exact Function.update_self _ _ _
  · exact (Function.update_of_ne different _ _).trans (Function.update_of_ne different _ _)

/-- The first two steps of a call that runs alone. -/
theorem begun_of_run (fresh : first.WellFormed params) {buffer : Nat → PageImage Point}
    {actions : List (Action Point)} {last : IndexState Point Code}
    (replay : (updateSystem params (IndexState.WellFormed params)).run first
      (.call number (.insertInPlace point tag) buffer :: actions) = some last)
    (own : ∀ action ∈ actions, action.OfInsert number) (goesOn : actions ≠ []) :
    ∃ called choice later begun, actions = .step (.caller number) choice :: later ∧
      first.step params (.call number (.insertInPlace point tag) buffer) = some called ∧
      called.step params (.step (.caller number) choice) = some begun ∧
      (called.threads (.caller number)).pending = [] ∧
      (updateSystem params (IndexState.WellFormed params)).run begun later = some last ∧
      Begun params first begun number point tag buffer := by
  have quiescent := fresh.records.loaded.quiescent
  obtain ⟨called, taken, runs⟩ := Transition.System.run_cons replay
  have started : called = _ := called_eq taken
  have thread : called.threads (.caller number) = _ := called_thread taken
  have others : ∀ agent, agent ≠ .caller number → called.threads agent = first.threads agent := by
    intro agent different
    rw [started]
    exact Function.update_of_ne different _ _
  cases actions with
  | nil => exact absurd rfl goesOn
  | cons action later =>
    obtain ⟨begun, also, remaining⟩ := Transition.System.run_cons runs
    have also : called.step params action = some begun := also
    have isOwn := own action List.mem_cons_self
    cases action with
    | call => exact isOwn.elim
    | step agent choice =>
      cases agent with
      | bgIoThread =>
        -- the background thread has nothing to do
        have background := others .bgIoThread (by simp)
        simp only [IndexState.step, background, quiescent.bgIo.2.1, IndexState.advance,
          quiescent.bgIo.2.2] at also
        cases also
      | caller other =>
        obtain rfl : other = number := isOwn
        exact ⟨called, choice, later, begun, rfl, taken, also, by rw [thread], remaining,
          begun_of_step taken also⟩

omit [LinearOrder Distance] in
theorem Begun.tagsAlone {buffer : Nat → PageImage Point} {begun : IndexState Point Code}
    (start : Begun params first begun number point tag buffer) :
    TagsAlone first number tag begun := by
  refine ⟨.inl start.tags, fun later => ?_⟩
  rw [start.own] at later
  simp [Phase.published, Phase.committed] at later

theorem Begun.mapsAlone {buffer : Nat → PageImage Point} {begun : IndexState Point Code}
    (start : Begun params first begun number point tag buffer) :
    MapsAlone params first number point begun := by
  refine ⟨fun _ => ?_, ?_, fun _ _ => ?_, ?_, ?_⟩
  · rw [start.own]
    exact nofun
  · rw [start.own]
    nofun
  · rw [start.layout, start.record]
    exact ⟨rfl, rfl⟩
  · rw [start.own]
    nofun
  · rw [start.own]
    nofun

theorem Begun.runsAlone (fresh : first.WellFormed params) {buffer : Nat → PageImage Point}
    {called begun : IndexState Point Code} {choice : Choice}
    (start : Begun params first begun number point tag buffer)
    (call : first.step params (.call number (.insertInPlace point tag) buffer) = some called)
    (goes : called.step params (.step (.caller number) choice) = some begun)
    (quiet : (called.threads (.caller number)).pending = [])
    (expands : ExpandsFirst called (.step (.caller number) choice)) :
    RunsAlone params first number point tag begun := by
  have records := fresh.records
  have quiescent := records.loaded.quiescent
  have keeps : PutsKeep params called (.step (.caller number) choice) :=
    fun page buf rest pending => nomatch quiet.symm.trans pending
  have noOther : UnlocksNoOther called (.step (.caller number) choice) := by
    intro again
    rw [Thread.UnlocksAgain, quiet] at again
    exact again.elim
  have beforeCall : Undisturbed params (fun _ => True) first := records.undisturbed
  have quietCall : PutsKeep params first (.call number (.insertInPlace point tag) buffer) := trivial
  have expandsCall : ExpandsFirst first (.call number (.insertInPlace point tag) buffer) := trivial
  have afterCall := beforeCall.step trivial quietCall trivial call
  have undisturbed := afterCall.step trivial keeps noOther goes
  have persisted : first.Persisted params := ⟨records, fresh.disk⟩
  have noMaps : first.maps.Handed params.geometry := fun loc allocated =>
    absurd allocated (records.loaded.consistent.unallocated loc)
  have handed := (noMaps.step beforeCall.sound.tracked (maps_step beforeCall.sound call)).step
    afterCall.sound.tracked (maps_step afterCall.sound goes)
  -- no thread has edited a record
  have unedited : ∀ agent, (begun.threads agent).phase.edited = false := by
    intro agent
    by_cases same : agent = .caller number
    · rw [same, start.own]
      rfl
    · rw [start.apart agent same, quiescent.finished agent]
      rfl
  exact
    { undisturbed :=
        { undisturbed with
          copies :=
            { planned := undisturbed.copies.planned
              fetched := undisturbed.copies.fetched
              edited := fun agent => .plain (unedited agent) } }
      persistent := (persisted.persistent.step expandsCall call).step expands goes
      accounted := (quiescent.accounted.step beforeCall.sound call).step afterCall.sound goes
      handed := handed
      apart := fun other different => start.apart _ (by simpa using different)
      role := by rw [start.own]
      target := by rw [start.own]
      isPoint := by rw [start.own]
      hasTag := by rw [start.own]
      started := by
        rw [start.own]
        nofun
      curId := start.curId
      data := start.data }

/-- What holds while the insert runs alone holds at its end. -/
theorem alone_of_run (fresh : first.WellFormed params) {actions : List (Action Point)}
    {last : IndexState Point Code}
    (replay : (updateSystem params (IndexState.WellFormed params)).run state actions = some last)
    (own : ∀ action ∈ actions, action.OfInsert number)
    (expands : (updateSystem params (IndexState.WellFormed params)).Along ExpandsFirst state
      actions) (alone : RunsAlone params first number point tag state)
    (tags : TagsAlone first number tag state) (maps : MapsAlone params first number point state) :
    RunsAlone params first number point tag last ∧ TagsAlone first number tag last ∧
      MapsAlone params first number point last := by
  induction actions generalizing state with
  | nil =>
    obtain rfl := Option.some.inj replay
    exact ⟨alone, tags, maps⟩
  | cons action rest inductionHypothesis =>
    obtain ⟨next, taken, remaining⟩ := Transition.System.run_cons replay
    have isOwn := own action List.mem_cons_self
    exact inductionHypothesis remaining
      (fun other member => own other (List.mem_cons_of_mem _ member))
      (expands.2 next taken) (alone.step maps fresh isOwn expands.1 taken)
      (tags.step alone isOwn taken) (maps.step alone isOwn taken)

theorem InsertsAlone.alone {buffer : Nat → PageImage Point} {actions : List (Action Point)}
    {last : IndexState Point Code} (fresh : first.WellFormed params)
    (inserts : InsertsAlone params first number point tag buffer actions last) :
    RunsAlone params first number point tag last ∧ TagsAlone first number tag last ∧
      MapsAlone params first number point last := by
  have goesOn : actions ≠ [] := by
    rintro rfl
    obtain ⟨called, call, ended⟩ := Transition.System.run_cons inserts.replay
    obtain rfl : called = last := Option.some.inj ended
    cases (congrArg Thread.phase (called_thread call)).symm.trans inserts.returned.1
  obtain ⟨called, choice, later, begun, rfl, call, goes, quiet, remaining, start⟩ :=
    begun_of_run fresh inserts.replay inserts.own goesOn
  have expands := inserts.expands.2 called call
  exact alone_of_run fresh remaining
    (fun action member => inserts.own action (List.mem_cons_of_mem _ member))
    (expands.2 begun goes) (start.runsAlone fresh call goes quiet expands.1) start.tagsAlone
    start.mapsAlone

/-! ### What the insert has done -/

omit [LinearOrder Distance] in
/-- When all records are on disk the graph has the record of each mapped id. -/
theorem graph_record (recorded : Recorded params state) (disk : state.disk = state.pages)
    (id : Nat) : (state.graph params).record id =
      if state.layout.id2loc id = none then none else some (state.record id) := by
  show (state.layout.id2loc id).map (recordAt params.geometry state.disk) = _
  rw [disk]
  cases mapped : state.layout.id2loc id with
  | none => rfl
  | some loc => rw [Option.map_some, recorded id loc mapped, if_neg (by simp)]

/-- All threads are at rest when the insert has returned and its pages are written. -/
theorem InsertsAlone.finished {buffer : Nat → PageImage Point} {actions : List (Action Point)}
    {last : IndexState Point Code} (fresh : first.WellFormed params)
    (inserts : InsertsAlone params first number point tag buffer actions last) (agent : Agent) :
    (last.threads agent).phase = .finish ∧ (last.threads agent).pending = [] ∧
      (last.threads agent).role ≠ .pipeSearch := by
  have alone := (inserts.alone fresh).1
  have phases := alone.undisturbed.sound.phases
  cases agent with
  | bgIoThread =>
    refine ⟨phases.phase_of_background, inserts.written, ?_⟩
    rw [(phases.background .bgIoThread).mpr rfl]
    nofun
  | caller other =>
    by_cases same : other = number
    · subst same
      refine ⟨inserts.returned.1, inserts.returned.2, ?_⟩
      rw [alone.role]
      nofun
    · have quiescent := fresh.records.loaded.quiescent.callers other
      rw [alone.apart other same]
      refine ⟨quiescent.2.2, quiescent.2.1, ?_⟩
      rw [quiescent.1]
      nofun

/-- At the end the disk has all pages. -/
theorem InsertsAlone.disk_eq {buffer : Nat → PageImage Point} {actions : List (Action Point)}
    {last : IndexState Point Code} (fresh : first.WellFormed params)
    (inserts : InsertsAlone params first number point tag buffer actions last) :
    last.disk = last.pages := by
  have persistent := (inserts.alone fresh).1.persistent
  funext page
  rcases persistent.onDisk page with onDisk | ⟨other, stores⟩
  · rw [inserts.written] at onDisk
    exact onDisk
  · have persists := stores.1
    rw [(inserts.finished fresh (.caller other)).1] at persists
    cases persists

/-- The insert has inserted its point into the graph. -/
theorem InsertsAlone.graph_eq {buffer : Nat → PageImage Point} {actions : List (Action Point)}
    {last : IndexState Point Code} (fresh : first.WellFormed params)
    (inserts : InsertsAlone params first number point tag buffer actions last) {nhood : List Nat}
    (linking : Linking params first point nhood nhood last)
    (known : ∀ id ∈ nhood, first.layout.id2loc id ≠ none) :
    last.graph params = (first.graph params).insertPoint params point tag nhood := by
  obtain ⟨alone, tags, _⟩ := inserts.alone fresh
  have before := graph_record fresh.records.recorded fresh.disk
  have after := graph_record alone.undisturbed.recorded (inserts.disk_eq fresh)
  have written := tags.written (.inr (.inr (.inr (by rw [inserts.returned.1]; rfl))))
  refine PointGraph.ext_ids (fun id => ?_) (congrFun written) (congrFun alone.data) alone.curId
  rw [after]
  show _ = if id = first.curId then some ⟨point, nhood⟩ else if id ∈ nhood then
    ((first.graph params).record id).map _ else (first.graph params).record id
  rw [before]
  by_cases isTarget : id = first.curId
  · subst isTarget
    rw [if_neg linking.mapped, if_pos rfl, linking.target]
  rw [if_neg isTarget]
  by_cases member : id ∈ nhood
  · obtain ⟨mapped, record⟩ := linking.linked id member isTarget
    rw [if_neg mapped, if_pos member, if_neg (known id member), record, alone.data]
    rfl
  · obtain ⟨id2loc, record⟩ := linking.others id isTarget member
    rw [if_neg member, id2loc, record]

/-- The maps are inverse to each other again. -/
theorem InsertsAlone.consistent {buffer : Nat → PageImage Point} {actions : List (Action Point)}
    {last : IndexState Point Code} (fresh : first.WellFormed params)
    (inserts : InsertsAlone params first number point tag buffer actions last) :
    last.layout.Consistent params.geometry := by
  have alone := (inserts.alone fresh).1
  have sound := alone.undisturbed.sound
  -- every insert has committed its slots
  have committed : ∀ agent reservation, last.maps.inserts agent = some reservation →
      reservation.stage = .committed := by
    intro agent reservation lookup
    obtain ⟨_, rfl⟩ := Thread.of_reservation lookup
    show (last.threads agent).phase.stage = _
    rw [(inserts.finished fresh agent).1]
    rfl
  refine ⟨sound.tracked.formed, fun id loc => ⟨fun mapped => ?_, fun real => ?_⟩,
    fun loc allocated => ?_⟩
  · refine (sound.tracked.forward id loc mapped).resolve_right ?_
    rintro ⟨agent, reservation, lookup, maps⟩
    have holds := maps.holds.1
    rw [committed agent reservation lookup] at holds
    rcases holds with isStage | isStage | isStage <;> cases isStage
  · refine (sound.tracked.backward id loc real).resolve_right ?_
    rintro ⟨agent, reservation, lookup, moving, _⟩
    exact nomatch (committed agent reservation lookup).symm.trans moving
  · obtain ⟨agent, reservation, lookup, holds, _⟩ := alone.handed loc allocated
    rw [committed agent reservation lookup] at holds
    rcases holds with isStage | isStage | isStage <;> cases isStage

/-- The lock tables agree with the holdings. -/
theorem Undisturbed.entry_eq {codes : (Nat → Code) → Prop}
    (undisturbed : Undisturbed params codes state) (lock : LockKey) :
    state.locks lock = SparseLockTable.entryOf (Holding.modesOf state.holders lock) := by
  by_cases isVec : lock.table = .vecLockTable
  · exact (undisturbed.exclusive.agrees lock isVec).1
  · exact (undisturbed.sound.exclusion.agrees lock isVec).1

/-- No lock is held at the end. -/
theorem InsertsAlone.unlocked {buffer : Nat → PageImage Point} {actions : List (Action Point)}
    {last : IndexState Point Code} (fresh : first.WellFormed params)
    (inserts : InsertsAlone params first number point tag buffer actions last) :
    last.holders = [] ∧ last.locks = fun _ => none := by
  have alone := (inserts.alone fresh).1
  have holders := holders_of_finished alone.accounted alone.undisturbed.kept
    (inserts.finished fresh)
  refine ⟨holders, funext fun lock => ?_⟩
  rw [alone.undisturbed.entry_eq, holders]
  exact SparseLockTable.entryOf_nil

/-- The neighbours in all lists are mapped. -/
theorem Linking.mapped_nbrs {nhood : List Nat} (fresh : first.WellFormed params)
    (linking : Linking params first point nhood nhood state)
    (known : ∀ id ∈ nhood, first.layout.id2loc id ≠ none) {id : Nat}
    (mapped : state.layout.id2loc id ≠ none) :
    ∀ nbr ∈ (state.record id).nbrs, state.layout.id2loc nbr ≠ none := by
  have stays : ∀ {other : Nat}, first.layout.id2loc other ≠ none →
      state.layout.id2loc other ≠ none := by
    intro other before
    by_cases isTarget : other = first.curId
    · rw [isTarget]
      exact linking.mapped
    by_cases member : other ∈ nhood
    · exact (linking.linked other member isTarget).1
    · rwa [(linking.others other isTarget member).1]
  intro nbr listed
  by_cases isTarget : id = first.curId
  · rw [isTarget, linking.target] at listed
    exact stays (known nbr listed)
  by_cases member : id ∈ nhood
  · rw [(linking.linked id member isTarget).2] at listed
    have inList := (pruned_boundedNhood id _).subset nbr listed
    rcases List.mem_append.mp inList with old | isNew
    · exact stays (fresh.linked id (known id member) nbr old)
    · rw [List.mem_singleton.mp isNew]
      exact linking.mapped
  · obtain ⟨id2loc, record⟩ := linking.others id isTarget member
    rw [id2loc] at mapped
    rw [record] at listed
    exact stays (fresh.linked id mapped nbr listed)

/-- The index can be used again. -/
theorem InsertsAlone.wellFormed {buffer : Nat → PageImage Point} {actions : List (Action Point)}
    {last : IndexState Point Code} (fresh : first.WellFormed params)
    (inserts : InsertsAlone params first number point tag buffer actions last) :
    last.settle.WellFormed params := by
  obtain ⟨alone, _, maps⟩ := inserts.alone fresh
  obtain ⟨holders, locks⟩ := inserts.unlocked fresh
  have disk := inserts.disk_eq fresh
  have consistent := inserts.consistent fresh
  obtain ⟨nhood, _, _, known, linking⟩ := maps.committed (by rw [inserts.returned.1]; rfl)
  have quiescent : last.settle.Quiescent :=
    { callers := fun other => ⟨by simp [IndexState.settle], rfl, rfl⟩
      bgIo := ⟨by simp [IndexState.settle], rfl, rfl⟩
      spinning := fun _ => rfl
      locks := locks
      holders := holders }
  exact
    { records :=
        { loaded :=
            { quiescent := quiescent
              consistent := consistent
              below := alone.undisturbed.sound.tracked.below
              unsearched := fun _ => ⟨rfl, rfl⟩ }
          recorded := alone.undisturbed.recorded }
      linked := fun _ mapped => linking.mapped_nbrs fresh known mapped
      disk := disk }

end Steps

/-- An insert that runs alone on a well-formed index is an insert into its graph, whatever slots it
gets: its point has the record with the neighbours it has chosen, each of them keeps its point and
gets the target into its list, every other id keeps its record and its tag. The index is well formed
again. -/
theorem insert_alone_refines [LinearOrder Distance] (params : IndexParams Point Code Distance)
    {first last : IndexState Point Code} {number : Nat} {point : Point} {tag : Nat}
    {buffer : Nat → PageImage Point} {actions : List (Action Point)}
    (fresh : first.WellFormed params)
    (inserts : InsertsAlone params first number point tag buffer actions last) :
    ∃ nhood, (last.threads (.caller number)).newNhood = nhood ++ [first.curId] ∧
      nhood.Nodup ∧ (∀ id ∈ nhood, (first.graph params).record id ≠ none) ∧
      last.graph params = (first.graph params).insertPoint params point tag nhood ∧
      last.settle.WellFormed params := by
  obtain ⟨nhood, ends, nodup, known, linking⟩ := (inserts.alone fresh).2.2.committed
    (by rw [inserts.returned.1]; rfl)
  refine ⟨nhood, ends, nodup.of_append_left, fun id member => ?_,
    inserts.graph_eq fresh linking known, inserts.wellFormed fresh⟩
  rw [graph_record fresh.records.recorded fresh.disk, if_neg (known id member)]
  nofun

/-- After an insert of the point 2 with the neighbour 0 the record of 0 has the new id. -/
theorem insert_alone_refines_smallInsert :
    (((updateSystem smallParams (IndexState.WellFormed smallParams)).after smallIndex
      smallInsert).graph smallParams).record 0 = some ⟨0, [2]⟩ := by
  have inserts : InsertsAlone smallParams smallIndex 0 2 2 (fun _ _ => ⟨0, []⟩) smallInsert.tail
      ((updateSystem smallParams (IndexState.WellFormed smallParams)).after smallIndex
        smallInsert) :=
    { replay := Transition.System.run_after (by decide +kernel)
      own := by decide
      expands := by decide +kernel
      returned := ⟨by decide +kernel, by decide +kernel⟩
      written := by decide +kernel }
  obtain ⟨nhood, ends, _, _, graph, _⟩ :=
    insert_alone_refines smallParams ⟨smallIndex_records, smallIndex_linked.linked, rfl⟩ inserts
  obtain rfl : nhood = [0] := by
    have chosen : (((updateSystem smallParams (IndexState.WellFormed smallParams)).after smallIndex
        smallInsert).threads (.caller 0)).newNhood = [0] ++ [2] := by
      decide +kernel
    exact List.append_cancel_right (ends.symm.trans chosen)
  rw [graph]
  decide

end OdinVector
