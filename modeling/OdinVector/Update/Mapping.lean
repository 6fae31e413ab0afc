/-
This file connects the update path with the abstract model of its maps: every
step of the index is a step of the reservations of its inserts, or leaves them as
they are. What the abstract model asks for, that an insert is alone with the ids
it moves, follows from the idx locks and from the vec locks of targets.

The invariants of the earlier files are put together in `Sound`, which every
reachable state satisfies.
-/

import OdinVector.Update.Exclusion

namespace OdinVector

variable {Point Code Distance : Type}

/-- The ids that a search has met are mapped. -/
def Seen (state : IndexState Point Code) : Prop :=
  ∀ agent id, id ∈ (state.threads agent).expanded ∨
    id ∈ (state.threads agent).frontier.map Prod.fst → state.layout.id2loc id ≠ none

/-- The invariant of an index in use. -/
structure Sound (params : IndexParams Point Code Distance) (state : IndexState Point Code) :
    Prop where
  phases : InPhases state.threads
  shapes : ∀ agent, (state.threads agent).Shape params
  keeps : KeepsRules state.threads state.holders
  exclusion : Exclusion state
  targets : VecTargets state
  tracked : state.maps.Tracked params.geometry
  seen : Seen state

theorem Phase.stage_eq_moving {phase : Phase} : phase.stage = .moving ↔ phase = .remap := by
  cases phase <;> simp [Phase.stage]

theorem Phase.stage_mapping {phase : Phase} (mapping : phase.stage.Mapping) :
    phase ≠ .unlock ∧ phase ≠ .finish := by
  cases phase <;> simp_all [Phase.stage, Stage.Mapping]

theorem Thread.of_reservation {thread : Thread Point} {reservation : Reservation}
    (lookup : thread.reservation = some reservation) : thread.role = .insertInPlace ∧
      reservation = ⟨thread.phase.stage, thread.target, thread.newNhood, thread.locs,
        thread.origLocs⟩ := by
  unfold Thread.reservation at lookup
  rw [Option.ite_none_right_eq_some, Option.some.injEq] at lookup
  exact ⟨lookup.1, lookup.2.symm⟩

namespace Sound

variable {params : IndexParams Point Code Distance} {state next : IndexState Point Code}
  {agent : Agent}

/-- An insert that maps its neighbours has the idx locks of all its ids. -/
theorem held_idx (sound : Sound params state) (phase : (state.threads agent).phase = .remap)
    {id : Nat} (member : id ∈ (state.threads agent).newNhood ∨ id = (state.threads agent).target) :
    LockKey.idx id ∈ Holding.heldBy state.holders agent := by
  have owed : LockKey.idx id ∈ (state.threads agent).owed := by
    simp only [Thread.owed, phase]
    refine List.mem_append_right _ (List.mem_append_left _ (List.mem_map.mpr ⟨id, ?_, rfl⟩))
    rw [(sound.shapes agent).idxLocked (by rw [phase]; rfl), mem_sortUnique, List.mem_append,
      List.mem_singleton]
    exact member
  refine (sound.keeps.held_of_owed owed).resolve_right ?_
  rintro ⟨mode, pending⟩
  have allows := (sound.phases.inPhase agent).allows _ pending
  rw [phase] at allows
  exact allows

/-- An insert is alone with the ids it moves. -/
theorem alone (sound : Sound params state) (phase : (state.threads agent).phase = .remap)
    {id : Nat} (member : id ∈ (state.threads agent).newNhood) : state.maps.Alone agent id := by
  have role := (sound.phases.inPhase agent).isInsert (by rw [phase]; decide)
  intro other reservation different lookup touches
  obtain ⟨otherRole, rfl⟩ := Thread.of_reservation lookup
  rcases touches with ⟨mapping, rfl⟩ | ⟨moving, otherMember⟩
  · have released := sound.targets.alone other agent (Ne.symm different) otherRole
      ⟨role, member, .inr (by rw [phase]; rfl)⟩
    obtain ⟨notUnlock, notFinish⟩ := Phase.stage_mapping mapping
    rcases released with finished | ⟨unlocking, _⟩
    · exact notFinish finished
    · exact notUnlock unlocking
  · have otherPhase := Phase.stage_eq_moving.mp moving
    have notVec : (LockKey.idx id).table ≠ .vecLockTable := nofun
    exact different (sound.exclusion.unique notVec role (by rw [phase]; nofun)
      (sound.held_idx phase (.inl member)) (sound.held_idx otherPhase (.inl otherMember))).symm

end Sound

section Maps

variable {params : IndexParams Point Code Distance} {state next : IndexState Point Code}
  {agent : Agent}

theorem maps_eq (layout : next.layout = state.layout) (curId : next.curId = state.curId)
    (reservation : ∀ agent,
      (next.threads agent).reservation = (state.threads agent).reservation) :
    next.maps = state.maps := by
  rw [IndexState.maps, IndexState.maps, layout, curId, funext reservation]

/-- The reservations after a step of one thread. -/
theorem inserts_update {later : Thread Point}
    (threads : next.threads = Function.update state.threads agent later) :
    next.maps.inserts = Function.update state.maps.inserts agent later.reservation := by
  funext other
  show (next.threads other).reservation = _
  rw [threads]
  by_cases same : other = agent
  · subst same
    rw [Function.update_self, Function.update_self]
  · rw [Function.update_of_ne same, Function.update_of_ne same]
    rfl

theorem Thread.reservation_congr {later thread : Thread Point} (role : later.role = thread.role)
    (phase : later.phase.stage = thread.phase.stage) (target : later.target = thread.target)
    (newNhood : later.newNhood = thread.newNhood) (locs : later.locs = thread.locs)
    (origLocs : later.origLocs = thread.origLocs) : later.reservation = thread.reservation := by
  rw [Thread.reservation, Thread.reservation, role, phase, target, newNhood, locs, origLocs]

/-- One thread goes on and its reservation stays. -/
theorem maps_quiet {later : Thread Point}
    (threads : next.threads = Function.update state.threads agent later)
    (layout : next.layout = state.layout) (curId : next.curId = state.curId)
    (reservation : later.reservation = (state.threads agent).reservation) :
    MapState.Step params.geometry state.maps next.maps := by
  have same : next.maps = state.maps := by
    refine maps_eq layout curId fun other => ?_
    rw [threads]
    by_cases here : other = agent
    · subst here
      rw [Function.update_self, reservation]
    · rw [Function.update_of_ne here]
  rw [same]
  exact .stutter

/-- One thread goes on with another reservation, and the maps change. -/
theorem maps_changed {later : Thread Point} {reservation : Reservation}
    (threads : next.threads = Function.update state.threads agent later)
    (here : later.reservation = some reservation)
    (taken : MapState.Step params.geometry state.maps
      ⟨next.layout, next.curId, (state.maps.set agent reservation).inserts⟩) :
    MapState.Step params.geometry state.maps next.maps := by
  have inserts := inserts_update threads
  rw [here] at inserts
  have same : next.maps = ⟨next.layout, next.curId, (state.maps.set agent reservation).inserts⟩ :=
    congrArg (MapState.mk _ _) inserts
  rw [same]
  exact taken

variable [LinearOrder Distance]

theorem maps_execute (sound : Sound params state) {op : Op Point} {rest : List (Op Point)}
    (pending : (state.threads agent).pending = op :: rest)
    (taken : state.execute params agent { state.threads agent with pending := rest } op =
      some next) : MapState.Step params.geometry state.maps next.maps := by
  obtain ⟨later, threads, same, _⟩ := execute_thread taken
  have here : next.threads agent = later := by rw [threads, Function.update_self]
  by_cases isRemap : ∃ id loc, op = .remap id loc
  · obtain ⟨id, loc, rfl⟩ := isRemap
    have phase : (state.threads agent).phase = .remap :=
      (sound.phases.inPhase agent).allows (.remap id loc)
        (by rw [pending]; exact List.mem_cons_self)
    have role := (sound.phases.inPhase agent).isInsert (by rw [phase]; decide)
    have shape := (sound.shapes agent).moving phase
    rw [pending] at shape
    have entry : ((state.threads agent).newNhood.zip
        (state.threads agent).locs)[(state.threads agent).origLocs.length]? = some (id, loc) := by
      cases left : ((state.threads agent).newNhood.zip (state.threads agent).locs).drop
          (state.threads agent).origLocs.length with
      | nil => simp [left] at shape
      | cons first others =>
        rw [left, List.map_cons, List.cons.injEq, Op.remap.injEq] at shape
        obtain ⟨⟨rfl, rfl⟩, _⟩ := shape
        rw [← List.head?_drop, left]
        rfl
    obtain ⟨atId, atLoc⟩ := List.getElem?_zip_eq_some.mp entry
    simp only [IndexState.execute, Option.map_eq_some_iff] at taken
    obtain ⟨current, found, rfl⟩ := taken
    have origLocs : later.origLocs = (state.threads agent).origLocs ++ [current] := by
      rw [← here]
      simp only [IndexState.mapId, IndexState.setThread, Function.update_self]
    have after : later.reservation =
        some ⟨.moving, (state.threads agent).target, (state.threads agent).newNhood,
          (state.threads agent).locs, (state.threads agent).origLocs ++ [current]⟩ := by
      rw [Thread.reservation_eq (same.role.trans role), same.phase, phase, same.target,
        same.newNhood, same.locs, origLocs]
      rfl
    refine maps_changed threads after ?_
    have before : state.maps.inserts agent = some ⟨.moving, (state.threads agent).target,
        (state.threads agent).newNhood, (state.threads agent).locs,
        (state.threads agent).origLocs⟩ := by
      show (state.threads agent).reservation = _
      rw [Thread.reservation_eq role, phase]
      rfl
    exact .move before rfl atId atLoc found (sound.alone phase (List.mem_of_getElem? atId))
  · have notRemap : ∀ id loc, op ≠ .remap id loc := fun id loc equal => isRemap ⟨id, loc, equal⟩
    obtain ⟨layout, curId, _, origLocs⟩ := execute_layout notRemap taken
    rw [here] at origLocs
    exact maps_quiet threads layout curId (Thread.reservation_congr same.role
      (congrArg Phase.stage same.phase) same.target same.newNhood same.locs origLocs)

omit [LinearOrder Distance] in
theorem Thread.reservation_none {thread : Thread Point} (role : thread.role ≠ .insertInPlace) :
    thread.reservation = none :=
  if_neg role

omit [LinearOrder Distance] in
/-- A call that is no insert does not touch the maps. -/
theorem maps_search {later : Thread Point}
    (threads : next.threads = Function.update state.threads agent later)
    (layout : next.layout = state.layout) (curId : next.curId = state.curId)
    (role : (state.threads agent).role ≠ .insertInPlace)
    (same : later.role = (state.threads agent).role) :
    MapState.Step params.geometry state.maps next.maps :=
  maps_quiet threads layout curId (by
    rw [Thread.reservation_none role, Thread.reservation_none (same.trans_ne role)])

omit [LinearOrder Distance] in
theorem maps_handOff (sound : Sound params state)
    (phase : (state.threads agent).phase = .unlock) {bgPending : List (Op Point)}
    (threads : next.threads =
      ((state.setThread agent { state.threads agent with phase := .finish }).setThread .bgIoThread
        { state.threads .bgIoThread with pending := bgPending }).threads)
    (layout : next.layout = state.layout) (curId : next.curId = state.curId) :
    MapState.Step params.geometry state.maps next.maps := by
  have same : ({ state.threads agent with phase := .finish } : Thread Point).reservation =
      (state.threads agent).reservation :=
    Thread.reservation_congr rfl (by rw [phase]; rfl) rfl rfl rfl rfl
  have background : (state.threads .bgIoThread).role = .bgIo :=
    (sound.phases.background _).mpr rfl
  have reservation : ∀ other, (next.threads other).reservation =
      (state.threads other).reservation := by
    intro other
    rw [threads]
    by_cases isBackground : other = .bgIoThread
    · subst isBackground
      rw [IndexState.setThread_threads_self, Thread.reservation_none (by rw [background]; nofun),
        Thread.reservation_none (by rw [background]; nofun)]
    · rw [IndexState.setThread_threads_other _ _ isBackground]
      by_cases here : other = agent
      · subst here
        rw [IndexState.setThread_threads_self, same]
      · rw [IndexState.setThread_threads_other _ _ here]
  rw [maps_eq layout curId reservation]
  exact .stutter

omit [LinearOrder Distance] in
theorem maps_advance (sound : Sound params state) {choice : Choice}
    (pending : (state.threads agent).pending = [])
    (taken : state.advance params agent choice = some next) :
    MapState.Step params.geometry state.maps next.maps := by
  have inPhase := sound.phases.inPhase agent
  have before : (state.threads agent).role = .insertInPlace → state.maps.inserts agent =
      some ⟨(state.threads agent).phase.stage, (state.threads agent).target,
        (state.threads agent).newNhood, (state.threads agent).locs,
        (state.threads agent).origLocs⟩ := fun role => Thread.reservation_eq role
  -- a search is at work
  have search : (state.threads agent).phase ∈ [Phase.pageLoop, .pageLock, .pipeLoop] →
      (state.threads agent).role ≠ .insertInPlace := by
    intro searching isInsert
    have visits := inPhase.visits
    rw [isInsert] at visits
    revert visits searching
    cases (state.threads agent).phase <;> decide
  cases IndexState.advances taken with
  | writePq phase | lockPages phase | lockVec phase | plan phase | read phase | edit phase
  | lockIdx phase | giveBack phase =>
    exact maps_quiet rfl rfl rfl (Thread.reservation_congr rfl (by rw [phase]; rfl) rfl rfl rfl rfl)
  | beam => exact maps_quiet rfl rfl rfl (Thread.reservation_congr rfl rfl rfl rfl rfl rfl)
  | prune phase allowed =>
    obtain ⟨role, nodup, expanded⟩ := allowed
    refine maps_changed rfl (Thread.reservation_eq (by exact role)) ?_
    have lookup := before role
    rw [phase] at lookup
    exact .choose lookup rfl nodup fun id member =>
      sound.seen agent id (.inl (expanded id member))
  | beamFinish _ role => exact maps_search rfl rfl rfl (by rw [role]; decide) rfl
  | alloc phase allocated =>
    have role := inPhase.isInsert (by rw [phase]; decide)
    refine maps_changed rfl (Thread.reservation_eq (by exact role)) ?_
    have lookup := before role
    rw [phase] at lookup
    exact .reserve lookup rfl allocated
  | put phase last =>
    have role := inPhase.isInsert (by rw [phase]; decide)
    refine maps_changed rfl (Thread.reservation_eq (by exact role)) ?_
    have lookup := before role
    rw [phase] at lookup
    exact .publish lookup rfl last
  | lockPageIdx phase =>
    have role := inPhase.isInsert (by rw [phase]; decide)
    refine maps_changed rfl (Thread.reservation_eq (by exact role)) ?_
    have lookup := before role
    rw [phase] at lookup
    exact .enter lookup rfl
  | remap phase =>
    have role := inPhase.isInsert (by rw [phase]; decide)
    refine maps_changed rfl (Thread.reservation_eq (by exact role)) ?_
    have lookup := before role
    rw [phase] at lookup
    have valid := sound.tracked.valid agent _ lookup
    have length : (state.threads agent).locs.length =
        (state.threads agent).newNhood.length + 1 := valid.length (.inr (.inr rfl))
    have all : (state.threads agent).newNhood.length ≤ (state.threads agent).origLocs.length := by
      have shape := (sound.shapes agent).moving phase
      rw [pending] at shape
      have none := List.drop_eq_nil_iff.mp (List.map_eq_nil_iff.mp shape.symm)
      rw [List.length_zip, length] at none
      omega
    exact .commit lookup rfl all fun id member => sound.alone phase member
  | handOff phase => exact maps_handOff sound phase rfl rfl rfl
  | pageLoop phase | pageFinish phase | pageLock phase | send phase | complete phase
  | pipeFinish phase =>
    exact maps_search rfl rfl rfl (search (by rw [phase]; decide)) rfl

omit [LinearOrder Distance] in
theorem maps_start {number : Nat} {request : Request Point} {buffer : Nat → PageImage Point}
    (taken : state.start number request buffer = some next) :
    MapState.Step params.geometry state.maps next.maps := by
  obtain ⟨idle, rfl⟩ := IndexState.start_cases taken
  have free : state.maps.inserts (.caller number) = none :=
    Thread.reservation_none (by rw [idle]; nofun)
  cases request with
  | insertInPlace point tag =>
    exact maps_changed rfl (Thread.reservation_eq rfl) (.begin free)
  | beamSearch | pageSearch | pipeSearch =>
    refine maps_quiet rfl rfl rfl ?_
    exact (Thread.reservation_none (by nofun)).trans free.symm

/-- Every step of the index is a step of the reservations. -/
theorem maps_step (sound : Sound params state) {action : Action Point}
    (taken : state.step params action = some next) :
    MapState.Step params.geometry state.maps next.maps := by
  rcases IndexState.step_cases taken with ⟨_, _, _, _, started⟩ | ⟨_, _, _, _, _, pending, ran⟩ |
    ⟨_, _, _, pending, ended⟩
  · exact maps_start started
  · exact maps_execute sound pending ran
  · exact maps_advance sound pending ended

/-! ### The invariant holds in every reachable state -/

theorem seen_execute (seen : Seen state) {op : Op Point} {rest : List (Op Point)}
    (known : ∀ id, state.layout.id2loc id ≠ none → next.layout.id2loc id ≠ none)
    (taken : state.execute params agent { state.threads agent with pending := rest } op =
      some next) : Seen next := by
  obtain ⟨later, threads, _, _⟩ := execute_thread taken
  intro other id member
  by_cases here : other = agent
  · subst here
    have old : id ∈ (state.threads other).expanded ∨
        id ∈ (state.threads other).frontier.map Prod.fst → next.layout.id2loc id ≠ none :=
      fun before => known id (seen other id before)
    cases op with
    | locate located =>
      simp only [IndexState.execute, Option.map_eq_some_iff] at taken
      obtain ⟨loc, found, rfl⟩ := taken
      simp only [IndexState.setThread, Function.update_self, List.map_append, List.map_cons,
        List.map_nil, List.mem_append, List.mem_singleton] at member
      rcases member with before | before | rfl
      · exact old (.inl before)
      · exact old (.inr before)
      · exact known id (by rw [found]; rintro ⟨⟩)
    | readFrontier =>
      simp only [IndexState.execute, Option.some.injEq] at taken
      subst taken
      simp only [IndexState.setThread, Function.update_self, List.mem_append, List.map_nil,
        List.not_mem_nil, or_false] at member
      exact old member
    | lock lock mode =>
      simp only [IndexState.execute, IndexState.tryLock, Option.some.injEq] at taken
      split at taken
      all_goals
        subst taken
        simp only [IndexState.setThread, Function.update_self] at member
        exact old member
    | planNeighbor | writeTarget | sendRead =>
      simp only [IndexState.execute, Option.map_eq_some_iff] at taken
      obtain ⟨_, _, rfl⟩ := taken
      simp only [IndexState.setThread, Function.update_self, IndexState.editBuf] at member
      exact old member
    | remap =>
      simp only [IndexState.execute, Option.map_eq_some_iff] at taken
      obtain ⟨_, _, rfl⟩ := taken
      simp only [IndexState.mapId, IndexState.setThread, Function.update_self] at member
      exact old member
    | snapshot | writeNeighbor =>
      simp only [IndexState.execute, Option.bind_eq_some_iff, Option.map_eq_some_iff] at taken
      obtain ⟨_, _, _, _, rfl⟩ := taken
      simp only [IndexState.setThread, Function.update_self, IndexState.editBuf] at member
      exact old member
    | unlock | readPage | putPage | writeDisk =>
      simp only [IndexState.execute, Option.some.injEq] at taken
      subst taken
      simp only [IndexState.setThread, Function.update_self] at member
      exact old member
  · rw [threads, Function.update_of_ne here] at member
    exact known id (seen other id member)

theorem Seen.step (seen : Seen state) (phases : InPhases state.threads) {action : Action Point}
    (known : ∀ id, state.layout.id2loc id ≠ none → next.layout.id2loc id ≠ none)
    (taken : state.step params action = some next) : Seen next := by
  rcases IndexState.step_cases taken with ⟨number, request, _, _, started⟩ |
    ⟨_, _, _, _, _, _, ran⟩ | ⟨agent, _, _, pending, ended⟩
  · intro other id member
    by_cases starts : other = .caller number
    · subst starts
      obtain ⟨_, rfl⟩ := IndexState.start_cases started
      dsimp only at member
      rw [IndexState.setThread_threads_self] at member
      cases request <;> simp [IndexState.startThread] at member
    · rw [start_other started starts] at member
      exact known id (seen other id member)
  · exact seen_execute seen known ran
  · have notBackground : agent ≠ .bgIoThread := by
      rintro rfl
      exact phase_of_advance ended phases.phase_of_background
    have frame := advance_frame ended notBackground
    intro other id member
    by_cases here : other = agent
    · subst here
      rw [frame.expanded] at member
      rcases frame.frontier with same | none
      · rw [same] at member
        exact known id (seen other id member)
      · rw [none, List.map_nil] at member
        exact known id (seen other id (.inl (member.resolve_right List.not_mem_nil)))
    · rcases advance_other ended here with kept | ⟨_, _, kept⟩
      all_goals
        rw [kept] at member
        exact known id (seen other id member)

namespace Sound

/-- Every step keeps the invariant. -/
theorem step (sound : Sound params state) {action : Action Point}
    (taken : state.step params action = some next) : Sound params next := by
  have mapStep := maps_step sound taken
  have distinct : ∀ agent, (state.threads agent).phase = .lockPages →
      ((state.threads agent).newNhood ++ [(state.threads agent).target]).Nodup := by
    intro agent phase
    have role := (sound.phases.inPhase agent).isInsert (by rw [phase]; decide)
    refine (sound.tracked.valid agent _ (Thread.reservation_eq role)).nodup ?_
    rw [phase]
    exact ⟨(fun equal => by cases equal), (fun equal => by cases equal)⟩
  exact
    { phases := inPhases_step sound.phases taken
      shapes := shape_step sound.phases sound.shapes taken
      keeps := keepsRules_step sound.keeps sound.phases distinct taken
      exclusion := sound.exclusion.step sound.phases sound.keeps taken
      targets := sound.targets.step sound.phases sound.shapes sound.tracked taken
      tracked := sound.tracked.step mapStep
      seen := sound.seen.step sound.phases (fun _ => mapStep.known sound.tracked) taken }

end Sound

end Maps

/-- An index that has been loaded and not used. -/
structure IndexState.Loaded (params : IndexParams Point Code Distance)
    (state : IndexState Point Code) : Prop where
  quiescent : state.Quiescent
  consistent : state.layout.Consistent params.geometry
  below : ∀ id, state.layout.id2loc id ≠ none → id < state.curId
  unsearched : ∀ agent, (state.threads agent).expanded = [] ∧ (state.threads agent).frontier = []

section Reachable

variable {params : IndexParams Point Code Distance} {state : IndexState Point Code}

theorem IndexState.Loaded.sound (loaded : state.Loaded params) : Sound params state where
  phases := loaded.quiescent.inPhases
  shapes := loaded.quiescent.shapes
  keeps := loaded.quiescent.keepsRules
  exclusion := loaded.quiescent.exclusion
  targets := loaded.quiescent.vecTargets
  tracked := MapState.tracked_of_consistent
    (fun agent => Thread.reservation_none (loaded.quiescent.not_insert agent)) loaded.consistent
    loaded.below
  seen agent id member := by
    rw [(loaded.unsearched agent).1, (loaded.unsearched agent).2] at member
    simp at member

variable [LinearOrder Distance]

/-- Every state that a loaded index reaches satisfies the invariant. -/
theorem sound_of_reachable {initial : IndexState Point Code → Prop}
    {guard : IndexState Point Code → Action Point → Prop}
    (loaded : ∀ first, initial first → IndexState.Loaded params first)
    (reachable : (updateSystem params initial).Reachable guard state) : Sound params state := by
  have start : ∀ first, initial first → Sound params first :=
    fun first isInitial => (loaded first isInitial).sound
  have keep : ∀ (before : IndexState Point Code) (action : Action Point)
      (next : IndexState Point Code), Sound params before → guard before action →
        before.step params action = some next → Sound params next :=
    fun _ _ _ sound _ taken => sound.step taken
  exact reachable.invariant start keep

end Reachable

end OdinVector
