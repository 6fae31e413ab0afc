/-
This file proves that a slot is not recycled while a search reads it. A search
holds the idx lock of an id for reading while it reads the record, and
`page_search` holds the page idx lock of the page besides. An id is moved under
its idx lock held for writing, and a slot is given back under the page idx lock
of its page held for writing, so both wait for the readers.

The page idx locks that an insert takes are those of the pages where its
neighbours are when it computes the keys. The neighbours do not move between that
moment and the moment they are given back, because their idx locks are held.
-/

import OdinVector.Update.Records

namespace OdinVector

variable {Point Code Distance : Type}

/-- The phases in which an insert has all its idx locks. -/
def Phase.idxHeld : Phase → Bool
  | .lockPageIdx | .remap => true
  | _ => false

/-- The page idx locks of an insert are those of the pages where its neighbours are or were. -/
structure Thread.PageKeyed (params : IndexParams Point Code Distance) (layout : Layout)
    (thread : Thread Point) : Prop where
  old : thread.phase.idxHeld → params.usePageSearch → ∀ loc ∈ thread.origLocs,
    params.geometry.locSectorNo loc ∈ thread.pageLocked
  current : thread.phase.idxHeld → params.usePageSearch →
    ∀ id ∈ thread.newNhood.drop thread.origLocs.length, ∀ loc, layout.id2loc id = some loc →
      params.geometry.locSectorNo loc ∈ thread.pageLocked

/-- Page idx locks are used by an index with page search only. -/
structure PageIdxUsed (params : IndexParams Point Code Distance) (state : IndexState Point Code) :
    Prop where
  taken : ∀ holding ∈ state.holders, holding.key.table = .pageIdxLockTable →
    params.usePageSearch
  pending : ∀ agent lock mode, .lock lock mode ∈ (state.threads agent).pending →
    lock.table = .pageIdxLockTable → params.usePageSearch

/-- The values of the members of a list are in the list of the values. -/
theorem mem_of_mapM {Item Value : Type} {value : Item → Option Value} {items : List Item}
    {values : List Value} (all : items.mapM value = some values) {item : Item} {found : Value}
    (member : item ∈ items) (here : value item = some found) : found ∈ values := by
  induction items generalizing values with
  | nil => cases member
  | cons first rest inductionHypothesis =>
    simp only [List.mapM_cons, Option.pure_def, Option.bind_eq_bind, Option.bind_eq_some_iff,
      Option.some.injEq] at all
    obtain ⟨head, isHead, tail, isTail, rfl⟩ := all
    rcases List.mem_cons.mp member with rfl | later
    · obtain rfl := Option.some.inj (isHead.symm.trans here)
      exact List.mem_cons_self
    · exact List.mem_cons_of_mem _ (inductionHypothesis isTail later)

section Locks

variable {params : IndexParams Point Code Distance} {state next : IndexState Point Code}
  {agent : Agent}

/-- A lock that a phase owes and does not take is in hand. -/
theorem Sound.held_owed (sound : Sound params state) {lock : LockKey}
    (owed : lock ∈ (state.threads agent).owed)
    (notTaken : ∀ mode, ¬ (state.threads agent).phase.Allows (.lock lock mode : Op Point)) :
    lock ∈ Holding.heldBy state.holders agent := by
  refine (sound.keeps.held_of_owed owed).resolve_right ?_
  rintro ⟨mode, pending⟩
  exact notTaken mode ((sound.phases.inPhase agent).allows _ pending)

theorem Sound.held_idx_of_idxHeld (sound : Sound params state)
    (phase : (state.threads agent).phase.idxHeld) {id : Nat}
    (member : id ∈ (state.threads agent).newNhood) :
    LockKey.idx id ∈ Holding.heldBy state.holders agent := by
  have listed : LockKey.idx id ∈ (state.threads agent).idxLocked.map LockKey.idx := by
    refine List.mem_map_of_mem ?_
    rw [(sound.shapes agent).idxLocked (by revert phase; cases (state.threads agent).phase <;> decide),
      mem_sortUnique]
    exact List.mem_append_left _ member
  refine sound.held_owed ?_ fun mode allows => ?_
  · unfold Thread.owed
    cases now : (state.threads agent).phase with
    | lockPageIdx | remap => exact List.mem_append_right _ (List.mem_append_left _ listed)
    | _ =>
      rw [now] at phase
      cases phase
  · cases now : (state.threads agent).phase with
    | lockPageIdx | remap =>
      rw [now] at allows
      simp [Phase.Allows] at allows
    | _ =>
      rw [now] at phase
      cases phase

/-- A reader keeps every insert past its search from holding the lock. -/
theorem Exclusion.reader (exclusion : Exclusion state) {lock : LockKey} {other : Agent}
    (notVec : lock.table ≠ .vecLockTable) (reads : ⟨other, lock, .rd⟩ ∈ state.holders)
    (role : (state.threads agent).role = .insertInPlace)
    (phase : (state.threads agent).phase ≠ .beam) :
    lock ∉ Holding.heldBy state.holders agent := by
  intro held
  have also : lock ∈ Holding.heldBy state.holders other := Holding.mem_heldBy.mpr ⟨.rd, reads⟩
  obtain rfl := exclusion.unique notVec role phase held also
  exact nomatch exclusion.writers _ reads role phase

end Locks

section Steps

variable [LinearOrder Distance] {params : IndexParams Point Code Distance}
  {state next : IndexState Point Code} {agent : Agent}

omit [LinearOrder Distance] in
/-- An id is mapped again by an insert that holds its idx lock for writing. -/
theorem remapped_under_lock (sound : Sound params state) {id loc : Nat}
    (mapped : state.layout.id2loc id = some loc) {action : Action Point}
    (maps : action.Maps state id) : ∃ runner choice, action = .step runner choice ∧
      (state.threads runner).phase = .remap ∧ id ∈ (state.threads runner).newNhood ∧
        LockKey.idx id ∈ Holding.heldBy state.holders runner := by
  cases action with
  | call => exact maps.elim
  | step runner choice =>
    have maps : (state.threads runner).MapsNext id := maps
    unfold Thread.MapsNext at maps
    split at maps
    · rename_i other loc' rest pending
      subst maps
      have member : .remap other loc' ∈ (state.threads runner).pending :=
        pending ▸ List.mem_cons_self
      have phase : (state.threads runner).phase = .remap :=
        (sound.phases.inPhase runner).allows _ member
      have neighbor : other ∈ (state.threads runner).newNhood := by
        rw [(sound.shapes runner).moving phase] at member
        obtain ⟨entry, inZip, equal⟩ := List.mem_map.mp member
        rw [Op.remap.injEq] at equal
        exact equal.1 ▸ (List.of_mem_zip (List.mem_of_mem_drop inZip)).1
      exact ⟨runner, choice, rfl, phase, neighbor, sound.held_idx phase (.inl neighbor)⟩
    · -- a target has no location before it is mapped
      obtain ⟨phase, rfl⟩ := maps
      have role := (sound.phases.inPhase runner).isInsert (by rw [phase]; decide)
      have unmapped : state.layout.id2loc (state.threads runner).target = none :=
        (sound.tracked.valid runner _ (Thread.reservation_eq role)).unmapped
          (by simp only [phase]; exact .inr (.inr rfl))
      cases mapped.symm.trans unmapped
    · exact maps.elim

/-- An id stays where it is while a reader holds its idx lock. -/
theorem id2loc_of_reader (sound : Sound params state) {id loc : Nat} {reader : Agent}
    (mapped : state.layout.id2loc id = some loc)
    (reads : ⟨reader, .idx id, .rd⟩ ∈ state.holders) {action : Action Point}
    (taken : state.step params action = some next) : next.layout.id2loc id = some loc := by
  by_cases maps : action.Maps state id
  · obtain ⟨runner, _, _, phase, _, held⟩ := remapped_under_lock sound mapped maps
    have notVec : (LockKey.idx id).table ≠ .vecLockTable := nofun
    refine absurd held (sound.exclusion.reader notVec reads ?_ (by rw [phase]; nofun))
    exact (sound.phases.inPhase runner).isInsert (by rw [phase]; decide)
  · exact (record_of_step sound taken maps).1.trans mapped

/-- The slot of a record is given back at the end of `remap` only. -/
theorem slot_of_step (sound : Sound params state) {id loc : Nat}
    (real : state.layout.loc2id params.geometry loc = .real id) {action : Action Point}
    (taken : state.step params action = some next) :
    next.layout.loc2id params.geometry loc = .real id ∨
      ∃ runner choice, action = .step runner choice ∧ (state.threads runner).phase = .remap ∧
        (state.threads runner).pending = [] ∧ loc ∈ (state.threads runner).origLocs := by
  have same : ∀ {layout : Layout}, layout.pageLayout = state.layout.pageLayout →
      layout.loc2id params.geometry loc = .real id := by
    intro layout pageLayout
    rw [Layout.loc2id, pageLayout]
    exact real
  rcases IndexState.step_cases taken with ⟨number, request, _, _, started⟩ |
    ⟨runner, _, op, _, rfl, pending, ran⟩ | ⟨runner, choice, rfl, pending, ended⟩
  · obtain ⟨_, rfl⟩ := IndexState.start_cases started
    exact .inl real
  · by_cases isRemap : ∃ moved target, op = .remap moved target
    · obtain ⟨moved, target, rfl⟩ := isRemap
      simp only [IndexState.execute, Option.map_eq_some_iff] at ran
      obtain ⟨current, _, rfl⟩ := ran
      exact .inl (same rfl)
    · obtain ⟨layout, _⟩ := execute_layout (fun moved target equal => isRemap ⟨moved, target, equal⟩) ran
      exact .inl (layout ▸ real)
  · by_cases isAlloc : (state.threads runner).phase = .alloc
    · obtain ⟨locs, needRead, takes, _⟩ := advance_alloc sound isAlloc ended
      refine .inl ?_
      rw [takes.taken, if_neg]
      · exact real
      · exact fun member => by cases real.symm.trans (takes.free loc member)
    by_cases isPut : (state.threads runner).phase = .put
    · unfold IndexState.advance at ended
      simp only [isPut, IndexState.publishStep, Option.map_eq_some_iff] at ended
      obtain ⟨_, _, rfl⟩ := ended
      exact .inl (same rfl)
    by_cases isRemap : (state.threads runner).phase = .remap
    · by_cases old : loc ∈ (state.threads runner).origLocs
      · exact .inr ⟨runner, choice, rfl, isRemap, pending, old⟩
      · have role := (sound.phases.inPhase runner).isInsert (by rw [isRemap]; decide)
        have stage : (state.threads runner).phase.stage = .moving := Phase.stage_eq_moving.mpr isRemap
        have valid := sound.tracked.valid runner _ (Thread.reservation_eq role)
        obtain ⟨_, _, _, _, _, kept⟩ := valid.eraseAndSetLoc stage sound.tracked.formed
        unfold IndexState.advance at ended
        simp only [isRemap, Option.some.injEq] at ended
        subst ended
        exact .inl ((kept loc (valid.not_mem_locs (.inr (.inr stage)) real) old).trans real)
    · obtain ⟨layout, _⟩ := advance_layout (by simp [isAlloc, isPut, isRemap]) ended
      exact .inl (layout ▸ real)

omit [LinearOrder Distance] in
theorem Thread.PageKeyed.plain {layout : Layout} {thread : Thread Point}
    (phase : thread.phase.idxHeld = false) : thread.PageKeyed params layout :=
  ⟨fun held => (nomatch phase.symm.trans held), fun held => (nomatch phase.symm.trans held)⟩

omit [LinearOrder Distance] in
/-- A thread whose neighbours stay where they are. -/
theorem Thread.PageKeyed.keep {layout after : Layout} {thread later : Thread Point}
    (keyed : thread.PageKeyed params layout) (phase : later.phase = thread.phase)
    (newNhood : later.newNhood = thread.newNhood) (origLocs : later.origLocs = thread.origLocs)
    (pageLocked : later.pageLocked = thread.pageLocked)
    (stay : thread.phase.idxHeld → ∀ id ∈ thread.newNhood, after.id2loc id = layout.id2loc id) :
    later.PageKeyed params after := by
  refine ⟨?_, fun held search id member loc mapped => ?_⟩
  · rw [phase, origLocs, pageLocked]
    exact keyed.old
  · rw [phase] at held
    rw [newNhood, origLocs] at member
    rw [stay held id (List.mem_of_mem_drop member)] at mapped
    rw [pageLocked]
    exact keyed.current held search id member loc mapped

/-- The neighbours of an insert that has its idx locks are moved by no other insert. -/
theorem neighbor_stays (sound : Sound params state)
    (phase : (state.threads agent).phase.idxHeld) {id : Nat}
    (member : id ∈ (state.threads agent).newNhood) {action : Action Point}
    (taken : state.step params action = some next)
    (other : ∀ choice, action ≠ .step agent choice) :
    next.layout.id2loc id = state.layout.id2loc id := by
  refine (record_of_step sound taken fun maps => ?_).1
  have role := (sound.phases.inPhase agent).isInsert (by
    revert phase
    cases (state.threads agent).phase <;> decide)
  have known := (sound.tracked.valid agent _ (Thread.reservation_eq role)).known (by
    show (state.threads agent).phase.stage ≠ .searching
    revert phase
    cases (state.threads agent).phase <;> decide) id member
  cases mapped : state.layout.id2loc id with
  | none => exact known mapped
  | some loc =>
    obtain ⟨runner, choice, rfl, runnerPhase, _, held⟩ := remapped_under_lock sound mapped maps
    have notVec : (LockKey.idx id).table ≠ .vecLockTable := nofun
    obtain rfl := sound.exclusion.unique notVec
      ((sound.phases.inPhase runner).isInsert (by rw [runnerPhase]; decide))
      (by rw [runnerPhase]; nofun) held (sound.held_idx_of_idxHeld phase member)
    exact other choice rfl

theorem pageKeyed_execute (sound : Sound params state) (keyed : (state.threads agent).PageKeyed params
    state.layout) {op : Op Point} {rest : List (Op Point)}
    (pending : (state.threads agent).pending = op :: rest)
    (taken : state.execute params agent { state.threads agent with pending := rest } op =
      some next) : (next.threads agent).PageKeyed params next.layout := by
  by_cases isRemap : ∃ id loc, op = .remap id loc
  · obtain ⟨id, loc, rfl⟩ := isRemap
    have phase : (state.threads agent).phase = .remap :=
      (sound.phases.inPhase agent).allows (.remap id loc) (by rw [pending]; exact List.mem_cons_self)
    have role := (sound.phases.inPhase agent).isInsert (by rw [phase]; decide)
    have stage : (state.threads agent).phase.stage = .moving := Phase.stage_eq_moving.mpr phase
    have held : (state.threads agent).phase.idxHeld := by
      rw [phase]
      rfl
    have distinct := (sound.tracked.valid agent _ (Thread.reservation_eq role)).nodup_nhood
      (Stage.Holds.engaged (.inr (.inr stage)))
    have todo := (sound.shapes agent).moving phase
    rw [pending] at todo
    have next_id : (state.threads agent).newNhood[(state.threads agent).origLocs.length]? =
        some id := by
      have first := congrArg List.head? todo
      rw [List.head?_cons, List.head?_map, List.head?_drop] at first
      obtain ⟨entry, atEntry, equal⟩ := Option.map_eq_some_iff.mp first.symm
      rw [Op.remap.injEq] at equal
      exact equal.1 ▸ (List.getElem?_zip_eq_some.mp atEntry).1
    have split : (state.threads agent).newNhood.drop (state.threads agent).origLocs.length =
        id :: (state.threads agent).newNhood.drop ((state.threads agent).origLocs.length + 1) := by
      obtain ⟨inside, atIndex⟩ := List.getElem?_eq_some_iff.mp next_id
      rw [List.drop_eq_getElem_cons inside, atIndex]
    simp only [IndexState.execute, Option.map_eq_some_iff] at taken
    obtain ⟨current, found, rfl⟩ := taken
    simp only [IndexState.mapId, IndexState.setThread, Function.update_self]
    refine ⟨fun _ search old member => ?_, fun _ search other member otherLoc mapped => ?_⟩
    · rcases List.mem_append.mp member with before | moved
      · exact keyed.old held search old before
      · rw [List.mem_singleton.mp moved]
        exact keyed.current held search id (split ▸ List.mem_cons_self) current found
    · have member : other ∈ (state.threads agent).newNhood.drop
          ((state.threads agent).origLocs.length + 1) := by
        rw [← List.length_singleton, ← List.length_append]
        exact member
      have different : other ≠ id := by
        rintro rfl
        have tail := distinct.sublist (List.drop_sublist (state.threads agent).origLocs.length _)
        rw [split] at tail
        exact (List.nodup_cons.mp tail).1 member
      have mapped : Function.update state.layout.id2loc id (some loc) other = some otherLoc := mapped
      rw [Function.update_of_ne different] at mapped
      exact keyed.current held search other (split ▸ List.mem_cons_of_mem _ member) otherLoc mapped
  · obtain ⟨layout, _, _, origLocs⟩ :=
      execute_layout (fun id loc equal => isRemap ⟨id, loc, equal⟩) taken
    obtain ⟨later, threads, same, _⟩ := execute_thread taken
    have here : next.threads agent = later := by rw [threads, Function.update_self]
    rw [here] at origLocs ⊢
    exact keyed.keep same.phase same.newNhood origLocs same.pageLocked
      fun _ _ _ => by rw [layout]

omit [LinearOrder Distance] in
theorem pageKeyed_advance (sound : Sound params state)
    (keyed : (state.threads agent).PageKeyed params state.layout) {choice : Choice}
    (taken : state.advance params agent choice = some next) (notBackground : agent ≠ .bgIoThread) :
    (next.threads agent).PageKeyed params next.layout := by
  by_cases isLockIdx : (state.threads agent).phase = .lockIdx
  · have unmoved := (sound.shapes agent).unmoved (by rw [isLockIdx]; nofun) (by rw [isLockIdx]; nofun)
      (by rw [isLockIdx]; nofun)
    unfold IndexState.advance at taken
    simp only [isLockIdx, IndexState.lockPageIdxStep, Option.map_eq_some_iff] at taken
    obtain ⟨locked, keys, rfl⟩ := taken
    rw [IndexState.setThread_threads_self]
    refine ⟨fun _ _ loc member => ?_, fun _ search id member loc mapped => ?_⟩
    · have member : loc ∈ (state.threads agent).origLocs := member
      rw [unmoved] at member
      cases member
    · rw [IndexState.pageKeys, if_pos search, Option.map_eq_some_iff] at keys
      obtain ⟨pages, found, rfl⟩ := keys
      have mapped : state.layout.id2loc id = some loc := mapped
      have listed : id ∈ (state.threads agent).newNhood ++ [(state.threads agent).target] :=
        List.mem_append_left _ (List.mem_of_mem_drop member)
      show params.geometry.locSectorNo loc ∈ sortUnique pages
      rw [mem_sortUnique]
      exact mem_of_mapM found listed (by rw [IndexState.id2page, mapped]; rfl)
  by_cases isLockPageIdx : (state.threads agent).phase = .lockPageIdx
  · unfold IndexState.advance at taken
    simp only [isLockPageIdx, Option.some.injEq] at taken
    subst taken
    rw [IndexState.setThread_threads_self]
    have held : (state.threads agent).phase.idxHeld := by
      rw [isLockPageIdx]
      rfl
    exact ⟨fun _ => keyed.old held, fun _ => keyed.current held⟩
  · refine .plain ?_
    have follows := advance_follows taken notBackground
    cases before : (state.threads agent).phase with
    | lockIdx => exact absurd before isLockIdx
    | lockPageIdx => exact absurd before isLockPageIdx
    | _ =>
      rw [before] at follows
      revert follows
      cases (next.threads agent).phase <;> decide

theorem pageKeyed_step (sound : Sound params state)
    (keyed : ∀ agent, (state.threads agent).PageKeyed params state.layout) {action : Action Point}
    (taken : state.step params action = some next) (agent : Agent) :
    (next.threads agent).PageKeyed params next.layout := by
  have idle : ∀ {thread : Thread Point}, thread.phase = (state.threads agent).phase →
      thread.newNhood = (state.threads agent).newNhood →
      thread.origLocs = (state.threads agent).origLocs →
      thread.pageLocked = (state.threads agent).pageLocked →
      (∀ choice, action ≠ .step agent choice) → thread.PageKeyed params next.layout :=
    fun phase newNhood origLocs pageLocked other => (keyed agent).keep phase newNhood origLocs
      pageLocked fun held id member => neighbor_stays sound held member taken other
  rcases IndexState.step_cases taken with ⟨number, request, _, rfl, started⟩ |
    ⟨runner, _, _, _, rfl, pending, ran⟩ | ⟨runner, choice, rfl, _, ended⟩
  · by_cases same : agent = .caller number
    · subst same
      obtain ⟨_, rfl⟩ := IndexState.start_cases started
      dsimp only
      rw [IndexState.setThread_threads_self]
      cases request <;> exact .plain rfl
    · rw [start_other started same]
      exact idle rfl rfl rfl rfl nofun
  · by_cases same : agent = runner
    · exact same ▸ pageKeyed_execute sound (keyed runner) pending ran
    · obtain ⟨later, threads, _⟩ := execute_thread ran
      rw [threads, Function.update_of_ne same]
      refine idle rfl rfl rfl rfl fun choice equal => ?_
      rw [Action.step.injEq] at equal
      exact same equal.1.symm
  · by_cases same : agent = runner
    · subst same
      refine pageKeyed_advance sound (keyed agent) ended ?_
      rintro rfl
      exact phase_of_advance ended sound.phases.phase_of_background
    · have other : ∀ choice', Action.step runner choice ≠ (.step agent choice' : Action Point) := by
        intro choice' equal
        rw [Action.step.injEq] at equal
        exact same equal.1.symm
      rcases advance_other ended same with kept | ⟨_, rfl, kept⟩
      · exact kept ▸ idle rfl rfl rfl rfl other
      · rw [kept]
        exact idle rfl rfl rfl rfl other

omit [LinearOrder Distance] in
/-- Without page search no page idx lock is pending after a phase. -/
theorem pageIdxUsed_advance (phases : InPhases state.threads) (after : InPhases next.threads)
    (used : PageIdxUsed params state) {choice : Choice}
    (taken : state.advance params agent choice = some next) : PageIdxUsed params next := by
  have notBackground : agent ≠ .bgIoThread := by
    rintro rfl
    exact phase_of_advance taken phases.phase_of_background
  refine ⟨fun holding member isPageIdx => ?_, fun other lock mode member isPageIdx => ?_⟩
  · rcases (advance_frame taken notBackground).holders with same | ⟨_, handed⟩
    · exact used.taken holding (same ▸ member) isPageIdx
    · rw [handed] at member
      obtain ⟨before, inHolders, rfl⟩ := List.mem_map.mp member
      refine used.taken before inHolders ?_
      unfold IndexState.handOver at isPageIdx
      split at isPageIdx <;> exact isPageIdx
  · have allows := (after.inPhase other).allows _ member
    by_cases same : other = agent
    · subst same
      have follows := advance_follows taken notBackground
      by_contra notUsed
      have keys : ∀ {ids locked : List Nat}, state.pageKeys params ids = some locked →
          locked = [] := by
        intro ids locked found
        rw [IndexState.pageKeys, if_neg notUsed, Option.some.injEq] at found
        exact found.symm
      unfold IndexState.advance at taken
      cases phase : (state.threads other).phase with
      | lockIdx =>
        simp only [phase, IndexState.lockPageIdxStep, Option.map_eq_some_iff] at taken
        obtain ⟨locked, found, rfl⟩ := taken
        rw [IndexState.setThread_threads_self, keys found] at member
        cases member
      | pageLock =>
        simp only [phase, IndexState.pageLockStep, Option.map_eq_some_iff] at taken
        obtain ⟨locked, found, rfl⟩ := taken
        rw [IndexState.setThread_threads_self, keys found] at member
        simp at member
      | _ =>
        rw [phase] at follows
        revert follows allows
        cases (next.threads other).phase <;> simp [Phase.follows, Phase.Allows, isPageIdx]
    · rcases advance_other taken same with kept | ⟨_, rfl, _⟩
      · exact used.pending other lock mode (kept ▸ member) isPageIdx
      · rw [after.phase_of_background] at allows
        exact allows.elim

theorem pageIdxUsed_step (phases : InPhases state.threads) (used : PageIdxUsed params state)
    {action : Action Point} (taken : state.step params action = some next) :
    PageIdxUsed params next := by
  have after := inPhases_step phases taken
  rcases IndexState.step_cases taken with ⟨number, request, _, _, started⟩ |
    ⟨runner, _, op, rest, _, pending, ran⟩ | ⟨_, _, _, _, ended⟩
  · have others : ∀ other, other ≠ .caller number → next.threads other = state.threads other :=
      fun _ different => start_other started different
    obtain ⟨_, rfl⟩ := IndexState.start_cases started
    refine ⟨used.taken, fun other lock mode member => ?_⟩
    by_cases starts : other = .caller number
    · subst starts
      dsimp only at member
      rw [IndexState.setThread_threads_self] at member
      cases request <;> cases member
    · exact used.pending other lock mode (others other starts ▸ member)
  · have head : op ∈ (state.threads runner).pending := pending ▸ List.mem_cons_self
    refine ⟨fun holding member isPageIdx => ?_, fun other lock mode member => ?_⟩
    · rcases execute_locks ran with ⟨_, holders⟩ | ⟨lock, mode, rfl, _, holders⟩ |
        ⟨lock, _, _, holders⟩
      · exact used.taken holding (holders ▸ member) isPageIdx
      · rw [holders] at member
        rcases List.mem_cons.mp member with rfl | before
        · exact used.pending runner lock mode head isPageIdx
        · exact used.taken holding before isPageIdx
      · rw [holders] at member
        exact used.taken holding (List.mem_of_mem_eraseP member) isPageIdx
    · obtain ⟨later, threads, _, popped⟩ := execute_thread ran
      by_cases same : other = runner
      · subst same
        rw [threads, Function.update_self] at member
        refine used.pending other lock mode ?_
        rcases popped with ⟨left, _⟩ | ⟨_, _, _, still, _⟩
        · rw [pending]
          exact List.mem_cons_of_mem _ (left ▸ member)
        · exact still ▸ member
      · rw [threads, Function.update_of_ne same] at member
        exact used.pending other lock mode member
  · exact pageIdxUsed_advance phases after used ended

end Steps

/-! ### Slots that are being read -/

/-- What keeps slots from being recycled. -/
structure Kept (params : IndexParams Point Code Distance) (state : IndexState Point Code) :
    Prop where
  sound : Sound params state
  keyed : ∀ agent, (state.threads agent).PageKeyed params state.layout
  used : PageIdxUsed params state

section Reading

variable [LinearOrder Distance] {params : IndexParams Point Code Distance}
  {state next : IndexState Point Code}

theorem Kept.step (kept : Kept params state) {action : Action Point}
    (taken : state.step params action = some next) : Kept params next :=
  ⟨kept.sound.step taken, pageKeyed_step kept.sound kept.keyed taken,
    pageIdxUsed_step kept.sound.phases kept.used taken⟩

omit [LinearOrder Distance] in
theorem IndexState.Loaded.kept (loaded : state.Loaded params) : Kept params state := by
  have resting : ∀ agent, (state.threads agent).phase = .finish ∧
      (state.threads agent).pending = [] := by
    intro agent
    cases agent with
    | bgIoThread => exact ⟨loaded.quiescent.bgIo.2.2, loaded.quiescent.bgIo.2.1⟩
    | caller number =>
      exact ⟨(loaded.quiescent.callers number).2.2, (loaded.quiescent.callers number).2.1⟩
  refine ⟨loaded.sound, fun agent => .plain ?_, ⟨?_, fun agent _ _ member => ?_⟩⟩
  · rw [(resting agent).1]
    rfl
  · rw [loaded.quiescent.holders]
    exact nofun
  · rw [(resting agent).2] at member
    cases member

/-- A slot of a page stays while a reader holds the page idx lock. -/
theorem slot_of_reader (kept : Kept params state) {id loc : Nat} {reader : Agent}
    (real : state.layout.loc2id params.geometry loc = .real id)
    (reads : ⟨reader, .pageIdx (params.geometry.locSectorNo loc), .rd⟩ ∈ state.holders)
    {action : Action Point} (taken : state.step params action = some next) :
    next.layout.loc2id params.geometry loc = .real id := by
  refine (slot_of_step kept.sound real taken).resolve_right ?_
  rintro ⟨runner, _, rfl, phase, _, old⟩
  have search := kept.used.taken _ reads rfl
  have locked := (kept.keyed runner).old (by rw [phase]; rfl) search loc old
  have notVec : (LockKey.pageIdx (params.geometry.locSectorNo loc)).table ≠ .vecLockTable := nofun
  refine kept.sound.exclusion.reader notVec reads
    ((kept.sound.phases.inPhase runner).isInsert (by rw [phase]; decide)) (by rw [phase]; nofun) ?_
  refine kept.sound.held_owed ?_ fun mode allows => ?_
  · rw [Thread.owed, phase]
    exact List.mem_append_left _ (List.mem_map_of_mem locked)
  · rw [phase] at allows
    exact allows

/-- From a moment when a search holds the idx lock of a mapped id for reading until it gives the
lock back, the id stays where it is and `alloc_loc` gives the slot to no insert. From a moment
when it holds the page idx lock of a page for reading until it gives the lock back, every slot
of the page that has an id keeps it. -/
theorem slots_are_not_recycled (params : IndexParams Point Code Distance)
    {state last : IndexState Point Code} {actions : List (Action Point)}
    (reachable : (updateSystem params (IndexState.Loaded params)).Reachable Transition.anyStep state)
    (replay : (updateSystem params (IndexState.Loaded params)).run state actions = some last) :
    (∀ reader id loc, state.layout.id2loc id = some loc →
      (updateSystem params (IndexState.Loaded params)).Along
        (fun before _ => ⟨reader, .idx id, .rd⟩ ∈ before.holders) state actions →
      last.layout.id2loc id = some loc ∧
        ∀ count hints layout locs needRead, 0 < count →
          last.layout.allocLoc params.geometry count hints = some (layout, locs, needRead) →
            loc ∉ locs) ∧
    ∀ reader page slots slot id, slot < params.geometry.nnodesPerSector → 1 ≤ page →
      state.layout.pageLayout page = some slots → slots slot = .real id →
      (updateSystem params (IndexState.Loaded params)).Along
        (fun before _ => ⟨reader, .pageIdx page, .rd⟩ ∈ before.holders) state actions →
      last.layout.loc2id params.geometry (params.geometry.sectorToLoc page slot) = .real id := by
  have start : ∀ first, IndexState.Loaded params first → Kept params first :=
    fun _ loaded => loaded.kept
  have keep : ∀ before action after, Kept params before → Transition.anyStep before action →
      before.step params action = some after → Kept params after :=
    fun _ _ _ kept _ taken => kept.step taken
  have kept : Kept params state := reachable.invariant start keep
  refine ⟨fun reader id loc mapped reads => ?_,
    fun reader page slots slot id inside data laid real reads => ?_⟩
  · have carried : Sound params last ∧ last.layout.id2loc id = some loc := by
      refine reads.carries (fun before => Sound params before ∧ before.layout.id2loc id = some loc)
        (fun before action after both held taken => ?_) replay ⟨kept.sound, mapped⟩
      exact ⟨both.1.step taken, id2loc_of_reader both.1 both.2 held taken⟩
    refine ⟨carried.2, fun count hints layout locs needRead positive allocated member => ?_⟩
    obtain ⟨_, _, _, result, _, takes⟩ :=
      Layout.allocLoc_spec carried.1.tracked.formed positive hints
    obtain ⟨rfl, rfl, rfl⟩ := by simpa using result.symm.trans allocated
    exact carried.1.tracked.used carried.2 (takes.free loc member)
  · have sector : params.geometry.locSectorNo (params.geometry.sectorToLoc page slot) = page :=
      Geometry.locSectorNo_sectorToLoc data inside
    have start : state.layout.loc2id params.geometry (params.geometry.sectorToLoc page slot) =
        .real id := by
      rw [Layout.loc2id, sector, laid, Geometry.slotOf_sectorToLoc page inside]
      exact real
    have carried := reads.carries (fun before => Kept params before ∧
      before.layout.loc2id params.geometry (params.geometry.sectorToLoc page slot) = .real id)
      (fun before action after both held taken =>
        ⟨both.1.step taken, slot_of_reader both.1 both.2 (by rw [sector]; exact held) taken⟩)
      replay ⟨kept, start⟩
    exact carried.2

end Reading

/-- A page search that has looked up the page of an id and is about to read the layout. -/
def lookUpPage : List (Action Nat) :=
  [.call 1 .pageSearch fun _ _ => ⟨0, []⟩, .step (.caller 1) (.frontier [0]),
    .step (.caller 1) .go, .step (.caller 1) .go, .step (.caller 1) .go]

/-- While a page search reads the page of an id, an insert with this id as its neighbour reaches
`lock_idx` and gets no further. -/
theorem slots_are_not_recycled_smallInsert :
    let searching := (updateSystem smallParams (IndexState.Loaded smallParams)).after smallIndex
      lookUpPage
    let waiting := (updateSystem smallParams (IndexState.Loaded smallParams)).after searching
      (smallInsert.take 35)
    waiting.layout.id2loc 0 = some 0 ∧ waiting.layout.loc2id smallParams.geometry 1 = .real 1 := by
  intro searching waiting
  have reachable : (updateSystem smallParams (IndexState.Loaded smallParams)).Reachable
      Transition.anyStep searching :=
    (Transition.System.Reachable.initial smallIndex_loaded.loaded).after
      Transition.System.along_anyStep
  have replays : ((updateSystem smallParams (IndexState.Loaded smallParams)).run searching
      (smallInsert.take 35)).isSome := by
    decide +kernel
  have guarded := slots_are_not_recycled smallParams reachable
    (Transition.System.run_after replays)
  refine ⟨(guarded.1 (.caller 1) 0 0 (by decide +kernel) (by decide +kernel)).1, ?_⟩
  exact guarded.2 (.caller 1) 1 _ 1 1 (by decide) (by decide) rfl (by decide +kernel)
    (by decide +kernel)

end OdinVector
