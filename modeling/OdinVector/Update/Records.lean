/-
This file is about what is in the pages while inserts run. An insert writes whole
pages, under the page locks it holds: the records of its own slots, and what it
has read of the other slots. So a mapped record stays in its slot as long as
every page with a mapped record on it is read before it is written.

`alloc_loc` decides which pages have to be read when it hands out the slots. A
page that is empty then is not read, and by the time its lock is taken it may
have records of other inserts.
-/

import OdinVector.Update.Agreement
import OdinVector.Update.Buffers

namespace OdinVector

open IndexState (rmwPages bufOf bufRecord editBuf)

variable {Point Code Distance : Type}

/-- The record at a location in the pages. -/
def recordAt (geometry : Geometry) (pages : Nat → PageImage Point) (loc : Nat) : DiskNode Point :=
  pages (geometry.locSectorNo loc) (geometry.slotOf loc)

/-- The phases in which the pages to write are read and edited. -/
def Phase.fetched : Phase → Bool
  | .read | .edit | .put => true
  | _ => false

/-- The phases in which the pages are put. -/
def Phase.stored : Phase → Bool
  | .put | .lockIdx | .lockPageIdx | .remap => true
  | _ => false

/-- What the buffers of an insert have of the pages it writes: outside its own slots what is in
the pages that it reads, and everything of the pages that it has put. -/
structure Thread.Mirrors (geometry : Geometry) (thread : Thread Point)
    (pages : Nat → PageImage Point) : Prop where
  fetched : thread.phase.fetched → ∀ page buf, (page, buf) ∈ rmwPages thread →
    page ∈ thread.pagesNeedToRead → .readPage page buf ∉ thread.pending →
      ∀ slot < geometry.nnodesPerSector, geometry.sectorToLoc page slot ∉ thread.locs →
        thread.updateBuf buf slot = pages page slot
  stored : thread.phase.stored → ∀ page buf, (page, buf) ∈ rmwPages thread →
    .putPage page buf ∉ thread.pending → thread.updateBuf buf = pages page

theorem Phase.buffered_of_fetched {phase : Phase} (fetched : phase.fetched) : phase.buffered := by
  cases phase <;> first | rfl | cases fetched

theorem Phase.buffered_of_stored {phase : Phase} (stored : phase.stored) : phase.buffered := by
  cases phase <;> first | rfl | cases stored

theorem Phase.writes_of_buffered {phase : Phase} (buffered : phase.buffered) : phase.writes := by
  cases phase <;> first | rfl | cases buffered

theorem Thread.InPhase.isInsert_of_buffered {thread : Thread Point} (inPhase : thread.InPhase)
    (buffered : thread.phase.buffered) : thread.role = .insertInPlace := by
  refine inPhase.isInsert ?_
  cases phase : thread.phase <;> rw [phase] at buffered <;> first | decide | cases buffered

/-! ### Operations on buffers and pages -/

/-- The operation writes into the buffers. -/
def Op.edits : Op Point → Bool
  | .readPage _ _ | .writeTarget | .writeNeighbor _ _ => true
  | _ => false

section Execute

variable [LinearOrder Distance] {params : IndexParams Point Code Distance}
  {state next : IndexState Point Code} {agent : Agent} {rest : List (Op Point)} {op : Op Point}

theorem execute_updateBuf (notEdit : op.edits = false)
    (taken : state.execute params agent { state.threads agent with pending := rest } op =
      some next) : (next.threads agent).updateBuf = (state.threads agent).updateBuf := by
  cases op with
  | readPage | writeTarget | writeNeighbor => cases notEdit
  | lock lock mode =>
    simp only [IndexState.execute, IndexState.tryLock, Option.some.injEq] at taken
    split at taken
    all_goals
      subst taken
      simp only [IndexState.setThread, Function.update_self]
  | locate | planNeighbor | remap | sendRead =>
    simp only [IndexState.execute, Option.map_eq_some_iff] at taken
    obtain ⟨_, _, rfl⟩ := taken
    simp only [IndexState.mapId, IndexState.setThread, Function.update_self]
  | snapshot =>
    simp only [IndexState.execute, Option.bind_eq_some_iff, Option.map_eq_some_iff] at taken
    obtain ⟨_, _, _, _, rfl⟩ := taken
    simp only [IndexState.setThread, Function.update_self]
  | unlock | readFrontier | putPage | writeDisk =>
    simp only [IndexState.execute, Option.some.injEq] at taken
    subst taken
    simp only [IndexState.setThread, Function.update_self]

theorem execute_pages (notPut : ∀ page buf, op ≠ .putPage page buf)
    (taken : state.execute params agent { state.threads agent with pending := rest } op =
      some next) : next.pages = state.pages := by
  cases op with
  | putPage page buf => exact absurd rfl (notPut page buf)
  | lock lock mode =>
    simp only [IndexState.execute, IndexState.tryLock, Option.some.injEq] at taken
    split at taken <;> exact taken ▸ rfl
  | locate | planNeighbor | writeTarget | remap | sendRead =>
    simp only [IndexState.execute, Option.map_eq_some_iff] at taken
    obtain ⟨_, _, rfl⟩ := taken
    rfl
  | snapshot | writeNeighbor =>
    simp only [IndexState.execute, Option.bind_eq_some_iff, Option.map_eq_some_iff] at taken
    obtain ⟨_, _, _, _, rfl⟩ := taken
    rfl
  | unlock | readFrontier | readPage | writeDisk =>
    simp only [IndexState.execute, Option.some.injEq] at taken
    subst taken
    rfl

end Execute

/-- An edit of an own slot leaves the other slots of a page to write. -/
theorem editBuf_other {params : IndexParams Point Code Distance} {thread : Thread Point}
    (buffered : thread.Buffered) (shape : thread.Shape params) (phase : thread.phase.buffered)
    {loc : Nat} (own : loc ∈ thread.locs) (node : DiskNode Point) {page buf slot : Nat}
    (entry : (page, buf) ∈ rmwPages thread)
    (notOwn : params.geometry.sectorToLoc page slot ∉ thread.locs) :
    (editBuf params thread loc node).updateBuf buf slot = thread.updateBuf buf slot := by
  have locked : params.geometry.locSectorNo loc ∈ thread.pagesLocked := by
    rw [shape.pagesLocked (Phase.writes_of_buffered phase), mem_sortUnique]
    exact List.mem_map_of_mem own
  obtain ⟨ownBuf, ownEntry⟩ := exists_buf locked
  show Function.update thread.updateBuf (bufOf params thread loc) _ buf slot = _
  rw [buffered.bufOf_eq phase ownEntry]
  by_cases sameBuf : buf = ownBuf
  · subst sameBuf
    obtain rfl := page_of_rmwPages entry ownEntry
    rw [Function.update_self, Function.update_of_ne]
    rintro rfl
    rw [params.geometry.sectorToLoc_locSectorNo] at notOwn
    exact notOwn own
  · rw [Function.update_of_ne sameBuf]

/-! ### Page locks -/

section Pages

variable {params : IndexParams Point Code Distance} {state next : IndexState Point Code}
  {agent : Agent}

/-- An insert that has its buffers holds the locks of the pages it writes. -/
theorem Sound.held_page (sound : Sound params state) (phase : (state.threads agent).phase.buffered)
    {page : Nat} (member : page ∈ (state.threads agent).pagesLocked) :
    LockKey.page page ∈ Holding.heldBy state.holders agent := by
  have owed : LockKey.page page ∈ (state.threads agent).owed := by
    have listed : LockKey.page page ∈ (state.threads agent).pagesLocked.map LockKey.page :=
      List.mem_map_of_mem member
    unfold Thread.owed
    cases now : (state.threads agent).phase with
    | read | edit | put => exact listed
    | lockIdx => exact List.mem_append_right _ listed
    | lockPageIdx | remap => exact List.mem_append_right _ (List.mem_append_right _ listed)
    | _ =>
      rw [now] at phase
      cases phase
  refine (sound.keeps.held_of_owed owed).resolve_right ?_
  rintro ⟨mode, pending⟩
  have allows := (sound.phases.inPhase agent).allows _ pending
  cases now : (state.threads agent).phase with
  | read | edit | put | lockIdx | lockPageIdx | remap =>
    rw [now] at allows
    simp [Phase.Allows] at allows
  | _ =>
    rw [now] at phase
    cases phase

/-- A page that an insert writes is put by no other insert. -/
theorem Sound.puts_apart (sound : Sound params state)
    (buffered : ∀ agent, (state.threads agent).Buffered)
    (phase : (state.threads agent).phase.buffered) {page buf : Nat} {other : Agent}
    (member : page ∈ (state.threads agent).pagesLocked)
    (puts : .putPage page buf ∈ (state.threads other).pending) : agent = other := by
  have putting : (state.threads other).phase = .put :=
    (sound.phases.inPhase other).allows _ puts
  have otherMember := mem_pagesLocked ((buffered other).putting putting page buf puts)
  have notVec : (LockKey.page page).table ≠ .vecLockTable := nofun
  refine sound.exclusion.unique notVec
    ((sound.phases.inPhase agent).isInsert_of_buffered phase) ?_ (sound.held_page phase member)
    (sound.held_page (by rw [putting]; rfl) otherMember)
  intro beam
  rw [beam] at phase
  cases phase

/-- A thread that another one leaves alone. -/
theorem Thread.Mirrors.keep {geometry : Geometry} {thread : Thread Point}
    {pages after : Nat → PageImage Point} (mirrors : thread.Mirrors geometry pages)
    (same : thread.phase.buffered → ∀ page ∈ thread.pagesLocked, after page = pages page) :
    thread.Mirrors geometry after := by
  refine ⟨fun phase page buf entry needed read slot inside notOwn => ?_,
    fun phase page buf entry put => ?_⟩
  · rw [same (Phase.buffered_of_fetched phase) page (mem_pagesLocked entry)]
    exact mirrors.fetched phase page buf entry needed read slot inside notOwn
  · rw [same (Phase.buffered_of_stored phase) page (mem_pagesLocked entry)]
    exact mirrors.stored phase page buf entry put

theorem Thread.Mirrors.plain {geometry : Geometry} {thread : Thread Point}
    {pages : Nat → PageImage Point} (fetched : thread.phase.fetched = false)
    (stored : thread.phase.stored = false) : thread.Mirrors geometry pages :=
  ⟨fun phase => (nomatch fetched.symm.trans phase), fun phase => (nomatch stored.symm.trans phase)⟩

variable [LinearOrder Distance]

section Execute

variable {op : Op Point} {rest : List (Op Point)}

/-- An operation that is not pending after another one was not pending before it. -/
theorem notMem_pending_of_execute (pending : (state.threads agent).pending = op :: rest)
    (taken : state.execute params agent { state.threads agent with pending := rest } op =
      some next) : ∀ other : Op Point, other ∉ (next.threads agent).pending → other ≠ op →
    other ∉ (state.threads agent).pending := by
  intro other absent different
  obtain ⟨later, threads, _, popped⟩ := execute_thread taken
  rw [threads, Function.update_self] at absent
  rcases popped with ⟨left, _⟩ | ⟨_, _, _, still, _⟩
  · rw [pending, List.mem_cons, not_or]
    exact ⟨different, left ▸ absent⟩
  · exact still ▸ absent

omit [LinearOrder Distance] in
/-- A record is written at an own location. -/
theorem mirrors_editBuf (sound : Sound params state) (buffered : (state.threads agent).Buffered)
    (mirrors : (state.threads agent).Mirrors params.geometry state.pages)
    (phase : (state.threads agent).phase = .edit) {loc : Nat}
    (own : loc ∈ (state.threads agent).locs) (node : DiskNode Point) (rest : List (Op Point)) :
    Thread.Mirrors params.geometry
      (editBuf params { state.threads agent with pending := rest } loc node) state.pages := by
  refine ⟨fun _ page buf entry needed _ slot inside notOwn => ?_, fun stored => ?_⟩
  · have absent : .readPage page buf ∉ (state.threads agent).pending := by
      intro member
      cases phase.symm.trans ((sound.phases.inPhase agent).allows _ member)
    exact (editBuf_other buffered (sound.shapes agent) (by rw [phase]; rfl) own node entry
      notOwn).trans (mirrors.fetched (by rw [phase]; rfl) page buf entry needed absent slot inside
        notOwn)
  · have stored : (state.threads agent).phase.stored := stored
    rw [phase] at stored
    cases stored

theorem mirrors_readPage (buffered : (state.threads agent).Buffered)
    (mirrors : (state.threads agent).Mirrors params.geometry state.pages) {page buf : Nat}
    (phase : (state.threads agent).phase = .read)
    (pending : (state.threads agent).pending = .readPage page buf :: rest)
    (taken : state.execute params agent { state.threads agent with pending := rest }
      (.readPage page buf) = some next) :
    (next.threads agent).Mirrors params.geometry next.pages := by
  have before := notMem_pending_of_execute pending taken
  simp only [IndexState.execute, Option.some.injEq] at taken
  subst taken
  rw [IndexState.setThread_threads_self] at before ⊢
  refine ⟨fun _ other otherBuf entry needed read slot inside notOwn => ?_, fun stored => ?_⟩
  · show Function.update (state.threads agent).updateBuf buf (state.pages page) otherBuf slot =
      state.pages other slot
    by_cases sameBuf : otherBuf = buf
    · -- the buffer is that of a page to write, so it is read from that page
      subst sameBuf
      rw [Function.update_self]
      rcases buffered.fetching phase page otherBuf (by rw [pending]; exact List.mem_cons_self)
        with source | written
      · exact absurd (mem_rmwPages.mp entry).1 (Nat.not_le.mpr source)
      · rw [page_of_rmwPages entry written]
    · rw [Function.update_of_ne sameBuf]
      refine mirrors.fetched (by rw [phase]; rfl) other otherBuf entry needed
        (before _ read fun equal => ?_) slot inside notOwn
      rw [Op.readPage.injEq] at equal
      exact sameBuf equal.2
  · have stored : (state.threads agent).phase.stored := stored
    rw [phase] at stored
    cases stored

theorem mirrors_putPage (sound : Sound params state) (buffered : (state.threads agent).Buffered)
    (mirrors : (state.threads agent).Mirrors params.geometry state.pages) {page buf : Nat}
    (phase : (state.threads agent).phase = .put)
    (pending : (state.threads agent).pending = .putPage page buf :: rest)
    (taken : state.execute params agent { state.threads agent with pending := rest }
      (.putPage page buf) = some next) :
    (next.threads agent).Mirrors params.geometry next.pages := by
  have before := notMem_pending_of_execute pending taken
  have putting := buffered.putting phase page buf (by rw [pending]; exact List.mem_cons_self)
  have nodup : (state.threads agent).pagesLocked.Nodup := by
    rw [(sound.shapes agent).pagesLocked (by rw [phase]; rfl)]
    exact (sortUnique_pairwise _).imp fun below => Nat.ne_of_lt below
  simp only [IndexState.execute, Option.some.injEq] at taken
  subst taken
  rw [IndexState.setThread_threads_self] at before ⊢
  refine ⟨fun _ other otherBuf entry needed _ slot inside notOwn => ?_,
    fun _ other otherBuf entry put => ?_⟩
  · show (state.threads agent).updateBuf otherBuf slot =
      Function.update state.pages page ((state.threads agent).updateBuf buf) other slot
    by_cases samePage : other = page
    · subst samePage
      obtain ⟨_, rfl⟩ := Prod.mk.inj (rmwPages_once nodup _ entry _ putting rfl)
      rw [Function.update_self]
    · rw [Function.update_of_ne samePage]
      refine mirrors.fetched (by rw [phase]; rfl) other otherBuf entry needed ?_ slot inside notOwn
      intro member
      cases phase.symm.trans ((sound.phases.inPhase agent).allows _ member)
  · show (state.threads agent).updateBuf otherBuf =
      Function.update state.pages page ((state.threads agent).updateBuf buf) other
    by_cases samePage : other = page
    · subst samePage
      obtain ⟨_, rfl⟩ := Prod.mk.inj (rmwPages_once nodup _ entry _ putting rfl)
      rw [Function.update_self]
    · rw [Function.update_of_ne samePage]
      refine mirrors.stored (by rw [phase]; rfl) other otherBuf entry (before _ put fun equal => ?_)
      rw [Op.putPage.injEq] at equal
      exact samePage equal.1

/-- An operation on neither the buffers nor the pages. -/
theorem mirrors_quiet (mirrors : (state.threads agent).Mirrors params.geometry state.pages)
    (pending : (state.threads agent).pending = op :: rest)
    (taken : state.execute params agent { state.threads agent with pending := rest } op =
      some next) (updateBuf : (next.threads agent).updateBuf = (state.threads agent).updateBuf)
    (pages : next.pages = state.pages) (notRead : ∀ page buf, op ≠ .readPage page buf)
    (notPut : ∀ page buf, op ≠ .putPage page buf) :
    (next.threads agent).Mirrors params.geometry next.pages := by
  have before := notMem_pending_of_execute pending taken
  obtain ⟨later, threads, same, popped⟩ := execute_thread taken
  have here : next.threads agent = later := by rw [threads, Function.update_self]
  rw [here] at updateBuf before ⊢
  refine ⟨fun phase page buf entry needed read slot inside notOwn => ?_,
    fun phase page buf entry put => ?_⟩
  · rw [same.phase] at phase
    rw [same.rmwPages_eq] at entry
    rw [same.pagesNeedToRead] at needed
    rw [same.locs] at notOwn
    rw [updateBuf, pages]
    exact mirrors.fetched phase page buf entry needed
      (before _ read fun equal => notRead page buf equal.symm) slot inside notOwn
  · rw [same.phase] at phase
    rw [same.rmwPages_eq] at entry
    rw [updateBuf, pages]
    exact mirrors.stored phase page buf entry (before _ put fun equal => notPut page buf equal.symm)

theorem mirrors_execute (sound : Sound params state)
    (buffered : (state.threads agent).Buffered)
    (mirrors : (state.threads agent).Mirrors params.geometry state.pages)
    (pending : (state.threads agent).pending = op :: rest)
    (taken : state.execute params agent { state.threads agent with pending := rest } op =
      some next) : (next.threads agent).Mirrors params.geometry next.pages := by
  have allows : (state.threads agent).phase.Allows op :=
    (sound.phases.inPhase agent).allows op (by rw [pending]; exact List.mem_cons_self)
  cases op with
  | readPage page buf => exact mirrors_readPage buffered mirrors allows pending taken
  | writeTarget =>
    simp only [IndexState.execute, Option.map_eq_some_iff] at taken
    obtain ⟨loc, last, rfl⟩ := taken
    rw [IndexState.setThread_threads_self]
    exact mirrors_editBuf sound buffered mirrors allows (List.mem_of_getElem? last) _ _
  | writeNeighbor id loc =>
    simp only [IndexState.execute, Option.bind_eq_some_iff, Option.map_eq_some_iff] at taken
    obtain ⟨_, _, _, _, rfl⟩ := taken
    rw [IndexState.setThread_threads_self]
    have own := buffered.editing allows id loc (by rw [pending]; exact List.mem_cons_self)
    exact mirrors_editBuf sound buffered mirrors allows own _ _
  | putPage page buf => exact mirrors_putPage sound buffered mirrors allows pending taken
  | _ =>
    exact mirrors_quiet mirrors pending taken (execute_updateBuf rfl taken)
      (execute_pages (by simp) taken) (fun _ _ equal => by cases equal)
      (fun _ _ equal => by cases equal)

end Execute

omit [LinearOrder Distance] in
theorem mirrors_advance (buffered : (state.threads agent).Buffered)
    (mirrors : (state.threads agent).Mirrors params.geometry state.pages) {choice : Choice}
    (pending : (state.threads agent).pending = [])
    (taken : state.advance params agent choice = some next) (notBackground : agent ≠ .bgIoThread) :
    (next.threads agent).Mirrors params.geometry next.pages := by
  rw [(advance_frame taken notBackground).pages]
  have done : ∀ {op : Op Point}, op ∉ (state.threads agent).pending := pending ▸ List.not_mem_nil
  cases IndexState.advances taken with
  | writePq | prune | beamFinish | alloc | lockPages | lockVec | giveBack | pageLoop | pageFinish
  | pageLock | pipeFinish =>
    simp only [IndexState.setThread_threads_self]
    exact .plain rfl rfl
  | beam phase | send phase | complete phase =>
    rw [IndexState.setThread_threads_self]
    exact .plain (by simp only [phase]; rfl) (by simp only [phase]; rfl)
  | plan =>
    rw [IndexState.setThread_threads_self]
    refine ⟨fun _ page buf entry needed unread => absurd (List.mem_map.mpr ⟨(page, buf), ?_, rfl⟩)
      unread, (fun equal => by cases equal)⟩
    exact List.mem_append_right _ (List.mem_filter.mpr ⟨entry, decide_eq_true needed⟩)
  | read phase =>
    rw [IndexState.setThread_threads_self]
    exact ⟨fun _ page buf entry needed _ => mirrors.fetched (by rw [phase]; rfl) page buf entry
      needed done, (fun equal => by cases equal)⟩
  | edit phase =>
    rw [IndexState.setThread_threads_self]
    refine ⟨fun _ page buf entry needed _ => mirrors.fetched (by rw [phase]; rfl) page buf entry
      needed done, fun _ page buf entry put => absurd (List.mem_map.mpr ⟨(page, buf), ?_, rfl⟩) put⟩
    rw [buffered.writes (by rw [phase]; rfl)]
    exact entry
  | put phase | lockIdx phase | lockPageIdx phase =>
    simp only [IndexState.mapId, IndexState.setThread, Function.update_self]
    exact ⟨(fun equal => by cases equal), fun _ page buf entry _ => mirrors.stored
      (by rw [phase]; rfl) page buf entry done⟩
  | remap =>
    simp only [IndexState.commitStep, IndexState.setThread, Function.update_self]
    exact .plain rfl rfl
  | handOff =>
    dsimp only
    rw [IndexState.setThread_threads_other _ _ notBackground, IndexState.setThread_threads_self]
    exact .plain rfl rfl

omit [LinearOrder Distance] in
/-- Only the ends of three phases change the maps. -/
theorem advance_layout {choice : Choice}
    (quiet : (state.threads agent).phase ∉ [Phase.alloc, .put, .remap])
    (taken : state.advance params agent choice = some next) :
    next.layout = state.layout ∧ next.record = state.record := by
  cases IndexState.advances taken with
  | alloc phase | put phase | remap phase => simp [phase] at quiet
  | _ => exact ⟨rfl, rfl⟩

omit [LinearOrder Distance] in
/-- What the end of `alloc` hands out. -/
theorem advance_alloc (sound : Sound params state) {choice : Choice}
    (phase : (state.threads agent).phase = .alloc)
    (taken : state.advance params agent choice = some next) :
    ∃ locs needRead, Layout.Takes params.geometry state.layout next.layout locs needRead ∧
      next.record = state.record := by
  unfold IndexState.advance at taken
  simp only [phase, IndexState.allocStep, Option.map_eq_some_iff] at taken
  obtain ⟨⟨layout, locs, needRead⟩, allocated, rfl⟩ := taken
  obtain ⟨_, _, _, result, _, takes⟩ := Layout.allocLoc_spec sound.tracked.formed
    (Nat.succ_pos (state.threads agent).newNhood.length) (state.threads agent).pageRef
  obtain ⟨rfl, rfl, rfl⟩ := by simpa using result.symm.trans allocated
  exact ⟨_, _, takes, rfl⟩

omit [LinearOrder Distance] in
/-- Only the end of the put phase maps an id, apart from `remap`. -/
theorem advance_id2loc (sound : Sound params state) {choice : Choice}
    (notPut : (state.threads agent).phase ≠ .put)
    (taken : state.advance params agent choice = some next) :
    next.layout.id2loc = state.layout.id2loc ∧ next.record = state.record := by
  by_cases isAlloc : (state.threads agent).phase = .alloc
  · obtain ⟨_, _, takes, record⟩ := advance_alloc sound isAlloc taken
    exact ⟨takes.id2loc, record⟩
  by_cases isRemap : (state.threads agent).phase = .remap
  · unfold IndexState.advance at taken
    simp only [isRemap, Option.some.injEq] at taken
    subst taken
    exact ⟨Layout.eraseAndSetLoc_id2loc _ _ _ _, rfl⟩
  · obtain ⟨layout, record⟩ := advance_layout (by simp [isAlloc, notPut, isRemap]) taken
    rw [layout]
    exact ⟨rfl, record⟩

/-- Every step keeps what the buffers have of the pages. -/
theorem mirrors_step (sound : Sound params state)
    (buffered : ∀ agent, (state.threads agent).Buffered)
    (mirrors : ∀ agent, (state.threads agent).Mirrors params.geometry state.pages)
    {action : Action Point} (taken : state.step params action = some next) (agent : Agent) :
    (next.threads agent).Mirrors params.geometry next.pages := by
  rcases IndexState.step_cases taken with ⟨number, request, _, _, started⟩ |
    ⟨runner, _, op, _, _, pending, ran⟩ | ⟨runner, _, _, pending, ended⟩
  · by_cases same : agent = .caller number
    · subst same
      obtain ⟨_, rfl⟩ := IndexState.start_cases started
      dsimp only
      rw [IndexState.setThread_threads_self]
      cases request <;> exact .plain rfl rfl
    · rw [start_other started same]
      obtain ⟨_, rfl⟩ := IndexState.start_cases started
      exact mirrors agent
  · by_cases same : agent = runner
    · exact same ▸ mirrors_execute sound (buffered runner) (mirrors runner) pending ran
    · obtain ⟨later, threads, _⟩ := execute_thread ran
      rw [threads, Function.update_of_ne same]
      refine (mirrors agent).keep fun phase page member => ?_
      by_cases isPut : ∃ other buf, op = .putPage other buf
      · obtain ⟨other, buf, rfl⟩ := isPut
        simp only [IndexState.execute, Option.some.injEq] at ran
        subst ran
        refine Function.update_of_ne ?_ _ _
        rintro rfl
        exact same (sound.puts_apart buffered phase member (pending ▸ List.mem_cons_self))
      · rw [execute_pages (fun other buf equal => isPut ⟨other, buf, equal⟩) ran]
  · have notBackground : runner ≠ .bgIoThread := by
      rintro rfl
      exact phase_of_advance ended sound.phases.phase_of_background
    by_cases same : agent = runner
    · subst same
      exact mirrors_advance (buffered agent) (mirrors agent) pending ended notBackground
    · rw [(advance_frame ended notBackground).pages]
      rcases advance_other ended same with kept | ⟨_, rfl, kept⟩
      · exact kept ▸ mirrors agent
      · have finished := sound.phases.phase_of_background
        rw [kept]
        exact .plain (by simp only [finished]; rfl) (by simp only [finished]; rfl)

end Pages

/-! ### The records of mapped ids -/

/-- The page that the next operation of a thread puts. -/
def Thread.puts (thread : Thread Point) : Option Nat :=
  match thread.pending with
  | .putPage page _ :: _ => some page
  | _ => none

/-- The step does not put a page which has a mapped record on it and was not read. -/
def NoBlindPut (params : IndexParams Point Code Distance) (state : IndexState Point Code) :
    Action Point → Prop
  | .step agent _ => ∀ page ∈ (state.threads agent).puts,
      page ∉ (state.threads agent).pagesNeedToRead → ∀ id < state.curId,
        ∀ loc ∈ state.layout.id2loc id, params.geometry.locSectorNo loc ≠ page
  | .call _ _ _ => True

/-- A page that the step puts has the records of mapped ids as they are. -/
def PutsKeep (params : IndexParams Point Code Distance) (state : IndexState Point Code) :
    Action Point → Prop
  | .step agent _ => ∀ page buf rest,
      (state.threads agent).pending = .putPage page buf :: rest →
        ∀ id loc, state.layout.id2loc id = some loc → params.geometry.locSectorNo loc = page →
          (state.threads agent).updateBuf buf (params.geometry.slotOf loc) =
            recordAt params.geometry state.pages loc
  | .call _ _ _ => True

/-- The insert of the thread maps the id with its next step. -/
def Thread.MapsNext (thread : Thread Point) (id : Nat) : Prop :=
  match thread.pending with
  | .remap other _ :: _ => other = id
  | [] => thread.phase = .put ∧ thread.target = id
  | _ => False

/-- The step maps the id. -/
def Action.Maps (state : IndexState Point Code) (id : Nat) : Action Point → Prop
  | .step agent _ => (state.threads agent).MapsNext id
  | .call _ _ _ => False

/-- Every mapped id has its record in its slot. -/
def Recorded (params : IndexParams Point Code Distance) (state : IndexState Point Code) : Prop :=
  ∀ id loc, state.layout.id2loc id = some loc →
    recordAt params.geometry state.pages loc = state.record id

section Recorded

variable {params : IndexParams Point Code Distance} {state next : IndexState Point Code}
  {agent : Agent}

/-- What an insert has in the buffers for an own slot is in the pages when all are put. -/
theorem bufRecord_stored (sound : Sound params state)
    (buffered : (state.threads agent).Buffered)
    (mirrors : (state.threads agent).Mirrors params.geometry state.pages)
    (phase : (state.threads agent).phase.stored)
    (put : ∀ page buf, .putPage page buf ∉ (state.threads agent).pending) {loc : Nat}
    (own : loc ∈ (state.threads agent).locs) :
    recordAt params.geometry state.pages loc = bufRecord params (state.threads agent) loc := by
  have locked : params.geometry.locSectorNo loc ∈ (state.threads agent).pagesLocked := by
    rw [(sound.shapes agent).pagesLocked
      (Phase.writes_of_buffered (Phase.buffered_of_stored phase)), mem_sortUnique]
    exact List.mem_map_of_mem own
  obtain ⟨buf, entry⟩ := exists_buf locked
  rw [recordAt, bufRecord, buffered.bufOf_eq (Phase.buffered_of_stored phase) entry,
    mirrors.stored phase _ buf entry (put _ _)]

/-- The slot of a mapped id is not one that an insert has reserved and mapped nothing to. -/
theorem mapped_not_own (sound : Sound params state)
    (reserved : (state.threads agent).phase.stage = .reserved) {id loc : Nat}
    (mapped : state.layout.id2loc id = some loc) : loc ∉ (state.threads agent).locs := by
  have role : (state.threads agent).role = .insertInPlace := by
    refine (sound.phases.inPhase agent).isInsert ?_
    revert reserved
    cases (state.threads agent).phase <;> decide
  refine sound.tracked.not_mem_locs (Thread.reservation_eq role) (.inl reserved) mapped ?_
  rintro (⟨mapping, _⟩ | ⟨moving, _⟩)
  · rcases mapping with published | moving
    · exact nomatch reserved.symm.trans published
    · exact nomatch reserved.symm.trans moving
  · exact nomatch reserved.symm.trans moving

/-- An insert that maps its neighbours has their new slots in `locs`. -/
theorem remap_own (sound : Sound params state) {id loc : Nat}
    (member : .remap id loc ∈ (state.threads agent).pending) :
    (state.threads agent).phase = .remap ∧ loc ∈ (state.threads agent).locs := by
  have phase : (state.threads agent).phase = .remap := (sound.phases.inPhase agent).allows _ member
  refine ⟨phase, ?_⟩
  rw [(sound.shapes agent).moving phase] at member
  obtain ⟨entry, inZip, equal⟩ := List.mem_map.mp member
  rw [Op.remap.injEq] at equal
  exact equal.2 ▸ (List.of_mem_zip (List.mem_of_mem_drop inZip)).2

variable [LinearOrder Distance]

omit [LinearOrder Distance] in
/-- A page that was read before it is put has the records of mapped ids as they are. -/
theorem NoBlindPut.putsKeep {action : Action Point} (sighted : NoBlindPut params state action)
    (sound : Sound params state) (buffered : ∀ agent, (state.threads agent).Buffered)
    (mirrors : ∀ agent, (state.threads agent).Mirrors params.geometry state.pages) :
    PutsKeep params state action := by
  cases action with
  | call => trivial
  | step agent choice =>
    rintro _ buf rest pending id loc mapped rfl
    have member : .putPage (params.geometry.locSectorNo loc) buf ∈ (state.threads agent).pending :=
      pending ▸ List.mem_cons_self
    have phase : (state.threads agent).phase = .put := (sound.phases.inPhase agent).allows _ member
    have needed : params.geometry.locSectorNo loc ∈ (state.threads agent).pagesNeedToRead := by
      by_contra unread
      have puts : params.geometry.locSectorNo loc ∈ (state.threads agent).puts := by
        rw [Thread.puts, pending]
        exact Option.mem_some_self _
      have known : state.layout.id2loc id ≠ none := by
        rw [mapped]
        nofun
      exact sighted _ puts unread id (sound.tracked.below id known) loc mapped rfl
    refine (mirrors agent).fetched (by rw [phase]; rfl) _ buf
      ((buffered agent).putting phase _ buf member) needed
      (fun reads => (nomatch phase.symm.trans ((sound.phases.inPhase agent).allows _ reads)))
      _ (params.geometry.slotOf_lt loc) ?_
    rw [params.geometry.sectorToLoc_locSectorNo]
    exact mapped_not_own sound (by rw [phase]; rfl) mapped

theorem recorded_execute (recorded : Recorded params state) (sound : Sound params state)
    (buffered : (state.threads agent).Buffered)
    (mirrors : (state.threads agent).Mirrors params.geometry state.pages) {op : Op Point}
    {rest : List (Op Point)} (pending : (state.threads agent).pending = op :: rest)
    {choice : Choice} (keeps : PutsKeep params state (.step agent choice))
    (taken : state.execute params agent { state.threads agent with pending := rest } op =
      some next) : Recorded params next := by
  have member : op ∈ (state.threads agent).pending := pending ▸ List.mem_cons_self
  by_cases isPut : ∃ page buf, op = .putPage page buf
  · obtain ⟨page, buf, rfl⟩ := isPut
    have kept := keeps page buf rest pending
    simp only [IndexState.execute, Option.some.injEq] at taken
    subst taken
    intro id loc mapped
    have mapped : state.layout.id2loc id = some loc := mapped
    refine Eq.trans ?_ (recorded id loc mapped)
    show Function.update state.pages page ((state.threads agent).updateBuf buf)
      (params.geometry.locSectorNo loc) (params.geometry.slotOf loc) = _
    by_cases samePage : params.geometry.locSectorNo loc = page
    · rw [samePage, Function.update_self]
      exact kept id loc mapped samePage
    · rw [Function.update_of_ne samePage, recordAt]
  · have pages := execute_pages (fun page buf equal => isPut ⟨page, buf, equal⟩) taken
    by_cases isRemap : ∃ id loc, op = .remap id loc
    · obtain ⟨id, loc, rfl⟩ := isRemap
      obtain ⟨phase, own⟩ := remap_own sound member
      simp only [IndexState.execute, Option.map_eq_some_iff] at taken
      obtain ⟨current, _, rfl⟩ := taken
      intro other otherLoc mapped
      rw [pages]
      have mapped : Function.update state.layout.id2loc id (some loc) other = some otherLoc := mapped
      show _ = Function.update state.record id (bufRecord params (state.threads agent) loc) other
      by_cases same : other = id
      · rw [same, Function.update_self, Option.some.injEq] at mapped
        rw [same, Function.update_self, ← mapped]
        exact bufRecord_stored sound buffered mirrors (by rw [phase]; rfl)
          (fun _ _ put => by cases phase.symm.trans ((sound.phases.inPhase agent).allows _ put)) own
      · rw [Function.update_of_ne same] at mapped ⊢
        exact recorded other otherLoc mapped
    · obtain ⟨layout, _, record, _⟩ :=
        execute_layout (fun id loc equal => isRemap ⟨id, loc, equal⟩) taken
      rw [Recorded, layout, record, pages]
      exact recorded

theorem recorded_step (recorded : Recorded params state) (sound : Sound params state)
    (buffered : ∀ agent, (state.threads agent).Buffered)
    (mirrors : ∀ agent, (state.threads agent).Mirrors params.geometry state.pages)
    {action : Action Point} (keeps : PutsKeep params state action)
    (taken : state.step params action = some next) : Recorded params next := by
  rcases IndexState.step_cases taken with ⟨number, request, _, _, started⟩ |
    ⟨runner, _, op, _, rfl, pending, ran⟩ | ⟨runner, _, _, pending, ended⟩
  · obtain ⟨_, rfl⟩ := IndexState.start_cases started
    exact recorded
  · exact recorded_execute recorded sound (buffered runner) (mirrors runner) pending keeps ran
  · have notBackground : runner ≠ .bgIoThread := by
      rintro rfl
      exact phase_of_advance ended sound.phases.phase_of_background
    have pages := (advance_frame ended notBackground).pages
    by_cases phase : (state.threads runner).phase = .put
    · unfold IndexState.advance at ended
      simp only [phase, IndexState.publishStep, Option.map_eq_some_iff] at ended
      obtain ⟨loc, last, rfl⟩ := ended
      intro id other mapped
      rw [pages]
      have mapped : Function.update state.layout.id2loc (state.threads runner).target (some loc) id =
        some other := mapped
      show _ = Function.update state.record (state.threads runner).target
        (bufRecord params (state.threads runner) loc) id
      by_cases same : id = (state.threads runner).target
      · rw [same, Function.update_self, Option.some.injEq] at mapped
        rw [same, Function.update_self, ← mapped]
        exact bufRecord_stored sound (buffered runner) (mirrors runner) (by rw [phase]; rfl)
          (fun _ _ => pending ▸ List.not_mem_nil) (List.mem_of_getElem? last)
      · rw [Function.update_of_ne same] at mapped ⊢
        exact recorded id other mapped
    · obtain ⟨id2loc, record⟩ := advance_id2loc sound phase ended
      rw [Recorded, id2loc, record, pages]
      exact recorded

/-- Only a step that maps an id changes its location and its record. -/
theorem record_of_step (sound : Sound params state) {action : Action Point}
    (taken : state.step params action = some next) {id : Nat} (other : ¬ action.Maps state id) :
    next.layout.id2loc id = state.layout.id2loc id ∧ next.record id = state.record id := by
  rcases IndexState.step_cases taken with ⟨number, request, _, _, started⟩ |
    ⟨runner, _, op, _, rfl, pending, ran⟩ | ⟨runner, _, rfl, pending, ended⟩
  · obtain ⟨_, rfl⟩ := IndexState.start_cases started
    exact ⟨rfl, rfl⟩
  · by_cases isRemap : ∃ moved loc, op = .remap moved loc
    · obtain ⟨moved, loc, rfl⟩ := isRemap
      have different : id ≠ moved := by
        rintro rfl
        refine other ?_
        show (state.threads runner).MapsNext id
        rw [Thread.MapsNext, pending]
      simp only [IndexState.execute, Option.map_eq_some_iff] at ran
      obtain ⟨current, _, rfl⟩ := ran
      exact ⟨Function.update_of_ne different _ _, Function.update_of_ne different _ _⟩
    · obtain ⟨layout, _, record, _⟩ :=
        execute_layout (fun moved loc equal => isRemap ⟨moved, loc, equal⟩) ran
      rw [layout, record]
      exact ⟨rfl, rfl⟩
  · by_cases phase : (state.threads runner).phase = .put
    · have different : id ≠ (state.threads runner).target := by
        rintro rfl
        refine other ?_
        show (state.threads runner).MapsNext _
        rw [Thread.MapsNext, pending]
        exact ⟨phase, rfl⟩
      unfold IndexState.advance at ended
      simp only [phase, IndexState.publishStep, Option.map_eq_some_iff] at ended
      obtain ⟨loc, last, rfl⟩ := ended
      exact ⟨Function.update_of_ne different _ _, Function.update_of_ne different _ _⟩
    · obtain ⟨id2loc, record⟩ := advance_id2loc sound phase ended
      rw [id2loc, record]
      exact ⟨rfl, rfl⟩

end Recorded

/-- A loaded index whose pages have the records of the mapped ids. -/
structure IndexState.RecordsLoaded (params : IndexParams Point Code Distance)
    (state : IndexState Point Code) : Prop where
  loaded : state.Loaded params
  recorded : Recorded params state

section Reachable

variable [LinearOrder Distance] {params : IndexParams Point Code Distance}
  {state : IndexState Point Code}

/-- The buffers keep to their plan in every state that a loaded index reaches. -/
theorem buffered_of_reachable {initial : IndexState Point Code → Prop}
    {guard : IndexState Point Code → Action Point → Prop}
    (loaded : ∀ first, initial first → IndexState.Loaded params first)
    (reachable : (updateSystem params initial).Reachable guard state) (agent : Agent) :
    (state.threads agent).Buffered := by
  induction reachable generalizing agent with
  | initial first => exact (loaded _ first).quiescent.buffered agent
  | step visited _ taken inductionHypothesis =>
    have sound := sound_of_reachable loaded visited
    exact buffered_step sound.phases sound.shapes inductionHypothesis taken agent

theorem mirrors_of_reachable {initial : IndexState Point Code → Prop}
    {guard : IndexState Point Code → Action Point → Prop}
    (loaded : ∀ first, initial first → IndexState.Loaded params first)
    (reachable : (updateSystem params initial).Reachable guard state) (agent : Agent) :
    (state.threads agent).Mirrors params.geometry state.pages := by
  induction reachable generalizing agent with
  | @initial before first =>
    have finished : (before.threads agent).phase = .finish := by
      cases agent with
      | bgIoThread => exact (loaded _ first).quiescent.bgIo.2.2
      | caller number => exact ((loaded _ first).quiescent.callers number).2.2
    exact .plain (by rw [finished]; rfl) (by rw [finished]; rfl)
  | step visited _ taken inductionHypothesis =>
    exact mirrors_step (sound_of_reachable loaded visited) (buffered_of_reachable loaded visited)
      inductionHypothesis taken agent

theorem recorded_of_reachable
    (reachable : (updateSystem params (IndexState.RecordsLoaded params)).Reachable
      (NoBlindPut params) state) : Recorded params state := by
  have loaded : ∀ first : IndexState Point Code, first.RecordsLoaded params → first.Loaded params :=
    fun _ fresh => fresh.loaded
  induction reachable with
  | initial first => exact first.recorded
  | step visited sighted taken inductionHypothesis =>
    have sound := sound_of_reachable loaded visited
    have buffered := buffered_of_reachable loaded visited
    have mirrors := mirrors_of_reachable loaded visited
    exact recorded_step inductionHypothesis sound buffered mirrors
      (sighted.putsKeep sound buffered mirrors) taken

/-- As long as no insert puts a page with a mapped record on it that it has not read, the slot of
every mapped id has the record that the last insert which mapped the id wrote for it, until an
insert maps the id again. -/
theorem no_record_is_lost (params : IndexParams Point Code Distance)
    {state : IndexState Point Code}
    (reachable : (updateSystem params (IndexState.RecordsLoaded params)).Reachable
      (NoBlindPut params) state) :
    (∀ id loc, state.layout.id2loc id = some loc →
      recordAt params.geometry state.pages loc = state.record id) ∧
    ∀ action next id, state.step params action = some next → ¬ action.Maps state id →
      next.layout.id2loc id = state.layout.id2loc id ∧ next.record id = state.record id := by
  refine ⟨recorded_of_reachable reachable, fun action next id taken other => ?_⟩
  exact record_of_step (sound_of_reachable (fun _ fresh => fresh.loaded) reachable) taken other

end Reachable

/-! ### A page that is empty when its slots are handed out -/

instance (params : IndexParams Point Code Distance) (state : IndexState Point Code)
    (action : Action Point) : Decidable (NoBlindPut params state action) :=
  match action with
  | .call _ _ _ => inferInstanceAs (Decidable True)
  | .step agent _ => inferInstanceAs (Decidable (∀ page ∈ (state.threads agent).puts,
      page ∉ (state.threads agent).pagesNeedToRead → ∀ id < state.curId,
        ∀ loc ∈ state.layout.id2loc id, params.geometry.locSectorNo loc ≠ page))

theorem smallIndex_records : smallIndex.RecordsLoaded smallParams where
  loaded := smallIndex_loaded.loaded
  recorded id loc mapped := by
    have mapped : (if id < 2 then some id else none) = some loc := mapped
    split at mapped
    · obtain rfl := Option.some.inj mapped
      show (⟨smallParams.geometry.sectorToLoc (smallParams.geometry.locSectorNo id)
        (smallParams.geometry.slotOf id), []⟩ : DiskNode Nat) = ⟨id, []⟩
      rw [smallParams.geometry.sectorToLoc_locSectorNo]
    · cases mapped

/-- After two inserts that overlap the location of their neighbour has the record that was written
for it last, with both new ids. -/
theorem no_record_is_lost_overlappingInserts :
    recordAt smallParams.geometry (((updateSystem smallParams
        (IndexState.RecordsLoaded smallParams)).after smallIndex overlappingInserts).pages) 4 =
      ⟨0, [2, 3]⟩ := by
  have reachable : (updateSystem smallParams (IndexState.RecordsLoaded smallParams)).Reachable
      (NoBlindPut smallParams) ((updateSystem smallParams
        (IndexState.RecordsLoaded smallParams)).after smallIndex overlappingInserts) :=
    (Transition.System.Reachable.initial smallIndex_records).after (by decide +kernel)
  refine ((no_record_is_lost smallParams reachable).1 0 4 (by decide +kernel)).trans ?_
  decide +kernel

/-- Four records to a sector. -/
def wideParams : IndexParams Nat Unit Nat where
  geometry := ⟨4, by decide⟩
  prune := ⟨64, 64, 0, [0], true, 0, 1, fun factor _ _ => factor⟩
  deflateVector _ := ()
  codeDistance _ _ := 0
  usePageSearch := true

/-- An index of eight points on two full pages. -/
def wideIndex : IndexState Nat Unit where
  layout := .loadIdentity wideParams.geometry 8
  pages page slot := ⟨(page - 1) * 4 + slot, []⟩
  disk page slot := ⟨(page - 1) * 4 + slot, []⟩
  data _ := ()
  tags id := if id < 8 then some id else none
  curId := 8
  locks _ := none
  holders := []
  record id := ⟨id, []⟩
  threads
    | .bgIoThread => { role := .bgIo, point := 0, updateBuf := fun _ _ => ⟨0, []⟩ }
    | .caller _ => { role := .idle, point := 0, updateBuf := fun _ _ => ⟨0, []⟩ }

theorem wideIndex_records : wideIndex.RecordsLoaded wideParams where
  loaded := by
    refine IndexState.PageLayoutLoaded.loaded ⟨?_, .inl rfl, fun agent => ?_⟩
    · exact
        { callers := fun _ => ⟨rfl, rfl, rfl⟩
          bgIo := ⟨rfl, rfl, rfl⟩
          spinning := fun agent => by cases agent <;> rfl
          locks := rfl
          holders := rfl }
    · cases agent <;> exact ⟨rfl, rfl⟩
  recorded id loc mapped := by
    have mapped : (if id < 8 then some id else none) = some loc := mapped
    split at mapped
    · obtain rfl := Option.some.inj mapped
      show (⟨wideParams.geometry.sectorToLoc (wideParams.geometry.locSectorNo id)
        (wideParams.geometry.slotOf id), []⟩ : DiskNode Nat) = ⟨id, []⟩
      rw [wideParams.geometry.sectorToLoc_locSectorNo]
    · cases mapped

/-- An insert that reads a frontier in some steps and chooses its neighbours. -/
def searchThenPrune (number : Nat) (frontier : List Nat) (steps : Nat) (nhood : List Nat) :
    List (Action Nat) :=
  [.call number (.insertInPlace (100 + number) (100 + number)) fun _ _ => ⟨77, [77]⟩,
    .step (.caller number) .go, .step (.caller number) (.frontier frontier)] ++
    List.replicate steps (.step (.caller number) .go) ++ [.step (.caller number) (.prune nhood)]

/-- The first insert to start has the first page among its hints. The second one moves all
records of this page away. The third gets one slot of the empty page, the first insert another
one; it writes its records before the third insert puts the page without having read it. -/
def blindPut : List (Action Nat) :=
  searchThenPrune 1 [0, 5] 7 [5] ++ searchThenPrune 0 [0, 1, 2, 3] 13 [0, 1, 2, 3] ++
    List.replicate 57 (.step (.caller 0) .go) ++ List.replicate 4 (.step .bgIoThread .go) ++
    searchThenPrune 2 [4] 4 [4] ++ [.step (.caller 2) .go] ++
    List.replicate 32 (.step (.caller 1) .go) ++ List.replicate 2 (.step .bgIoThread .go) ++
    List.replicate 14 (.step (.caller 2) .go)

/-- The record of id 5 is lost. -/
theorem record_is_lost :
    ¬ ∀ state, (updateSystem wideParams (IndexState.RecordsLoaded wideParams)).Reachable
        Transition.anyStep state →
      ∀ id loc, state.layout.id2loc id = some loc →
        recordAt wideParams.geometry state.pages loc = state.record id := by
  intro stays
  have reachable : (updateSystem wideParams (IndexState.RecordsLoaded wideParams)).Reachable
      Transition.anyStep ((updateSystem wideParams (IndexState.RecordsLoaded wideParams)).after
        wideIndex blindPut) :=
    (Transition.System.Reachable.initial wideIndex_records).after
      Transition.System.along_anyStep
  have lost := stays _ reachable 5 2 (by decide +kernel)
  revert lost
  decide +kernel

end OdinVector
