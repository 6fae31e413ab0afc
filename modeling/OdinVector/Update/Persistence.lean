/-
This file says what the graph file has of the pages that inserts put: the disk,
with the writes that the background thread has still to do, is what a read of a
page returns, apart from the pages of inserts that have not handed their task
over.

An insert hands over what it has put. It holds the page locks until then, so no
other insert puts one of its pages in between.
-/

import OdinVector.Update.Records

namespace OdinVector

open IndexState (rmwPages)

variable {Point Code Distance : Type}

/-! ### The writes that are left -/

/-- The disk after the writes among some operations. -/
def diskAfter (disk : Nat → PageImage Point) : List (Op Point) → Nat → PageImage Point
  | [] => disk
  | .writeDisk page image :: rest => diskAfter (Function.update disk page image) rest
  | _ :: rest => diskAfter disk rest

theorem diskAfter_append (disk : Nat → PageImage Point) (first second : List (Op Point)) :
    diskAfter disk (first ++ second) = diskAfter (diskAfter disk first) second := by
  induction first generalizing disk with
  | nil => rfl
  | cons op rest inductionHypothesis => cases op <;> exact inductionHypothesis _

/-- A page that is not written stays as it is. -/
theorem diskAfter_apply {disk : Nat → PageImage Point} {ops : List (Op Point)} {page : Nat}
    (unwritten : ∀ image, .writeDisk page image ∉ ops) : diskAfter disk ops page = disk page := by
  induction ops generalizing disk with
  | nil => rfl
  | cons op rest inductionHypothesis =>
    have later : ∀ image, .writeDisk page image ∉ rest :=
      fun image member => unwritten image (List.mem_cons_of_mem _ member)
    cases op with
    | writeDisk other image =>
      have different : page ≠ other := by
        rintro rfl
        exact unwritten image List.mem_cons_self
      rw [diskAfter, inductionHypothesis later, Function.update_of_ne different]
    | _ => exact inductionHypothesis later

/-- Operations that write no page leave the disk. -/
theorem diskAfter_of_unwritten {disk : Nat → PageImage Point} {ops : List (Op Point)}
    (unwritten : ∀ page image, .writeDisk page image ∉ ops) : diskAfter disk ops = disk :=
  funext fun page => diskAfter_apply (unwritten page)

/-- What a page has after the writes of a task. -/
theorem diskAfter_writes (disk : Nat → PageImage Point) (entries : List (Nat × Nat))
    (image : Nat → PageImage Point) (page : Nat) :
    diskAfter disk (entries.map fun entry => .writeDisk entry.1 (image entry.2)) page = disk page ∧
        page ∉ entries.map Prod.fst ∨
      ∃ buf, (page, buf) ∈ entries ∧
        diskAfter disk (entries.map fun entry => .writeDisk entry.1 (image entry.2)) page =
          image buf := by
  induction entries generalizing disk with
  | nil => exact .inl ⟨rfl, List.not_mem_nil⟩
  | cons entry rest inductionHypothesis =>
    rcases inductionHypothesis (Function.update disk entry.1 (image entry.2)) with
      ⟨kept, absent⟩ | ⟨buf, member, written⟩
    · by_cases same : page = entry.1
      · subst same
        refine .inr ⟨entry.2, List.mem_cons_self, ?_⟩
        rw [List.map_cons, diskAfter, kept, Function.update_self]
      · refine .inl ⟨?_, ?_⟩
        · rw [List.map_cons, diskAfter, kept, Function.update_of_ne same]
        · rw [List.map_cons, List.mem_cons, not_or]
          exact ⟨same, absent⟩
    · exact .inr ⟨buf, List.mem_cons_of_mem _ member, written⟩

/-! ### Inserts on their way to the disk -/

/-- The phases from the first put of an insert to its hand-off. -/
def Phase.persists : Phase → Bool
  | .put | .lockIdx | .lockPageIdx | .remap | .unlock => true
  | _ => false

/-- The thread is an insert that writes the page and has not handed it over. -/
def Thread.Stores (thread : Thread Point) (page : Nat) : Prop :=
  thread.phase.persists ∧ page ∈ (pagesOf thread.writes).map Prod.fst

/-- An insert that gives its locks back has in its buffers what it has put. -/
def Thread.Handing (thread : Thread Point) (pages : Nat → PageImage Point) : Prop :=
  thread.phase = .unlock → ∀ page buf, (page, buf) ∈ pagesOf thread.writes →
    page ∈ thread.pagesLocked ∧ thread.updateBuf buf = pages page

section Handing

variable {params : IndexParams Point Code Distance} {state next : IndexState Point Code}
  {agent : Agent}

/-- An insert that gives its other locks back still holds those of its pages. -/
theorem Sound.held_page_of_unlock (sound : Sound params state)
    (phase : (state.threads agent).phase = .unlock) {page : Nat}
    (member : page ∈ (state.threads agent).pagesLocked) :
    LockKey.page page ∈ Holding.heldBy state.holders agent := by
  have owed : LockKey.page page ∈ (state.threads agent).owed := by
    simp only [Thread.owed, phase]
    exact List.mem_map_of_mem member
  refine (sound.keeps.held_of_owed owed).resolve_right ?_
  rintro ⟨mode, pending⟩
  have allows := (sound.phases.inPhase agent).allows _ pending
  simp [phase, Phase.Allows] at allows

/-- A page that an insert is about to hand over is put by no insert. -/
theorem Sound.puts_apart_of_unlock (sound : Sound params state)
    (buffered : ∀ agent, (state.threads agent).Buffered)
    (phase : (state.threads agent).phase = .unlock) {page buf : Nat} {other : Agent}
    (member : page ∈ (state.threads agent).pagesLocked)
    (puts : .putPage page buf ∈ (state.threads other).pending) : False := by
  have putting : (state.threads other).phase = .put :=
    (sound.phases.inPhase other).allows _ puts
  have otherMember := mem_pagesLocked ((buffered other).putting putting page buf puts)
  have notVec : (LockKey.page page).table ≠ .vecLockTable := nofun
  have same : agent = other := by
    refine sound.exclusion.unique notVec
      ((sound.phases.inPhase agent).isInsert (by rw [phase]; decide)) (by rw [phase]; decide)
      (sound.held_page_of_unlock phase member)
      (sound.held_page (by rw [putting]; rfl) otherMember)
  subst same
  cases phase.symm.trans putting

variable [LinearOrder Distance]

theorem handing_execute (sound : Sound params state)
    (buffered : ∀ agent, (state.threads agent).Buffered)
    (handing : ∀ agent, (state.threads agent).Handing state.pages) {op : Op Point}
    {rest : List (Op Point)} (pending : (state.threads agent).pending = op :: rest)
    (taken : state.execute params agent { state.threads agent with pending := rest } op =
      some next) (other : Agent) : (next.threads other).Handing next.pages := by
  -- A put is of a page that no thread is about to hand over.
  have kept : ∀ page, (∃ holder, (state.threads holder).phase = .unlock ∧
      page ∈ (state.threads holder).pagesLocked) → next.pages page = state.pages page := by
    rintro page ⟨holder, phase, member⟩
    by_cases isPut : ∃ target buf, op = .putPage target buf
    · obtain ⟨target, buf, rfl⟩ := isPut
      simp only [IndexState.execute, Option.some.injEq] at taken
      subst taken
      refine Function.update_of_ne ?_ _ _
      rintro rfl
      exact sound.puts_apart_of_unlock buffered phase member (pending ▸ List.mem_cons_self)
    · rw [execute_pages (fun target buf equal => isPut ⟨target, buf, equal⟩) taken]
  obtain ⟨later, threads, same, _⟩ := execute_thread taken
  by_cases here : other = agent
  · subst here
    have now : next.threads other = later := by rw [threads, Function.update_self]
    intro phase page buf entry
    rw [now, same.phase] at phase
    rw [now, same.writes] at entry
    have notEdit : op.edits = false := by
      have allows : (state.threads other).phase.Allows op :=
        (sound.phases.inPhase other).allows op (by rw [pending]; exact List.mem_cons_self)
      rw [phase] at allows
      cases op <;> first | rfl | cases allows
    obtain ⟨member, stored⟩ := handing other phase page buf entry
    rw [execute_updateBuf notEdit taken, kept page ⟨other, phase, member⟩]
    rw [now, same.pagesLocked]
    exact ⟨member, stored⟩
  · rw [threads, Function.update_of_ne here]
    intro phase page buf entry
    obtain ⟨member, stored⟩ := handing other phase page buf entry
    rw [kept page ⟨other, phase, member⟩]
    exact ⟨member, stored⟩

omit [LinearOrder Distance] in
theorem handing_advance (sound : Sound params state)
    (buffered : (state.threads agent).Buffered)
    (mirrors : (state.threads agent).Mirrors params.geometry state.pages)
    (handing : ∀ agent, (state.threads agent).Handing state.pages) {choice : Choice}
    (pending : (state.threads agent).pending = [])
    (taken : state.advance params agent choice = some next) (notBackground : agent ≠ .bgIoThread)
    (other : Agent) : (next.threads other).Handing next.pages := by
  rw [(advance_frame taken notBackground).pages]
  by_cases here : other = agent
  · subst here
    intro unlock
    have follows := advance_follows taken notBackground
    rw [unlock] at follows
    have phase : (state.threads other).phase = .remap := by
      revert follows
      cases (state.threads other).phase <;> decide
    simp only [IndexState.advance, phase, Option.some.injEq] at taken
    subst taken
    simp only [IndexState.commitStep, IndexState.setThread, Function.update_self]
    intro page buf entry
    rw [buffered.writes (by rw [phase]; rfl)] at entry
    exact ⟨mem_pagesLocked entry, mirrors.stored (by rw [phase]; rfl) page buf entry
      (pending ▸ List.not_mem_nil)⟩
  · rcases advance_other taken here with kept | ⟨_, rfl, kept⟩
    · exact kept ▸ handing other
    · have finished := sound.phases.phase_of_background
      rw [kept]
      exact fun unlock => by cases finished.symm.trans unlock

theorem handing_step (sound : Sound params state)
    (buffered : ∀ agent, (state.threads agent).Buffered)
    (mirrors : ∀ agent, (state.threads agent).Mirrors params.geometry state.pages)
    (handing : ∀ agent, (state.threads agent).Handing state.pages) {action : Action Point}
    (taken : state.step params action = some next) (agent : Agent) :
    (next.threads agent).Handing next.pages := by
  rcases IndexState.step_cases taken with ⟨number, request, _, _, started⟩ |
    ⟨runner, _, op, _, _, pending, ran⟩ | ⟨runner, _, _, pending, ended⟩
  · by_cases same : agent = .caller number
    · subst same
      obtain ⟨_, rfl⟩ := IndexState.start_cases started
      dsimp only
      rw [IndexState.setThread_threads_self]
      cases request <;> exact nofun
    · rw [start_other started same]
      obtain ⟨_, rfl⟩ := IndexState.start_cases started
      exact handing agent
  · exact handing_execute sound buffered handing pending ran agent
  · refine handing_advance sound (buffered runner) (mirrors runner) handing pending ended ?_ agent
    rintro rfl
    exact phase_of_advance ended sound.phases.phase_of_background

end Handing

/-! ### Writes are of the background thread -/

section Writes

variable [LinearOrder Distance] {params : IndexParams Point Code Distance}
  {state next : IndexState Point Code}

/-- No call writes a page to disk itself. -/
def CallsWriteNothing (state : IndexState Point Code) : Prop :=
  ∀ number page image, .writeDisk page image ∉ (state.threads (.caller number)).pending

omit [LinearOrder Distance] in
/-- What an ended call has left to do are unlocks. -/
theorem finish_of_advance {agent : Agent} {choice : Choice}
    (pending : (state.threads agent).pending = [])
    (taken : state.advance params agent choice = some next) (notBackground : agent ≠ .bgIoThread)
    (finished : (next.threads agent).phase = .finish) {page : Nat} {image : PageImage Point} :
    .writeDisk page image ∉ (next.threads agent).pending := by
  have later_finished : ∀ {state : IndexState Point Code} {later : Thread Point},
      ((state.setThread agent later).threads agent).phase = .finish → later.phase = .finish := by
    intro state later here
    rwa [IndexState.setThread_threads_self] at here
  cases IndexState.advances taken with
  | beam phase =>
    rw [IndexState.setThread_threads_self] at finished
    cases phase.symm.trans finished
  | beamFinish | pageFinish | pipeFinish | send | complete | giveBack => simp [pending]
  | handOff =>
    dsimp only
    rw [IndexState.setThread_threads_other _ _ notBackground, IndexState.setThread_threads_self]
    simp [pending]
  | _ => cases later_finished finished

theorem CallsWriteNothing.step (nothing : CallsWriteNothing state) (phases : InPhases state.threads)
    (after : InPhases next.threads) {action : Action Point}
    (taken : state.step params action = some next) : CallsWriteNothing next := by
  intro number page image pendingWrite
  rcases IndexState.step_cases taken with ⟨caller, request, _, _, started⟩ |
    ⟨runner, _, op, rest, _, pending, ran⟩ | ⟨runner, _, _, pending, ended⟩
  · by_cases same : number = caller
    · subst same
      obtain ⟨_, rfl⟩ := IndexState.start_cases started
      dsimp only at pendingWrite
      rw [IndexState.setThread_threads_self] at pendingWrite
      cases request <;> cases pendingWrite
    · rw [start_other started (by simpa using same)] at pendingWrite
      exact nothing number page image pendingWrite
  · obtain ⟨later, threads, _, popped⟩ := execute_thread ran
    by_cases same : Agent.caller number = runner
    · subst same
      rw [threads, Function.update_self] at pendingWrite
      rcases popped with ⟨left, _⟩ | ⟨_, _, _, still, _⟩
      · rw [left] at pendingWrite
        exact nothing number page image (pending ▸ List.mem_cons_of_mem _ pendingWrite)
      · exact nothing number page image (still ▸ pendingWrite)
    · rw [threads, Function.update_of_ne same] at pendingWrite
      exact nothing number page image pendingWrite
  · have notBackground : runner ≠ .bgIoThread := by
      rintro rfl
      exact phase_of_advance ended phases.phase_of_background
    by_cases same : Agent.caller number = runner
    · subst same
      have finished : (next.threads (.caller number)).phase = .finish :=
        (after.inPhase _).allows _ pendingWrite
      exact finish_of_advance pending ended notBackground finished pendingWrite
    · rcases advance_other ended same with kept | ⟨_, background, _⟩
      · exact nothing number page image (kept ▸ pendingWrite)
      · cases background

end Writes

/-! ### What the disk has -/

/-- A page is on disk when the background thread is done, unless an insert stores it. -/
def OnDisk (state : IndexState Point Code) : Prop :=
  ∀ page, diskAfter state.disk (state.threads .bgIoThread).pending page = state.pages page ∨
    ∃ number, (state.threads (.caller number)).Stores page

/-- The step is not a hand-off without a task. -/
def HandsTask (state : IndexState Point Code) : Action Point → Prop
  | .step agent _ => (state.threads agent).phase = .unlock →
      (state.threads agent).pending = [] → (state.threads agent).pageRef ≠ []
  | .call _ _ _ => True

section OnDisk

variable [LinearOrder Distance] {params : IndexParams Point Code Distance}
  {state next : IndexState Point Code} {agent : Agent}

theorem execute_disk {op : Op Point} {rest : List (Op Point)}
    (notWrite : ∀ page image, op ≠ .writeDisk page image)
    (taken : state.execute params agent { state.threads agent with pending := rest } op =
      some next) : next.disk = state.disk := by
  cases op with
  | writeDisk page image => exact absurd rfl (notWrite page image)
  | lock lock mode =>
    simp only [IndexState.execute, IndexState.tryLock, Option.some.injEq] at taken
    split at taken <;> exact taken ▸ rfl
  | locate | planNeighbor | writeTarget | remap | sendRead =>
    simp only [IndexState.execute, Option.map_eq_some_iff] at taken
    obtain ⟨_, _, rfl⟩ := taken
    rfl
  | snapshot | writeNeighbor =>
    simp only [IndexState.execute, Option.bind_eq_some_iff, Option.map_eq_some_iff] at taken
    obtain ⟨_, _, _, _, rfl⟩ := taken
    rfl
  | unlock | readFrontier | readPage | putPage =>
    simp only [IndexState.execute, Option.some.injEq] at taken
    subst taken
    rfl

omit [LinearOrder Distance] in
theorem Thread.Stores.sameCall {later thread : Thread Point} {page : Nat}
    (stores : thread.Stores page) (same : later.SameCall thread) : later.Stores page := by
  rw [Thread.Stores, same.phase, same.writes]
  exact stores

theorem onDisk_execute (onDisk : OnDisk state) (sound : Sound params state)
    (buffered : ∀ agent, (state.threads agent).Buffered) (nothing : CallsWriteNothing state)
    {op : Op Point} {rest : List (Op Point)}
    (pending : (state.threads agent).pending = op :: rest)
    (taken : state.execute params agent { state.threads agent with pending := rest } op =
      some next) : OnDisk next := by
  have allows : (state.threads agent).phase.Allows op :=
    (sound.phases.inPhase agent).allows op (by rw [pending]; exact List.mem_cons_self)
  obtain ⟨later, threads, same, _⟩ := execute_thread taken
  have stores : ∀ page, (∃ number, (state.threads (.caller number)).Stores page) →
      ∃ number, (next.threads (.caller number)).Stores page := by
    rintro page ⟨number, stores⟩
    refine ⟨number, ?_⟩
    by_cases here : Agent.caller number = agent
    · subst here
      rw [threads, Function.update_self]
      exact stores.sameCall same
    · rw [threads, Function.update_of_ne here]
      exact stores
  intro page
  cases agent with
  | bgIoThread =>
    have finished := sound.phases.phase_of_background
    have before := onDisk page
    rw [pending] at before
    rw [finished] at allows
    cases op with
    | writeDisk other image =>
      simp only [IndexState.execute, Option.some.injEq] at taken
      subst taken
      refine before.imp (fun same => ?_) (stores page)
      rw [IndexState.setThread_threads_self]
      exact same
    | unlock lock =>
      simp only [IndexState.execute, Option.some.injEq] at taken
      subst taken
      refine before.imp (fun same => ?_) (stores page)
      rw [IndexState.setThread_threads_self]
      exact same
    | _ => cases allows
  | caller number =>
    have notWrite : ∀ other image, op ≠ .writeDisk other image := by
      rintro other image rfl
      exact nothing number other image (pending ▸ List.mem_cons_self)
    have background : next.threads .bgIoThread = state.threads .bgIoThread := by
      rw [threads, Function.update_of_ne (by simp)]
    rw [execute_disk notWrite taken, background]
    by_cases isPut : ∃ other buf, op = .putPage other buf
    · obtain ⟨other, buf, rfl⟩ := isPut
      have phase : (state.threads (.caller number)).phase = .put := allows
      by_cases same : page = other
      · subst same
        have entry := (buffered _).putting phase page buf (pending ▸ List.mem_cons_self)
        rw [← (buffered _).writes (by rw [phase]; rfl)] at entry
        exact .inr (stores page ⟨number, by rw [phase]; rfl, List.mem_map_of_mem entry⟩)
      · simp only [IndexState.execute, Option.some.injEq] at taken
        subst taken
        refine (onDisk page).imp (fun kept => ?_) (stores page)
        exact kept.trans (Function.update_of_ne same _ _).symm
    · rw [execute_pages (fun other buf equal => isPut ⟨other, buf, equal⟩) taken]
      exact (onDisk page).imp_right (stores page)

omit [LinearOrder Distance] in
/-- An insert stores its pages until it hands them over. -/
theorem stores_advance {choice : Choice} {page : Nat}
    (stores : (state.threads agent).Stores page) (phase : (state.threads agent).phase ≠ .unlock)
    (taken : state.advance params agent choice = some next) : (next.threads agent).Stores page := by
  have persists := stores.1
  cases IndexState.advances taken with
  | put | lockIdx | lockPageIdx | remap =>
    simp only [IndexState.mapId, IndexState.remapStep, IndexState.commitStep, IndexState.setThread,
      Function.update_self]
    exact ⟨rfl, stores.2⟩
  | giveBack now | handOff now => exact absurd now phase
  | writePq now | beam now | prune now | beamFinish now | alloc now | lockPages now | lockVec now
  | plan now | read now | edit now | pageLoop now | pageFinish now | pageLock now | send now
  | complete now | pipeFinish now =>
    rw [now] at persists
    cases persists

omit [LinearOrder Distance] in
theorem onDisk_handOff (onDisk : OnDisk state)
    (handing : ∀ agent, (state.threads agent).Handing state.pages) {number : Nat}
    (phase : (state.threads (.caller number)).phase = .unlock)
    (referenced : (state.threads (.caller number)).pageRef ≠ []) :
    OnDisk (state.handOffStep (.caller number) (state.threads (.caller number))) := by
  unfold IndexState.handOffStep
  rw [if_neg referenced]
  intro page
  simp only [IndexState.setThread_threads_self]
  -- The unlocks of the task write nothing.
  have unlocks : ∀ disk : Nat → PageImage Point, diskAfter disk
      ((state.threads (.caller number)).pagesLocked.map fun locked => .unlock (.page locked)) =
        disk := fun disk => diskAfter_of_unwritten fun _ _ => by simp
  rw [diskAfter_append, IndexState.bgTask, diskAfter_append, unlocks]
  rcases diskAfter_writes (diskAfter state.disk (state.threads .bgIoThread).pending)
    (pagesOf (state.threads (.caller number)).writes) (state.threads (.caller number)).updateBuf
    page with ⟨kept, absent⟩ | ⟨buf, member, written⟩
  · refine (onDisk page).imp (fun same => ?_) ?_
    · exact kept.trans same
    · rintro ⟨storing, stores⟩
      have other : storing ≠ number := by
        rintro rfl
        exact absent stores.2
      refine ⟨storing, ?_⟩
      rw [IndexState.setThread_threads_other _ _ (by simp),
        IndexState.setThread_threads_other _ _ (by simpa using other)]
      exact stores
  · exact .inl (written.trans (handing _ phase page buf member).2)

omit [LinearOrder Distance] in
theorem onDisk_advance (onDisk : OnDisk state) (sound : Sound params state)
    (handing : ∀ agent, (state.threads agent).Handing state.pages) {choice : Choice}
    (hands : HandsTask state (.step agent choice))
    (pending : (state.threads agent).pending = [])
    (taken : state.advance params agent choice = some next) : OnDisk next := by
  cases agent with
  | bgIoThread => exact absurd sound.phases.phase_of_background (phase_of_advance taken)
  | caller number =>
    by_cases phase : (state.threads (.caller number)).phase = .unlock
    · simp only [IndexState.advance, phase, Option.some.injEq] at taken
      exact taken ▸ onDisk_handOff onDisk handing phase (hands phase pending)
    · have frame := advance_frame taken (by simp)
      have others : ∀ other, other ≠ Agent.caller number →
          next.threads other = state.threads other := fun other different =>
        (advance_other taken different).resolve_right fun moved => phase moved.1
      intro page
      rw [frame.disk, frame.pages, others _ (by simp)]
      refine (onDisk page).imp_right ?_
      rintro ⟨storing, stores⟩
      refine ⟨storing, ?_⟩
      by_cases same : storing = number
      · subst same
        exact stores_advance stores phase taken
      · rw [others _ (by simpa using same)]
        exact stores

theorem OnDisk.step (onDisk : OnDisk state) (sound : Sound params state)
    (buffered : ∀ agent, (state.threads agent).Buffered) (nothing : CallsWriteNothing state)
    (handing : ∀ agent, (state.threads agent).Handing state.pages) {action : Action Point}
    (hands : HandsTask state action) (taken : state.step params action = some next) :
    OnDisk next := by
  rcases IndexState.step_cases taken with ⟨number, request, _, _, started⟩ |
    ⟨runner, _, op, rest, _, pending, ran⟩ | ⟨runner, choice, rfl, pending, ended⟩
  · have others : ∀ other, other ≠ Agent.caller number →
        next.threads other = state.threads other := fun _ => start_other started
    obtain ⟨idle, rfl⟩ := IndexState.start_cases started
    intro page
    rw [others _ (by simp)]
    refine (onDisk page).imp_right ?_
    rintro ⟨storing, stores⟩
    refine ⟨storing, ?_⟩
    by_cases same : storing = number
    · subst same
      have visits := (sound.phases.inPhase (.caller storing)).visits
      have persists := stores.1
      rw [idle] at visits
      have finished : (state.threads (.caller storing)).phase = .finish := by
        simpa [Role.visits] using visits
      rw [finished] at persists
      cases persists
    · rw [others _ (by simpa using same)]
      exact stores
  · exact onDisk_execute onDisk sound buffered nothing pending ran
  · exact onDisk_advance onDisk sound handing hands pending ended

end OnDisk

/-! ### Pages that a search has read -/

/-- A search that has expanded a node has the reference of its page, and an insert past its
search has expanded one. -/
structure Thread.Referenced (thread : Thread Point) : Prop where
  expanded : thread.expanded ≠ [] → thread.pageRef ≠ []
  searched : thread.role = .insertInPlace → thread.phase ≠ .writePq → thread.phase ≠ .beam →
    thread.pageRef ≠ []

/-- A search expands its start node before it ends. -/
def ExpandsFirst (state : IndexState Point Code) : Action Point → Prop
  | .step agent (.prune _) => (state.threads agent).expanded ≠ []
  | _ => True

instance (state : IndexState Point Code) (action : Action Point) :
    Decidable (ExpandsFirst state action) :=
  match action with
  | .step agent (.prune _) =>
    inferInstanceAs (Decidable ((state.threads agent).expanded ≠ []))
  | .step _ .go | .step _ (.frontier _) | .step _ (.send _) | .step _ .complete
  | .step _ .finish | .call _ _ _ => isTrue trivial

section Referenced

variable [LinearOrder Distance] {params : IndexParams Point Code Distance}
  {state next : IndexState Point Code} {agent : Agent}

/-- Only the reads of a frontier expand nodes. -/
theorem execute_references {op : Op Point} {rest : List (Op Point)}
    (taken : state.execute params agent { state.threads agent with pending := rest } op =
      some next) :
    ∃ entries : List (Nat × Nat),
      (next.threads agent).expanded = (state.threads agent).expanded ++ entries.map Prod.fst ∧
        (next.threads agent).pageRef = (state.threads agent).pageRef ++
          entries.map fun entry => params.geometry.locSectorNo entry.2 := by
  cases op with
  | readFrontier =>
    simp only [IndexState.execute, Option.some.injEq] at taken
    subst taken
    rw [IndexState.setThread_threads_self]
    exact ⟨_, rfl, rfl⟩
  | lock lock mode =>
    refine ⟨[], ?_⟩
    simp only [IndexState.execute, IndexState.tryLock, Option.some.injEq] at taken
    split at taken
    all_goals
      subst taken
      simp [IndexState.setThread]
  | locate | planNeighbor | writeTarget | remap | sendRead =>
    refine ⟨[], ?_⟩
    simp only [IndexState.execute, Option.map_eq_some_iff] at taken
    obtain ⟨_, _, rfl⟩ := taken
    simp [IndexState.setThread, IndexState.mapId, IndexState.editBuf]
  | snapshot | writeNeighbor =>
    refine ⟨[], ?_⟩
    simp only [IndexState.execute, Option.bind_eq_some_iff, Option.map_eq_some_iff] at taken
    obtain ⟨_, _, _, _, rfl⟩ := taken
    simp [IndexState.setThread, IndexState.editBuf]
  | unlock | readPage | putPage | writeDisk =>
    refine ⟨[], ?_⟩
    simp only [IndexState.execute, Option.some.injEq] at taken
    subst taken
    simp [IndexState.setThread]

omit [LinearOrder Distance] in
/-- The end of a phase gives no reference back. -/
theorem advance_pageRef {choice : Choice}
    (taken : state.advance params agent choice = some next) (notBackground : agent ≠ .bgIoThread)
    (referenced : (state.threads agent).pageRef ≠ []) : (next.threads agent).pageRef ≠ [] := by
  cases IndexState.advances taken with
  | lockPages | lockVec | plan | lockPageIdx | remap =>
    simpa [IndexState.lockVecStep, IndexState.planStep, IndexState.readStep, IndexState.remapStep,
      IndexState.commitStep, IndexState.setThread] using referenced
  | read | edit => simp [IndexState.editStep, IndexState.putStep, referenced]
  | put => simpa [IndexState.mapId, IndexState.setThread] using referenced
  | giveBack _ noPages => exact absurd noPages referenced
  | handOff =>
    dsimp only
    rw [IndexState.setThread_threads_other _ _ notBackground, IndexState.setThread_threads_self]
    exact referenced
  | _ => simpa using referenced

theorem referenced_step (phases : InPhases state.threads)
    (referenced : ∀ agent, (state.threads agent).Referenced) {action : Action Point}
    (first : ExpandsFirst state action) (taken : state.step params action = some next)
    (agent : Agent) : (next.threads agent).Referenced := by
  rcases IndexState.step_cases taken with ⟨number, request, _, _, started⟩ |
    ⟨runner, _, op, rest, _, pending, ran⟩ | ⟨runner, choice, rfl, pending, ended⟩
  · by_cases same : agent = .caller number
    · subst same
      obtain ⟨_, rfl⟩ := IndexState.start_cases started
      dsimp only
      rw [IndexState.setThread_threads_self]
      cases request <;> exact ⟨fun none => absurd rfl none, by simp [IndexState.startThread]⟩
    · exact start_other started same ▸ referenced agent
  · obtain ⟨later, threads, call, _⟩ := execute_thread ran
    by_cases same : agent = runner
    · subst same
      obtain ⟨entries, expanded, pageRef⟩ := execute_references ran
      have now : next.threads agent = later := by rw [threads, Function.update_self]
      refine ⟨fun some => ?_, fun role writePq beam => ?_⟩
      · rw [pageRef]
        rw [expanded] at some
        by_cases before : (state.threads agent).expanded = []
        · intro none
          have empty := (List.append_eq_nil_iff.mp none).2
          rw [List.map_eq_nil_iff] at empty
          rw [before, empty] at some
          exact some rfl
        · exact List.append_ne_nil_of_left_ne_nil ((referenced agent).expanded before) _
      · rw [now, call.role] at role
        rw [now, call.phase] at writePq beam
        rw [pageRef]
        exact List.append_ne_nil_of_left_ne_nil ((referenced agent).searched role writePq beam) _
    · rw [threads, Function.update_of_ne same]
      exact referenced agent
  · have notBackground : runner ≠ .bgIoThread := by
      rintro rfl
      exact phase_of_advance ended phases.phase_of_background
    by_cases same : agent = runner
    · subst same
      have frame := advance_frame ended notBackground
      have keeps := advance_pageRef ended notBackground
      refine ⟨fun some => keeps ((referenced agent).expanded (frame.expanded ▸ some)),
        fun role writePq beam => keeps ?_⟩
      rw [frame.role] at role
      by_cases search : (state.threads agent).phase = .beam
      · -- An insert leaves its search by choosing its neighbours.
        simp only [IndexState.advance, search] at ended
        cases choice with
        | prune nhood => exact (referenced agent).expanded first
        | frontier ids =>
          simp only [IndexState.beamStep, Option.some.injEq] at ended
          subst ended
          simp [search] at beam
        | finish => simp [IndexState.beamStep, role] at ended
        | _ => cases ended
      · refine (referenced agent).searched role (fun start => ?_) search
        have follows := advance_follows ended notBackground
        rw [start] at follows
        exact beam (by simpa [Phase.follows] using follows)
    · rcases advance_other ended same with kept | ⟨_, _, kept⟩
      · exact kept ▸ referenced agent
      · rw [kept]
        exact ⟨(referenced agent).expanded, (referenced agent).searched⟩

omit [LinearOrder Distance] in
theorem Thread.Referenced.handsTask (phases : InPhases state.threads)
    (referenced : ∀ agent, (state.threads agent).Referenced) (action : Action Point) :
    HandsTask state action := by
  cases action with
  | call => trivial
  | step agent choice =>
    intro phase _
    have role := (phases.inPhase agent).isInsert (by rw [phase]; decide)
    exact (referenced agent).searched role (by rw [phase]; decide) (by rw [phase]; decide)

end Referenced

/-! ### The invariant -/

/-- What is known of an index whose searches expand a node before they end. -/
structure Persistent (params : IndexParams Point Code Distance) (state : IndexState Point Code) :
    Prop where
  sound : Sound params state
  buffered : ∀ agent, (state.threads agent).Buffered
  mirrors : ∀ agent, (state.threads agent).Mirrors params.geometry state.pages
  handing : ∀ agent, (state.threads agent).Handing state.pages
  nothing : CallsWriteNothing state
  referenced : ∀ agent, (state.threads agent).Referenced
  onDisk : OnDisk state

theorem Persistent.step [LinearOrder Distance] {params : IndexParams Point Code Distance}
    {state next : IndexState Point Code} (persistent : Persistent params state)
    {action : Action Point} (first : ExpandsFirst state action)
    (taken : state.step params action = some next) : Persistent params next where
  sound := persistent.sound.step taken
  buffered := buffered_step persistent.sound.phases persistent.sound.shapes persistent.buffered
    taken
  mirrors := mirrors_step persistent.sound persistent.buffered persistent.mirrors taken
  handing := handing_step persistent.sound persistent.buffered persistent.mirrors
    persistent.handing taken
  nothing := persistent.nothing.step persistent.sound.phases (persistent.sound.step taken).phases
    taken
  referenced := referenced_step persistent.sound.phases persistent.referenced first taken
  onDisk := persistent.onDisk.step persistent.sound persistent.buffered persistent.nothing
    persistent.handing (Thread.Referenced.handsTask persistent.sound.phases persistent.referenced
      action) taken

/-- A loaded index whose pages are on disk. -/
structure IndexState.Persisted (params : IndexParams Point Code Distance)
    (state : IndexState Point Code) : Prop where
  records : state.RecordsLoaded params
  disk : state.disk = state.pages

theorem IndexState.Persisted.persistent {params : IndexParams Point Code Distance}
    {state : IndexState Point Code} (persisted : state.Persisted params) :
    Persistent params state := by
  have quiescent := persisted.records.loaded.quiescent
  have finished := quiescent.finished
  refine ⟨persisted.records.loaded.sound, quiescent.buffered, fun agent => ?_, fun agent => ?_,
    fun number page image => ?_, fun agent => ?_, fun page => .inl ?_⟩
  · exact .plain (by rw [finished agent]; rfl) (by rw [finished agent]; rfl)
  · exact fun unlock => nomatch (finished agent).symm.trans unlock
  · rw [(quiescent.callers number).2.1]
    exact List.not_mem_nil
  · exact ⟨fun some => absurd (persisted.records.loaded.unsearched agent).1 some,
      fun role => absurd role (quiescent.not_insert agent)⟩
  · rw [quiescent.bgIo.2.1, persisted.disk]
    rfl

end OdinVector
