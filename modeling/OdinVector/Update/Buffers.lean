/-
This file is about the buffers of an insert. The buffers of the neighbours' pages
come first and those of the pages to write follow them, one for each page, and
`page_buf_map` has the latter for every page to write. The coalesced writes are
exactly these pages.
-/

import OdinVector.Update.Shapes

namespace OdinVector

open IndexState (rmwPages bufOf bufRecord editBuf)

variable {Point Code Distance : Type}

/-- The phases before the reads are planned. -/
def Phase.early : Phase → Bool
  | .writePq | .beam | .alloc | .lockPages | .lockVec => true
  | _ => false

/-- The phases in which the pages to write have their buffers. -/
def Phase.buffered : Phase → Bool
  | .read | .edit | .put | .lockIdx | .lockPageIdx | .remap => true
  | _ => false

/-- Which buffers the pending operations of an insert use. -/
structure Thread.Buffered (thread : Thread Point) : Prop where
  empty : thread.phase.early → thread.reads = []
  planning : thread.phase = .plan → ∀ buf id, .planNeighbor buf id ∈ thread.pending →
    buf < thread.newNhood.length
  planned : thread.phase = .plan → ∀ entry ∈ thread.reads, entry.2 < thread.newNhood.length
  fetching : thread.phase = .read → ∀ page buf, .readPage page buf ∈ thread.pending →
    buf < thread.newNhood.length ∨ (page, buf) ∈ rmwPages thread
  bufMap : thread.phase.buffered → ∀ entry ∈ rmwPages thread,
    thread.pageBufMap entry.1 = some entry.2
  writes : thread.phase.buffered → pagesOf thread.writes = rmwPages thread
  editing : thread.phase = .edit → ∀ id loc, .writeNeighbor id loc ∈ thread.pending →
    loc ∈ thread.locs
  putting : thread.phase = .put → ∀ page buf, .putPage page buf ∈ thread.pending →
    (page, buf) ∈ rmwPages thread

/-! ### The buffers of the pages to write -/

theorem mem_rmwPages {thread : Thread Point} {page buf : Nat} :
    (page, buf) ∈ rmwPages thread ↔ thread.newNhood.length ≤ buf ∧
      thread.pagesLocked[buf - thread.newNhood.length]? = some page := by
  rw [rmwPages, List.mk_mem_zipIdx_iff_le_and_getElem?_sub]

theorem page_of_rmwPages {thread : Thread Point} {page other buf : Nat}
    (first : (page, buf) ∈ rmwPages thread) (second : (other, buf) ∈ rmwPages thread) :
    page = other :=
  Option.some.inj ((mem_rmwPages.mp first).2.symm.trans (mem_rmwPages.mp second).2)

theorem mem_pagesLocked {thread : Thread Point} {page buf : Nat}
    (entry : (page, buf) ∈ rmwPages thread) : page ∈ thread.pagesLocked :=
  List.mem_of_getElem? (mem_rmwPages.mp entry).2

theorem exists_buf {thread : Thread Point} {page : Nat} (member : page ∈ thread.pagesLocked) :
    ∃ buf, (page, buf) ∈ rmwPages thread := by
  obtain ⟨index, present⟩ := List.mem_iff_getElem?.mp member
  refine ⟨thread.newNhood.length + index, mem_rmwPages.mpr ⟨Nat.le_add_right _ _, ?_⟩⟩
  rwa [Nat.add_sub_cancel_left]

/-- The loop over the pages to write sets their entries of `page_buf_map`. -/
theorem foldl_pageBufMap {entries : List (Nat × Nat)}
    (once : ∀ first ∈ entries, ∀ second ∈ entries, first.1 = second.1 → first = second)
    (initial : Nat → Option Nat) {entry : Nat × Nat} (member : entry ∈ entries) :
    entries.foldl (fun (current : Nat → Option Nat) (entry : Nat × Nat) =>
      Function.update current entry.1 (some entry.2)) initial entry.1 = some entry.2 := by
  have kept : ∀ (others : List (Nat × Nat)) (current : Nat → Option Nat),
      (∀ other ∈ others, other.1 = entry.1 → other = entry) → current entry.1 = some entry.2 →
        others.foldl (fun (current : Nat → Option Nat) (entry : Nat × Nat) =>
          Function.update current entry.1 (some entry.2)) current entry.1 = some entry.2 := by
    intro others
    induction others with
    | nil => exact fun _ _ set => set
    | cons other rest inductionHypothesis =>
      intro current same set
      refine inductionHypothesis _ (fun later inRest => same later (List.mem_cons_of_mem _ inRest)) ?_
      show Function.update current other.1 (some other.2) entry.1 = some entry.2
      by_cases here : entry.1 = other.1
      · rw [here, Function.update_self, same other List.mem_cons_self here.symm]
      · rw [Function.update_of_ne here, set]
  induction entries generalizing initial with
  | nil => cases member
  | cons first rest inductionHypothesis =>
    rcases List.mem_cons.mp member with rfl | later
    · exact kept rest _ (fun other inRest same =>
        once other (List.mem_cons_of_mem _ inRest) entry List.mem_cons_self same)
        (Function.update_self _ _ _)
    · exact inductionHypothesis (fun one inOne two inTwo =>
        once one (List.mem_cons_of_mem _ inOne) two (List.mem_cons_of_mem _ inTwo)) _ later

theorem rmwPages_once {thread : Thread Point} (nodup : thread.pagesLocked.Nodup) :
    ∀ first ∈ rmwPages thread, ∀ second ∈ rmwPages thread, first.1 = second.1 →
      first = second := by
  rintro ⟨page, buf⟩ first ⟨_, other⟩ second rfl
  obtain ⟨above, atBuf⟩ := mem_rmwPages.mp first
  obtain ⟨otherAbove, atOther⟩ := mem_rmwPages.mp second
  have same := (List.getElem?_inj (List.getElem?_eq_some_iff.mp atBuf).1 nodup).mp
    (atBuf.trans atOther.symm)
  rw [show buf = other by omega]

/-- The buffer of a location in a page to write. -/
theorem Thread.Buffered.bufOf_eq {thread : Thread Point} (buffered : thread.Buffered)
    {params : IndexParams Point Code Distance} (phase : thread.phase.buffered) {loc buf : Nat}
    (entry : (params.geometry.locSectorNo loc, buf) ∈ rmwPages thread) :
    bufOf params thread loc = buf := by
  rw [bufOf, buffered.bufMap phase _ entry, Option.getD_some]

theorem Thread.SameCall.rmwPages_eq {later thread : Thread Point} (same : later.SameCall thread) :
    rmwPages later = rmwPages thread := by
  rw [rmwPages, rmwPages, same.pagesLocked, same.newNhood]

theorem Thread.Buffered.plain {thread : Thread Point} (early : thread.phase.early = false)
    (buffered : thread.phase.buffered = false) (plan : thread.phase ≠ .plan) :
    thread.Buffered := by
  have outside : ∀ phase : Phase, phase.buffered = true → thread.phase ≠ phase := by
    rintro _ isBuffered rfl
    exact nomatch isBuffered.symm.trans buffered
  refine ⟨fun held => ?_, fun phase => absurd phase plan, fun phase => absurd phase plan,
    fun phase => absurd phase (outside _ rfl), fun held => ?_, fun held => ?_,
    fun phase => absurd phase (outside _ rfl), fun phase => absurd phase (outside _ rfl)⟩
  · exact nomatch held.symm.trans early
  · exact nomatch held.symm.trans buffered
  · exact nomatch held.symm.trans buffered

theorem Thread.Buffered.beforePlan {thread : Thread Point} (buffered : thread.phase.buffered = false)
    (plan : thread.phase ≠ .plan) (empty : thread.reads = []) : thread.Buffered := by
  have outside : ∀ phase : Phase, phase.buffered = true → thread.phase ≠ phase := by
    rintro _ isBuffered rfl
    exact nomatch isBuffered.symm.trans buffered
  refine ⟨fun _ => empty, fun phase => absurd phase plan, fun phase => absurd phase plan,
    fun phase => absurd phase (outside _ rfl), fun held => ?_, fun held => ?_,
    fun phase => absurd phase (outside _ rfl), fun phase => absurd phase (outside _ rfl)⟩
  · exact nomatch held.symm.trans buffered
  · exact nomatch held.symm.trans buffered

/-- The next phase in which the buffers stay, with operations of that phase. -/
theorem Thread.Buffered.keep {thread later : Thread Point} (before : thread.Buffered)
    (buffered : thread.phase.buffered = true) (phase : later.phase.buffered = true)
    (newNhood : later.newNhood = thread.newNhood) (pagesLocked : later.pagesLocked = thread.pagesLocked)
    (pageBufMap : later.pageBufMap = thread.pageBufMap) (writes : later.writes = thread.writes)
    (notRead : later.phase ≠ .read)
    (editing : later.phase = .edit → ∀ id loc, .writeNeighbor id loc ∈ later.pending →
      loc ∈ later.locs)
    (putting : later.phase = .put → ∀ page buf, .putPage page buf ∈ later.pending →
      (page, buf) ∈ rmwPages thread) : later.Buffered := by
  have same : rmwPages later = rmwPages thread := by
    rw [rmwPages, rmwPages, pagesLocked, newNhood]
  refine ⟨fun early => ?_, fun plan => ?_, fun plan => ?_, fun isRead => absurd isRead notRead,
    fun _ => ?_, fun _ => ?_, editing, fun isPut => same ▸ putting isPut⟩
  · cases now : later.phase <;> simp_all [Phase.early, Phase.buffered]
  · rw [plan] at phase
    cases phase
  · rw [plan] at phase
    cases phase
  · rw [same, pageBufMap]
    exact before.bufMap buffered
  · rw [same, writes]
    exact before.writes buffered

/-- An operation that plans no read keeps to the buffers. -/
theorem Thread.Buffered.later {thread later : Thread Point} (buffered : thread.Buffered)
    (same : later.SameCall thread) (reads : later.reads = thread.reads)
    (pageBufMap : later.pageBufMap = thread.pageBufMap)
    (pending : ∀ op ∈ later.pending, op ∈ thread.pending) : later.Buffered := by
  refine ⟨?_, ?_, ?_, ?_, ?_, ?_, ?_, ?_⟩
  · rw [same.phase, reads]
    exact buffered.empty
  · rw [same.phase, same.newNhood]
    exact fun phase buf id member => buffered.planning phase buf id (pending _ member)
  · rw [same.phase, same.newNhood, reads]
    exact buffered.planned
  · rw [same.phase, same.newNhood, same.rmwPages_eq]
    exact fun phase page buf member => buffered.fetching phase page buf (pending _ member)
  · rw [same.phase, same.rmwPages_eq, pageBufMap]
    exact buffered.bufMap
  · rw [same.phase, same.rmwPages_eq, same.writes]
    exact buffered.writes
  · rw [same.phase, same.locs]
    exact fun phase id loc member => buffered.editing phase id loc (pending _ member)
  · rw [same.phase, same.rmwPages_eq]
    exact fun phase page buf member => buffered.putting phase page buf (pending _ member)

section Step

variable [LinearOrder Distance] {params : IndexParams Point Code Distance}
  {state next : IndexState Point Code} {agent : Agent} {rest : List (Op Point)} {op : Op Point}

/-- An operation that plans no read leaves the plan. -/
theorem execute_reads (notPlan : ∀ buf id, op ≠ .planNeighbor buf id)
    (taken : state.execute params agent { state.threads agent with pending := rest } op =
      some next) :
    (next.threads agent).reads = (state.threads agent).reads ∧
      (next.threads agent).pageBufMap = (state.threads agent).pageBufMap := by
  cases op with
  | planNeighbor buf id => exact absurd rfl (notPlan buf id)
  | lock lock mode =>
    simp only [IndexState.execute, IndexState.tryLock, Option.some.injEq] at taken
    split at taken
    all_goals
      subst taken
      simp only [IndexState.setThread, Function.update_self, and_self]
  | locate | writeTarget | remap | sendRead =>
    simp only [IndexState.execute, Option.map_eq_some_iff] at taken
    obtain ⟨_, _, rfl⟩ := taken
    simp only [IndexState.mapId, IndexState.setThread, Function.update_self, IndexState.editBuf,
      and_self]
  | snapshot | writeNeighbor =>
    simp only [IndexState.execute, Option.bind_eq_some_iff, Option.map_eq_some_iff] at taken
    obtain ⟨_, _, _, _, rfl⟩ := taken
    simp only [IndexState.setThread, Function.update_self, IndexState.editBuf, and_self]
  | unlock | readFrontier | readPage | putPage | writeDisk =>
    simp only [IndexState.execute, Option.some.injEq] at taken
    subst taken
    simp only [IndexState.setThread, Function.update_self, and_self]

theorem buffered_execute (phases : InPhases state.threads)
    (buffered : (state.threads agent).Buffered)
    (pending : (state.threads agent).pending = op :: rest)
    (taken : state.execute params agent { state.threads agent with pending := rest } op =
      some next) : (next.threads agent).Buffered := by
  have allows : (state.threads agent).phase.Allows op :=
    (phases.inPhase agent).allows op (by rw [pending]; exact List.mem_cons_self)
  have left : ∀ other ∈ rest, other ∈ (state.threads agent).pending := fun other member => by
    rw [pending]
    exact List.mem_cons_of_mem _ member
  by_cases isPlan : ∃ buf id, op = .planNeighbor buf id
  · obtain ⟨buf, id, rfl⟩ := isPlan
    have phase : (state.threads agent).phase = .plan := allows
    simp only [IndexState.execute, Option.map_eq_some_iff] at taken
    obtain ⟨page, _, rfl⟩ := taken
    rw [IndexState.setThread_threads_self]
    have outside : ∀ other : Phase, other ≠ .plan → (state.threads agent).phase ≠ other :=
      fun other different equal => different (equal.symm.trans phase)
    refine ⟨?_, fun _ other id member => buffered.planning phase other id (left _ member),
      fun _ entry member => ?_, fun isRead => absurd isRead (outside _ (by decide)), ?_, ?_,
      fun isEdit => absurd isEdit (outside _ (by decide)), fun isPut => absurd isPut
      (outside _ (by decide))⟩
    · show (state.threads agent).phase.early → _
      rw [phase]
      exact fun equal => by cases equal
    · rcases List.mem_append.mp member with old | new
      · exact buffered.planned phase entry old
      · rw [List.mem_singleton.mp new]
        exact buffered.planning phase buf id (by rw [pending]; exact List.mem_cons_self)
    · show (state.threads agent).phase.buffered → _
      rw [phase]
      exact fun equal => by cases equal
    · show (state.threads agent).phase.buffered → _
      rw [phase]
      exact fun equal => by cases equal
  · have kept := execute_reads (fun buf id equal => isPlan ⟨buf, id, equal⟩) taken
    obtain ⟨later, threads, same, popped⟩ := execute_thread taken
    have here : next.threads agent = later := by rw [threads, Function.update_self]
    rw [here] at kept ⊢
    refine buffered.later same kept.1 kept.2 fun other member => ?_
    rcases popped with ⟨isRest, _⟩ | ⟨_, _, _, still, _⟩
    · exact left other (isRest ▸ member)
    · exact still ▸ member

omit [LinearOrder Distance] in
theorem buffered_planStep {thread : Thread Point} (empty : thread.reads = []) :
    (IndexState.planStep thread).Buffered := by
  refine ⟨nofun, fun _ buf id member => ?_, fun _ entry member => ?_, nofun, nofun, nofun, nofun,
    nofun⟩
  · obtain ⟨entry, inNhood, equal⟩ := List.mem_map.mp member
    rw [Op.planNeighbor.injEq] at equal
    have below := List.snd_lt_add_of_mem_zipIdx inNhood
    rw [Nat.zero_add, equal.1] at below
    exact below
  · have none : entry ∈ thread.reads := member
    rw [empty] at none
    cases none

omit [LinearOrder Distance] in
theorem buffered_readStep {thread : Thread Point} (buffered : thread.Buffered)
    (phase : thread.phase = .plan) (nodup : thread.pagesLocked.Nodup) :
    (IndexState.readStep thread).Buffered := by
  refine ⟨nofun, nofun, nofun, fun _ page buf member => ?_, fun _ entry member => ?_, fun _ => ?_,
    nofun, nofun⟩
  · obtain ⟨entry, inReads, equal⟩ := List.mem_map.mp member
    rw [Op.readPage.injEq] at equal
    obtain ⟨rfl, rfl⟩ := equal
    rcases List.mem_append.mp inReads with source | written
    · exact .inl (buffered.planned phase entry source)
    · exact .inr (List.mem_filter.mp written).1
  · exact foldl_pageBufMap (rmwPages_once nodup) _ member
  · exact pagesOf_coalesce _ _

omit [LinearOrder Distance] in
theorem buffered_advance (buffered : (state.threads agent).Buffered)
    (shape : (state.threads agent).Shape params) {choice : Choice}
    (taken : state.advance params agent choice = some next) (notBackground : agent ≠ .bgIoThread) :
    (next.threads agent).Buffered := by
  cases IndexState.advances taken with
  | writePq phase | prune phase | beamFinish phase | alloc phase | lockPages phase =>
    simp only [IndexState.setThread_threads_self]
    exact .beforePlan rfl (fun equal => by cases equal) (buffered.empty (by rw [phase]; rfl))
  | beam phase =>
    rw [IndexState.setThread_threads_self]
    exact .beforePlan (by simp only [phase]; rfl) (by simp only [phase]; decide)
      (buffered.empty (by rw [phase]; rfl))
  | lockVec phase =>
    rw [IndexState.setThread_threads_self]
    exact buffered_planStep (buffered.empty (by rw [phase]; rfl))
  | plan phase =>
    rw [IndexState.setThread_threads_self]
    refine buffered_readStep buffered phase ?_
    rw [shape.pagesLocked (by rw [phase]; rfl)]
    exact (sortUnique_pairwise _).imp fun below => Nat.ne_of_lt below
  | read phase =>
    rw [IndexState.setThread_threads_self]
    refine buffered.keep (by rw [phase]; rfl) rfl rfl rfl rfl rfl (fun equal => by cases equal)
      (fun _ id loc member => ?_)
      (fun equal => by cases equal)
    rcases List.mem_cons.mp member with isTarget | neighbor
    · cases isTarget
    · obtain ⟨entry, inZip, equal⟩ := List.mem_map.mp neighbor
      rw [Op.writeNeighbor.injEq] at equal
      exact equal.2 ▸ (List.of_mem_zip inZip).2
  | edit phase =>
    rw [IndexState.setThread_threads_self]
    refine buffered.keep (by rw [phase]; rfl) rfl rfl rfl rfl rfl (fun equal => by cases equal)
      (fun equal => by cases equal)
      fun _ page buf member => ?_
    obtain ⟨entry, inWrites, equal⟩ := List.mem_map.mp member
    rw [Op.putPage.injEq] at equal
    rw [buffered.writes (by rw [phase]; rfl)] at inWrites
    exact equal.1 ▸ equal.2 ▸ inWrites
  | put phase | lockIdx phase | lockPageIdx phase =>
    simp only [IndexState.mapId, IndexState.setThread, Function.update_self]
    exact buffered.keep (by rw [phase]; rfl) rfl rfl rfl rfl rfl (fun equal => by cases equal)
      (fun equal => by cases equal) (fun equal => by cases equal)
  | remap =>
    simp only [IndexState.commitStep, IndexState.setThread, Function.update_self]
    exact .plain rfl rfl (fun equal => by cases equal)
  | giveBack | pageLoop | pageFinish | pageLock | pipeFinish =>
    rw [IndexState.setThread_threads_self]
    exact .plain rfl rfl (fun equal => by cases equal)
  | handOff =>
    dsimp only
    rw [IndexState.setThread_threads_other _ _ notBackground, IndexState.setThread_threads_self]
    exact .plain rfl rfl (fun equal => by cases equal)
  | send phase | complete phase =>
    rw [IndexState.setThread_threads_self]
    exact .plain (by simp only [phase]; rfl) (by simp only [phase]; rfl)
      (by simp only [phase]; decide)

/-- Every step keeps to the buffers. -/
theorem buffered_step (phases : InPhases state.threads)
    (shapes : ∀ agent, (state.threads agent).Shape params)
    (buffered : ∀ agent, (state.threads agent).Buffered) {action : Action Point}
    (taken : state.step params action = some next) (agent : Agent) :
    (next.threads agent).Buffered := by
  rcases IndexState.step_cases taken with ⟨number, request, _, _, started⟩ |
    ⟨runner, _, _, _, _, pending, ran⟩ | ⟨runner, _, _, _, ended⟩
  · by_cases same : agent = .caller number
    · subst same
      obtain ⟨_, rfl⟩ := IndexState.start_cases started
      dsimp only
      rw [IndexState.setThread_threads_self]
      cases request with
      | insertInPlace | beamSearch => exact .beforePlan rfl nofun rfl
      | pageSearch | pipeSearch => exact .plain rfl rfl nofun
    · exact start_other started same ▸ buffered agent
  · by_cases same : agent = runner
    · exact same ▸ buffered_execute phases (buffered runner) pending ran
    · obtain ⟨later, threads, _⟩ := execute_thread ran
      rw [threads, Function.update_of_ne same]
      exact buffered agent
  · by_cases same : agent = runner
    · subst same
      refine buffered_advance (buffered agent) (shapes agent) ended ?_
      rintro rfl
      exact phase_of_advance ended phases.phase_of_background
    · rcases advance_other ended same with kept | ⟨_, rfl, kept⟩
      · exact kept ▸ buffered agent
      · have finished := phases.phase_of_background
        rw [kept]
        exact .plain (by simp only [finished]; rfl) (by simp only [finished]; rfl)
          (by simp only [finished]; nofun)

end Step

theorem IndexState.Quiescent.buffered {state : IndexState Point Code} (quiescent : state.Quiescent)
    (agent : Agent) : (state.threads agent).Buffered := by
  have finished := quiescent.finished agent
  exact .plain (by rw [finished]; rfl) (by rw [finished]; rfl) (by rw [finished]; nofun)

end OdinVector
