/-
This file proves that a call that has returned holds no lock. What a call has in
hand and is about to take is what it is about to give back and what a later phase
owes, lock by lock. The vec locks are not part of this account, because they are
given back twice. A `pipe_search` is none of the calls meant here: it returns with
the locks of the reads in flight.
-/

import OdinVector.Update.Exclusion
import OdinVector.Update.VecLocks

namespace OdinVector

variable {Point Code Distance : Type}

/-- The lock that an operation takes. -/
def Op.takes : Op Point → Option LockKey
  | .lock taken _ => some taken
  | _ => none

/-- The lock that an operation gives back. -/
def Op.frees : Op Point → Option LockKey
  | .unlock freed => some freed
  | _ => none

/-- The locks in hand and the pending ones are those that are given back and those that are
owed. -/
def Thread.Accounts (thread : Thread Point) (held : List LockKey) : Prop :=
  ∀ lock : LockKey, lock.table ≠ .vecLockTable →
    held.count lock + (thread.pending.filterMap Op.takes).count lock =
      (thread.pending.filterMap Op.frees).count lock + thread.owed.count lock

/-- The calls other than `pipe_search` account for their locks. -/
def Accounted (state : IndexState Point Code) : Prop :=
  ∀ agent, (state.threads agent).role ≠ .pipeSearch →
    (state.threads agent).Accounts (Holding.heldBy state.holders agent)

/-! ### Lists of operations -/

theorem frees_unlocks (table : LockTableName) (keys : List Nat) :
    (keys.map fun key => (.unlock ⟨table, key⟩ : Op Point)).filterMap Op.frees =
      keys.map (LockKey.mk table) := by
  rw [List.filterMap_map]
  exact congrFun (List.filterMap_eq_map (f := LockKey.mk table)) keys

theorem takes_none {ops : List (Op Point)} (none : ∀ op ∈ ops, op.takes = none) :
    ops.filterMap Op.takes = [] :=
  List.filterMap_eq_nil_iff.mpr none

theorem frees_none {ops : List (Op Point)} (none : ∀ op ∈ ops, op.frees = none) :
    ops.filterMap Op.frees = [] :=
  List.filterMap_eq_nil_iff.mpr none

theorem heldBy_handOver_self (holders : List (Holding Agent LockKey)) {agent : Agent}
    (different : agent ≠ .bgIoThread) :
    Holding.heldBy (holders.map (IndexState.handOver agent)) agent =
      (Holding.heldBy holders agent).filter fun lock => ¬ lock.isPage := by
  induction holders with
  | nil => rfl
  | cons holding rest inductionHypothesis =>
    rw [List.map_cons]
    unfold IndexState.handOver at inductionHypothesis ⊢
    by_cases own : holding.agent = agent
    · subst own
      rw [Holding.heldBy_cons_self]
      by_cases page : holding.key.table = .pageLockTable
      · rw [if_pos ⟨rfl, page⟩, Holding.heldBy_cons_other different.symm,
          List.filter_cons_of_neg (by simpa [LockKey.isPage] using page), inductionHypothesis]
      · rw [if_neg fun both => page both.2, Holding.heldBy_cons_self,
          List.filter_cons_of_pos (by simpa [LockKey.isPage] using page), inductionHypothesis]
    · rw [if_neg fun both => own both.1, Holding.heldBy_cons_other own,
        Holding.heldBy_cons_other own, inductionHypothesis]

/-! ### Operations -/

section Steps

variable [LinearOrder Distance] {params : IndexParams Point Code Distance}
  {state next : IndexState Point Code} {agent : Agent}

omit [LinearOrder Distance] in
theorem Thread.owed_congr {thread later : Thread Point} (same : later.SameCall thread)
    (notPipe : thread.phase ≠ .pipeLoop) : later.owed = thread.owed := by
  unfold Thread.owed
  rw [same.phase, same.pagesLocked, same.idxLocked, same.pageLocked]
  cases phase : thread.phase with
  | pipeLoop => exact absurd phase notPipe
  | _ => rfl

omit [LinearOrder Distance] in
theorem not_pipeLoop (phases : InPhases state.threads)
    (role : (state.threads agent).role ≠ .pipeSearch) :
    (state.threads agent).phase ≠ .pipeLoop := by
  intro phase
  have visits := (phases.inPhase agent).visits
  rw [phase] at visits
  cases isRole : (state.threads agent).role with
  | pipeSearch => exact role isRole
  | _ =>
    rw [isRole] at visits
    cases visits

theorem accounts_execute (phases : InPhases state.threads)
    (keeps : KeepsRules state.threads state.holders)
    (role : (state.threads agent).role ≠ .pipeSearch)
    (accounts : (state.threads agent).Accounts (Holding.heldBy state.holders agent))
    {op : Op Point} {rest : List (Op Point)} (pending : (state.threads agent).pending = op :: rest)
    (taken : state.execute params agent { state.threads agent with pending := rest } op =
      some next) : (next.threads agent).Accounts (Holding.heldBy next.holders agent) := by
  obtain ⟨later, threads, same, popped⟩ := execute_thread taken
  rw [threads, Function.update_self]
  intro lock notVec
  have before := accounts lock notVec
  rw [Thread.owed_congr same (not_pipeLoop phases role)]
  rcases popped with ⟨left, free⟩ | ⟨_, _, _, still, _, _, holders⟩
  swap
  · rw [still, holders]
    exact before
  rw [left]
  rw [pending] at before
  cases op with
  | lock key mode =>
    have holders : next.holders = ⟨agent, key, mode⟩ :: state.holders := by
      simp only [IndexState.execute, IndexState.tryLock, free key mode rfl,
        Option.some.injEq] at taken
      rw [← taken]
    have count : (Holding.heldBy next.holders agent).count lock =
        (Holding.heldBy state.holders agent).count lock + if key == lock then 1 else 0 := by
      rw [holders, Holding.heldBy_cons_self ⟨agent, key, mode⟩]
      exact List.count_cons
    rw [show (Op.lock key mode :: rest).filterMap Op.takes = key :: rest.filterMap Op.takes from rfl,
      show (Op.lock key mode :: rest).filterMap Op.frees = rest.filterMap Op.frees from rfl,
      List.count_cons] at before
    omega
  | unlock key =>
    have isHeld : key.table ≠ .vecLockTable → key ∈ Holding.heldBy state.holders agent := by
      have own := keeps agent
      rw [Thread.program, pending] at own
      exact own.1
    have count : (Holding.heldBy next.holders agent).count lock =
        (Holding.heldBy state.holders agent).count lock - if key == lock then 1 else 0 := by
      simp only [IndexState.execute, Option.some.injEq] at taken
      rw [← taken, Holding.heldBy_release_self]
      exact List.count_erase
    rw [show (Op.unlock key :: rest).filterMap Op.takes = rest.filterMap Op.takes from rfl,
      show (Op.unlock key :: rest).filterMap Op.frees = key :: rest.filterMap Op.frees from rfl,
      List.count_cons] at before
    rw [count]
    by_cases isKey : key = lock
    · subst isKey
      have positive := List.count_pos_iff.mpr (isHeld notVec)
      rw [if_pos (beq_self_eq_true key)] at before ⊢
      omega
    · rw [if_neg (by simpa using isKey)] at before ⊢
      omega
  | locate | planNeighbor | writeTarget | remap | sendRead =>
    simp only [IndexState.execute, Option.map_eq_some_iff] at taken
    obtain ⟨_, _, rfl⟩ := taken
    exact before
  | snapshot | writeNeighbor =>
    simp only [IndexState.execute, Option.bind_eq_some_iff, Option.map_eq_some_iff] at taken
    obtain ⟨_, _, _, _, rfl⟩ := taken
    exact before
  | readFrontier | readPage | putPage | writeDisk =>
    simp only [IndexState.execute, Option.some.injEq] at taken
    subst taken
    exact before

/-! ### The ends of phases -/

omit [LinearOrder Distance] in
theorem count_vec {lock : LockKey} (notVec : lock.table ≠ .vecLockTable) (ids : List Nat) :
    (ids.map LockKey.vec).count lock = 0 := by
  refine List.count_eq_zero.mpr fun member => ?_
  obtain ⟨_, _, rfl⟩ := List.mem_map.mp member
  exact notVec rfl

omit [LinearOrder Distance] in
/-- A call goes on to its next phase with the same locks in hand. -/
theorem Thread.Accounts.later {thread later : Thread Point} {held : List LockKey}
    (accounts : thread.Accounts held) (pending : thread.pending = [])
    (same : ∀ lock : LockKey, lock.table ≠ .vecLockTable →
      thread.owed.count lock + (later.pending.filterMap Op.takes).count lock =
        (later.pending.filterMap Op.frees).count lock + later.owed.count lock) :
    later.Accounts held := by
  intro lock notVec
  have before := accounts lock notVec
  rw [pending, List.filterMap_nil, List.filterMap_nil, List.count_nil] at before
  have after := same lock notVec
  omega

omit [LinearOrder Distance] in
theorem Thread.Accounts.quiet {thread later : Thread Point} {held : List LockKey}
    (accounts : thread.Accounts held) (pending : thread.pending = [])
    (owed : later.owed = thread.owed) (takes : ∀ op ∈ later.pending, op.takes = none)
    (frees : ∀ op ∈ later.pending, op.frees = none) : later.Accounts held := by
  refine accounts.later pending fun lock _ => ?_
  rw [owed, takes_none takes, frees_none frees, Nat.add_comm]

omit [LinearOrder Distance] in
theorem accounts_handOff {held background : List LockKey} {thread bg : Thread Point}
    (accounts : thread.Accounts held) (pending : thread.pending = []) (phase : thread.phase = .unlock)
    (finished : bg.phase = .finish) (own : bg.Accounts background) :
    ({ thread with phase := .finish } : Thread Point).Accounts
        (held.filter fun lock => ¬ lock.isPage) ∧
      ({ bg with pending := bg.pending ++ IndexState.bgTask thread } : Thread Point).Accounts
        (held.filter LockKey.isPage ++ background) := by
  have inHand : ∀ lock : LockKey, lock.table ≠ .vecLockTable →
      held.count lock = (thread.pagesLocked.map .page).count lock := by
    intro lock notVec
    have before := accounts lock notVec
    simp only [pending, List.filterMap_nil, List.count_nil, Thread.owed, phase] at before
    omega
  have noOther : ∀ lock : LockKey, ¬ lock.isPage → (thread.pagesLocked.map .page).count lock = 0 := by
    intro lock notPage
    refine List.count_eq_zero.mpr fun member => ?_
    obtain ⟨_, _, rfl⟩ := List.mem_map.mp member
    exact notPage rfl
  refine ⟨fun lock notVec => ?_, fun lock notVec => ?_⟩
  · show List.count lock _ + (thread.pending.filterMap _).count lock =
      (thread.pending.filterMap _).count lock + _
    rw [pending]
    by_cases page : lock.isPage
    · rw [List.count_eq_zero.mpr fun member => by simp [page] at member]
      rfl
    · rw [List.count_filter (by simpa using page), inHand lock notVec, noOther lock page]
      rfl
  · have before := own lock notVec
    have task : ((IndexState.bgTask thread).filterMap Op.takes) = [] ∧
        ((IndexState.bgTask thread).filterMap Op.frees) = thread.pagesLocked.map .page := by
      unfold IndexState.bgTask
      rw [List.filterMap_append, List.filterMap_append, frees_unlocks]
      refine ⟨?_, ?_⟩
      · rw [takes_none, takes_none]
        · rfl
        · intro op member
          obtain ⟨_, _, rfl⟩ := List.mem_map.mp member
          rfl
        · intro op member
          obtain ⟨_, _, rfl⟩ := List.mem_map.mp member
          rfl
      · rw [frees_none, List.nil_append]
        intro op member
        obtain ⟨_, _, rfl⟩ := List.mem_map.mp member
        rfl
    have owed : ({ bg with pending := bg.pending ++ IndexState.bgTask thread } :
        Thread Point).owed = bg.owed := by
      simp only [Thread.owed, finished]
    rw [owed]
    show List.count lock (_ ++ background) +
        List.count lock ((bg.pending ++ IndexState.bgTask thread).filterMap _) =
      List.count lock ((bg.pending ++ IndexState.bgTask thread).filterMap _) + bg.owed.count lock
    rw [List.filterMap_append, List.filterMap_append, task.1, task.2, List.append_nil,
      List.count_append, List.count_append]
    by_cases page : lock.isPage
    · rw [List.count_filter page, inHand lock notVec]
      omega
    · rw [List.count_eq_zero.mpr fun member => page (List.mem_filter.mp member).2,
        noOther lock page]
      omega

omit [LinearOrder Distance] in
theorem accounts_advance (phases : InPhases state.threads)
    (role : (state.threads agent).role ≠ .pipeSearch)
    (accounts : (state.threads agent).Accounts (Holding.heldBy state.holders agent))
    (pending : (state.threads agent).pending = []) {choice : Choice}
    (notUnlock : (state.threads agent).phase ≠ .unlock)
    (taken : state.advance params agent choice = some next) :
    (next.threads agent).Accounts (Holding.heldBy state.holders agent) := by
  cases IndexState.advances taken with
  | writePq phase | prune phase | beamFinish phase | pageFinish phase =>
    simp only [IndexState.setThread_threads_self]
    exact accounts.quiet pending (by simp only [Thread.owed, phase]) (by simp [pending])
      (by simp [pending])
  | beam phase =>
    rw [IndexState.setThread_threads_self]
    refine accounts.later pending fun lock _ => ?_
    simp [Thread.owed, phase, List.filterMap_append, List.filterMap_cons, Function.comp_def,
      Op.takes, Op.frees]
  | alloc phase | pageLoop phase =>
    simp only [IndexState.setThread_threads_self]
    refine accounts.later pending fun lock _ => ?_
    simp [Thread.owed, phase, Function.comp_def, Op.takes, Op.frees]
  | lockPages phase =>
    rw [IndexState.setThread_threads_self]
    refine accounts.later pending fun lock notVec => ?_
    simp [Thread.owed, phase, IndexState.lockVecStep, Function.comp_def, Op.takes, Op.frees,
      count_vec notVec]
  | lockVec phase | plan phase | edit phase | lockPageIdx phase =>
    rw [IndexState.setThread_threads_self]
    refine accounts.quiet pending (by simp only [Thread.owed, phase, IndexState.planStep,
      IndexState.readStep, IndexState.putStep, IndexState.remapStep]) (fun op member => ?_)
      fun op member => ?_
    all_goals
      obtain ⟨_, _, rfl⟩ := List.mem_map.mp member
      rfl
  | read phase =>
    rw [IndexState.setThread_threads_self]
    refine accounts.quiet pending (by simp only [Thread.owed, phase, IndexState.editStep])
      (fun op member => ?_) fun op member => ?_
    all_goals
      rcases List.mem_cons.mp member with rfl | neighbor
      · rfl
      · obtain ⟨_, _, rfl⟩ := List.mem_map.mp neighbor
        rfl
  | put phase | lockIdx phase =>
    simp only [IndexState.mapId, IndexState.setThread_threads_self]
    refine accounts.later pending fun lock _ => ?_
    simp [Thread.owed, phase, Function.comp_def, Op.takes, Op.frees, Nat.add_comm]
  | remap phase =>
    unfold IndexState.commitStep
    dsimp only
    rw [IndexState.setThread_threads_self]
    refine accounts.later pending fun lock notVec => ?_
    have vecs := count_vec notVec ((state.threads agent).target ::
      ((state.threads agent).newNhood ++ [(state.threads agent).target]))
    rw [List.map_cons, List.map_append, List.map_singleton] at vecs
    simp [Thread.owed, phase, IndexState.unlockVec, List.filterMap_append, List.filterMap_cons,
      Function.comp_def, Op.takes, Op.frees]
    omega
  | giveBack phase | handOff phase => exact absurd phase notUnlock
  | pageLock phase =>
    rw [IndexState.setThread_threads_self]
    refine accounts.later pending fun lock _ => ?_
    simp [Thread.owed, phase, List.filterMap_append, Function.comp_def, Op.takes, Op.frees,
      Nat.add_comm]
  | send phase | complete phase | pipeFinish phase => exact absurd phase (not_pipeLoop phases role)

omit [LinearOrder Distance] in
theorem accounted_handOff {runner : Agent} (accounted : Accounted state) (sound : Sound params state)
    (notBackground : runner ≠ .bgIoThread)
    (own : (state.threads runner).Accounts (Holding.heldBy state.holders runner))
    (pending : (state.threads runner).pending = []) (phase : (state.threads runner).phase = .unlock)
    (notPipe : ((state.handOffStep runner (state.threads runner)).threads agent).role ≠
      .pipeSearch) :
    ((state.handOffStep runner (state.threads runner)).threads agent).Accounts
      (Holding.heldBy (state.handOffStep runner (state.threads runner)).holders agent) := by
  unfold IndexState.handOffStep at notPipe ⊢
  split
  · rename_i noRef
    rw [if_pos noRef] at notPipe
    by_cases runs : agent = runner
    · subst runs
      rw [IndexState.setThread_threads_self]
      refine own.later pending fun lock _ => ?_
      simp [Thread.owed, phase, Function.comp_def, Op.takes, Op.frees]
    · rw [IndexState.setThread_threads_other _ _ runs] at notPipe ⊢
      exact accounted agent notPipe
  · rename_i someRef
    rw [if_neg someRef] at notPipe
    have background := accounted .bgIoThread (by
      rw [(sound.phases.background .bgIoThread).mpr rfl]
      exact Role.noConfusion)
    have both := accounts_handOff own pending phase sound.phases.phase_of_background background
    dsimp only at notPipe ⊢
    by_cases isBackground : agent = .bgIoThread
    · subst isBackground
      rw [IndexState.setThread_threads_self]
      intro lock notVec
      rw [(heldBy_handOver_background state.holders notBackground).count_eq]
      exact both.2 lock notVec
    · rw [IndexState.setThread_threads_other _ _ isBackground] at notPipe ⊢
      by_cases runs : agent = runner
      · subst runs
        rw [IndexState.setThread_threads_self, heldBy_handOver_self _ isBackground]
        exact both.1
      · rw [IndexState.setThread_threads_other _ _ runs] at notPipe ⊢
        rw [heldBy_handOver_other isBackground runs]
        exact accounted agent notPipe

/-- Every step keeps the account of the calls. -/
theorem Accounted.step (accounted : Accounted state) (sound : Sound params state)
    {action : Action Point} (taken : state.step params action = some next) : Accounted next := by
  intro agent notPipe
  rcases IndexState.step_cases taken with ⟨number, request, _, _, started⟩ |
    ⟨runner, _, op, _, _, pending, ran⟩ | ⟨runner, _, _, pending, ended⟩
  · have holders : next.holders = state.holders := by
      rw [← (IndexState.start_cases started).2]
      rfl
    rw [holders]
    by_cases same : agent = .caller number
    · subst same
      obtain ⟨idle, rfl⟩ := IndexState.start_cases started
      rw [sound.phases.heldBy_idle sound.keeps idle]
      dsimp only
      rw [IndexState.setThread_threads_self]
      intro lock _
      cases request <;> rfl
    · rw [start_other started same] at notPipe ⊢
      exact accounted agent notPipe
  · obtain ⟨later, threads, same, _⟩ := execute_thread ran
    by_cases runs : agent = runner
    · subst runs
      rw [threads, Function.update_self, same.role] at notPipe
      exact accounts_execute sound.phases sound.keeps notPipe (accounted agent notPipe) pending ran
    · have held : Holding.heldBy next.holders agent = Holding.heldBy state.holders agent := by
        rcases execute_locks ran with ⟨_, holders⟩ | ⟨_, _, _, _, holders⟩ | ⟨_, _, _, holders⟩
        · rw [holders]
        · rw [holders, Holding.heldBy_cons_other (Ne.symm runs)]
        · rw [holders, Holding.heldBy_release_other (Ne.symm runs)]
      rw [threads, Function.update_of_ne runs] at notPipe ⊢
      rw [held]
      exact accounted agent notPipe
  · have notBackground : runner ≠ .bgIoThread := by
      rintro rfl
      exact phase_of_advance ended sound.phases.phase_of_background
    have frame := advance_frame ended notBackground
    by_cases unlocking : (state.threads runner).phase = .unlock
    · have role := (sound.phases.inPhase runner).isInsert (by rw [unlocking]; decide)
      have own := accounted runner (by rw [role]; nofun)
      unfold IndexState.advance at ended
      simp only [unlocking, Option.some.injEq] at ended
      subst ended
      exact accounted_handOff accounted sound notBackground own pending unlocking notPipe
    · have holders := frame.holders.resolve_right fun both => unlocking both.1
      rw [holders]
      by_cases runs : agent = runner
      · subst runs
        rw [frame.role] at notPipe
        exact accounts_advance sound.phases notPipe (accounted agent notPipe) pending unlocking ended
      · rcases advance_other ended runs with kept | ⟨isUnlock, _⟩
        · rw [kept] at notPipe ⊢
          exact accounted agent notPipe
        · exact absurd isUnlock unlocking

omit [LinearOrder Distance] in
/-- A call that has returned, other than a `pipe_search`, holds no lock. -/
theorem heldBy_of_finished (accounted : Accounted state) (kept : VecsKept state)
    (phase : (state.threads agent).phase = .finish) (pending : (state.threads agent).pending = [])
    (notPipe : (state.threads agent).role ≠ .pipeSearch) :
    Holding.heldBy state.holders agent = [] := by
  refine List.eq_nil_iff_forall_not_mem.mpr fun lock held => ?_
  by_cases isVec : lock.table = .vecLockTable
  · obtain ⟨table, id⟩ := lock
    obtain rfl : table = .vecLockTable := isVec
    have inHand : id ∈ vecsInHand state.holders agent := mem_vecsInHand.mpr held
    rw [(kept agent).outside (by rw [phase]; nofun) (by rw [phase]; rfl)] at inHand
    cases inHand
  · have account := accounted agent notPipe lock isVec
    have positive := List.count_pos_iff.mpr held
    simp only [pending, Thread.owed, phase, List.filterMap_nil, List.count_nil] at account
    omega

omit [LinearOrder Distance] in
/-- When all calls have returned, none of them a `pipe_search`, no lock is held. -/
theorem holders_of_finished (accounted : Accounted state) (kept : VecsKept state)
    (finished : ∀ agent, (state.threads agent).phase = .finish ∧
      (state.threads agent).pending = [] ∧ (state.threads agent).role ≠ .pipeSearch) :
    state.holders = [] := by
  refine List.eq_nil_iff_forall_not_mem.mpr fun holding member => ?_
  obtain ⟨phase, pending, notPipe⟩ := finished holding.agent
  have held : holding.key ∈ Holding.heldBy state.holders holding.agent :=
    Holding.mem_heldBy.mpr ⟨holding.mode, member⟩
  rw [heldBy_of_finished accounted kept phase pending notPipe] at held
  cases held

end Steps

theorem IndexState.Quiescent.accounted {state : IndexState Point Code}
    (quiescent : state.Quiescent) : Accounted state := by
  intro agent _ lock _
  have finished := quiescent.finished agent
  have pending : (state.threads agent).pending = [] := by
    cases agent with
    | bgIoThread => exact quiescent.bgIo.2.1
    | caller number => exact (quiescent.callers number).2.1
  simp [quiescent.holders, Holding.heldBy, pending, Thread.owed, finished]

end OdinVector
