/-
This file is about who holds the vec locks. `unlock_vec` gives back the lock of the
target first and then every id of the vector, and by then the target is in the
vector: its lock is given back twice. The second time the insert does not hold it.
When another insert does, the table forgets the lock of that insert, and a third
one can take it.

Every other unlock of a vec lock is by its holder, and as long as no second unlock
finds the lock of another insert, a vec lock has one holder.
-/

import OdinVector.Update.Agreement

namespace OdinVector

variable {Point Code Distance : Type}

/-! ### Vec locks in hand -/

/-- The id of a vec lock. -/
def LockKey.vecId (lock : LockKey) : Option Nat :=
  if lock.table = .vecLockTable then some lock.key else none

/-- The ids whose vec locks an agent has in hand. -/
def vecsInHand (holders : List (Holding Agent LockKey)) (agent : Agent) : List Nat :=
  holders.filterMap fun holding => if holding.agent = agent then holding.key.vecId else none

theorem LockKey.vecId_eq_some {lock : LockKey} {id : Nat} : lock.vecId = some id ↔
    lock = .vec id := by
  obtain ⟨table, key⟩ := lock
  rw [vecId, Option.ite_none_right_eq_some, Option.some.injEq, LockKey.mk.injEq]

theorem LockKey.vecId_other {lock : LockKey} (other : lock.table ≠ .vecLockTable) :
    lock.vecId = none := if_neg other

theorem mem_vecsInHand {holders : List (Holding Agent LockKey)} {agent : Agent} {id : Nat} :
    id ∈ vecsInHand holders agent ↔ LockKey.vec id ∈ Holding.heldBy holders agent := by
  rw [vecsInHand, List.mem_filterMap, Holding.mem_heldBy]
  constructor
  · rintro ⟨⟨holder, lock, mode⟩, member, found⟩
    rw [Option.ite_none_right_eq_some, LockKey.vecId_eq_some] at found
    obtain ⟨rfl, rfl⟩ := found
    exact ⟨mode, member⟩
  · rintro ⟨mode, member⟩
    exact ⟨_, member, if_pos rfl⟩

theorem vecsInHand_cons_vec (holders : List (Holding Agent LockKey)) (agent : Agent) (id : Nat)
    (mode : Mode) : vecsInHand (⟨agent, .vec id, mode⟩ :: holders) agent =
      id :: vecsInHand holders agent := by
  simp [vecsInHand, LockKey.vecId]

/-- Taking a lock changes nothing for others, and nothing when it is no vec lock. -/
theorem vecsInHand_cons_other {holders : List (Holding Agent LockKey)} {agent : Agent}
    {holding : Holding Agent LockKey}
    (other : holding.agent ≠ agent ∨ holding.key.table ≠ .vecLockTable) :
    vecsInHand (holding :: holders) agent = vecsInHand holders agent := by
  rw [vecsInHand, List.filterMap_cons_none]
  · rfl
  · rw [ite_eq_right_iff]
    exact fun own => LockKey.vecId_other (other.resolve_left fun different => different own)

theorem vecsInHand_release_vec (holders : List (Holding Agent LockKey)) (agent : Agent) (id : Nat) :
    vecsInHand (Holding.release holders agent (.vec id)) agent =
      (vecsInHand holders agent).erase id := by
  induction holders with
  | nil => rfl
  | cons holding rest inductionHypothesis =>
    by_cases erased : holding.agent = agent ∧ holding.key = .vec id
    · obtain ⟨holder, lock, mode⟩ := holding
      obtain ⟨rfl, rfl⟩ := erased
      rw [vecsInHand_cons_vec, List.erase_cons_head]
      exact congrArg (vecsInHand · holder)
        (Holding.release_cons_self ⟨holder, .vec id, mode⟩ rest)
    · rw [Holding.release_cons_other erased]
      by_cases other : holding.agent ≠ agent ∨ holding.key.table ≠ .vecLockTable
      · rw [vecsInHand_cons_other other, vecsInHand_cons_other other, inductionHypothesis]
      · rw [not_or, not_not, not_not] at other
        obtain ⟨holder, ⟨table, key⟩, mode⟩ := holding
        obtain ⟨rfl, rfl⟩ := other
        have different : key ≠ id := by
          rintro rfl
          exact erased ⟨rfl, rfl⟩
        rw [vecsInHand_cons_vec, vecsInHand_cons_vec,
          List.erase_cons_tail (by simpa using different), inductionHypothesis]

/-- Giving a lock back changes nothing for others, and nothing when it is no vec lock. -/
theorem vecsInHand_release_other {holders : List (Holding Agent LockKey)} {agent runner : Agent}
    {lock : LockKey} (other : runner ≠ agent ∨ lock.table ≠ .vecLockTable) :
    vecsInHand (Holding.release holders runner lock) agent = vecsInHand holders agent := by
  induction holders with
  | nil => rfl
  | cons holding rest inductionHypothesis =>
    by_cases erased : holding.agent = runner ∧ holding.key = lock
    · obtain ⟨rfl, rfl⟩ := erased
      rw [Holding.release_cons_self, vecsInHand_cons_other other]
    · have cons : ∀ others : List (Holding Agent LockKey), vecsInHand (holding :: others) agent =
          (vecsInHand [holding] agent) ++ vecsInHand others agent :=
        fun others => List.filterMap_append (l := [holding])
      rw [Holding.release_cons_other erased, cons, inductionHypothesis, ← cons]

theorem vecsInHand_handOver (holders : List (Holding Agent LockKey)) (agent runner : Agent) :
    vecsInHand (holders.map (IndexState.handOver runner)) agent = vecsInHand holders agent := by
  rw [vecsInHand, List.filterMap_map]
  refine List.filterMap_congr fun holding _ => ?_
  show (if (IndexState.handOver runner holding).agent = agent then
    (IndexState.handOver runner holding).key.vecId else none) = _
  unfold IndexState.handOver
  split
  · rename_i handed
    have notVec : holding.key.vecId = none :=
      LockKey.vecId_other (by rw [handed.2]; exact nofun)
    rw [notVec, ite_self, ite_self]
  · rfl

/-! ### What a call has in hand -/

/-- The phases of an insert between `lock_vec` and `unlock_vec`. -/
def Phase.rewrites : Phase → Bool
  | .plan | .read | .edit | .put | .lockIdx | .lockPageIdx | .remap => true
  | _ => false

theorem Phase.vecHeld_of_rewrites {phase : Phase} (rewrites : phase.rewrites) : phase.vecHeld := by
  cases phase <;> first | rfl | cases rewrites

/-- The id of the vec lock that an operation takes. -/
def Op.locksVec (op : Op Point) : Option Nat :=
  match op with
  | .lock key _ => key.vecId
  | _ => none

/-- The vec locks that a call has in hand, by its phase. -/
structure Thread.VecsHeld (thread : Thread Point) (held : List Nat) : Prop where
  locking : thread.phase = .lockVec → (held ++ thread.pending.filterMap Op.locksVec).Perm
    (thread.newNhood ++ [thread.target])
  rewriting : thread.phase.rewrites → held.Perm (thread.newNhood ++ [thread.target])
  endsInTarget : thread.phase = .unlock → ∃ nhood, thread.newNhood = nhood ++ [thread.target]
  unlocking : thread.phase = .unlock → thread.Unlocking → held.Perm thread.newNhood
  freed : thread.phase = .unlock → ∀ todo : List Nat,
    thread.pending = todo.map (fun id => .unlock (.vec id)) → todo <:+ thread.newNhood →
      held.Perm todo.dropLast
  outside : thread.phase ≠ .lockVec → thread.phase.vecHeld = false → held = []

namespace Thread.VecsHeld

variable {thread later : Thread Point} {held : List Nat}

theorem plain (notLocking : thread.phase ≠ .lockVec) (notHeld : thread.phase.vecHeld = false) :
    thread.VecsHeld [] := by
  have outside : ∀ phase : Phase, phase.vecHeld → thread.phase ≠ phase := by
    rintro _ isHeld rfl
    exact nomatch isHeld.symm.trans notHeld
  refine ⟨fun phase => absurd phase notLocking, fun rewrites => ?_,
    fun phase => absurd phase (outside _ rfl), fun phase => absurd phase (outside _ rfl),
    fun phase => absurd phase (outside _ rfl), fun _ _ => rfl⟩
  exact nomatch notHeld.symm.trans (Phase.vecHeld_of_rewrites rewrites)

theorem working (phase : thread.phase.rewrites)
    (all : held.Perm (thread.newNhood ++ [thread.target])) : thread.VecsHeld held := by
  have outside : ∀ phase : Phase, phase.rewrites = false → thread.phase ≠ phase := by
    rintro _ isOutside rfl
    exact nomatch isOutside.symm.trans phase
  refine ⟨fun locking => absurd locking (outside _ rfl), fun _ => all,
    fun unlock => absurd unlock (outside _ rfl), fun unlock => absurd unlock (outside _ rfl),
    fun unlock => absurd unlock (outside _ rfl), fun _ notHeld => ?_⟩
  exact nomatch notHeld.symm.trans (Phase.vecHeld_of_rewrites phase)

/-- An operation of a phase without vec lock operations. -/
theorem keep (vecs : thread.VecsHeld held) (same : later.SameCall thread)
    (notLocking : thread.phase ≠ .lockVec) (notUnlocking : thread.phase ≠ .unlock) :
    later.VecsHeld held := by
  refine ⟨?_, ?_, ?_, ?_, ?_, ?_⟩
  all_goals rw [same.phase]
  · exact fun locking => absurd locking notLocking
  · rw [same.newNhood, same.target]
    exact vecs.rewriting
  all_goals try exact fun unlocking => absurd unlocking notUnlocking
  exact vecs.outside

/-- A call in `unlock_vec`, before it gives its target back or after that. -/
theorem unlockPhase (phase : thread.phase = .unlock) {nhood : List Nat}
    (ends : thread.newNhood = nhood ++ [thread.target])
    (all : thread.Unlocking ∧ held.Perm thread.newNhood ∨ ∃ todo, todo <:+ thread.newNhood ∧
      thread.pending = todo.map (fun id => .unlock (.vec id)) ∧ held.Perm todo.dropLast) :
    thread.VecsHeld held := by
  refine ⟨fun locking => (nomatch phase.symm.trans locking), fun rewriting => ?_,
    fun _ => ⟨nhood, ends⟩, fun _ unlocking => ?_, fun _ todo pending suffix => ?_,
    fun _ notHeld => ?_⟩
  · rw [phase] at rewriting
    cases rewriting
  · rcases all with ⟨_, perm⟩ | ⟨todo, suffix, pending, _⟩
    · exact perm
    · exact absurd unlocking (Thread.not_unlocking_of_freed ⟨todo, suffix, pending⟩)
  · rcases all with ⟨unlocking, _⟩ | ⟨other, _, sameMap, perm⟩
    · exact absurd unlocking (Thread.not_unlocking_of_freed ⟨todo, suffix, pending⟩)
    · have same : todo = other := by
        refine List.map_injective_iff.mpr (fun first second equal => ?_) (pending.symm.trans sameMap)
        rw [Op.unlock.injEq, LockKey.mk.injEq] at equal
        exact equal.2
      exact same ▸ perm
  · rw [phase] at notHeld
    cases notHeld

end Thread.VecsHeld

/-- Every call has the vec locks in hand that belong to its phase. -/
def VecsKept (state : IndexState Point Code) : Prop :=
  ∀ agent, (state.threads agent).VecsHeld (vecsInHand state.holders agent)

section Steps

variable [LinearOrder Distance] {params : IndexParams Point Code Distance}
  {state next : IndexState Point Code} {agent : Agent}

theorem vecsHeld_lock (phases : InPhases state.threads)
    (vecs : (state.threads agent).VecsHeld (vecsInHand state.holders agent)) {lock : LockKey}
    {mode : Mode} {rest : List (Op Point)}
    (pending : (state.threads agent).pending = .lock lock mode :: rest)
    (taken : state.execute params agent { state.threads agent with pending := rest }
      (.lock lock mode) = some next) :
    (next.threads agent).VecsHeld (vecsInHand next.holders agent) := by
  have allows : (state.threads agent).phase.Allows (.lock lock mode : Op Point) :=
    (phases.inPhase agent).allows _ (by rw [pending]; exact List.mem_cons_self)
  have notUnlocking : (state.threads agent).phase ≠ .unlock := by
    intro phase
    rw [phase] at allows
    exact allows
  simp only [IndexState.execute, IndexState.tryLock, Option.some.injEq] at taken
  split at taken
  · subst taken
    dsimp only
    rw [IndexState.setThread_threads_self]
    by_cases isVec : lock.table = .vecLockTable
    · obtain ⟨_, id⟩ := lock
      obtain rfl := isVec
      have phase : (state.threads agent).phase = .lockVec := by
        revert allows
        cases (state.threads agent).phase <;> simp [Phase.Allows]
      rw [vecsInHand_cons_vec]
      have before := vecs.locking phase
      have locks : (.lock (.vec id) mode : Op Point).locksVec = some id := rfl
      rw [pending, List.filterMap_cons_some locks] at before
      refine ⟨fun _ => List.perm_middle.symm.trans before, fun rewrites => ?_, fun unlocking => ?_,
        fun unlocking => ?_, fun unlocking => ?_, fun other => absurd phase other⟩
      · exact absurd (phase ▸ rewrites) (by decide)
      all_goals exact absurd unlocking notUnlocking
    · rw [vecsInHand_cons_other (.inr isVec)]
      refine vecs.keep ⟨rfl, rfl, rfl, rfl, rfl, rfl, rfl, rfl, rfl, rfl, rfl, rfl⟩ ?_ notUnlocking
      intro phase
      rw [phase] at allows
      exact isVec allows.1
  · subst taken
    rw [IndexState.setThread_threads_self]
    exact ⟨vecs.locking, vecs.rewriting, vecs.endsInTarget, vecs.unlocking, vecs.freed,
      vecs.outside⟩

/-- The unlocks of an insert: those of its ids but the last are by the holder. -/
theorem vecsHeld_unlock (phases : InPhases state.threads)
    (shape : (state.threads agent).Shape params)
    (vecs : (state.threads agent).VecsHeld (vecsInHand state.holders agent)) {lock : LockKey}
    {rest : List (Op Point)} (pending : (state.threads agent).pending = .unlock lock :: rest)
    (taken : state.execute params agent { state.threads agent with pending := rest }
      (.unlock lock) = some next) :
    (next.threads agent).VecsHeld (vecsInHand next.holders agent) := by
  have allows : (state.threads agent).phase.Allows (.unlock lock : Op Point) :=
    (phases.inPhase agent).allows _ (by rw [pending]; exact List.mem_cons_self)
  simp only [IndexState.execute, Option.some.injEq] at taken
  subst taken
  dsimp only
  rw [IndexState.setThread_threads_self]
  by_cases phase : (state.threads agent).phase = .unlock
  · obtain ⟨nhood, ends⟩ := vecs.endsInTarget phase
    rcases shape.unlocking phase with whole | ⟨todo, suffix, left⟩
    · obtain ⟨others, away, split⟩ := whole
      have before := vecs.unlocking phase ⟨others, away, split⟩
      cases others with
      | nil =>
        -- the target is given back first, and then every id of the vector
        rw [pending, List.nil_append, IndexState.unlockVec, List.cons.injEq, Op.unlock.injEq] at split
        obtain ⟨rfl, rfl⟩ := split
        refine .unlockPhase phase ends (.inr ⟨_, List.suffix_refl _, rfl, ?_⟩)
        rw [vecsInHand_release_vec]
        dsimp only
        rw [ends, List.dropLast_concat]
        refine (before.erase _).trans ?_
        rw [ends]
        exact (List.perm_append_singleton _ _).erase _ |>.trans (by rw [List.erase_cons_head])
      | cons first others =>
        obtain ⟨other, isUnlock, table⟩ := away _ List.mem_cons_self
        rw [pending, List.cons_append, List.cons.injEq] at split
        obtain ⟨rfl, rfl⟩ := split
        obtain rfl := Op.unlock.inj isUnlock
        rw [vecsInHand_release_other (.inr table)]
        exact .unlockPhase phase ends (.inl ⟨⟨others,
          fun op member => away op (List.mem_cons_of_mem _ member), rfl⟩, before⟩)
    · have before := vecs.freed phase todo left suffix
      cases todo with
      | nil => cases pending.symm.trans left
      | cons id later =>
        rw [pending, List.map_cons, List.cons.injEq, Op.unlock.injEq] at left
        obtain ⟨rfl, rfl⟩ := left
        refine .unlockPhase phase ends (.inr ⟨later, (List.suffix_cons id later).trans suffix, rfl,
          ?_⟩)
        rw [vecsInHand_release_vec]
        cases later with
        | nil => rw [List.perm_nil.mp before, List.erase_nil, List.dropLast_nil]
        | cons second later =>
          rw [List.dropLast_cons_of_ne_nil (List.cons_ne_nil _ _)] at before
          exact (before.erase id).trans (by rw [List.erase_cons_head])
  · have notVec : lock.table ≠ .vecLockTable := by
      intro table
      revert allows phase
      cases (state.threads agent).phase <;> simp [Phase.Allows, table]
    rw [vecsInHand_release_other (.inr notVec)]
    refine vecs.keep ⟨rfl, rfl, rfl, rfl, rfl, rfl, rfl, rfl, rfl, rfl, rfl, rfl⟩ ?_ phase
    intro locking
    rw [locking] at allows
    exact allows

theorem vecsHeld_execute (phases : InPhases state.threads)
    (shape : (state.threads agent).Shape params)
    (vecs : (state.threads agent).VecsHeld (vecsInHand state.holders agent)) {op : Op Point}
    {rest : List (Op Point)} (pending : (state.threads agent).pending = op :: rest)
    (taken : state.execute params agent { state.threads agent with pending := rest } op =
      some next) : (next.threads agent).VecsHeld (vecsInHand next.holders agent) := by
  have allows : (state.threads agent).phase.Allows op :=
    (phases.inPhase agent).allows op (by rw [pending]; exact List.mem_cons_self)
  by_cases isLock : ∃ lock mode, op = .lock lock mode
  · obtain ⟨lock, mode, rfl⟩ := isLock
    exact vecsHeld_lock phases vecs pending taken
  by_cases isUnlock : ∃ lock, op = .unlock lock
  · obtain ⟨lock, rfl⟩ := isUnlock
    exact vecsHeld_unlock phases shape vecs pending taken
  obtain ⟨later, threads, same, _⟩ := execute_thread taken
  have holders : next.holders = state.holders := by
    rcases execute_locks taken with ⟨_, holders⟩ | ⟨lock, mode, equal, _⟩ | ⟨lock, equal, _⟩
    · exact holders
    · exact absurd ⟨lock, mode, equal⟩ isLock
    · exact absurd ⟨lock, equal⟩ isUnlock
  rw [threads, Function.update_self, holders]
  have quiet : ∀ phase : Phase, phase = .lockVec ∨ phase = .unlock → ¬ phase.Allows op := by
    rintro _ (rfl | rfl) allowed
    · cases op <;> first | exact isLock ⟨_, _, rfl⟩ | cases allowed
    · cases op <;> first | exact isUnlock ⟨_, rfl⟩ | cases allowed
  exact vecs.keep same (fun phase => quiet _ (.inl phase) allows)
    fun phase => quiet _ (.inr phase) allows

omit [LinearOrder Distance] in
theorem vecsHeld_advance (vecs : (state.threads agent).VecsHeld (vecsInHand state.holders agent))
    (shape : (state.threads agent).Shape params)
    (pending : (state.threads agent).pending = []) {choice : Choice}
    (taken : state.advance params agent choice = some next) (notBackground : agent ≠ .bgIoThread) :
    (next.threads agent).VecsHeld (vecsInHand state.holders agent) := by
  have follows := advance_follows taken notBackground
  have plain : ∀ {thread : Thread Point}, (state.threads agent).phase ≠ .lockVec →
      (state.threads agent).phase.vecHeld = false → thread.phase ≠ .lockVec →
      thread.phase.vecHeld = false → thread.VecsHeld (vecsInHand state.holders agent) :=
    fun notLocking notHeld laterLocking laterHeld =>
      (vecs.outside notLocking notHeld).symm ▸ .plain laterLocking laterHeld
  cases IndexState.advances taken with
  | lockPages phase =>
    have empty := vecs.outside (by rw [phase]; decide) (by rw [phase]; rfl)
    rw [IndexState.setThread_threads_self, empty]
    refine ⟨fun _ => ?_, (fun equal => by cases equal), (fun equal => by cases equal),
      (fun equal => by cases equal), (fun equal => by cases equal), fun other => absurd rfl other⟩
    have keys : ∀ ids : List Nat, (ids.map fun id => (.lock (.vec id) .wr : Op Point)).filterMap
        Op.locksVec = ids := by
      intro ids
      rw [List.filterMap_map]
      exact (List.filterMap_eq_map (f := id) ▸ List.map_id ids)
    show ([] ++ (((_ : List Nat).insertionSort _).map _).filterMap _).Perm _
    rw [List.nil_append, keys]
    exact List.perm_insertionSort _ _
  | lockVec phase =>
    rw [IndexState.setThread_threads_self]
    refine .working rfl ?_
    have all := vecs.locking phase
    rwa [pending, List.filterMap_nil, List.append_nil] at all
  | plan phase | read phase | edit phase | put phase | lockIdx phase | lockPageIdx phase =>
    simp only [IndexState.mapId, IndexState.setThread, Function.update_self]
    exact .working rfl (vecs.rewriting (by rw [phase]; rfl))
  | remap phase =>
    simp only [IndexState.commitStep, IndexState.setThread, Function.update_self]
    refine .unlockPhase rfl rfl (.inl ⟨⟨_, fun op member => ?_, rfl⟩, ?_⟩)
    · rcases List.mem_append.mp member with isPage | isId
      · obtain ⟨page, _, rfl⟩ := List.mem_map.mp isPage
        exact ⟨_, rfl, (fun equal => by cases equal)⟩
      · obtain ⟨id, _, rfl⟩ := List.mem_map.mp isId
        exact ⟨_, rfl, (fun equal => by cases equal)⟩
    · exact vecs.rewriting (by rw [phase]; rfl)
  | giveBack phase | handOff phase =>
    have empty : vecsInHand state.holders agent = [] := by
      rcases shape.unlocking phase with ⟨others, _, split⟩ | ⟨todo, suffix, left⟩
      · rw [pending] at split
        simp [IndexState.unlockVec] at split
      · have before := vecs.freed phase todo left suffix
        rw [pending, List.nil_eq, List.map_eq_nil_iff] at left
        rw [left] at before
        exact List.perm_nil.mp before
    rw [phase] at follows
    have finished := List.mem_singleton.mp follows
    rw [empty]
    exact .plain (by rw [finished]; decide) (by rw [finished]; rfl)
  | writePq phase | beam phase | prune phase | beamFinish phase | alloc phase | pageLoop phase
  | pageFinish phase | pageLock phase | send phase | complete phase | pipeFinish phase =>
    rw [phase] at follows plain
    refine plain (by decide) rfl ?_ ?_
    all_goals
      revert follows
      generalize Thread.phase _ = later
      cases later <;> decide

theorem VecsKept.step (kept : VecsKept state) (phases : InPhases state.threads)
    (shapes : ∀ agent, (state.threads agent).Shape params) {action : Action Point}
    (taken : state.step params action = some next) : VecsKept next := by
  intro agent
  rcases IndexState.step_cases taken with ⟨number, request, _, _, started⟩ |
    ⟨runner, _, op, _, _, pending, ran⟩ | ⟨runner, _, _, pending, ended⟩
  · have same : next.holders = state.holders := by
      exact (IndexState.start_cases started).2 ▸ rfl
    rw [same]
    by_cases starts : agent = .caller number
    · subst starts
      obtain ⟨idle, rfl⟩ := IndexState.start_cases started
      have visits := (phases.inPhase (.caller number)).visits
      rw [idle] at visits
      have finished : (state.threads (.caller number)).phase = .finish := by
        simpa [Role.visits] using visits
      rw [(kept (.caller number)).outside (by rw [finished]; decide) (by rw [finished]; rfl)]
      dsimp only
      rw [IndexState.setThread_threads_self]
      cases request <;> exact .plain (fun equal => by cases equal) rfl
    · exact start_other started starts ▸ kept agent
  · by_cases same : agent = runner
    · exact same ▸ vecsHeld_execute phases (shapes runner) (kept runner) pending ran
    · obtain ⟨later, threads, _⟩ := execute_thread ran
      rw [threads, Function.update_of_ne same]
      rcases execute_locks ran with ⟨_, holders⟩ | ⟨lock, mode, _, _, holders⟩ |
        ⟨lock, _, _, holders⟩
      · exact holders ▸ kept agent
      · rw [holders, vecsInHand_cons_other (.inl (Ne.symm same))]
        exact kept agent
      · rw [holders, vecsInHand_release_other (.inl (Ne.symm same))]
        exact kept agent
  · have notBackground : runner ≠ .bgIoThread := by
      rintro rfl
      exact phase_of_advance ended phases.phase_of_background
    have inHand : vecsInHand next.holders agent = vecsInHand state.holders agent := by
      rcases (advance_frame ended notBackground).holders with same | ⟨_, handed⟩
      · rw [same]
      · rw [handed, vecsInHand_handOver]
    rw [inHand]
    by_cases same : agent = runner
    · exact same ▸ vecsHeld_advance (kept runner) (shapes runner) pending ended notBackground
    · rcases advance_other ended same with unchanged | ⟨_, rfl, changed⟩
      · exact unchanged ▸ kept agent
      · have finished := phases.phase_of_background
        rw [changed, (kept _).outside (by rw [finished]; decide) (by rw [finished]; rfl)]
        exact .plain (by simp only [finished]; decide) (by simp only [finished]; rfl)

/-! ### Unlocks by the holder -/

/-- The next operation is the last one of `unlock_vec`, the second unlock of the target. -/
def Thread.UnlocksAgain (thread : Thread Point) : Prop :=
  match thread.pending with
  | [.unlock lock] => lock = .vec thread.target
  | _ => False

omit [LinearOrder Distance] in
/-- Of the unlocks of vec locks the second one of a target is the only one that is not by the
holder. -/
theorem held_iff (phases : InPhases state.threads)
    (shape : (state.threads agent).Shape params)
    (vecs : (state.threads agent).VecsHeld (vecsInHand state.holders agent)) {id : Nat}
    {rest : List (Op Point)}
    (pending : (state.threads agent).pending = .unlock (.vec id) :: rest) :
    LockKey.vec id ∈ Holding.heldBy state.holders agent ↔ ¬ (state.threads agent).UnlocksAgain := by
  have phase := (unlock_vec_phase phases (by rw [pending]; exact List.mem_cons_self)).1
  obtain ⟨nhood, ends⟩ := vecs.endsInTarget phase
  rw [← mem_vecsInHand, Thread.UnlocksAgain, pending]
  rcases shape.unlocking phase with ⟨others, away, split⟩ | ⟨todo, suffix, left⟩
  · have before := vecs.unlocking phase ⟨others, away, split⟩
    cases others with
    | nil =>
      rw [pending, List.nil_append, IndexState.unlockVec, List.cons.injEq, Op.unlock.injEq,
        LockKey.mk.injEq] at split
      obtain ⟨⟨_, rfl⟩, rfl⟩ := split
      rw [before.mem_iff, ends]
      simp
    | cons first others =>
      obtain ⟨other, isUnlock, table⟩ := away _ List.mem_cons_self
      rw [pending, List.cons_append, List.cons.injEq] at split
      obtain rfl := Op.unlock.inj (split.1.trans isUnlock)
      exact absurd rfl table
  · have before := vecs.freed phase todo left suffix
    cases todo with
    | nil => cases pending.symm.trans left
    | cons first later =>
      rw [pending, List.map_cons, List.cons.injEq, Op.unlock.injEq, LockKey.mk.injEq] at left
      obtain ⟨⟨_, rfl⟩, rfl⟩ := left
      rw [before.mem_iff]
      cases later with
      | nil =>
        have last : id = (state.threads agent).target := by
          obtain ⟨earlier, split⟩ := suffix
          exact List.singleton_inj.mp (List.append_inj' (split.trans ends) rfl).2
        simp [last]
      | cons second later => simp

end Steps

section Exclusive

variable [LinearOrder Distance] {params : IndexParams Point Code Distance}
  {state next : IndexState Point Code} {agent : Agent}

/-- An unlock of a vec lock is by its holder. -/
def ReleasesOwn (state : IndexState Point Code) : Action Point → Prop
  | .call _ _ _ => True
  | .step agent _ => ∀ id rest, (state.threads agent).pending = .unlock (.vec id) :: rest →
    LockKey.vec id ∈ Holding.heldBy state.holders agent

/-- The step is not the second unlock of a target. -/
def UnlocksOnce (state : IndexState Point Code) : Action Point → Prop
  | .call _ _ _ => True
  | .step agent _ => ¬ (state.threads agent).UnlocksAgain

/-- The step is not the second unlock of a target whose vec lock another insert has taken. -/
def UnlocksNoOther (state : IndexState Point Code) : Action Point → Prop
  | .call _ _ _ => True
  | .step agent _ => (state.threads agent).UnlocksAgain →
    ∀ holding ∈ state.holders, holding.key ≠ .vec (state.threads agent).target

/-- The table has the vec locks that are held, each for writing. -/
structure VecsExclusive (state : IndexState Point Code) : Prop where
  agrees : Holding.Agrees (fun lock : LockKey => lock.table = .vecLockTable) state.locks
    state.holders
  writers : ∀ holding ∈ state.holders, holding.key.table = .vecLockTable → holding.mode = .wr

theorem VecsExclusive.unique (exclusive : VecsExclusive state) {id : Nat} {first second : Agent}
    (held : LockKey.vec id ∈ Holding.heldBy state.holders first)
    (also : LockKey.vec id ∈ Holding.heldBy state.holders second) : first = second := by
  obtain ⟨mode, one⟩ := Holding.mem_heldBy.mp held
  obtain ⟨_, two⟩ := Holding.mem_heldBy.mp also
  obtain rfl : mode = .wr := exclusive.writers _ one rfl
  exact exclusive.agrees.exclusive rfl one two

/-- A lock that nobody has is given back without effect. -/
theorem VecsExclusive.unlock_free (exclusive : VecsExclusive state) {id : Nat}
    (free : ∀ holding ∈ state.holders, holding.key ≠ .vec id) (agent : Agent) :
    state.locks.unlock (.vec id) = state.locks ∧
      Holding.release state.holders agent (.vec id) = state.holders := by
  have none : Holding.modesOf state.holders (.vec id) = [] := by
    rw [Holding.modesOf, List.map_eq_nil_iff, List.filter_eq_nil_iff]
    exact fun holding member => by simpa using free holding member
  refine ⟨?_, List.eraseP_of_forall_not fun holding member => by simp [free holding member]⟩
  have absent := (exclusive.agrees (.vec id) rfl).1
  rw [none, SparseLockTable.entryOf_nil] at absent
  rw [SparseLockTable.unlock, absent]

theorem VecsExclusive.step (exclusive : VecsExclusive state) (sound : Sound params state)
    (kept : VecsKept state) {action : Action Point} (noOther : UnlocksNoOther state action)
    (taken : state.step params action = some next) : VecsExclusive next := by
  rcases IndexState.step_cases taken with ⟨_, _, _, _, started⟩ |
    ⟨runner, _, op, rest, rfl, pending, ran⟩ | ⟨runner, _, _, _, ended⟩
  · obtain ⟨_, rfl⟩ := IndexState.start_cases started
    exact ⟨exclusive.agrees, exclusive.writers⟩
  · have allows : (state.threads runner).phase.Allows op :=
      (sound.phases.inPhase runner).allows op (by rw [pending]; exact List.mem_cons_self)
    rcases execute_locks ran with ⟨locks, holders⟩ | ⟨lock, mode, rfl, free, holders⟩ |
      ⟨lock, rfl, locks, holders⟩
    · exact ⟨locks ▸ holders ▸ exclusive.agrees, holders ▸ exclusive.writers⟩
    · refine ⟨holders ▸ exclusive.agrees.tryLock free, fun holding member isVec => ?_⟩
      rw [holders] at member
      rcases List.mem_cons.mp member with rfl | before
      · have isVec : lock.table = .vecLockTable := isVec
        show mode = .wr
        revert allows
        cases (state.threads runner).phase <;> simp [Phase.Allows, isVec]
      · exact exclusive.writers holding before isVec
    · by_cases own : lock.table = .vecLockTable → lock ∈ Holding.heldBy state.holders runner
      · refine ⟨locks ▸ holders ▸ exclusive.agrees.unlock own, fun holding member => ?_⟩
        rw [holders] at member
        exact exclusive.writers holding (List.mem_of_mem_eraseP member)
      · -- the second unlock of a target, whose lock nobody has
        rw [Classical.not_imp] at own
        obtain ⟨_, id⟩ := lock
        obtain ⟨rfl, notHeld⟩ := own
        have again : (state.threads runner).UnlocksAgain := by
          by_contra once
          exact notHeld ((held_iff sound.phases (sound.shapes runner) (kept runner) pending).mpr once)
        have target : LockKey.vec id = .vec (state.threads runner).target := by
          have same := again
          rw [Thread.UnlocksAgain, pending] at same
          cases rest with
          | nil => exact same
          | cons => exact same.elim
        have free := noOther again
        rw [← target] at free
        have same := exclusive.unlock_free free runner
        rw [same.1] at locks
        rw [same.2] at holders
        exact ⟨locks ▸ holders ▸ exclusive.agrees, holders ▸ exclusive.writers⟩
  · have notBackground : runner ≠ .bgIoThread := by
      rintro rfl
      exact phase_of_advance ended sound.phases.phase_of_background
    have frame := advance_frame ended notBackground
    rcases frame.holders with same | ⟨_, handed⟩
    · exact ⟨frame.locks ▸ same ▸ exclusive.agrees, same ▸ exclusive.writers⟩
    · have keeps : ∀ holding : Holding Agent LockKey,
          (IndexState.handOver runner holding).key = holding.key ∧
            (IndexState.handOver runner holding).mode = holding.mode := by
        intro holding
        unfold IndexState.handOver
        split <;> exact ⟨rfl, rfl⟩
      refine ⟨?_, fun holding member => ?_⟩
      · rw [frame.locks, handed]
        exact exclusive.agrees.transfer _ keeps
      · rw [handed] at member
        obtain ⟨before, inHolders, rfl⟩ := List.mem_map.mp member
        rw [(keeps before).1, (keeps before).2]
        exact exclusive.writers before inHolders

end Exclusive

theorem IndexState.Quiescent.vecsKept {state : IndexState Point Code}
    (quiescent : state.Quiescent) : VecsKept state := by
  intro agent
  have finished := quiescent.finished agent
  have empty : vecsInHand state.holders agent = [] := by
    rw [quiescent.holders]
    rfl
  rw [empty]
  exact .plain (by rw [finished]; nofun) (by rw [finished]; rfl)

theorem IndexState.Quiescent.vecsExclusive {state : IndexState Point Code}
    (quiescent : state.Quiescent) : VecsExclusive state := by
  refine ⟨?_, ?_⟩
  · rw [quiescent.locks, quiescent.holders]
    exact Holding.Agrees.empty
  · rw [quiescent.holders]
    exact nofun

section Runs

variable [LinearOrder Distance] {params : IndexParams Point Code Distance}
  {first last : IndexState Point Code}

/-- Every unlock of a vec lock on a run is by the holder exactly if no target is unlocked a second
time. A call that has returned holds no vec lock. As long as no target is unlocked a second time
while another insert has its vec lock, no vec lock has two holders. -/
theorem vec_locks_have_one_holder (params : IndexParams Point Code Distance)
    {first last : IndexState Point Code} {actions : List (Action Point)}
    (loaded : first.Loaded params)
    (replay : (updateSystem params (IndexState.Loaded params)).run first actions = some last) :
    ((updateSystem params (IndexState.Loaded params)).Along ReleasesOwn first actions ↔
      (updateSystem params (IndexState.Loaded params)).Along UnlocksOnce first actions) ∧
    (∀ agent, (last.threads agent).phase = .finish → ∀ id,
      LockKey.vec id ∉ Holding.heldBy last.holders agent) ∧
    ((updateSystem params (IndexState.Loaded params)).Along UnlocksNoOther first actions →
      ∀ id agent other, LockKey.vec id ∈ Holding.heldBy last.holders agent →
        LockKey.vec id ∈ Holding.heldBy last.holders other → agent = other) := by
  have start : Sound params first ∧ VecsKept first := ⟨loaded.sound, loaded.quiescent.vecsKept⟩
  have keep : ∀ (guard : IndexState Point Code → Action Point → Prop)
      (before : IndexState Point Code) (action : Action Point) (after : IndexState Point Code),
      Sound params before ∧ VecsKept before → guard before action →
        before.step params action = some after → Sound params after ∧ VecsKept after :=
    fun _ _ _ _ both _ taken =>
      ⟨both.1.step taken, both.2.step both.1.phases both.1.shapes taken⟩
  refine ⟨⟨fun own => own.imply _ (keep _) (fun before action both released => ?_) start,
    fun once => once.imply _ (keep _) (fun before action both single => ?_) start⟩,
    fun agent finished id held => ?_, fun noOther id agent other held also => ?_⟩
  · cases action with
    | call => trivial
    | step agent choice =>
      intro again
      have whole := again
      rw [Thread.UnlocksAgain] at whole
      split at whole
      · rename_i lock pending
        obtain rfl := whole
        exact (held_iff both.1.phases (both.1.shapes agent) (both.2 agent) pending).mp
          (released _ _ pending) again
      · exact whole
  · cases action with
    | call => trivial
    | step agent choice =>
      intro id rest pending
      exact (held_iff both.1.phases (both.1.shapes agent) (both.2 agent) pending).mpr single
  · have both := Transition.System.along_anyStep.carries
      (fun state => Sound params state ∧ VecsKept state) (keep _) replay start
    rw [← mem_vecsInHand, (both.2 agent).outside (by rw [finished]; nofun)
      (by rw [finished]; rfl)] at held
    cases held
  · have exclusive : (Sound params last ∧ VecsKept last) ∧ VecsExclusive last := by
      refine noOther.carries (fun state => (Sound params state ∧ VecsKept state) ∧
        VecsExclusive state) (fun before action after all single taken => ?_) replay
        ⟨start, loaded.quiescent.vecsExclusive⟩
      exact ⟨keep _ before action after all.1 single taken,
        all.2.step all.1.1 all.1.2 single taken⟩
    exact exclusive.2.unique held also

end Runs

instance (thread : Thread Point) : Decidable thread.UnlocksAgain :=
  match h : thread.pending with
  | [.unlock lock] => decidable_of_iff (lock = .vec thread.target)
      (by rw [Thread.UnlocksAgain, h])
  | [] | .lock .. :: _ | .unlock _ :: _ :: _ | .locate _ :: _ | .readFrontier :: _
  | .snapshot _ :: _ | .planNeighbor .. :: _ | .readPage .. :: _ | .writeTarget :: _
  | .writeNeighbor .. :: _ | .putPage .. :: _ | .remap .. :: _ | .sendRead _ :: _
  | .writeDisk .. :: _ => isFalse (by rw [Thread.UnlocksAgain, h]; exact id)

instance (state : IndexState Point Code) (action : Action Point) :
    Decidable (UnlocksNoOther state action) :=
  match action with
  | .call _ _ _ => inferInstanceAs (Decidable True)
  | .step agent _ => inferInstanceAs (Decidable ((state.threads agent).UnlocksAgain →
      ∀ holding ∈ state.holders, holding.key ≠ .vec (state.threads agent).target))

/-- An insert holds the vec locks of its neighbour and its target, while another one waits for the
neighbour. -/
theorem vec_locks_have_one_holder_overlappingInserts : ¬ ∃ other, .caller 0 ≠ other ∧
    LockKey.vec 0 ∈ Holding.heldBy ((updateSystem smallParams (IndexState.Loaded smallParams)).after
      smallIndex (overlappingInserts.take 26)).holders other := by
  rintro ⟨other, different, held⟩
  have replays : ((updateSystem smallParams (IndexState.Loaded smallParams)).run smallIndex
      (overlappingInserts.take 26)).isSome := by
    decide +kernel
  obtain ⟨-, -, alone⟩ := vec_locks_have_one_holder smallParams smallIndex_loaded.loaded
    (Transition.System.run_after replays)
  exact different (alone (by decide +kernel) 0 (.caller 0) other (by decide +kernel) held)

/-- An insert of a point with the neighbour 2, up to its vec locks. -/
def insertNextToTwo (number : Nat) : List (Action Nat) :=
  [.call number (.insertInPlace (100 + number) (100 + number)) fun _ _ => ⟨0, []⟩,
    .step (.caller number) .go, .step (.caller number) (.frontier [2])] ++
    List.replicate 4 (.step (.caller number) .go) ++ .step (.caller number) (.prune [2]) ::
    List.replicate 5 (.step (.caller number) .go)

/-- The first insert gives the vec lock of its target back, the second one takes it, the first one
gives it back again, and the third one takes it. -/
def threeInserts : List (Action Nat) :=
  smallInsert.take 37 ++ insertNextToTwo 1 ++ [.step (.caller 0) .go] ++ insertNextToTwo 2

/-- Two inserts hold the vec lock of one neighbour, and an insert unlocks a lock it does not
hold. -/
theorem two_inserts_hold_one_vec_lock :
    ¬ ∀ actions last, (updateSystem smallParams (IndexState.Loaded smallParams)).run smallIndex
        actions = some last →
      (updateSystem smallParams (IndexState.Loaded smallParams)).Along ReleasesOwn smallIndex
          actions ∧
        ∀ id agent other, LockKey.vec id ∈ Holding.heldBy last.holders agent →
          LockKey.vec id ∈ Holding.heldBy last.holders other → agent = other := by
  intro single
  have replays : ((updateSystem smallParams (IndexState.Loaded smallParams)).run smallIndex
      threeInserts).isSome := by
    decide +kernel
  have runs := Transition.System.run_after replays
  exact absurd ((single _ _ runs).2 2 (.caller 1) (.caller 2) (by decide +kernel)
    (by decide +kernel)) (by decide)

end OdinVector
