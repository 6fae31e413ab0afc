/-
This file proves what the locks of the update path exclude. An insert that maps
ids holds their idx locks for writing, and an insert that writes pages holds
their page locks for writing, so no two inserts do so at once with one id or one
page. The vec locks are given back twice, so they exclude less; they still keep
every other insert from taking a target as a neighbour to rewrite before the
insert of the target has committed.
-/

import OdinVector.Update.Discipline
import OdinVector.Update.Shapes
import OdinVector.Reservations

namespace OdinVector

variable {Point Code Distance : Type}

/-! ### The reservation of a call -/

/-- How far a call in a phase is with the maps. -/
def Phase.stage : Phase → Stage
  | .writePq | .beam => .searching
  | .alloc => .chosen
  | .lockPages | .lockVec | .plan | .read | .edit | .put => .reserved
  | .lockIdx | .lockPageIdx => .published
  | .remap => .moving
  | _ => .committed

/-- What an insert has to do with the maps. -/
def Thread.reservation (thread : Thread Point) : Option Reservation :=
  if thread.role = .insertInPlace then
    some ⟨thread.phase.stage, thread.target, thread.newNhood, thread.locs, thread.origLocs⟩
  else none

/-- The maps of an index and what its inserts do with them. -/
def IndexState.maps (state : IndexState Point Code) : MapState Agent where
  layout := state.layout
  curId := state.curId
  inserts agent := (state.threads agent).reservation

theorem Thread.reservation_eq {thread : Thread Point} (role : thread.role = .insertInPlace) :
    thread.reservation =
      some ⟨thread.phase.stage, thread.target, thread.newNhood, thread.locs, thread.origLocs⟩ :=
  if_pos role

/-! ### Locks held for writing -/

/-- The lock tables agree with the holdings, vec locks apart, and an insert past its search
holds its locks for writing. -/
structure Exclusion (state : IndexState Point Code) : Prop where
  agrees : Holding.Agrees (fun lock : LockKey => lock.table ≠ .vecLockTable) state.locks
    state.holders
  writers : ∀ holding ∈ state.holders, (state.threads holding.agent).role = .insertInPlace →
    (state.threads holding.agent).phase ≠ .beam → holding.mode = .wr

/-- A lock that is owed is in hand or pending. -/
theorem KeepsRules.held_of_owed {threads : Agent → Thread Point}
    {holders : List (Holding Agent LockKey)} (keeps : KeepsRules threads holders) {agent : Agent}
    {lock : LockKey} (owed : lock ∈ (threads agent).owed) :
    lock ∈ Holding.heldBy holders agent ∨ ∃ mode, .lock lock mode ∈ (threads agent).pending := by
  obtain ⟨before, after, split⟩ := List.append_of_mem owed
  have own := keeps agent
  rw [Thread.program, split, List.map_append, List.map_cons] at own
  simp only [List.append_assoc, List.cons_append] at own
  rw [← List.cons_append, ← List.append_assoc] at own
  rcases own.inHand ((threads agent).owed_owned _ lock owed) with inHand | acquired
  · exact .inl inHand
  · refine .inr ?_
    simp only [List.mem_append, List.mem_cons, List.mem_map, reduceCtorEq, and_false,
      exists_false, or_false] at acquired
    obtain ⟨op, pending, instruction⟩ := acquired
    cases op with
    | lock key mode =>
      rw [Op.instruction, LockOrder.Instruction.acquire.injEq] at instruction
      exact ⟨mode, instruction ▸ pending⟩
    | _ => cases instruction

namespace Exclusion

variable {state next : IndexState Point Code} {agent : Agent}

/-- Two agents hold a lock at once only when neither is an insert past its search. -/
theorem unique (exclusion : Exclusion state) {lock : LockKey} (notVec : lock.table ≠ .vecLockTable)
    {other : Agent} (role : (state.threads agent).role = .insertInPlace)
    (phase : (state.threads agent).phase ≠ .beam)
    (held : lock ∈ Holding.heldBy state.holders agent)
    (also : lock ∈ Holding.heldBy state.holders other) : agent = other := by
  obtain ⟨mode, first⟩ := Holding.mem_heldBy.mp held
  obtain ⟨otherMode, second⟩ := Holding.mem_heldBy.mp also
  obtain rfl : mode = .wr := exclusion.writers _ first role phase
  exact exclusion.agrees.exclusive notVec first second

/-- The holdings of an agent that goes on in its phase, or to one past the search. -/
theorem writers_of_later (exclusion : Exclusion state) {holding : Holding Agent LockKey}
    (old : holding ∈ state.holders)
    (role : (next.threads holding.agent).role = .insertInPlace →
      (state.threads holding.agent).role = .insertInPlace)
    (phase : (next.threads holding.agent).phase ≠ .beam →
      (state.threads holding.agent).phase ≠ .beam) :
    (next.threads holding.agent).role = .insertInPlace →
      (next.threads holding.agent).phase ≠ .beam → holding.mode = .wr :=
  fun isInsert notBeam => exclusion.writers holding old (role isInsert) (phase notBeam)

variable [LinearOrder Distance] {params : IndexParams Point Code Distance}

theorem execute (exclusion : Exclusion state) (phases : InPhases state.threads)
    (keeps : KeepsRules state.threads state.holders) {op : Op Point} {rest : List (Op Point)}
    (pending : (state.threads agent).pending = op :: rest)
    (taken : state.execute params agent { state.threads agent with pending := rest } op =
      some next) : Exclusion next := by
  have allows : (state.threads agent).phase.Allows op :=
    (phases.inPhase agent).allows op (by rw [pending]; exact List.mem_cons_self)
  obtain ⟨later, threads, same, _⟩ := execute_thread taken
  have calls : ∀ other, (next.threads other).role = (state.threads other).role ∧
      (next.threads other).phase = (state.threads other).phase := by
    intro other
    by_cases here : other = agent
    · subst here
      rw [threads, Function.update_self]
      exact ⟨same.role, same.phase⟩
    · rw [threads, Function.update_of_ne here]
      exact ⟨rfl, rfl⟩
  have old : ∀ holding ∈ state.holders, (next.threads holding.agent).role = .insertInPlace →
      (next.threads holding.agent).phase ≠ .beam → holding.mode = .wr := fun holding member =>
    exclusion.writers_of_later member (fun role => (calls _).1 ▸ role)
      fun phase => (calls _).2 ▸ phase
  rcases execute_locks taken with ⟨locks, holders⟩ | ⟨lock, mode, rfl, free, holders⟩ |
    ⟨lock, rfl, locks, holders⟩
  · refine ⟨?_, fun holding member => old holding (holders ▸ member)⟩
    rw [locks, holders]
    exact exclusion.agrees
  · refine ⟨?_, fun holding member => ?_⟩
    · rw [holders]
      exact exclusion.agrees.tryLock free
    · rw [holders] at member
      rcases List.mem_cons.mp member with rfl | before
      · intro role notBeam
        show mode = .wr
        have isInsert : (state.threads agent).role = .insertInPlace := (calls agent).1 ▸ role
        have searched : (state.threads agent).phase ≠ .beam := (calls agent).2 ▸ notBeam
        have visits := (phases.inPhase agent).visits
        rw [isInsert] at visits
        cases phase : (state.threads agent).phase <;> simp_all [Phase.Allows, Role.visits]
      · exact old holding before
  · have own := keeps agent
    rw [Thread.program, pending] at own
    refine ⟨?_, fun holding member => ?_⟩
    · rw [locks, holders]
      exact exclusion.agrees.unlock fun owned => own.1 owned
    · rw [holders] at member
      exact old holding (List.mem_of_mem_eraseP member)

omit [LinearOrder Distance] in
theorem start (exclusion : Exclusion state) (phases : InPhases state.threads)
    (keeps : KeepsRules state.threads state.holders) {number : Nat} {request : Request Point}
    {buffer : Nat → PageImage Point} (taken : state.start number request buffer = some next) :
    Exclusion next := by
  have kept : ∀ other, other ≠ .caller number → next.threads other = state.threads other :=
    fun _ different => start_other taken different
  obtain ⟨idle, rfl⟩ := IndexState.start_cases taken
  refine ⟨exclusion.agrees, fun holding member => ?_⟩
  by_cases starting : holding.agent = .caller number
  · have held : holding.key ∈ Holding.heldBy state.holders (.caller number) :=
      Holding.mem_heldBy.mpr ⟨holding.mode, by rw [← starting]; exact member⟩
    rw [phases.heldBy_idle keeps idle] at held
    cases held
  · rw [kept holding.agent starting]
    exact exclusion.writers holding member

omit [LinearOrder Distance] in
theorem advance (exclusion : Exclusion state) (phases : InPhases state.threads)
    (keeps : KeepsRules state.threads state.holders) {choice : Choice}
    (pending : (state.threads agent).pending = [])
    (taken : state.advance params agent choice = some next) : Exclusion next := by
  have notBackground : agent ≠ .bgIoThread := by
    rintro rfl
    exact phase_of_advance taken phases.phase_of_background
  have frame := advance_frame taken notBackground
  have empty : (state.threads agent).role = .insertInPlace → (state.threads agent).phase = .beam →
      Holding.heldBy state.holders agent = [] := by
    intro role phase
    have own := keeps agent
    rw [Thread.program, pending, Thread.floor, if_neg (by rw [role]; decide), phase] at own
    refine List.eq_nil_iff_forall_not_mem.mpr fun lock member => ?_
    exact Nat.not_lt_zero _
      (LockKey.level_lt_floor.mp (own.1 (by rw [role]; rintro ⟨⟩) lock member))
  have old : ∀ holding ∈ state.holders, (next.threads holding.agent).role = .insertInPlace →
      (next.threads holding.agent).phase ≠ .beam → holding.mode = .wr := by
    intro holding member role notBeam
    by_cases here : holding.agent = agent
    · have held : holding.key ∈ Holding.heldBy state.holders agent :=
        Holding.mem_heldBy.mpr ⟨holding.mode, by rw [← here]; exact member⟩
      rw [here, frame.role] at role
      refine exclusion.writers holding member (here ▸ role) fun searching => ?_
      rw [empty role (here ▸ searching)] at held
      cases held
    · rcases advance_other taken here with kept | ⟨_, background, kept⟩
      · rw [kept] at role notBeam
        exact exclusion.writers holding member role notBeam
      · have isBackground : (state.threads holding.agent).role = .bgIo :=
          (phases.background _).mpr background
        rw [kept] at role
        cases isBackground.symm.trans role
  rcases frame.holders with same | ⟨_, handed⟩
  · exact ⟨by rw [frame.locks, same]; exact exclusion.agrees, fun holding member =>
      old holding (same ▸ member)⟩
  · refine ⟨?_, fun holding member => ?_⟩
    · rw [frame.locks, handed]
      refine exclusion.agrees.transfer _ fun holding => ?_
      unfold IndexState.handOver
      split <;> exact ⟨rfl, rfl⟩
    · rw [handed] at member
      obtain ⟨before, inHolders, rfl⟩ := List.mem_map.mp member
      unfold IndexState.handOver
      split
      · intro role _
        have isBackground : (next.threads .bgIoThread).role = .bgIo := by
          rcases advance_other taken notBackground.symm with kept | ⟨_, _, kept⟩
          all_goals
            rw [kept]
            exact (phases.background _).mpr rfl
        cases isBackground.symm.trans role
      · exact old before inHolders

theorem step (exclusion : Exclusion state) (phases : InPhases state.threads)
    (keeps : KeepsRules state.threads state.holders) {action : Action Point}
    (taken : state.step params action = some next) : Exclusion next := by
  rcases IndexState.step_cases taken with ⟨_, _, _, _, started⟩ | ⟨_, _, _, _, _, pending, ran⟩ |
    ⟨_, _, _, pending, ended⟩
  · exact exclusion.start phases keeps started
  · exact exclusion.execute phases keeps pending ran
  · exact exclusion.advance phases keeps pending ended

end Exclusion

theorem IndexState.Quiescent.exclusion {state : IndexState Point Code}
    (quiescent : state.Quiescent) : Exclusion state := by
  refine ⟨?_, ?_⟩
  · rw [quiescent.locks, quiescent.holders]
    exact Holding.Agrees.empty
  · rw [quiescent.holders]
    exact nofun

/-! ### The vec locks of targets -/

/-- The phases of an insert between `lock_vec` and the end of `unlock_vec`. -/
def Phase.vecHeld : Phase → Bool
  | .plan | .read | .edit | .put | .lockIdx | .lockPageIdx | .remap | .unlock => true
  | _ => false

/-- The insert has taken the vec lock of the id in `lock_vec`. -/
def Thread.PassedVec (thread : Thread Point) (id : Nat) : Prop :=
  thread.phase = .lockVec ∧ .lock (.vec id) .wr ∉ thread.pending ∨ thread.phase.vecHeld

/-- The insert has taken the vec lock of its target and not begun to give it back. -/
def Thread.Guards (thread : Thread Point) : Prop :=
  thread.role = .insertInPlace ∧ thread.PassedVec thread.target ∧
    (thread.phase = .unlock → thread.Unlocking)

/-- The insert rewrites the id. -/
def Thread.Rewrites (thread : Thread Point) (id : Nat) : Prop :=
  thread.role = .insertInPlace ∧ id ∈ thread.newNhood ∧ thread.PassedVec id

/-- The insert has begun to give back the vec lock of its target. -/
def Thread.Released (thread : Thread Point) : Prop :=
  thread.phase = .finish ∨ thread.phase = .unlock ∧ thread.TargetFreed

/-- The vec lock of a target is held until its insert gives it back, and no other insert
rewrites the target before. -/
structure VecTargets (state : IndexState Point Code) : Prop where
  locked : ∀ agent, (state.threads agent).Guards → ∃ entry,
    state.locks (.vec (state.threads agent).target) = some entry ∧ entry.lock.writer = true
  alone : ∀ agent other, other ≠ agent → (state.threads agent).role = .insertInPlace →
    (state.threads other).Rewrites (state.threads agent).target → (state.threads agent).Released

theorem Thread.not_unlocking_of_freed {thread : Thread Point} (freed : thread.TargetFreed) :
    ¬ thread.Unlocking := by
  rintro ⟨others, _, shape⟩
  obtain ⟨todo, suffix, pending⟩ := freed
  have lengths := congrArg List.length (pending.symm.trans shape)
  have short := suffix.length_le
  simp only [IndexState.unlockVec, List.length_append, List.length_map, List.length_cons] at lengths
  omega

theorem Thread.Guards.not_released {thread : Thread Point} (guards : thread.Guards) :
    ¬ thread.Released := by
  rintro (finished | ⟨unlocking, freed⟩)
  · rcases guards.2.1 with ⟨locking, _⟩ | held
    · exact nomatch finished.symm.trans locking
    · rw [finished] at held
      cases held
  · exact Thread.not_unlocking_of_freed freed (guards.2.2 unlocking)

/-- The neighbours an insert rewrites are chosen. -/
theorem Thread.PassedVec.chosen {thread : Thread Point} {id : Nat} (passed : thread.PassedVec id) :
    thread.phase.stage ≠ .searching := by
  rcases passed with ⟨locking, _⟩ | held
  · rw [locking]
    nofun
  · cases phase : thread.phase <;> simp_all [Phase.vecHeld, Phase.stage]

section VecTargets

variable [LinearOrder Distance] {params : IndexParams Point Code Distance}
  {state next : IndexState Point Code} {agent : Agent}

theorem passedVec_execute {op : Op Point} {rest : List (Op Point)}
    (pending : (state.threads agent).pending = op :: rest)
    (taken : state.execute params agent { state.threads agent with pending := rest } op =
      some next) {id : Nat} (passed : (next.threads agent).PassedVec id) :
    (state.threads agent).PassedVec id ∨ (state.threads agent).phase = .lockVec ∧
      state.locks.tryLock (.vec id) .wr = some next.locks := by
  obtain ⟨later, threads, same, left⟩ := execute_thread taken
  rw [threads, Function.update_self] at passed
  rcases passed with ⟨locking, absent⟩ | held
  · rw [same.phase] at locking
    by_cases isLock : op = .lock (.vec id) .wr
    · rcases left with ⟨_, locked⟩ | ⟨_, _, _, kept, _⟩
      · exact .inr ⟨locking, locked _ _ isLock⟩
      · rw [kept, pending, isLock] at absent
        exact absurd List.mem_cons_self absent
    · refine .inl (.inl ⟨locking, ?_⟩)
      rcases left with ⟨popped, _⟩ | ⟨_, _, _, kept, _⟩
      · rw [pending, List.mem_cons, not_or]
        exact ⟨Ne.symm isLock, popped ▸ absent⟩
      · exact kept ▸ absent
  · rw [same.phase] at held
    exact .inl (.inr held)

omit [LinearOrder Distance] in
/-- Another insert does not get the vec lock of a target that is not given back. -/
theorem VecTargets.blocked (targets : VecTargets state) (phases : InPhases state.threads)
    (shapes : ∀ agent, (state.threads agent).Shape params)
    (tracked : state.maps.Tracked params.geometry) {other : Agent}
    (role : (state.threads agent).role = .insertInPlace)
    (unreleased : ¬ (state.threads agent).Released)
    (otherRole : (state.threads other).role = .insertInPlace)
    (locking : (state.threads other).phase = .lockVec)
    (member : (state.threads agent).target ∈ (state.threads other).newNhood) :
    state.locks.tryLock (.vec (state.threads agent).target) .wr = none := by
  have known := (tracked.valid other _ (Thread.reservation_eq otherRole)).known
    (by simp only [locking]; nofun) _ member
  have published : ¬ (state.threads agent).phase.stage.Unpublished := fun early =>
    known ((tracked.valid agent _ (Thread.reservation_eq role)).unmapped early)
  have visits := (phases.inPhase agent).visits
  rw [role] at visits
  have guards : (state.threads agent).Guards := by
    refine ⟨role, .inr ?_, fun unlocking => ?_⟩
    · cases phase : (state.threads agent).phase <;>
        simp_all [Phase.stage, Stage.Unpublished, Role.visits, Phase.vecHeld, Thread.Released]
    · exact ((shapes agent).unlocking unlocking).resolve_right fun freed =>
        unreleased (.inr ⟨unlocking, freed⟩)
  obtain ⟨entry, present, writer⟩ := targets.locked agent guards
  exact SparseLockTable.tryLock_of_writer present writer .wr

/-- Only the last phase of an insert unlocks vec locks. -/
theorem unlock_vec_phase (phases : InPhases state.threads) {id : Nat}
    (member : .unlock (.vec id) ∈ (state.threads agent).pending) :
    (state.threads agent).phase = .unlock ∧ (state.threads agent).role = .insertInPlace := by
  have allows := (phases.inPhase agent).allows _ member
  have unlocking : (state.threads agent).phase = .unlock := by
    cases phase : (state.threads agent).phase <;> simp_all [Phase.Allows]
  exact ⟨unlocking, (phases.inPhase agent).isInsert (by rw [unlocking]; decide)⟩

section Execute

variable {op : Op Point} {rest : List (Op Point)}

/-- An unlock of an insert goes on with the unlocks that are left. -/
theorem unlocking_execute (phases : InPhases state.threads)
    (pending : (state.threads agent).pending = op :: rest)
    (taken : state.execute params agent { state.threads agent with pending := rest } op =
      some next) (unlocking : (state.threads agent).phase = .unlock)
    (shape : (state.threads agent).Unlocking ∨ (state.threads agent).TargetFreed) :
    (∃ lock : LockKey, op = .unlock lock ∧ lock.table ≠ .vecLockTable ∧
        (state.threads agent).Unlocking ∧ (next.threads agent).Unlocking) ∨
      (op = .unlock (.vec (state.threads agent).target) ∧ (state.threads agent).Unlocking ∧
        (next.threads agent).TargetFreed) ∨
      ∃ id ∈ (state.threads agent).newNhood, op = .unlock (.vec id) ∧
        (state.threads agent).TargetFreed ∧ (next.threads agent).TargetFreed := by
  obtain ⟨later, threads, same, left⟩ := execute_thread taken
  have allows : Phase.unlock.Allows op := by
    rw [← unlocking]
    exact (phases.inPhase agent).allows op (by rw [pending]; exact List.mem_cons_self)
  have popped : later.pending = rest := by
    refine (left.resolve_right ?_).1
    rintro ⟨_, _, rfl, _⟩
    exact allows
  rw [threads, Function.update_self]
  exact Thread.unlocking_step same.target same.newNhood pending popped shape

theorem phase_execute
    (taken : state.execute params agent { state.threads agent with pending := rest } op =
      some next) (other : Agent) :
    (next.threads other).role = (state.threads other).role ∧
      (next.threads other).phase = (state.threads other).phase ∧
        (next.threads other).target = (state.threads other).target ∧
          (next.threads other).newNhood = (state.threads other).newNhood := by
  obtain ⟨later, threads, same, _⟩ := execute_thread taken
  by_cases runs : other = agent
  · rw [runs, threads, Function.update_self]
    exact ⟨same.role, same.phase, same.target, same.newNhood⟩
  · rw [threads, Function.update_of_ne runs]
    exact ⟨rfl, rfl, rfl, rfl⟩

/-- An insert that has begun to give back its target goes on to. -/
theorem released_execute (phases : InPhases state.threads)
    (pending : (state.threads agent).pending = op :: rest)
    (taken : state.execute params agent { state.threads agent with pending := rest } op =
      some next) {other : Agent} (released : (state.threads other).Released) :
    (next.threads other).Released := by
  by_cases runs : other = agent
  · subst runs
    have phase := (phase_execute taken other).2.1
    rcases released with finished | ⟨unlocking, freed⟩
    · exact .inl (phase.trans finished)
    · refine .inr ⟨phase.trans unlocking, ?_⟩
      rcases unlocking_execute phases pending taken unlocking (.inr freed) with
        ⟨_, _, _, still, _⟩ | ⟨_, still, _⟩ | ⟨_, _, _, _, after⟩
      · exact absurd still (Thread.not_unlocking_of_freed freed)
      · exact absurd still (Thread.not_unlocking_of_freed freed)
      · exact after
  · obtain ⟨later, threads, _⟩ := execute_thread taken
    rwa [threads, Function.update_of_ne runs]

/-- An insert rewrites an id from when it gets the vec lock. -/
theorem rewrites_execute (pending : (state.threads agent).pending = op :: rest)
    (taken : state.execute params agent { state.threads agent with pending := rest } op =
      some next) {other : Agent} {id : Nat} (rewrites : (next.threads other).Rewrites id) :
    (state.threads other).Rewrites id ∨
      other = agent ∧ (state.threads other).role = .insertInPlace ∧
        id ∈ (state.threads other).newNhood ∧ (state.threads other).phase = .lockVec ∧
          state.locks.tryLock (.vec id) .wr = some next.locks := by
  obtain ⟨role, member, passed⟩ := rewrites
  obtain ⟨sameRole, -, -, sameNhood⟩ := phase_execute taken other
  rw [sameRole] at role
  rw [sameNhood] at member
  by_cases runs : other = agent
  · subst runs
    exact (passedVec_execute pending taken passed).imp (fun before => ⟨role, member, before⟩)
      fun ⟨locking, locked⟩ => ⟨rfl, role, member, locking, locked⟩
  · obtain ⟨later, threads, _⟩ := execute_thread taken
    rw [threads, Function.update_of_ne runs] at passed
    exact .inl ⟨role, member, passed⟩

/-- An insert guards its target from when it gets the vec lock. -/
theorem guards_execute (phases : InPhases state.threads)
    (shapes : ∀ agent, (state.threads agent).Shape params)
    (pending : (state.threads agent).pending = op :: rest)
    (taken : state.execute params agent { state.threads agent with pending := rest } op =
      some next) {other : Agent} (guards : (next.threads other).Guards) :
    (state.threads other).Guards ∨
      state.locks.tryLock (.vec (state.threads other).target) .wr = some next.locks := by
  by_cases runs : other = agent
  · subst runs
    obtain ⟨sameRole, samePhase, sameTarget, -⟩ := phase_execute taken other
    have unreleased := guards.not_released
    obtain ⟨role, passed, whole⟩ := guards
    rw [sameTarget] at passed
    rw [sameRole] at role
    refine (passedVec_execute pending taken passed).imp
      (fun before => ⟨role, before, fun unlocking => ?_⟩) And.right
    refine ((shapes other).unlocking unlocking).resolve_right fun freed => unreleased ?_
    exact released_execute phases pending taken (.inr ⟨unlocking, freed⟩)
  · obtain ⟨later, threads, _⟩ := execute_thread taken
    rw [threads, Function.update_of_ne runs] at guards
    exact .inl guards

/-- A target that is unlocked is given back by its insert. -/
theorem VecTargets.released_of_unlock (targets : VecTargets state) (phases : InPhases state.threads)
    (shapes : ∀ agent, (state.threads agent).Shape params)
    (tracked : state.maps.Tracked params.geometry) {other : Agent}
    (pending : (state.threads agent).pending =
      .unlock (.vec (state.threads other).target) :: rest)
    (taken : state.execute params agent { state.threads agent with pending := rest }
      (.unlock (.vec (state.threads other).target)) = some next)
    (role : (state.threads other).role = .insertInPlace) : (next.threads other).Released := by
  have unlocks : .unlock (.vec (state.threads other).target) ∈ (state.threads agent).pending := by
    rw [pending]
    exact List.mem_cons_self
  obtain ⟨unlocking, isInsert⟩ := unlock_vec_phase phases unlocks
  rcases unlocking_execute phases pending taken unlocking ((shapes agent).unlocking unlocking) with
    ⟨lock, equal, table, _, _⟩ | ⟨equal, _, freed⟩ | ⟨id, member, equal, freed, _⟩
  · rw [Op.unlock.injEq] at equal
    exact absurd (equal ▸ rfl) table
  · -- the first unlock of `unlock_vec` is that of the own target
    rw [Op.unlock.injEq, LockKey.mk.injEq] at equal
    obtain rfl := tracked.targets other agent _ _ (Thread.reservation_eq role)
      (Thread.reservation_eq isInsert) equal.2
    exact .inr ⟨(phase_execute taken other).2.1.trans unlocking, freed⟩
  · rw [Op.unlock.injEq, LockKey.mk.injEq] at equal
    refine released_execute phases pending taken ?_
    by_cases runs : other = agent
    · exact runs ▸ .inr ⟨unlocking, freed⟩
    · refine targets.alone other agent (Ne.symm runs) role ⟨isInsert, ?_, .inr ?_⟩
      · rw [equal.2]
        exact member
      · rw [unlocking]
        rfl

theorem VecTargets.execute (targets : VecTargets state) (phases : InPhases state.threads)
    (shapes : ∀ agent, (state.threads agent).Shape params)
    (tracked : state.maps.Tracked params.geometry)
    (pending : (state.threads agent).pending = op :: rest)
    (taken : state.execute params agent { state.threads agent with pending := rest } op =
      some next) : VecTargets next := by
  refine ⟨fun other guards => ?_, fun first second different role rewriting => ?_⟩
  · rw [(phase_execute taken other).2.2.1]
    rcases guards_execute phases shapes pending taken guards with before | locked
    · obtain ⟨entry, present, writer⟩ := targets.locked other before
      rcases execute_locks taken with ⟨locks, _⟩ | ⟨lock, mode, _, locked, _⟩ |
        ⟨lock, rfl, locks, _⟩
      · exact ⟨entry, locks ▸ present, writer⟩
      · refine ⟨entry, (SparseLockTable.tryLock_other locked ?_).trans present, writer⟩
        rintro rfl
        exact nomatch locked.symm.trans (SparseLockTable.tryLock_of_writer present writer mode)
      · refine ⟨entry, ?_, writer⟩
        rw [locks, SparseLockTable.unlock_other, present]
        rintro rfl
        exact guards.not_released
          (targets.released_of_unlock phases shapes tracked pending taken before.1)
    · exact SparseLockTable.writer_of_tryLock locked
  · obtain ⟨sameRole, -, sameTarget, -⟩ := phase_execute taken first
    rw [sameRole] at role
    rw [sameTarget] at rewriting
    refine released_execute phases pending taken ?_
    rcases rewrites_execute pending taken rewriting with
      already | ⟨rfl, secondRole, member, locking, locked⟩
    · exact targets.alone first second different role already
    · by_contra unreleased
      have blocked := targets.blocked phases shapes tracked role unreleased secondRole locking
        member
      exact nomatch locked.symm.trans blocked

end Execute

omit [LinearOrder Distance] in
/-- The end of a phase does not take a vec lock. -/
theorem passedVec_advance {choice : Choice} (phases : InPhases state.threads)
    (role : (state.threads agent).role = .insertInPlace)
    (pending : (state.threads agent).pending = [])
    (taken : state.advance params agent choice = some next) {id : Nat}
    (passed : (next.threads agent).PassedVec id)
    (member : id ∈ (next.threads agent).newNhood ∨ id = (next.threads agent).target) :
    (state.threads agent).PassedVec id ∧ (state.threads agent).phase ≠ .unlock ∧
      (id ∈ (state.threads agent).newNhood ∨ id = (state.threads agent).target) := by
  have notBackground : agent ≠ .bgIoThread := by
    rintro rfl
    exact phase_of_advance taken phases.phase_of_background
  have outside : ∀ {thread : Thread Point}, thread.phase ≠ .lockVec →
      thread.phase.vecHeld = false → ¬ thread.PassedVec id := by
    rintro thread notLocking notHeld (⟨locking, _⟩ | held)
    · exact notLocking locking
    · rw [notHeld] at held
      cases held
  have visits := (phases.inPhase agent).visits
  rw [role] at visits
  cases IndexState.advances taken with
  | writePq | prune | beamFinish | alloc | giveBack =>
    simp only [IndexState.setThread_threads_self] at passed
    exact absurd passed (outside (fun equal => by cases equal) rfl)
  | beam phase =>
    rw [IndexState.setThread_threads_self] at passed
    exact absurd passed (outside (by rw [phase]; decide) (by rw [phase]; rfl))
  | lockPages =>
    rw [IndexState.setThread_threads_self] at passed member
    rcases passed with ⟨_, absent⟩ | held
    · refine absurd (List.mem_map.mpr ⟨id, ?_, rfl⟩) absent
      rw [List.mem_insertionSort, List.mem_append, List.mem_singleton]
      exact member
    · cases held
  | lockVec phase =>
    rw [IndexState.setThread_threads_self] at member
    exact ⟨.inl ⟨phase, pending ▸ List.not_mem_nil⟩, by rw [phase]; decide, member⟩
  | plan phase | read phase | edit phase | put phase | lockIdx phase | lockPageIdx phase =>
    simp only [IndexState.mapId, IndexState.setThread, Function.update_self] at member
    exact ⟨.inr (by rw [phase]; rfl), by rw [phase]; decide, member⟩
  | remap phase =>
    refine ⟨.inr (by rw [phase]; rfl), by rw [phase]; decide, ?_⟩
    simpa only [IndexState.commitStep, IndexState.setThread, Function.update_self, List.mem_append,
      List.mem_singleton, or_assoc, or_self] using member
  | handOff =>
    dsimp only at passed
    rw [IndexState.setThread_threads_other _ _ notBackground,
      IndexState.setThread_threads_self] at passed
    exact absurd passed (outside (fun equal => by cases equal) rfl)
  | pageLoop phase | pageFinish phase | pageLock phase | send phase | complete phase
  | pipeFinish phase =>
    simp [phase, Role.visits] at visits

omit [LinearOrder Distance] in
theorem VecTargets.advance (targets : VecTargets state) (phases : InPhases state.threads)
    (tracked : state.maps.Tracked params.geometry) {choice : Choice}
    (pending : (state.threads agent).pending = [])
    (taken : state.advance params agent choice = some next) : VecTargets next := by
  have notBackground : agent ≠ .bgIoThread := by
    rintro rfl
    exact phase_of_advance taken phases.phase_of_background
  have frame := advance_frame taken notBackground
  have others : ∀ other, other ≠ agent → (next.threads other).role = .insertInPlace →
      next.threads other = state.threads other := by
    intro other different isInsert
    rcases advance_other taken different with kept | ⟨_, background, kept⟩
    · exact kept
    · have isBackground : (state.threads other).role = .bgIo :=
        (phases.background _).mpr background
      rw [kept] at isInsert
      exact nomatch isBackground.symm.trans isInsert
  have released : (state.threads agent).Released → (next.threads agent).Released := by
    rintro (finished | ⟨unlocking, _⟩)
    · exact absurd finished (phase_of_advance taken)
    · unfold IndexState.advance at taken
      simp only [unlocking, Option.some.injEq] at taken
      subst taken
      unfold IndexState.handOffStep
      split
      · rw [IndexState.setThread_threads_self]
        exact .inl rfl
      · dsimp only
        rw [IndexState.setThread_threads_other _ _ notBackground, IndexState.setThread_threads_self]
        exact .inl rfl
  refine ⟨fun other guards => ?_, fun first second different role rewriting => ?_⟩
  · rw [frame.locks]
    by_cases runs : other = agent
    · subst runs
      have isInsert : (state.threads other).role = .insertInPlace := frame.role ▸ guards.1
      obtain ⟨passed, notUnlock, _⟩ :=
        passedVec_advance phases isInsert pending taken guards.2.1 (.inr rfl)
      rw [frame.target] at passed ⊢
      exact targets.locked other ⟨isInsert, passed, fun unlocking => absurd unlocking notUnlock⟩
    · have kept := others other runs guards.1
      rw [kept] at guards ⊢
      exact targets.locked other guards
  · by_cases runs : second = agent
    · subst runs
      have firstKept := others first (Ne.symm different) role
      rw [firstKept] at role rewriting ⊢
      have isInsert : (state.threads second).role = .insertInPlace := frame.role ▸ rewriting.1
      obtain ⟨passed, _, member⟩ :=
        passedVec_advance phases isInsert pending taken rewriting.2.2 (.inl rewriting.2.1)
      rcases member with neighbor | target
      · exact targets.alone first second different role ⟨isInsert, neighbor, passed⟩
      · exact absurd (tracked.targets first second _ _ (Thread.reservation_eq role)
          (Thread.reservation_eq isInsert) target) (Ne.symm different)
    · have secondKept := others second runs rewriting.1
      rw [secondKept] at rewriting
      by_cases firstRuns : first = agent
      · subst firstRuns
        rw [frame.target] at rewriting
        exact released (targets.alone first second different (frame.role ▸ role) rewriting)
      · have firstKept := others first firstRuns role
        rw [firstKept] at role rewriting ⊢
        exact targets.alone first second different role rewriting

omit [LinearOrder Distance] in
theorem VecTargets.start (targets : VecTargets state)
    (tracked : state.maps.Tracked params.geometry) {number : Nat} {request : Request Point}
    {buffer : Nat → PageImage Point} (taken : state.start number request buffer = some next) :
    VecTargets next := by
  have others : ∀ other, other ≠ .caller number → next.threads other = state.threads other :=
    fun _ different => start_other taken different
  obtain ⟨idle, rfl⟩ := IndexState.start_cases taken
  have fresh : ∀ id, ¬ (IndexState.startThread state.curId buffer (state.threads (.caller number))
      request).PassedVec id := by
    rintro id (⟨locking, _⟩ | held)
    · cases request <;> cases locking
    · cases request <;> cases held
  dsimp only at others ⊢
  refine ⟨fun other guards => ?_, fun first second different role rewriting => ?_⟩
  · by_cases starts : other = .caller number
    · subst starts
      dsimp only at guards
      rw [IndexState.setThread_threads_self] at guards
      exact absurd guards.2.1 (fresh _)
    · have kept := others other starts
      dsimp only at guards ⊢
      rw [kept] at guards ⊢
      exact targets.locked other guards
  · dsimp only at role rewriting ⊢
    by_cases starts : second = .caller number
    · subst starts
      rw [IndexState.setThread_threads_self] at rewriting
      exact absurd rewriting.2.2 (fresh _)
    · rw [others second starts] at rewriting
      by_cases firstStarts : first = .caller number
      · subst firstStarts
        rw [IndexState.setThread_threads_self] at role rewriting
        have target : (IndexState.startThread state.curId buffer (state.threads (.caller number))
            request).target = state.curId := by
          cases request with
          | insertInPlace => rfl
          | _ => cases role
        rw [target] at rewriting
        have known := (tracked.valid second _ (Thread.reservation_eq rewriting.1)).known
          rewriting.2.2.chosen _ rewriting.2.1
        exact absurd (tracked.below _ known) (Nat.lt_irrefl _)
      · rw [others first firstStarts] at role rewriting ⊢
        exact targets.alone first second different role rewriting

theorem VecTargets.step (targets : VecTargets state) (phases : InPhases state.threads)
    (shapes : ∀ agent, (state.threads agent).Shape params)
    (tracked : state.maps.Tracked params.geometry) {action : Action Point}
    (taken : state.step params action = some next) : VecTargets next := by
  rcases IndexState.step_cases taken with ⟨_, _, _, _, started⟩ | ⟨_, _, _, _, _, pending, ran⟩ |
    ⟨_, _, _, pending, ended⟩
  · exact targets.start tracked started
  · exact targets.execute phases shapes tracked pending ran
  · exact targets.advance phases tracked pending ended

end VecTargets

theorem IndexState.Quiescent.not_insert {state : IndexState Point Code}
    (quiescent : state.Quiescent) (agent : Agent) :
    (state.threads agent).role ≠ .insertInPlace := by
  cases agent with
  | bgIoThread =>
    rw [quiescent.bgIo.1]
    nofun
  | caller number =>
    rw [(quiescent.callers number).1]
    nofun

theorem IndexState.Quiescent.vecTargets {state : IndexState Point Code}
    (quiescent : state.Quiescent) : VecTargets state where
  locked agent guards := absurd guards.1 (quiescent.not_insert agent)
  alone agent _ _ role := absurd role (quiescent.not_insert agent)

end OdinVector
