/-
This file proves that every call takes its locks in one order and gives back
what it holds. The order goes by lock table (pages, vectors, ids, pages of ids)
and within a table by key. `pipe_search` is left out of the order, since it takes
the lock of its next read while it holds those of the reads in flight, and
`unlock_vec` is left out of the rule for giving back.
-/

import OdinVector.Update.Phases
import OdinVector.LockOrder

namespace OdinVector

open LockOrder

variable {Point Code Distance : Type}

/-- The place of a lock table in the order in which a call uses them. -/
def LockTableName.rank : LockTableName → Nat
  | .pageLockTable => 0
  | .vecLockTable => 1
  | .idxLockTable => 2
  | .pageIdxLockTable => 3

/-- The place of a lock in the order. -/
def LockKey.level (lock : LockKey) : ℕ ×ₗ ℕ := toLex (lock.table.rank, lock.key)

/-- The rules a call is held to. -/
def Role.rules (role : Role) : Rules LockKey (ℕ ×ₗ ℕ) where
  level := LockKey.level
  ordered := role ≠ .pipeSearch
  owned lock := lock.table ≠ .vecLockTable

/-- What an operation does to the locks in hand. -/
def Op.instruction : Op Point → Instruction LockKey (ℕ ×ₗ ℕ)
  | .lock key _ => .acquire key
  | .unlock key => .release key
  | _ => .skip

/-- The read that an operation puts in flight. -/
def Op.sends : Op Point → Option Nat
  | .sendRead id => some id
  | _ => none

/-- The first table of which nothing is in hand when a phase ends. -/
def Phase.floor : Phase → Nat
  | .writePq | .beam | .alloc | .pageLoop => 0
  | .lockPages => 1
  | .lockVec | .plan | .read | .edit | .put => 2
  | .lockIdx | .pageLock => 3
  | .lockPageIdx | .remap | .unlock | .pipeLoop | .finish => 4

/-- The first table of which nothing is in hand when the locks a phase owes are given back. -/
def Phase.last : Phase → Nat
  | .writePq | .beam | .alloc | .pageLoop | .pageLock => 0
  | _ => 4

namespace Thread

variable (thread : Thread Point)

def floor : Nat := if thread.role = .idle then 0 else thread.phase.floor

/-- The reads that `pipe_search` has in flight, with the one that is being sent. -/
def inFlight : List Nat :=
  thread.onFlight ++ thread.pending.filterMap Op.sends

/-- The locks that a later phase gives back. -/
def owed : List LockKey :=
  match thread.phase with
  | .lockPages | .lockVec | .plan | .read | .edit | .put | .unlock => thread.pagesLocked.map .page
  | .lockIdx => thread.idxLocked.map .idx ++ thread.pagesLocked.map .page
  | .lockPageIdx | .remap =>
    thread.pageLocked.map .pageIdx ++ (thread.idxLocked.map .idx ++ thread.pagesLocked.map .page)
  | .pageLock => thread.idxLocked.map .idx
  | .pipeLoop => thread.inFlight.map .idx
  | .writePq | .beam | .alloc | .pageLoop | .finish => []

/-- The pending operations of a thread and what is to follow them. -/
def program : List (Instruction LockKey (ℕ ×ₗ ℕ)) :=
  thread.pending.map Op.instruction ++
    .fence (toLex (thread.floor, 0)) ::
      (thread.owed.map .release ++ [.fence (toLex (thread.phase.last, 0))])

end Thread

/-- Every thread keeps to its rules from here on. -/
def KeepsRules (threads : Agent → Thread Point) (holders : List (Holding Agent LockKey)) : Prop :=
  ∀ agent, Disciplined (threads agent).role.rules (Holding.heldBy holders agent)
    (threads agent).program

namespace KeepsRules

variable {threads : Agent → Thread Point} {holders : List (Holding Agent LockKey)}
  {agent : Agent} {thread : Thread Point}

/-- One thread goes on with another program. -/
theorem update (keeps : KeepsRules threads holders)
    (own : Disciplined thread.role.rules (Holding.heldBy holders agent) thread.program) :
    KeepsRules (Function.update threads agent thread) holders := by
  intro other
  by_cases same : other = agent
  · subst same
    rwa [Function.update_self]
  · rw [Function.update_of_ne same]
    exact keeps other

/-- One thread goes on with another lock in hand. -/
theorem acquire (keeps : KeepsRules threads holders) (lock : LockKey) (mode : Mode)
    (own : Disciplined thread.role.rules (lock :: Holding.heldBy holders agent) thread.program) :
    KeepsRules (Function.update threads agent thread) (⟨agent, lock, mode⟩ :: holders) := by
  intro other
  by_cases same : other = agent
  · subst same
    rwa [Function.update_self, Holding.heldBy_cons_self ⟨other, lock, mode⟩]
  · rw [Function.update_of_ne same, Holding.heldBy_cons_other (Ne.symm same)]
    exact keeps other

/-- One thread goes on after giving a lock back. -/
theorem release (keeps : KeepsRules threads holders) (lock : LockKey)
    (own : Disciplined thread.role.rules ((Holding.heldBy holders agent).erase lock)
      thread.program) :
    KeepsRules (Function.update threads agent thread) (Holding.release holders agent lock) := by
  intro other
  by_cases same : other = agent
  · subst same
    rwa [Function.update_self, Holding.heldBy_release_self]
  · rw [Function.update_of_ne same, Holding.heldBy_release_other (Ne.symm same)]
    exact keeps other

end KeepsRules

variable {params : IndexParams Point Code Distance} [LinearOrder Distance]
  {state next : IndexState Point Code} {agent : Agent}

/-- The program of a thread whose next operation is done. -/
theorem program_after {thread : Thread Point} {op : Op Point} {rest : List (Op Point)}
    {held : List LockKey} (pending : thread.pending = op :: rest)
    (notSend : op.sends = none)
    (own : Disciplined thread.role.rules held thread.program) :
    Disciplined thread.role.rules (op.instruction.after held)
      ({ thread with pending := rest } : Thread Point).program := by
  have same : thread.inFlight = ({ thread with pending := rest } : Thread Point).inFlight := by
    rw [Thread.inFlight, pending, List.filterMap_cons_none notSend, Thread.inFlight]
  rw [Thread.program, Thread.owed, same, pending] at own
  exact own.2

/-- An operation keeps the rules: what is left of the program follows it. -/
theorem keepsRules_execute (keeps : KeepsRules state.threads state.holders) {op : Op Point}
    {rest : List (Op Point)} (pending : (state.threads agent).pending = op :: rest)
    (taken : state.execute params agent { state.threads agent with pending := rest } op =
      some next) : KeepsRules next.threads next.holders := by
  have later := fun notSend => program_after pending notSend (keeps agent)
  cases op with
  | lock lock mode =>
    simp only [IndexState.execute, IndexState.tryLock, Option.some.injEq] at taken
    split at taken
    · subst taken
      exact keeps.acquire lock mode (later rfl)
    · subst taken
      exact keeps.update (keeps agent)
  | unlock lock =>
    simp only [IndexState.execute, Option.some.injEq] at taken
    subst taken
    exact keeps.release lock (later rfl)
  | sendRead id =>
    simp only [IndexState.execute, Option.map_eq_some_iff] at taken
    obtain ⟨_, _, rfl⟩ := taken
    have own := keeps agent
    have same : (state.threads agent).inFlight =
        (state.threads agent).onFlight ++ [id] ++ rest.filterMap Op.sends := by
      simp [Thread.inFlight, pending, Op.sends]
    rw [Thread.program, Thread.owed, same, pending] at own
    exact keeps.update own.2
  | locate | planNeighbor | writeTarget | remap =>
    simp only [IndexState.execute, Option.map_eq_some_iff] at taken
    obtain ⟨_, _, rfl⟩ := taken
    exact keeps.update (later rfl)
  | snapshot | writeNeighbor =>
    simp only [IndexState.execute, Option.bind_eq_some_iff, Option.map_eq_some_iff] at taken
    obtain ⟨_, _, _, _, rfl⟩ := taken
    exact keeps.update (later rfl)
  | readFrontier | readPage | putPage | writeDisk =>
    simp only [IndexState.execute, Option.some.injEq] at taken
    subst taken
    exact keeps.update (later rfl)

/-! ### The end of a phase -/

theorem LockKey.level_lt_floor {lock : LockKey} {floor : Nat} :
    lock.level < toLex (floor, 0) ↔ lock.table.rank < floor := by
  rw [LockKey.level, Prod.Lex.toLex_lt_toLex]
  simp

theorem LockKey.level_lt_of_rank {first second : LockKey}
    (rank : first.table.rank < second.table.rank) : first.level < second.level :=
  Prod.Lex.toLex_lt_toLex.mpr (.inl rank)

/-- The locks of one table are ordered by their keys. -/
theorem pairwise_level {table : LockTableName} {keys : List Nat}
    (sorted : keys.Pairwise (· < ·)) :
    (keys.map (LockKey.mk table)).Pairwise fun first second => first.level < second.level := by
  rw [List.pairwise_map]
  refine sorted.imp fun less => ?_
  rw [LockKey.level, LockKey.level, Prod.Lex.toLex_lt_toLex]
  exact .inr ⟨rfl, less⟩

theorem Thread.owed_owned (thread : Thread Point) (role : Role) :
    ∀ lock ∈ thread.owed, role.rules.owned lock := by
  intro lock member
  show lock.table ≠ .vecLockTable
  unfold Thread.owed at member
  split at member
  all_goals
    simp only [List.mem_append, List.mem_map, List.not_mem_nil] at member
    try grind

/-- What is to follow the operations of a thread, from the locks in hand by then. -/
theorem disciplined_rest {thread : Thread Point} {role : Role} {held base : List LockKey}
    (below : role ≠ .pipeSearch → ∀ other ∈ held, other.table.rank < thread.floor)
    (inHand : held.Perm (thread.owed ++ base))
    (last : role ≠ .pipeSearch → ∀ other ∈ base, other.table.rank < thread.phase.last) :
    Disciplined role.rules held (.fence (toLex (thread.floor, 0)) ::
      (thread.owed.map .release ++ [.fence (toLex (thread.phase.last, 0))])) :=
  ⟨fun ordered other member => LockKey.level_lt_floor.mpr (below ordered other member),
    Disciplined.releases inHand
      ⟨fun ordered other member => LockKey.level_lt_floor.mpr (last ordered other member), trivial⟩⟩

theorem rank_lt_four (table : LockTableName) : table.rank < 4 := by
  cases table <;> decide

/-- Nothing is to follow the operations of a call that returns. -/
theorem disciplined_finished {thread : Thread Point} (phase : thread.phase = .finish)
    (running : thread.role ≠ .idle) (role : Role) (held : List LockKey) :
    Disciplined role.rules held (.fence (toLex (thread.floor, 0)) ::
      (thread.owed.map .release ++ [.fence (toLex (thread.phase.last, 0))])) := by
  have owed : thread.owed = [] := by simp only [Thread.owed, phase]
  have floor : thread.floor = 4 := by rw [Thread.floor, if_neg running, phase, Phase.floor]
  refine disciplined_rest ?_ (.of_eq (by rw [owed, List.nil_append])) ?_
  · rw [floor]
    exact fun _ other _ => rank_lt_four other.table
  · rw [phase]
    exact fun _ other _ => rank_lt_four other.table

/-- A running thread whose operations are done. -/
structure AtRest (thread : Thread Point) (held : List LockKey) (phase : Phase) : Prop where
  phase_eq : thread.phase = phase
  pending : thread.pending = []
  running : thread.role ≠ .idle
  own : Disciplined thread.role.rules held thread.program

namespace AtRest

variable {thread later : Thread Point} {held : List LockKey} {phase : Phase}

theorem floor_eq (rest : AtRest thread held phase) (role : later.role = thread.role) :
    later.floor = later.phase.floor :=
  if_neg fun idle => rest.running (role.symm.trans idle)

theorem below_top (rest : AtRest thread held phase) (next : Phase) (top : next.floor = 4)
    (next_eq : later.phase = next) (role : later.role = thread.role) (lock : LockKey) :
    lock.table.rank < later.floor := by
  rw [rest.floor_eq role, next_eq, top]
  exact rank_lt_four lock.table

/-- A thread at rest has nothing in hand from the floor of its phase up. -/
theorem below (rest : AtRest thread held phase) (ordered : thread.role ≠ .pipeSearch) :
    ∀ other ∈ held, other.table.rank < phase.floor := by
  have own := rest.own
  rw [Thread.program, rest.pending, rest.floor_eq rfl, rest.phase_eq] at own
  exact fun other member => LockKey.level_lt_floor.mp (own.1 ordered other member)

/-- A thread at rest has what it owes. -/
theorem inHand (rest : AtRest thread held phase) :
    ∃ base, held.Perm (thread.owed ++ base) ∧
      (thread.role ≠ .pipeSearch → ∀ other ∈ base, other.table.rank < phase.last) := by
  have own := rest.own
  rw [Thread.program, rest.pending, rest.phase_eq] at own
  obtain ⟨base, inHand, last⟩ := own.2.of_releases (thread.owed_owned _)
  exact ⟨base, inHand, fun ordered other member =>
    LockKey.level_lt_floor.mp (last.1 ordered other member)⟩

/-- A phase without lock operations. -/
theorem quiet (rest : AtRest thread held phase) (next : Phase) (next_eq : later.phase = next)
    (role : later.role = thread.role) (owed : later.owed = thread.owed)
    (floor : phase.floor ≤ next.floor) (last : phase.last ≤ next.last)
    (quiet : ∀ op ∈ later.pending, op.instruction = .skip) :
    Disciplined later.role.rules held later.program := by
  obtain ⟨base, inHand, after⟩ := rest.inHand
  rw [Thread.program, List.map_congr_left quiet, role]
  refine Disciplined.skips _ (disciplined_rest ?_ (owed ▸ inHand) ?_)
  · rw [rest.floor_eq role, next_eq]
    exact fun ordered other member => (rest.below ordered other member).trans_le floor
  · rw [next_eq]
    exact fun ordered other member => (after ordered other member).trans_le last

/-- A phase that takes the locks of one table. -/
theorem locks (rest : AtRest thread held phase) (table : LockTableName) (next : Phase)
    {keys : List Nat} {mode : Mode} (below : phase.floor ≤ table.rank)
    (above : table.rank < next.floor) (next_eq : later.phase = next)
    (role : later.role = thread.role)
    (pending : later.pending = keys.map fun key => .lock ⟨table, key⟩ mode)
    (sorted : keys.Pairwise (· < ·))
    (inHand : ∃ base, (keys.map (LockKey.mk table) ++ held).Perm (later.owed ++ base) ∧
      (thread.role ≠ .pipeSearch → ∀ other ∈ base, other.table.rank < next.last)) :
    Disciplined later.role.rules held later.program := by
  obtain ⟨base, same, last⟩ := inHand
  have program : later.pending.map Op.instruction =
      (keys.map (LockKey.mk table)).map .acquire := by
    rw [pending, List.map_map, List.map_map]
    rfl
  rw [Thread.program, program, role]
  refine Disciplined.acquires ?_ (pairwise_level sorted) (disciplined_rest ?_ same ?_)
  · intro ordered other member lock taken
    obtain ⟨key, _, rfl⟩ := List.mem_map.mp taken
    exact LockKey.level_lt_of_rank ((rest.below ordered other member).trans_le below)
  · intro ordered other member
    rw [rest.floor_eq role, next_eq]
    rcases List.mem_append.mp member with taken | old
    · obtain ⟨key, _, rfl⟩ := List.mem_map.mp taken
      exact above
    · exact ((rest.below ordered other old).trans_le below).trans above
  · rw [next_eq]
    exact last

/-- A phase that takes the locks of one table, works under them and gives them back, with
what the thread owed before. It owes nothing afterwards. -/
theorem round (rest : AtRest thread held phase) (table : LockTableName) (next : Phase)
    {keys : List Nat} (work : List (Op Point)) (below : phase.floor ≤ table.rank)
    (floor : phase.last ≤ next.floor) (last : phase.last ≤ next.last)
    (next_eq : later.phase = next) (role : later.role = thread.role) (owed : later.owed = [])
    (pending : later.pending = keys.map (fun key => .lock ⟨table, key⟩ .rd) ++
      (work ++ ((keys.map (LockKey.mk table) ++ thread.owed).map .unlock)))
    (quiet : ∀ op ∈ work, op.instruction = .skip) (sorted : keys.Pairwise (· < ·)) :
    Disciplined later.role.rules held later.program := by
  obtain ⟨base, same, after⟩ := rest.inHand
  have program : later.pending.map Op.instruction =
      (keys.map (LockKey.mk table)).map .acquire ++ (work.map (fun _ => .skip) ++
        (keys.map (LockKey.mk table) ++ thread.owed).map .release) := by
    rw [pending, List.map_append, List.map_append, List.map_congr_left quiet, List.map_map,
      List.map_map, List.map_map]
    rfl
  rw [Thread.program, program, role, List.append_assoc, List.append_assoc]
  refine Disciplined.acquires ?_ (pairwise_level sorted) (Disciplined.skips work ?_)
  · intro ordered other member lock taken
    obtain ⟨key, _, rfl⟩ := List.mem_map.mp taken
    exact LockKey.level_lt_of_rank ((rest.below ordered other member).trans_le below)
  · have nothing : base.Perm (later.owed ++ base) := by rw [owed, List.nil_append]
    refine Disciplined.releases ?_ (disciplined_rest ?_ nothing ?_)
    · rw [List.append_assoc]
      exact same.append_left _
    · rw [rest.floor_eq role, next_eq]
      exact fun ordered other member => (after ordered other member).trans_le floor
    · rw [next_eq]
      exact fun ordered other member => (after ordered other member).trans_le last

end AtRest

/-! ### The phases -/

omit [LinearOrder Distance] in
theorem IndexState.pageKeys_pairwise (state : IndexState Point Code) {ids locked : List Nat}
    (keys : state.pageKeys params ids = some locked) : locked.Pairwise (· < ·) := by
  unfold IndexState.pageKeys at keys
  split at keys
  · obtain ⟨pages, _, rfl⟩ := Option.map_eq_some_iff.mp keys
    exact sortUnique_pairwise pages
  · obtain rfl := Option.some.inj keys
    exact .nil

theorem instruction_unlocks {table : LockTableName} (keys : List Nat) :
    (keys.map fun key => (.unlock ⟨table, key⟩ : Op Point)).map Op.instruction =
      (keys.map (LockKey.mk table)).map .release := by
  rw [List.map_map, List.map_map]
  rfl

theorem instruction_unlockVec (target : Nat) (ids : List Nat) :
    (IndexState.unlockVec target ids : List (Op Point)).map Op.instruction =
      ((target :: ids).map LockKey.vec).map .release := by
  rw [IndexState.unlockVec, List.map_cons, instruction_unlocks]
  rfl

theorem instruction_bgTask (thread : Thread Point) :
    (IndexState.bgTask thread).map Op.instruction =
      (pagesOf thread.writes).map (fun _ => .skip) ++
        (thread.pagesLocked.map .page).map .release := by
  rw [IndexState.bgTask, List.map_append, instruction_unlocks, List.map_map]
  rfl

/-! ### The page locks pass to the background thread -/

/-- A lock of the page table. -/
def LockKey.isPage (lock : LockKey) : Bool := lock.table = .pageLockTable

theorem heldBy_handOver_other {holders : List (Holding Agent LockKey)} {agent other : Agent}
    (background : other ≠ .bgIoThread) (different : other ≠ agent) :
    Holding.heldBy (holders.map (IndexState.handOver agent)) other =
      Holding.heldBy holders other := by
  induction holders with
  | nil => rfl
  | cons holding rest inductionHypothesis =>
    rw [List.map_cons]
    unfold IndexState.handOver at inductionHypothesis ⊢
    by_cases pass : holding.agent = agent ∧ holding.key.table = .pageLockTable
    · rw [if_pos pass, Holding.heldBy_cons_other background.symm, inductionHypothesis,
        Holding.heldBy_cons_other (pass.1 ▸ different.symm)]
    · rw [if_neg pass]
      by_cases own : holding.agent = other
      · subst own
        rw [Holding.heldBy_cons_self, Holding.heldBy_cons_self, inductionHypothesis]
      · rw [Holding.heldBy_cons_other own, Holding.heldBy_cons_other own, inductionHypothesis]

/-- The background thread has the page locks of the agent besides its own. -/
theorem heldBy_handOver_background (holders : List (Holding Agent LockKey)) {agent : Agent}
    (different : agent ≠ .bgIoThread) :
    (Holding.heldBy (holders.map (IndexState.handOver agent)) .bgIoThread).Perm
      ((Holding.heldBy holders agent).filter LockKey.isPage ++
        Holding.heldBy holders .bgIoThread) := by
  induction holders with
  | nil => exact .refl _
  | cons holding rest inductionHypothesis =>
    rw [List.map_cons]
    unfold IndexState.handOver at inductionHypothesis ⊢
    by_cases own : holding.agent = agent
    · subst own
      rw [Holding.heldBy_cons_self, Holding.heldBy_cons_other different]
      by_cases page : holding.key.table = .pageLockTable
      · rw [if_pos ⟨rfl, page⟩, List.filter_cons_of_pos (by simpa [LockKey.isPage] using page)]
        exact inductionHypothesis.cons holding.key
      · rw [if_neg fun both => page both.2, Holding.heldBy_cons_other different,
          List.filter_cons_of_neg (by simpa [LockKey.isPage] using page)]
        exact inductionHypothesis
    · rw [if_neg fun both => own both.1, Holding.heldBy_cons_other own]
      by_cases background : holding.agent = .bgIoThread
      · rw [← background, Holding.heldBy_cons_self, Holding.heldBy_cons_self, background]
        exact (inductionHypothesis.cons holding.key).trans List.perm_middle.symm
      · rw [Holding.heldBy_cons_other background, Holding.heldBy_cons_other background]
        exact inductionHypothesis

/-- The page locks of a thread pass to the background thread. -/
theorem KeepsRules.handOver {threads : Agent → Thread Point} {holders : List (Holding Agent LockKey)}
    {agent : Agent} {thread background : Thread Point} (keeps : KeepsRules threads holders)
    (different : agent ≠ .bgIoThread)
    (own : ∀ held, Disciplined thread.role.rules held thread.program)
    (extended : Disciplined background.role.rules
      ((Holding.heldBy holders agent).filter LockKey.isPage ++
        Holding.heldBy holders .bgIoThread) background.program) :
    KeepsRules (Function.update (Function.update threads agent thread) .bgIoThread background)
      (holders.map (IndexState.handOver agent)) := by
  intro other
  by_cases isBackground : other = .bgIoThread
  · subst isBackground
    rw [Function.update_self]
    exact extended.perm (heldBy_handOver_background holders different).symm
  · rw [Function.update_of_ne isBackground]
    by_cases same : other = agent
    · subst same
      rw [Function.update_self]
      exact own _
    · rw [Function.update_of_ne same, heldBy_handOver_other isBackground same]
      exact keeps other

section Phases

variable (keeps : KeepsRules state.threads state.holders)
include keeps

theorem keepsRules_beamStep {choice : Choice}
    (rest : AtRest (state.threads agent) (Holding.heldBy state.holders agent) .beam)
    (taken : state.beamStep agent (state.threads agent) choice = some next) :
    KeepsRules next.threads next.holders := by
  have owes : ∀ {thread : Thread Point}, thread.phase = .beam → thread.owed = [] :=
    fun phase => by simp only [Thread.owed, phase]
  cases choice with
  | frontier ids =>
    simp only [IndexState.beamStep, Option.some.injEq] at taken
    subst taken
    refine keeps.update (rest.round .idxLockTable .beam (ids.map .locate ++ [.readFrontier])
      (by decide) (by decide) (by decide) rest.phase_eq rfl (owes rest.phase_eq) ?_ ?_
      (sortUnique_pairwise ids))
    · simp [owes rest.phase_eq, Function.comp_def]
    · intro op member
      rcases List.mem_append.mp member with locate | read
      · obtain ⟨_, _, rfl⟩ := List.mem_map.mp locate
        rfl
      · rw [List.mem_singleton.mp read]
        rfl
  | prune nhood =>
    rw [IndexState.beamStep, Option.ite_none_right_eq_some, Option.some.injEq] at taken
    obtain ⟨_, rfl⟩ := taken
    exact keeps.update (rest.quiet .alloc rfl rfl (owes rest.phase_eq).symm (by decide)
      (by decide) (rest.pending ▸ (by intros; contradiction)))
  | finish =>
    rw [IndexState.beamStep, Option.ite_none_right_eq_some, Option.some.injEq] at taken
    obtain ⟨_, rfl⟩ := taken
    exact keeps.update (rest.quiet .finish rfl rfl (owes rest.phase_eq).symm (by decide)
      (by decide) (rest.pending ▸ (by intros; contradiction)))
  | _ => cases taken

omit [LinearOrder Distance] in
theorem keepsRules_allocStep
    (rest : AtRest (state.threads agent) (Holding.heldBy state.holders agent) .alloc)
    (taken : state.allocStep params agent (state.threads agent) = some next) :
    KeepsRules next.threads next.holders := by
  rw [IndexState.allocStep, Option.map_eq_some_iff] at taken
  obtain ⟨⟨layout, locs, needRead⟩, _, rfl⟩ := taken
  refine keeps.update (rest.locks .pageLockTable .lockPages (by decide) (by decide) rfl rfl rfl
    (sortUnique_pairwise _) ⟨_, .refl _, ?_⟩)
  exact fun _ other _ => rank_lt_four other.table

theorem keepsRules_lockVecStep
    (rest : AtRest (state.threads agent) (Holding.heldBy state.holders agent) .lockPages)
    (distinct : ((state.threads agent).newNhood ++ [(state.threads agent).target]).Nodup) :
    KeepsRules (Function.update state.threads agent
      (IndexState.lockVecStep (state.threads agent))) state.holders := by
  obtain ⟨base, same, _⟩ := rest.inHand
  have owed : (IndexState.lockVecStep (state.threads agent)).owed = (state.threads agent).owed := by
    simp only [Thread.owed, IndexState.lockVecStep, rest.phase_eq]
  have moved := (same.append_left _).trans (List.perm_append_comm_assoc
    (((state.threads agent).newNhood ++ [(state.threads agent).target]).insertionSort (· ≤ ·) |>.map
      LockKey.vec) (state.threads agent).owed base)
  refine keeps.update (rest.locks .vecLockTable .lockVec (by decide) (by decide) rfl rfl rfl
    (pairwise_lt_insertionSort distinct) ⟨_, owed ▸ moved, fun _ other _ => rank_lt_four other.table⟩)

omit [LinearOrder Distance] in
theorem keepsRules_publishStep
    (rest : AtRest (state.threads agent) (Holding.heldBy state.holders agent) .put)
    (taken : state.publishStep params agent (state.threads agent) = some next) :
    KeepsRules next.threads next.holders := by
  rw [IndexState.publishStep, Option.map_eq_some_iff] at taken
  obtain ⟨loc, _, rfl⟩ := taken
  obtain ⟨base, same, _⟩ := rest.inHand
  have owed : (state.threads agent).owed = (state.threads agent).pagesLocked.map .page := by
    simp only [Thread.owed, rest.phase_eq]
  refine keeps.update (rest.locks .idxLockTable .lockIdx (by decide) (by decide) rfl rfl rfl
    (sortUnique_pairwise _) ⟨base, ?_, fun _ other _ => rank_lt_four other.table⟩)
  rw [owed] at same
  simpa only [Thread.owed, List.append_assoc] using same.append_left _

omit [LinearOrder Distance] in
theorem keepsRules_lockPageIdxStep
    (rest : AtRest (state.threads agent) (Holding.heldBy state.holders agent) .lockIdx)
    (taken : state.lockPageIdxStep params agent (state.threads agent) = some next) :
    KeepsRules next.threads next.holders := by
  rw [IndexState.lockPageIdxStep, Option.map_eq_some_iff] at taken
  obtain ⟨locked, keys, rfl⟩ := taken
  obtain ⟨base, same, _⟩ := rest.inHand
  have owed : (state.threads agent).owed = (state.threads agent).idxLocked.map .idx ++
      (state.threads agent).pagesLocked.map .page := by
    simp only [Thread.owed, rest.phase_eq]
  refine keeps.update (rest.locks .pageIdxLockTable .lockPageIdx (by decide) (by decide) rfl rfl
    rfl (state.pageKeys_pairwise keys) ⟨base, ?_, fun _ other _ => rank_lt_four other.table⟩)
  rw [owed] at same
  simpa only [Thread.owed, List.append_assoc] using same.append_left _

omit [LinearOrder Distance] in
theorem keepsRules_commitStep
    (rest : AtRest (state.threads agent) (Holding.heldBy state.holders agent) .remap) :
    KeepsRules (state.commitStep params agent (state.threads agent)).threads state.holders := by
  obtain ⟨base, same, _⟩ := rest.inHand
  have owed : (state.threads agent).owed = (state.threads agent).pageLocked.map .pageIdx ++
      ((state.threads agent).idxLocked.map .idx ++
        (state.threads agent).pagesLocked.map .page) := by
    simp only [Thread.owed, rest.phase_eq]
  rw [owed, ← List.append_assoc, List.append_assoc] at same
  refine keeps.update ?_
  simp only [Thread.program]
  rw [List.map_append, List.map_append, instruction_unlocks, instruction_unlocks,
    instruction_unlockVec, ← List.map_append, List.append_assoc]
  refine Disciplined.releases same (Disciplined.unowned ?_ ?_ fun others => ?_)
  · intro lock member
    obtain ⟨_, _, rfl⟩ := List.mem_map.mp member
    exact fun owned => owned rfl
  · intro lock member page
    obtain ⟨_, _, rfl⟩ := List.mem_map.mp member
    obtain ⟨_, _, different⟩ := List.mem_map.mp page
    cases different
  · refine disciplined_rest (fun _ other _ => ?_) (.refl _) fun _ other _ =>
      rank_lt_four other.table
    exact rest.below_top .unlock rfl (by rfl) (by rfl) other

theorem keepsRules_handOffStep (phases : InPhases state.threads)
    (rest : AtRest (state.threads agent) (Holding.heldBy state.holders agent) .unlock) :
    KeepsRules (state.handOffStep agent (state.threads agent)).threads
      (state.handOffStep agent (state.threads agent)).holders := by
  obtain ⟨base, same, _⟩ := rest.inHand
  have owed : (state.threads agent).owed = (state.threads agent).pagesLocked.map .page := by
    simp only [Thread.owed, rest.phase_eq]
  rw [owed] at same
  have different : agent ≠ .bgIoThread := by
    rintro rfl
    exact absurd (phases.phase_of_background.symm.trans rest.phase_eq) nofun
  unfold IndexState.handOffStep
  split
  · refine keeps.update ?_
    simp only [Thread.program]
    rw [instruction_unlocks]
    exact Disciplined.releases same (disciplined_finished (by rfl) (by exact rest.running) _ _)
  · refine keeps.handOver different (fun held => ?_) ?_
    · simp only [Thread.program, rest.pending]
      exact disciplined_finished (by rfl) (by exact rest.running) _ held
    · have own := keeps .bgIoThread
      rw [Thread.program] at own
      simp only [Thread.program]
      rw [List.map_append, List.append_assoc]
      refine Disciplined.append_releases ?_ (fun others => ?_) own.left
      · intro instruction member
        obtain ⟨op, pending, rfl⟩ := List.mem_map.mp member
        have allows := (phases.inPhase .bgIoThread).allows op pending
        rw [phases.phase_of_background] at allows
        cases op with
        | unlock lock =>
          have page : lock.table = .pageLockTable := allows
          refine .inr ⟨lock, ?_, rfl⟩
          show lock.table ≠ .vecLockTable
          rw [page]
          nofun
        | writeDisk => exact .inl rfl
        | lock => exact allows.elim
        | _ => exact nomatch allows
      · have pages : ((Holding.heldBy state.holders agent).filter LockKey.isPage).Perm
            ((state.threads agent).pagesLocked.map .page ++ base.filter LockKey.isPage) := by
          have all : ((state.threads agent).pagesLocked.map .page).filter LockKey.isPage =
              (state.threads agent).pagesLocked.map .page := by
            rw [List.filter_eq_self]
            intro lock member
            obtain ⟨_, _, rfl⟩ := List.mem_map.mp member
            rfl
          have filtered := same.filter LockKey.isPage
          rwa [List.filter_append, all] at filtered
        rw [instruction_bgTask, List.append_assoc]
        refine (Disciplined.skips _ (Disciplined.releases (.refl _)
          (disciplined_finished (by exact phases.phase_of_background) ?_ _ _))).perm
            ((pages.append_right others).trans (.of_eq (List.append_assoc _ _ _))).symm
        show (state.threads .bgIoThread).role ≠ .idle
        rw [(phases.background .bgIoThread).mpr rfl]
        nofun

theorem keepsRules_pageLoopStep {choice : Choice}
    (rest : AtRest (state.threads agent) (Holding.heldBy state.holders agent) .pageLoop)
    (taken : state.pageLoopStep agent (state.threads agent) choice = some next) :
    KeepsRules next.threads next.holders := by
  obtain ⟨base, same, after⟩ := rest.inHand
  have owed : (state.threads agent).owed = [] := by
    simp only [Thread.owed, rest.phase_eq]
  cases choice with
  | frontier ids =>
    simp only [IndexState.pageLoopStep, Option.some.injEq] at taken
    subst taken
    refine keeps.update (rest.locks .idxLockTable .pageLock (by decide) (by decide) rfl rfl rfl
      (sortUnique_pairwise ids) ⟨base, ?_, after⟩)
    rw [owed, List.nil_append] at same
    simpa only [Thread.owed] using same.append_left _
  | finish =>
    simp only [IndexState.pageLoopStep, Option.some.injEq] at taken
    subst taken
    exact keeps.update (rest.quiet .finish rfl rfl owed.symm (by decide) (by decide)
      (rest.pending ▸ (by intros; contradiction)))
  | _ => cases taken

omit [LinearOrder Distance] in
theorem keepsRules_pageLockStep
    (rest : AtRest (state.threads agent) (Holding.heldBy state.holders agent) .pageLock)
    (taken : state.pageLockStep params agent (state.threads agent) = some next) :
    KeepsRules next.threads next.holders := by
  rw [IndexState.pageLockStep, Option.map_eq_some_iff] at taken
  obtain ⟨locked, keys, rfl⟩ := taken
  have owed : (state.threads agent).owed = (state.threads agent).idxLocked.map .idx := by
    simp only [Thread.owed, rest.phase_eq]
  refine keeps.update (rest.round .pageIdxLockTable .pageLoop
    ((state.threads agent).newNhood.map .snapshot) (by decide) (by decide) (by decide) rfl rfl rfl
    ?_ ?_ (state.pageKeys_pairwise keys))
  · simp [owed, Function.comp_def]
  · intro op member
    obtain ⟨_, _, rfl⟩ := List.mem_map.mp member
    rfl

theorem keepsRules_pipeLoopStep {choice : Choice}
    (isPipe : (state.threads agent).role = .pipeSearch)
    (rest : AtRest (state.threads agent) (Holding.heldBy state.holders agent) .pipeLoop)
    (taken : state.pipeLoopStep agent (state.threads agent) choice = some next) :
    KeepsRules next.threads next.holders := by
  obtain ⟨base, same, _⟩ := rest.inHand
  have unordered : ∀ {locks : List LockKey} {bound : Nat}, (state.threads agent).role ≠ .pipeSearch →
      ∀ other ∈ locks, other.table.rank < bound := fun ordered => absurd isPipe ordered
  have owes : ∀ {thread : Thread Point}, thread.phase = .pipeLoop →
      thread.owed = thread.inFlight.map .idx := fun phase => by simp only [Thread.owed, phase]
  rw [owes rest.phase_eq, Thread.inFlight, rest.pending, List.filterMap_nil,
    List.append_nil] at same
  cases choice with
  | send id =>
    simp only [IndexState.pipeLoopStep, Option.some.injEq] at taken
    subst taken
    have inHand : (LockKey.idx id :: Holding.heldBy state.holders agent).Perm
        (((state.threads agent).onFlight ++ [id]).map .idx ++ base) := by
      rw [List.map_append, List.append_assoc]
      exact (same.cons _).trans List.perm_middle.symm
    exact keeps.update ⟨fun ordered => absurd isPipe ordered, trivial, disciplined_rest unordered
      (by rw [owes (by exact rest.phase_eq)]; exact inHand) unordered⟩
  | complete =>
    simp only [IndexState.pipeLoopStep] at taken
    split at taken
    · cases taken
    · rename_i id later onFlight
      rw [Option.some.injEq] at taken
      subst taken
      rw [onFlight, List.map_cons, List.cons_append] at same
      have inHand : ((Holding.heldBy state.holders agent).erase (.idx id)).Perm
          ((later ++ []).map .idx ++ base) := by
        have erased := same.erase (LockKey.idx id)
        rwa [List.erase_cons_head, ← List.append_nil later] at erased
      exact keeps.update ⟨fun _ => same.mem_iff.mpr List.mem_cons_self, disciplined_rest unordered
        (by rw [owes (by exact rest.phase_eq)]; exact inHand) unordered⟩
  | finish =>
    simp only [IndexState.pipeLoopStep, Option.some.injEq] at taken
    subst taken
    refine keeps.update ?_
    simp only [Thread.program, rest.pending]
    exact disciplined_finished (by rfl) (by exact rest.running) _ _
  | _ => cases taken

end Phases

/-! ### Every step keeps the rules -/

theorem disciplined_empty {thread : Thread Point} {role : Role} (pending : thread.pending = [])
    (owed : thread.owed = []) : Disciplined role.rules [] thread.program := by
  rw [Thread.program, pending, owed]
  exact ⟨fun _ => nofun, fun _ => nofun, trivial⟩

/-- An idle thread holds nothing. -/
theorem InPhases.heldBy_idle {threads : Agent → Thread Point}
    {holders : List (Holding Agent LockKey)} (phases : InPhases threads)
    (keeps : KeepsRules threads holders) (idle : (threads agent).role = .idle) :
    Holding.heldBy holders agent = [] := by
  have own := keeps agent
  rw [Thread.program, (phases.inPhase agent).idle idle, Thread.floor, if_pos idle] at own
  have below := own.1 (by rw [idle]; nofun)
  rw [List.eq_nil_iff_forall_not_mem]
  intro lock member
  exact Nat.not_lt_zero _ (LockKey.level_lt_floor.mp (below lock member))

omit [LinearOrder Distance] in
theorem keepsRules_advance (keeps : KeepsRules state.threads state.holders)
    (phases : InPhases state.threads) {choice : Choice}
    (distinct : (state.threads agent).phase = .lockPages →
      ((state.threads agent).newNhood ++ [(state.threads agent).target]).Nodup)
    (pending : (state.threads agent).pending = [])
    (taken : state.advance params agent choice = some next) :
    KeepsRules next.threads next.holders := by
  have visits := (phases.inPhase agent).visits
  have atRest : ∀ before, (state.threads agent).phase = before → before ≠ .finish →
      AtRest (state.threads agent) (Holding.heldBy state.holders agent) before := by
    rintro _ rfl unfinished
    refine ⟨rfl, pending, fun idle => unfinished ?_, keeps agent⟩
    rw [idle] at visits
    simpa [Role.visits] using visits
  unfold IndexState.advance at taken
  cases phase : (state.threads agent).phase with
  | writePq =>
    simp only [phase, Option.some.injEq] at taken
    subst taken
    exact keeps.update ((atRest .writePq phase (by decide)).quiet .beam rfl rfl
      (by simp only [Thread.owed, phase]) (by decide) (by decide)
      (pending ▸ (by intros; contradiction)))
  | beam =>
    simp only [phase] at taken
    exact keepsRules_beamStep keeps (atRest .beam phase (by decide)) taken
  | alloc =>
    simp only [phase] at taken
    exact keepsRules_allocStep keeps (atRest .alloc phase (by decide)) taken
  | lockPages =>
    simp only [phase, Option.some.injEq] at taken
    subst taken
    exact keepsRules_lockVecStep keeps (atRest .lockPages phase (by decide)) (distinct phase)
  | lockVec =>
    simp only [phase, Option.some.injEq] at taken
    subst taken
    refine keeps.update ((atRest .lockVec phase (by decide)).quiet .plan rfl rfl
      (by simp only [Thread.owed, phase, IndexState.planStep]) (by decide) (by decide)
      fun op member => ?_)
    obtain ⟨_, _, rfl⟩ := List.mem_map.mp member
    rfl
  | plan =>
    simp only [phase, Option.some.injEq] at taken
    subst taken
    refine keeps.update ((atRest .plan phase (by decide)).quiet .read rfl rfl
      (by simp only [Thread.owed, phase, IndexState.readStep]) (by decide) (by decide)
      fun op member => ?_)
    obtain ⟨_, _, rfl⟩ := List.mem_map.mp member
    rfl
  | read =>
    simp only [phase, Option.some.injEq] at taken
    subst taken
    refine keeps.update ((atRest .read phase (by decide)).quiet .edit rfl rfl
      (by simp only [Thread.owed, phase, IndexState.editStep]) (by decide) (by decide)
      fun op member => ?_)
    rcases List.mem_cons.mp member with rfl | neighbor
    · rfl
    · obtain ⟨_, _, rfl⟩ := List.mem_map.mp neighbor
      rfl
  | edit =>
    simp only [phase, Option.some.injEq] at taken
    subst taken
    refine keeps.update ((atRest .edit phase (by decide)).quiet .put rfl rfl
      (by simp only [Thread.owed, phase, IndexState.putStep]) (by decide) (by decide)
      fun op member => ?_)
    obtain ⟨_, _, rfl⟩ := List.mem_map.mp member
    rfl
  | put =>
    simp only [phase] at taken
    exact keepsRules_publishStep keeps (atRest .put phase (by decide)) taken
  | lockIdx =>
    simp only [phase] at taken
    exact keepsRules_lockPageIdxStep keeps (atRest .lockIdx phase (by decide)) taken
  | lockPageIdx =>
    simp only [phase, Option.some.injEq] at taken
    subst taken
    refine keeps.update ((atRest .lockPageIdx phase (by decide)).quiet .remap rfl rfl
      (by simp only [Thread.owed, phase, IndexState.remapStep]) (by decide) (by decide)
      fun op member => ?_)
    obtain ⟨_, _, rfl⟩ := List.mem_map.mp member
    rfl
  | remap =>
    simp only [phase, Option.some.injEq] at taken
    subst taken
    exact keepsRules_commitStep keeps (atRest .remap phase (by decide))
  | unlock =>
    simp only [phase, Option.some.injEq] at taken
    subst taken
    exact keepsRules_handOffStep keeps phases (atRest .unlock phase (by decide))
  | pageLoop =>
    simp only [phase] at taken
    exact keepsRules_pageLoopStep keeps (atRest .pageLoop phase (by decide)) taken
  | pageLock =>
    simp only [phase] at taken
    exact keepsRules_pageLockStep keeps (atRest .pageLock phase (by decide)) taken
  | pipeLoop =>
    have isPipe : (state.threads agent).role = .pipeSearch := by
      cases role : (state.threads agent).role <;> simp_all [Role.visits]
    simp only [phase] at taken
    exact keepsRules_pipeLoopStep keeps isPipe (atRest .pipeLoop phase (by decide)) taken
  | finish =>
    simp only [phase] at taken
    cases taken

omit [LinearOrder Distance] in
theorem keepsRules_start (keeps : KeepsRules state.threads state.holders)
    (phases : InPhases state.threads) {number : Nat} {request : Request Point}
    {buffer : Nat → PageImage Point} (taken : state.start number request buffer = some next) :
    KeepsRules next.threads next.holders := by
  obtain ⟨idle, rfl⟩ := IndexState.start_cases taken
  refine keeps.update ?_
  rw [phases.heldBy_idle keeps idle]
  refine disciplined_empty ?_ ?_
  all_goals cases request <;> rfl

theorem keepsRules_step (keeps : KeepsRules state.threads state.holders)
    (phases : InPhases state.threads)
    (distinct : ∀ agent, (state.threads agent).phase = .lockPages →
      ((state.threads agent).newNhood ++ [(state.threads agent).target]).Nodup)
    {action : Action Point} (taken : state.step params action = some next) :
    KeepsRules next.threads next.holders := by
  rcases IndexState.step_cases taken with ⟨_, _, _, _, started⟩ | ⟨_, _, _, _, _, pending, ran⟩ |
    ⟨agent, _, _, pending, ended⟩
  · exact keepsRules_start keeps phases started
  · exact keepsRules_execute keeps pending ran
  · exact keepsRules_advance keeps phases (distinct agent) pending ended

theorem IndexState.Quiescent.keepsRules (quiescent : state.Quiescent) :
    KeepsRules state.threads state.holders := by
  intro agent
  rw [quiescent.holders]
  cases agent with
  | bgIoThread =>
    obtain ⟨_, pending, phase⟩ := quiescent.bgIo
    exact disciplined_empty pending (by simp only [Thread.owed, phase])
  | caller number =>
    obtain ⟨_, pending, phase⟩ := quiescent.callers number
    exact disciplined_empty pending (by simp only [Thread.owed, phase])

end OdinVector
