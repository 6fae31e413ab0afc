/-
This file models `SparseLockTable`: a map from keys to reader-writer locks with
a count of their acquisitions. An entry is created by the first `trywrlock` or
`tryrdlock` of its key and erased by the `unlock` that brings its count to zero.
The `unlock` of a key without an entry is ignored.

The table does not say who holds a key. A list of holdings does: it records
every acquisition that its owner has not given back. As long as keys are only
given back by their holders the table agrees with the list, and then a key held
for writing is held once.
-/

import Mathlib.Logic.Function.Basic
import Mathlib.Data.List.Perm.Basic
import Mathlib.Data.List.Count

namespace OdinVector

/-- The two ways to take a lock. -/
inductive Mode
  | rd
  | wr
  deriving DecidableEq

/-- The state of a `pthread_rwlock_t`. -/
structure RwLock where
  writer : Bool
  readers : Nat
  deriving DecidableEq

namespace RwLock

/-- `pthread_rwlock_init`. -/
def init : RwLock := ⟨false, 0⟩

/-- `pthread_rwlock_tryrdlock` and `pthread_rwlock_trywrlock`; `none` is `EBUSY`. -/
def tryLock (lock : RwLock) : Mode → Option RwLock
  | .rd => if lock.writer then none else some { lock with readers := lock.readers + 1 }
  | .wr => if lock.writer ∨ lock.readers ≠ 0 then none else some { lock with writer := true }

/-- `pthread_rwlock_unlock`. -/
def unlock (lock : RwLock) : RwLock :=
  if lock.writer then { lock with writer := false }
  else { lock with readers := lock.readers - 1 }

end RwLock

/-- An entry of the table: the lock and the count of its acquisitions. -/
structure LockEntry where
  lock : RwLock
  second : Nat
  deriving DecidableEq

/-- `locks_`: the entries of the keys that are held. -/
abbrev SparseLockTable (Key : Type) := Key → Option LockEntry

namespace SparseLockTable

variable {Key : Type} [DecidableEq Key]

/-- `tryrdlock` and `trywrlock`: `none` leaves the table as it is. -/
def tryLock (table : SparseLockTable Key) (key : Key) (mode : Mode) :
    Option (SparseLockTable Key) :=
  let entry := (table key).getD ⟨.init, 0⟩
  (entry.lock.tryLock mode).map fun lock =>
    Function.update table key (some ⟨lock, entry.second + 1⟩)

/-- `unlock`. An entry always has a positive count, so the trap on a zero count is not
modelled. -/
def unlock (table : SparseLockTable Key) (key : Key) : SparseLockTable Key :=
  match table key with
  | none => table
  | some entry =>
    if entry.second ≤ 1 then Function.update table key none
    else Function.update table key (some ⟨entry.lock.unlock, entry.second - 1⟩)

theorem tryLock_other {table next : SparseLockTable Key} {key other : Key} {mode : Mode}
    (taken : table.tryLock key mode = some next) (different : other ≠ key) :
    next other = table other := by
  rw [tryLock, Option.map_eq_some_iff] at taken
  obtain ⟨lock, _, rfl⟩ := taken
  exact Function.update_of_ne different _ _

/-- A key locked for writing is not taken again. -/
theorem tryLock_of_writer {table : SparseLockTable Key} {key : Key} {entry : LockEntry}
    (present : table key = some entry) (writer : entry.lock.writer = true) (mode : Mode) :
    table.tryLock key mode = none := by
  rw [tryLock, present, Option.getD_some]
  cases mode with
  | rd => simp only [RwLock.tryLock, if_pos writer, Option.map_none]
  | wr => simp only [RwLock.tryLock, if_pos (Or.inl writer : _ ∨ _), Option.map_none]

/-- A key that has been taken for writing is locked for writing. -/
theorem writer_of_tryLock {table next : SparseLockTable Key} {key : Key}
    (taken : table.tryLock key .wr = some next) :
    ∃ entry, next key = some entry ∧ entry.lock.writer = true := by
  rw [tryLock, Option.map_eq_some_iff] at taken
  obtain ⟨lock, locked, rfl⟩ := taken
  rw [RwLock.tryLock, Option.ite_none_left_eq_some, Option.some.injEq] at locked
  obtain ⟨_, rfl⟩ := locked
  exact ⟨_, Function.update_self _ _ _, rfl⟩

theorem unlock_other {table : SparseLockTable Key} {key other : Key} (different : other ≠ key) :
    table.unlock key other = table other := by
  unfold unlock
  cases table key with
  | none => rfl
  | some entry =>
    show (if entry.second ≤ 1 then _ else _ : SparseLockTable Key) other = table other
    split <;> exact Function.update_of_ne different _ _

/-! ### The entry that belongs to a list of modes -/

/-- The modes in which several holders may hold a key at once. -/
def Compatible (modes : List Mode) : Prop := .wr ∈ modes → modes.length = 1

/-- The entry of a key held in these modes. -/
def entryOf (modes : List Mode) : Option LockEntry :=
  if modes = [] then none else some ⟨⟨decide (.wr ∈ modes), modes.count .rd⟩, modes.length⟩

theorem entryOf_nil : entryOf [] = none := rfl

theorem entryOf_of_mem {modes : List Mode} {mode : Mode} (member : mode ∈ modes) :
    entryOf modes = some ⟨⟨decide (.wr ∈ modes), modes.count .rd⟩, modes.length⟩ :=
  if_neg (List.ne_nil_of_mem member)

theorem entryOf_perm {modes others : List Mode} (same : modes.Perm others) :
    entryOf modes = entryOf others := by
  unfold entryOf
  rw [same.count_eq, same.length_eq]
  simp only [same.mem_iff]
  by_cases empty : modes = []
  · rw [if_pos empty, if_pos (List.nil_perm.mp (empty ▸ same))]
  · rw [if_neg empty, if_neg fun none => empty (List.perm_nil.mp (by rwa [none] at same))]

theorem Compatible.perm {modes others : List Mode} (compatible : Compatible modes)
    (same : modes.Perm others) : Compatible others := by
  intro writer
  rw [← same.length_eq]
  exact compatible (same.mem_iff.mpr writer)

theorem Compatible.rd_of_not_mem {modes : List Mode} (readers : .wr ∉ modes) :
    modes = List.replicate modes.length .rd := by
  rw [List.eq_replicate_iff]
  refine ⟨rfl, fun mode member => ?_⟩
  cases mode with
  | rd => rfl
  | wr => exact absurd member readers

theorem Compatible.count_rd {modes : List Mode} (readers : .wr ∉ modes) :
    modes.count .rd = modes.length := by
  rw [Compatible.rd_of_not_mem readers, List.count_replicate_self, List.length_replicate]

/-- A key is only taken in a mode that goes with the ones it is held in. -/
theorem tryLock_entryOf {table next : SparseLockTable Key} {key : Key} {mode : Mode}
    {modes : List Mode} (agrees : table key = entryOf modes)
    (taken : table.tryLock key mode = some next) :
    next key = entryOf (mode :: modes) ∧ Compatible (mode :: modes) := by
  rw [tryLock, Option.map_eq_some_iff] at taken
  obtain ⟨lock, locked, rfl⟩ := taken
  rw [Function.update_self, entryOf_of_mem List.mem_cons_self]
  rw [agrees] at locked ⊢
  by_cases empty : modes = []
  · subst empty
    cases mode <;> simp_all [entryOf, RwLock.tryLock, RwLock.init, Compatible]
  · rw [entryOf, if_neg empty, Option.getD_some] at locked ⊢
    cases mode with
    | rd =>
      simp only [RwLock.tryLock, decide_eq_true_eq, Option.ite_none_left_eq_some,
        Option.some.injEq] at locked
      obtain ⟨readers, rfl⟩ := locked
      constructor
      · simp [readers]
      · intro writer
        exact absurd (List.mem_of_ne_of_mem (by decide) writer) readers
    | wr =>
      simp only [RwLock.tryLock, decide_eq_true_eq, Option.ite_none_left_eq_some, not_or,
        not_not, Option.some.injEq] at locked
      obtain ⟨⟨readers, none⟩, _⟩ := locked
      rw [Compatible.count_rd readers, List.length_eq_zero_iff] at none
      exact absurd none empty

/-- Giving back one of several acquisitions leaves the entry of the others. -/
theorem unlock_entryOf {table : SparseLockTable Key} {key : Key} {mode : Mode}
    {modes : List Mode} (agrees : table key = entryOf (mode :: modes))
    (compatible : Compatible (mode :: modes)) :
    table.unlock key key = entryOf modes ∧ Compatible modes := by
  rw [entryOf_of_mem List.mem_cons_self] at agrees
  unfold unlock
  rw [agrees]
  by_cases empty : modes = []
  · subst empty
    simp [entryOf, Compatible]
  · have several : ¬ (mode :: modes).length ≤ 1 := by
      have := List.length_pos_iff.mpr empty
      rw [List.length_cons]
      omega
    have readers : .wr ∉ mode :: modes := fun writer => several (Nat.le_of_eq (compatible writer))
    have first : mode = .rd := by
      cases mode with
      | rd => rfl
      | wr => exact absurd List.mem_cons_self readers
    have rest : .wr ∉ modes := fun writer => readers (List.mem_cons_of_mem _ writer)
    subst first
    constructor
    · simp only [if_neg several, Function.update_self, entryOf, if_neg empty]
      simp [RwLock.unlock, rest]
    · exact fun writer => absurd writer rest

end SparseLockTable

/-! ### Holdings -/

/-- An acquisition that has not been given back. -/
structure Holding (Agent Key : Type) where
  agent : Agent
  key : Key
  mode : Mode
  deriving DecidableEq

namespace Holding

variable {Agent Key : Type} [DecidableEq Agent] [DecidableEq Key]

/-- The modes in which a key is held. -/
def modesOf (holders : List (Holding Agent Key)) (key : Key) : List Mode :=
  (holders.filter fun holding => holding.key = key).map Holding.mode

/-- The keys an agent holds. -/
def heldBy (holders : List (Holding Agent Key)) (agent : Agent) : List Key :=
  (holders.filter fun holding => holding.agent = agent).map Holding.key

/-- The holdings after an agent gives a key back. -/
def release (holders : List (Holding Agent Key)) (agent : Agent) (key : Key) :
    List (Holding Agent Key) :=
  holders.eraseP fun holding => holding.agent = agent ∧ holding.key = key

/-- The table has the entries that belong to the holdings, for the keys in question. -/
def Agrees (concerned : Key → Prop) (table : SparseLockTable Key)
    (holders : List (Holding Agent Key)) : Prop :=
  ∀ key, concerned key → table key = SparseLockTable.entryOf (modesOf holders key) ∧
    SparseLockTable.Compatible (modesOf holders key)

omit [DecidableEq Key] in
theorem mem_heldBy {holders : List (Holding Agent Key)} {agent : Agent} {key : Key} :
    key ∈ heldBy holders agent ↔ ∃ mode, ⟨agent, key, mode⟩ ∈ holders := by
  rw [heldBy, List.mem_map]
  constructor
  · rintro ⟨⟨_, _, mode⟩, member, rfl⟩
    rw [List.mem_filter, decide_eq_true_eq] at member
    obtain ⟨member, rfl⟩ := member
    exact ⟨mode, member⟩
  · rintro ⟨mode, member⟩
    exact ⟨⟨agent, key, mode⟩, List.mem_filter.mpr ⟨member, decide_eq_true rfl⟩, rfl⟩

omit [DecidableEq Key] in
theorem heldBy_cons_self (holding : Holding Agent Key) (holders : List (Holding Agent Key)) :
    heldBy (holding :: holders) holding.agent = holding.key :: heldBy holders holding.agent := by
  simp [heldBy]

omit [DecidableEq Key] in
theorem heldBy_cons_other {holding : Holding Agent Key} {holders : List (Holding Agent Key)}
    {agent : Agent} (different : holding.agent ≠ agent) :
    heldBy (holding :: holders) agent = heldBy holders agent := by
  simp [heldBy, different]

omit [DecidableEq Agent] in
theorem modesOf_cons_self (holding : Holding Agent Key) (holders : List (Holding Agent Key)) :
    modesOf (holding :: holders) holding.key = holding.mode :: modesOf holders holding.key := by
  simp [modesOf]

omit [DecidableEq Agent] in
theorem modesOf_cons_other {holding : Holding Agent Key} {holders : List (Holding Agent Key)}
    {key : Key} (different : holding.key ≠ key) :
    modesOf (holding :: holders) key = modesOf holders key := by
  simp [modesOf, different]

theorem release_cons_self (holding : Holding Agent Key) (holders : List (Holding Agent Key)) :
    release (holding :: holders) holding.agent holding.key = holders := by
  simp [release]

theorem release_cons_other {holding : Holding Agent Key} {holders : List (Holding Agent Key)}
    {agent : Agent} {key : Key} (different : ¬ (holding.agent = agent ∧ holding.key = key)) :
    release (holding :: holders) agent key = holding :: release holders agent key :=
  List.eraseP_cons_of_neg (by simpa using different)

theorem heldBy_release_self (holders : List (Holding Agent Key)) (agent : Agent) (key : Key) :
    heldBy (release holders agent key) agent = (heldBy holders agent).erase key := by
  induction holders with
  | nil => rfl
  | cons holding rest inductionHypothesis =>
    by_cases own : holding.agent = agent
    · subst own
      by_cases same : holding.key = key
      · subst same
        rw [release_cons_self, heldBy_cons_self, List.erase_cons_head]
      · rw [release_cons_other fun both => same both.2, heldBy_cons_self, heldBy_cons_self,
          List.erase_cons_tail (by simpa using same), inductionHypothesis]
    · rw [release_cons_other fun both => own both.1, heldBy_cons_other own,
        heldBy_cons_other own, inductionHypothesis]

theorem heldBy_release_other {holders : List (Holding Agent Key)} {agent other : Agent}
    {key : Key} (different : agent ≠ other) :
    heldBy (release holders agent key) other = heldBy holders other := by
  induction holders with
  | nil => rfl
  | cons holding rest inductionHypothesis =>
    by_cases erased : holding.agent = agent ∧ holding.key = key
    · obtain ⟨rfl, rfl⟩ := erased
      rw [release_cons_self, heldBy_cons_other different]
    · rw [release_cons_other erased]
      by_cases own : holding.agent = other
      · subst own
        rw [heldBy_cons_self, heldBy_cons_self, inductionHypothesis]
      · rw [heldBy_cons_other own, heldBy_cons_other own, inductionHypothesis]

theorem modesOf_release_other {holders : List (Holding Agent Key)} {agent : Agent}
    {key other : Key} (different : key ≠ other) :
    modesOf (release holders agent key) other = modesOf holders other := by
  induction holders with
  | nil => rfl
  | cons holding rest inductionHypothesis =>
    by_cases erased : holding.agent = agent ∧ holding.key = key
    · obtain ⟨rfl, rfl⟩ := erased
      rw [release_cons_self, modesOf_cons_other different]
    · rw [release_cons_other erased]
      by_cases same : holding.key = other
      · subst same
        rw [modesOf_cons_self, modesOf_cons_self, inductionHypothesis]
      · rw [modesOf_cons_other same, modesOf_cons_other same, inductionHypothesis]

omit [DecidableEq Agent] in
theorem modesOf_map (pass : Holding Agent Key → Holding Agent Key)
    (keeps : ∀ holding, (pass holding).key = holding.key ∧ (pass holding).mode = holding.mode)
    (holders : List (Holding Agent Key)) (key : Key) :
    modesOf (holders.map pass) key = modesOf holders key := by
  induction holders with
  | nil => rfl
  | cons holding rest inductionHypothesis =>
    rw [List.map_cons]
    by_cases here : holding.key = key
    · subst here
      rw [modesOf_cons_self, ← (keeps holding).1, modesOf_cons_self, (keeps holding).1,
        (keeps holding).2, inductionHypothesis]
    · rw [modesOf_cons_other here, modesOf_cons_other ((keeps holding).1 ▸ here),
        inductionHypothesis]

/-- A key given back by a holder is held in one mode less. -/
theorem modesOf_release_self {holders : List (Holding Agent Key)} {agent : Agent} {key : Key}
    (held : key ∈ heldBy holders agent) :
    ∃ mode, (modesOf holders key).Perm (mode :: modesOf (release holders agent key) key) := by
  induction holders with
  | nil => cases held
  | cons holding rest inductionHypothesis =>
    by_cases erased : holding.agent = agent ∧ holding.key = key
    · obtain ⟨rfl, rfl⟩ := erased
      rw [release_cons_self, modesOf_cons_self]
      exact ⟨holding.mode, .refl _⟩
    · have inRest : key ∈ heldBy rest agent := by
        obtain ⟨mode, member⟩ := mem_heldBy.mp held
        rcases List.mem_cons.mp member with rfl | later
        · exact absurd ⟨rfl, rfl⟩ erased
        · exact mem_heldBy.mpr ⟨mode, later⟩
      obtain ⟨mode, same⟩ := inductionHypothesis inRest
      refine ⟨mode, ?_⟩
      rw [release_cons_other erased]
      by_cases here : holding.key = key
      · subst here
        rw [modesOf_cons_self, modesOf_cons_self]
        exact (same.cons holding.mode).trans (.swap _ _ _)
      · rw [modesOf_cons_other here, modesOf_cons_other here]
        exact same

namespace Agrees

variable {concerned : Key → Prop} {table : SparseLockTable Key}
  {holders : List (Holding Agent Key)}

omit [DecidableEq Agent] in
/-- No key has an entry when nothing is held. -/
theorem empty : Agrees concerned (fun _ => none) ([] : List (Holding Agent Key)) :=
  fun _ _ => ⟨rfl, fun writer => absurd writer (List.not_mem_nil)⟩

omit [DecidableEq Agent] in
/-- Taking a key. -/
theorem tryLock (agrees : Agrees concerned table holders) {next : SparseLockTable Key}
    {agent : Agent} {key : Key} {mode : Mode} (taken : table.tryLock key mode = some next) :
    Agrees concerned next (⟨agent, key, mode⟩ :: holders) := by
  intro other asked
  by_cases same : other = key
  · subst same
    rw [modesOf_cons_self]
    exact SparseLockTable.tryLock_entryOf (agrees _ asked).1 taken
  · rw [SparseLockTable.tryLock_other taken same, modesOf_cons_other (Ne.symm same)]
    exact agrees other asked

/-- Giving a key back that is held, or that is not in question. -/
theorem unlock (agrees : Agrees concerned table holders) {agent : Agent} {key : Key}
    (held : concerned key → key ∈ heldBy holders agent) :
    Agrees concerned (table.unlock key) (release holders agent key) := by
  intro other asked
  by_cases same : other = key
  · subst same
    obtain ⟨mode, perm⟩ := modesOf_release_self (held asked)
    obtain ⟨entry, compatible⟩ := agrees _ asked
    rw [SparseLockTable.entryOf_perm perm] at entry
    exact SparseLockTable.unlock_entryOf entry (compatible.perm perm)
  · rw [SparseLockTable.unlock_other same, modesOf_release_other (Ne.symm same)]
    exact agrees other asked

omit [DecidableEq Agent] in
/-- The table does not change when holdings pass from one agent to another. -/
theorem transfer (agrees : Agrees concerned table holders)
    (pass : Holding Agent Key → Holding Agent Key)
    (keeps : ∀ holding, (pass holding).key = holding.key ∧ (pass holding).mode = holding.mode) :
    Agrees concerned table (holders.map pass) := by
  intro key asked
  rw [modesOf_map pass keeps]
  exact agrees key asked

omit [DecidableEq Agent] in
/-- A key held for writing has one holder. -/
theorem exclusive (agrees : Agrees concerned table holders) {key : Key} (asked : concerned key)
    {first second : Agent} {mode : Mode} (writer : ⟨first, key, .wr⟩ ∈ holders)
    (other : ⟨second, key, mode⟩ ∈ holders) : first = second := by
  have filtered : ∀ holding ∈ holders, holding.key = key →
      holding ∈ holders.filter fun holding => holding.key = key :=
    fun holding member same => List.mem_filter.mpr ⟨member, decide_eq_true same⟩
  have single : (holders.filter fun holding => holding.key = key).length = 1 := by
    have := (agrees key asked).2 (List.mem_map.mpr ⟨_, filtered _ writer rfl, rfl⟩)
    rwa [modesOf, List.length_map] at this
  obtain ⟨only, isOnly⟩ := List.length_eq_one_iff.mp single
  have firstOnly := filtered _ writer rfl
  have secondOnly := filtered _ other rfl
  rw [isOnly, List.mem_singleton] at firstOnly secondOnly
  exact congrArg Holding.agent (firstOnly.trans secondOnly.symm)

end Agrees

end Holding

end OdinVector
