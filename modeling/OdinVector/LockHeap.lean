/-
This file models `SparseLockTable` with the locks that it allocates: an entry has the
address of a `pthread_rwlock_t` and a count, the lock is made with the entry and
destroyed with it. What has no meaning in the source has no result here: an operation
on memory that is not a lock, the trap on a zero count, an unlock of a lock that nobody
holds, and the destruction of a lock that is held.

The entries with their locks are a table of `SparseLockTable`, so it is enough to say
what happens to the addresses: no two keys have the same one, and no lock is lost.
-/

import OdinVector.LockTable
import OdinVector.Transition

namespace OdinVector

/-- A try fails only when the holders of the key do not share it with the new one. -/
theorem SparseLockTable.not_compatible_of_tryLock {Key : Type} [DecidableEq Key]
    {table : SparseLockTable Key} {key : Key} {mode : Mode} {modes : List Mode}
    (agrees : table key = entryOf modes) (refused : table.tryLock key mode = none) :
    ¬ Compatible (mode :: modes) := by
  unfold SparseLockTable.tryLock at refused
  rw [agrees, Option.map_eq_none_iff] at refused
  have held : modes ≠ [] := by
    rintro rfl
    cases mode <;> cases refused
  intro compatible
  cases mode with
  | rd =>
    have writer : .wr ∈ modes := by
      by_contra readers
      rw [entryOf, if_neg held, Option.getD_some, RwLock.tryLock,
        if_neg (by simpa using readers)] at refused
      cases refused
    have single := compatible (List.mem_cons_of_mem _ writer)
    rw [List.length_cons, Nat.add_eq_right, List.length_eq_zero_iff] at single
    exact held single
  | wr =>
    have single := compatible List.mem_cons_self
    rw [List.length_cons, Nat.add_eq_right, List.length_eq_zero_iff] at single
    exact held single

/-- `locks_` with the addresses of the locks, and the locks that are allocated. -/
structure LockHeap (Key : Type) where
  locks : Key → Option (Nat × Nat)
  memory : Nat → Option RwLock

namespace LockHeap

variable {Key : Type} [DecidableEq Key]

/-- `upsert` before the function runs: a key without an entry gets a lock, which `new` puts
at this address, and the count zero. -/
def upsert (heap : LockHeap Key) (key : Key) (address : Nat) : LockHeap Key × (Nat × Nat) :=
  match heap.locks key with
  | some v => (heap, v)
  | none =>
    (⟨Function.update heap.locks key (some (address, 0)),
      Function.update heap.memory address (some .init)⟩, (address, 0))

/-- `tryrdlock` and `trywrlock`: the table, and whether the call returns zero. -/
def tryLock (heap : LockHeap Key) (key : Key) (mode : Mode) (address : Nat) :
    Option (LockHeap Key × Bool) :=
  let (heap, v) := heap.upsert key address
  (heap.memory v.1).map fun lock =>
    match lock.tryLock mode with
    | some taken =>
      (⟨Function.update heap.locks key (some (v.1, v.2 + 1)),
        Function.update heap.memory v.1 (some taken)⟩, true)
    | none => (heap, false)

/-- `pthread_rwlock_unlock` of a lock that is held. -/
def unlockCell (heap : LockHeap Key) (address : Nat) : Option RwLock :=
  match heap.memory address with
  | none => none
  | some lock => if lock = .init then none else some lock.unlock

/-- `unlock`; `erase_fn` does nothing when the key has no entry. -/
def unlock (heap : LockHeap Key) (key : Key) : Option (LockHeap Key) :=
  match heap.locks key with
  | none => some heap
  | some (address, count) =>
    if count = 0 then none
    else
      (heap.unlockCell address).bind fun lock =>
        if count = 1 then
          if lock = .init then
            some ⟨Function.update heap.locks key none, Function.update heap.memory address none⟩
          else none
        else
          some ⟨Function.update heap.locks key (some (address, count - 1)),
            Function.update heap.memory address (some lock)⟩

/-- The entries with their locks. -/
def table (heap : LockHeap Key) : SparseLockTable Key := fun key =>
  (heap.locks key).bind fun v => (heap.memory v.1).map fun lock => ⟨lock, v.2⟩

/-- Every entry has a lock of its own, and every lock has an entry. -/
structure Owned (heap : LockHeap Key) : Prop where
  live : ∀ key v, heap.locks key = some v → ∃ lock, heap.memory v.1 = some lock
  apart : ∀ key other v w, heap.locks key = some v → heap.locks other = some w → v.1 = w.1 →
    key = other
  kept : ∀ address lock, heap.memory address = some lock → ∃ key v, heap.locks key = some v ∧
    v.1 = address

variable {heap : LockHeap Key} {key : Key} {address : Nat}

omit [DecidableEq Key] in
theorem table_of_entry {v : Nat × Nat} {lock : RwLock} (entry : heap.locks key = some v)
    (cell : heap.memory v.1 = some lock) : heap.table key = some ⟨lock, v.2⟩ := by
  unfold table
  rw [entry, Option.bind_some, cell, Option.map_some]

omit [DecidableEq Key] in
theorem table_of_none (absent : heap.locks key = none) : heap.table key = none := by
  unfold table
  rw [absent, Option.bind_none]

omit [DecidableEq Key] in
theorem Owned.entry_of_table (owned : heap.Owned) :
    (heap.locks key).isSome ↔ (heap.table key).isSome := by
  cases entry : heap.locks key with
  | none =>
    rw [table_of_none entry]
    rfl
  | some v =>
    obtain ⟨lock, cell⟩ := owned.live key v entry
    rw [table_of_entry entry cell]
    rfl

/-! ### What the calls do -/

/-- The lock of an entry changes, with its count. -/
theorem Owned.set {v : Nat × Nat} (owned : heap.Owned) (entry : heap.locks key = some v)
    (lock : RwLock) (count : Nat) :
    (⟨Function.update heap.locks key (some (v.1, count)),
      Function.update heap.memory v.1 (some lock)⟩ : LockHeap Key).Owned where
  live := by
    intro other w found
    dsimp only at found ⊢
    by_cases same : w.1 = v.1
    · exact ⟨lock, by rw [same, Function.update_self]⟩
    · rw [Function.update_of_ne same]
      by_cases here : other = key
      · rw [here, Function.update_self] at found
        exact absurd (congrArg Prod.fst (Option.some.inj found)).symm same
      · rw [Function.update_of_ne here] at found
        exact owned.live other w found
  apart := by
    have old : ∀ other w, Function.update heap.locks key (some (v.1, count)) other = some w →
        ∃ u, heap.locks other = some u ∧ u.1 = w.1 := by
      intro other w found
      by_cases here : other = key
      · subst here
        rw [Function.update_self] at found
        exact ⟨v, entry, by rw [← Option.some.inj found]⟩
      · rw [Function.update_of_ne here] at found
        exact ⟨w, found, rfl⟩
    intro first second w u atFirst atSecond same
    obtain ⟨oldFirst, firstEntry, firstSame⟩ := old first w atFirst
    obtain ⟨oldSecond, secondEntry, secondSame⟩ := old second u atSecond
    exact owned.apart first second oldFirst oldSecond firstEntry secondEntry
      (firstSame.trans (same.trans secondSame.symm))
  kept := by
    intro other cell found
    dsimp only at found ⊢
    have before : ∃ older, heap.memory other = some older := by
      by_cases same : other = v.1
      · obtain ⟨older, live⟩ := owned.live key v entry
        exact ⟨older, same ▸ live⟩
      · rw [Function.update_of_ne same] at found
        exact ⟨cell, found⟩
    obtain ⟨older, live⟩ := before
    obtain ⟨holder, w, atHolder, place⟩ := owned.kept other older live
    by_cases here : holder = key
    · subst here
      rw [entry] at atHolder
      obtain rfl := Option.some.inj atHolder
      exact ⟨holder, (v.1, count), Function.update_self _ _ _, place⟩
    · exact ⟨holder, w, by rw [Function.update_of_ne here, atHolder], place⟩

/-- The table after the lock of an entry has changed. -/
theorem Owned.table_set {v : Nat × Nat} (owned : heap.Owned) (entry : heap.locks key = some v)
    (lock : RwLock) (count : Nat) :
    (⟨Function.update heap.locks key (some (v.1, count)),
      Function.update heap.memory v.1 (some lock)⟩ : LockHeap Key).table =
        Function.update heap.table key (some ⟨lock, count⟩) := by
  funext other
  by_cases here : other = key
  · subst here
    rw [Function.update_self]
    exact table_of_entry (v := (v.1, count)) (Function.update_self _ _ _)
      (Function.update_self _ _ _)
  · rw [Function.update_of_ne here]
    unfold table
    dsimp only
    rw [Function.update_of_ne here]
    cases found : heap.locks other with
    | none => rfl
    | some w =>
      rw [Option.bind_some, Option.bind_some]
      rw [Function.update_of_ne fun same => here (owned.apart other key w v found entry same)]

/-- A key without an entry gets a lock in unused memory. -/
theorem Owned.enter (owned : heap.Owned) (absent : heap.locks key = none)
    (unused : heap.memory address = none) (lock : RwLock) (count : Nat) :
    (⟨Function.update heap.locks key (some (address, count)),
      Function.update heap.memory address (some lock)⟩ : LockHeap Key).Owned := by
  have elsewhere : ∀ other w, heap.locks other = some w → w.1 ≠ address := by
    intro other w found same
    obtain ⟨cell, live⟩ := owned.live other w found
    rw [same, unused] at live
    cases live
  refine ⟨fun other w found => ?_, fun first second w u atFirst atSecond same => ?_,
    fun other cell found => ?_⟩
  · dsimp only at found ⊢
    by_cases here : other = key
    · rw [here, Function.update_self] at found
      obtain rfl := Option.some.inj found
      exact ⟨lock, Function.update_self _ _ _⟩
    · rw [Function.update_of_ne here] at found
      rw [Function.update_of_ne (elsewhere other w found)]
      exact owned.live other w found
  · dsimp only at atFirst atSecond
    by_cases firstHere : first = key <;> by_cases secondHere : second = key
    · rw [firstHere, secondHere]
    · rw [firstHere, Function.update_self] at atFirst
      rw [Function.update_of_ne secondHere] at atSecond
      obtain rfl := Option.some.inj atFirst
      exact absurd same.symm (elsewhere second u atSecond)
    · rw [Function.update_of_ne firstHere] at atFirst
      rw [secondHere, Function.update_self] at atSecond
      obtain rfl := Option.some.inj atSecond
      exact absurd same (elsewhere first w atFirst)
    · rw [Function.update_of_ne firstHere] at atFirst
      rw [Function.update_of_ne secondHere] at atSecond
      exact owned.apart first second w u atFirst atSecond same
  · dsimp only at found ⊢
    by_cases here : other = address
    · exact ⟨key, (address, count), Function.update_self _ _ _, here.symm⟩
    · rw [Function.update_of_ne here] at found
      obtain ⟨holder, w, atHolder, place⟩ := owned.kept other cell found
      have different : holder ≠ key := by
        rintro rfl
        rw [absent] at atHolder
        cases atHolder
      exact ⟨holder, w, by rw [Function.update_of_ne different, atHolder], place⟩

/-- The entry of a key and its lock are removed. -/
theorem Owned.leave {v : Nat × Nat} (owned : heap.Owned) (entry : heap.locks key = some v) :
    (⟨Function.update heap.locks key none,
      Function.update heap.memory v.1 none⟩ : LockHeap Key).Owned := by
  have others : ∀ other w, Function.update heap.locks key none other = some w →
      other ≠ key ∧ heap.locks other = some w := by
    intro other w found
    by_cases here : other = key
    · rw [here, Function.update_self] at found
      cases found
    · rw [Function.update_of_ne here] at found
      exact ⟨here, found⟩
  refine ⟨fun other w found => ?_, fun first second w u atFirst atSecond same => ?_,
    fun other cell found => ?_⟩
  · obtain ⟨different, found⟩ := others other w found
    dsimp only
    rw [Function.update_of_ne fun same => different (owned.apart other key w v found entry same)]
    exact owned.live other w found
  · exact owned.apart first second w u (others first w atFirst).2 (others second u atSecond).2 same
  · dsimp only at found ⊢
    by_cases here : other = v.1
    · rw [here, Function.update_self] at found
      cases found
    · rw [Function.update_of_ne here] at found
      obtain ⟨holder, w, atHolder, place⟩ := owned.kept other cell found
      have different : holder ≠ key := by
        rintro rfl
        rw [entry] at atHolder
        obtain rfl := Option.some.inj atHolder
        exact here place.symm
      exact ⟨holder, w, by rw [Function.update_of_ne different, atHolder], place⟩

theorem Owned.table_leave {v : Nat × Nat} (owned : heap.Owned) (entry : heap.locks key = some v) :
    (⟨Function.update heap.locks key none,
      Function.update heap.memory v.1 none⟩ : LockHeap Key).table =
        Function.update heap.table key none := by
  funext other
  by_cases here : other = key
  · subst here
    rw [Function.update_self]
    exact table_of_none (Function.update_self _ _ _)
  · rw [Function.update_of_ne here]
    unfold table
    dsimp only
    rw [Function.update_of_ne here]
    cases found : heap.locks other with
    | none => rfl
    | some w =>
      rw [Option.bind_some, Option.bind_some]
      rw [Function.update_of_ne fun same => here (owned.apart other key w v found entry same)]

theorem Owned.table_enter (owned : heap.Owned) (absent : heap.locks key = none)
    (unused : heap.memory address = none) (lock : RwLock) (count : Nat) :
    (⟨Function.update heap.locks key (some (address, count)),
      Function.update heap.memory address (some lock)⟩ : LockHeap Key).table =
        Function.update heap.table key (some ⟨lock, count⟩) := by
  have entered := (owned.enter absent unused .init 0).table_set (v := (address, 0))
    (Function.update_self _ _ _) lock count
  dsimp only at entered
  rw [Function.update_idem, Function.update_idem] at entered
  rw [entered]
  funext other
  by_cases here : other = key
  · rw [here, Function.update_self, Function.update_self]
  · rw [Function.update_of_ne here, Function.update_of_ne here]
    unfold table
    dsimp only
    rw [Function.update_of_ne here]
    cases found : heap.locks other with
    | none => rfl
    | some w =>
      obtain ⟨cell, live⟩ := owned.live other w found
      have different : w.1 ≠ address := by
        intro same
        rw [same, unused] at live
        cases live
      rw [Option.bind_some, Option.bind_some, Function.update_of_ne different]

/-- A lock that changes destroys none. -/
theorem update_ne_none {memory : Nat → Option RwLock} (place : Nat) (lock : RwLock) {other : Nat}
    (live : memory other ≠ none) : Function.update memory place (some lock) other ≠ none := by
  by_cases here : other = place
  · rw [here, Function.update_self]
    exact Option.some_ne_none lock
  · rwa [Function.update_of_ne here]

/-- A try does to the entries what it does to the table, and it destroys no lock. -/
theorem Owned.tryLock_cases (owned : heap.Owned) (unused : heap.memory address = none)
    (key : Key) (mode : Mode) :
    (∃ next, heap.tryLock key mode address = some (next, true) ∧ next.Owned ∧
      heap.table.tryLock key mode = some next.table ∧
        ∀ other, heap.memory other ≠ none → next.memory other ≠ none) ∨
    heap.tryLock key mode address = some (heap, false) ∧ heap.table.tryLock key mode = none := by
  unfold tryLock upsert SparseLockTable.tryLock
  cases entry : heap.locks key with
  | none =>
    have free : ∃ taken, RwLock.init.tryLock mode = some taken := by
      cases mode <;> exact ⟨_, rfl⟩
    obtain ⟨taken, locked⟩ := free
    refine Or.inl ⟨_, ?_, owned.enter entry unused taken 1, ?_, fun other live => ?_⟩
    · dsimp only
      rw [Function.update_self, Option.map_some, locked]
      dsimp only
      rw [Function.update_idem, Function.update_idem]
    · dsimp only
      rw [table_of_none entry, Option.getD_none, locked, Option.map_some,
        owned.table_enter entry unused]
    · exact update_ne_none _ _ live
  | some v =>
    obtain ⟨lock, cell⟩ := owned.live key v entry
    dsimp only
    rw [cell, Option.map_some, table_of_entry entry cell, Option.getD_some]
    cases locked : lock.tryLock mode with
    | none => exact Or.inr ⟨rfl, rfl⟩
    | some taken =>
      refine Or.inl ⟨_, rfl, owned.set entry taken (v.2 + 1), ?_, fun other live => ?_⟩
      · rw [owned.table_set entry, Option.map_some]
      · exact update_ne_none _ _ live

/-- An unlock of a key that is held does to the entries what it does to the table. The lock
is destroyed if and only if the key is not held any more. -/
theorem Owned.unlock_spec {mode : Mode} {modes : List Mode} (owned : heap.Owned)
    (agrees : heap.table key = SparseLockTable.entryOf (mode :: modes)) :
    ∃ next, heap.unlock key = some next ∧ next.Owned ∧ next.table = heap.table.unlock key ∧
      ∀ other, heap.memory other ≠ none ∧ next.memory other = none ↔
        modes = [] ∧ ∃ v, heap.locks key = some v ∧ v.1 = other := by
  have held := agrees.trans (SparseLockTable.entryOf_of_mem List.mem_cons_self)
  obtain ⟨v, entry⟩ := Option.isSome_iff_exists.mp (owned.entry_of_table.mpr (by rw [held]; rfl))
  obtain ⟨lock, cell⟩ := owned.live key v entry
  have same := (table_of_entry entry cell).symm.trans held
  obtain ⟨lockEq, countEq⟩ := LockEntry.mk.inj (Option.some.inj same)
  obtain ⟨place, count⟩ := v
  dsimp only at cell countEq
  have busy : lock ≠ .init := by
    rw [lockEq]
    cases mode with
    | rd => simp [RwLock.init]
    | wr => simp [RwLock.init]
  have positive : ¬ count = 0 := by
    rw [countEq, List.length_cons]
    exact Nat.succ_ne_zero _
  have unlocked : heap.unlockCell place = some lock.unlock := by
    unfold unlockCell
    rw [cell]
    exact if_neg busy
  unfold LockHeap.unlock
  rw [entry]
  dsimp only
  rw [if_neg positive, unlocked, Option.bind_some]
  unfold SparseLockTable.unlock
  rw [table_of_entry entry cell]
  dsimp only
  by_cases last : modes = []
  · subst last
    have one : count = 1 := countEq
    have free : lock.unlock = .init := by
      rw [lockEq]
      cases mode <;> rfl
    rw [if_pos one, if_pos free, if_pos (Nat.le_of_eq one)]
    refine ⟨_, rfl, owned.leave entry, owned.table_leave entry, fun other => ?_⟩
    constructor
    · rintro ⟨live, gone⟩
      by_cases here : other = place
      · exact ⟨rfl, _, rfl, here.symm⟩
      · dsimp only at gone
        rw [Function.update_of_ne here] at gone
        exact absurd gone live
    · rintro ⟨-, w, found, rfl⟩
      obtain rfl := Option.some.inj found
      exact ⟨by rw [cell]; exact Option.some_ne_none lock, Function.update_self _ _ _⟩
  · have several : ¬ count ≤ 1 := by
      have := List.length_pos_iff.mpr last
      rw [countEq, List.length_cons]
      omega
    rw [if_neg (by omega : ¬ count = 1), if_neg several]
    refine ⟨_, rfl, owned.set (v := (place, count)) entry _ _,
      owned.table_set (v := (place, count)) entry _ _, fun other => ?_⟩
    constructor
    · rintro ⟨live, gone⟩
      exact absurd gone (update_ne_none place _ live)
    · rintro ⟨none, -⟩
      exact absurd none last

end LockHeap

/-! ### The calls of all threads -/

/-- A call of a thread; `new` returns the address when a try makes a lock. -/
inductive LockCall (Agent Key : Type)
  | tryLock (agent : Agent) (key : Key) (mode : Mode) (address : Nat)
  | unlock (agent : Agent) (key : Key)

/-- A table with the acquisitions that have not been given back. -/
structure LockRun (Agent Key : Type) where
  heap : LockHeap Key
  holders : List (Holding Agent Key)

namespace LockRun

variable {Agent Key : Type} [DecidableEq Agent] [DecidableEq Key]

/-- A call: `new` returns memory that is not in use, and a thread unlocks only a key that it
holds. -/
def step (run : LockRun Agent Key) : LockCall Agent Key → Option (LockRun Agent Key)
  | .tryLock agent key mode address =>
    if run.heap.memory address = none then
      (run.heap.tryLock key mode address).map fun (heap, taken) =>
        ⟨heap, if taken then ⟨agent, key, mode⟩ :: run.holders else run.holders⟩
    else none
  | .unlock agent key =>
    if key ∈ Holding.heldBy run.holders agent then
      (run.heap.unlock key).map fun heap => ⟨heap, Holding.release run.holders agent key⟩
    else none

/-- The table of a new `SparseLockTable`. -/
def empty : LockRun Agent Key := ⟨⟨fun _ => none, fun _ => none⟩, []⟩

/-- All calls on one table. -/
def system (Agent Key : Type) [DecidableEq Agent] [DecidableEq Key] :
    Transition.System (LockRun Agent Key) (LockCall Agent Key) where
  initial := fun run => run = empty
  step := step

/-- What a table of reader-writer locks is. -/
structure IsLockTable (run : LockRun Agent Key) : Prop where
  /-- A key has an entry if and only if it is held. -/
  present : ∀ key, (run.heap.locks key).isSome ↔ ∃ holding ∈ run.holders, holding.key = key
  /-- The counter is the number of the holders. -/
  counted : ∀ key v, run.heap.locks key = some v →
    v.2 = (Holding.modesOf run.holders key).length
  /-- A key that is held for writing has one holder. -/
  shared : ∀ key, SparseLockTable.Compatible (Holding.modesOf run.holders key)
  /-- A try succeeds if and only if the holders may share the key with the new one; one that
  fails leaves the table, and none destroys a lock. -/
  tries : ∀ key mode address, run.heap.memory address = none →
    ∃ next taken, run.heap.tryLock key mode address = some (next, taken) ∧
      (taken = true ↔ SparseLockTable.Compatible (mode :: Holding.modesOf run.holders key)) ∧
        (taken = false → next = run.heap) ∧
          ∀ other, run.heap.memory other ≠ none → next.memory other ≠ none
  /-- An unlock by a holder has a meaning; the lock that it destroys is the one of the key, and
  the holder was the last one. -/
  unlocks : ∀ agent key, key ∈ Holding.heldBy run.holders agent →
    ∃ next, run.heap.unlock key = some next ∧
      ∀ other, run.heap.memory other ≠ none ∧ next.memory other = none ↔
        (Holding.modesOf run.holders key).length = 1 ∧
          ∃ v, run.heap.locks key = some v ∧ v.1 = other

/-- The locks belong to the entries, and the entries to the holders. -/
structure Invariant (run : LockRun Agent Key) : Prop where
  owned : run.heap.Owned
  agrees : Holding.Agrees (fun _ => True) run.heap.table run.holders

variable {run next : LockRun Agent Key}

omit [DecidableEq Agent] in
theorem invariant_empty : Invariant (empty : LockRun Agent Key) where
  owned := {
    live := by
      intro key v found
      cases found
    apart := by
      intro key other v w found
      cases found
    kept := by
      intro address lock found
      cases found }
  agrees := Holding.Agrees.empty

omit [DecidableEq Agent] in
theorem Invariant.tryLock (invariant : run.Invariant) {agent : Agent} {key : Key} {mode : Mode}
    {address : Nat} (unused : run.heap.memory address = none) {heap : LockHeap Key} {taken : Bool}
    (tried : run.heap.tryLock key mode address = some (heap, taken)) :
    Invariant ⟨heap, if taken then ⟨agent, key, mode⟩ :: run.holders else run.holders⟩ := by
  obtain ⟨after, succeeded, owned, same, -⟩ | ⟨failed, -⟩ :=
    invariant.owned.tryLock_cases unused key mode
  · obtain ⟨rfl, rfl⟩ := Prod.mk.inj (Option.some.inj (tried.symm.trans succeeded))
    exact ⟨owned, invariant.agrees.tryLock same⟩
  · obtain ⟨rfl, rfl⟩ := Prod.mk.inj (Option.some.inj (tried.symm.trans failed))
    exact invariant

/-- The modes in which a key is held by one of its holders and by the others. -/
theorem Invariant.entry_of_held (invariant : run.Invariant) {agent : Agent} {key : Key}
    (held : key ∈ Holding.heldBy run.holders agent) :
    ∃ mode modes, (Holding.modesOf run.holders key).Perm (mode :: modes) ∧
      run.heap.table key = SparseLockTable.entryOf (mode :: modes) := by
  obtain ⟨mode, perm⟩ := Holding.modesOf_release_self held
  exact ⟨mode, _, perm,
    (invariant.agrees key trivial).1.trans (SparseLockTable.entryOf_perm perm)⟩

theorem Invariant.unlock (invariant : run.Invariant) {agent : Agent} {key : Key}
    (held : key ∈ Holding.heldBy run.holders agent) {heap : LockHeap Key}
    (unlocked : run.heap.unlock key = some heap) :
    Invariant ⟨heap, Holding.release run.holders agent key⟩ := by
  obtain ⟨mode, modes, -, entry⟩ := invariant.entry_of_held held
  obtain ⟨after, ran, owned, same, -⟩ := invariant.owned.unlock_spec entry
  obtain rfl := Option.some.inj (unlocked.symm.trans ran)
  refine ⟨owned, ?_⟩
  dsimp only
  rw [same]
  exact invariant.agrees.unlock fun _ => held

theorem Invariant.step (invariant : run.Invariant) {call : LockCall Agent Key}
    (taken : run.step call = some next) : next.Invariant := by
  cases call with
  | tryLock agent key mode address =>
    obtain ⟨unused, ran⟩ := Option.ite_none_right_eq_some.mp taken
    obtain ⟨⟨heap, succeeded⟩, tried, rfl⟩ := Option.map_eq_some_iff.mp ran
    exact invariant.tryLock unused tried
  | unlock agent key =>
    obtain ⟨held, ran⟩ := Option.ite_none_right_eq_some.mp taken
    obtain ⟨heap, unlocked, rfl⟩ := Option.map_eq_some_iff.mp ran
    exact invariant.unlock held unlocked

omit [DecidableEq Agent] in
theorem Invariant.present (invariant : run.Invariant) (key : Key) :
    (run.heap.locks key).isSome ↔ ∃ holding ∈ run.holders, holding.key = key := by
  rw [invariant.owned.entry_of_table, (invariant.agrees key trivial).1]
  constructor
  · intro some
    have held : Holding.modesOf run.holders key ≠ [] := by
      intro none
      rw [none] at some
      cases some
    obtain ⟨mode, member⟩ := List.exists_mem_of_ne_nil _ held
    obtain ⟨holding, filtered, -⟩ := List.mem_map.mp member
    rw [List.mem_filter, decide_eq_true_eq] at filtered
    exact ⟨holding, filtered⟩
  · rintro ⟨holding, member, rfl⟩
    have held : holding.mode ∈ Holding.modesOf run.holders holding.key :=
      List.mem_map_of_mem (List.mem_filter.mpr ⟨member, decide_eq_true rfl⟩)
    rw [SparseLockTable.entryOf_of_mem held]
    rfl

omit [DecidableEq Agent] in
theorem Invariant.counted (invariant : run.Invariant) {key : Key} {v : Nat × Nat}
    (entry : run.heap.locks key = some v) : v.2 = (Holding.modesOf run.holders key).length := by
  obtain ⟨lock, cell⟩ := invariant.owned.live key v entry
  have same := (LockHeap.table_of_entry entry cell).symm.trans (invariant.agrees key trivial).1
  unfold SparseLockTable.entryOf at same
  split at same
  · cases same
  · exact (LockEntry.mk.inj (Option.some.inj same)).2

omit [DecidableEq Agent] in
theorem Invariant.tries (invariant : run.Invariant) (key : Key) (mode : Mode) {address : Nat}
    (unused : run.heap.memory address = none) :
    ∃ next taken, run.heap.tryLock key mode address = some (next, taken) ∧
      (taken = true ↔ SparseLockTable.Compatible (mode :: Holding.modesOf run.holders key)) ∧
        (taken = false → next = run.heap) ∧
          ∀ other, run.heap.memory other ≠ none → next.memory other ≠ none := by
  have agrees := (invariant.agrees key trivial).1
  obtain ⟨next, succeeded, -, same, lives⟩ | ⟨failed, refused⟩ :=
    invariant.owned.tryLock_cases unused key mode
  · have compatible := (SparseLockTable.tryLock_entryOf agrees same).2
    refine ⟨next, true, succeeded, iff_of_true rfl compatible, fun failed => ?_, lives⟩
    cases failed
  · have clash := SparseLockTable.not_compatible_of_tryLock agrees refused
    exact ⟨run.heap, false, failed, iff_of_false Bool.false_ne_true clash, fun _ => rfl,
      fun _ live => live⟩

theorem Invariant.unlocks (invariant : run.Invariant) {agent : Agent} {key : Key}
    (held : key ∈ Holding.heldBy run.holders agent) :
    ∃ next, run.heap.unlock key = some next ∧
      ∀ other, run.heap.memory other ≠ none ∧ next.memory other = none ↔
        (Holding.modesOf run.holders key).length = 1 ∧
          ∃ v, run.heap.locks key = some v ∧ v.1 = other := by
  obtain ⟨mode, modes, perm, entry⟩ := invariant.entry_of_held held
  obtain ⟨next, ran, -, -, destroyed⟩ := invariant.owned.unlock_spec entry
  have last : (Holding.modesOf run.holders key).length = 1 ↔ modes = [] := by
    rw [perm.length_eq, List.length_cons, Nat.add_eq_right, List.length_eq_zero_iff]
  exact ⟨next, ran, fun other => (destroyed other).trans (and_congr_left' last.symm)⟩

theorem Invariant.isLockTable (invariant : run.Invariant) : run.IsLockTable where
  present := invariant.present
  counted := fun _ _ entry => invariant.counted entry
  shared := fun key => (invariant.agrees key trivial).2
  tries := fun key mode _ unused => invariant.tries key mode unused
  unlocks := fun _ _ held => invariant.unlocks held

/-- In every run of calls by any threads the table is a table of reader-writer locks. -/
theorem isLockTable_of_reachable
    (reachable : (system Agent Key).Reachable Transition.anyStep run) : run.IsLockTable := by
  refine Invariant.isLockTable (reachable.invariant ?_ ?_)
  · rintro _ rfl
    exact invariant_empty
  · intro _ _ _ invariant _ taken
    exact invariant.step taken

/-- Two threads read a key that a third one fails to lock for writing; when both have unlocked it,
the writer gets it. -/
def readersThenWriter : List (LockCall ℕ ℕ) :=
  [.tryLock 0 3 .rd 7, .tryLock 1 3 .rd 8, .tryLock 2 3 .wr 8, .tryLock 2 4 .wr 8, .unlock 0 3,
    .tryLock 2 3 .wr 9, .unlock 1 3, .tryLock 2 3 .wr 9]

/-- After every call the table is one, with the readers and then with the writer. -/
theorem isLockTable_readersThenWriter :
    (∀ calls, ∃ run, (system ℕ ℕ).run empty (readersThenWriter.take calls) = some run ∧
      run.IsLockTable) ∧
    ((system ℕ ℕ).run empty (readersThenWriter.take 4)).map holders =
      some [⟨2, 4, .wr⟩, ⟨1, 3, .rd⟩, ⟨0, 3, .rd⟩] ∧
    ((system ℕ ℕ).run empty readersThenWriter).map holders =
      some [⟨2, 3, .wr⟩, ⟨2, 4, .wr⟩] := by
  have goes : ((system ℕ ℕ).run empty readersThenWriter).isSome := by decide
  refine ⟨fun calls => ?_, by decide, by decide⟩
  obtain ⟨last, replay⟩ := Option.isSome_iff_exists.mp goes
  rw [← List.take_append_drop calls readersThenWriter] at replay
  obtain ⟨run, first, -⟩ := Transition.System.run_append replay
  exact ⟨run, first, isLockTable_of_reachable
    ((Transition.System.Reachable.initial rfl).of_run Transition.System.along_anyStep first)⟩

end LockRun

end OdinVector
