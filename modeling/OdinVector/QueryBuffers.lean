/-
This file models who has the query buffers of an index. A search takes one and gives it back.
An insert takes one and a search inside it takes a second one; the first one goes with the
writes of the insert to the background thread, which gives it back.

`thread_data_queue` is constructed without a value for `null_T`, so a `pop` of the empty queue
returns what the memory held before. `pop_query_buf` waits only if that is null.
-/

import Mathlib.Data.List.Nodup
import Mathlib.Data.List.Perm.Basic
import OdinVector.Transition

namespace OdinVector

open Transition

/-- A `QueryBuffer *`; 0 is `nullptr`. -/
abbrev BufferPtr := Nat

/-- Where a thread is in `search` or `insert_in_place`, with the buffers that it has. -/
inductive BufferUser
  | idle
  /-- A search in `pop_query_buf`. -/
  | taking
  | searching (queryBuf : BufferPtr)
  /-- An insert in `pop_query_buf`. -/
  | insertTaking
  | inserting (readData : BufferPtr)
  /-- The search of an insert in `pop_query_buf`. -/
  | innerTaking (readData : BufferPtr)
  | innerSearching (readData queryBuf : BufferPtr)
  | committing (readData : BufferPtr)
  deriving DecidableEq

namespace BufferUser

/-- The buffers that a thread has. -/
def held : BufferUser → List BufferPtr
  | idle | taking | insertTaking => []
  | searching buf | inserting buf | innerTaking buf | committing buf => [buf]
  | innerSearching readData queryBuf => [readData, queryBuf]

/-- `pop_query_buf` returns a buffer. -/
def receive (buf : BufferPtr) : BufferUser → Option BufferUser
  | taking => some (searching buf)
  | insertTaking => some (inserting buf)
  | innerTaking readData => some (innerSearching readData buf)
  | _ => none

end BufferUser

/-- The buffers of an index and the threads that use it. -/
structure BufferState where
  /-- `thread_data_queue`. -/
  queue : List BufferPtr
  /-- `null_T` of the queue: what the memory held before. -/
  nullT : BufferPtr
  users : List BufferUser
  /-- `thread_data` of the tasks in `bg_tasks`. -/
  bgTasks : List BufferPtr
  /-- `thread_data` of the task that the background thread works on. -/
  bgTask : Option BufferPtr
  deriving DecidableEq

inductive BufferAction
  | search (thread : Nat)
  | insert (thread : Nat)
  /-- `pop` in `pop_query_buf`, the first one or one after a wait. -/
  | pop (thread : Nat)
  | innerSearch (thread : Nat)
  | push (thread : Nat)
  /-- The end of an insert; whether `page_ref` is empty. -/
  | commit (thread : Nat) (pageRefEmpty : Bool)
  | bgPop
  | bgPush
  deriving DecidableEq

namespace BufferState

variable (state : BufferState)

/-- A thread goes on to its next place. -/
def setUser (thread : Nat) (user : BufferUser) : BufferState :=
  { state with users := state.users.set thread user }

/-- `ConcurrentQueue::pop`. -/
def popQueue : BufferPtr × List BufferPtr :=
  match state.queue with
  | [] => (state.nullT, [])
  | first :: rest => (first, rest)

/-- A step of `pop_query_buf`: with a null pointer the thread waits and pops again. -/
def popStep (thread : Nat) : Option BufferState :=
  match state.users[thread]? with
  | none => none
  | some user =>
    (user.receive state.popQueue.1).map fun received =>
      if state.popQueue.1 = 0 then { state with queue := state.popQueue.2 }
      else { state.setUser thread received with queue := state.popQueue.2 }

def step : BufferAction → Option BufferState
  | .search thread =>
    if state.users[thread]? = some .idle then some (state.setUser thread .taking) else none
  | .insert thread =>
    if state.users[thread]? = some .idle then some (state.setUser thread .insertTaking) else none
  | .pop thread => state.popStep thread
  | .innerSearch thread =>
    match state.users[thread]? with
    | some (.inserting readData) => some (state.setUser thread (.innerTaking readData))
    | _ => none
  | .push thread =>
    match state.users[thread]? with
    | some (.searching buf) =>
      some { state.setUser thread .idle with queue := state.queue ++ [buf] }
    | some (.innerSearching readData buf) =>
      some { state.setUser thread (.committing readData) with queue := state.queue ++ [buf] }
    | _ => none
  | .commit thread pageRefEmpty =>
    match state.users[thread]? with
    | some (.committing readData) =>
      if pageRefEmpty then some (state.setUser thread .idle)
      else some { state.setUser thread .idle with bgTasks := state.bgTasks ++ [readData] }
    | _ => none
  | .bgPop =>
    match state.bgTask, state.bgTasks with
    | none, first :: rest => some { state with bgTask := some first, bgTasks := rest }
    | _, _ => none
  | .bgPush =>
    match state.bgTask with
    | some buf => some { state with bgTask := none, queue := state.queue ++ [buf] }
    | none => none

/-- The buffers that operations have. -/
def inHand : List BufferPtr :=
  state.bgTasks ++ (state.bgTask.toList ++ state.users.flatMap BufferUser.held)

/-- The buffers that are free and those that operations have. -/
def owned : List BufferPtr := state.queue ++ state.inHand

/-- A pop of the empty queue finds a null pointer in `null_T`, and an insert has pages to
dereference. -/
def Admits : BufferAction → Prop
  | .pop _ => state.queue = [] → state.nullT = 0
  | .commit _ pageRefEmpty => pageRefEmpty = false
  | .search _ | .insert _ | .innerSearch _ | .push _ | .bgPop | .bgPush => True

instance : DecidablePred state.Admits
  | .pop _ => inferInstanceAs (Decidable (_ → _))
  | .commit _ _ => inferInstanceAs (Decidable (_ = _))
  | .search _ | .insert _ | .innerSearch _ | .push _ | .bgPop | .bgPush => .isTrue trivial

end BufferState

/-- The system of an index with these buffers, used by any number of threads. -/
def bufferSystem (buffers : List BufferPtr) : System BufferState BufferAction where
  initial state := buffers.Nodup ∧ 0 ∉ buffers ∧ state.queue = buffers ∧
    (∀ user ∈ state.users, user = .idle) ∧ state.bgTasks = [] ∧ state.bgTask = none
  step := BufferState.step

namespace BufferState

variable {state next : BufferState}

theorem popStep_empty (empty : state.queue = []) (null : state.nullT = 0) {thread : Nat}
    (taken : state.popStep thread = some next) : next = state := by
  unfold popStep at taken
  split at taken
  · cases taken
  · obtain ⟨received, _, same⟩ := Option.map_eq_some_iff.mp taken
    have popped : state.popQueue = (0, []) := by
      unfold popQueue
      rw [empty, null]
    rw [popped, if_pos rfl, ← empty] at same
    exact same.symm

theorem popStep_first {buf : BufferPtr} {rest : List BufferPtr} (free : state.queue = buf :: rest)
    (real : buf ≠ 0) {thread : Nat} (taken : state.popStep thread = some next) :
    ∃ user received, state.users[thread]? = some user ∧ user.receive buf = some received ∧
      next = { state.setUser thread received with queue := rest } := by
  unfold popStep at taken
  split at taken
  · cases taken
  · rename_i user here
    obtain ⟨received, receives, same⟩ := Option.map_eq_some_iff.mp taken
    have popped : state.popQueue = (buf, rest) := by
      unfold popQueue
      rw [free]
    rw [popped] at receives same
    rw [if_neg real] at same
    exact ⟨user, received, here, receives, same.symm⟩

/-! ### No buffer is lost -/

theorem held_receive {user received : BufferUser} {buf : BufferPtr}
    (receives : user.receive buf = some received) : received.held = user.held ++ [buf] := by
  cases user with
  | taking | insertTaking | innerTaking readData =>
    obtain rfl := Option.some.inj receives
    rfl
  | _ => cases receives

/-- What one thread has, apart from the others. -/
theorem exists_others {users : List BufferUser} {thread : Nat} {old : BufferUser}
    (here : users[thread]? = some old) :
    ∃ others, (users.flatMap BufferUser.held).Perm (old.held ++ others) ∧
      ∀ new, ((users.set thread new).flatMap BufferUser.held).Perm (new.held ++ others) := by
  induction users generalizing thread with
  | nil => cases here
  | cons first rest inductionHypothesis =>
    cases thread with
    | zero =>
      obtain rfl := Option.some.inj here
      exact ⟨rest.flatMap BufferUser.held, .refl _, fun new => .refl _⟩
    | succ thread =>
      obtain ⟨others, before, after⟩ := inductionHypothesis here
      refine ⟨first.held ++ others, ?_, fun new => ?_⟩
      · exact (before.append_left first.held).trans (List.perm_append_comm_assoc _ _ _)
      · exact ((after new).append_left first.held).trans (List.perm_append_comm_assoc _ _ _)

/-- A thread that has the same buffers afterwards, up to those that the queues have instead. -/
theorem owned_setUser {thread : Nat} {old new : BufferUser}
    (here : state.users[thread]? = some old) {queue bgTasks : List BufferPtr}
    (same : (queue ++ bgTasks ++ new.held).Perm (state.queue ++ state.bgTasks ++ old.held)) :
    ({ state.setUser thread new with queue := queue, bgTasks := bgTasks } : BufferState).owned.Perm
      state.owned := by
  obtain ⟨others, before, after⟩ := exists_others here
  have split : ∀ {queue bgTasks held users : List BufferPtr}, users.Perm (held ++ others) →
      (queue ++ (bgTasks ++ (state.bgTask.toList ++ users))).Perm
        ((queue ++ bgTasks ++ held) ++ (state.bgTask.toList ++ others)) := by
    intro queue bgTasks held users isUsers
    rw [← List.append_assoc, List.append_assoc (queue ++ bgTasks)]
    refine List.Perm.append_left _ ?_
    exact (isUsers.append_left _).trans (List.perm_append_comm_assoc _ _ _)
  exact (split (after new)).trans ((same.append_right _).trans (split before).symm)

/-- The free buffers and those in hand are the buffers of the index. -/
def Conserved (buffers : List BufferPtr) (state : BufferState) : Prop :=
  state.owned.Perm buffers

theorem step_conserved {buffers : List BufferPtr} (nonnull : 0 ∉ buffers)
    (conserved : state.Conserved buffers) {action : BufferAction} (admitted : state.Admits action)
    (taken : state.step action = some next) : next.Conserved buffers := by
  suffices same : next.owned.Perm state.owned from same.trans conserved
  cases action with
  | search thread | insert thread =>
    obtain ⟨here, same⟩ := Option.ite_none_right_eq_some.mp taken
    obtain rfl := Option.some.inj same
    exact owned_setUser here (.refl _)
  | pop thread =>
    cases free : state.queue with
    | nil => rw [popStep_empty free (admitted free) taken]
    | cons first rest =>
      have member : first ∈ state.owned := by
        unfold owned
        rw [free]
        exact List.mem_cons_self
      have real : first ≠ 0 := fun null => nonnull (null ▸ conserved.mem_iff.mp member)
      obtain ⟨user, received, here, receives, rfl⟩ := popStep_first free real taken
      refine owned_setUser here ?_
      rw [held_receive receives, free]
      show (rest ++ state.bgTasks ++ (user.held ++ [first])).Perm
        (first :: (rest ++ state.bgTasks ++ user.held))
      rw [← List.append_assoc]
      exact List.perm_append_singleton _ _
  | innerSearch thread =>
    have taken : (match state.users[thread]? with
      | some (.inserting readData) => some (state.setUser thread (.innerTaking readData))
      | _ => none) = some next := taken
    split at taken
    · rename_i readData here
      obtain rfl := Option.some.inj taken
      exact owned_setUser here (.refl _)
    · cases taken
  | push thread =>
    have back : ∀ {queue bgTasks held : List BufferPtr} {buf : BufferPtr},
        (queue ++ [buf] ++ bgTasks ++ held).Perm (queue ++ bgTasks ++ (held ++ [buf])) := by
      intro queue bgTasks held buf
      rw [List.append_assoc queue, List.append_assoc queue, List.append_assoc queue]
      refine List.Perm.append_left queue ?_
      rw [List.append_assoc [buf], ← List.append_assoc bgTasks]
      exact List.perm_append_comm
    have taken : (match state.users[thread]? with
      | some (.searching buf) =>
        some { state.setUser thread .idle with queue := state.queue ++ [buf] }
      | some (.innerSearching readData buf) =>
        some { state.setUser thread (.committing readData) with queue := state.queue ++ [buf] }
      | _ => none) = some next := taken
    split at taken
    · rename_i buf here
      obtain rfl := Option.some.inj taken
      exact owned_setUser here back
    · rename_i readData buf here
      obtain rfl := Option.some.inj taken
      exact owned_setUser here back
    · cases taken
  | commit thread pageRefEmpty =>
    have full : pageRefEmpty = false := admitted
    subst full
    have taken : (match state.users[thread]? with
      | some (.committing readData) =>
        some { state.setUser thread .idle with bgTasks := state.bgTasks ++ [readData] }
      | _ => none) = some next := taken
    split at taken
    · rename_i readData here
      obtain rfl := Option.some.inj taken
      refine owned_setUser here (.of_eq ?_)
      show state.queue ++ (state.bgTasks ++ [readData]) ++ [] = _
      rw [List.append_nil, List.append_assoc]
      rfl
    · cases taken
  | bgPop =>
    have taken : (match state.bgTask, state.bgTasks with
      | none, first :: rest => some { state with bgTask := some first, bgTasks := rest }
      | _, _ => none) = some next := taken
    split at taken
    · rename_i first rest free tasks
      obtain rfl := Option.some.inj taken
      unfold owned inHand
      rw [tasks, free]
      refine List.Perm.append_left _ ?_
      show (rest ++ (first :: state.users.flatMap _)).Perm (first :: (rest ++ state.users.flatMap _))
      exact List.perm_middle
    · cases taken
  | bgPush =>
    have taken : (match state.bgTask with
      | some buf => some { state with bgTask := none, queue := state.queue ++ [buf] }
      | none => none) = some next := taken
    split at taken
    · rename_i buf works
      obtain rfl := Option.some.inj taken
      unfold owned inHand
      rw [works, List.append_assoc]
      refine List.Perm.append_left _ ?_
      show (buf :: (state.bgTasks ++ state.users.flatMap _)).Perm
        (state.bgTasks ++ (buf :: state.users.flatMap _))
      exact List.perm_middle.symm
    · cases taken

/-! ### One owner -/

/-- Every buffer of the index is in one place. -/
structure OneOwner (buffers : List BufferPtr) (state : BufferState) : Prop where
  conserved : state.Conserved buffers
  nodup : state.owned.Nodup

/-- With no free buffer the thread waits, otherwise it takes one that no operation has. -/
def PopsFree (buffers : List BufferPtr) (state : BufferState) (thread : Nat)
    (next : BufferState) : Prop :=
  state.queue = [] ∧ next = state ∨
    ∃ buf rest user received, state.queue = buf :: rest ∧ buf ∈ buffers ∧ buf ∉ state.inHand ∧
      state.users[thread]? = some user ∧ user.receive buf = some received ∧
      next = { state.setUser thread received with queue := rest }

theorem Conserved.oneOwner {buffers : List BufferPtr} (nodup : buffers.Nodup)
    (conserved : state.Conserved buffers) : state.OneOwner buffers :=
  ⟨conserved, conserved.nodup_iff.mpr nodup⟩

theorem OneOwner.popsFree {buffers : List BufferPtr} (nonnull : 0 ∉ buffers)
    (oneOwner : state.OneOwner buffers) {thread : Nat} (admitted : state.Admits (.pop thread))
    (taken : state.step (.pop thread) = some next) : state.PopsFree buffers thread next := by
  cases free : state.queue with
  | nil => exact .inl ⟨free, popStep_empty free (admitted free) taken⟩
  | cons buf rest =>
    have first : buf ∈ state.queue := by
      rw [free]
      exact List.mem_cons_self
    have known : buf ∈ buffers := oneOwner.conserved.mem_iff.mp (List.mem_append_left _ first)
    have real : buf ≠ 0 := fun null => nonnull (null ▸ known)
    obtain ⟨user, received, here, receives, same⟩ := popStep_first free real taken
    have unheld : buf ∉ state.inHand := fun held =>
      (List.nodup_append.mp oneOwner.nodup).2.2 buf first buf held rfl
    exact .inr ⟨buf, rest, user, received, free, known, unheld, here, receives, same⟩

theorem initial_conserved {buffers : List BufferPtr}
    (begins : (bufferSystem buffers).initial state) : state.Conserved buffers := by
  obtain ⟨_, _, free, idle, tasks, task⟩ := begins
  have empty : state.users.flatMap BufferUser.held = [] := by
    refine List.flatMap_eq_nil_iff.mpr fun user member => ?_
    rw [idle user member]
    rfl
  unfold Conserved owned inHand
  rw [free, tasks, task, empty]
  show (buffers ++ []).Perm buffers
  rw [List.append_nil]

end BufferState

/-- Every buffer has one owner in every state that is reached while pops of the empty queue
find a null pointer and every insert hands its buffer to the background thread. -/
theorem bufferSystem_oneOwner {buffers : List BufferPtr} {state : BufferState}
    (reachable : (bufferSystem buffers).Reachable BufferState.Admits state) :
    state.OneOwner buffers ∧ ∀ thread next, state.Admits (.pop thread) →
      state.step (.pop thread) = some next → state.PopsFree buffers thread next := by
  have start : ∀ state, (bufferSystem buffers).initial state →
      (buffers.Nodup ∧ 0 ∉ buffers) ∧ state.Conserved buffers :=
    fun state begins => ⟨⟨begins.1, begins.2.1⟩, BufferState.initial_conserved begins⟩
  have keep : ∀ state action next, (buffers.Nodup ∧ 0 ∉ buffers) ∧ state.Conserved buffers →
      state.Admits action → (bufferSystem buffers).step state action = some next →
        (buffers.Nodup ∧ 0 ∉ buffers) ∧ next.Conserved buffers :=
    fun state action next known admitted taken =>
      ⟨known.1, BufferState.step_conserved known.1.2 known.2 admitted taken⟩
  obtain ⟨⟨nodup, nonnull⟩, conserved⟩ := reachable.invariant start keep
  have oneOwner := conserved.oneOwner nodup
  exact ⟨oneOwner, fun thread next admitted taken => oneOwner.popsFree nonnull admitted taken⟩

/-- Two buffers and as many threads as there are `users`, before any call. -/
def twoBuffers (nullT : BufferPtr) (users : List BufferUser) : BufferState where
  queue := [1, 2]
  nullT
  users
  bgTasks := []
  bgTask := none

/-- An insert that has both buffers, and a search that waits. -/
theorem bufferSystem_oneOwner_waiting :
    let state := (bufferSystem [1, 2]).after (twoBuffers 0 [.idle, .idle])
      [.insert 0, .pop 0, .innerSearch 0, .pop 0, .search 1]
    state.OneOwner [1, 2] ∧ ∀ thread next, state.Admits (.pop thread) →
      state.step (.pop thread) = some next → state.PopsFree [1, 2] thread next := by
  have begins : (bufferSystem [1, 2]).initial (twoBuffers 0 [.idle, .idle]) := by
    refine ⟨by decide, by decide, rfl, ?_, rfl, rfl⟩
    show ∀ user ∈ [BufferUser.idle, .idle], user = .idle
    decide
  have along : (bufferSystem [1, 2]).Along BufferState.Admits (twoBuffers 0 [.idle, .idle])
      [.insert 0, .pop 0, .innerSearch 0, .pop 0, .search 1] := by
    decide +kernel
  exact bufferSystem_oneOwner (.after (.initial begins) along)

/-- The inner search of the second insert finds the queue empty and takes what the memory held
before, and there are three buffers then. -/
theorem not_oneOwner_nullT : ¬ ∀ state, (bufferSystem [1, 2]).Reachable anyStep state →
    state.OneOwner [1, 2] ∧ ∀ thread next,
      state.step (.pop thread) = some next → state.PopsFree [1, 2] thread next := by
  intro always
  have begins : (bufferSystem [1, 2]).initial (twoBuffers 99 [.idle]) := by
    refine ⟨by decide, by decide, rfl, ?_, rfl, rfl⟩
    show ∀ user ∈ [BufferUser.idle], user = .idle
    decide
  have reached : (bufferSystem [1, 2]).Reachable anyStep
      ((bufferSystem [1, 2]).after (twoBuffers 99 [.idle])
        [.insert 0, .pop 0, .innerSearch 0, .pop 0, .push 0, .commit 0 false,
          .insert 0, .pop 0, .innerSearch 0, .pop 0]) :=
    .after (.initial begins) System.along_anyStep
  exact absurd (always _ reached).1.conserved.length_eq (by decide +kernel)

end OdinVector
