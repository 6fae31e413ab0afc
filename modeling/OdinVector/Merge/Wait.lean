/-
This file proves what `merge_deletes` reads from the disk in its two passes.

`final_merge` holds `_merge_lock`, so every insert has returned; the background
thread may still have tasks. The merge waits until the queue of tasks is empty.
The background thread takes a task off the queue before it writes the pages of
the task, so the wait can end while the last task is popped and unwritten. When
it does not, the passes read what the inserts have put. The other merges wait
for `bg_tasks_inflight` as well.
-/

import OdinVector.Update.Persistence

namespace OdinVector

variable {Point Code Distance : Type} [LinearOrder Distance]

/-- Where a `final_merge` is. -/
inductive MergeWait
  /-- It has not taken `_merge_lock`. -/
  | inserts
  /-- `while (!bg_tasks.empty())`. -/
  | waiting
  /-- The two passes over the file. -/
  | reading
  deriving DecidableEq

/-- An index with the queue of the background thread and a merge. -/
structure WaitState (Point Code : Type) where
  index : IndexState Point Code
  /-- The inserts that hold `_merge_lock`. -/
  inserting : List Nat
  /-- `bg_tasks`: how many operations each task has that is not popped. They are the last ones
  that the background thread has pending. -/
  bgTasks : List Nat
  /-- The background thread has popped a task and not deleted it. -/
  popped : Bool
  /-- `bg_tasks_inflight`. -/
  bgTasksInflight : Nat
  wait : MergeWait

/-- A step of a call, of the background thread or of the merge. -/
inductive WaitAction (Point : Type)
  | call (number : Nat) (request : Request Point) (buffer : Nat → PageImage Point)
  | step (number : Nat) (choice : Choice)
  | leave (number : Nat)
  | pop
  | write
  | delete
  | lock
  | emptied

namespace WaitState

variable (params : IndexParams Point Code Distance) (state : WaitState Point Code)

/-- What the background thread has to do. -/
def bgPending : List (Op Point) := (state.index.threads .bgIoThread).pending

/-- A call starts. An insert takes `_merge_lock`, which a merge holds. -/
def call (number : Nat) (request : Request Point) (buffer : Nat → PageImage Point) :
    Option (WaitState Point Code) :=
  match request with
  | .insertInPlace _ _ =>
    if state.wait = .inserts then
      (state.index.step params (.call number request buffer)).map fun index =>
        { state with index := index, inserting := number :: state.inserting }
    else none
  | _ => (state.index.step params (.call number request buffer)).map fun index =>
    { state with index := index }

/-- A call goes on. A search expands its start node before it ends. A task that is handed
over is counted and pushed. -/
def goOn (number : Nat) (choice : Choice) : Option (WaitState Point Code) :=
  if ExpandsFirst state.index (.step (.caller number) choice) then
    (state.index.step params (.step (.caller number) choice)).map fun index =>
      let task := (index.threads .bgIoThread).pending.length - state.bgPending.length
      if task = 0 then { state with index := index }
      else
        { state with
          index := index
          bgTasks := state.bgTasks ++ [task]
          bgTasksInflight := state.bgTasksInflight + 1 }
  else none

/-- An insert returns and gives `_merge_lock` back. -/
def leave (number : Nat) : Option (WaitState Point Code) :=
  if (state.index.threads (.caller number)).phase = .finish ∧
      (state.index.threads (.caller number)).pending = [] ∧ number ∈ state.inserting then
    some { state with inserting := state.inserting.erase number }
  else none

/-- The background thread takes the next task off the queue. -/
def pop : Option (WaitState Point Code) :=
  match state.bgTasks with
  | [] => none
  | _ :: rest =>
    if state.popped then none else some { state with bgTasks := rest, popped := true }

/-- The next write or unlock of the task that was popped. -/
def write : Option (WaitState Point Code) :=
  if state.popped ∧ state.bgTasks.sum < state.bgPending.length then
    (state.index.step params (.step .bgIoThread .go)).map fun index =>
      { state with index := index }
  else none

/-- The task is done. -/
def delete : Option (WaitState Point Code) :=
  if state.popped ∧ state.bgPending.length = state.bgTasks.sum then
    some { state with popped := false, bgTasksInflight := state.bgTasksInflight - 1 }
  else none

/-- `final_merge` takes `_merge_lock`. -/
def lock : Option (WaitState Point Code) :=
  if state.wait = .inserts ∧ state.inserting = [] then some { state with wait := .waiting }
  else none

/-- The merge finds the queue empty. -/
def emptied : Option (WaitState Point Code) :=
  if state.wait = .waiting ∧ state.bgTasks = [] then some { state with wait := .reading }
  else none

def step : WaitAction Point → Option (WaitState Point Code)
  | .call number request buffer => state.call params number request buffer
  | .step number choice => state.goOn params number choice
  | .leave number => state.leave number
  | .pop => state.pop
  | .write => state.write params
  | .delete => state.delete
  | .lock => state.lock
  | .emptied => state.emptied

/-- No call runs and no merge. -/
def init (index : IndexState Point Code) : WaitState Point Code where
  index := index
  inserting := []
  bgTasks := []
  popped := false
  bgTasksInflight := 0
  wait := .inserts

end WaitState

/-- The system of the calls on an index and a merge. -/
def waitSystem (params : IndexParams Point Code Distance) :
    Transition.System (WaitState Point Code) (WaitAction Point) where
  initial state := ∃ index : IndexState Point Code, index.Persisted params ∧
    state = WaitState.init index
  step := WaitState.step params

/-! ### The inserts have returned -/

namespace WaitState

variable {params : IndexParams Point Code Distance} {state next : WaitState Point Code}

/-- None of the operations writes a page to disk. -/
def NothingToWrite (ops : List (Op Point)) : Prop :=
  ∀ op ∈ ops, match op with
    | .writeDisk _ _ => False
    | _ => True

instance (ops : List (Op Point)) : Decidable (NothingToWrite ops) :=
  have : ∀ op : Op Point, Decidable (match op with
      | .writeDisk _ _ => False
      | _ => True) := fun op => by cases op <;> dsimp only <;> infer_instance
  inferInstanceAs (Decidable (∀ op ∈ ops, _))

omit [LinearOrder Distance] in
theorem NothingToWrite.unwritten {ops : List (Op Point)} (nothing : NothingToWrite ops)
    (page : Nat) (image : PageImage Point) : .writeDisk page image ∉ ops :=
  fun member => nothing _ member

/-- What is known while the background thread and a merge run: the inserts that have not
returned hold `_merge_lock`, and the passes start with nothing left to write. -/
structure Waits (params : IndexParams Point Code Distance) (state : WaitState Point Code) :
    Prop where
  index : Persistent params state.index
  inserting : ∀ number, (state.index.threads (.caller number)).role = .insertInPlace →
    number ∈ state.inserting ∨ (state.index.threads (.caller number)).phase = .finish
  locked : state.wait ≠ .inserts → state.inserting = []
  drained : state.wait = .reading → NothingToWrite state.bgPending

omit [LinearOrder Distance] in
/-- With `_merge_lock` held every insert has handed its task over. -/
theorem Waits.finished (waits : state.Waits params) (merging : state.wait ≠ .inserts)
    {number : Nat} (role : (state.index.threads (.caller number)).role = .insertInPlace) :
    (state.index.threads (.caller number)).phase = .finish := by
  refine (waits.inserting number role).resolve_left ?_
  rw [waits.locked merging]
  exact List.not_mem_nil

/-- An insert stays what it is, and stays finished. -/
theorem calls_of_step {index later : IndexState Point Code} (phases : InPhases index.threads)
    {agent : Agent} {choice : Choice} (taken : index.step params (.step agent choice) = some later)
    (number : Nat) :
    (later.threads (.caller number)).role = (index.threads (.caller number)).role ∧
      ((index.threads (.caller number)).phase = .finish →
        (later.threads (.caller number)).phase = .finish) := by
  rcases IndexState.step_cases taken with ⟨_, _, _, called, _⟩ |
    ⟨runner, _, op, rest, _, pending, ran⟩ | ⟨runner, _, _, pending, ended⟩
  · cases called
  · obtain ⟨after, threads, same, _⟩ := execute_thread ran
    rw [threads]
    by_cases here : Agent.caller number = runner
    · subst here
      rw [Function.update_self, same.role, same.phase]
      exact ⟨rfl, fun finished => finished⟩
    · rw [Function.update_of_ne here]
      exact ⟨rfl, fun finished => finished⟩
  · have notBackground : runner ≠ .bgIoThread := by
      rintro rfl
      exact phase_of_advance ended phases.phase_of_background
    by_cases here : Agent.caller number = runner
    · subst here
      exact ⟨(advance_frame ended notBackground).role,
        fun finished => absurd finished (phase_of_advance ended)⟩
    · rcases advance_other ended here with kept | ⟨_, background, _⟩
      · rw [kept]
        exact ⟨rfl, fun finished => finished⟩
      · cases background

/-- With every insert finished the background thread gets nothing new to do. -/
theorem bgPending_of_step {index later : IndexState Point Code} (phases : InPhases index.threads)
    (finished : ∀ number, (index.threads (.caller number)).role = .insertInPlace →
      (index.threads (.caller number)).phase = .finish) {agent : Agent} {choice : Choice}
    (taken : index.step params (.step agent choice) = some later) {op : Op Point}
    (pending : op ∈ (later.threads .bgIoThread).pending) :
    op ∈ (index.threads .bgIoThread).pending := by
  rcases IndexState.step_cases taken with ⟨_, _, _, called, _⟩ |
    ⟨runner, _, head, rest, _, before, ran⟩ | ⟨runner, _, _, before, ended⟩
  · cases called
  · obtain ⟨after, threads, same, popped⟩ := execute_thread ran
    rw [threads] at pending
    by_cases here : Agent.bgIoThread = runner
    · subst here
      rw [Function.update_self] at pending
      rcases popped with ⟨left, _⟩ | ⟨_, _, _, still, _⟩
      · rw [before]
        exact List.mem_cons_of_mem _ (left ▸ pending)
      · exact still ▸ pending
    · rwa [Function.update_of_ne here] at pending
  · have notBackground : runner ≠ .bgIoThread := by
      rintro rfl
      exact phase_of_advance ended phases.phase_of_background
    rcases advance_other ended (Ne.symm notBackground) with kept | ⟨phase, _, _⟩
    · exact kept ▸ pending
    · have role := (phases.inPhase runner).isInsert (by rw [phase]; decide)
      cases runner with
      | bgIoThread => exact absurd rfl notBackground
      | caller number => exact nomatch phase.symm.trans (finished number role)

/-- The merge finds the queue empty when no write is left. -/
def WaitsForWrites (state : WaitState Point Code) : WaitAction Point → Prop
  | .emptied => state.wait = .waiting → state.bgTasks = [] → NothingToWrite state.bgPending
  | _ => True

instance (state : WaitState Point Code) (action : WaitAction Point) :
    Decidable (WaitsForWrites state action) := by
  cases action <;> unfold WaitsForWrites <;> infer_instance

/-- A call or the background thread has gone on. -/
theorem Waits.goOn (waits : state.Waits params) {agent : Agent} {choice : Choice}
    {index : IndexState Point Code} (first : ExpandsFirst state.index (.step agent choice))
    (taken : state.index.step params (.step agent choice) = some index)
    (same : next.index = index ∧ next.inserting = state.inserting ∧ next.wait = state.wait) :
    next.Waits params := by
  have calls := calls_of_step waits.index.sound.phases taken
  obtain ⟨rfl, inserting, wait⟩ := same
  refine ⟨waits.index.step first taken, fun number role => ?_, fun merging => ?_,
    fun reading op pending => ?_⟩
  · rw [(calls number).1] at role
    rw [inserting]
    exact (waits.inserting number role).imp_right (calls number).2
  · rw [inserting]
    exact waits.locked (wait ▸ merging)
  · rw [wait] at reading
    have finished : ∀ number, (state.index.threads (.caller number)).role = .insertInPlace →
        (state.index.threads (.caller number)).phase = .finish :=
      fun _ => waits.finished (by rw [reading]; nofun)
    exact waits.drained reading op
      (bgPending_of_step waits.index.sound.phases finished taken pending)

theorem Waits.call (waits : state.Waits params) {number : Nat} {request : Request Point}
    {buffer : Nat → PageImage Point} (taken : state.call params number request buffer = some next) :
    next.Waits params := by
  obtain ⟨index, started, same, wait, kept⟩ : ∃ index,
      state.index.step params (.call number request buffer) = some index ∧ next.index = index ∧
        next.wait = state.wait ∧
        ((∃ point tag, request = .insertInPlace point tag) ∧ state.wait = .inserts ∧
            next.inserting = number :: state.inserting ∨
          (∀ point tag, request ≠ .insertInPlace point tag) ∧
            next.inserting = state.inserting) := by
    unfold WaitState.call at taken
    split at taken
    · rename_i point tag
      rw [Option.ite_none_right_eq_some, Option.map_eq_some_iff] at taken
      obtain ⟨wait, index, started, rfl⟩ := taken
      exact ⟨index, started, rfl, rfl, .inl ⟨⟨point, tag, rfl⟩, wait, rfl⟩⟩
    · rename_i other
      obtain ⟨index, started, rfl⟩ := Option.map_eq_some_iff.mp taken
      exact ⟨index, started, rfl, rfl, .inr ⟨other, rfl⟩⟩
  subst same
  have others : ∀ agent, agent ≠ Agent.caller number →
      next.index.threads agent = state.index.threads agent := fun agent => start_other started
  have drained : next.wait = .reading → NothingToWrite next.bgPending := by
    rw [wait, WaitState.bgPending, others _ (by simp)]
    exact waits.drained
  have role : (next.index.threads (.caller number)).role = .insertInPlace →
      ∃ point tag, request = .insertInPlace point tag := by
    have start : state.index.start number request buffer = some next.index := started
    rw [← (IndexState.start_cases start).2]
    dsimp only
    rw [IndexState.setThread_threads_self]
    cases request with
    | insertInPlace point tag => exact fun _ => ⟨point, tag, rfl⟩
    | beamSearch | pageSearch | pipeSearch => exact fun insert => nomatch insert
  have first : ExpandsFirst state.index (.call number request buffer) := trivial
  rcases kept with ⟨_, inserts, inserting⟩ | ⟨search, inserting⟩
  · refine ⟨waits.index.step first started, fun caller insert => ?_, fun merging => ?_, drained⟩
    · rw [inserting]
      by_cases here : caller = number
      · exact .inl (here ▸ List.mem_cons_self)
      · rw [others _ (by simpa using here)] at insert ⊢
        exact (waits.inserting caller insert).imp_left (List.mem_cons_of_mem _)
    · exact absurd (wait.trans inserts) merging
  · refine ⟨waits.index.step first started, fun caller insert => ?_, fun merging => ?_, drained⟩
    · rw [inserting]
      by_cases here : caller = number
      · subst here
        obtain ⟨point, tag, same⟩ := role insert
        exact absurd same (search point tag)
      · rw [others _ (by simpa using here)] at insert ⊢
        exact waits.inserting caller insert
    · rw [inserting]
      exact waits.locked (wait ▸ merging)

theorem Waits.step (waits : state.Waits params) {action : WaitAction Point}
    (admitted : WaitsForWrites state action) (taken : state.step params action = some next) :
    next.Waits params := by
  cases action with
  | call number request buffer => exact waits.call taken
  | step number choice =>
    have taken : state.goOn params number choice = some next := taken
    rw [WaitState.goOn, Option.ite_none_right_eq_some, Option.map_eq_some_iff] at taken
    obtain ⟨first, index, moved, rfl⟩ := taken
    refine waits.goOn first moved ?_
    dsimp only
    split <;> exact ⟨rfl, rfl, rfl⟩
  | leave number =>
    have taken : state.leave number = some next := taken
    rw [WaitState.leave, Option.ite_none_right_eq_some, Option.some.injEq] at taken
    obtain ⟨⟨finished, _, _⟩, rfl⟩ := taken
    refine ⟨waits.index, fun caller role => ?_, fun merging => ?_, waits.drained⟩
    · by_cases here : caller = number
      · exact .inr (here ▸ finished)
      · refine (waits.inserting caller role).imp_left fun member => ?_
        exact (List.mem_erase_of_ne here).mpr member
    · show state.inserting.erase number = []
      rw [waits.locked merging]
      rfl
  | pop =>
    have taken : state.pop = some next := taken
    unfold WaitState.pop at taken
    split at taken
    · cases taken
    · split at taken
      · cases taken
      · obtain rfl := Option.some.inj taken
        exact ⟨waits.index, waits.inserting, waits.locked, waits.drained⟩
  | write =>
    have taken : state.write params = some next := taken
    rw [WaitState.write, Option.ite_none_right_eq_some, Option.map_eq_some_iff] at taken
    obtain ⟨_, index, moved, rfl⟩ := taken
    have first : ExpandsFirst state.index (.step .bgIoThread .go) := trivial
    exact waits.goOn first moved ⟨rfl, rfl, rfl⟩
  | delete =>
    have taken : state.delete = some next := taken
    rw [WaitState.delete, Option.ite_none_right_eq_some, Option.some.injEq] at taken
    obtain ⟨_, rfl⟩ := taken
    exact ⟨waits.index, waits.inserting, waits.locked, waits.drained⟩
  | lock =>
    have taken : state.lock = some next := taken
    rw [WaitState.lock, Option.ite_none_right_eq_some, Option.some.injEq] at taken
    obtain ⟨⟨_, returned⟩, rfl⟩ := taken
    exact ⟨waits.index, waits.inserting, fun _ => returned, nofun⟩
  | emptied =>
    have taken : state.emptied = some next := taken
    rw [WaitState.emptied, Option.ite_none_right_eq_some, Option.some.injEq] at taken
    obtain ⟨⟨waiting, empty⟩, rfl⟩ := taken
    exact ⟨waits.index, waits.inserting, fun _ => waits.locked (by rw [waiting]; nofun),
      fun _ => admitted waiting empty⟩

/-! ### What the passes read -/

/-- The passes read what was last put on every page, and nothing is left to write. -/
def ReadsCommitted (state : WaitState Point Code) : Prop :=
  state.wait = .reading → NothingToWrite state.bgPending ∧
    ∀ page, state.index.disk page = state.index.pages page

omit [LinearOrder Distance] in
theorem Waits.readsCommitted (waits : state.Waits params) : state.ReadsCommitted := by
  intro reading
  have drained := waits.drained reading
  refine ⟨drained, fun page => ?_⟩
  rcases waits.index.onDisk page with same | ⟨number, stores⟩
  · exact (congrFun (diskAfter_of_unwritten drained.unwritten) page).symm.trans same
  · have role : (state.index.threads (.caller number)).role = .insertInPlace := by
      refine (waits.index.sound.phases.inPhase _).isInsert ?_
      have persists := stores.1
      revert persists
      cases (state.index.threads (.caller number)).phase <;> decide
    have persists := stores.1
    rw [waits.finished (by rw [reading]; nofun) role] at persists
    cases persists

/-- The passes read for every id the record that the insert which last mapped it wrote. -/
def ReadsRecords (params : IndexParams Point Code Distance) (state : WaitState Point Code) : Prop :=
  state.wait = .reading → ∀ id loc, state.index.layout.id2loc id = some loc →
    recordAt params.geometry state.index.disk loc = state.index.record id

/-- The step puts no page with a mapped record on it that its insert has not read. -/
def PutsSighted (params : IndexParams Point Code Distance) (state : WaitState Point Code) :
    WaitAction Point → Prop
  | .step number choice => NoBlindPut params state.index (.step (.caller number) choice)
  | _ => True

/-- Every mapped id keeps its record. -/
theorem recorded_of_waits (waits : state.Waits params) {action : WaitAction Point}
    (recorded : Recorded params state.index) (sighted : PutsSighted params state action)
    (taken : state.step params action = some next) : Recorded params next.index := by
  have step : ∀ {move : Action Point} {index : IndexState Point Code},
      NoBlindPut params state.index move → state.index.step params move = some index →
        Recorded params index := fun sees moved =>
    recorded_step recorded waits.index.sound waits.index.buffered waits.index.mirrors
      (sees.putsKeep waits.index.sound waits.index.buffered waits.index.mirrors) moved
  cases action with
  | call number request buffer =>
    have taken : state.call params number request buffer = some next := taken
    have first : NoBlindPut params state.index (.call number request buffer) := trivial
    unfold WaitState.call at taken
    split at taken
    · rw [Option.ite_none_right_eq_some, Option.map_eq_some_iff] at taken
      obtain ⟨_, index, started, rfl⟩ := taken
      exact step first started
    · obtain ⟨index, started, rfl⟩ := Option.map_eq_some_iff.mp taken
      exact step first started
  | step number choice =>
    have taken : state.goOn params number choice = some next := taken
    rw [WaitState.goOn, Option.ite_none_right_eq_some, Option.map_eq_some_iff] at taken
    obtain ⟨_, index, moved, rfl⟩ := taken
    have sees : NoBlindPut params state.index (.step (.caller number) choice) := sighted
    have after := step sees moved
    dsimp only
    split <;> exact after
  | write =>
    have taken : state.write params = some next := taken
    rw [WaitState.write, Option.ite_none_right_eq_some, Option.map_eq_some_iff] at taken
    obtain ⟨_, index, moved, rfl⟩ := taken
    -- The background thread puts no page.
    have sees : NoBlindPut params state.index (.step .bgIoThread .go) := by
      intro page puts
      have finished := waits.index.sound.phases.phase_of_background
      unfold Thread.puts at puts
      split at puts
      · rename_i put buf rest pending
        have putting := (waits.index.sound.phases.inPhase .bgIoThread).allows (.putPage put buf)
          (pending ▸ List.mem_cons_self)
        exact nomatch finished.symm.trans putting
      · cases puts
    exact step sees moved
  | leave number =>
    have taken : state.leave number = some next := taken
    rw [WaitState.leave, Option.ite_none_right_eq_some, Option.some.injEq] at taken
    obtain ⟨_, rfl⟩ := taken
    exact recorded
  | pop =>
    have taken : state.pop = some next := taken
    unfold WaitState.pop at taken
    split at taken
    · cases taken
    · split at taken
      · cases taken
      · obtain rfl := Option.some.inj taken
        exact recorded
  | delete =>
    have taken : state.delete = some next := taken
    rw [WaitState.delete, Option.ite_none_right_eq_some, Option.some.injEq] at taken
    obtain ⟨_, rfl⟩ := taken
    exact recorded
  | lock =>
    have taken : state.lock = some next := taken
    rw [WaitState.lock, Option.ite_none_right_eq_some, Option.some.injEq] at taken
    obtain ⟨_, rfl⟩ := taken
    exact recorded
  | emptied =>
    have taken : state.emptied = some next := taken
    rw [WaitState.emptied, Option.ite_none_right_eq_some, Option.some.injEq] at taken
    obtain ⟨_, rfl⟩ := taken
    exact recorded

/-! ### Runs -/

omit [LinearOrder Distance] in
theorem waits_init {index : IndexState Point Code} (persisted : index.Persisted params) :
    (WaitState.init index).Waits params where
  index := persisted.persistent
  inserting number role :=
    absurd role (persisted.records.loaded.quiescent.not_insert (.caller number))
  locked _ := rfl
  drained := nofun

/-- In every run the passes read committed pages if and only if the wait ends when no write is
left. When moreover no insert puts a page unseen, they read the last record of every id. -/
theorem merge_reads_committed (params : IndexParams Point Code Distance)
    {index : IndexState Point Code} (persisted : index.Persisted params)
    (actions : List (WaitAction Point)) :
    ((waitSystem params).Along
        (fun state action => ∀ next, state.step params action = some next → next.ReadsCommitted)
        (WaitState.init index) actions ↔
      (waitSystem params).Along WaitsForWrites (WaitState.init index) actions) ∧
    ((waitSystem params).Along
        (fun state action => WaitsForWrites state action ∧ PutsSighted params state action)
        (WaitState.init index) actions →
      (waitSystem params).Along
        (fun state action => ∀ next, state.step params action = some next →
          next.ReadsRecords params) (WaitState.init index) actions) := by
  refine ⟨⟨?_, ?_⟩, ?_⟩
  · refine Transition.System.Along.imply (fun _ => True) (fun _ _ _ _ _ _ => trivial)
      (fun state action _ reads => ?_) trivial
    cases action with
    | emptied =>
      intro waiting empty
      have taken : state.step params .emptied = some { state with wait := .reading } :=
        if_pos ⟨waiting, empty⟩
      exact (reads _ taken rfl).1
    | _ => trivial
  · exact Transition.System.Along.imply (Waits params)
      (fun _ _ _ before admitted taken => before.step admitted taken)
      (fun _ _ before admitted _ taken => (before.step admitted taken).readsCommitted)
      (waits_init persisted)
  · refine Transition.System.Along.imply
      (fun state => state.Waits params ∧ Recorded params state.index)
      (fun _ _ _ before admitted taken => ⟨before.1.step admitted.1 taken,
        recorded_of_waits before.1 before.2 admitted.2 taken⟩)
      (fun _ _ before admitted next taken reading id loc mapped => ?_)
      ⟨waits_init persisted, persisted.records.recorded⟩
    have committed := (before.1.step admitted.1 taken).readsCommitted reading
    have recorded := recorded_of_waits before.1 before.2 admitted.2 taken id loc mapped
    rw [recordAt, committed.2]
    exact recorded

end WaitState

/-! ### A task that is popped when the queue is found empty -/

theorem smallIndex_persisted : smallIndex.Persisted smallParams where
  records := smallIndex_records
  disk := rfl

/-- An insert returns; the background thread has popped its task when a merge finds the queue
empty. -/
def poppedTask : List (WaitAction Nat) :=
  [.call 0 (.insertInPlace 2 2) fun _ _ => ⟨0, []⟩, .step 0 .go, .step 0 (.frontier [0])] ++
    List.replicate 4 (.step 0 .go) ++ .step 0 (.prune [0]) ::
      List.replicate 31 (.step 0 .go) ++ [.leave 0, .lock, .pop]

/-- The passes then read an empty slot for the new point, which the queue no longer shows. -/
theorem merge_reads_unwritten_record :
    ∃ state, (waitSystem smallParams).Reachable Transition.anyStep state ∧
      state.wait = .reading ∧ state.index.layout.id2loc 2 = some 3 ∧
        recordAt smallParams.geometry state.index.disk 3 ≠ state.index.record 2 ∧
          ¬state.ReadsCommitted := by
  refine ⟨(waitSystem smallParams).after (.init smallIndex) (poppedTask ++ [.emptied]),
    Transition.System.Reachable.after (.initial ⟨_, smallIndex_persisted, rfl⟩)
      Transition.System.along_anyStep, by decide +kernel, by decide +kernel, by decide +kernel,
    fun committed => ?_⟩
  have nothing := (committed (by decide +kernel)).1
  revert nothing
  decide +kernel

/-- A wait that ends when the background thread has written its task. -/
theorem merge_reads_committed_smallIndex :
    (waitSystem smallParams).Along (fun state action => ∀ next,
        state.step smallParams action = some next → next.ReadsCommitted)
      (.init smallIndex) (poppedTask ++ [.write, .write, .delete, .emptied]) :=
  (WaitState.merge_reads_committed smallParams smallIndex_persisted _).1.mpr (by decide +kernel)

end OdinVector
