/-
This file is about calls that wait for each other. Inserts, beam searches and
page searches take all their locks in one order, so they never wait in a circle.

`pipe_search` takes the lock of its next read while it holds those of the reads
in flight, in the order of its queue. With an insert that takes its idx locks in
ascending order this can close a circle. It cannot as long as no `pipe_search`
fails to take a lock below one that it holds.
-/

import OdinVector.Update.Agreement

namespace OdinVector

open LockOrder

variable {Point Code Distance : Type}

/-- The lock that the next operation of a thread takes, with the mode. -/
def Thread.wanted (thread : Thread Point) : Option (LockKey × Mode) :=
  match thread.pending with
  | .lock lock mode :: _ => some (lock, mode)
  | _ => none

/-- The next operation of the agent is to take the lock. -/
def WaitsFor (state : IndexState Point Code) (agent : Agent) (lock : LockKey) : Prop :=
  (state.threads agent).wanted.map Prod.fst = some lock

theorem waitsFor_iff {state : IndexState Point Code} {agent : Agent} {lock : LockKey} :
    WaitsFor state agent lock ↔
      ∃ mode rest, (state.threads agent).pending = .lock lock mode :: rest := by
  rw [WaitsFor, Thread.wanted]
  constructor
  · intro wanted
    split at wanted
    · obtain rfl := Option.some.inj wanted
      exact ⟨_, _, ‹_›⟩
    · cases wanted
  · rintro ⟨mode, rest, pending⟩
    rw [pending]
    rfl

/-- The agent has tried to take the lock and failed. -/
def SpinsFor (state : IndexState Point Code) (agent : Agent) (lock : LockKey) : Prop :=
  (state.threads agent).spinning = true ∧ WaitsFor state agent lock

/-- The agent has the lock in hand. -/
def Holds (state : IndexState Point Code) (agent : Agent) (lock : LockKey) : Prop :=
  lock ∈ Holding.heldBy state.holders agent

section Waiting

variable {params : IndexParams Point Code Distance} {state next : IndexState Point Code}
  {agent : Agent}

/-- A call other than `pipe_search` waits for a lock above all it holds. -/
theorem KeepsRules.level_lt (keeps : KeepsRules state.threads state.holders)
    (notPipe : (state.threads agent).role ≠ .pipeSearch) {lock : LockKey}
    (waits : WaitsFor state agent lock) {held : LockKey} (holds : Holds state agent held) :
    held.level < lock.level := by
  obtain ⟨mode, rest, pending⟩ := waitsFor_iff.mp waits
  have own := keeps agent
  rw [Thread.program, pending] at own
  exact own.1 notPipe held holds

variable [LinearOrder Distance]

/-! ### Inserts, beam searches and page searches -/

/-- The action does not start a `pipe_search`. -/
def Action.NotPipe : Action Point → Prop
  | .call _ .pipeSearch _ => False
  | _ => True

instance (action : Action Point) : Decidable action.NotPipe :=
  match action with
  | .call _ .pipeSearch _ => inferInstanceAs (Decidable False)
  | .call _ (.insertInPlace _ _) _ | .call _ .beamSearch _ | .call _ .pageSearch _ =>
    inferInstanceAs (Decidable True)
  | .step _ _ => inferInstanceAs (Decidable True)

theorem role_step {action : Action Point} (phases : InPhases state.threads)
    (notPipe : action.NotPipe) (searches : (state.threads agent).role ≠ .pipeSearch)
    (taken : state.step params action = some next) :
    (next.threads agent).role ≠ .pipeSearch := by
  rcases IndexState.step_cases taken with ⟨number, request, _, rfl, started⟩ |
    ⟨runner, _, _, _, _, _, ran⟩ | ⟨runner, _, _, _, ended⟩
  · by_cases starts : agent = .caller number
    · subst starts
      obtain ⟨_, rfl⟩ := IndexState.start_cases started
      dsimp only
      rw [IndexState.setThread_threads_self]
      cases request with
      | pipeSearch => exact notPipe.elim
      | _ => exact nofun
    · rwa [start_other started starts]
  · obtain ⟨later, threads, same, _⟩ := execute_thread ran
    by_cases runs : agent = runner
    · subst runs
      rwa [threads, Function.update_self, same.role]
    · rwa [threads, Function.update_of_ne runs]
  · by_cases runs : agent = runner
    · subst runs
      have notBackground : agent ≠ .bgIoThread := by
        rintro rfl
        exact phase_of_advance ended phases.phase_of_background
      rwa [(advance_frame ended notBackground).role]
    · rcases advance_other ended runs with kept | ⟨_, _, kept⟩ <;> rwa [kept]

/-- Inserts, beam searches and page searches never wait for each other in a circle, whatever
the lock tables and however the keys of `lock_page_idx` change. -/
theorem inserts_and_searches_never_deadlock (params : IndexParams Point Code Distance)
    (reachable : (updateSystem params (IndexState.Loaded params)).Reachable
      (fun _ action => action.NotPipe) state) (threads : Finset Agent) :
    ¬ CircularWait (WaitsFor state) (Holds state) threads := by
  have sound := sound_of_reachable (fun _ loaded => loaded) reachable
  have searches : ∀ agent, (state.threads agent).role ≠ .pipeSearch := by
    have start : ∀ first : IndexState Point Code, first.Loaded params →
        InPhases first.threads ∧ ∀ agent, (first.threads agent).role ≠ .pipeSearch := by
      refine fun first loaded => ⟨loaded.quiescent.inPhases, fun agent => ?_⟩
      cases agent with
      | bgIoThread =>
        rw [loaded.quiescent.bgIo.1]
        nofun
      | caller number =>
        rw [(loaded.quiescent.callers number).1]
        nofun
    have keep : ∀ (before : IndexState Point Code) (action : Action Point)
        (after : IndexState Point Code), InPhases before.threads ∧
          (∀ agent, (before.threads agent).role ≠ .pipeSearch) → action.NotPipe →
            before.step params action = some after → InPhases after.threads ∧
              ∀ agent, (after.threads agent).role ≠ .pipeSearch :=
      fun _ _ _ kept notPipe taken => ⟨inPhases_step kept.1 taken,
        fun agent => role_step kept.1 notPipe (kept.2 agent) taken⟩
    exact (reachable.invariant start keep).2
  exact not_circularWait LockKey.level fun agent _ lock waits held holds =>
    sound.keeps.level_lt (searches agent) waits holds

/-- A run of an insert with two neighbours up to its idx locks. -/
def insertToIdxLocks : List (Action Nat) :=
  [.call 0 (.insertInPlace 2 2) fun _ _ => ⟨0, []⟩, .step (.caller 0) .go,
    .step (.caller 0) (.frontier [0, 1])] ++ List.replicate 7 (.step (.caller 0) .go) ++
    .step (.caller 0) (.prune [0, 1]) :: List.replicate 21 (.step (.caller 0) .go)

/-- The insert has the idx locks, and a `beam_search` that sees id 0 is to take its lock. -/
def searchWaits : List (Action Nat) :=
  insertToIdxLocks ++ List.replicate 3 (.step (.caller 0) .go) ++
    [.call 1 .beamSearch fun _ _ => ⟨0, []⟩, .step (.caller 1) (.frontier [0]),
      .step (.caller 1) .go]

/-- The search waits for a lock of the insert, but the two do not wait in a circle. -/
theorem inserts_and_searches_never_deadlock_search :
    ((updateSystem smallParams (IndexState.Loaded smallParams)).run smallIndex
        searchWaits).isSome = true ∧
      SpinsFor ((updateSystem smallParams (IndexState.Loaded smallParams)).after smallIndex
        searchWaits) (.caller 1) (.idx 0) ∧
      Holds ((updateSystem smallParams (IndexState.Loaded smallParams)).after smallIndex
        searchWaits) (.caller 0) (.idx 0) ∧
      ¬ CircularWait
        (WaitsFor ((updateSystem smallParams (IndexState.Loaded smallParams)).after smallIndex
          searchWaits))
        (Holds ((updateSystem smallParams (IndexState.Loaded smallParams)).after smallIndex
          searchWaits)) {.caller 0, .caller 1} := by
  refine ⟨by decide +kernel, ⟨by decide +kernel, by unfold WaitsFor; decide +kernel⟩,
    by unfold Holds; decide +kernel, ?_⟩
  exact inserts_and_searches_never_deadlock smallParams
    ((Transition.System.Reachable.initial smallIndex_loaded.loaded).after
      (Transition.System.along_of_all (by decide))) _

/-! ### `pipe_search` -/

/-- A `pipe_search` that fails to take a lock holds only lower ones. -/
def FailsAbove (state : IndexState Point Code) : Action Point → Prop
  | .step agent _ => (state.threads agent).role = .pipeSearch →
      ∀ wanted ∈ (state.threads agent).wanted, state.locks.tryLock wanted.1 wanted.2 = none →
        ∀ held ∈ Holding.heldBy state.holders agent, held.level < wanted.1.level
  | .call _ _ _ => True

instance (state : IndexState Point Code) (action : Action Point) :
    Decidable (FailsAbove state action) :=
  match action with
  | .call _ _ _ => inferInstanceAs (Decidable True)
  | .step agent _ => inferInstanceAs (Decidable (_ → ∀ wanted ∈ (state.threads agent).wanted,
      state.locks.tryLock wanted.1 wanted.2 = none →
        ∀ held ∈ Holding.heldBy state.holders agent, held.level < wanted.1.level))

/-- A call that spins waits for a lock above all it holds. -/
def SpinsAbove (state : IndexState Point Code) : Prop :=
  ∀ agent, (state.threads agent).spinning = true → ∃ lock, WaitsFor state agent lock ∧
    ∀ held, Holds state agent held → held.level < lock.level

omit [LinearOrder Distance] in
/-- A thread that does not spin is as it was, or has just been told not to. -/
theorem SpinsAbove.update (spins : SpinsAbove state) {later : Thread Point}
    (threads : next.threads = Function.update state.threads agent later)
    (holders : ∀ other, other ≠ agent →
      Holding.heldBy next.holders other = Holding.heldBy state.holders other)
    (own : later.spinning = true → ∃ lock, WaitsFor next agent lock ∧
      ∀ held, Holds next agent held → held.level < lock.level) : SpinsAbove next := by
  intro other spinning
  by_cases same : other = agent
  · subst same
    rw [threads, Function.update_self] at spinning
    exact own spinning
  · rw [threads, Function.update_of_ne same] at spinning
    obtain ⟨lock, waits, above⟩ := spins other spinning
    refine ⟨lock, ?_, fun held holds => above held ?_⟩
    · rwa [WaitsFor, threads, Function.update_of_ne same]
    · rwa [Holds, holders other same] at holds

omit [LinearOrder Distance] in
/-- A thread whose next operation takes no lock does not spin. -/
theorem SpinsAbove.not_spinning (spins : SpinsAbove state)
    (ready : ∀ lock, ¬ WaitsFor state agent lock) : (state.threads agent).spinning = false := by
  by_contra spinning
  obtain ⟨lock, waits, _⟩ := spins agent (Bool.not_eq_false _ ▸ spinning)
  exact ready lock waits

theorem SpinsAbove.execute (spins : SpinsAbove state)
    (keeps : KeepsRules state.threads state.holders) {op : Op Point} {rest : List (Op Point)}
    (pending : (state.threads agent).pending = op :: rest) {choice : Choice}
    (fails : FailsAbove state (.step agent choice))
    (taken : state.execute params agent { state.threads agent with pending := rest } op =
      some next) : SpinsAbove next := by
  obtain ⟨later, threads, same, _⟩ := execute_thread taken
  have here : next.threads agent = later := by rw [threads, Function.update_self]
  have holders : ∀ other, other ≠ agent →
      Holding.heldBy next.holders other = Holding.heldBy state.holders other := by
    intro other different
    rcases execute_locks taken with ⟨_, kept⟩ | ⟨lock, mode, _, _, took⟩ | ⟨lock, _, _, gave⟩
    · rw [kept]
    · rw [took, Holding.heldBy_cons_other (Ne.symm different)]
    · rw [gave, Holding.heldBy_release_other (Ne.symm different)]
  have still : (∀ lock, ¬ WaitsFor state agent lock) → later.spinning =
      (state.threads agent).spinning → SpinsAbove next := by
    intro ready kept
    refine spins.update threads holders fun spinning => ?_
    rw [kept, spins.not_spinning ready] at spinning
    cases spinning
  cases op with
  | lock lock mode =>
    simp only [IndexState.execute, IndexState.tryLock, Option.some.injEq] at taken
    cases free : state.locks.tryLock lock mode with
    | some locks =>
      simp only [free] at taken
      subst taken
      refine spins.update threads holders fun spinning => ?_
      rw [← here] at spinning
      simp only [IndexState.setThread, Function.update_self] at spinning
      cases spinning
    | none =>
      simp only [free] at taken
      subst taken
      refine spins.update threads holders fun _ =>
        ⟨lock, waitsFor_iff.mpr ⟨mode, rest, ?_⟩, fun held holds => ?_⟩
      · simp only [IndexState.setThread, Function.update_self]
        exact pending
      · by_cases isPipe : (state.threads agent).role = .pipeSearch
        · have wanted : (lock, mode) ∈ (state.threads agent).wanted := by
            rw [Thread.wanted, pending]
            exact Option.mem_some_self _
          exact fails isPipe (lock, mode) wanted free held holds
        · exact keeps.level_lt isPipe (waitsFor_iff.mpr ⟨mode, rest, pending⟩) holds
  | locate | planNeighbor | writeTarget | remap | sendRead =>
    have ready : ∀ lock, ¬ WaitsFor state agent lock := by
      intro lock waits
      obtain ⟨_, _, wanted⟩ := waitsFor_iff.mp waits
      cases pending.symm.trans wanted
    simp only [IndexState.execute, Option.map_eq_some_iff] at taken
    obtain ⟨_, _, rfl⟩ := taken
    refine still ready ?_
    rw [← here]
    simp only [IndexState.mapId, IndexState.setThread, Function.update_self, IndexState.editBuf]
  | snapshot | writeNeighbor =>
    have ready : ∀ lock, ¬ WaitsFor state agent lock := by
      intro lock waits
      obtain ⟨_, _, wanted⟩ := waitsFor_iff.mp waits
      cases pending.symm.trans wanted
    simp only [IndexState.execute, Option.bind_eq_some_iff, Option.map_eq_some_iff] at taken
    obtain ⟨_, _, _, _, rfl⟩ := taken
    refine still ready ?_
    rw [← here]
    simp only [IndexState.setThread, Function.update_self, IndexState.editBuf]
  | unlock | readFrontier | readPage | putPage | writeDisk =>
    have ready : ∀ lock, ¬ WaitsFor state agent lock := by
      intro lock waits
      obtain ⟨_, _, wanted⟩ := waitsFor_iff.mp waits
      cases pending.symm.trans wanted
    simp only [IndexState.execute, Option.some.injEq] at taken
    subst taken
    refine still ready ?_
    rw [← here]
    simp only [IndexState.setThread, Function.update_self]

theorem SpinsAbove.step (spins : SpinsAbove state) (phases : InPhases state.threads)
    (keeps : KeepsRules state.threads state.holders) {action : Action Point}
    (fails : FailsAbove state action) (taken : state.step params action = some next) :
    SpinsAbove next := by
  rcases IndexState.step_cases taken with ⟨number, request, _, rfl, started⟩ |
    ⟨agent, choice, _, _, rfl, pending, ran⟩ | ⟨agent, _, _, pending, ended⟩
  · obtain ⟨_, rfl⟩ := IndexState.start_cases started
    refine spins.update rfl (fun _ _ => rfl) fun spinning => ?_
    cases request <;> cases spinning
  · exact spins.execute keeps pending fails ran
  · have notBackground : agent ≠ .bgIoThread := by
      rintro rfl
      exact phase_of_advance ended phases.phase_of_background
    have frame := advance_frame ended notBackground
    have still : (state.threads agent).spinning = false := by
      refine spins.not_spinning ?_
      intro lock waits
      obtain ⟨_, _, wanted⟩ := waitsFor_iff.mp waits
      exact nomatch pending.symm.trans wanted
    have background : (state.threads .bgIoThread).spinning = false := by
      refine spins.not_spinning ?_
      intro lock waits
      obtain ⟨mode, rest, wanted⟩ := waitsFor_iff.mp waits
      have allows := (phases.inPhase .bgIoThread).allows (.lock lock mode)
        (by rw [wanted]; exact List.mem_cons_self)
      rw [phases.phase_of_background] at allows
      exact allows
    intro other spinning
    by_cases here : other = agent
    · subst here
      rw [frame.spinning, still] at spinning
      cases spinning
    · rcases advance_other ended here with kept | ⟨_, rfl, kept⟩
      · rw [kept] at spinning
        obtain ⟨lock, waits, above⟩ := spins other spinning
        have notBg : other ≠ .bgIoThread := by
          rintro rfl
          exact nomatch spinning.symm.trans background
        refine ⟨lock, by rwa [WaitsFor, kept], fun held holds => above held ?_⟩
        rcases frame.holders with same | ⟨_, handed⟩
        · rwa [Holds, same] at holds
        · rwa [Holds, handed, heldBy_handOver_other notBg here] at holds
      · rw [kept] at spinning
        exact nomatch spinning.symm.trans background

/-- When no `pipe_search` fails to take a lock below one that it holds, no set of calls spins in
a circle, in any state of the run. -/
theorem never_spin_in_a_circle (params : IndexParams Point Code Distance)
    (reachable : (updateSystem params (IndexState.Loaded params)).Reachable FailsAbove state)
    (threads : Finset Agent) : ¬ CircularWait (SpinsFor state) (Holds state) threads := by
  have sound : ∀ {before}, (updateSystem params (IndexState.Loaded params)).Reachable FailsAbove
      before → Sound params before := fun visited => sound_of_reachable (fun _ loaded => loaded) visited
  have spins : SpinsAbove state := by
    induction reachable with
    | initial loaded =>
      intro agent spinning
      exact nomatch spinning.symm.trans (loaded.quiescent.spinning agent)
    | step visited fails taken inductionHypothesis =>
      exact inductionHypothesis.step (sound visited).phases (sound visited).keeps fails taken
  refine not_circularWait LockKey.level ?_
  rintro agent _ lock ⟨spinning, waits⟩ held holds
  obtain ⟨other, wanted, above⟩ := spins agent spinning
  obtain rfl := Option.some.inj (wanted.symm.trans waits)
  exact above held holds

end Waiting

/-! ### A circle of an insert and a `pipe_search` -/

/-- A `pipe_search` has a read of id 1 in flight when the insert takes its idx locks. -/
def readInFlight : List (Action Nat) :=
  insertToIdxLocks ++
    [.call 1 .pipeSearch fun _ _ => ⟨0, []⟩, .step (.caller 1) (.send 1),
      .step (.caller 1) .go, .step (.caller 1) .go, .step (.caller 0) .go, .step (.caller 0) .go]

/-- The next read of the `pipe_search` is that of id 0. -/
def crossingReads : List (Action Nat) :=
  readInFlight ++ [.step (.caller 1) (.send 0), .step (.caller 1) .go]

/-- The insert spins for the id that is being read, but not in a circle. -/
theorem never_spin_in_a_circle_readInFlight :
    ¬ CircularWait
        (SpinsFor ((updateSystem smallParams (IndexState.Loaded smallParams)).after smallIndex
          readInFlight))
        (Holds ((updateSystem smallParams (IndexState.Loaded smallParams)).after smallIndex
          readInFlight)) {.caller 0, .caller 1} :=
  never_spin_in_a_circle smallParams
    ((Transition.System.Reachable.initial smallIndex_loaded.loaded).after (by decide +kernel)) _

/-- The insert holds the lock of id 0 and spins for id 1, and the `pipe_search` holds the lock of
id 1 and spins for id 0. -/
theorem spin_in_a_circle :
    ¬ ∀ state, (updateSystem smallParams (IndexState.Loaded smallParams)).Reachable
        Transition.anyStep state →
      ∀ threads : Finset Agent, ¬ CircularWait (SpinsFor state) (Holds state) threads := by
  intro never
  have reachable : (updateSystem smallParams (IndexState.Loaded smallParams)).Reachable
      Transition.anyStep ((updateSystem smallParams (IndexState.Loaded smallParams)).after
        smallIndex crossingReads) :=
    (Transition.System.Reachable.initial smallIndex_loaded.loaded).after
      Transition.System.along_anyStep
  refine never _ reachable {.caller 0, .caller 1} ⟨⟨.caller 0, by decide⟩, fun agent member => ?_⟩
  rw [Finset.mem_insert, Finset.mem_singleton] at member
  rcases member with rfl | rfl
  · exact ⟨.idx 1, ⟨by decide +kernel, by unfold WaitsFor; decide +kernel⟩, .caller 1, by decide,
      by decide, by unfold Holds; decide +kernel⟩
  · exact ⟨.idx 0, ⟨by decide +kernel, by unfold WaitsFor; decide +kernel⟩, .caller 0, by decide,
      by decide, by unfold Holds; decide +kernel⟩

end OdinVector
