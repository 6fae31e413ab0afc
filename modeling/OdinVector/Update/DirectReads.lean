/-
This file is about the reads that go past the page cache: those of the prefill of
`filter_beam_search` and of `get_vector_by_id`. Both look a location up, read its page
from the file, and look the location up once more to find the record in what they have
read. The prefill holds the idx locks of its batch up to the end of its reads, and
`get_vector_by_id` holds none.

The steps of the index stay as they are: a batch of the prefill is a round of a search
whose reads are replaced by reads of the file. What is added are the buffers of the
readers and, as a history, the vector that each id was built or inserted with. The
distance to the query is a function of the coordinates, so the coordinates stand for it.
Tags are enabled; without them `get_vector_by_id` returns no vector.
-/

import OdinVector.Update.Links
import OdinVector.Update.Persistence

namespace OdinVector

variable {Point Code Distance : Type}

/-- The prefill of a call of `filter_beam_search`. -/
structure Prefill (Point : Type) where
  /-- The call is in its prefill. -/
  active : Bool
  /-- `prefill_sectors`. -/
  sectors : Nat → PageImage Point
  /-- The reads of the batch that have completed, by their place. -/
  arrived : List Nat := []
  /-- `batch_ids`, with the locations that were read. -/
  batch : List (Nat × Nat) := []
  /-- `i` of the loop that computes the distances. -/
  computed : Nat := 0
  /-- The ids whose distance was computed, with the coordinates that were used. -/
  exactResults : List (Nat × Point) := []

/-- A call of `get_vector_by_id`. -/
inductive GetVector (Point : Type)
  | idle
  /-- The location of the id was looked up. -/
  | located (id loc : Nat)
  /-- The page of the location was read. -/
  | read (id loc : Nat) (sectorBuf : PageImage Point)
  | returned (id : Nat) (vectorCoords : Point)

/-- What a call has returned for which id. -/
def GetVector.result : GetVector Point → Option (Nat × Point)
  | returned id vectorCoords => some (id, vectorCoords)
  | _ => none

theorem GetVector.eq_returned {get : GetVector Point} {id : Nat} {vectorCoords : Point}
    (result : get.result = some (id, vectorCoords)) : get = .returned id vectorCoords := by
  cases get with
  | returned =>
    obtain ⟨rfl, rfl⟩ := Prod.mk.inj (Option.some.inj result)
    rfl
  | _ => cases result

/-- The index with the readers that go past its page cache. -/
structure DirectState (Point Code : Type) where
  index : IndexState Point Code
  prefill : Nat → Prefill Point
  gets : Nat → GetVector Point
  /-- The vector that an id was built or inserted with. -/
  vectors : Nat → Point

/-- A step of the index or of a reader. -/
inductive DirectAction (Point : Type)
  | index (action : Action Point)
  /-- `filter_beam_search` starts. -/
  | filterBeamSearch (number : Nat) (buffer : Nat → PageImage Point)
  /-- A read of the batch completes. -/
  | sectorRead (number place : Nat)
  /-- The distance of the next id of the batch is computed. -/
  | exactDist (number : Nat)
  /-- The prefill is done. -/
  | prefilled (number : Nat)
  /-- `get_vector_by_id` starts: the location is looked up. -/
  | getVectorById (reader id : Nat)
  /-- The page is read. -/
  | getSector (reader : Nat)
  /-- The location is looked up again and the coordinates are copied. -/
  | getCoords (reader : Nat)

/-- The vectors of the ids after a step of the index. -/
def vectorsAfter (vectors : Nat → Point) (state : IndexState Point Code) :
    Action Point → Nat → Point
  | .call _ (.insertInPlace point _) _ => Function.update vectors state.curId point
  | _ => vectors

namespace DirectState

/-- The state with another local state of a prefill. -/
def setPrefill (state : DirectState Point Code) (number : Nat) (prefill : Prefill Point) :
    DirectState Point Code :=
  { state with prefill := Function.update state.prefill number prefill }

/-- The state with another local state of a `get_vector_by_id`. -/
def setGet (state : DirectState Point Code) (reader : Nat) (get : GetVector Point) :
    DirectState Point Code :=
  { state with gets := Function.update state.gets reader get }

/-- The thread of a call is about to go on from the reads of its batch. -/
def reading (state : DirectState Point Code) (number : Nat) : Bool :=
  match (state.index.threads (.caller number)).pending with
  | .readFrontier :: _ => true
  | _ => false

/-- A call in its prefill waits for the reads of a batch, and starts the next batch when the
distances of the last one are computed. -/
def ready (state : DirectState Point Code) : Action Point → Bool
  | .step (.caller number) _ =>
    let thread := state.index.threads (.caller number)
    let prefill := state.prefill number
    !prefill.active || if state.reading number then
        (List.range thread.frontier.length).all (· ∈ prefill.arrived)
      else !thread.pending.isEmpty || prefill.computed == prefill.batch.length
  | _ => true

/-- The batch of a prefill whose reads are done. -/
def noted (state : DirectState Point Code) : Action Point → Nat → Prefill Point
  | .step (.caller number) _ =>
    if state.reading number then
      Function.update state.prefill number
        { state.prefill number with
          arrived := []
          batch := (state.index.threads (.caller number)).frontier
          computed := 0 }
    else state.prefill
  | _ => state.prefill

variable (params : IndexParams Point Code Distance)

/-- A read of the batch takes its page from the file. -/
def sectorRead (state : DirectState Point Code) (number place : Nat) :
    Option (DirectState Point Code) :=
  let prefill := state.prefill number
  if prefill.active && state.reading number && place ∉ prefill.arrived then
    ((state.index.threads (.caller number)).frontier[place]?).map fun entry =>
      state.setPrefill number
        { prefill with
          sectors := Function.update prefill.sectors place
            (state.index.disk (params.geometry.locSectorNo entry.2))
          arrived := place :: prefill.arrived }
  else none

/-- The loop over a batch whose locks are given back: the location is looked up again. -/
def exactDist (state : DirectState Point Code) (number : Nat) : Option (DirectState Point Code) :=
  let prefill := state.prefill number
  if prefill.active && (state.index.threads (.caller number)).pending.isEmpty then
    (prefill.batch[prefill.computed]?).bind fun entry =>
      (state.index.layout.id2loc entry.1).map fun loc =>
        state.setPrefill number
          { prefill with
            computed := prefill.computed + 1
            exactResults := prefill.exactResults ++
              [(entry.1, (prefill.sectors prefill.computed (params.geometry.slotOf loc)).coords)] }
  else none

variable [LinearOrder Distance]

/-- A step of the index or of a reader. -/
def step (state : DirectState Point Code) : DirectAction Point → Option (DirectState Point Code)
  | .index action =>
    if state.ready action then
      (state.index.step params action).map fun index =>
        { state with
          index := index
          prefill := state.noted action
          vectors := vectorsAfter state.vectors state.index action }
    else none
  | .filterBeamSearch number buffer =>
    (state.index.step params (.call number .beamSearch buffer)).map fun index =>
      { state.setPrefill number ⟨true, (state.prefill number).sectors, [], [], 0, []⟩ with
        index := index }
  | .sectorRead number place => state.sectorRead params number place
  | .exactDist number => state.exactDist params number
  | .prefilled number =>
    let prefill := state.prefill number
    if prefill.active && (state.index.threads (.caller number)).pending.isEmpty &&
        prefill.computed == prefill.batch.length then
      some (state.setPrefill number { prefill with active := false })
    else none
  | .getVectorById reader id =>
    match state.gets reader with
    | .idle | .returned _ _ =>
      (state.index.layout.id2loc id).map fun loc => state.setGet reader (.located id loc)
    | _ => none
  | .getSector reader =>
    match state.gets reader with
    | .located id loc => some <| state.setGet reader
      (.read id loc (state.index.disk (params.geometry.locSectorNo loc)))
    | _ => none
  | .getCoords reader =>
    match state.gets reader with
    | .read id _ sectorBuf =>
      (state.index.layout.id2loc id).map fun loc => state.setGet reader
        (.returned id (sectorBuf (params.geometry.slotOf loc)).coords)
    | _ => none

end DirectState

/-- The system of the calls on an index, the readers of its file included. -/
def directSystem [LinearOrder Distance] (params : IndexParams Point Code Distance)
    (initial : DirectState Point Code → Prop) :
    Transition.System (DirectState Point Code) (DirectAction Point) where
  initial := initial
  step := DirectState.step params

/-- A loaded index with its records, on which no call has started. -/
structure DirectState.RecordsLoaded (params : IndexParams Point Code Distance)
    (state : DirectState Point Code) : Prop where
  records : state.index.RecordsLoaded params
  vectors : ∀ id, state.index.layout.id2loc id ≠ none →
    (state.index.record id).coords = state.vectors id
  prefill : ∀ number, (state.prefill number).active = false ∧
    (state.prefill number).exactResults = []
  gets : ∀ reader, state.gets reader = .idle

/-! ### What a reader relies on -/

/-- The file has at a location the coordinates that the newest page has there. -/
def IndexState.OnFile (params : IndexParams Point Code Distance) (state : IndexState Point Code)
    (loc : Nat) : Prop :=
  (recordAt params.geometry state.disk loc).coords =
    (recordAt params.geometry state.pages loc).coords

/-- The slot that is found for an id now is the one of a location found before. -/
def IndexState.SameSlot (params : IndexParams Point Code Distance) (state : IndexState Point Code)
    (id loc : Nat) : Prop :=
  ∀ now ∈ state.layout.id2loc id, params.geometry.slotOf now = params.geometry.slotOf loc

/-- No insert loses a record or unlocks for another insert; a page is read when the file has the
newest coordinates at the location that was looked up, which for `get_vector_by_id` is still the
one of the id; and the second lookup finds the slot of the first. -/
def ReadsFresh (params : IndexParams Point Code Distance) (state : DirectState Point Code) :
    DirectAction Point → Prop
  | .index action => NoBlindPut params state.index action ∧ UnlocksNoOther state.index action
  | .sectorRead number place =>
    ∀ entry ∈ (state.index.threads (.caller number)).frontier[place]?,
      state.index.OnFile params entry.2
  | .exactDist number =>
    ∀ entry ∈ (state.prefill number).batch[(state.prefill number).computed]?,
      state.index.SameSlot params entry.1 entry.2
  | .getSector reader =>
    match state.gets reader with
    | .located id loc => state.index.layout.id2loc id = some loc ∧ state.index.OnFile params loc
    | _ => True
  | .getCoords reader =>
    match state.gets reader with
    | .read id loc _ => state.index.SameSlot params id loc
    | _ => True
  | _ => True

/-- The vector is that of an id that has been given out. -/
def IsVectorOf (vectors : Nat → Point) (state : IndexState Point Code) (id : Nat) (vector : Point) :
    Prop :=
  id < state.curId ∧ vector = vectors id

/-! ### The vectors of the records -/

/-- The record of a mapped id has the vector of the id, and an insert has that of its target. -/
structure HoldsVectors (vectors : Nat → Point) (state : IndexState Point Code) : Prop where
  mapped : ∀ id, state.layout.id2loc id ≠ none → (state.record id).coords = vectors id
  inserting : ∀ agent, (state.threads agent).role = .insertInPlace →
    vectors (state.threads agent).target = (state.threads agent).point

section Vectors

variable [LinearOrder Distance] {params : IndexParams Point Code Distance}
  {state next : IndexState Point Code} {vectors : Nat → Point}

omit [LinearOrder Distance] in
theorem vectorsAfter_of_lt {id : Nat} (below : id < state.curId) (action : Action Point) :
    vectorsAfter vectors state action id = vectors id := by
  unfold vectorsAfter
  split
  · exact Function.update_of_ne below.ne _ _
  · rfl

theorem curId_le {action : Action Point} (phases : InPhases state.threads)
    (taken : state.step params action = some next) : state.curId ≤ next.curId := by
  rcases IndexState.step_cases taken with ⟨_, request, _, _, started⟩ | ⟨_, _, _, _, _, _, ran⟩ |
    ⟨runner, _, _, _, ended⟩
  · obtain ⟨_, rfl⟩ := IndexState.start_cases started
    cases request with
    | insertInPlace => exact Nat.le_succ state.curId
    | _ => exact le_refl state.curId
  · exact (execute_data ran).2.1.ge
  · refine (advance_frame ended ?_).curId.ge
    rintro rfl
    exact phase_of_advance ended phases.phase_of_background

/-- A thread goes on with its call, or it starts one. -/
theorem call_step {action : Action Point} (phases : InPhases state.threads)
    (taken : state.step params action = some next) (agent : Agent) :
    ((next.threads agent).role = (state.threads agent).role ∧
      (next.threads agent).target = (state.threads agent).target ∧
        (next.threads agent).point = (state.threads agent).point) ∨
    ∃ number request buffer, action = .call number request buffer ∧ agent = .caller number ∧
      (state.threads agent).role = .idle ∧
      next.threads agent =
        IndexState.startThread state.curId buffer (state.threads agent) request := by
  rcases IndexState.step_cases taken with ⟨number, request, buffer, rfl, started⟩ |
    ⟨runner, _, _, _, _, _, ran⟩ | ⟨runner, _, _, _, ended⟩
  · by_cases starts : agent = .caller number
    · subst starts
      obtain ⟨idle, rfl⟩ := IndexState.start_cases started
      refine .inr ⟨number, request, buffer, rfl, rfl, idle, ?_⟩
      exact IndexState.setThread_threads_self _ _ _
    · rw [start_other started starts]
      exact .inl ⟨rfl, rfl, rfl⟩
  · obtain ⟨later, threads, same, _⟩ := execute_thread ran
    by_cases runs : agent = runner
    · subst runs
      rw [threads, Function.update_self]
      exact .inl ⟨same.role, same.target, same.point⟩
    · rw [threads, Function.update_of_ne runs]
      exact .inl ⟨rfl, rfl, rfl⟩
  · have notBackground : runner ≠ .bgIoThread := by
      rintro rfl
      exact phase_of_advance ended phases.phase_of_background
    by_cases runs : agent = runner
    · subst runs
      have frame := advance_frame ended notBackground
      exact .inl ⟨frame.role, frame.target, frame.point⟩
    · rcases advance_other ended runs with unchanged | ⟨_, _, changed⟩
      · rw [unchanged]
        exact .inl ⟨rfl, rfl, rfl⟩
      · rw [changed]
        exact .inl ⟨rfl, rfl, rfl⟩

theorem IsVectorOf.step (phases : InPhases state.threads) {action : Action Point}
    (taken : state.step params action = some next) {id : Nat} {vector : Point}
    (isVector : IsVectorOf vectors state id vector) :
    IsVectorOf (vectorsAfter vectors state action) next id vector :=
  ⟨isVector.1.trans_le (curId_le phases taken),
    isVector.2.trans (vectorsAfter_of_lt isVector.1 action).symm⟩

theorem HoldsVectors.step (holds : HoldsVectors vectors state)
    (undisturbed : Undisturbed params (fun _ => True) state) {action : Action Point}
    (taken : state.step params action = some next) :
    HoldsVectors (vectorsAfter vectors state action) next := by
  have sound := undisturbed.sound
  constructor
  · intro id mapped
    rcases undisturbed.record_step taken id with ⟨location, record⟩ |
      ⟨_, _, _, _, _, before, data, _, record⟩ | ⟨runner, _, rfl, phase, _, rfl, record⟩
    · rw [location] at mapped
      rw [record, vectorsAfter_of_lt (sound.tracked.below id mapped)]
      exact holds.mapped id mapped
    · rw [record, vectorsAfter_of_lt (sound.tracked.below id before)]
      exact holds.mapped id before
    · have role := (sound.phases.inPhase runner).isInsert (by rw [phase]; decide)
      rw [record]
      exact (holds.inserting runner role).symm
  · intro agent role
    rcases call_step sound.phases taken agent with ⟨sameRole, target, point⟩ |
      ⟨number, request, buffer, rfl, rfl, _, started⟩
    · rw [sameRole] at role
      have valid := sound.tracked.valid agent _ (Thread.reservation_eq role)
      rw [target, point, vectorsAfter_of_lt valid.below]
      exact holds.inserting agent role
    · rw [started] at role ⊢
      cases request with
      | insertInPlace point tag => exact Function.update_self _ _ _
      | _ => cases role

end Vectors

/-! ### The readers -/

/-- What is known of a prefill: the pages of the reads that have completed, and those of the
distances to compute, have the vectors of their ids. -/
structure Prefill.Gathers (params : IndexParams Point Code Distance) (vectors : Nat → Point)
    (state : IndexState Point Code) (thread : Thread Point) (prefill : Prefill Point) : Prop where
  role : thread.role ≠ .idle
  waits : prefill.arrived ≠ [] → ∃ rest, thread.pending = .readFrontier :: rest
  arrived : ∀ place ∈ prefill.arrived, ∀ entry, thread.frontier[place]? = some entry →
    IsVectorOf vectors state entry.1
      (prefill.sectors place (params.geometry.slotOf entry.2)).coords
  reads : .readFrontier ∈ thread.pending → prefill.computed = prefill.batch.length
  batch : ∀ place entry, prefill.computed ≤ place → prefill.batch[place]? = some entry →
    IsVectorOf vectors state entry.1
      (prefill.sectors place (params.geometry.slotOf entry.2)).coords

/-- What is known of a `get_vector_by_id`. -/
def GetVector.Finds (params : IndexParams Point Code Distance) (vectors : Nat → Point)
    (state : IndexState Point Code) : GetVector Point → Prop
  | .idle | .located _ _ => True
  | .read id loc sectorBuf =>
    IsVectorOf vectors state id (sectorBuf (params.geometry.slotOf loc)).coords
  | .returned id vectorCoords => IsVectorOf vectors state id vectorCoords

/-- The invariant of runs whose reads are fresh. -/
structure FindsVectors (params : IndexParams Point Code Distance) [LinearOrder Distance]
    (state : DirectState Point Code) : Prop where
  undisturbed : Undisturbed params (fun _ => True) state.index
  reading : ∀ agent, (state.index.threads agent).Reading state.index.layout
  holds : HoldsVectors state.vectors state.index
  gathers : ∀ number, (state.prefill number).active = true →
    (state.prefill number).Gathers params state.vectors state.index
      (state.index.threads (.caller number))
  results : ∀ number, ∀ entry ∈ (state.prefill number).exactResults,
    IsVectorOf state.vectors state.index entry.1 entry.2
  finds : ∀ reader, (state.gets reader).Finds params state.vectors state.index

section Readers

variable [LinearOrder Distance] {params : IndexParams Point Code Distance}
  {state next : DirectState Point Code}

theorem GetVector.Finds.step {vectors : Nat → Point} {index after : IndexState Point Code}
    (phases : InPhases index.threads) {action : Action Point}
    (taken : index.step params action = some after) {get : GetVector Point}
    (finds : get.Finds params vectors index) :
    get.Finds params (vectorsAfter vectors index action) after := by
  cases get with
  | idle => trivial
  | located => trivial
  | read => exact IsVectorOf.step phases taken finds
  | returned => exact IsVectorOf.step phases taken finds

/-- A record that the file has as the newest page has it has the vector of its id. -/
theorem isVectorOf_disk {vectors : Nat → Point} {index : IndexState Point Code}
    (undisturbed : Undisturbed params (fun _ => True) index) (holds : HoldsVectors vectors index)
    {id loc : Nat} (mapped : index.layout.id2loc id = some loc) (onFile : index.OnFile params loc) :
    IsVectorOf vectors index id
      (index.disk (params.geometry.locSectorNo loc) (params.geometry.slotOf loc)).coords := by
  have known : index.layout.id2loc id ≠ none := Option.ne_none_iff_exists'.mpr ⟨loc, mapped⟩
  refine ⟨undisturbed.sound.tracked.below id known, ?_⟩
  calc (index.disk (params.geometry.locSectorNo loc) (params.geometry.slotOf loc)).coords
      = (recordAt params.geometry index.pages loc).coords := onFile
    _ = (index.record id).coords := congrArg DiskNode.coords (undisturbed.recorded id loc mapped)
    _ = vectors id := holds.mapped id known

/-! ### Steps of the index -/

omit [LinearOrder Distance] in
theorem DirectState.reading_iff {number : Nat} : state.reading number = true ↔
    ∃ rest, (state.index.threads (.caller number)).pending = .readFrontier :: rest := by
  unfold DirectState.reading
  constructor
  · intro isReading
    split at isReading
    · exact ⟨_, ‹_›⟩
    · cases isReading
  · rintro ⟨rest, pending⟩
    rw [pending]

omit [LinearOrder Distance] in
theorem DirectState.noted_other {number : Nat} {agent : Agent} {choice : Choice}
    (other : agent ≠ .caller number) :
    state.noted (.step agent choice) number = state.prefill number := by
  cases agent with
  | bgIoThread => rfl
  | caller runner =>
    unfold DirectState.noted
    dsimp only
    split
    · exact Function.update_of_ne (fun same => other (congrArg _ same.symm)) _ _
    · rfl

omit [LinearOrder Distance] in
theorem DirectState.noted_self (number : Nat) (choice : Choice) :
    state.noted (.step (.caller number) choice) number =
      if state.reading number then
        { state.prefill number with
          arrived := []
          batch := (state.index.threads (.caller number)).frontier
          computed := 0 }
      else state.prefill number := by
  unfold DirectState.noted
  dsimp only
  split
  · exact Function.update_self _ _ _
  · rfl

omit [LinearOrder Distance] in
theorem DirectState.noted_results (action : Action Point) (number : Nat) :
    (state.noted action number).active = (state.prefill number).active ∧
      (state.noted action number).exactResults = (state.prefill number).exactResults := by
  cases action with
  | call => exact ⟨rfl, rfl⟩
  | step agent choice =>
    by_cases runs : agent = .caller number
    · subst runs
      rw [DirectState.noted_self]
      split <;> exact ⟨rfl, rfl⟩
    · rw [DirectState.noted_other runs]
      exact ⟨rfl, rfl⟩

/-- A prefill whose thread does nothing. -/
theorem Prefill.Gathers.keep {vectors : Nat → Point} {index after : IndexState Point Code}
    {thread : Thread Point} {prefill : Prefill Point}
    (gathers : prefill.Gathers params vectors index thread) (phases : InPhases index.threads)
    {action : Action Point} (taken : index.step params action = some after) :
    prefill.Gathers params (vectorsAfter vectors index action) after thread where
  role := gathers.role
  waits := gathers.waits
  arrived place member entry found :=
    (gathers.arrived place member entry found).step phases taken
  reads := gathers.reads
  batch place entry later found := (gathers.batch place entry later found).step phases taken

/-- What is left of a round after its reads are unlocks. -/
theorem Thread.Reading.not_mem_rest {layout : Layout} {thread : Thread Point}
    (reading : thread.Reading layout) {rest : List (Op Point)}
    (pending : thread.pending = .readFrontier :: rest) : .readFrontier ∉ rest := by
  obtain ⟨ids, locked, located, split, -⟩ := reading (pending ▸ List.mem_cons_self)
  rw [pending] at split
  cases locked with
  | cons id locked => cases split
  | nil =>
    cases located with
    | cons id located => cases split
    | nil =>
      obtain rfl := (List.cons.inj split).2
      intro member
      obtain ⟨_, _, same⟩ := List.mem_map.mp member
      cases same

omit [LinearOrder Distance] in
/-- No read has come when the thread is not at its reads. -/
theorem Prefill.Gathers.arrived_nil {vectors : Nat → Point} {index : IndexState Point Code}
    {number : Nat} {prefill : Prefill Point}
    (gathers : prefill.Gathers params vectors index (state.index.threads (.caller number)))
    (still : state.reading number = false) : prefill.arrived = [] := by
  by_contra some
  rw [DirectState.reading_iff.mpr (gathers.waits some)] at still
  cases still

section Noted

variable {vectors : Nat → Point} {after : IndexState Point Code} {number : Nat}
  {later : Thread Point}

omit [LinearOrder Distance] in
/-- The reads of the batch are done. -/
theorem Prefill.Gathers.readFrontier (choice : Choice)
    (kept : (state.prefill number).Gathers params vectors after
      (state.index.threads (.caller number)))
    (isReading : state.reading number = true)
    (all : ∀ place < (state.index.threads (.caller number)).frontier.length,
      place ∈ (state.prefill number).arrived)
    (role : later.role = (state.index.threads (.caller number)).role)
    (done : .readFrontier ∉ later.pending) :
    (state.noted (.step (.caller number) choice) number).Gathers params vectors after later := by
  rw [DirectState.noted_self, isReading, if_pos rfl]
  refine ⟨role ▸ kept.role, fun some => absurd rfl some, fun _ member => ?_,
    fun member => absurd member done, fun place entry _ found => ?_⟩
  · cases member
  · exact kept.arrived place (all place (List.getElem?_eq_some_iff.mp found).1) entry found

omit [LinearOrder Distance] in
/-- The thread does something else than its reads. -/
theorem Prefill.Gathers.notReading (choice : Choice)
    (kept : (state.prefill number).Gathers params vectors after
      (state.index.threads (.caller number)))
    (still : state.reading number = false)
    (role : later.role = (state.index.threads (.caller number)).role)
    (reads : .readFrontier ∈ later.pending →
      (state.prefill number).computed = (state.prefill number).batch.length) :
    (state.noted (.step (.caller number) choice) number).Gathers params vectors after later := by
  have none := kept.arrived_nil still
  rw [DirectState.noted_self, still, if_neg Bool.false_ne_true]
  refine ⟨role ▸ kept.role, fun some => absurd none some, fun _ member => ?_, reads, kept.batch⟩
  rw [none] at member
  cases member

end Noted

/-- An operation of the thread itself. -/
theorem Prefill.Gathers.execute {vectors : Nat → Point} {after : IndexState Point Code}
    {number : Nat} {choice : Choice} {op : Op Point} {rest : List (Op Point)}
    (ready : state.ready (.step (.caller number) choice) = true)
    (active : (state.prefill number).active = true)
    (kept : (state.prefill number).Gathers params vectors after
      (state.index.threads (.caller number)))
    (reading : (state.index.threads (.caller number)).Reading state.index.layout)
    (pending : (state.index.threads (.caller number)).pending = op :: rest)
    (ran : state.index.execute params (.caller number)
      { state.index.threads (.caller number) with pending := rest } op = some after) :
    (state.noted (.step (.caller number) choice) number).Gathers params vectors after
      (after.threads (.caller number)) := by
  obtain ⟨later, threads, same, popped⟩ := execute_thread ran
  rw [threads, Function.update_self]
  cases isReading : state.reading number with
  | true =>
    obtain ⟨others, begins⟩ := DirectState.reading_iff.mp isReading
    obtain ⟨rfl, -⟩ := List.cons.inj (pending.symm.trans begins)
    have left : later.pending = rest := by
      rcases popped with ⟨left, -⟩ | ⟨_, _, same, -⟩
      · exact left
      · cases same
    have all : ∀ place < (state.index.threads (.caller number)).frontier.length,
        place ∈ (state.prefill number).arrived := by
      simpa [DirectState.ready, active, isReading] using ready
    exact kept.readFrontier choice isReading all same.role
      (left ▸ reading.not_mem_rest pending)
  | false =>
    have remaining : .readFrontier ∈ later.pending →
        .readFrontier ∈ (state.index.threads (.caller number)).pending := by
      rcases popped with ⟨left, -⟩ | ⟨_, _, _, still, -⟩
      · rw [left, pending]
        exact fun member => List.mem_cons_of_mem op member
      · rw [still]
        exact fun member => member
    exact kept.notReading choice isReading same.role fun member => kept.reads (remaining member)

/-- A step of the index. -/
theorem Prefill.Gathers.step {number : Nat} {after : IndexState Point Code}
    {action : Action Point} (ready : state.ready action = true)
    (active : (state.prefill number).active = true)
    (gathers : (state.prefill number).Gathers params state.vectors state.index
      (state.index.threads (.caller number)))
    (phases : InPhases state.index.threads)
    (reading : (state.index.threads (.caller number)).Reading state.index.layout)
    (taken : state.index.step params action = some after) :
    (state.noted action number).Gathers params (vectorsAfter state.vectors state.index action) after
      (after.threads (.caller number)) := by
  have kept := gathers.keep phases taken
  rcases IndexState.step_cases taken with ⟨caller, request, buffer, rfl, started⟩ |
    ⟨runner, choice, op, rest, rfl, pending, ran⟩ | ⟨runner, choice, rfl, pending, ended⟩
  · have other : Agent.caller number ≠ .caller caller := by
      intro same
      obtain ⟨idle, -⟩ := IndexState.start_cases started
      exact gathers.role (same ▸ idle)
    rw [start_other started other]
    exact kept
  · by_cases runs : Agent.caller number = runner
    · subst runs
      exact kept.execute ready active reading pending ran
    · obtain ⟨later, threads, -⟩ := execute_thread ran
      rw [DirectState.noted_other (Ne.symm runs), threads, Function.update_of_ne runs]
      exact kept
  · have notBackground : runner ≠ .bgIoThread := by
      rintro rfl
      exact phase_of_advance ended phases.phase_of_background
    by_cases runs : Agent.caller number = runner
    · subst runs
      have isReading : state.reading number = false := by
        unfold DirectState.reading
        rw [pending]
      have done : (state.prefill number).computed = (state.prefill number).batch.length := by
        simpa [DirectState.ready, active, isReading, pending] using ready
      exact kept.notReading choice isReading (advance_frame ended notBackground).role fun _ => done
    · rw [DirectState.noted_other (Ne.symm runs)]
      rcases advance_other ended runs with unchanged | ⟨_, background, _⟩
      · rw [unchanged]
        exact kept
      · cases background

theorem FindsVectors.index (finds : FindsVectors params state) {action : Action Point}
    (ready : state.ready action = true) (noBlindPut : NoBlindPut params state.index action)
    (noOther : UnlocksNoOther state.index action) {after : IndexState Point Code}
    (taken : state.index.step params action = some after) :
    FindsVectors params
      { state with
        index := after
        prefill := state.noted action
        vectors := vectorsAfter state.vectors state.index action } := by
  have undisturbed := finds.undisturbed
  have sound := undisturbed.sound
  have keeps := noBlindPut.putsKeep sound undisturbed.buffered undisturbed.mirrors
  exact
    { undisturbed := undisturbed.step trivial keeps noOther taken
      reading := reading_step sound finds.reading taken
      holds := finds.holds.step undisturbed taken
      gathers := fun number active => by
        have before : (state.prefill number).active = true :=
          (DirectState.noted_results action number).1.symm.trans active
        exact (finds.gathers number before).step ready before sound.phases
          (finds.reading (.caller number)) taken
      results := fun number entry member => by
        have before : entry ∈ (state.prefill number).exactResults :=
          (DirectState.noted_results action number).2 ▸ member
        exact (finds.results number entry before).step sound.phases taken
      finds := fun reader => (finds.finds reader).step sound.phases taken }

/-! ### Steps of the readers -/

omit [LinearOrder Distance] in
/-- What the reads that have completed say when a read completes. -/
theorem Prefill.Gathers.sectorRead {vectors : Nat → Point} {index : IndexState Point Code}
    {thread : Thread Point} {prefill : Prefill Point}
    (gathers : prefill.Gathers params vectors index thread) {rest : List (Op Point)}
    (pending : thread.pending = .readFrontier :: rest) {place : Nat} {entry : Nat × Nat}
    (found : thread.frontier[place]? = some entry) {sector : PageImage Point}
    (isVector : IsVectorOf vectors index entry.1
      (sector (params.geometry.slotOf entry.2)).coords) (absent : place ∉ prefill.arrived) :
    Prefill.Gathers params vectors index thread
      { prefill with
        sectors := Function.update prefill.sectors place sector
        arrived := place :: prefill.arrived } where
  role := gathers.role
  waits _ := ⟨rest, pending⟩
  arrived other member found' there := by
    rcases List.mem_cons.mp member with rfl | before
    · obtain rfl := Option.some.inj (found.symm.trans there)
      dsimp only
      rw [Function.update_self]
      exact isVector
    · have different : other ≠ place := fun same => absent (same ▸ before)
      dsimp only
      rw [Function.update_of_ne different]
      exact gathers.arrived other before found' there
  reads := gathers.reads
  batch other found' later there := by
    have done := gathers.reads (pending ▸ List.mem_cons_self)
    have inside := (List.getElem?_eq_some_iff.mp there).1
    dsimp only at later inside
    omega

/-- A prefill goes on. -/
theorem FindsVectors.setPrefill (finds : FindsVectors params state) {number : Nat}
    {prefill : Prefill Point}
    (gathers : prefill.active = true → prefill.Gathers params state.vectors state.index
      (state.index.threads (.caller number)))
    (results : ∀ entry ∈ prefill.exactResults,
      IsVectorOf state.vectors state.index entry.1 entry.2) :
    FindsVectors params (state.setPrefill number prefill) where
  undisturbed := finds.undisturbed
  reading := finds.reading
  holds := finds.holds
  gathers other active := by
    by_cases same : other = number
    · subst same
      have new : (state.setPrefill other prefill).prefill other = prefill :=
        Function.update_self _ _ _
      rw [new] at active ⊢
      exact gathers active
    · have kept : (state.setPrefill number prefill).prefill other = state.prefill other :=
        Function.update_of_ne same _ _
      rw [kept] at active ⊢
      exact finds.gathers other active
  results other := by
    by_cases same : other = number
    · subst same
      have new : (state.setPrefill other prefill).prefill other = prefill :=
        Function.update_self _ _ _
      rw [new]
      exact results
    · have kept : (state.setPrefill number prefill).prefill other = state.prefill other :=
        Function.update_of_ne same _ _
      rw [kept]
      exact finds.results other
  finds := finds.finds

/-- A `get_vector_by_id` goes on. -/
theorem FindsVectors.setGet (finds : FindsVectors params state) {reader : Nat}
    {get : GetVector Point} (found : get.Finds params state.vectors state.index) :
    FindsVectors params (state.setGet reader get) where
  undisturbed := finds.undisturbed
  reading := finds.reading
  holds := finds.holds
  gathers := finds.gathers
  results := finds.results
  finds other := by
    by_cases same : other = reader
    · subst same
      have new : (state.setGet other get).gets other = get := Function.update_self _ _ _
      rw [new]
      exact found
    · have kept : (state.setGet reader get).gets other = state.gets other :=
        Function.update_of_ne same _ _
      rw [kept]
      exact finds.finds other

theorem FindsVectors.sectorRead (finds : FindsVectors params state) {number place : Nat}
    (fresh : ReadsFresh params state (.sectorRead number place))
    (taken : state.sectorRead params number place = some next) : FindsVectors params next := by
  unfold DirectState.sectorRead at taken
  dsimp only at taken
  split at taken
  case isFalse => cases taken
  rename_i waiting
  obtain ⟨⟨active, isReading⟩, absent⟩ : ((state.prefill number).active = true ∧
      state.reading number = true) ∧ place ∉ (state.prefill number).arrived := by
    simpa using waiting
  obtain ⟨entry, found, rfl⟩ := Option.map_eq_some_iff.mp taken
  obtain ⟨rest, pending⟩ := DirectState.reading_iff.mp isReading
  obtain ⟨_, _, _, _, _, _, entries⟩ :=
    finds.reading (.caller number) (pending ▸ List.mem_cons_self)
  have mapped := (entries entry (List.mem_of_getElem? found)).2
  have isVector := isVectorOf_disk finds.undisturbed finds.holds mapped (fresh entry found)
  exact finds.setPrefill
    (fun _ => (finds.gathers number active).sectorRead pending found isVector absent)
    (finds.results number)

theorem FindsVectors.exactDist (finds : FindsVectors params state) {number : Nat}
    (fresh : ReadsFresh params state (.exactDist number))
    (taken : state.exactDist params number = some next) : FindsVectors params next := by
  unfold DirectState.exactDist at taken
  dsimp only at taken
  split at taken
  case isFalse => cases taken
  rename_i unlocked
  obtain ⟨active, idle⟩ : (state.prefill number).active = true ∧
      (state.index.threads (.caller number)).pending = [] := by
    simpa using unlocked
  obtain ⟨entry, found, taken⟩ := Option.bind_eq_some_iff.mp taken
  obtain ⟨loc, mapped, rfl⟩ := Option.map_eq_some_iff.mp taken
  have gathers := finds.gathers number active
  have slot := fresh entry found loc mapped
  refine finds.setPrefill (fun _ => ?_) fun other member => ?_
  · exact
      { role := gathers.role
        waits := gathers.waits
        arrived := gathers.arrived
        reads := fun member => by
          rw [idle] at member
          cases member
        batch := fun place other later => gathers.batch place other (Nat.le_of_succ_le later) }
  · rcases List.mem_append.mp member with before | new
    · exact finds.results number other before
    · obtain rfl := List.mem_singleton.mp new
      dsimp only
      rw [slot]
      exact gathers.batch _ entry (le_refl _) found

/-- `filter_beam_search` starts. -/
theorem FindsVectors.filterBeamSearch (finds : FindsVectors params state) {number : Nat}
    {buffer : Nat → PageImage Point} {after : IndexState Point Code}
    (taken : state.index.step params (.call number .beamSearch buffer) = some after) :
    FindsVectors params
      { state.setPrefill number ⟨true, (state.prefill number).sectors, [], [], 0, []⟩ with
        index := after } := by
  have noPut : NoBlindPut params state.index (.call number .beamSearch buffer) := trivial
  have started : FindsVectors params { state with index := after } :=
    finds.index rfl noPut trivial taken
  refine started.setPrefill (fun _ => ?_) (List.forall_mem_nil _)
  obtain ⟨idle, rfl⟩ := IndexState.start_cases taken
  dsimp only
  rw [IndexState.setThread_threads_self]
  refine ⟨fun role => ?_, fun some => absurd rfl some, fun _ member => ?_, fun _ => rfl,
    fun _ _ _ found => ?_⟩
  · cases role
  · cases member
  · cases found

theorem FindsVectors.step (finds : FindsVectors params state) {action : DirectAction Point}
    (fresh : ReadsFresh params state action) (taken : state.step params action = some next) :
    FindsVectors params next := by
  cases action with
  | index action =>
    unfold DirectState.step at taken
    dsimp only at taken
    split at taken
    case isFalse => cases taken
    obtain ⟨after, ran, rfl⟩ := Option.map_eq_some_iff.mp taken
    exact finds.index ‹_› fresh.1 fresh.2 ran
  | filterBeamSearch number buffer =>
    obtain ⟨after, ran, rfl⟩ := Option.map_eq_some_iff.mp taken
    exact finds.filterBeamSearch ran
  | sectorRead number place => exact finds.sectorRead fresh taken
  | exactDist number => exact finds.exactDist fresh taken
  | prefilled number =>
    unfold DirectState.step at taken
    dsimp only at taken
    split at taken
    case isFalse => cases taken
    obtain rfl := Option.some.inj taken
    refine finds.setPrefill (fun active => ?_) (finds.results number)
    cases active
  | getVectorById reader id =>
    unfold DirectState.step at taken
    dsimp only at taken
    split at taken
    case h_3 => cases taken
    all_goals
      obtain ⟨loc, _, rfl⟩ := Option.map_eq_some_iff.mp taken
      exact finds.setGet trivial
  | getSector reader =>
    unfold DirectState.step at taken
    unfold ReadsFresh at fresh
    dsimp only at taken fresh
    split at taken
    case h_2 => cases taken
    rename_i id loc located
    rw [located] at fresh
    obtain rfl := Option.some.inj taken
    exact finds.setGet (isVectorOf_disk finds.undisturbed finds.holds fresh.1 fresh.2)
  | getCoords reader =>
    unfold DirectState.step at taken
    unfold ReadsFresh at fresh
    dsimp only at taken fresh
    split at taken
    case h_2 => cases taken
    rename_i id loc sectorBuf read
    rw [read] at fresh
    obtain ⟨now, mapped, rfl⟩ := Option.map_eq_some_iff.mp taken
    have isVector := finds.finds reader
    rw [read] at isVector
    refine finds.setGet ?_
    show IsVectorOf state.vectors state.index id (sectorBuf (params.geometry.slotOf now)).coords
    rw [fresh now mapped]
    exact isVector

theorem DirectState.RecordsLoaded.findsVectors (loaded : state.RecordsLoaded params) :
    FindsVectors params state where
  undisturbed := loaded.records.undisturbed
  reading agent := by
    refine .plain fun reads => ?_
    have beam : (state.index.threads agent).phase = .beam :=
      (loaded.records.loaded.sound.phases.inPhase agent).allows _ reads
    cases (loaded.records.loaded.quiescent.finished agent).symm.trans beam
  holds :=
    { mapped := loaded.vectors
      inserting := fun agent role =>
        absurd role (loaded.records.loaded.quiescent.not_insert agent) }
  gathers number active := by
    rw [(loaded.prefill number).1] at active
    cases active
  results number entry member := by
    rw [(loaded.prefill number).2] at member
    cases member
  finds reader := by
    rw [loaded.gets reader]
    trivial

omit [LinearOrder Distance] in
/-- The file has what the newest page has when no write of the page is on its way. -/
theorem Persistent.onFile {index : IndexState Point Code} (persistent : Persistent params index)
    {loc : Nat}
    (unwritten : ∀ image, .writeDisk (params.geometry.locSectorNo loc) image ∉
      (index.threads .bgIoThread).pending)
    (unstored : ∀ number, ¬ (index.threads (.caller number)).Stores
      (params.geometry.locSectorNo loc)) : index.OnFile params loc := by
  rcases persistent.onDisk (params.geometry.locSectorNo loc) with same | ⟨number, stores⟩
  · unfold IndexState.OnFile recordAt
    rw [← same, diskAfter_apply unwritten]
  · exact absurd stores (unstored number)

end Readers

/-! ### A page that is only in the cache -/

instance [DecidableEq Point] (params : IndexParams Point Code Distance)
    (state : DirectState Point Code) (action : DirectAction Point) :
    Decidable (ReadsFresh params state action) :=
  match action with
  | .index action => inferInstanceAs
      (Decidable (NoBlindPut params state.index action ∧ UnlocksNoOther state.index action))
  | .sectorRead number place => inferInstanceAs (Decidable
      (∀ entry ∈ (state.index.threads (.caller number)).frontier[place]?,
        (recordAt params.geometry state.index.disk entry.2).coords =
          (recordAt params.geometry state.index.pages entry.2).coords))
  | .exactDist number => inferInstanceAs (Decidable
      (∀ entry ∈ (state.prefill number).batch[(state.prefill number).computed]?,
        ∀ now ∈ state.index.layout.id2loc entry.1,
          params.geometry.slotOf now = params.geometry.slotOf entry.2))
  | .getSector reader =>
    match located : state.gets reader with
    | .located id loc => decidable_of_iff (state.index.layout.id2loc id = some loc ∧
        (recordAt params.geometry state.index.disk loc).coords =
          (recordAt params.geometry state.index.pages loc).coords)
        (by unfold ReadsFresh; dsimp only; rw [located]; rfl)
    | .idle | .read _ _ _ | .returned _ _ =>
      .isTrue (by unfold ReadsFresh; dsimp only; rw [located]; trivial)
  | .getCoords reader =>
    match read : state.gets reader with
    | .read id loc _ => decidable_of_iff (∀ now ∈ state.index.layout.id2loc id,
        params.geometry.slotOf now = params.geometry.slotOf loc)
        (by unfold ReadsFresh; dsimp only; rw [read]; rfl)
    | .idle | .located _ _ | .returned _ _ =>
      .isTrue (by unfold ReadsFresh; dsimp only; rw [read]; trivial)
  | .filterBeamSearch _ _ | .prefilled _ | .getVectorById _ _ => .isTrue trivial

/-- The index of two points with a reader. -/
def smallDirect : DirectState Nat Unit where
  index := smallIndex
  prefill _ := ⟨false, fun _ _ => ⟨0, []⟩, [], [], 0, []⟩
  gets _ := .idle
  vectors id := id

theorem smallDirect_loaded : smallDirect.RecordsLoaded smallParams where
  records := smallIndex_records
  vectors _ _ := rfl
  prefill _ := ⟨rfl, rfl⟩
  gets _ := rfl

/-- A `get_vector_by_id` of an id. -/
def getVector (reader id : Nat) : List (DirectAction Nat) :=
  [.getVectorById reader id, .getSector reader, .getCoords reader]

/-- The prefill of a search with a batch of two ids. -/
def prefillTwo (number first second : Nat) : List (DirectAction Nat) :=
  [.filterBeamSearch number fun _ _ => ⟨0, []⟩,
    .index (.step (.caller number) (.frontier [first, second]))] ++
    List.replicate 4 (.index (.step (.caller number) .go)) ++
    [.sectorRead number 1, .sectorRead number 0] ++
    List.replicate 3 (.index (.step (.caller number) .go)) ++
    [.exactDist number, .exactDist number, .prefilled number]

/-- Readers after an insert whose page has been written. -/
def readWritten : List (DirectAction Nat) :=
  smallInsert.map .index ++ getVector 0 2 ++ prefillTwo 1 2 0

/-- A `get_vector_by_id` is of an id whose insert, of this caller, has returned. -/
def AsksReturned (number : Nat) (state : DirectState Point Code) : DirectAction Point → Prop
  | .getVectorById _ id =>
    (state.index.threads (.caller number)).role = .insertInPlace ∧
      (state.index.threads (.caller number)).target = id ∧
      (state.index.threads (.caller number)).phase = .finish ∧
      (state.index.threads (.caller number)).pending.isEmpty = true
  | _ => True

instance (number : Nat) (state : DirectState Point Code) (action : DirectAction Point) :
    Decidable (AsksReturned number state action) :=
  match action with
  | .getVectorById _ id => inferInstanceAs (Decidable
      ((state.index.threads (.caller number)).role = .insertInPlace ∧
        (state.index.threads (.caller number)).target = id ∧
        (state.index.threads (.caller number)).phase = .finish ∧
        (state.index.threads (.caller number)).pending.isEmpty = true))
  | .index _ | .filterBeamSearch _ _ | .sectorRead _ _ | .exactDist _ | .prefilled _
  | .getSector _ | .getCoords _ => .isTrue trivial

/-- A reader after an insert that has returned and whose pages the background thread has still to
write. -/
def readUnwritten : List (DirectAction Nat) :=
  (smallInsert.take 39).map .index ++ getVector 0 2

end OdinVector
