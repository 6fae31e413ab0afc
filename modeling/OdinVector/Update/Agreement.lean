/-
This file states what the maps between ids and locations satisfy while inserts
run: what `verify_id2loc` checks holds for every id that no insert is mapping,
`alloc_loc` hands out free slots and never crashes, the queue of empty pages holds
empty pages, and the tail stays aligned and above every slot in use.

An id is being mapped in two cases. A neighbour is while its insert runs through
the loop that moves the neighbours, where it holds the idx lock of the id. A
target is from its first `insert_or_assign` until `erase_and_set_loc`, and for the
first part of that time its idx lock is not held.
-/

import OdinVector.Update.Mapping

namespace OdinVector

variable {Point Code Distance : Type}

/-- The thread has given the id a location that the page layout does not have yet. -/
def Thread.Remaps (thread : Thread Point) (id : Nat) : Prop :=
  thread.role = .insertInPlace ∧ (thread.phase.maps = true ∧ id = thread.target ∨
    thread.phase = .remap ∧ id ∈ thread.newNhood)

/-- What `load_page_layout` leaves, from a partition file or without one. -/
structure IndexState.PageLayoutLoaded (params : IndexParams Point Code Distance)
    (state : IndexState Point Code) : Prop where
  quiescent : state.Quiescent
  layout : state.layout = Layout.loadIdentity params.geometry state.curId ∨
    ∃ pages, Layout.Covers params.geometry pages state.curId ∧
      state.layout = Layout.loadPartition params.geometry pages
  unsearched : ∀ agent, (state.threads agent).expanded = [] ∧ (state.threads agent).frontier = []

theorem IndexState.PageLayoutLoaded.loaded {params : IndexParams Point Code Distance}
    {state : IndexState Point Code} (fresh : state.PageLayoutLoaded params) :
    state.Loaded params := by
  rcases fresh.layout with identity | ⟨pages, covers, partition⟩
  · refine ⟨fresh.quiescent, ?_, fun id known => ?_, fresh.unsearched⟩
    · rw [identity]
      exact Layout.loadIdentity_consistent _
    · rw [identity] at known
      by_contra above
      exact known (if_neg above)
  · obtain ⟨consistent, mapped⟩ := Layout.loadPartition_consistent covers
    refine ⟨fresh.quiescent, ?_, fun id known => ?_, fresh.unsearched⟩
    · rw [partition]
      exact consistent
    · rw [partition] at known
      exact (mapped id).mp known

/-- The inserts in flight have no id in common. -/
def TouchDisjoint (state : IndexState Point Code) : Prop :=
  ∀ first second, first ≠ second → (state.threads first).role = .insertInPlace →
    (state.threads second).role = .insertInPlace → (state.threads first).phase ≠ .finish →
      (state.threads second).phase ≠ .finish →
        ∀ id ∈ (state.threads first).newNhood ++ [(state.threads first).target],
          id ∉ (state.threads second).newNhood ++ [(state.threads second).target]

/-! ### The maps agree -/

namespace Sound

variable {params : IndexParams Point Code Distance} {state : IndexState Point Code}
  (sound : Sound params state)
include sound

/-- A mapped id that no insert is mapping is in the slot of its location. -/
theorem loc2id_id2loc {id loc : Nat} (mapped : state.layout.id2loc id = some loc)
    (settled : ∀ agent, ¬ (state.threads agent).Remaps id) :
    state.layout.loc2id params.geometry loc = .real id := by
  refine (sound.tracked.forward id loc mapped).resolve_right ?_
  rintro ⟨agent, reservation, lookup, maps⟩
  obtain ⟨role, rfl⟩ := Thread.of_reservation lookup
  refine settled agent ⟨role, ?_⟩
  rcases maps with ⟨mapping, target, _⟩ | ⟨moving, _, _, atId, _⟩
  · refine .inl ⟨?_, target⟩
    cases phase : (state.threads agent).phase <;>
      simp_all [Phase.stage, Stage.Mapping, Phase.maps]
  · exact .inr ⟨Phase.stage_eq_moving.mp moving, List.mem_of_getElem? atId⟩

/-- The slot of an id that no insert is mapping is its location. -/
theorem id2loc_loc2id {id loc : Nat} (real : state.layout.loc2id params.geometry loc = .real id)
    (settled : ∀ agent, ¬ (state.threads agent).Remaps id) :
    state.layout.id2loc id = some loc := by
  refine (sound.tracked.backward id loc real).resolve_right ?_
  rintro ⟨agent, reservation, lookup, moving, _, atId, _⟩
  obtain ⟨role, rfl⟩ := Thread.of_reservation lookup
  exact settled agent ⟨role, .inr ⟨Phase.stage_eq_moving.mp moving, List.mem_of_getElem? atId⟩⟩

/-- The slots of an insert that is writing are handed out. -/
theorem allocated {agent : Agent} (role : (state.threads agent).role = .insertInPlace)
    (writes : (state.threads agent).phase.writes) :
    ∀ loc ∈ (state.threads agent).locs,
      state.layout.loc2id params.geometry loc = .kAllocatedID := by
  refine (sound.tracked.valid agent _ (Thread.reservation_eq role)).allocated ?_
  cases phase : (state.threads agent).phase <;>
    simp_all [Phase.writes, Phase.stage, Stage.Holds]

end Sound

variable [LinearOrder Distance]

/-- In every state that a loaded index reaches, the maps agree for every id that no insert is
mapping; `alloc_loc` hands out as many slots as it is asked for, distinct, free, and held by no
insert; the queue of empty pages holds distinct pages without a record; and the tail is aligned
and above every slot in use. -/
theorem maps_agree (params : IndexParams Point Code Distance)
    {guard : IndexState Point Code → Action Point → Prop} {state : IndexState Point Code}
    (reachable : (updateSystem params (IndexState.PageLayoutLoaded params)).Reachable guard
      state) :
    (∀ id loc, state.layout.id2loc id = some loc →
      (∀ agent, ¬ (state.threads agent).Remaps id) →
        state.layout.loc2id params.geometry loc = .real id) ∧
    (∀ id loc, state.layout.loc2id params.geometry loc = .real id →
      (∀ agent, ¬ (state.threads agent).Remaps id) → state.layout.id2loc id = some loc) ∧
    (∀ count hints, 0 < count → ∃ layout locs needRead,
      state.layout.allocLoc params.geometry count hints = some (layout, locs, needRead) ∧
        locs.length = count ∧ locs.Nodup ∧
        (∀ loc ∈ locs, state.layout.loc2id params.geometry loc = .kInvalidID) ∧
        ∀ agent, (state.threads agent).role = .insertInPlace →
          (state.threads agent).phase.writes → ∀ loc ∈ locs, loc ∉ (state.threads agent).locs) ∧
    (state.layout.emptyPages.Nodup ∧ ∀ page ∈ state.layout.emptyPages, ∃ slots,
      state.layout.pageLayout page = some slots ∧
        ∀ slot < params.geometry.nnodesPerSector, slots slot = .kInvalidID) ∧
    params.geometry.nnodesPerSector ∣ state.layout.curLoc ∧
      ∀ loc, state.layout.loc2id params.geometry loc ≠ .kInvalidID → loc < state.layout.curLoc := by
  have sound := sound_of_reachable (fun _ fresh => fresh.loaded) reachable
  have formed := sound.tracked.formed
  refine ⟨fun _ _ => sound.loc2id_id2loc, fun _ _ => sound.id2loc_loc2id,
    fun count hints positive => ?_, ⟨formed.queueNodup, formed.queueEmpty⟩, formed.aligned,
    fun _ => formed.lt_curLoc⟩
  obtain ⟨layout, locs, needRead, allocated, length, takes⟩ :=
    Layout.allocLoc_spec formed positive hints
  refine ⟨layout, locs, needRead, allocated, length, takes.distinct, takes.free, ?_⟩
  intro agent role writes loc member held
  exact nomatch (takes.free loc member).symm.trans (sound.allocated role writes loc held)

/-! ### Some callers -/

/-- A step of one of some callers or of the background thread. -/
def Action.IsOf (callers : List Nat) : Action Point → Prop
  | .call number _ _ => number ∈ callers
  | .step (.caller number) _ => number ∈ callers
  | .step .bgIoThread _ => True

instance (callers : List Nat) (action : Action Point) : Decidable (action.IsOf callers) :=
  match action with
  | .call number _ _ => inferInstanceAs (Decidable (number ∈ callers))
  | .step (.caller number) _ => inferInstanceAs (Decidable (number ∈ callers))
  | .step .bgIoThread _ => inferInstanceAs (Decidable True)

/-- No other caller does anything. -/
def OthersIdle (callers : List Nat) (state : IndexState Point Code) : Prop :=
  ∀ other, other ∉ callers → (state.threads (.caller other)).role = .idle

theorem OthersIdle.step {params : IndexParams Point Code Distance} {callers : List Nat}
    {state next : IndexState Point Code} (idle : OthersIdle callers state) {action : Action Point}
    (isOf : action.IsOf callers) (taken : state.step params action = some next) :
    OthersIdle callers next := by
  intro other different
  have notRunner : ∀ {agent choice}, (Action.step agent choice : Action Point).IsOf callers →
      Agent.caller other ≠ agent := by
    rintro agent choice isOf rfl
    exact different isOf
  rcases IndexState.step_cases taken with ⟨caller, _, _, rfl, started⟩ |
    ⟨agent, _, _, _, rfl, _, ran⟩ | ⟨agent, _, rfl, _, ended⟩
  · rw [start_other started]
    · exact idle other different
    · rintro same
      exact different (Agent.caller.inj same ▸ isOf)
  · obtain ⟨later, threads, _⟩ := execute_thread ran
    rw [threads, Function.update_of_ne (notRunner isOf)]
    exact idle other different
  · rcases advance_other ended (notRunner isOf) with kept | ⟨_, background, _⟩
    · rw [kept]
      exact idle other different
    · cases background

omit [LinearOrder Distance] in
theorem OthersIdle.mem_callers {callers : List Nat} {state : IndexState Point Code}
    (idle : OthersIdle callers state) (phases : InPhases state.threads) {agent : Agent}
    (role : (state.threads agent).role = .insertInPlace) :
    ∃ number ∈ callers, agent = .caller number := by
  cases agent with
  | bgIoThread => exact nomatch role.symm.trans ((phases.background _).mpr rfl)
  | caller other =>
    refine ⟨other, ?_, rfl⟩
    by_contra outside
    exact nomatch role.symm.trans (idle other outside)

omit [LinearOrder Distance] in
/-- The inserts of one caller have no id in common with those of others. -/
theorem OthersIdle.touchDisjoint {number : Nat} {state : IndexState Point Code}
    (idle : OthersIdle [number] state) (phases : InPhases state.threads) :
    TouchDisjoint state := by
  intro first second different inserts also
  obtain ⟨_, member, rfl⟩ := idle.mem_callers phases inserts
  obtain ⟨_, alsoMember, rfl⟩ := idle.mem_callers phases also
  rw [List.mem_singleton.mp member, List.mem_singleton.mp alsoMember] at different
  exact absurd rfl different

/-- When only some callers take steps the others are idle. -/
theorem othersIdle_of_reachable {params : IndexParams Point Code Distance}
    {initial : IndexState Point Code → Prop} {callers : List Nat} {state : IndexState Point Code}
    (quiescent : ∀ first, initial first → IndexState.Quiescent first)
    (reachable : (updateSystem params initial).Reachable (fun _ action => action.IsOf callers)
      state) : OthersIdle callers state ∧ InPhases state.threads := by
  have start : ∀ first, initial first → OthersIdle callers first ∧ InPhases first.threads :=
    fun first isInitial => ⟨fun other _ => ((quiescent first isInitial).callers other).1,
      (quiescent first isInitial).inPhases⟩
  have keep : ∀ (before : IndexState Point Code) (action : Action Point)
      (next : IndexState Point Code), OthersIdle callers before ∧ InPhases before.threads →
        action.IsOf callers → before.step params action = some next →
          OthersIdle callers next ∧ InPhases next.threads :=
    fun _ _ _ kept isOf taken => ⟨kept.1.step isOf taken, inPhases_step kept.2 taken⟩
  exact reachable.invariant start keep

/-- A run of one caller keeps its inserts apart from others. -/
theorem along_touchDisjoint {params : IndexParams Point Code Distance}
    {initial : IndexState Point Code → Prop} {number : Nat} {actions : List (Action Point)}
    (isOf : ∀ action ∈ actions, action.IsOf [number]) {state : IndexState Point Code}
    (quiescent : state.Quiescent) :
    (updateSystem params initial).Along (fun before _ => TouchDisjoint before) state actions := by
  have along : (updateSystem params initial).Along
      (fun _ action => Action.IsOf [number] action) state actions :=
    Transition.System.along_of_all isOf
  refine along.imply (fun before => OthersIdle [number] before ∧ InPhases before.threads) ?_ ?_
    ⟨?_, quiescent.inPhases⟩
  · exact fun before action next kept isOf taken =>
      ⟨kept.1.step isOf taken, inPhases_step kept.2 taken⟩
  · exact fun before action kept _ => kept.1.touchDisjoint kept.2
  · exact fun other _ => (quiescent.callers other).1

/-! ### A target before its idx lock -/

/-- Two records to a sector and lists of at most four neighbours. -/
def smallParams : IndexParams Nat Unit Nat where
  geometry := ⟨2, by decide⟩
  prune := ⟨4, 4, 0, [0], true, 0, 1, fun factor _ _ => factor⟩
  deflateVector _ := ()
  codeDistance _ _ := 0
  usePageSearch := true

/-- An index of two points, loaded and not used. -/
def smallIndex : IndexState Nat Unit where
  layout := .loadIdentity smallParams.geometry 2
  pages page slot := ⟨(page - 1) * 2 + slot, []⟩
  disk page slot := ⟨(page - 1) * 2 + slot, []⟩
  data _ := ()
  tags id := if id < 2 then some id else none
  curId := 2
  locks _ := none
  holders := []
  record id := ⟨id, []⟩
  threads
    | .bgIoThread => { role := .bgIo, point := 0, updateBuf := fun _ _ => ⟨0, []⟩ }
    | .caller _ => { role := .idle, point := 0, updateBuf := fun _ _ => ⟨0, []⟩ }

theorem smallIndex_loaded : smallIndex.PageLayoutLoaded smallParams where
  quiescent :=
    { callers := fun _ => ⟨rfl, rfl, rfl⟩
      bgIo := ⟨rfl, rfl, rfl⟩
      spinning := fun agent => by cases agent <;> rfl
      locks := rfl
      holders := rfl }
  layout := .inl rfl
  unsearched agent := by cases agent <;> exact ⟨rfl, rfl⟩

/-- A run that inserts a point with one neighbour. -/
def smallInsert : List (Action Nat) :=
  [.call 0 (.insertInPlace 2 2) fun _ _ => ⟨0, []⟩, .step (.caller 0) .go,
    .step (.caller 0) (.frontier [0])] ++ List.replicate 4 (.step (.caller 0) .go) ++
    .step (.caller 0) (.prune [0]) :: List.replicate 31 (.step (.caller 0) .go) ++
    List.replicate 2 (.step .bgIoThread .go)

/-- The search of an insert reads id 0, and the insert chooses it. -/
def choosesZero (number : Nat) : List (Action Nat) :=
  [.call number (.insertInPlace (number + 2) (number + 2)) fun _ _ => ⟨0, []⟩,
    .step (.caller number) .go, .step (.caller number) (.frontier [0])] ++
    List.replicate 4 (.step (.caller number) .go) ++ [.step (.caller number) (.prune [0])]

/-- Two inserts with one neighbour: the second one waits for its vec lock while the first one has
it, and goes on when the first one has returned. -/
def overlappingInserts : List (Action Nat) :=
  choosesZero 0 ++ choosesZero 1 ++ List.replicate 6 (.step (.caller 0) .go) ++
    List.replicate 4 (.step (.caller 1) .go) ++ List.replicate 25 (.step (.caller 0) .go) ++
    List.replicate 2 (.step .bgIoThread .go) ++ List.replicate 28 (.step (.caller 1) .go) ++
    List.replicate 2 (.step .bgIoThread .go)

/-- After the run the new points are in the slots of their locations. -/
theorem maps_agree_overlappingInserts :
    (((updateSystem smallParams (IndexState.PageLayoutLoaded smallParams)).after smallIndex
        overlappingInserts).layout).loc2id smallParams.geometry 3 = .real 2 ∧
      (((updateSystem smallParams (IndexState.PageLayoutLoaded smallParams)).after smallIndex
        overlappingInserts).layout).loc2id smallParams.geometry 5 = .real 3 := by
  have along : (updateSystem smallParams (IndexState.PageLayoutLoaded smallParams)).Along
      (fun _ action => Action.IsOf [0, 1] action) smallIndex overlappingInserts :=
    Transition.System.along_of_all (by decide)
  have reachable := (Transition.System.Reachable.initial smallIndex_loaded).after along
  obtain ⟨idle, phases⟩ := othersIdle_of_reachable (fun _ fresh => fresh.quiescent) reachable
  have returned : ∀ number ∈ [0, 1],
      (((updateSystem smallParams (IndexState.PageLayoutLoaded smallParams)).after smallIndex
        overlappingInserts).threads (.caller number)).phase = .finish := by
    decide +kernel
  have settled : ∀ id agent, ¬ (((updateSystem smallParams
      (IndexState.PageLayoutLoaded smallParams)).after smallIndex
        overlappingInserts).threads agent).Remaps id := by
    rintro id agent ⟨role, remaps⟩
    obtain ⟨number, member, rfl⟩ := idle.mem_callers phases role
    rw [returned number member] at remaps
    obtain ⟨maps, -⟩ | ⟨moves, -⟩ := remaps
    · exact nomatch maps
    · exact nomatch moves
  exact ⟨(maps_agree smallParams reachable).1 2 3 (by decide +kernel) (settled 2),
    (maps_agree smallParams reachable).1 3 5 (by decide +kernel) (settled 3)⟩

/-- A mapped target whose idx lock nobody holds yet has a slot that is only handed out. -/
theorem not_maps_agree_outside_idx_lock :
    ¬ ∀ state, (updateSystem smallParams (IndexState.PageLayoutLoaded smallParams)).Reachable
        (fun before _ => TouchDisjoint before) state →
      ∀ id loc, state.layout.id2loc id = some loc →
        (∀ agent, LockKey.idx id ∉ Holding.heldBy state.holders agent) →
          state.layout.loc2id smallParams.geometry loc = .real id := by
  intro agree
  have isOf : ∀ action ∈ smallInsert.take 23, Action.IsOf [0] action := by decide
  have along : (updateSystem smallParams (IndexState.PageLayoutLoaded smallParams)).Along
      (fun before _ => TouchDisjoint before) smallIndex (smallInsert.take 23) :=
    along_touchDisjoint isOf smallIndex_loaded.quiescent
  have reachable := (Transition.System.Reachable.initial smallIndex_loaded).after along
  have real := agree _ reachable 2 3 (by decide +kernel) (fun agent held => ?_)
  · revert real
    decide +kernel
  · obtain ⟨mode, member⟩ := Holding.mem_heldBy.mp held
    have free : ∀ holding ∈ ((updateSystem smallParams
        (IndexState.PageLayoutLoaded smallParams)).after smallIndex
          (smallInsert.take 23)).holders, holding.key ≠ .idx 2 := by
      decide +kernel
    exact free _ member rfl

end OdinVector
