/-
This file is an abstract model of how inserts share the maps between ids and
locations. An insert takes an id, chooses neighbours, reserves one slot for each
of them and one for its target, maps the target, moves the neighbours one by one,
and then commits: the new slots get their ids and the old ones are freed. Threads,
locks and pages do not occur here. What the locks are for is a condition on the
steps: no two inserts move an id at the same time, and a target is not moved by
another insert before its own has committed.

Under this condition the maps are inverse to each other, apart from the ids that
an insert has mapped to its reserved slots and not committed.
-/

import OdinVector.Loading

namespace OdinVector

/-- How far an insert is with the maps. -/
inductive Stage
  | searching
  | chosen
  | reserved
  | published
  | moving
  | committed
  deriving DecidableEq

namespace Stage

/-- The target has no location. -/
def Unpublished (stage : Stage) : Prop := stage = searching ∨ stage = chosen ∨ stage = reserved

/-- The neighbours are chosen and not yet committed. -/
def Engaged (stage : Stage) : Prop := stage ≠ searching ∧ stage ≠ committed

/-- Slots are reserved. -/
def Holds (stage : Stage) : Prop := stage = reserved ∨ stage = published ∨ stage = moving

/-- The target is mapped to a reserved slot. -/
def Mapping (stage : Stage) : Prop := stage = published ∨ stage = moving

theorem Mapping.holds {stage : Stage} (mapping : stage.Mapping) : stage.Holds := .inr mapping

theorem Holds.engaged {stage : Stage} (holds : stage.Holds) : stage.Engaged := by
  rcases holds with rfl | rfl | rfl <;> exact ⟨nofun, nofun⟩

end Stage

/-- What an insert has to do with the maps. -/
structure Reservation where
  stage : Stage
  target : Nat
  nhood : List Nat := []
  locs : List Nat := []
  /-- The old locations of the neighbours moved so far. -/
  origLocs : List Nat := []

namespace Reservation

/-- The ids whose location the insert relies on. -/
def Touches (reservation : Reservation) (id : Nat) : Prop :=
  reservation.stage.Mapping ∧ id = reservation.target ∨
    reservation.stage = .moving ∧ id ∈ reservation.nhood

/-- The slots the insert relies on. -/
def Owns (reservation : Reservation) (loc : Nat) : Prop :=
  reservation.stage.Holds ∧ loc ∈ reservation.locs ∨
    reservation.stage = .moving ∧ loc ∈ reservation.origLocs

/-- The insert has mapped the id to a slot that it has not committed. -/
def Maps (reservation : Reservation) (id loc : Nat) : Prop :=
  reservation.stage.Mapping ∧ id = reservation.target ∧
      reservation.locs[reservation.nhood.length]? = some loc ∨
    reservation.stage = .moving ∧ ∃ index < reservation.origLocs.length,
      reservation.nhood[index]? = some id ∧ reservation.locs[index]? = some loc

/-- The insert has moved the id away from the slot. -/
def Leaves (reservation : Reservation) (id loc : Nat) : Prop :=
  reservation.stage = .moving ∧ ∃ index : Nat, reservation.nhood[index]? = some id ∧
    reservation.origLocs[index]? = some loc

variable (geometry : Geometry)

/-- What holds of one insert. -/
structure Valid (layout : Layout) (curId : Nat) (reservation : Reservation) : Prop where
  below : reservation.target < curId
  unmapped : reservation.stage.Unpublished → layout.id2loc reservation.target = none
  nodup : reservation.stage.Engaged → (reservation.nhood ++ [reservation.target]).Nodup
  known : reservation.stage ≠ .searching → ∀ id ∈ reservation.nhood, layout.id2loc id ≠ none
  length : reservation.stage.Holds → reservation.locs.length = reservation.nhood.length + 1
  distinct : reservation.stage.Holds → reservation.locs.Nodup
  allocated : reservation.stage.Holds → ∀ loc ∈ reservation.locs,
    layout.loc2id geometry loc = .kAllocatedID
  unmoved : reservation.stage ≠ .committed → reservation.stage ≠ .moving →
    reservation.origLocs = []
  moved : reservation.origLocs.length ≤ reservation.nhood.length
  mapped : ∀ id loc, reservation.Maps id loc → layout.id2loc id = some loc
  left : ∀ id loc, reservation.Leaves id loc → layout.loc2id geometry loc = .real id

variable {geometry} {layout after : Layout} {curId : Nat} {reservation : Reservation}

theorem Maps.holds {id loc : Nat} (maps : reservation.Maps id loc) :
    reservation.stage.Holds ∧ loc ∈ reservation.locs := by
  rcases maps with ⟨mapping, _, last⟩ | ⟨moving, _, _, _, at_index⟩
  · exact ⟨mapping.holds, List.mem_of_getElem? last⟩
  · exact ⟨.inr (.inr moving), List.mem_of_getElem? at_index⟩

theorem Maps.touches {id loc : Nat} (maps : reservation.Maps id loc) : reservation.Touches id := by
  rcases maps with ⟨mapping, target, _⟩ | ⟨moving, _, _, at_index, _⟩
  · exact .inl ⟨mapping, target⟩
  · exact .inr ⟨moving, List.mem_of_getElem? at_index⟩

theorem Leaves.owns {id loc : Nat} (leaves : reservation.Leaves id loc) :
    reservation.Owns loc := by
  obtain ⟨moving, _, _, at_index⟩ := leaves
  exact .inr ⟨moving, List.mem_of_getElem? at_index⟩

/-- When all neighbours are moved the insert maps its ids to its slots in their order. -/
theorem maps_iff {id loc : Nat} (moving : reservation.stage = .moving)
    (all : reservation.nhood.length ≤ reservation.origLocs.length) :
    reservation.Maps id loc ↔ ∃ index : Nat, reservation.locs[index]? = some loc ∧
      (reservation.nhood ++ [reservation.target])[index]? = some id := by
  constructor
  · rintro (⟨_, rfl, last⟩ | ⟨_, index, _, atId, atLoc⟩)
    · exact ⟨_, last, List.getElem?_concat_length⟩
    · refine ⟨index, atLoc, ?_⟩
      rw [List.getElem?_append_left (List.getElem?_eq_some_iff.mp atId).1, atId]
  · rintro ⟨index, atLoc, atId⟩
    by_cases inside : index < reservation.nhood.length
    · rw [List.getElem?_append_left inside] at atId
      exact .inr ⟨moving, index, inside.trans_le all, atId, atLoc⟩
    · have last : index = reservation.nhood.length := by
        have := (List.getElem?_eq_some_iff.mp atId).1
        rw [List.length_append, List.length_singleton] at this
        omega
      subst last
      rw [List.getElem?_concat_length, Option.some.injEq] at atId
      exact .inl ⟨.inr moving, atId.symm, atLoc⟩

namespace Valid

/-- An insert that others leave alone stays valid. -/
theorem keep (valid : reservation.Valid geometry layout curId) {later : Nat}
    (grown : curId ≤ later)
    (unmapped : reservation.stage.Unpublished → after.id2loc reservation.target = none)
    (same : ∀ id, reservation.Touches id → after.id2loc id = layout.id2loc id)
    (known : ∀ id, layout.id2loc id ≠ none → after.id2loc id ≠ none)
    (slots : ∀ loc, reservation.Owns loc → after.loc2id geometry loc = layout.loc2id geometry loc) :
    reservation.Valid geometry after later where
  below := valid.below.trans_le grown
  unmapped := unmapped
  nodup := valid.nodup
  known chosen id member := known id (valid.known chosen id member)
  length := valid.length
  distinct := valid.distinct
  allocated holds loc member := (slots loc (.inl ⟨holds, member⟩)).trans
    (valid.allocated holds loc member)
  unmoved := valid.unmoved
  moved := valid.moved
  mapped id loc maps := (same id maps.touches).trans (valid.mapped id loc maps)
  left id loc leaves := (slots loc leaves.owns).trans (valid.left id loc leaves)

/-- A slot of a record is not reserved. -/
theorem not_mem_locs (valid : reservation.Valid geometry layout curId)
    (holds : reservation.stage.Holds) {id loc : Nat}
    (real : layout.loc2id geometry loc = .real id) : loc ∉ reservation.locs :=
  fun member => nomatch real.symm.trans (valid.allocated holds loc member)

theorem not_mem_nhood (valid : reservation.Valid geometry layout curId)
    (engaged : reservation.stage.Engaged) : reservation.target ∉ reservation.nhood := by
  have nodup := valid.nodup engaged
  rw [List.nodup_append_comm] at nodup
  exact (List.nodup_cons.mp nodup).1

/-- An old location is left by one neighbour. -/
theorem exists_leaves (valid : reservation.Valid geometry layout curId)
    (moving : reservation.stage = .moving) {loc : Nat} (member : loc ∈ reservation.origLocs) :
    ∃ id ∈ reservation.nhood, reservation.Leaves id loc ∧ ∃ index < reservation.origLocs.length,
      reservation.nhood[index]? = some id := by
  obtain ⟨index, old⟩ := List.mem_iff_getElem?.mp member
  have moved := (List.getElem?_eq_some_iff.mp old).1
  have inside := moved.trans_le valid.moved
  exact ⟨_, List.getElem_mem inside,
    ⟨moving, index, List.getElem?_eq_getElem inside, old⟩, index, moved,
    List.getElem?_eq_getElem inside⟩

theorem nodup_nhood (valid : reservation.Valid geometry layout curId)
    (engaged : reservation.stage.Engaged) : reservation.nhood.Nodup :=
  (List.nodup_append.mp (valid.nodup engaged)).1

/-- What `erase_and_set_loc` does to the slots at the end of an insert. -/
theorem eraseAndSetLoc (valid : reservation.Valid geometry layout curId)
    (moving : reservation.stage = .moving) (wellFormed : layout.WellFormed geometry) :
    let after := layout.eraseAndSetLoc geometry reservation.origLocs reservation.locs
      (reservation.nhood ++ [reservation.target])
    after.WellFormed geometry ∧ after.id2loc = layout.id2loc ∧ after.curLoc = layout.curLoc ∧
      (∀ pair ∈ reservation.locs.zip (reservation.nhood ++ [reservation.target]),
        after.loc2id geometry pair.1 = .real pair.2) ∧
      (∀ loc ∈ reservation.origLocs, after.loc2id geometry loc = .kInvalidID) ∧
      ∀ loc ∉ reservation.locs, loc ∉ reservation.origLocs →
        after.loc2id geometry loc = layout.loc2id geometry loc := by
  have holds : reservation.stage.Holds := .inr (.inr moving)
  have notNew : ∀ loc ∈ reservation.origLocs, loc ∉ reservation.locs := by
    intro loc old
    obtain ⟨id, _, leaves, _⟩ := valid.exists_leaves moving old
    exact valid.not_mem_locs holds (valid.left id loc leaves)
  have oldDistinct : reservation.origLocs.Nodup := by
    rw [List.Nodup, List.pairwise_iff_getElem]
    intro first second insideFirst insideSecond ordered same
    have inNhood := insideSecond.trans_le valid.moved
    have leaves : ∀ index (inside : index < reservation.origLocs.length)
        (inNhood : index < reservation.nhood.length),
        layout.loc2id geometry reservation.origLocs[index] =
          .real reservation.nhood[index] := fun index inside inNhood =>
      valid.left _ _
        ⟨moving, index, List.getElem?_eq_getElem inNhood, List.getElem?_eq_getElem inside⟩
    have ids := (leaves first insideFirst (ordered.trans inNhood)).symm.trans
      ((congrArg _ same).trans (leaves second insideSecond inNhood))
    exact absurd ((valid.nodup_nhood holds.engaged).getElem_inj_iff.mp (SlotId.real.inj ids))
      ordered.ne
  have sameLength : reservation.locs.length =
      (reservation.nhood ++ [reservation.target]).length := by
    rw [valid.length holds, List.length_append, List.length_singleton]
  refine Layout.eraseAndSetLoc_spec wellFormed sameLength (valid.distinct holds) oldDistinct notNew
    (fun loc member => valid.allocated holds loc member ▸ nofun) (fun loc member => ?_)
  obtain ⟨id, _, leaves, _⟩ := valid.exists_leaves moving member
  rw [valid.left id loc leaves]
  nofun

end Valid

end Reservation

/-- The maps, the id counter and the inserts that use them. -/
structure MapState (Agent : Type) where
  layout : Layout
  curId : Nat
  inserts : Agent → Option Reservation

namespace MapState

variable {Agent : Type} [DecidableEq Agent] (geometry : Geometry)

/-- The state with another reservation of an insert. -/
def set (state : MapState Agent) (agent : Agent) (reservation : Reservation) : MapState Agent :=
  { state with inserts := Function.update state.inserts agent (some reservation) }

/-- No other insert relies on where the id is. -/
def Alone (state : MapState Agent) (agent : Agent) (id : Nat) : Prop :=
  ∀ other reservation, other ≠ agent → state.inserts other = some reservation →
    ¬ reservation.Touches id

/-- One step of one insert. -/
inductive Step : MapState Agent → MapState Agent → Prop
  | stutter {state : MapState Agent} : Step state state
  | begin {state : MapState Agent} {agent : Agent} (free : state.inserts agent = none) :
      Step state { state.set agent ⟨.searching, state.curId, [], [], []⟩ with
        curId := state.curId + 1 }
  | choose {state : MapState Agent} {agent : Agent} {reservation : Reservation} {nhood : List Nat}
      (here : state.inserts agent = some reservation) (stage : reservation.stage = .searching)
      (nodup : nhood.Nodup) (known : ∀ id ∈ nhood, state.layout.id2loc id ≠ none) :
      Step state (state.set agent { reservation with stage := .chosen, nhood := nhood })
  | reserve {state : MapState Agent} {agent : Agent} {reservation : Reservation} {layout : Layout}
      {locs needRead hints : List Nat} (here : state.inserts agent = some reservation)
      (stage : reservation.stage = .chosen)
      (allocated : state.layout.allocLoc geometry (reservation.nhood.length + 1) hints =
        some (layout, locs, needRead)) :
      Step state { state.set agent { reservation with stage := .reserved, locs := locs } with
        layout := layout }
  | publish {state : MapState Agent} {agent : Agent} {reservation : Reservation} {loc : Nat}
      (here : state.inserts agent = some reservation) (stage : reservation.stage = .reserved)
      (last : reservation.locs[reservation.nhood.length]? = some loc) :
      Step state { state.set agent { reservation with stage := .published } with
        layout := { state.layout with
          id2loc := Function.update state.layout.id2loc reservation.target (some loc) } }
  | enter {state : MapState Agent} {agent : Agent} {reservation : Reservation}
      (here : state.inserts agent = some reservation) (stage : reservation.stage = .published) :
      Step state (state.set agent { reservation with stage := .moving })
  | move {state : MapState Agent} {agent : Agent} {reservation : Reservation} {id loc current : Nat}
      (here : state.inserts agent = some reservation) (stage : reservation.stage = .moving)
      (next : reservation.nhood[reservation.origLocs.length]? = some id)
      (slot : reservation.locs[reservation.origLocs.length]? = some loc)
      (found : state.layout.id2loc id = some current) (alone : state.Alone agent id) :
      Step state
        { state.set agent { reservation with origLocs := reservation.origLocs ++ [current] } with
          layout := { state.layout with
            id2loc := Function.update state.layout.id2loc id (some loc) } }
  | commit {state : MapState Agent} {agent : Agent} {reservation : Reservation}
      (here : state.inserts agent = some reservation) (stage : reservation.stage = .moving)
      (all : reservation.nhood.length ≤ reservation.origLocs.length)
      (alone : ∀ id ∈ reservation.nhood, state.Alone agent id) :
      Step state
        { state.set agent
            { reservation with
              stage := .committed
              nhood := reservation.nhood ++ [reservation.target] } with
          layout := state.layout.eraseAndSetLoc geometry reservation.origLocs reservation.locs
            (reservation.nhood ++ [reservation.target]) }

/-- The invariant of the maps. -/
structure Tracked (state : MapState Agent) : Prop where
  formed : state.layout.WellFormed geometry
  below : ∀ id, state.layout.id2loc id ≠ none → id < state.curId
  valid : ∀ agent reservation, state.inserts agent = some reservation →
    reservation.Valid geometry state.layout state.curId
  targets : ∀ first second one two, state.inserts first = some one →
    state.inserts second = some two → one.target = two.target → first = second
  disjoint : ∀ first second one two loc, state.inserts first = some one →
    state.inserts second = some two → one.stage.Holds → two.stage.Holds →
      loc ∈ one.locs → loc ∈ two.locs → first = second
  forward : ∀ id loc, state.layout.id2loc id = some loc →
    state.layout.loc2id geometry loc = .real id ∨
      ∃ agent reservation, state.inserts agent = some reservation ∧ reservation.Maps id loc
  backward : ∀ id loc, state.layout.loc2id geometry loc = .real id →
    state.layout.id2loc id = some loc ∨
      ∃ agent reservation, state.inserts agent = some reservation ∧ reservation.Leaves id loc

variable {geometry} {state next : MapState Agent} {agent : Agent}
  {reservation : Reservation}

theorem set_inserts {other : Agent} {found : Reservation}
    (lookup : Function.update state.inserts agent (some reservation) other = some found) :
    other = agent ∧ found = reservation ∨
      other ≠ agent ∧ state.inserts other = some found := by
  by_cases same : other = agent
  · subst same
    rw [Function.update_self, Option.some.injEq] at lookup
    exact .inl ⟨rfl, lookup.symm⟩
  · rw [Function.update_of_ne same] at lookup
    exact .inr ⟨same, lookup⟩

namespace Tracked

variable (tracked : state.Tracked geometry)
include tracked

omit [DecidableEq Agent] in
/-- Where a mapped id is. -/
theorem forward_split (here : state.inserts agent = some reservation) {id loc : Nat}
    (mapped : state.layout.id2loc id = some loc) :
    state.layout.loc2id geometry loc = .real id ∨ reservation.Maps id loc ∨
      ∃ other found, other ≠ agent ∧ state.inserts other = some found ∧ found.Maps id loc := by
  rcases tracked.forward id loc mapped with real | ⟨other, found, lookup, maps⟩
  · exact .inl real
  · by_cases same : other = agent
    · subst same
      rw [here, Option.some.injEq] at lookup
      exact .inr (.inl (lookup ▸ maps))
    · exact .inr (.inr ⟨other, found, same, lookup, maps⟩)

omit [DecidableEq Agent] in
/-- Which id a slot belongs to. -/
theorem backward_split (here : state.inserts agent = some reservation) {id loc : Nat}
    (real : state.layout.loc2id geometry loc = .real id) :
    state.layout.id2loc id = some loc ∨ reservation.Leaves id loc ∨
      ∃ other found, other ≠ agent ∧ state.inserts other = some found ∧ found.Leaves id loc := by
  rcases tracked.backward id loc real with mapped | ⟨other, found, lookup, leaves⟩
  · exact .inl mapped
  · by_cases same : other = agent
    · subst same
      rw [here, Option.some.injEq] at lookup
      exact .inr (.inl (lookup ▸ leaves))
    · exact .inr (.inr ⟨other, found, same, lookup, leaves⟩)

/-- One insert goes on and the maps change, where no other insert relies on them. -/
theorem update (here : state.inserts agent = some reservation) {later : Reservation}
    {layout : Layout} (formed : layout.WellFormed geometry)
    (below : ∀ id, layout.id2loc id ≠ none → id < state.curId)
    (own : later.Valid geometry layout state.curId) (target : later.target = reservation.target)
    (fresh : later.stage.Holds → reservation.stage.Holds ∧ later.locs = reservation.locs ∨
      ∀ loc ∈ later.locs, state.layout.loc2id geometry loc = .kInvalidID)
    (known : ∀ id, state.layout.id2loc id ≠ none → layout.id2loc id ≠ none)
    (unmapped : ∀ other found, other ≠ agent → state.inserts other = some found →
      found.stage.Unpublished → layout.id2loc found.target = none)
    (same : ∀ other found, other ≠ agent → state.inserts other = some found →
      ∀ id, found.Touches id → layout.id2loc id = state.layout.id2loc id)
    (slots : ∀ other found, other ≠ agent → state.inserts other = some found →
      ∀ loc, found.Owns loc → layout.loc2id geometry loc = state.layout.loc2id geometry loc)
    (forward : ∀ id loc, layout.id2loc id = some loc → layout.loc2id geometry loc = .real id ∨
      later.Maps id loc ∨
      ∃ other found, other ≠ agent ∧ state.inserts other = some found ∧ found.Maps id loc)
    (backward : ∀ id loc, layout.loc2id geometry loc = .real id → layout.id2loc id = some loc ∨
      later.Leaves id loc ∨
      ∃ other found, other ≠ agent ∧ state.inserts other = some found ∧ found.Leaves id loc) :
    ({ state.set agent later with layout := layout } : MapState Agent).Tracked geometry := by
  have clash : later.stage.Holds → ∀ other found, other ≠ agent →
      state.inserts other = some found → found.stage.Holds → ∀ loc ∈ later.locs,
        loc ∉ found.locs := by
    intro holds other found different lookup otherHolds loc member inOther
    rcases fresh holds with ⟨before, locs⟩ | free
    · exact different (tracked.disjoint other agent found reservation loc lookup here otherHolds
        before inOther (locs ▸ member))
    · have allocated := (tracked.valid other found lookup).allocated otherHolds loc inOther
      exact nomatch allocated.symm.trans (free loc member)
  refine ⟨formed, below, fun other found lookup => ?_, fun first second one two atFirst atSecond
    equal => ?_, fun first second one two loc atFirst atSecond firstHolds secondHolds inFirst
    inSecond => ?_, fun id loc mapped => ?_, fun id loc real => ?_⟩
  · rcases set_inserts lookup with ⟨rfl, rfl⟩ | ⟨different, lookup⟩
    · exact own
    · exact (tracked.valid other found lookup).keep (Nat.le_refl _)
        (unmapped other found different lookup) (same other found different lookup) known
        (slots other found different lookup)
  · rcases set_inserts atFirst with ⟨rfl, rfl⟩ | ⟨_, oldFirst⟩ <;>
      rcases set_inserts atSecond with ⟨rfl, rfl⟩ | ⟨_, oldSecond⟩
    · rfl
    · exact tracked.targets _ _ _ _ here oldSecond (target.symm.trans equal)
    · exact tracked.targets _ _ _ _ oldFirst here (equal.trans target)
    · exact tracked.targets _ _ _ _ oldFirst oldSecond equal
  · rcases set_inserts atFirst with ⟨rfl, rfl⟩ | ⟨firstOther, oldFirst⟩ <;>
      rcases set_inserts atSecond with ⟨rfl, rfl⟩ | ⟨secondOther, oldSecond⟩
    · rfl
    · exact absurd inSecond (clash firstHolds _ _ secondOther oldSecond secondHolds loc inFirst)
    · exact absurd inFirst (clash secondHolds _ _ firstOther oldFirst firstHolds loc inSecond)
    · exact tracked.disjoint _ _ _ _ loc oldFirst oldSecond firstHolds secondHolds inFirst inSecond
  · refine (forward id loc mapped).imp_right fun maps => ?_
    rcases maps with own | ⟨other, found, different, lookup, maps⟩
    · exact ⟨agent, later, Function.update_self _ _ _, own⟩
    · exact ⟨other, found, (Function.update_of_ne different _ _).trans lookup, maps⟩
  · refine (backward id loc real).imp_right fun leaves => ?_
    rcases leaves with own | ⟨other, found, different, lookup, leaves⟩
    · exact ⟨agent, later, Function.update_self _ _ _, own⟩
    · exact ⟨other, found, (Function.update_of_ne different _ _).trans lookup, leaves⟩

/-- One insert goes on and the maps stay. -/
theorem updateOwn (here : state.inserts agent = some reservation) {later : Reservation}
    (own : later.Valid geometry state.layout state.curId) (target : later.target = reservation.target)
    (held : later.stage.Holds → reservation.stage.Holds ∧ later.locs = reservation.locs)
    (maps : ∀ id loc, reservation.Maps id loc → later.Maps id loc)
    (leaves : ∀ id loc, reservation.Leaves id loc → later.Leaves id loc) :
    (state.set agent later).Tracked geometry :=
  tracked.update here tracked.formed tracked.below own target (fun holds => .inl (held holds))
    (fun _ known => known) (fun other found _ lookup => (tracked.valid other found lookup).unmapped)
    (fun _ _ _ _ _ _ => rfl) (fun _ _ _ _ _ _ => rfl)
    (fun id loc mapped => (tracked.forward_split here mapped).imp_right
      (.imp_left (maps id loc)))
    (fun id loc real => (tracked.backward_split here real).imp_right (.imp_left (leaves id loc)))

/-! ### The steps -/

theorem begin (free : state.inserts agent = none) :
    ({ state.set agent ⟨.searching, state.curId, [], [], []⟩ with
        curId := state.curId + 1 } : MapState Agent).Tracked geometry := by
  have idle : ∀ other found, state.inserts other = some found → other ≠ agent := by
    rintro _ _ lookup rfl
    exact nomatch free.symm.trans lookup
  have kept : ∀ other found, state.inserts other = some found →
      Function.update state.inserts agent (some ⟨.searching, state.curId, [], [], []⟩) other =
        some found := fun other found lookup =>
    (Function.update_of_ne (idle other found lookup) _ _).trans lookup
  have new : state.layout.id2loc state.curId = none := by
    by_contra known
    exact Nat.lt_irrefl _ (tracked.below _ known)
  refine ⟨tracked.formed, fun id known => (tracked.below id known).trans (Nat.lt_succ_self _),
    fun other found lookup => ?_, fun first second one two atFirst atSecond equal => ?_,
    fun first second one two loc atFirst atSecond firstHolds secondHolds inFirst inSecond => ?_,
    fun id loc mapped => ?_, fun id loc real => ?_⟩
  · rcases set_inserts lookup with ⟨rfl, rfl⟩ | ⟨different, lookup⟩
    · exact ⟨Nat.lt_succ_self _, fun _ => new, fun engaged => absurd rfl engaged.1,
        fun chosen => absurd rfl chosen, fun holds => absurd rfl holds.engaged.1,
        fun holds => absurd rfl holds.engaged.1, fun holds => absurd rfl holds.engaged.1,
        fun _ _ => rfl, Nat.le_refl _,
        fun id loc maps => absurd rfl maps.holds.1.engaged.1, fun id loc leaves => nomatch leaves.1⟩
    · have valid := tracked.valid other found lookup
      exact valid.keep (Nat.le_succ _) valid.unmapped (fun _ _ => rfl) (fun _ known => known)
        (fun _ _ => rfl)
  · rcases set_inserts atFirst with ⟨rfl, rfl⟩ | ⟨_, oldFirst⟩ <;>
      rcases set_inserts atSecond with ⟨rfl, rfl⟩ | ⟨_, oldSecond⟩
    · rfl
    · exact absurd equal (tracked.valid _ _ oldSecond).below.ne'
    · exact absurd equal (tracked.valid _ _ oldFirst).below.ne
    · exact tracked.targets _ _ _ _ oldFirst oldSecond equal
  · rcases set_inserts atFirst with ⟨rfl, rfl⟩ | ⟨_, oldFirst⟩ <;>
      rcases set_inserts atSecond with ⟨rfl, rfl⟩ | ⟨_, oldSecond⟩
    · rfl
    · exact absurd rfl firstHolds.engaged.1
    · exact absurd rfl secondHolds.engaged.1
    · exact tracked.disjoint _ _ _ _ loc oldFirst oldSecond firstHolds secondHolds inFirst inSecond
  · refine (tracked.forward id loc mapped).imp_right ?_
    rintro ⟨other, found, lookup, maps⟩
    exact ⟨other, found, kept other found lookup, maps⟩
  · refine (tracked.backward id loc real).imp_right ?_
    rintro ⟨other, found, lookup, leaves⟩
    exact ⟨other, found, kept other found lookup, leaves⟩

theorem choose (here : state.inserts agent = some reservation)
    (stage : reservation.stage = .searching) {nhood : List Nat} (nodup : nhood.Nodup)
    (known : ∀ id ∈ nhood, state.layout.id2loc id ≠ none) :
    (state.set agent { reservation with stage := .chosen, nhood := nhood }).Tracked geometry := by
  obtain ⟨_, target, _, locs, origLocs⟩ := reservation
  subst stage
  have valid := tracked.valid agent _ here
  have fresh : state.layout.id2loc target = none := valid.unmapped (.inl rfl)
  obtain rfl : origLocs = [] := valid.unmoved nofun nofun
  refine tracked.updateOwn here
    { valid with
      unmapped := fun _ => fresh
      nodup := fun _ => List.nodup_append.mpr ⟨nodup, List.nodup_singleton _, ?_⟩
      known := fun _ => known
      length := by simp [Stage.Holds]
      distinct := by simp [Stage.Holds]
      allocated := by simp [Stage.Holds]
      unmoved := fun _ _ => rfl
      moved := Nat.zero_le _
      mapped := by simp [Reservation.Maps, Stage.Mapping]
      left := by simp [Reservation.Leaves] } rfl ?_ ?_ ?_
  · rintro id member _ inTarget rfl
    exact known id member (List.mem_singleton.mp inTarget ▸ fresh)
  · simp [Stage.Holds]
  · simp [Reservation.Maps, Stage.Mapping]
  · simp [Reservation.Leaves]

theorem reserve (here : state.inserts agent = some reservation)
    (stage : reservation.stage = .chosen) {layout : Layout} {locs needRead : List Nat}
    (length : locs.length = reservation.nhood.length + 1)
    (takes : Layout.Takes geometry state.layout layout locs needRead) :
    ({ state.set agent { reservation with stage := .reserved, locs := locs } with
        layout := layout } : MapState Agent).Tracked geometry := by
  obtain ⟨_, target, nhood, _, origLocs⟩ := reservation
  subst stage
  have valid := tracked.valid agent _ here
  obtain rfl : origLocs = [] := valid.unmoved nofun nofun
  have used : ∀ loc, state.layout.loc2id geometry loc ≠ .kInvalidID →
      layout.loc2id geometry loc = state.layout.loc2id geometry loc := by
    intro loc inUse
    rw [takes.taken, if_neg fun member => inUse (takes.free loc member)]
  have real : ∀ id loc, layout.loc2id geometry loc = .real id ↔
      state.layout.loc2id geometry loc = .real id := by
    intro id loc
    rw [takes.taken]
    by_cases member : loc ∈ locs
    · rw [if_pos member, takes.free loc member]
      exact ⟨nofun, nofun⟩
    · rw [if_neg member]
  refine tracked.update here takes.formed (fun id known => tracked.below id (takes.id2loc ▸ known))
    { valid with
      unmapped := fun _ => takes.id2loc ▸ valid.unmapped (.inr (.inl rfl))
      nodup := fun _ => valid.nodup ⟨nofun, nofun⟩
      known := fun _ => takes.id2loc ▸ valid.known nofun
      length := fun _ => length
      distinct := fun _ => takes.distinct
      allocated := fun _ loc member => (takes.taken loc).trans (if_pos member)
      unmoved := fun _ _ => rfl
      mapped := by simp [Reservation.Maps, Stage.Mapping]
      left := by simp [Reservation.Leaves] } rfl (fun _ => .inr takes.free)
    (fun id known => takes.id2loc ▸ known)
    (fun other found _ lookup early => takes.id2loc ▸ (tracked.valid other found lookup).unmapped early)
    (fun _ _ _ _ id _ => by rw [takes.id2loc]) ?_ (fun id loc mapped => ?_) (fun id loc holds => ?_)
  · rintro other found _ lookup loc (⟨holds, member⟩ | ⟨moving, member⟩)
    · refine used loc fun free => ?_
      have allocated := (tracked.valid other found lookup).allocated holds loc member
      exact nomatch allocated.symm.trans free
    · obtain ⟨index, old⟩ := List.mem_iff_getElem?.mp member
      have otherValid := tracked.valid other found lookup
      have inside := (List.getElem?_eq_some_iff.mp old).1.trans_le otherValid.moved
      have left := otherValid.left _ loc ⟨moving, index, List.getElem?_eq_getElem inside, old⟩
      exact used loc fun free => nomatch left.symm.trans free
  · rw [takes.id2loc] at mapped
    rcases tracked.forward_split here mapped with holds | own | others
    · exact .inl ((real id loc).mpr holds)
    · simp [Reservation.Maps, Stage.Mapping] at own
    · exact .inr (.inr others)
  · rcases tracked.backward_split here ((real id loc).mp holds) with mapped | own | others
    · exact .inl (takes.id2loc ▸ mapped)
    · exact nomatch own.1
    · exact .inr (.inr others)

omit [DecidableEq Agent] tracked in
theorem update_known {id2loc : Nat → Option Nat} {key value id : Nat} (known : id2loc id ≠ none) :
    Function.update id2loc key (some value) id ≠ none := by
  by_cases same : id = key
  · subst same
    rw [Function.update_self]
    nofun
  · rwa [Function.update_of_ne same]

theorem publish (here : state.inserts agent = some reservation)
    (stage : reservation.stage = .reserved) {loc : Nat}
    (last : reservation.locs[reservation.nhood.length]? = some loc) :
    ({ state.set agent { reservation with stage := .published } with
        layout := { state.layout with
          id2loc := Function.update state.layout.id2loc reservation.target (some loc) } } :
      MapState Agent).Tracked geometry := by
  obtain ⟨_, target, nhood, locs, origLocs⟩ := reservation
  subst stage
  have valid := tracked.valid agent _ here
  have fresh : state.layout.id2loc target = none := valid.unmapped (.inr (.inr rfl))
  obtain rfl : origLocs = [] := valid.unmoved (fun equal => by cases equal)
    (fun equal => by cases equal)
  have different : ∀ id, state.layout.id2loc id ≠ none → id ≠ target := by
    rintro id known rfl
    exact known fresh
  have otherTarget : ∀ other found, other ≠ agent → state.inserts other = some found →
      found.target ≠ target := fun other found notSame lookup same =>
    notSame (tracked.targets other agent found _ lookup here same)
  refine tracked.update here ⟨tracked.formed.aligned, tracked.formed.below,
      tracked.formed.queueNodup, tracked.formed.queueEmpty⟩ (fun id known => ?_)
    { valid with
      unmapped := by simp [Stage.Unpublished]
      nodup := fun _ => valid.nodup ⟨(fun equal => by cases equal), (fun equal => by cases equal)⟩
      known := fun _ id member => update_known (valid.known (fun equal => by cases equal) id member)
      length := fun _ => valid.length (.inl rfl)
      distinct := fun _ => valid.distinct (.inl rfl)
      allocated := fun _ => valid.allocated (.inl rfl)
      unmoved := fun _ _ => rfl
      mapped := ?_
      left := by simp [Reservation.Leaves] } rfl (fun _ => .inl ⟨.inl rfl, rfl⟩)
    (fun _ => update_known) (fun other found notSame lookup early => ?_)
    (fun other found notSame lookup id touches => ?_) (fun _ _ _ _ _ _ => rfl)
    (fun id loc' (mapped : Function.update _ target _ id = _) => ?_) (fun id loc' real => ?_)
  · by_cases same : id = target
    · exact same ▸ valid.below
    · exact tracked.below id ((Function.update_of_ne same _ _).symm.trans_ne known)
  · rintro id loc' (⟨_, rfl, atLast⟩ | ⟨moving, _⟩)
    · exact (Function.update_self _ _ _).trans (last.symm.trans atLast)
    · cases moving
  · exact (Function.update_of_ne (otherTarget other found notSame lookup) _ _).trans
      ((tracked.valid other found lookup).unmapped early)
  · refine Function.update_of_ne ?_ _ _
    rcases touches with ⟨_, rfl⟩ | ⟨moving, member⟩
    · exact otherTarget other found notSame lookup
    · refine different id ((tracked.valid other found lookup).known ?_ id member)
      rw [moving]
      decide
  · by_cases same : id = target
    · subst same
      rw [Function.update_self] at mapped
      exact .inr (.inl (.inl ⟨.inl rfl, rfl, last.trans mapped⟩))
    · rw [Function.update_of_ne same] at mapped
      rcases tracked.forward_split here mapped with holds | own | others
      · exact .inl holds
      · simp [Reservation.Maps, Stage.Mapping] at own
      · exact .inr (.inr others)
  · rcases tracked.backward_split here real with mapped | own | others
    · refine .inl ((Function.update_of_ne (different id ?_) _ _).trans mapped)
      rw [mapped]
      exact Option.some_ne_none _
    · cases own.1
    · exact .inr (.inr others)

theorem enter (here : state.inserts agent = some reservation)
    (stage : reservation.stage = .published) :
    (state.set agent { reservation with stage := .moving }).Tracked geometry := by
  obtain ⟨_, target, nhood, locs, origLocs⟩ := reservation
  subst stage
  have valid := tracked.valid agent _ here
  obtain rfl : origLocs = [] := valid.unmoved nofun nofun
  refine tracked.updateOwn here
    { valid with
      unmapped := by simp [Stage.Unpublished]
      nodup := fun _ => valid.nodup ⟨nofun, nofun⟩
      known := fun _ => valid.known nofun
      length := fun _ => valid.length (.inr (.inl rfl))
      distinct := fun _ => valid.distinct (.inr (.inl rfl))
      allocated := fun _ => valid.allocated (.inr (.inl rfl))
      unmoved := fun _ _ => rfl
      mapped := ?_
      left := ?_ } rfl (fun _ => ⟨.inr (.inl rfl), rfl⟩) ?_ ?_
  · rintro id loc (⟨_, rfl, last⟩ | ⟨_, _, none, _⟩)
    · exact valid.mapped _ loc (.inl ⟨.inl rfl, rfl, last⟩)
    · cases none
  · rintro id loc ⟨_, _, _, old⟩
    cases old
  · rintro id loc (⟨_, rfl, last⟩ | ⟨moving, _⟩)
    · exact .inl ⟨.inr rfl, rfl, last⟩
    · cases moving
  · exact fun id loc leaves => nomatch leaves.1

omit [DecidableEq Agent] in
/-- The location of an id that is about to be moved holds its record. -/
theorem loc2id_of_alone (here : state.inserts agent = some reservation)
    (stage : reservation.stage = .moving) {id current : Nat}
    (next : reservation.nhood[reservation.origLocs.length]? = some id)
    (found : state.layout.id2loc id = some current) (alone : state.Alone agent id) :
    state.layout.loc2id geometry current = .real id := by
  have valid := tracked.valid agent _ here
  have engaged : reservation.stage.Engaged := stage ▸ ⟨nofun, nofun⟩
  rcases tracked.forward_split here found with real | own | ⟨other, insert, different, lookup, maps⟩
  · exact real
  · rcases own with ⟨_, rfl, _⟩ | ⟨_, index, earlier, atIndex, _⟩
    · exact absurd (List.mem_of_getElem? next) (valid.not_mem_nhood engaged)
    · obtain ⟨inside, _⟩ := List.getElem?_eq_some_iff.mp atIndex
      have same := (List.getElem?_inj inside (valid.nodup_nhood engaged)).mp
        (atIndex.trans next.symm)
      omega
  · exact absurd maps.touches (alone other insert different lookup)

theorem move (here : state.inserts agent = some reservation)
    (stage : reservation.stage = .moving) {id loc current : Nat}
    (next : reservation.nhood[reservation.origLocs.length]? = some id)
    (slot : reservation.locs[reservation.origLocs.length]? = some loc)
    (found : state.layout.id2loc id = some current) (alone : state.Alone agent id) :
    ({ state.set agent { reservation with origLocs := reservation.origLocs ++ [current] } with
        layout := { state.layout with
          id2loc := Function.update state.layout.id2loc id (some loc) } } :
      MapState Agent).Tracked geometry := by
  have real := tracked.loc2id_of_alone here stage next found alone
  obtain ⟨_, target, nhood, locs, origLocs⟩ := reservation
  dsimp only at stage next slot
  subst stage
  have valid := tracked.valid agent _ here
  have engaged : Stage.moving.Engaged := ⟨nofun, nofun⟩
  have member := List.mem_of_getElem? next
  obtain ⟨inside, _⟩ := List.getElem?_eq_some_iff.mp next
  have notTarget : target ≠ id := by
    rintro rfl
    exact valid.not_mem_nhood engaged member
  have earlier : ∀ {index other : Nat}, index < origLocs.length → nhood[index]? = some other →
      other ≠ id := by
    rintro index _ early atIndex rfl
    obtain ⟨insideIndex, _⟩ := List.getElem?_eq_some_iff.mp atIndex
    have same := (List.getElem?_inj insideIndex (valid.nodup_nhood engaged)).mp
      (atIndex.trans next.symm)
    omega
  refine tracked.update here ⟨tracked.formed.aligned, tracked.formed.below,
      tracked.formed.queueNodup, tracked.formed.queueEmpty⟩ (fun other known => ?_)
    { valid with
      unmapped := by simp [Stage.Unpublished]
      known := fun _ other inNhood => update_known (valid.known nofun other inNhood)
      unmoved := fun _ notMoving => absurd rfl notMoving
      moved := by rw [List.length_append, List.length_singleton]; exact inside
      mapped := ?_
      left := ?_ } rfl (fun holds => .inl ⟨holds, rfl⟩) (fun _ => update_known)
    (fun other insert _ lookup early => ?_) (fun other insert different lookup touched touches => ?_)
    (fun _ _ _ _ _ _ => rfl) (fun other loc' (mapped : Function.update _ id _ other = _) => ?_)
    (fun other loc' holds => ?_)
  · by_cases same : other = id
    · subst same
      exact tracked.below other (found ▸ nofun)
    · exact tracked.below other ((Function.update_of_ne same _ _).symm.trans_ne known)
  · rintro other loc' (⟨mapping, rfl, last⟩ | ⟨_, index, moved, atIndex, atLoc⟩)
    · exact (Function.update_of_ne notTarget _ _).trans
        (valid.mapped _ loc' (.inl ⟨mapping, rfl, last⟩))
    · rw [List.length_append, List.length_singleton] at moved
      rcases Nat.lt_succ_iff_lt_or_eq.mp moved with early | rfl
      · exact (Function.update_of_ne (earlier early atIndex) _ _).trans
          (valid.mapped _ loc' (.inr ⟨rfl, index, early, atIndex, atLoc⟩))
      · obtain rfl := Option.some.inj (next.symm.trans atIndex)
        exact (Function.update_self _ _ _).trans (slot.symm.trans atLoc)
  · rintro other loc' ⟨_, index, atIndex, old⟩
    by_cases early : index < origLocs.length
    · rw [List.getElem?_append_left early] at old
      exact valid.left other loc' ⟨rfl, index, atIndex, old⟩
    · have last : index = origLocs.length := by
        have above := (List.getElem?_eq_some_iff.mp old).1
        rw [List.length_append, List.length_singleton] at above
        exact Nat.le_antisymm (Nat.le_of_lt_succ above) (Nat.le_of_not_lt early)
      subst last
      obtain rfl := Option.some.inj (next.symm.trans atIndex)
      rw [List.getElem?_concat_length, Option.some.injEq] at old
      exact old ▸ real
  · have unmapped := (tracked.valid other insert lookup).unmapped early
    refine (Function.update_of_ne ?_ _ _).trans unmapped
    rintro rfl
    exact nomatch unmapped.symm.trans found
  · refine Function.update_of_ne ?_ _ _
    rintro rfl
    exact alone other insert different lookup touches
  · by_cases same : other = id
    · subst same
      rw [Function.update_self] at mapped
      exact .inr (.inl (.inr ⟨rfl, origLocs.length, by simp, next, slot.trans mapped⟩))
    · rw [Function.update_of_ne same] at mapped
      refine (tracked.forward_split here mapped).imp_right (.imp_left ?_)
      rintro (target | ⟨_, index, early, atIndex, atLoc⟩)
      · exact .inl target
      · exact .inr ⟨rfl, index, early.trans_le (by simp), atIndex, atLoc⟩
  · rcases tracked.backward_split here holds with mapped | ⟨_, index, atIndex, old⟩ | others
    · by_cases same : other = id
      · subst same
        obtain rfl := Option.some.inj (found.symm.trans mapped)
        exact .inr (.inl ⟨rfl, origLocs.length, next, List.getElem?_concat_length⟩)
      · exact .inl ((Function.update_of_ne same _ _).trans mapped)
    · refine .inr (.inl ⟨rfl, index, atIndex, ?_⟩)
      rw [List.getElem?_append_left (List.getElem?_eq_some_iff.mp old).1, old]
    · exact .inr (.inr others)

theorem commit (here : state.inserts agent = some reservation)
    (stage : reservation.stage = .moving)
    (all : reservation.nhood.length ≤ reservation.origLocs.length)
    (alone : ∀ id ∈ reservation.nhood, state.Alone agent id) :
    ({ state.set agent
        { reservation with
          stage := .committed
          nhood := reservation.nhood ++ [reservation.target] } with
        layout := state.layout.eraseAndSetLoc geometry reservation.origLocs reservation.locs
          (reservation.nhood ++ [reservation.target]) } : MapState Agent).Tracked geometry := by
  have valid := tracked.valid agent _ here
  have holds : reservation.stage.Holds := .inr (.inr stage)
  have known : ∀ id ∈ reservation.nhood ++ [reservation.target],
      state.layout.id2loc id ≠ none := by
    intro id member
    rcases List.mem_append.mp member with neighbor | target
    · exact valid.known (stage ▸ (by decide)) id neighbor
    · obtain rfl := List.mem_singleton.mp target
      have last : reservation.nhood.length < reservation.locs.length := by
        rw [valid.length holds]
        exact Nat.lt_succ_self _
      rw [valid.mapped _ _ (.inl ⟨.inr stage, rfl, List.getElem?_eq_getElem last⟩)]
      exact Option.some_ne_none _
  obtain ⟨formed, id2loc, _, pairs, erased, kept⟩ := valid.eraseAndSetLoc stage tracked.formed
  have assigned : ∀ {id loc : Nat} {index : Nat}, reservation.locs[index]? = some loc →
      (reservation.nhood ++ [reservation.target])[index]? = some id →
        (loc, id) ∈ reservation.locs.zip (reservation.nhood ++ [reservation.target]) :=
    fun atLoc atId => List.mem_of_getElem? (List.getElem?_zip_eq_some.mpr ⟨atLoc, atId⟩)
  refine tracked.update here formed (fun id known => tracked.below id (id2loc ▸ known))
    { below := valid.below
      unmapped := by simp [Stage.Unpublished]
      nodup := by simp [Stage.Engaged]
      known := fun _ id member => id2loc ▸ known id member
      length := by simp [Stage.Holds]
      distinct := by simp [Stage.Holds]
      allocated := by simp [Stage.Holds]
      unmoved := by simp
      moved := valid.moved.trans (by simp)
      mapped := by simp [Reservation.Maps, Stage.Mapping]
      left := by simp [Reservation.Leaves] } rfl (by simp [Stage.Holds])
    (fun id known => id2loc ▸ known)
    (fun other found _ lookup early => id2loc ▸ (tracked.valid other found lookup).unmapped early)
    (fun _ _ _ _ id _ => by rw [id2loc]) (fun other found different lookup loc owns => ?_)
    (fun id loc mapped => ?_) (fun id loc real => ?_)
  · have otherValid := tracked.valid other found lookup
    rcases owns with ⟨otherHolds, member⟩ | ⟨moving, member⟩
    · refine kept loc (fun new => different ?_) (fun old => ?_)
      · exact tracked.disjoint other agent found reservation loc lookup here otherHolds holds member
          new
      · obtain ⟨id, _, leaves, _⟩ := valid.exists_leaves stage old
        exact otherValid.not_mem_locs otherHolds (valid.left id loc leaves) member
    · obtain ⟨id, inNhood, leaves, _⟩ := otherValid.exists_leaves moving member
      have real := otherValid.left id loc leaves
      refine kept loc (valid.not_mem_locs holds real) (fun old => ?_)
      obtain ⟨own, inOwn, ownLeaves, _⟩ := valid.exists_leaves stage old
      have same := SlotId.real.inj (real.symm.trans (valid.left own loc ownLeaves))
      exact alone own inOwn other found different lookup (.inr ⟨moving, same ▸ inNhood⟩)
  · rw [id2loc] at mapped
    rcases tracked.forward_split here mapped with real | own | others
    · have notReserved := valid.not_mem_locs holds real
      refine .inl ((kept loc notReserved fun old => ?_).trans real)
      obtain ⟨other, _, leaves, index, moved, atId⟩ := valid.exists_leaves stage old
      obtain rfl := SlotId.real.inj (real.symm.trans (valid.left other loc leaves))
      have inside : index < reservation.locs.length := by
        rw [valid.length holds]
        exact Nat.lt_succ_of_le (moved.le.trans valid.moved)
      have maps := valid.mapped id _
        (.inr ⟨stage, index, moved, atId, List.getElem?_eq_getElem inside⟩)
      obtain rfl := Option.some.inj (mapped.symm.trans maps)
      exact notReserved (List.getElem_mem inside)
    · obtain ⟨index, atLoc, atId⟩ := (Reservation.maps_iff stage all).mp own
      exact .inl (pairs (loc, id) (assigned atLoc atId))
    · exact .inr (.inr others)
  · by_cases new : loc ∈ reservation.locs
    · obtain ⟨index, atLoc⟩ := List.mem_iff_getElem?.mp new
      have inside : index < (reservation.nhood ++ [reservation.target]).length := by
        rw [List.length_append, List.length_singleton, ← valid.length holds]
        exact (List.getElem?_eq_some_iff.mp atLoc).1
      have atId := List.getElem?_eq_getElem inside
      have set := pairs (loc, _) (assigned atLoc atId)
      obtain rfl := SlotId.real.inj (real.symm.trans set)
      rw [id2loc]
      exact .inl (valid.mapped _ loc ((Reservation.maps_iff stage all).mpr ⟨index, atLoc, atId⟩))
    · have notOld : loc ∉ reservation.origLocs := fun old =>
        by cases real.symm.trans (erased loc old)
      rw [id2loc]
      rcases tracked.backward_split here ((kept loc new notOld).symm.trans real) with mapped | own |
        others
      · exact .inl mapped
      · obtain ⟨_, _, _, old⟩ := own
        exact absurd (List.mem_of_getElem? old) notOld
      · exact .inr (.inr others)

omit tracked in
/-- Every step keeps the invariant. -/
theorem step (tracked : state.Tracked geometry) (taken : Step geometry state next) :
    next.Tracked geometry := by
  cases taken with
  | stutter => exact tracked
  | begin free => exact tracked.begin free
  | choose here stage nodup known => exact tracked.choose here stage nodup known
  | reserve here stage allocated =>
    obtain ⟨after, slots, read, result, length, takes⟩ :=
      Layout.allocLoc_spec tracked.formed (Nat.succ_pos _) _
    obtain ⟨rfl, rfl, rfl⟩ := by simpa using result.symm.trans allocated
    exact tracked.reserve here stage length takes
  | publish here stage last => exact tracked.publish here stage last
  | enter here stage => exact tracked.enter here stage
  | move here stage next slot found alone => exact tracked.move here stage next slot found alone
  | commit here stage all alone => exact tracked.commit here stage all alone

end Tracked

/-! ### What the invariant says -/

omit [DecidableEq Agent] in
/-- Before the first insert the maps are tracked when they are consistent. -/
theorem tracked_of_consistent (idle : ∀ agent, state.inserts agent = none)
    (consistent : state.layout.Consistent geometry)
    (below : ∀ id, state.layout.id2loc id ≠ none → id < state.curId) :
    state.Tracked geometry where
  formed := consistent.formed
  below := below
  valid agent _ lookup := nomatch (idle agent).symm.trans lookup
  targets first _ _ _ lookup := nomatch (idle first).symm.trans lookup
  disjoint first _ _ _ _ lookup := nomatch (idle first).symm.trans lookup
  forward id loc mapped := .inl ((consistent.bijective id loc).mp mapped)
  backward id loc real := .inl ((consistent.bijective id loc).mpr real)

namespace Tracked

variable (tracked : state.Tracked geometry)
include tracked

omit [DecidableEq Agent]

/-- A mapped location is in use. -/
theorem used {id loc : Nat} (mapped : state.layout.id2loc id = some loc) :
    state.layout.loc2id geometry loc ≠ .kInvalidID := by
  rcases tracked.forward id loc mapped with real | ⟨agent, reservation, lookup, maps⟩
  · exact real ▸ nofun
  · obtain ⟨holds, member⟩ := maps.holds
    exact (tracked.valid agent reservation lookup).allocated holds loc member ▸ nofun

/-- Two ids are never mapped to one location. -/
theorem injective {first second loc : Nat} (one : state.layout.id2loc first = some loc)
    (two : state.layout.id2loc second = some loc) : first = second := by
  rcases tracked.forward first loc one with real | ⟨agent, reservation, lookup, maps⟩ <;>
    rcases tracked.forward second loc two with otherReal | ⟨other, found, otherLookup, otherMaps⟩
  · exact SlotId.real.inj (real.symm.trans otherReal)
  · obtain ⟨holds, member⟩ := otherMaps.holds
    exact absurd member ((tracked.valid other found otherLookup).not_mem_locs holds real)
  · obtain ⟨holds, member⟩ := maps.holds
    exact absurd member ((tracked.valid agent reservation lookup).not_mem_locs holds otherReal)
  · obtain ⟨holds, member⟩ := maps.holds
    obtain ⟨otherHolds, otherMember⟩ := otherMaps.holds
    obtain rfl := tracked.disjoint _ _ _ _ loc lookup otherLookup holds otherHolds member otherMember
    obtain rfl := Option.some.inj (lookup.symm.trans otherLookup)
    have valid := tracked.valid _ _ lookup
    -- both ids are mapped at the place of the location in `locs`
    have place : ∀ {id : Nat}, reservation.Maps id loc → ∃ index : Nat,
        reservation.locs[index]? = some loc ∧
          (reservation.nhood ++ [reservation.target])[index]? = some id := by
      rintro id (⟨_, rfl, last⟩ | ⟨_, index, _, atId, atLoc⟩)
      · exact ⟨_, last, List.getElem?_concat_length⟩
      · refine ⟨index, atLoc, ?_⟩
        rw [List.getElem?_append_left (List.getElem?_eq_some_iff.mp atId).1, atId]
    obtain ⟨index, atLoc, atId⟩ := place maps
    obtain ⟨otherIndex, otherAtLoc, otherAtId⟩ := place otherMaps
    have same := (List.getElem?_inj (List.getElem?_eq_some_iff.mp atLoc).1
      (valid.distinct holds)).mp (atLoc.trans otherAtLoc.symm)
    subst same
    exact Option.some.inj (atId.symm.trans otherAtId)

/-- A reserved slot is mapped by its insert only. -/
theorem not_mem_locs {agent : Agent} {reservation : Reservation}
    (lookup : state.inserts agent = some reservation) (holds : reservation.stage.Holds)
    {id loc : Nat} (mapped : state.layout.id2loc id = some loc)
    (notOwn : ¬ reservation.Maps id loc) : loc ∉ reservation.locs := by
  intro member
  rcases tracked.forward id loc mapped with real | ⟨other, found, otherLookup, maps⟩
  · exact (tracked.valid agent reservation lookup).not_mem_locs holds real member
  · obtain ⟨otherHolds, otherMember⟩ := maps.holds
    obtain rfl := tracked.disjoint _ _ _ _ loc lookup otherLookup holds otherHolds member otherMember
    obtain rfl := Option.some.inj (lookup.symm.trans otherLookup)
    exact notOwn maps

end Tracked

/-- A mapped id stays mapped. -/
theorem Step.known (tracked : state.Tracked geometry) (taken : Step geometry state next) {id : Nat}
    (known : state.layout.id2loc id ≠ none) : next.layout.id2loc id ≠ none := by
  cases taken with
  | stutter | begin | choose | enter => exact known
  | reserve here stage allocated =>
    obtain ⟨_, _, _, result, _, takes⟩ :=
      Layout.allocLoc_spec tracked.formed (Nat.succ_pos _) _
    obtain ⟨rfl, rfl, rfl⟩ := by simpa using result.symm.trans allocated
    exact takes.id2loc ▸ known
  | publish | move => exact Tracked.update_known known
  | commit =>
    show (Layout.eraseAndSetLoc _ _ _ _ _).id2loc id ≠ none
    rwa [Layout.eraseAndSetLoc_id2loc]

/-! ### Slots that are handed out -/

variable (geometry) in
omit [DecidableEq Agent] in
/-- Each slot that is handed out belongs to an insert. -/
def Handed (state : MapState Agent) : Prop :=
  ∀ loc, state.layout.loc2id geometry loc = .kAllocatedID →
    ∃ agent reservation, state.inserts agent = some reservation ∧ reservation.stage.Holds ∧
      loc ∈ reservation.locs

namespace Handed

/-- The slots that are handed out stay so, and the one insert that changes keeps its own. -/
theorem update (handed : state.Handed geometry) {agent : Agent} {later : Reservation}
    {layout : Layout} {curId : Nat}
    (own : ∀ reservation, state.inserts agent = some reservation → reservation.stage.Holds →
      ∀ loc ∈ reservation.locs, layout.loc2id geometry loc = .kAllocatedID →
        later.stage.Holds ∧ loc ∈ later.locs)
    (slots : ∀ loc, layout.loc2id geometry loc = .kAllocatedID →
      state.layout.loc2id geometry loc = .kAllocatedID ∨ later.stage.Holds ∧ loc ∈ later.locs) :
    ({ state.set agent later with layout := layout, curId := curId } : MapState Agent).Handed
      geometry := by
  intro loc allocated
  have mine : later.stage.Holds ∧ loc ∈ later.locs → ∃ other found,
      Function.update state.inserts agent (some later) other = some found ∧
        found.stage.Holds ∧ loc ∈ found.locs :=
    fun held => ⟨agent, later, Function.update_self _ _ _, held⟩
  rcases slots loc allocated with before | held
  · obtain ⟨other, found, lookup, holds, member⟩ := handed loc before
    by_cases same : other = agent
    · subst same
      exact mine (own found lookup holds loc member allocated)
    · exact ⟨other, found, (Function.update_of_ne same _ _).trans lookup, holds, member⟩
  · exact mine held

/-- Slots are handed out to inserts, which give them their ids. -/
theorem step (handed : state.Handed geometry) (tracked : state.Tracked geometry)
    (taken : Step geometry state next) : next.Handed geometry := by
  -- an insert at a stage at which it has no slots
  have without : ∀ {agent : Agent} {reservation : Reservation} {goal : Prop},
      state.inserts agent = some reservation → ¬ reservation.stage.Holds →
        ∀ found, state.inserts agent = some found → found.stage.Holds → goal := by
    intro agent reservation goal here idle found lookup holds
    obtain rfl := Option.some.inj (here.symm.trans lookup)
    exact absurd holds idle
  -- an insert that keeps its slots
  have keeping : ∀ {agent : Agent} {reservation : Reservation} {after : Layout},
      state.inserts agent = some reservation →
        (∀ loc, after.loc2id geometry loc = state.layout.loc2id geometry loc) →
          ∀ later : Reservation, later.locs = reservation.locs → later.stage.Holds →
            ({ state.set agent later with layout := after } : MapState Agent).Handed geometry := by
    intro agent reservation after here same later locs holds
    refine handed.update (fun found lookup _ loc member _ => ?_) fun loc allocated => ?_
    · obtain rfl := Option.some.inj (here.symm.trans lookup)
      exact ⟨holds, locs ▸ member⟩
    · exact .inl ((same loc).symm.trans allocated)
  cases taken with
  | stutter => exact handed
  | begin free =>
    exact handed.update (fun found lookup => by cases free.symm.trans lookup)
      fun _ allocated => .inl allocated
  | choose here stage =>
    refine handed.update (fun found lookup holds => ?_) fun _ allocated => .inl allocated
    exact without here (by rw [stage]; rintro (h | h | h) <;> cases h) found lookup holds
  | reserve here stage allocated =>
    obtain ⟨after, slots, read, result, _, takes⟩ :=
      Layout.allocLoc_spec tracked.formed (Nat.succ_pos _) _
    obtain ⟨rfl, rfl, rfl⟩ := by simpa using result.symm.trans allocated
    refine handed.update (fun found lookup holds => ?_) fun loc taken => ?_
    · exact without here (by rw [stage]; rintro (h | h | h) <;> cases h) found lookup holds
    · rw [takes.taken] at taken
      split at taken
      · rename_i member
        exact .inr ⟨.inl rfl, member⟩
      · exact .inl taken
  | publish here stage last => exact keeping here (fun _ => rfl) _ rfl (.inr (.inl rfl))
  | enter here stage => exact keeping here (fun _ => rfl) _ rfl (.inr (.inr rfl))
  | move here stage => exact keeping here (fun _ => rfl) _ rfl (.inr (.inr stage))
  | @commit agent reservation here stage all alone =>
    obtain ⟨_, _, _, pairs, erased, kept⟩ :=
      (tracked.valid _ _ here).eraseAndSetLoc stage tracked.formed
    have length := (tracked.valid _ _ here).length (.inr (.inr stage))
    -- a new slot has an id now
    have real : ∀ loc ∈ reservation.locs, (state.layout.eraseAndSetLoc geometry
        reservation.origLocs reservation.locs (reservation.nhood ++ [reservation.target])).loc2id
          geometry loc ≠ .kAllocatedID := by
      intro loc member
      obtain ⟨index, inside, rfl⟩ := List.getElem_of_mem member
      have inIds : index < (reservation.nhood ++ [reservation.target]).length := by
        rw [List.length_append, List.length_singleton]
        omega
      have inZip : (reservation.locs[index], (reservation.nhood ++ [reservation.target])[index]) ∈
          reservation.locs.zip (reservation.nhood ++ [reservation.target]) := by
        rw [← List.getElem_zip (h := by rw [List.length_zip]; omega)]
        exact List.getElem_mem _
      rw [pairs _ inZip]
      exact SlotId.noConfusion
    refine handed.update (fun found lookup _ loc member taken => ?_) fun loc taken => ?_
    · obtain rfl := Option.some.inj (here.symm.trans lookup)
      exact absurd taken (real loc member)
    · refine .inl ?_
      rw [← kept loc (fun member => real loc member taken) fun old => ?_]
      · exact taken
      · rw [erased loc old] at taken
        cases taken

end Handed

end MapState

end OdinVector
