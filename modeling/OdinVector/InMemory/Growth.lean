/-
This file proves when the growth of an in-memory index leaves room for the calls that
wait for it. An insertion that finds the index full tries a second time after the
growth section, and crashes when that fails. The room is competed for by the calls
that have been through the section, by those that find room in it that another call
has made, and by insertions that never waited.
-/

import OdinVector.InMemory.Calls

namespace OdinVector

variable {Tag Call : Type}

/-! ### The slots -/

namespace IndexTables

/-- As many locations are reserved as `_nd` says. -/
structure SlotsWellFormed (tables : IndexTables Tag) : Prop where
  card : tables.used.card = tables.nd
  le : tables.nd ≤ tables.maxPoints
  empty : tables.dataCompacted = false → tables.emptySlots ⊆ Finset.range tables.maxPoints

variable {tables next : IndexTables Tag} {slot location : Nat}

theorem SlotsWellFormed.lt_maxPoints (slots : tables.SlotsWellFormed)
    (reserved : location ∈ tables.used) : location < tables.maxPoints := by
  unfold used at reserved
  split at reserved
  · exact (Finset.mem_range.mp reserved).trans_le slots.le
  · exact Finset.mem_range.mp (Finset.mem_sdiff.mp reserved).1

/-- With room left there is an empty slot. -/
theorem SlotsWellFormed.reserveLocation_ne_noSlot (slots : tables.SlotsWellFormed) :
    tables.reserveLocation slot ≠ some .noSlot := by
  intro noSlot
  unfold reserveLocation at noSlot
  split at noSlot
  · exact nomatch noSlot
  · rename_i room
    split at noSlot
    · exact nomatch noSlot
    · rename_i scattered
      split at noSlot
      · rename_i none
        have card := slots.card
        rw [used, if_neg scattered, none, Finset.sdiff_empty, Finset.card_range] at card
        exact room (le_of_eq card)
      · split at noSlot <;> exact nomatch noSlot

theorem lt_of_reserveLocation
    (reserved : tables.reserveLocation slot = some (.location location next)) :
    tables.nd < tables.maxPoints := by
  unfold reserveLocation at reserved
  split at reserved
  · exact nomatch reserved
  · rename_i room
    exact Nat.not_le.mp room

theorem le_of_reserveLocation (full : tables.reserveLocation slot = some .full) :
    tables.maxPoints ≤ tables.nd := by
  unfold reserveLocation at full
  split at full
  · assumption
  · split at full
    · exact nomatch full
    · split at full
      · exact nomatch full
      · split at full <;> exact nomatch full

/-- A reservation takes a location that was not reserved, and no other table changes. -/
structure Takes (tables : IndexTables Tag) (location : Nat) (next : IndexTables Tag) : Prop where
  fresh : location ∉ tables.used
  used : next.used = insert location tables.used
  slots : next.SlotsWellFormed
  nd : next.nd = tables.nd + 1
  maxPoints : next.maxPoints = tables.maxPoints
  tagToLocation : next.tagToLocation = tables.tagToLocation
  locationToTag : next.locationToTag = tables.locationToTag
  deleteSet : next.deleteSet ⊆ tables.deleteSet

theorem SlotsWellFormed.takes (slots : tables.SlotsWellFormed)
    (reserved : tables.reserveLocation slot = some (.location location next)) :
    tables.Takes location next := by
  have room := lt_of_reserveLocation reserved
  unfold reserveLocation at reserved
  rw [if_neg (Nat.not_le.mpr room)] at reserved
  split at reserved
  · rename_i compacted
    obtain ⟨rfl, rfl⟩ := Reserved.location.inj (Option.some.inj reserved)
    have before : tables.used = Finset.range tables.nd := if_pos compacted
    have after : IndexTables.used { tables with
        emptySlots := tables.emptySlots.erase tables.nd, nd := tables.nd + 1 } =
        insert tables.nd tables.used := by
      rw [before, ← Finset.range_add_one]
      exact if_pos compacted
    refine ⟨by rw [before]; exact Finset.notMem_range_self, after, ⟨?_, room, ?_⟩, rfl, rfl, rfl,
      rfl, Finset.Subset.refl _⟩
    · rw [after, before, Finset.card_insert_of_notMem Finset.notMem_range_self,
        Finset.card_range]
    · intro scattered
      exact absurd (compacted.symm.trans scattered) nofun
  · rename_i scattered
    split at reserved
    · exact nomatch reserved
    · obtain ⟨empty, taken⟩ := Option.ite_none_right_eq_some.mp reserved
      obtain ⟨rfl, rfl⟩ := Reserved.location.inj (Option.some.inj taken)
      have inside : slot ∈ Finset.range tables.maxPoints :=
        slots.empty (Bool.eq_false_of_not_eq_true scattered) empty
      have before : tables.used = Finset.range tables.maxPoints \ tables.emptySlots :=
        if_neg scattered
      have fresh : slot ∉ tables.used := by
        rw [before]
        exact fun member => (Finset.mem_sdiff.mp member).2 empty
      have after : IndexTables.used { tables with
          emptySlots := tables.emptySlots.erase slot
          deleteSet := tables.deleteSet.erase slot
          nd := tables.nd + 1 } = insert slot tables.used := by
        rw [before, ← Finset.sdiff_erase inside]
        exact if_neg scattered
      refine ⟨fresh, after, ⟨?_, room, fun _ => ?_⟩, rfl, rfl, rfl, rfl,
        Finset.erase_subset _ _⟩
      · rw [after, Finset.card_insert_of_notMem fresh, slots.card]
      · exact (Finset.erase_subset _ _).trans
          (slots.empty (Bool.eq_false_of_not_eq_true scattered))

/-- An index that is full has no empty slot. -/
theorem SlotsWellFormed.used_of_full (slots : tables.SlotsWellFormed)
    (full : tables.maxPoints ≤ tables.nd) : tables.used = Finset.range tables.nd := by
  unfold used
  split
  · rfl
  · rename_i scattered
    have card := slots.card
    rw [used, if_neg scattered] at card
    have all : tables.nd = tables.maxPoints := le_antisymm slots.le full
    rw [all]
    refine Finset.eq_of_subset_of_card_le Finset.sdiff_subset ?_
    rw [Finset.card_range, card, all]

theorem SlotsWellFormed.used_resize (slots : tables.SlotsWellFormed)
    (full : tables.maxPoints ≤ tables.nd) {newMaxPoints : Nat} (more : tables.nd ≤ newMaxPoints) :
    (tables.resize newMaxPoints).used = tables.used := by
  have before := slots.used_of_full full
  rw [before]
  unfold resize used
  split
  · rfl
  · rename_i scattered
    have empty : tables.emptySlots = ∅ := by
      have room := slots.empty (Bool.eq_false_of_not_eq_true scattered)
      rw [used, if_neg scattered, le_antisymm slots.le full] at before
      have apart : Disjoint (Finset.range tables.maxPoints) tables.emptySlots :=
        Finset.sdiff_eq_self_iff_disjoint.mp before
      exact Finset.disjoint_self_iff_empty _ |>.mp (apart.mono_left room)
    dsimp only
    rw [empty, Finset.empty_union]
    ext location
    rw [Finset.mem_sdiff, Finset.mem_range, Finset.mem_Ico, Finset.mem_range]
    omega

/-- The growth section leaves the reserved locations and makes room. -/
theorem SlotsWellFormed.grow (slots : tables.SlotsWellFormed) (two : 2 ≤ tables.maxPoints)
    (fits : tables.maxPoints ≤ tables.nd → grown tables.maxPoints < 2 ^ 32) :
    tables.grow.SlotsWellFormed ∧ tables.grow.used = tables.used ∧
      tables.grow.nd = tables.nd ∧ tables.nd < tables.grow.maxPoints ∧
      tables.maxPoints ≤ tables.grow.maxPoints := by
  unfold IndexTables.grow
  split
  · rename_i full
    have all : tables.nd = tables.maxPoints := le_antisymm slots.le full
    have more : tables.maxPoints < grown tables.maxPoints := lt_grown two
    rw [Nat.mod_eq_of_lt (fits full)]
    have used := slots.used_resize full (all.le.trans more.le)
    refine ⟨⟨?_, all.le.trans more.le, fun scattered => ?_⟩, used, rfl, all.trans_lt more, more.le⟩
    · rw [used, slots.card]
      rfl
    · refine Finset.union_subset ?_ ?_
      · exact (slots.empty scattered).trans (Finset.range_subset_range.mpr more.le)
      · intro location member
        exact Finset.mem_range.mpr (Finset.mem_Ico.mp member).2
  · rename_i room
    exact ⟨slots, rfl, rfl, Nat.not_le.mp room, le_rfl⟩

end IndexTables

/-! ### Calls that expect room -/

namespace TableState

variable [DecidableEq Tag] [DecidableEq Call] [Fintype Call]
variable {request : Call → TableRequest Tag} {start : IndexTables Tag}

omit [DecidableEq Tag] in
theorem expecting_set_same {state : TableState Tag Call} {call : Call} {phase : TableCall}
    (tables : IndexTables Tag) (same : phase.expects = (state.calls call).expects) :
    (state.set call phase tables).expecting = state.expecting := by
  ext other
  rw [mem_expecting, mem_expecting]
  by_cases this : other = call
  · rw [this, set_self, same]
  · rw [set_of_ne state this]

omit [DecidableEq Tag] in
theorem expecting_set_erase {state : TableState Tag Call} {call : Call} {phase : TableCall}
    (tables : IndexTables Tag) (served : phase.expects = false) :
    (state.set call phase tables).expecting = state.expecting.erase call := by
  ext other
  rw [Finset.mem_erase, mem_expecting, mem_expecting]
  by_cases this : other = call
  · rw [this, set_self, served]
    exact iff_of_false nofun fun both => both.1 rfl
  · rw [set_of_ne state this]
    exact (and_iff_right this).symm

omit [DecidableEq Tag] in
theorem expecting_set_insert {state : TableState Tag Call} {call : Call} {phase : TableCall}
    (tables : IndexTables Tag) (expects : phase.expects = true) :
    (state.set call phase tables).expecting = insert call state.expecting := by
  ext other
  rw [Finset.mem_insert, mem_expecting, mem_expecting]
  by_cases this : other = call
  · rw [this, set_self, expects]
    exact iff_of_true rfl (Or.inl rfl)
  · rw [set_of_ne state this]
    exact (or_iff_right this).symm

/-- A call that takes a slot without having waited, or that goes through the growth section
when another call has grown the index, finds more empty slots than calls that expect one;
and a growth fits 32 bits. -/
def LeavesRoom (state : TableState Tag Call) (turn : TableTurn Call) : Prop :=
  (state.tables.nd < state.tables.maxPoints →
    state.calls turn.call = .reserving ∨ state.calls turn.call = .growing →
      state.expecting.card < state.tables.maxPoints - state.tables.nd) ∧
  (state.tables.maxPoints ≤ state.tables.nd → state.calls turn.call = .growing →
    grown state.tables.maxPoints < 2 ^ 32)

/-- There is a slot for every call that expects one, and the locations of the calls are
reserved, apart and new. -/
structure Roomy (start : IndexTables Tag) (state : TableState Tag Call) : Prop where
  slots : state.tables.SlotsWellFormed
  two : 2 ≤ state.tables.maxPoints
  room : state.expecting.card ≤ state.tables.maxPoints - state.tables.nd
  whole : ∀ call, state.calls call ≠ .crashed
  used : start.used ⊆ state.tables.used
  reserved : ∀ call location, (state.calls call).location? = some location →
    location ∈ state.tables.used ∧ location ∉ start.used
  apart : ∀ call other location, (state.calls call).location? = some location →
    (state.calls other).location? = some location → call = other

theorem roomy_initial (slots : start.SlotsWellFormed) (two : 2 ≤ start.maxPoints)
    (state : TableState Tag Call) (initial : (system request start).initial state) :
    Roomy start state := by
  obtain rfl : state = ⟨start, fun _ => .waiting⟩ := initial
  have none : expecting (⟨start, fun _ => .waiting⟩ : TableState Tag Call) = ∅ :=
    Finset.filter_false_of_mem fun _ _ => nofun
  refine ⟨slots, two, ?_, fun _ => nofun, Finset.Subset.refl _, fun _ _ => nofun,
    fun _ _ _ => nofun⟩
  rw [none]
  exact Nat.zero_le _

variable {state next : TableState Tag Call} {turn : TableTurn Call}

omit [DecidableEq Tag] in
theorem Roomy.quiet (roomy : Roomy start state) {call : Call} {phase : TableCall}
    {tables : IndexTables Tag} (used : tables.used = state.tables.used)
    (nd : tables.nd = state.tables.nd) (maxPoints : tables.maxPoints = state.tables.maxPoints)
    (slots : tables.SlotsWellFormed) (location : phase.location? = (state.calls call).location?)
    (expects : phase.expects = (state.calls call).expects) (whole : phase ≠ .crashed) :
    Roomy start (state.set call phase tables) := by
  have kept : ∀ other, ((state.set call phase tables).calls other).location? =
      (state.calls other).location? := by
    intro other
    by_cases this : other = call
    · rw [this, set_self, location]
    · rw [set_of_ne state this]
  refine ⟨slots, maxPoints.symm ▸ roomy.two, ?_, fun other => ?_, used.symm ▸ roomy.used, ?_, ?_⟩
  · rw [expecting_set_same tables expects]
    show _ ≤ tables.maxPoints - tables.nd
    rw [maxPoints, nd]
    exact roomy.room
  · by_cases this : other = call
    · rw [this, set_self]
      exact whole
    · rw [set_of_ne state this]
      exact roomy.whole other
  · intro other place held
    rw [kept] at held
    show place ∈ tables.used ∧ _
    rw [used]
    exact roomy.reserved other place held
  · intro first second place held also
    rw [kept] at held also
    exact roomy.apart first second place held also

omit [DecidableEq Tag] in
theorem Roomy.take (roomy : Roomy start state) {location : Nat} {tables : IndexTables Tag}
    (takes : state.tables.Takes location tables)
    (room : (state.expecting.erase turn.call).card < state.tables.maxPoints - state.tables.nd) :
    Roomy start (state.set turn.call (.reserved location) tables) := by
  have held : ∀ call place, ((state.set turn.call (.reserved location) tables).calls
      call).location? = some place → call = turn.call ∧ place = location ∨
        call ≠ turn.call ∧ (state.calls call).location? = some place := by
    intro call place held
    by_cases this : call = turn.call
    · rw [this, set_self] at held
      exact Or.inl ⟨this, (Option.some.inj held).symm⟩
    · rw [set_of_ne state this] at held
      exact Or.inr ⟨this, held⟩
  have old : start.used ⊆ tables.used := by
    rw [takes.used]
    exact roomy.used.trans (Finset.subset_insert _ _)
  refine ⟨takes.slots, takes.maxPoints.symm ▸ roomy.two, ?_, fun call => ?_, old, ?_, ?_⟩
  · rw [expecting_set_erase tables rfl]
    show _ ≤ tables.maxPoints - tables.nd
    rw [takes.maxPoints, takes.nd]
    omega
  · by_cases this : call = turn.call
    · rw [this, set_self]
      nofun
    · rw [set_of_ne state this]
      exact roomy.whole call
  · intro call place holds
    show place ∈ tables.used ∧ _
    rw [takes.used]
    obtain ⟨-, rfl⟩ | ⟨-, before⟩ := held call place holds
    · exact ⟨Finset.mem_insert_self _ _, fun member => takes.fresh (roomy.used member)⟩
    · obtain ⟨reserved, new⟩ := roomy.reserved call place before
      exact ⟨Finset.mem_insert_of_mem reserved, new⟩
  · intro call other place holds also
    obtain ⟨this, same⟩ | ⟨-, before⟩ := held call place holds
    · obtain ⟨that, -⟩ | ⟨-, alsoBefore⟩ := held other place also
      · exact this.trans that.symm
      · rw [same] at alsoBefore
        exact absurd (roomy.reserved other location alsoBefore).1 takes.fresh
    · obtain ⟨-, same⟩ | ⟨-, alsoBefore⟩ := held other place also
      · rw [same] at before
        exact absurd (roomy.reserved call location before).1 takes.fresh
      · exact roomy.apart call other place before alsoBefore

/-- Every step that leaves room keeps the room. -/
theorem Roomy.step (roomy : Roomy start state) (leaves : LeavesRoom state turn)
    (taken : TableState.step request state turn = some next) : Roomy start next := by
  have moves := moves_of_step taken
  cases moves with
  | quiet lazyDone location expects whole unreserved =>
    exact roomy.quiet rfl rfl rfl ⟨roomy.slots.card, roomy.slots.le, roomy.slots.empty⟩ location
      expects whole
  | mark deletes place =>
    exact roomy.quiet rfl rfl rfl ⟨roomy.slots.card, roomy.slots.le, roomy.slots.empty⟩
      (by rw [place]; rfl) (by rw [place]; rfl) nofun
  | erase deletes place =>
    exact roomy.quiet rfl rfl rfl ⟨roomy.slots.card, roomy.slots.le, roomy.slots.empty⟩
      (by rw [place]; rfl) (by rw [place]; rfl) nofun
  | replace inserts place =>
    exact roomy.quiet rfl rfl rfl ⟨roomy.slots.card, roomy.slots.le, roomy.slots.empty⟩
      (by rw [place]; rfl) (by rw [place]; rfl) nofun
  | enter inserts place =>
    exact roomy.quiet rfl rfl rfl ⟨roomy.slots.card, roomy.slots.le, roomy.slots.empty⟩
      (by rw [place]; rfl) (by rw [place]; rfl) nofun
  | take inserts place reserved =>
    have some := IndexTables.lt_of_reserveLocation reserved
    refine roomy.take (roomy.slots.takes reserved) ?_
    obtain first | second := place
    · exact (Finset.card_le_card (Finset.erase_subset _ _)).trans_lt
        (leaves.1 some (Or.inl first))
    · have expects : turn.call ∈ state.expecting := by
        rw [mem_expecting, second]
        rfl
      exact (Finset.card_erase_lt_of_mem expects).trans_le roomy.room
  | crash failed =>
    obtain ⟨second, full⟩ | noSlot := failed
    · have expects : turn.call ∈ state.expecting := by
        rw [mem_expecting, second]
        rfl
      have some := Finset.card_pos.mpr ⟨turn.call, expects⟩
      have full := IndexTables.le_of_reserveLocation full
      have room := roomy.room
      omega
    · exact absurd noSlot roomy.slots.reserveLocation_ne_noSlot
  | grow place =>
    obtain ⟨slots, used, nd, some, more⟩ := roomy.slots.grow roomy.two
      fun full => leaves.2 full place
    have outside : turn.call ∉ state.expecting := by
      rw [mem_expecting, place]
      nofun
    have kept : ∀ call, ((state.set turn.call .grown state.tables.grow).calls call).location? =
        (state.calls call).location? := by
      intro call
      by_cases this : call = turn.call
      · rw [this, set_self, place]
        rfl
      · rw [set_of_ne state this]
    refine ⟨slots, roomy.two.trans more, ?_, fun call => ?_, ?_, fun call location held => ?_,
      fun call other location held also => ?_⟩
    · rw [expecting_set_insert _ rfl, Finset.card_insert_of_notMem outside]
      show _ ≤ state.tables.grow.maxPoints - state.tables.grow.nd
      rw [nd]
      obtain room | full := Nat.lt_or_ge state.tables.nd state.tables.maxPoints
      · have fewer := leaves.1 room (Or.inr place)
        omega
      · have none := roomy.room
        omega
    · by_cases this : call = turn.call
      · rw [this, set_self]
        nofun
      · rw [set_of_ne state this]
        exact roomy.whole call
    · show _ ⊆ state.tables.grow.used
      rw [used]
      exact roomy.used
    · rw [kept] at held
      show location ∈ state.tables.grow.used ∧ _
      rw [used]
      exact roomy.reserved call location held
    · rw [kept] at held also
      exact roomy.apart call other location held also

/-- No call crashes, and each location that a call has obtained is below `_max_points`, was
not reserved at the start and belongs to no other call. -/
def Obtains (start : IndexTables Tag) (state : TableState Tag Call) : Prop :=
  (∀ call, state.calls call ≠ .crashed) ∧
    ∀ call location, (state.calls call).location? = some location →
      location < state.tables.maxPoints ∧ location ∉ start.used ∧
        ∀ other ≠ call, (state.calls other).location? ≠ some location

/-- In every run whose steps leave room, every call obtains a location of its own. -/
theorem obtains_of_leavesRoom (slots : start.SlotsWellFormed) (two : 2 ≤ start.maxPoints)
    (reachable : (system request start).Reachable LeavesRoom state) : Obtains start state := by
  have roomy : Roomy start state := reachable.invariant (roomy_initial slots two)
    fun _ _ _ roomy leaves taken => roomy.step leaves taken
  refine ⟨roomy.whole, fun call location held => ?_⟩
  obtain ⟨reserved, new⟩ := roomy.reserved call location held
  refine ⟨roomy.slots.lt_maxPoints reserved, new, fun other another also => ?_⟩
  exact another (roomy.apart other call location also held)

/-- A full index of two points. -/
def twoPoints : IndexTables Nat where
  maxPoints := 2
  nd := 2
  emptySlots := ∅
  deleteSet := ∅
  tagToLocation tag := if tag < 2 then some tag else none
  locationToTag location := if location < 2 then some location else none
  dataCompacted := true
  lazyDone := false
  eagerDone := false

theorem twoPoints_slots : twoPoints.SlotsWellFormed := ⟨rfl, le_rfl, nofun⟩

/-- A full index of four points. -/
def fourPoints : IndexTables Nat where
  maxPoints := 4
  nd := 4
  emptySlots := ∅
  deleteSet := ∅
  tagToLocation tag := if tag < 4 then some tag else none
  locationToTag location := if location < 4 then some location else none
  dataCompacted := true
  lazyDone := false
  eagerDone := false

/-- Two insertions that find the index full; the first one makes it grow, and both try again. -/
def bothGrow : List (TableTurn Bool) :=
  [⟨false, 0⟩, ⟨false, 0⟩, ⟨false, 0⟩, ⟨true, 0⟩, ⟨true, 0⟩, ⟨true, 0⟩, ⟨false, 0⟩, ⟨false, 0⟩,
    ⟨true, 0⟩, ⟨true, 0⟩, ⟨false, 0⟩, ⟨false, 0⟩, ⟨true, 0⟩, ⟨true, 0⟩]

/-- The calls insert the tags 6 and 7. -/
def insertsBoth (call : Bool) : TableRequest Nat := .insertPoint (if call then 7 else 6)

/-- The growth from four to six slots leaves one for each of them. -/
theorem obtains_bothGrow :
    Obtains fourPoints ((system insertsBoth fourPoints).after
        ⟨fourPoints, fun _ => .waiting⟩ bothGrow) ∧
      ∀ call, (((system insertsBoth fourPoints).after
        ⟨fourPoints, fun _ => .waiting⟩ bothGrow).calls call).location? =
          some (if call then 5 else 4) := by
  have slots : fourPoints.SlotsWellFormed := ⟨rfl, le_rfl, nofun⟩
  have reachable : (system insertsBoth fourPoints).Reachable LeavesRoom
      ((system insertsBoth fourPoints).after ⟨fourPoints, fun _ => .waiting⟩ bothGrow) := by
    refine Transition.System.Reachable.after (.initial rfl) ?_
    unfold LeavesRoom
    decide +kernel
  exact ⟨obtains_of_leavesRoom slots (by decide) reachable, by decide +kernel⟩

/-- In a full index of two points the growth leaves one slot only. -/
theorem crashes_of_twoInsertions :
    ¬ ∀ (Tag Call : Type) [DecidableEq Tag] [DecidableEq Call] [Fintype Call]
      (request : Call → TableRequest Tag) (start : IndexTables Tag)
      (state : TableState Tag Call), start.SlotsWellFormed → 2 ≤ start.maxPoints →
        (system request start).Reachable Transition.anyStep state → Obtains start state := by
  intro obtains
  have along : (system insertsBoth twoPoints).Along Transition.anyStep
      ⟨twoPoints, fun _ => .waiting⟩ bothGrow := Transition.System.along_anyStep
  have crashed := (obtains Nat Bool insertsBoth twoPoints _ twoPoints_slots le_rfl
    (Transition.System.Reachable.after (.initial rfl) along)).1 true
  exact crashed (by decide +kernel)

end TableState

end OdinVector
