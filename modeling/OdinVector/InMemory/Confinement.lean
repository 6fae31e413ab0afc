/-
This file proves when concurrent calls on an in-memory index affect their own tags
only. A call looks its tag up in one critical section and acts on it in later ones,
which read `_tag_to_location` with `operator[]`. A call that finds its tag gone there
acts on location 0 instead, whose tag is another one.
-/

import OdinVector.InMemory.Growth

namespace OdinVector

variable {Tag Call : Type}

/-! ### Coherent tables -/

namespace IndexTables

/-- A location that the next reservation does not give. -/
def Taken (tables : IndexTables Tag) (location : Nat) : Prop :=
  if tables.dataCompacted then location < tables.nd
  else location ∉ tables.emptySlots ∧ location < max tables.maxPoints tables.nd

/-- The location of a tag has the tag, and the locations with tags are taken. -/
structure Coherent (tables : IndexTables Tag) : Prop where
  inverse : ∀ tag location, tables.tagToLocation tag = some location →
    tables.locationToTag location = some tag
  taken : ∀ tag location, tables.locationToTag location = some tag → tables.Taken location
  empty : tables.emptySlots ⊆ Finset.range (max tables.maxPoints tables.nd)

/-- What one critical section of a call may change: the entry of its own tag, and nothing
when the tag of a deletion is gone. -/
structure Confined (request : TableRequest Tag) (before after : IndexTables Tag) : Prop where
  tags : ∀ other ≠ request.tag, after.tagToLocation other = before.tagToLocation other
  locations : ∀ location, ∀ other ≠ request.tag, before.locationToTag location = some other →
    after.locationToTag location = some other
  deleted : ∀ location ∈ after.deleteSet, location ∈ before.deleteSet ∨
    before.tagToLocation request.tag = some location
  gone : request = .lazyDelete request.tag → before.tagToLocation request.tag = none →
    after.tagToLocation = before.tagToLocation ∧ after.locationToTag = before.locationToTag ∧
      after.deleteSet = before.deleteSet

variable {tables next : IndexTables Tag} {slot location : Nat}

/-- A reservation takes a location that was not taken, and leaves the maps. -/
theorem Coherent.reserveLocation (coherent : tables.Coherent)
    (reserved : tables.reserveLocation slot = some (.location location next)) :
    ¬ tables.Taken location ∧ next.Taken location ∧
      (∀ other, tables.Taken other → next.Taken other) ∧
      next.emptySlots ⊆ Finset.range (max next.maxPoints next.nd) ∧
      next.tagToLocation = tables.tagToLocation ∧ next.locationToTag = tables.locationToTag ∧
      next.deleteSet ⊆ tables.deleteSet := by
  have wider : Finset.range (max tables.maxPoints tables.nd) ⊆
      Finset.range (max tables.maxPoints (tables.nd + 1)) :=
    Finset.range_subset_range.mpr (max_le_max le_rfl (Nat.le_succ _))
  unfold IndexTables.reserveLocation at reserved
  split at reserved
  · exact nomatch reserved
  split at reserved
  · rename_i compacted
    obtain ⟨rfl, rfl⟩ := Reserved.location.inj (Option.some.inj reserved)
    refine ⟨?_, ?_, fun other taken => ?_,
      (Finset.erase_subset _ _).trans (coherent.empty.trans wider), rfl, rfl,
      Finset.Subset.refl _⟩
    · rw [Taken, if_pos compacted]
      exact Nat.lt_irrefl _
    · rw [Taken, if_pos compacted]
      exact Nat.lt_succ_self _
    · rw [Taken, if_pos compacted] at taken ⊢
      exact Nat.lt_succ_of_lt taken
  · rename_i scattered
    split at reserved
    · exact nomatch reserved
    · obtain ⟨empty, given⟩ := Option.ite_none_right_eq_some.mp reserved
      obtain ⟨rfl, rfl⟩ := Reserved.location.inj (Option.some.inj given)
      refine ⟨?_, ?_, fun other taken => ?_,
        (Finset.erase_subset _ _).trans (coherent.empty.trans wider), rfl, rfl,
        Finset.erase_subset _ _⟩
      · rw [Taken, if_neg scattered]
        exact fun taken => taken.1 empty
      · rw [Taken, if_neg scattered]
        exact ⟨Finset.notMem_erase _ _, Finset.mem_range.mp (wider (coherent.empty empty))⟩
      · rw [Taken, if_neg scattered] at taken ⊢
        exact ⟨fun member => taken.1 (Finset.mem_of_mem_erase member),
          Finset.mem_range.mp (wider (Finset.mem_range.mpr taken.2))⟩

/-- The growth section leaves the maps and what is taken. -/
theorem Coherent.grow (coherent : tables.Coherent) :
    (∀ other, tables.Taken other → tables.grow.Taken other) ∧
      tables.grow.emptySlots ⊆ Finset.range (max tables.grow.maxPoints tables.grow.nd) ∧
      tables.grow.tagToLocation = tables.tagToLocation ∧
      tables.grow.locationToTag = tables.locationToTag ∧
      tables.grow.deleteSet = tables.deleteSet := by
  unfold IndexTables.grow
  split
  · rename_i full
    have empty := coherent.empty
    rw [max_eq_right full] at empty
    refine ⟨fun other taken => ?_, ?_, rfl, rfl, rfl⟩
    · unfold Taken resize at *
      rw [max_eq_right full] at taken
      dsimp only
      split at taken
      · rename_i compacted
        rw [if_pos compacted]
        exact taken
      · rename_i scattered
        rw [if_neg scattered, Finset.mem_union, Finset.mem_Ico]
        refine ⟨fun member => ?_, taken.2.trans_le (le_max_right _ _)⟩
        obtain before | added := member
        · exact taken.1 before
        · exact Nat.not_lt.mpr added.1 taken.2
    · refine Finset.union_subset (empty.trans ?_) fun location member => ?_
      · exact Finset.range_subset_range.mpr (le_max_right _ _)
      · exact Finset.mem_range.mpr ((Finset.mem_Ico.mp member).2.trans_le (le_max_left _ _))
  · exact ⟨fun _ => id, coherent.empty, rfl, rfl, rfl⟩

section Tags

variable [DecidableEq Tag] {tag : Tag}

/-- Taking a tag out of the maps, with its location. -/
theorem Coherent.erase (coherent : tables.Coherent)
    (present : tables.tagToLocation tag = some location) (deleteSet : Finset Nat)
    (lazyDone : Bool) :
    Coherent { tables with
      deleteSet := deleteSet
      locationToTag := Function.update tables.locationToTag location none
      tagToLocation := Function.update tables.tagToLocation tag none
      lazyDone := lazyDone } := by
  refine ⟨fun other place held => ?_, fun other place held => ?_, coherent.empty⟩
  · by_cases this : other = tag
    · rw [this] at held
      exact absurd ((Function.update_self _ _ _).symm.trans held) nofun
    · have before : tables.tagToLocation other = some place :=
        (Function.update_of_ne this _ _).symm.trans held
      have inverse := coherent.inverse other place before
      have elsewhere : place ≠ location := by
        rintro rfl
        exact this (Option.some.inj (inverse.symm.trans (coherent.inverse tag place present)))
      exact (Function.update_of_ne elsewhere _ _).trans inverse
  · by_cases there : place = location
    · rw [there] at held
      exact absurd ((Function.update_self _ _ _).symm.trans held) nofun
    · exact coherent.taken other place ((Function.update_of_ne there _ _).symm.trans held)

/-- A tag is entered at a location that has none. -/
theorem Coherent.setTag (coherent : tables.Coherent) (taken : tables.Taken location)
    (untagged : tables.locationToTag location = none) :
    (tables.setTag tag location).Coherent := by
  refine ⟨fun other place held => ?_, fun other place held => ?_, coherent.empty⟩
  · by_cases this : other = tag
    · rw [this] at held ⊢
      have entered : (tables.setTag tag location).tagToLocation tag = some location :=
        Function.update_self _ _ _
      obtain rfl := Option.some.inj (entered.symm.trans held)
      exact Function.update_self _ _ _
    · have before : tables.tagToLocation other = some place :=
        (Function.update_of_ne this _ _).symm.trans held
      have inverse := coherent.inverse other place before
      have elsewhere : place ≠ location := by
        rintro rfl
        exact nomatch untagged.symm.trans inverse
      exact (Function.update_of_ne elsewhere _ _).trans inverse
  · by_cases there : place = location
    · rw [there]
      exact taken
    · exact coherent.taken other place ((Function.update_of_ne there _ _).symm.trans held)

/-- A section that takes the tag of its call out of the maps, or nothing, is confined. -/
theorem Coherent.confined_erase (coherent : tables.Coherent) {asked : TableRequest Tag}
    (present : tables.tagToLocation asked.tag = some location) {deleteSet : Finset Nat}
    (deleted : deleteSet ⊆ insert location tables.deleteSet) (lazyDone : Bool) :
    Confined asked tables { tables with
      deleteSet := deleteSet
      locationToTag := Function.update tables.locationToTag location none
      tagToLocation := Function.update tables.tagToLocation asked.tag none
      lazyDone := lazyDone } := by
  refine ⟨fun other another => Function.update_of_ne another _ _,
    fun place other another held => ?_, fun place member => ?_,
    fun _ gone => nomatch present.symm.trans gone⟩
  · have elsewhere : place ≠ location := by
      rintro rfl
      exact another (Option.some.inj (held.symm.trans (coherent.inverse _ place present)))
    exact (Function.update_of_ne elsewhere _ _).trans held
  · obtain rfl | before := Finset.mem_insert.mp (deleted member)
    · exact Or.inr present
    · exact Or.inl before

end Tags

end IndexTables

/-! ### Sections that find their tag -/

namespace TableState

variable [DecidableEq Tag] [DecidableEq Call] [Fintype Call]
variable {request : Call → TableRequest Tag} {start : IndexTables Tag}
variable {state next : TableState Tag Call} {turn : TableTurn Call}

/-- The tables are coherent, and a location that is reserved for a call has no tag yet. -/
structure CoherentCalls (state : TableState Tag Call) : Prop where
  tables : state.tables.Coherent
  reserved : ∀ call location, state.calls call = .reserved location →
    state.tables.Taken location ∧ state.tables.locationToTag location = none
  apart : ∀ call other location, state.calls call = .reserved location →
    state.calls other = .reserved location → call = other

/-- A call that has found its tag still finds it where it acts on it. -/
def TagStays (request : Call → TableRequest Tag) (state : TableState Tag Call)
    (turn : TableTurn Call) : Prop :=
  state.calls turn.call = .found ∨ state.calls turn.call = .marked →
    state.tables.tagToLocation (request turn.call).tag ≠ none

omit [DecidableEq Tag] [Fintype Call] in
theorem CoherentCalls.set (coherent : CoherentCalls state) {call : Call} {phase : TableCall}
    {tables : IndexTables Tag} (whole : tables.Coherent)
    (unreserved : ∀ location, phase ≠ .reserved location)
    (kept : ∀ other location, other ≠ call → state.calls other = .reserved location →
      tables.Taken location ∧ tables.locationToTag location = none) :
    CoherentCalls (state.set call phase tables) := by
  have before : ∀ other location, (state.set call phase tables).calls other =
      .reserved location → other ≠ call ∧ state.calls other = .reserved location := by
    intro other location holds
    by_cases this : other = call
    · rw [this, set_self] at holds
      exact absurd holds (unreserved location)
    · rw [set_of_ne state this] at holds
      exact ⟨this, holds⟩
  refine ⟨whole, fun other location holds => ?_, fun first second location holds also => ?_⟩
  · obtain ⟨another, held⟩ := before other location holds
    exact kept other location another held
  · exact coherent.apart first second location (before first location holds).2
      (before second location also).2

omit [Fintype Call] in
/-- The section that marks the location of a tag as deleted. -/
theorem CoherentCalls.mark (coherent : CoherentCalls state) (call : Call)
    {asked : TableRequest Tag} {location : Nat}
    (present : state.tables.tagToLocation asked.tag = some location) :
    CoherentCalls (state.set call .marked (state.tables.markDeleted asked.tag)) ∧
      IndexTables.Confined asked state.tables (state.tables.markDeleted asked.tag) := by
  rw [IndexTables.markDeleted_eq present]
  refine ⟨coherent.set
    ⟨coherent.tables.inverse, coherent.tables.taken, coherent.tables.empty⟩ nofun
    fun other place _ held => coherent.reserved other place held, ?_⟩
  refine ⟨fun _ _ => rfl, fun _ _ _ held => held, fun place member => ?_,
    fun _ gone => nomatch present.symm.trans gone⟩
  obtain rfl | before := Finset.mem_insert.mp member
  · exact Or.inr present
  · exact Or.inl before

omit [Fintype Call] in
/-- A section that takes the tag of its call out of the maps, with its location. -/
theorem CoherentCalls.erase (coherent : CoherentCalls state) (call : Call) (phase : TableCall)
    {asked : TableRequest Tag} {location : Nat}
    (unreserved : ∀ location, phase ≠ .reserved location)
    (present : state.tables.tagToLocation asked.tag = some location) {deleteSet : Finset Nat}
    (deleted : deleteSet ⊆ insert location state.tables.deleteSet) (lazyDone : Bool) :
    CoherentCalls (state.set call phase { state.tables with
        deleteSet := deleteSet
        locationToTag := Function.update state.tables.locationToTag location none
        tagToLocation := Function.update state.tables.tagToLocation asked.tag none
        lazyDone := lazyDone }) ∧
      IndexTables.Confined asked state.tables { state.tables with
        deleteSet := deleteSet
        locationToTag := Function.update state.tables.locationToTag location none
        tagToLocation := Function.update state.tables.tagToLocation asked.tag none
        lazyDone := lazyDone } := by
  refine ⟨coherent.set (coherent.tables.erase present deleteSet lazyDone) unreserved
    fun other place _ held => ?_, coherent.tables.confined_erase present deleted lazyDone⟩
  obtain ⟨reserved, untagged⟩ := coherent.reserved other place held
  refine ⟨reserved, ?_⟩
  by_cases there : place = location
  · rw [there]
    exact Function.update_self _ _ _
  · exact (Function.update_of_ne there _ _).trans untagged

omit [DecidableEq Tag] [Fintype Call] in
/-- The section that reserves a location for a call. -/
theorem CoherentCalls.take (coherent : CoherentCalls state) (call : Call) {slot location : Nat}
    {tables : IndexTables Tag}
    (reserved : state.tables.reserveLocation slot = some (.location location tables)) :
    CoherentCalls (state.set call (.reserved location) tables) := by
  obtain ⟨fresh, given, kept, empty, tags, locations, -⟩ :=
    coherent.tables.reserveLocation reserved
  have untagged : state.tables.locationToTag location = none := by
    by_contra tagged
    obtain ⟨other, held⟩ := Option.ne_none_iff_exists'.mp tagged
    exact fresh (coherent.tables.taken other location held)
  refine ⟨⟨?_, ?_, empty⟩, ?_, ?_⟩
  · show ∀ other place, tables.tagToLocation other = some place →
      tables.locationToTag place = some other
    rw [tags, locations]
    exact coherent.tables.inverse
  · show ∀ other place, tables.locationToTag place = some other → tables.Taken place
    rw [locations]
    exact fun other place held => kept place (coherent.tables.taken other place held)
  · intro other place held
    show tables.Taken place ∧ tables.locationToTag place = none
    rw [locations]
    by_cases this : other = call
    · rw [this, set_self] at held
      obtain rfl := TableCall.reserved.inj held
      exact ⟨given, untagged⟩
    · rw [set_of_ne state this] at held
      obtain ⟨before, none⟩ := coherent.reserved other place held
      exact ⟨kept place before, none⟩
  · have older : ∀ other place, other ≠ call → state.calls other = .reserved place →
        place ≠ location := by
      rintro other place another held rfl
      exact fresh (coherent.reserved other place held).1
    intro first second place held also
    by_cases this : first = call <;> by_cases that : second = call
    · exact this.trans that.symm
    · rw [this, set_self] at held
      rw [set_of_ne state that] at also
      exact absurd (TableCall.reserved.inj held).symm (older second place that also)
    · rw [set_of_ne state this] at held
      rw [that, set_self] at also
      exact absurd (TableCall.reserved.inj also).symm (older first place this held)
    · rw [set_of_ne state this] at held
      rw [set_of_ne state that] at also
      exact coherent.apart first second place held also

omit [Fintype Call] in
/-- The section that enters a tag at the location that is reserved for its call. -/
theorem CoherentCalls.enter (coherent : CoherentCalls state) {call : Call} {location : Nat}
    (place : state.calls call = .reserved location) (tag : Tag) :
    CoherentCalls (state.set call (.entering location) (state.tables.setTag tag location)) := by
  obtain ⟨reserved, untagged⟩ := coherent.reserved call location place
  refine coherent.set (coherent.tables.setTag reserved untagged) nofun
    fun other place' another held => ?_
  obtain ⟨before, none⟩ := coherent.reserved other place' held
  refine ⟨before, ?_⟩
  have elsewhere : place' ≠ location := by
    rintro rfl
    exact another (coherent.apart other call place' held place)
  exact (Function.update_of_ne elsewhere _ _).trans none

omit [DecidableEq Tag] [Fintype Call] in
/-- The section that makes the tables larger. -/
theorem CoherentCalls.grow (coherent : CoherentCalls state) (call : Call) :
    CoherentCalls (state.set call .grown state.tables.grow) := by
  obtain ⟨kept, empty, tags, locations, -⟩ := coherent.tables.grow
  refine coherent.set ⟨?_, ?_, empty⟩ nofun fun other place _ held => ?_
  · rw [tags, locations]
    exact coherent.tables.inverse
  · rw [locations]
    exact fun other place held => kept place (coherent.tables.taken other place held)
  · rw [locations]
    obtain ⟨before, none⟩ := coherent.reserved other place held
    exact ⟨kept place before, none⟩

/-- Every section that finds its tag is confined, and keeps the tables coherent. -/
theorem CoherentCalls.step (coherent : CoherentCalls state)
    (stays : TagStays request state turn)
    (taken : TableState.step request state turn = some next) :
    CoherentCalls next ∧
      IndexTables.Confined (request turn.call) state.tables next.tables := by
  have moves := moves_of_step taken
  have found : ∀ {phase}, state.calls turn.call = phase → (phase = .found ∨ phase = .marked) →
      ∃ location, state.tables.tagToLocation (request turn.call).tag = some location := by
    rintro _ rfl acts
    exact Option.ne_none_iff_exists'.mp (stays acts)
  cases moves with
  | quiet lazyDone location expects whole unreserved =>
    refine ⟨coherent.set
      ⟨coherent.tables.inverse, coherent.tables.taken, coherent.tables.empty⟩ unreserved
      fun other place _ held => coherent.reserved other place held, ?_⟩
    exact ⟨fun _ _ => rfl, fun _ _ _ held => held, fun _ => Or.inl, fun _ _ => ⟨rfl, rfl, rfl⟩⟩
  | @mark tag deletes place =>
    obtain ⟨location, present⟩ := found place (Or.inl rfl)
    have own : (request turn.call).tag = tag := by
      rw [deletes]
      rfl
    subst own
    exact coherent.mark turn.call present
  | @erase tag deletes place =>
    obtain ⟨location, present⟩ := found place (Or.inr rfl)
    have own : (request turn.call).tag = tag := by
      rw [deletes]
      rfl
    subst own
    rw [IndexTables.eraseTag_eq present]
    exact coherent.erase turn.call (.returned none) nofun present (Finset.subset_insert _ _)
      state.tables.lazyDone
  | @replace tag inserts place =>
    obtain ⟨location, present⟩ := found place (Or.inl rfl)
    have own : (request turn.call).tag = tag := by
      rw [inserts]
      rfl
    subst own
    rw [IndexTables.replaceTag_eq present]
    exact coherent.erase turn.call .reserving nofun present (Finset.Subset.refl _) true
  | @take tag location tables inserts place reserved =>
    obtain ⟨-, -, -, -, tags, locations, deleteSet⟩ :=
      coherent.tables.reserveLocation reserved
    refine ⟨coherent.take turn.call reserved, ?_⟩
    show IndexTables.Confined (request turn.call) state.tables tables
    refine ⟨fun other _ => ?_, fun place other _ held => ?_, fun place member =>
      Or.inl (deleteSet member), fun asked => ?_⟩
    · rw [tags]
    · rw [locations]
      exact held
    · rw [inserts] at asked
      exact nomatch asked
  | crash failed =>
    refine ⟨coherent.set coherent.tables nofun
      fun other place _ held => coherent.reserved other place held, ?_⟩
    exact ⟨fun _ _ => rfl, fun _ _ _ held => held, fun _ => Or.inl, fun _ _ => ⟨rfl, rfl, rfl⟩⟩
  | grow place =>
    obtain ⟨-, -, tags, locations, deleteSet⟩ := coherent.tables.grow
    refine ⟨coherent.grow turn.call, ?_⟩
    show IndexTables.Confined (request turn.call) state.tables state.tables.grow
    refine ⟨fun other _ => ?_, fun place other _ held => ?_, fun place member => ?_, fun _ _ =>
      ⟨tags, locations, deleteSet⟩⟩
    · rw [tags]
    · rw [locations]
      exact held
    · rw [deleteSet] at member
      exact Or.inl member
  | @enter tag location inserts place =>
    have own : (request turn.call).tag = tag := by
      rw [inserts]
      rfl
    obtain ⟨-, untagged⟩ := coherent.reserved turn.call location place
    refine ⟨coherent.enter place tag, fun other another => ?_, fun place other _ held => ?_,
      fun _ => Or.inl, fun asked => ?_⟩
    · rw [own] at another
      exact Function.update_of_ne another _ _
    · have elsewhere : place ≠ location := by
        rintro rfl
        exact nomatch untagged.symm.trans held
      exact (Function.update_of_ne elsewhere _ _).trans held
    · rw [inserts] at asked
      exact nomatch asked

/-- In every run in which the calls find their tags where they act on them, every section
affects the tag of its call only. -/
theorem confined_of_tagStays (coherent : start.Coherent)
    (reachable : (system request start).Reachable (TagStays request) state)
    (stays : TagStays request state turn)
    (taken : (system request start).step state turn = some next) :
    IndexTables.Confined (request turn.call) state.tables next.tables := by
  have initial : ∀ state : TableState Tag Call, (system request start).initial state →
      CoherentCalls state := by
    rintro state rfl
    exact ⟨coherent, fun _ _ => nofun, fun _ _ _ => nofun⟩
  have invariant : CoherentCalls state := reachable.invariant initial
    fun _ _ _ coherent stays taken => (coherent.step stays taken).1
  exact (invariant.step stays taken).2

theorem twoPoints_coherent : twoPoints.Coherent where
  inverse tag location held := by
    obtain ⟨inside, same⟩ := Option.ite_none_right_eq_some.mp held
    obtain rfl := Option.some.inj same
    exact if_pos inside
  taken tag location held := (Option.ite_none_right_eq_some.mp held).1
  empty := Finset.empty_subset _

/-- The runs of deletions of the tag 1 in an index of two points. -/
def deleteOne {Call : Type} [DecidableEq Call] [Fintype Call] (turns : List (TableTurn Call)) :
    TableState Nat Call :=
  (system (fun _ => .lazyDelete 1) twoPoints).after ⟨twoPoints, fun _ => .waiting⟩ turns

/-- The runs of deletions of the tags 1 and 0 in an index of two points. -/
def deleteBoth (turns : List (TableTurn Bool)) : TableState Nat Bool :=
  (system (fun call => .lazyDelete (if call then 0 else 1)) twoPoints).after
    ⟨twoPoints, fun _ => .waiting⟩ turns

/-- A deletion marks the location of its tag after another one has found and erased its own. -/
theorem confined_deleteBoth : IndexTables.Confined (.lazyDelete 1)
    (deleteBoth [⟨false, 0⟩, ⟨false, 0⟩, ⟨true, 0⟩, ⟨true, 0⟩, ⟨true, 0⟩, ⟨true, 0⟩]).tables
    (deleteBoth [⟨false, 0⟩, ⟨false, 0⟩, ⟨true, 0⟩, ⟨true, 0⟩, ⟨true, 0⟩, ⟨true, 0⟩,
      ⟨false, 0⟩]).tables := by
  let first : TableTurn Bool := ⟨false, 0⟩
  let second : TableTurn Bool := ⟨true, 0⟩
  let request : Bool → TableRequest Nat := fun call => .lazyDelete (if call then 0 else 1)
  have along : (system request twoPoints).Along (TagStays request)
      ⟨twoPoints, fun _ => .waiting⟩ [first, first, second, second, second, second] := by
    unfold TagStays
    decide +kernel
  have stays : TagStays request
      (deleteBoth [first, first, second, second, second, second]) first :=
    fun _ => by decide +kernel
  exact confined_of_tagStays twoPoints_coherent
    (Transition.System.Reachable.after (.initial rfl) along) stays rfl

/-- Two deletions of one tag find it, one of them deletes it, and the other one deletes the
point at location 0. -/
theorem not_confined_of_twoDeletions :
    ¬ ∀ (Tag Call : Type) [DecidableEq Tag] [DecidableEq Call] [Fintype Call]
      (request : Call → TableRequest Tag) (start : IndexTables Tag)
      (state next : TableState Tag Call) (turn : TableTurn Call), start.Coherent →
        (system request start).Reachable Transition.anyStep state →
          (system request start).step state turn = some next →
            IndexTables.Confined (request turn.call) state.tables next.tables := by
  intro confined
  let first : TableTurn Bool := ⟨false, 0⟩
  let second : TableTurn Bool := ⟨true, 0⟩
  have along : (system (fun _ => .lazyDelete 1) twoPoints).Along Transition.anyStep
      ⟨twoPoints, fun _ => .waiting⟩ [first, first, second, second, first, first] :=
    Transition.System.along_anyStep
  have deleted := (confined Nat Bool (fun _ => .lazyDelete 1) twoPoints
    (deleteOne [first, first, second, second, first, first])
    (deleteOne [first, first, second, second, first, first, second]) second
    twoPoints_coherent (Transition.System.Reachable.after (.initial rfl) along) rfl).deleted 0
  revert deleted
  decide +kernel

end TableState

end OdinVector
