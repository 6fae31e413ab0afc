/-
This file models concurrent calls of `insert_point` and `lazy_delete` on one `Index`,
one critical section a step. A call holds `_update_lock` shared from its start to its
end; an insertion that finds the index full gives it back, takes it alone to let the
index grow, and takes it shared again for its second `reserve_location`.

An insertion that has entered its tag goes on to link its point, which does not touch
the tables.
-/

import OdinVector.InMemory.Tables
import OdinVector.Transition
import Mathlib.Data.Fintype.Basic

namespace OdinVector

variable {Tag Call : Type}

/-- What a call asks for. -/
inductive TableRequest (Tag : Type)
  | insertPoint (tag : Tag)
  | lazyDelete (tag : Tag)
  deriving DecidableEq

/-- The tag of a request. -/
def TableRequest.tag : TableRequest Tag → Tag
  | .insertPoint tag => tag
  | .lazyDelete tag => tag

/-- Where a call is. -/
inductive TableCall
  /-- Before the call takes `_update_lock`. -/
  | waiting
  /-- Before it looks its tag up. -/
  | entered
  /-- It has found its tag. -/
  | found
  /-- `lazy_delete` has put the location into `_delete_set`. -/
  | marked
  /-- `insert_point` before its first `reserve_location`. -/
  | reserving
  /-- It has given `_update_lock` back. -/
  | full
  /-- It holds `_update_lock` alone. -/
  | growing
  /-- It has given `_update_lock` back again. -/
  | grown
  /-- Before its second `reserve_location`. -/
  | relocked
  /-- Before it enters its tag. -/
  | reserved (location : Nat)
  /-- It links the point. -/
  | entering (location : Nat)
  | returned (location : Option Nat)
  | crashed
  deriving DecidableEq

namespace TableCall

/-- Whether a call holds `_update_lock` shared. -/
def shares : TableCall → Bool
  | entered | found | marked | reserving | relocked | reserved _ | entering _ => true
  | _ => false

/-- The location that a call has obtained. -/
def location? : TableCall → Option Nat
  | reserved location | entering location => some location
  | returned location => location
  | _ => none

/-- Whether a call has been through the growth section and has not taken its location. -/
def expects : TableCall → Bool
  | grown | relocked => true
  | _ => false

end TableCall

/-- The tables with the calls that run on them. -/
structure TableState (Tag Call : Type) where
  tables : IndexTables Tag
  calls : Call → TableCall

/-- The next critical section of a call; `slot` is what `_empty_slots.begin()` gives. -/
structure TableTurn (Call : Type) where
  call : Call
  slot : Nat
  deriving DecidableEq

namespace TableState

variable [DecidableEq Tag] [DecidableEq Call] [Fintype Call]
variable (request : Call → TableRequest Tag)

/-- A call goes on with other tables. -/
def set (state : TableState Tag Call) (call : Call) (phase : TableCall)
    (tables : IndexTables Tag) : TableState Tag Call where
  tables := tables
  calls := Function.update state.calls call phase

omit [DecidableEq Tag] [Fintype Call] in
theorem set_self (state : TableState Tag Call) (call : Call) (phase : TableCall)
    (tables : IndexTables Tag) : (state.set call phase tables).calls call = phase :=
  Function.update_self _ _ _

omit [DecidableEq Tag] [Fintype Call] in
theorem set_of_ne (state : TableState Tag Call) {call other : Call} (another : other ≠ call)
    (phase : TableCall) (tables : IndexTables Tag) :
    (state.set call phase tables).calls other = state.calls other :=
  Function.update_of_ne another _ _

/-- `_update_lock` can be taken shared. -/
def Sharable (state : TableState Tag Call) : Prop :=
  ∀ call, state.calls call ≠ .growing

/-- `_update_lock` can be taken alone. -/
def Free (state : TableState Tag Call) : Prop :=
  ∀ call, state.calls call ≠ .growing ∧ (state.calls call).shares = false

instance (state : TableState Tag Call) : Decidable state.Sharable :=
  inferInstanceAs (Decidable (∀ _, _))

instance (state : TableState Tag Call) : Decidable state.Free :=
  inferInstanceAs (Decidable (∀ _, _))

/-- A `reserve_location`, the first one or the second one. -/
def reserve (state : TableState Tag Call) (turn : TableTurn Call) (onFull : TableCall) :
    Option (TableState Tag Call) :=
  (state.tables.reserveLocation turn.slot).map fun
    | .full => state.set turn.call onFull state.tables
    | .noSlot => state.set turn.call .crashed state.tables
    | .location location tables => state.set turn.call (.reserved location) tables

/-- The next critical section of a call. -/
def step (state : TableState Tag Call) (turn : TableTurn Call) : Option (TableState Tag Call) :=
  let tables := state.tables
  match state.calls turn.call, request turn.call with
  | .waiting, .insertPoint _ =>
    if state.Sharable then some (state.set turn.call .entered tables) else none
  | .waiting, .lazyDelete _ =>
    if tables.eagerDone ∧ tables.dataCompacted = false then
      some (state.set turn.call (.returned none) tables)
    else if state.Sharable then
      some (state.set turn.call .entered { tables with lazyDone := true })
    else none
  | .entered, .insertPoint tag =>
    some (state.set turn.call (if tables.tagToLocation tag = none then .reserving else .found)
      tables)
  | .entered, .lazyDelete tag =>
    some (state.set turn.call
      (if tables.tagToLocation tag = none then .returned none else .found) tables)
  | .found, .insertPoint tag => some (state.set turn.call .reserving (tables.replaceTag tag))
  | .found, .lazyDelete tag => some (state.set turn.call .marked (tables.markDeleted tag))
  | .marked, .lazyDelete tag =>
    some (state.set turn.call (.returned none) (tables.eraseTag tag))
  | .reserving, .insertPoint _ => state.reserve turn .full
  | .full, .insertPoint _ =>
    if state.Free then some (state.set turn.call .growing tables) else none
  | .growing, .insertPoint _ => some (state.set turn.call .grown tables.grow)
  | .grown, .insertPoint _ =>
    if state.Sharable then some (state.set turn.call .relocked tables) else none
  | .relocked, .insertPoint _ => state.reserve turn .crashed
  | .reserved location, .insertPoint tag =>
    some (state.set turn.call (.entering location) (tables.setTag tag location))
  | .entering location, .insertPoint _ =>
    some (state.set turn.call (.returned (some location)) tables)
  | _, _ => none

/-- Calls that start together on given tables. -/
def system (start : IndexTables Tag) :
    Transition.System (TableState Tag Call) (TableTurn Call) where
  initial state := state = ⟨start, fun _ => .waiting⟩
  step := step request

/-- The calls that have been through the growth section and have not taken their location. -/
def expecting (state : TableState Tag Call) : Finset Call :=
  Finset.univ.filter fun call => (state.calls call).expects

omit [DecidableEq Tag] [DecidableEq Call] in
theorem mem_expecting {state : TableState Tag Call} {call : Call} :
    call ∈ state.expecting ↔ (state.calls call).expects = true :=
  Finset.mem_filter.trans (and_iff_right (Finset.mem_univ _))

/-! ### What a critical section does -/

variable {request}

/-- The kinds of critical sections. -/
inductive Moves (request : Call → TableRequest Tag) (state : TableState Tag Call)
    (turn : TableTurn Call) : TableState Tag Call → Prop
  /-- The tables stay, `_lazy_done` apart. -/
  | quiet {phase : TableCall} (lazyDone : Bool)
      (location : phase.location? = (state.calls turn.call).location?)
      (expects : phase.expects = (state.calls turn.call).expects) (whole : phase ≠ .crashed)
      (unreserved : ∀ location, phase ≠ .reserved location) :
      Moves request state turn (state.set turn.call phase { state.tables with lazyDone := lazyDone })
  | mark {tag : Tag} (deletes : request turn.call = .lazyDelete tag)
      (place : state.calls turn.call = .found) :
      Moves request state turn (state.set turn.call .marked (state.tables.markDeleted tag))
  | erase {tag : Tag} (deletes : request turn.call = .lazyDelete tag)
      (place : state.calls turn.call = .marked) :
      Moves request state turn (state.set turn.call (.returned none) (state.tables.eraseTag tag))
  | replace {tag : Tag} (inserts : request turn.call = .insertPoint tag)
      (place : state.calls turn.call = .found) :
      Moves request state turn (state.set turn.call .reserving (state.tables.replaceTag tag))
  | take {tag : Tag} {location : Nat} {tables : IndexTables Tag}
      (inserts : request turn.call = .insertPoint tag)
      (place : state.calls turn.call = .reserving ∨ state.calls turn.call = .relocked)
      (reserved : state.tables.reserveLocation turn.slot = some (.location location tables)) :
      Moves request state turn (state.set turn.call (.reserved location) tables)
  | crash
      (place : state.calls turn.call = .relocked ∧
          state.tables.reserveLocation turn.slot = some .full ∨
        state.tables.reserveLocation turn.slot = some .noSlot) :
      Moves request state turn (state.set turn.call .crashed state.tables)
  | grow (place : state.calls turn.call = .growing) :
      Moves request state turn (state.set turn.call .grown state.tables.grow)
  | enter {tag : Tag} {location : Nat} (inserts : request turn.call = .insertPoint tag)
      (place : state.calls turn.call = .reserved location) :
      Moves request state turn
        (state.set turn.call (.entering location) (state.tables.setTag tag location))

omit [Fintype Call] in
theorem moves_of_reserve {state next : TableState Tag Call} {turn : TableTurn Call} {tag : Tag}
    {onFull : TableCall} (inserts : request turn.call = .insertPoint tag)
    (onFirst : state.calls turn.call = .reserving ∧ onFull = .full ∨
      state.calls turn.call = .relocked ∧ onFull = .crashed)
    (taken : state.reserve turn onFull = some next) : Moves request state turn next := by
  unfold reserve at taken
  obtain ⟨reserved, result, rfl⟩ := Option.map_eq_some_iff.mp taken
  cases reserved with
  | full =>
    obtain ⟨first, rfl⟩ | ⟨second, rfl⟩ := onFirst
    · exact .quiet state.tables.lazyDone (by rw [first]; rfl) (by rw [first]; rfl) nofun nofun
    · exact .crash (Or.inl ⟨second, result⟩)
  | noSlot => exact .crash (Or.inr result)
  | location location tables =>
    exact .take inserts (onFirst.imp And.left And.left) result

omit [Fintype Call] in
/-- A section that leaves the tables. -/
theorem moves_of_keep {state : TableState Tag Call} {turn : TableTurn Call} {phase : TableCall}
    (location : phase.location? = (state.calls turn.call).location?)
    (expects : phase.expects = (state.calls turn.call).expects) (whole : phase ≠ .crashed)
    (unreserved : ∀ location, phase ≠ .reserved location) :
    Moves request state turn (state.set turn.call phase state.tables) :=
  .quiet state.tables.lazyDone location expects whole unreserved

/-- Every critical section is of one of the kinds. -/
theorem moves_of_step {state next : TableState Tag Call} {turn : TableTurn Call}
    (taken : step request state turn = some next) : Moves request state turn next := by
  unfold step at taken
  dsimp only at taken
  split at taken
  all_goals rename_i phase asked
  -- `waiting`, `entered` and `found`, of an insertion and of a deletion in turn.
  · obtain ⟨-, entered⟩ := Option.ite_none_right_eq_some.mp taken
    obtain rfl := Option.some.inj entered
    exact moves_of_keep (by rw [phase]; rfl) (by rw [phase]; rfl) nofun nofun
  · split at taken
    · obtain rfl := Option.some.inj taken
      exact moves_of_keep (by rw [phase]; rfl) (by rw [phase]; rfl) nofun nofun
    · obtain ⟨-, entered⟩ := Option.ite_none_right_eq_some.mp taken
      obtain rfl := Option.some.inj entered
      exact .quiet true (by rw [phase]; rfl) (by rw [phase]; rfl) nofun nofun
  · obtain rfl := Option.some.inj taken
    split
    all_goals exact moves_of_keep (by rw [phase]; rfl) (by rw [phase]; rfl) nofun nofun
  · obtain rfl := Option.some.inj taken
    split
    all_goals exact moves_of_keep (by rw [phase]; rfl) (by rw [phase]; rfl) nofun nofun
  · obtain rfl := Option.some.inj taken
    exact .replace asked phase
  · obtain rfl := Option.some.inj taken
    exact .mark asked phase
  · obtain rfl := Option.some.inj taken
    exact .erase asked phase
  -- From `reserving` on only insertions go on.
  · exact moves_of_reserve asked (Or.inl ⟨phase, rfl⟩) taken
  · obtain ⟨-, alone⟩ := Option.ite_none_right_eq_some.mp taken
    obtain rfl := Option.some.inj alone
    exact moves_of_keep (by rw [phase]; rfl) (by rw [phase]; rfl) nofun nofun
  · obtain rfl := Option.some.inj taken
    exact .grow phase
  · obtain ⟨-, relocked⟩ := Option.ite_none_right_eq_some.mp taken
    obtain rfl := Option.some.inj relocked
    exact moves_of_keep (by rw [phase]; rfl) (by rw [phase]; rfl) nofun nofun
  · exact moves_of_reserve asked (Or.inr ⟨phase, rfl⟩) taken
  · obtain rfl := Option.some.inj taken
    exact .enter asked phase
  · obtain rfl := Option.some.inj taken
    exact moves_of_keep (by rw [phase]; rfl) (by rw [phase]; rfl) nofun nofun
  · exact nomatch taken

end TableState

end OdinVector
