/-
This file models how the update service hands out tags. A counter starts at the number
of points of the index; an insert reserves the next tags before it takes `state_mu_`,
a merge takes `state_mu_` alone and sets the counter back to `num_points`. The merge
that the service runs does not change `num_points`, so the counter goes back to where
it started, whatever has been inserted meanwhile.

`TagT` is `unsigned`, the type that the service is built for. The points are those of
the index file with the ones inserted since; a merge drops the points of the deletion
set that it retires.
-/

import OdinVector.Dynamic.DeletionSets
import Mathlib.Data.UInt
import Mathlib.Order.Interval.Finset.Nat

namespace OdinVector

open Transition

/-! ### The service -/

-- What holds of some tags is decided by going through them, and not through all tags.
instance decidableForallList (holds : UInt32 → Prop) [DecidablePred holds] (tags : List UInt32) :
    Decidable (∀ tag ∈ tags, holds tag) :=
  List.decidableBAll holds tags

instance decidableForallFinset (holds : UInt32 → Prop) [DecidablePred holds]
    (tags : Finset UInt32) :
    Decidable (∀ tag ∈ tags, holds tag) :=
  Finset.decidableDforallFinset

/-- What `reserve_tags` hands out: `n` tags from `start` on. -/
structure TagRange where
  start : UInt64
  n : UInt64
  deriving DecidableEq

/-- The numbers of a range. -/
def TagRange.numbers (range : TagRange) : Finset Nat :=
  Finset.Ico range.start.toNat (range.start.toNat + range.n.toNat)

/-- The tags that an insert makes of a range: `(TagT) (start_tag + i)`. -/
def TagRange.tags (range : TagRange) : List UInt32 :=
  (List.range range.n.toNat).map fun i => (range.start + UInt64.ofNat i).toUInt32

/-- The tags of a range that fits `TagT` are its numbers. -/
theorem TagRange.mem_numbers {range : TagRange}
    (fits : range.start.toNat + range.n.toNat ≤ 4294967295) {tag : UInt32}
    (member : tag ∈ range.tags) : tag.toNat ∈ range.numbers := by
  obtain ⟨i, inRange, rfl⟩ := List.mem_map.mp member
  have below := List.mem_range.mp inRange
  have offset : (UInt64.ofNat i).toNat = i := UInt64.toNat_ofNat_of_lt' (by show i < 2 ^ 64; omega)
  have sum : (range.start + UInt64.ofNat i).toNat = range.start.toNat + i := by
    rw [UInt64.toNat_add, offset, Nat.mod_eq_of_lt (by omega)]
  have narrow : (range.start + UInt64.ofNat i).toUInt32.toNat = range.start.toNat + i := by
    rw [UInt64.toNat_toUInt32, sum, Nat.mod_eq_of_lt (by omega)]
  rw [narrow]
  exact Finset.mem_Ico.mpr ⟨Nat.le_add_right _ _, Nat.add_lt_add_left below _⟩

/-- How far the command of a client is. -/
inductive ServiceCommand
  | idle
  /-- Before an insert takes `state_mu_`. -/
  | reserved (range : TagRange)
  /-- In `parallel_insert`, with the tags that are not inserted yet. -/
  | inserting (range : TagRange) (left : List UInt32)
  /-- Before the insert writes `tag_to_row_`. -/
  | inserted (range : TagRange)
  /-- Before a deletion takes `state_mu_`. -/
  | picked (tags : List UInt32)
  | deleting (tags : List UInt32)
  | searching
  /-- A merge has `state_mu_`. -/
  | merging
  /-- `final_merge_stream_pq_tags` has returned. -/
  | rewritten
  /-- `next_tag_` is stored. -/
  | stored
  /-- Before the merge clears `tag_to_row_`. -/
  | unlocked
  deriving DecidableEq

/-- The tags that are reserved and not inserted yet. -/
def ServiceCommand.owed : ServiceCommand → List UInt32
  | .reserved range => range.tags
  | .inserting _ left => left
  | _ => []

/-- The state of the service, its index and its clients. -/
structure ServiceState where
  /-- `num_points` of the disk index. -/
  numPoints : UInt64
  nextTag : UInt64
  /-- The keys of `tag_to_row_`. -/
  tagToRow : Finset UInt32
  /-- The tags of the points. -/
  points : Finset UInt32
  sets : DeletionSets UInt32
  /-- Who has `state_mu_` shared. -/
  shared : List Nat
  /-- Who has `state_mu_` alone. -/
  owner : Option Nat
  commands : List ServiceCommand
  /-- The ranges that were handed out since the last merge. -/
  handed : List TagRange

/-- A step: a client connects, gives a command, inserts one of its tags or goes on. -/
inductive ServiceAction
  | connect
  | insert (client : Nat) (n : UInt64)
  | deleteBaseRandom (client : Nat) (tags : List UInt32)
  | deleteInserted (client : Nat) (pick : List UInt32)
  | search (client : Nat)
  | mergeNow (client : Nat)
  | insertTag (client : Nat) (tag : UInt32)
  | step (client : Nat)
  deriving DecidableEq

namespace ServiceState

variable (state : ServiceState)

/-- The service over an index whose tags are the numbers of its points. -/
def init (numPoints : UInt64) : ServiceState where
  numPoints := numPoints
  nextTag := numPoints
  tagToRow := ∅
  points := (Finset.range numPoints.toNat).image UInt32.ofNat
  sets := .init
  shared := []
  owner := none
  commands := []
  handed := []

/-- The tags of the points that are not deleted. -/
def live : Finset UInt32 :=
  state.points \ state.sets.deletionSets state.sets.activeDeleteSet

/-- The state with another state of a client. -/
def setCommand (client : Nat) (command : ServiceCommand) : ServiceState :=
  { state with commands := state.commands.set client command }

/-- `reserve_tags`, whose sum is one of `uint64_t`. -/
def reserveTags (n : UInt64) : Option TagRange :=
  if 4294967295 < state.nextTag + n then none else some ⟨state.nextTag, n⟩

/-- An insert: it reserves its tags, or answers `"ERR tag overflow"`. -/
def insert (client : Nat) (n : UInt64) : ServiceState :=
  match state.reserveTags n with
  | none => state
  | some range =>
    { state.setCommand client (.reserved range) with
      nextTag := state.nextTag + n
      handed := range :: state.handed }

/-- `state_mu_` is taken shared. -/
def lockShared (client : Nat) (command : ServiceCommand) : Option ServiceState :=
  if state.owner = none then
    some { state.setCommand client command with shared := client :: state.shared }
  else none

/-- `state_mu_` is given back by one of those that have it shared. -/
def unlockShared (client : Nat) (command : ServiceCommand) : ServiceState :=
  { state.setCommand client command with shared := state.shared.erase client }

/-- `final_merge_stream_pq_tags`: the deletion sets are switched and the points of the
retired one are dropped; `reload` leaves `num_points`. -/
def finalMerge : ServiceState :=
  let sets := state.sets.saveDelSet (1 - state.sets.activeDeleteSet) state.sets.activeDeleteSet
  { state with
    sets := sets
    points := state.points \ sets.deletionSets (1 - sets.activeDeleteSet) }

/-- A client goes on with its command. -/
def goOn (client : Nat) : ServiceCommand → Option ServiceState
  | .idle => none
  | .reserved range => state.lockShared client (.inserting range range.tags)
  | .inserting range [] => some (state.unlockShared client (.inserted range))
  | .inserting _ (_ :: _) => none
  | .inserted range =>
    some { state.setCommand client .idle with tagToRow := state.tagToRow ∪ range.tags.toFinset }
  | .picked tags => state.lockShared client (.deleting tags)
  | .deleting (tag :: rest) =>
    some { state.setCommand client (.deleting rest) with sets := state.sets.lazyDelete tag }
  | .deleting [] => some (state.unlockShared client .idle)
  | .searching => some (state.unlockShared client .idle)
  | .merging => some (state.finalMerge.setCommand client .rewritten)
  | .rewritten =>
    some { state.setCommand client .stored with nextTag := state.numPoints, handed := [] }
  | .stored => some { state.setCommand client .unlocked with owner := none }
  | .unlocked => some { state.setCommand client .idle with tagToRow := ∅ }

/-- A step. A command that throws ends the process, and has no next state. -/
def step : ServiceAction → Option ServiceState
  | .connect => some { state with commands := state.commands ++ [.idle] }
  | .insert client n =>
    if state.commands[client]? = some .idle ∧ 0 < n then some (state.insert client n) else none
  | .deleteBaseRandom client tags =>
    if state.commands[client]? = some .idle ∧ tags.Nodup ∧
        ∀ tag ∈ tags, tag.toNat < state.numPoints.toNat then
      some (state.setCommand client (.picked tags))
    else none
  | .deleteInserted client pick =>
    if state.commands[client]? = some .idle ∧ pick.Nodup ∧ ∀ tag ∈ pick, tag ∈ state.tagToRow then
      some { state.setCommand client (.picked pick) with
        tagToRow := state.tagToRow \ pick.toFinset }
    else none
  | .search client =>
    if state.commands[client]? = some .idle then state.lockShared client .searching else none
  | .mergeNow client =>
    if state.commands[client]? = some .idle ∧ state.owner = none ∧ state.shared = [] then
      some { state.setCommand client .merging with owner := some client }
    else none
  | .insertTag client tag =>
    match state.commands[client]? with
    | some (.inserting range left) =>
      if tag ∈ left then
        some { state.setCommand client (.inserting range (left.erase tag)) with
          points := Insert.insert tag state.points }
      else none
    | _ => none
  | .step client => (state.commands[client]?).bind (state.goOn client)

/-- The system of the service over any index whose tags are the numbers of its points. -/
def system : System ServiceState ServiceAction where
  initial state := ∃ numPoints, state = init numPoints
  step := step

/-! ### Fresh tags -/

/-- The range that an insert gets does not wrap, has no number of a range that was handed
out since the last merge, and has no tag of a live point. -/
def Freshly : ServiceAction → Prop
  | .insert _ n => ∀ range ∈ state.reserveTags n,
      range.start.toNat + range.n.toNat ≤ 4294967295 ∧
        (∀ other ∈ state.handed, Disjoint range.numbers other.numbers) ∧
        ∀ tag ∈ state.live, tag.toNat ∉ range.numbers
  | _ => True

/-- The sum of `reserve_tags` has 64 bits, and where a merge sets the counter back no point
with a tag from `num_points` on is live and no reserved tag is still to be inserted. -/
def Careful : ServiceAction → Prop
  | .insert _ n => state.nextTag.toNat + n.toNat < 2 ^ 64
  | .step client => state.commands[client]? = some .rewritten →
      (∀ tag ∈ state.live, tag.toNat < state.numPoints.toNat) ∧
        ∀ command ∈ state.commands, command.owed = []
  | _ => True

/-- Everything that was handed out is below the counter. -/
structure Bounded : Prop where
  active : state.sets.activeDeleteSet ≤ 1
  live : ∀ tag ∈ state.live, tag.toNat < state.nextTag.toNat
  handed : ∀ range ∈ state.handed, range.start.toNat + range.n.toNat ≤ state.nextTag.toNat
  owed : ∀ command ∈ state.commands, ∀ tag ∈ command.owed, tag.toNat < state.nextTag.toNat

instance : DecidablePred state.Freshly
  | .insert _ n => inferInstanceAs (Decidable (∀ range ∈ state.reserveTags n, _ ∧ _ ∧ _))
  | .connect | .deleteBaseRandom _ _ | .deleteInserted _ _ | .search _ | .mergeNow _
  | .insertTag _ _ | .step _ => inferInstanceAs (Decidable True)

instance : DecidablePred state.Careful
  | .insert _ n => inferInstanceAs (Decidable (state.nextTag.toNat + n.toNat < 2 ^ 64))
  | .step client => inferInstanceAs (Decidable (state.commands[client]? = some .rewritten → _ ∧ _))
  | .connect | .deleteBaseRandom _ _ | .deleteInserted _ _ | .search _ | .mergeNow _
  | .insertTag _ _ => inferInstanceAs (Decidable True)

variable {state}

theorem bounded_init (numPoints : UInt64) : (init numPoints).Bounded where
  active := Nat.zero_le 1
  live tag isLive := by
    obtain ⟨place, below, rfl⟩ := Finset.mem_image.mp (Finset.mem_sdiff.mp isLive).1
    have wrapped : (UInt32.ofNat place).toNat = place % 2 ^ 32 := UInt32.toNat_ofNat'
    rw [wrapped]
    exact (Nat.mod_le place _).trans_lt (Finset.mem_range.mp below)
  handed := nofun
  owed := nofun

/-- A command that has come to another point may owe what is below the counter. -/
theorem mem_setCommand {client : Nat} {command other : ServiceCommand} {bound : Nat}
    (before : ∀ command ∈ state.commands, ∀ tag ∈ command.owed, tag.toNat < bound)
    (now : ∀ tag ∈ command.owed, tag.toNat < bound)
    (member : other ∈ (state.setCommand client command).commands) :
    ∀ tag ∈ other.owed, tag.toNat < bound := by
  obtain old | rfl := List.mem_or_eq_of_mem_set member
  · exact before other old
  · exact now

theorem owed_nil {command : ServiceCommand} {bound : Nat} (settled : command.owed = []) :
    ∀ tag ∈ command.owed, tag.toNat < bound := by
  intro tag owed
  rw [settled] at owed
  exact absurd owed List.not_mem_nil

/-- What a step that hands out nothing and inserts nothing has to keep. -/
theorem Bounded.setCommand (bounded : state.Bounded) (client : Nat) {command : ServiceCommand}
    {next : ServiceState} (commands : next.commands = (state.setCommand client command).commands)
    (active : next.sets.activeDeleteSet ≤ 1) (live : next.live ⊆ state.live)
    (counter : next.nextTag = state.nextTag) (handed : next.handed = state.handed)
    (owed : ∀ tag ∈ command.owed, tag.toNat < state.nextTag.toNat) : next.Bounded where
  active := active
  live tag isLive := by
    rw [counter]
    exact bounded.live tag (live isLive)
  handed range member := by
    rw [counter]
    exact bounded.handed range (handed ▸ member)
  owed other member := by
    rw [counter]
    exact mem_setCommand bounded.owed owed (commands ▸ member)

theorem reserveTags_eq_some {n : UInt64} {range : TagRange}
    (careful : state.nextTag.toNat + n.toNat < 2 ^ 64)
    (reserved : state.reserveTags n = some range) :
    range = ⟨state.nextTag, n⟩ ∧ (state.nextTag + n).toNat = state.nextTag.toNat + n.toNat ∧
      state.nextTag.toNat + n.toNat ≤ 4294967295 := by
  have sum : (state.nextTag + n).toNat = state.nextTag.toNat + n.toNat := by
    rw [UInt64.toNat_add, Nat.mod_eq_of_lt careful]
  unfold reserveTags at reserved
  split at reserved
  · exact absurd reserved nofun
  · rename_i fits
    rw [UInt64.lt_iff_toNat_lt, sum] at fits
    exact ⟨(Option.some.inj reserved).symm, sum, Nat.not_lt.mp fits⟩

theorem Bounded.insert (bounded : state.Bounded) (client : Nat) {n : UInt64}
    (careful : state.nextTag.toNat + n.toNat < 2 ^ 64) : (state.insert client n).Bounded := by
  unfold ServiceState.insert
  cases reserved : state.reserveTags n with
  | none => exact bounded
  | some range =>
    obtain ⟨rfl, sum, fits⟩ := reserveTags_eq_some careful reserved
    have grows : state.nextTag.toNat ≤ (state.nextTag + n).toNat :=
      (Nat.le_add_right _ _).trans_eq sum.symm
    refine ⟨bounded.active, fun tag isLive => (bounded.live tag isLive).trans_le grows,
      fun other member => ?_, fun other member => ?_⟩
    · obtain rfl | before := List.mem_cons.mp member
      · exact sum.ge
      · exact (bounded.handed other before).trans grows
    · refine mem_setCommand (fun command before tag owed =>
        (bounded.owed command before tag owed).trans_le grows) (fun tag owed => ?_) member
      exact (Finset.mem_Ico.mp (TagRange.mem_numbers fits owed)).2.trans_eq sum.symm

theorem Bounded.insertTag (bounded : state.Bounded) (client : Nat) {range : TagRange}
    {left : List UInt32} {tag : UInt32} (inserting : state.commands[client]? =
      some (.inserting range left)) (owed : tag ∈ left) :
    { state.setCommand client (.inserting range (left.erase tag)) with
      points := Insert.insert tag state.points : ServiceState }.Bounded := by
  have below := bounded.owed _ (List.mem_of_getElem? inserting)
  refine ⟨bounded.active, fun other isLive => ?_, bounded.handed, fun other member => ?_⟩
  · obtain ⟨present, kept⟩ := Finset.mem_sdiff.mp isLive
    obtain rfl | before := Finset.mem_insert.mp present
    · exact below other owed
    · exact bounded.live other (Finset.mem_sdiff.mpr ⟨before, kept⟩)
  · refine mem_setCommand bounded.owed (fun more rest => ?_) member
    exact below more (List.mem_of_mem_erase rest)

/-- A merge drops points of the deletion set only, and the live ones stay the same. -/
theorem live_finalMerge (small : state.sets.activeDeleteSet ≤ 1) :
    state.finalMerge.live = state.live := by
  have different : state.sets.activeDeleteSet ≠ 1 - state.sets.activeDeleteSet := by omega
  have back : 1 - (1 - state.sets.activeDeleteSet) = state.sets.activeDeleteSet := by omega
  obtain ⟨retired, empty⟩ := state.sets.saveDelSet_retired different
  show (state.points \ (state.sets.saveDelSet _ _).deletionSets
    (1 - (1 - state.sets.activeDeleteSet))) \ (state.sets.saveDelSet _ _).deletionSets
      (1 - state.sets.activeDeleteSet) = _
  rw [back, retired, empty, Finset.sdiff_empty]
  rfl

theorem live_lazyDelete_subset (tag : UInt32) :
    state.points \ (state.sets.lazyDelete tag).deletionSets
      (state.sets.lazyDelete tag).activeDeleteSet ⊆ state.live := by
  intro other member
  obtain ⟨present, kept⟩ := Finset.mem_sdiff.mp member
  rw [DeletionSets.lazyDelete_active, DeletionSets.mem_lazyDelete] at kept
  exact Finset.mem_sdiff.mpr ⟨present, fun deleted => kept (Or.inl deleted)⟩

theorem Bounded.lockShared (bounded : state.Bounded) {client : Nat} {command : ServiceCommand}
    (owed : ∀ tag ∈ command.owed, tag.toNat < state.nextTag.toNat) {next : ServiceState}
    (locked : state.lockShared client command = some next) : next.Bounded := by
  unfold ServiceState.lockShared at locked
  split at locked
  · obtain rfl := Option.some.inj locked
    exact bounded.setCommand client rfl bounded.active subset_rfl rfl rfl owed
  · exact absurd locked nofun

theorem Bounded.goOn (bounded : state.Bounded) {client : Nat} {command : ServiceCommand}
    (there : state.commands[client]? = some command) (careful : state.Careful (.step client))
    {next : ServiceState} (taken : state.goOn client command = some next) : next.Bounded := by
  have owed := bounded.owed _ (List.mem_of_getElem? there)
  cases command with
  | idle => exact absurd taken nofun
  | reserved range =>
    have locked : state.lockShared client (.inserting range range.tags) = some next := taken
    refine bounded.lockShared ?_ locked
    exact owed
  | inserting range left =>
    cases left with
    | nil =>
      obtain rfl := Option.some.inj taken
      exact bounded.setCommand client rfl bounded.active subset_rfl rfl rfl (owed_nil rfl)
    | cons tag rest => exact absurd taken nofun
  | inserted range =>
    obtain rfl := Option.some.inj taken
    exact bounded.setCommand client rfl bounded.active subset_rfl rfl rfl (owed_nil rfl)
  | picked tags => exact bounded.lockShared (owed_nil rfl) taken
  | deleting tags =>
    cases tags with
    | nil =>
      obtain rfl := Option.some.inj taken
      exact bounded.setCommand client rfl bounded.active subset_rfl rfl rfl (owed_nil rfl)
    | cons tag rest =>
      obtain rfl := Option.some.inj taken
      refine bounded.setCommand client rfl ?_ (live_lazyDelete_subset tag) rfl rfl (owed_nil rfl)
      show (state.sets.lazyDelete tag).activeDeleteSet ≤ 1
      rw [DeletionSets.lazyDelete_active]
      exact bounded.active
  | searching =>
    obtain rfl := Option.some.inj taken
    exact bounded.setCommand client rfl bounded.active subset_rfl rfl rfl (owed_nil rfl)
  | merging =>
    obtain rfl := Option.some.inj taken
    exact bounded.setCommand client rfl (Nat.sub_le 1 _) (live_finalMerge bounded.active).le rfl rfl
      (owed_nil rfl)
  | rewritten =>
    obtain rfl := Option.some.inj taken
    obtain ⟨live, settled⟩ := careful there
    refine ⟨bounded.active, live, nofun, fun command member => ?_⟩
    refine mem_setCommand (fun other before tag owes => ?_) (owed_nil rfl) member
    rw [settled other before] at owes
    exact absurd owes List.not_mem_nil
  | stored =>
    obtain rfl := Option.some.inj taken
    exact bounded.setCommand client rfl bounded.active subset_rfl rfl rfl (owed_nil rfl)
  | unlocked =>
    obtain rfl := Option.some.inj taken
    exact bounded.setCommand client rfl bounded.active subset_rfl rfl rfl (owed_nil rfl)

/-- Every careful step keeps what was handed out below the counter. -/
theorem Bounded.step (bounded : state.Bounded) {action : ServiceAction}
    (careful : state.Careful action) {next : ServiceState}
    (taken : state.step action = some next) : next.Bounded := by
  cases action with
  | connect =>
    obtain rfl := Option.some.inj taken
    refine ⟨bounded.active, bounded.live, bounded.handed, fun command member => ?_⟩
    obtain before | new := List.mem_append.mp member
    · exact bounded.owed command before
    · exact owed_nil (congrArg _ (List.mem_singleton.mp new))
  | insert client n =>
    obtain ⟨-, same⟩ := Option.ite_none_right_eq_some.mp taken
    obtain rfl := Option.some.inj same
    exact bounded.insert client careful
  | deleteBaseRandom client tags =>
    obtain ⟨-, same⟩ := Option.ite_none_right_eq_some.mp taken
    obtain rfl := Option.some.inj same
    exact bounded.setCommand client rfl bounded.active subset_rfl rfl rfl (owed_nil rfl)
  | deleteInserted client pick =>
    obtain ⟨-, same⟩ := Option.ite_none_right_eq_some.mp taken
    obtain rfl := Option.some.inj same
    exact bounded.setCommand client rfl bounded.active subset_rfl rfl rfl (owed_nil rfl)
  | search client =>
    obtain ⟨-, locked⟩ := Option.ite_none_right_eq_some.mp taken
    exact bounded.lockShared (owed_nil rfl) locked
  | mergeNow client =>
    obtain ⟨-, same⟩ := Option.ite_none_right_eq_some.mp taken
    obtain rfl := Option.some.inj same
    exact bounded.setCommand client rfl bounded.active subset_rfl rfl rfl (owed_nil rfl)
  | insertTag client tag =>
    unfold ServiceState.step at taken
    dsimp only at taken
    split at taken
    · rename_i range left inserting
      obtain ⟨owed, same⟩ := Option.ite_none_right_eq_some.mp taken
      obtain rfl := Option.some.inj same
      exact bounded.insertTag client inserting owed
    · exact absurd taken nofun
  | step client =>
    obtain ⟨command, there, went⟩ := Option.bind_eq_some_iff.mp taken
    exact bounded.goOn there careful went

/-- What is below the counter is not handed out by the next insert. -/
theorem Bounded.freshly (bounded : state.Bounded) {action : ServiceAction}
    (careful : state.Careful action) : state.Freshly action := by
  cases action with
  | insert client n =>
    intro range reserved
    obtain ⟨rfl, -, fits⟩ := reserveTags_eq_some careful reserved
    refine ⟨fits, fun other member => ?_, fun tag isLive inRange => ?_⟩
    · refine Finset.disjoint_left.mpr fun number inRange inOther => ?_
      have past := (Finset.mem_Ico.mp inOther).2.trans_le (bounded.handed other member)
      exact Nat.not_le.mpr past (Finset.mem_Ico.mp inRange).1
    · exact Nat.not_le.mpr (bounded.live tag isLive) (Finset.mem_Ico.mp inRange).1
  | connect | deleteBaseRandom | deleteInserted | search | mergeNow | insertTag | step => trivial

/-- In every run whose sums do not wrap and whose merges find no live or reserved tag from
`num_points` on, every range that is handed out is fresh. -/
theorem handed_tags_are_fresh {start : ServiceState} (first : system.initial start)
    {actions : List ServiceAction} (careful : system.Along Careful start actions) :
    system.Along Freshly start actions := by
  obtain ⟨numPoints, rfl⟩ := first
  exact careful.imply Bounded
    (fun state action next bounded careful taken => bounded.step careful taken)
    (fun state action bounded careful => bounded.freshly careful) (bounded_init numPoints)

/-- An insert, a deletion of what it has inserted, a merge, and another insert. -/
theorem handed_tags_are_fresh_twice :
    system.Along Freshly (init 2) [.connect, .insert 0 1, .step 0, .insertTag 0 2, .step 0,
      .step 0, .deleteInserted 0 [2], .step 0, .step 0, .step 0, .mergeNow 0, .step 0, .step 0,
      .step 0, .step 0, .insert 0 1] :=
  handed_tags_are_fresh ⟨2, rfl⟩ (by decide +kernel)

/-- An insert, a merge, and another insert, which gets the tag of the first one. -/
theorem handed_tags_repeat :
    ¬ ∀ start, system.initial start → ∀ actions, system.Along Freshly start actions := by
  intro fresh
  have along := fresh (init 2) ⟨2, rfl⟩ [.connect, .insert 0 1, .step 0, .insertTag 0 2, .step 0,
    .step 0, .mergeNow 0, .step 0, .step 0, .step 0, .step 0, .insert 0 1]
  exact absurd along (by decide +kernel)

end ServiceState

end OdinVector
