/-
This file proves when ids and locations survive their storage in 32 bits over a run of
inserts and merges: while the counter of ids and the locations that are handed out stay
below `kAllocatedID`, and a merge finds `cur_loc` within 32 bits. The run with 32 bits is
then the run with numbers of any size.
-/

import OdinVector.Narrow.NarrowAllocation
import Mathlib.Data.List.Perm.Subperm
import Mathlib.Data.List.Zip

namespace OdinVector

/-! ### Inserts and merges -/

/-- The calls of a run. -/
inductive WideCall
  /-- `insert_in_place` with the neighbours that were left by pruning and the ids whose pages the
  search has read. -/
  | insert (newNhood seen : List Nat)
  /-- `merge_deletes` and `reload`. -/
  | merge (deleted : Nat → Bool)

/-- What an insert has assigned. -/
structure Inserted where
  targetId : Nat
  /-- The locations of the neighbours and of the target. -/
  locs : List Nat
  pqOffset : Nat
  deriving DecidableEq

/-- The loop of `insert_in_place` over the neighbours, with what is stored of a location, and
the old locations. `none` is the crash of `id2loc`. -/
def moveNeighbors (stored : Nat → Nat) :
    (Nat → Option Nat) → List (Nat × Nat) → Option ((Nat → Option Nat) × List Nat)
  | id2loc, [] => some (id2loc, [])
  | id2loc, (nbr, loc) :: rest =>
    (id2loc nbr).bind fun origLoc =>
      (moveNeighbors stored (Function.update id2loc nbr (some (stored loc))) rest).map
        fun result => (result.1, origLoc :: result.2)

/-- The pages of some ids. -/
def pagesOfIds (geometry : Geometry) (id2loc : Nat → Option Nat) (ids : List Nat) : List Nat :=
  ids.filterMap fun id => (id2loc id).map geometry.locSectorNo

/-- An index with the widths of the source. -/
@[ext] structure NarrowIndex where
  layout : NarrowLayout
  curId : Nat

/-- An index with numbers of any size. -/
structure WideIndex where
  layout : Layout
  curId : Nat

namespace NarrowIndex

variable (geometry : Geometry) (nChunks : Nat)

/-- `insert_in_place`, as far as it assigns. -/
def insert (index : NarrowIndex) (newNhood seen : List Nat) : Option (NarrowIndex × Inserted) :=
  let targetId := low32 index.curId
  let hints := pagesOfIds geometry index.layout.id2loc seen
  (index.layout.allocLoc geometry (newNhood.length + 1) hints).bind fun (layout, locs, _) =>
    (locs[newNhood.length]?).bind fun targetLoc =>
      (moveNeighbors low32
        (Function.update layout.id2loc targetId (some (low32 targetLoc)))
        (newNhood.zip locs)).map fun (id2loc, origLocs) =>
          (⟨({ layout with id2loc := id2loc } : NarrowLayout).eraseAndSetLoc geometry origLocs locs
              (newNhood ++ [targetId]), index.curId + 1⟩,
            ⟨targetId, locs, targetId * nChunks⟩)

/-- `reload` for so many points behind each other. -/
def renumbered (count : Nat) : NarrowLayout :=
  (List.range count).foldl (fun (current : NarrowLayout) i =>
    NarrowLayout.setLoc2id geometry
      { current with id2loc := Function.update current.id2loc (low32 i) (some (low32 i)) } i i)
        ⟨fun _ => none, fun _ => none, [], 0⟩

/-- The locations that `merge_deletes` keeps. -/
def live (index : NarrowIndex) (deleted : Nat → Bool) : List Nat :=
  (List.range index.layout.curLoc).filter fun loc =>
    let id := index.layout.loc2id geometry loc
    id ≠ NarrowLayout.kInvalidID ∧ id ≠ NarrowLayout.kAllocatedID ∧ deleted id = false

/-- `merge_deletes` and `reload`, as far as they assign. -/
def merge (index : NarrowIndex) (deleted : Nat → Bool) : NarrowIndex :=
  let count := (index.live geometry deleted).length
  ⟨{ renumbered geometry count with curLoc := Layout.alignedTail geometry count }, count⟩

end NarrowIndex

namespace WideIndex

variable (geometry : Geometry) (nChunks : Nat)

/-- The pages that the search of an insert has read. -/
def hintPages (index : WideIndex) (seen : List Nat) : List Nat :=
  pagesOfIds geometry index.layout.id2loc seen

/-- `insert_in_place` without overflow. -/
def insert (index : WideIndex) (newNhood seen : List Nat) : Option (WideIndex × Inserted) :=
  (index.layout.allocLoc geometry (newNhood.length + 1) (index.hintPages geometry seen)).bind
    fun (layout, locs, _) =>
      (locs[newNhood.length]?).bind fun targetLoc =>
        (moveNeighbors id (Function.update layout.id2loc index.curId (some targetLoc))
          (newNhood.zip locs)).map fun (id2loc, origLocs) =>
            (⟨({ layout with id2loc := id2loc } : Layout).eraseAndSetLoc geometry origLocs locs
                (newNhood ++ [index.curId]), index.curId + 1⟩,
              ⟨index.curId, locs, index.curId * nChunks⟩)

/-- The locations of the points that a merge keeps. -/
def live (index : WideIndex) (deleted : Nat → Bool) : List Nat :=
  (List.range index.layout.curLoc).filter fun loc =>
    match index.layout.loc2id geometry loc with
    | .real id => !deleted id
    | _ => false

/-- The maps for so many points behind each other. -/
def renumbered (count : Nat) : Layout :=
  (List.range count).foldl (fun (current : Layout) i =>
    Layout.setLoc2id geometry
      { current with id2loc := Function.update current.id2loc i (some i) } i (.real i))
        ⟨fun _ => none, fun _ => none, [], 0⟩

/-- `merge_deletes` and `reload` without overflow. -/
def merge (index : WideIndex) (deleted : Nat → Bool) : WideIndex :=
  let count := (index.live geometry deleted).length
  ⟨{ renumbered geometry count with curLoc := Layout.alignedTail geometry count }, count⟩

/-- An index as the source stores it. -/
def narrow (index : WideIndex) : NarrowIndex := ⟨index.layout.narrow, index.curId⟩

/-- An index whose maps are inverse to each other, with ids and locations that are small. -/
structure Sound (index : WideIndex) : Prop where
  consistent : index.layout.Consistent geometry
  fits : index.layout.Fits
  ids : ∀ id loc, index.layout.id2loc id = some loc → id < index.curId

/-- A call that the search can make: the neighbours of an insert are different points of the
index. -/
def Valid (index : WideIndex) : WideCall → Prop
  | .insert newNhood _ => newNhood.Nodup ∧ ∀ nbr ∈ newNhood, index.layout.id2loc nbr ≠ none
  | .merge _ => True

/-- A call that needs no number from `kAllocatedID` on: the counter of ids and the slots that are
handed out are below it, and a merge finds `cur_loc` within 32 bits. -/
def Small (index : WideIndex) : WideCall → Prop
  | .insert newNhood seen =>
    index.curId < NarrowLayout.kAllocatedID ∧
      ∀ result, index.layout.allocLoc geometry (newNhood.length + 1)
        (index.hintPages geometry seen) = some result →
          ∀ loc ∈ result.2.1, loc < NarrowLayout.kAllocatedID
  | .merge _ => index.layout.curLoc ≤ 2 ^ 32

/-- A run of which every call is valid and small. -/
def SmallRun : WideIndex → List WideCall → Prop
  | _, [] => True
  | index, .insert newNhood seen :: rest =>
    index.Valid (.insert newNhood seen) ∧ index.Small geometry (.insert newNhood seen) ∧
      ∀ next inserted, index.insert geometry nChunks newNhood seen = some (next, inserted) →
        SmallRun next rest
  | index, .merge deleted :: rest =>
    index.Small geometry (.merge deleted) ∧ SmallRun (index.merge geometry deleted) rest

end WideIndex

namespace NarrowIndex

variable (geometry : Geometry) (nChunks : Nat)

/-- An id and its location are stored and read back, and are no sentinels. -/
structure Stores (index : NarrowIndex) (id loc : Nat) : Prop where
  idSmall : id < NarrowLayout.kAllocatedID
  locSmall : loc < NarrowLayout.kAllocatedID
  mapped : index.layout.id2loc id = some loc
  owner : index.layout.loc2id geometry loc = id
  page : index.layout.id2page geometry id = some (geometry.locSectorNo loc)
  place : geometry.sectorToLoc (geometry.locSectorNo loc) (geometry.slotOf loc) = loc

/-- What is mapped is stored and read back, and the queue has pages. -/
structure Intact (index : NarrowIndex) : Prop where
  stores : ∀ id loc, index.layout.id2loc id = some loc → index.Stores geometry id loc
  queue : ∀ page ∈ index.layout.emptyPages, low32 page = page ∧ page ≠ NarrowLayout.kInvalidID

/-- In a run every insert stores the id of the counter and the locations that it was given, and
every merge numbers the points that are left. -/
def Survives : NarrowIndex → List WideCall → Prop
  | index, [] => index.Intact geometry
  | index, .insert newNhood seen :: rest =>
    index.Intact geometry ∧ ∃ next inserted,
      index.insert geometry nChunks newNhood seen = some (next, inserted) ∧
      inserted.targetId = index.curId ∧ inserted.pqOffset = index.curId * nChunks ∧
      inserted.locs.length = newNhood.length + 1 ∧
      (∀ pair ∈ (newNhood ++ [index.curId]).zip inserted.locs,
        next.Stores geometry pair.1 pair.2) ∧
      next.curId = index.curId + 1 ∧ Survives next rest
  | index, .merge deleted :: rest =>
    index.Intact geometry ∧
      (∀ id < (index.merge geometry deleted).curId,
        (index.merge geometry deleted).Stores geometry id id) ∧
      Survives (index.merge geometry deleted) rest

end NarrowIndex

/-! ### Moving the neighbours -/

theorem moveNeighbors_spec (stored : Nat → Nat) {id2loc : Nat → Option Nat}
    {pairs : List (Nat × Nat)} (distinct : (pairs.map Prod.fst).Nodup)
    (mapped : ∀ pair ∈ pairs, id2loc pair.1 ≠ none) :
    ∃ after origLocs, moveNeighbors stored id2loc pairs = some (after, origLocs) ∧
      (∀ pair ∈ pairs, after pair.1 = some (stored pair.2)) ∧
      (∀ id, id ∉ pairs.map Prod.fst → after id = id2loc id) ∧
      origLocs.map some = pairs.map fun pair => id2loc pair.1 := by
  induction pairs generalizing id2loc with
  | nil =>
    exact ⟨id2loc, [], rfl, fun pair none => absurd none List.not_mem_nil, fun _ _ => rfl, rfl⟩
  | cons pair rest inductionHypothesis =>
    obtain ⟨nbr, loc⟩ := pair
    rw [List.map_cons, List.nodup_cons] at distinct
    obtain ⟨absent, distinct⟩ := distinct
    have others {other : Nat × Nat} (member : other ∈ rest) : other.1 ≠ nbr :=
      fun same => absent (List.mem_map.mpr ⟨other, member, same⟩)
    obtain ⟨origLoc, found⟩ := Option.ne_none_iff_exists'.mp (mapped _ List.mem_cons_self)
    dsimp only at found
    have mappedRest : ∀ other ∈ rest,
        Function.update id2loc nbr (some (stored loc)) other.1 ≠ none := by
      intro other member
      rw [Function.update_of_ne (others member)]
      exact mapped other (List.mem_cons_of_mem _ member)
    obtain ⟨after, origLocs, moved, new, kept, old⟩ := inductionHypothesis distinct mappedRest
    refine ⟨after, origLoc :: origLocs, ?_, fun other member => ?_, fun id outside => ?_, ?_⟩
    · unfold moveNeighbors
      rw [found, Option.bind_some, moved, Option.map_some]
    · obtain rfl | later := List.mem_cons.mp member
      · rw [kept nbr absent, Function.update_self]
      · exact new other later
    · rw [List.map_cons, List.mem_cons, not_or] at outside
      rw [kept id outside.2, Function.update_of_ne outside.1]
    · rw [List.map_cons, List.map_cons, old, found]
      congr 1
      refine List.map_congr_left fun other member => ?_
      rw [Function.update_of_ne (others member)]

/-- The locations that are small are stored as they are. -/
theorem moveNeighbors_congr {stored : Nat → Nat} (id2loc : Nat → Option Nat)
    {pairs : List (Nat × Nat)} (same : ∀ pair ∈ pairs, stored pair.2 = pair.2) :
    moveNeighbors stored id2loc pairs = moveNeighbors id id2loc pairs := by
  induction pairs generalizing id2loc with
  | nil => rfl
  | cons pair rest inductionHypothesis =>
    obtain ⟨nbr, loc⟩ := pair
    have first : stored loc = loc := same (nbr, loc) List.mem_cons_self
    unfold moveNeighbors
    rw [first]
    refine congrArg _ (funext fun origLoc => congrArg _ ?_)
    exact inductionHypothesis _ fun other member => same other (List.mem_cons_of_mem _ member)

/-! ### An insert without overflow -/

namespace WideIndex

variable {geometry : Geometry} {nChunks : Nat} {index : WideIndex} {newNhood seen : List Nat}

/-- What an insert has computed before it calls `erase_and_set_loc`. -/
structure InsertState where
  /-- The layout that `alloc_loc` leaves. -/
  after : Layout
  /-- The slots of the neighbours. -/
  nbrLocs : List Nat
  targetLoc : Nat
  id2loc : Nat → Option Nat
  origLocs : List Nat

namespace InsertState

variable (state : InsertState)

/-- The slots that were handed out. -/
def locs : List Nat := state.nbrLocs ++ [state.targetLoc]

variable (geometry : Geometry) (index : WideIndex) (newNhood : List Nat)

/-- The layout after `erase_and_set_loc`. -/
def next : Layout :=
  ({ state.after with id2loc := state.id2loc } : Layout).eraseAndSetLoc geometry state.origLocs
    state.locs (newNhood ++ [index.curId])

end InsertState

/-- The state is that of an insert. -/
structure Inserting (geometry : Geometry) (index : WideIndex) (newNhood seen : List Nat)
    (state : InsertState) : Prop where
  allocated : ∃ needRead, index.layout.allocLoc geometry (newNhood.length + 1)
    (index.hintPages geometry seen) = some (state.after, state.locs, needRead)
  takes : ∃ needRead, Layout.Takes geometry index.layout state.after state.locs needRead
  length : state.nbrLocs.length = newNhood.length
  unmapped : index.layout.id2loc index.curId = none
  moved : moveNeighbors id
    (Function.update state.after.id2loc index.curId (some state.targetLoc))
      (newNhood.zip state.locs) = some (state.id2loc, state.origLocs)
  pairs : ∀ pair ∈ (newNhood ++ [index.curId]).zip state.locs,
    state.id2loc pair.1 = some pair.2
  others : ∀ other, other ∉ newNhood ++ [index.curId] →
    state.id2loc other = index.layout.id2loc other
  old : state.origLocs.map some = newNhood.map index.layout.id2loc

theorem exists_inserting (sound : index.Sound geometry) (distinct : newNhood.Nodup)
    (mapped : ∀ nbr ∈ newNhood, index.layout.id2loc nbr ≠ none) (seen : List Nat) :
    ∃ state, Inserting geometry index newNhood seen state := by
  obtain ⟨after, locs, needRead, allocated, length, takes⟩ :=
    Layout.allocLoc_spec sound.consistent.formed (Nat.succ_pos newNhood.length)
      (index.hintPages geometry seen)
  obtain rfl | ⟨nbrLocs, targetLoc, rfl⟩ := List.eq_nil_or_concat' locs
  · cases length
  rw [List.length_append, List.length_singleton] at length
  have count : nbrLocs.length = newNhood.length := Nat.succ.inj length
  have unmapped : index.layout.id2loc index.curId = none := by
    by_contra there
    obtain ⟨loc, found⟩ := Option.ne_none_iff_exists'.mp there
    exact Nat.lt_irrefl _ (sound.ids _ _ found)
  have fresh : index.curId ∉ newNhood := fun member => mapped _ member unmapped
  have zipped : newNhood.zip (nbrLocs ++ [targetLoc]) = newNhood.zip nbrLocs := by
    have whole := @List.zip_append _ _ newNhood [] nbrLocs [targetLoc] count.symm
    rwa [List.append_nil, List.zip_nil_left, List.append_nil] at whole
  have names : (newNhood.zip nbrLocs).map Prod.fst = newNhood :=
    List.map_fst_zip count.ge
  have assigned : ∀ pair ∈ newNhood.zip nbrLocs,
      Function.update after.id2loc index.curId (some targetLoc) pair.1 =
        index.layout.id2loc pair.1 := by
    intro pair member
    have nbr := (List.of_mem_zip member).1
    have other : pair.1 ≠ index.curId := fun same => fresh (same ▸ nbr)
    rw [Function.update_of_ne other, takes.id2loc]
  have mappedAfter : ∀ pair ∈ newNhood.zip nbrLocs,
      Function.update after.id2loc index.curId (some targetLoc) pair.1 ≠ none := by
    intro pair member
    rw [assigned pair member]
    exact mapped _ (List.of_mem_zip member).1
  obtain ⟨id2loc, origLocs, moved, new, kept, old⟩ :=
    moveNeighbors_spec id (names.symm ▸ distinct) mappedAfter
  rw [names] at kept
  refine ⟨⟨after, nbrLocs, targetLoc, id2loc, origLocs⟩, ⟨needRead, allocated⟩,
    ⟨needRead, takes⟩, count, unmapped, zipped.symm ▸ moved, fun pair member => ?_,
    fun other outside => ?_, ?_⟩
  · rw [InsertState.locs, List.zip_append count.symm] at member
    obtain nbr | target := List.mem_append.mp member
    · exact new pair nbr
    · obtain rfl := List.mem_singleton.mp target
      show id2loc index.curId = some targetLoc
      rw [kept _ fresh, Function.update_self]
  · rw [List.mem_append, not_or, List.mem_singleton] at outside
    show id2loc other = _
    rw [kept _ outside.1, Function.update_of_ne outside.2, takes.id2loc]
  · show origLocs.map some = _
    rw [old, List.map_congr_left assigned]
    conv_rhs => rw [← names, List.map_map]
    rfl

namespace Inserting

variable {state : InsertState}

theorem length_locs (inserting : Inserting geometry index newNhood seen state) :
    state.locs.length = newNhood.length + 1 := by
  rw [InsertState.locs, List.length_append, List.length_singleton, inserting.length]

theorem targetLoc_eq (inserting : Inserting geometry index newNhood seen state) :
    state.locs[newNhood.length]? = some state.targetLoc := by
  rw [← inserting.length]
  exact List.getElem?_concat_length

theorem insert_eq (inserting : Inserting geometry index newNhood seen state) :
    index.insert geometry nChunks newNhood seen =
      some (⟨state.next geometry index newNhood, index.curId + 1⟩,
        ⟨index.curId, state.locs, index.curId * nChunks⟩) := by
  obtain ⟨needRead, allocated⟩ := inserting.allocated
  unfold insert
  rw [allocated, Option.bind_some]
  dsimp only
  rw [inserting.targetLoc_eq, Option.bind_some, inserting.moved]
  rfl

theorem mem_origLocs (inserting : Inserting geometry index newNhood seen state) {loc : Nat} :
    loc ∈ state.origLocs ↔ ∃ nbr ∈ newNhood, index.layout.id2loc nbr = some loc := by
  have same : some loc ∈ state.origLocs.map some ↔ some loc ∈ newNhood.map index.layout.id2loc :=
    iff_of_eq (congrArg _ inserting.old)
  rw [List.mem_map, List.mem_map] at same
  refine Iff.trans ⟨fun member => ⟨loc, member, rfl⟩, fun ⟨other, member, found⟩ => ?_⟩ same
  exact Option.some.inj found ▸ member

theorem origLocs_nodup (inserting : Inserting geometry index newNhood seen state)
    (sound : index.Sound geometry) (distinct : newNhood.Nodup)
    (mapped : ∀ nbr ∈ newNhood, index.layout.id2loc nbr ≠ none) : state.origLocs.Nodup := by
  refine List.Nodup.of_map some (inserting.old ▸ ?_)
  refine distinct.map_on fun first member second _ same => ?_
  obtain ⟨loc, found⟩ := Option.ne_none_iff_exists'.mp (mapped first member)
  have firstOwner := (sound.consistent.bijective first loc).mp found
  have secondOwner := (sound.consistent.bijective second loc).mp (same ▸ found)
  exact SlotId.real.inj (firstOwner.symm.trans secondOwner)

/-- The old locations have their neighbours. -/
theorem owner_of_mem_origLocs (inserting : Inserting geometry index newNhood seen state)
    (sound : index.Sound geometry) {loc : Nat} (old : loc ∈ state.origLocs) :
    ∃ nbr ∈ newNhood, index.layout.loc2id geometry loc = .real nbr := by
  obtain ⟨nbr, member, found⟩ := inserting.mem_origLocs.mp old
  exact ⟨nbr, member, (sound.consistent.bijective nbr loc).mp found⟩

/-- The slots after the insert. -/
theorem next_spec (inserting : Inserting geometry index newNhood seen state)
    (sound : index.Sound geometry) (distinct : newNhood.Nodup)
    (mapped : ∀ nbr ∈ newNhood, index.layout.id2loc nbr ≠ none) :
    (state.next geometry index newNhood).WellFormed geometry ∧
      (state.next geometry index newNhood).id2loc = state.id2loc ∧
      (∀ pair ∈ state.locs.zip (newNhood ++ [index.curId]),
        (state.next geometry index newNhood).loc2id geometry pair.1 = .real pair.2) ∧
      (∀ loc ∈ state.origLocs,
        (state.next geometry index newNhood).loc2id geometry loc = .kInvalidID) ∧
      ∀ loc ∉ state.locs, loc ∉ state.origLocs →
        (state.next geometry index newNhood).loc2id geometry loc =
          index.layout.loc2id geometry loc := by
  obtain ⟨needRead, takes⟩ := inserting.takes
  have apart : ∀ loc ∈ state.origLocs, loc ∉ state.locs := by
    intro loc old new
    obtain ⟨nbr, _, owner⟩ := inserting.owner_of_mem_origLocs sound old
    rw [takes.free loc new] at owner
    cases owner
  have taken (loc : Nat) :
      ({ state.after with id2loc := state.id2loc } : Layout).loc2id geometry loc =
        if loc ∈ state.locs then .kAllocatedID else index.layout.loc2id geometry loc :=
    takes.taken loc
  obtain ⟨formed, id2loc, -, new, erased, kept⟩ := @Layout.eraseAndSetLoc_spec geometry
    { state.after with id2loc := state.id2loc } state.origLocs state.locs
    (newNhood ++ [index.curId])
    ⟨takes.formed.aligned, takes.formed.below, takes.formed.queueNodup, takes.formed.queueEmpty⟩
    (by rw [inserting.length_locs, List.length_append, List.length_singleton])
    takes.distinct (inserting.origLocs_nodup sound distinct mapped) apart
    (fun loc member => by rw [taken, if_pos member]; exact SlotId.noConfusion)
    (fun loc old => by
      obtain ⟨nbr, _, owner⟩ := inserting.owner_of_mem_origLocs sound old
      rw [taken, if_neg (apart loc old), owner]
      exact SlotId.noConfusion)
  refine ⟨formed, id2loc, new, erased, fun loc fresh stays => ?_⟩
  exact (kept loc fresh stays).trans ((taken loc).trans (if_neg fresh))

/-- Every slot that was handed out has an id, and every id that was inserted a slot. -/
theorem mem_locs (inserting : Inserting geometry index newNhood seen state) {loc : Nat}
    (new : loc ∈ state.locs) : ∃ id, (id, loc) ∈ (newNhood ++ [index.curId]).zip state.locs := by
  have lengths : state.locs.length ≤ (newNhood ++ [index.curId]).length := by
    rw [inserting.length_locs, List.length_append, List.length_singleton]
  rw [← List.map_snd_zip lengths] at new
  obtain ⟨⟨id, _⟩, member, rfl⟩ := List.mem_map.mp new
  exact ⟨id, member⟩

theorem mem_ids (inserting : Inserting geometry index newNhood seen state) {id : Nat}
    (new : id ∈ newNhood ++ [index.curId]) :
    ∃ loc, (id, loc) ∈ (newNhood ++ [index.curId]).zip state.locs := by
  have lengths : (newNhood ++ [index.curId]).length ≤ state.locs.length := by
    rw [inserting.length_locs, List.length_append, List.length_singleton]
  rw [← List.map_fst_zip lengths] at new
  obtain ⟨⟨_, loc⟩, member, rfl⟩ := List.mem_map.mp new
  exact ⟨loc, member⟩

theorem consistent (inserting : Inserting geometry index newNhood seen state)
    (sound : index.Sound geometry) (distinct : newNhood.Nodup)
    (mapped : ∀ nbr ∈ newNhood, index.layout.id2loc nbr ≠ none) :
    (state.next geometry index newNhood).Consistent geometry := by
  obtain ⟨formed, id2loc, new, erased, kept⟩ := inserting.next_spec sound distinct mapped
  obtain ⟨needRead, takes⟩ := inserting.takes
  have assigned {id loc : Nat} (member : (id, loc) ∈ (newNhood ++ [index.curId]).zip state.locs) :
      (state.next geometry index newNhood).id2loc id = some loc ∧
        (state.next geometry index newNhood).loc2id geometry loc = .real id := by
    have swapped : (loc, id) ∈ state.locs.zip (newNhood ++ [index.curId]) := by
      rw [← List.zip_swap]
      exact List.mem_map_of_mem member
    exact ⟨id2loc ▸ inserting.pairs _ member, new _ swapped⟩
  refine ⟨formed, fun id loc => ⟨fun found => ?_, fun owner => ?_⟩, fun loc => ?_⟩
  · by_cases inserted : id ∈ newNhood ++ [index.curId]
    · obtain ⟨place, member⟩ := inserting.mem_ids inserted
      have same := (assigned member).1.symm.trans found
      exact Option.some.inj same ▸ (assigned member).2
    · rw [id2loc, inserting.others id inserted] at found
      have owner := (sound.consistent.bijective id loc).mp found
      have outside : loc ∉ state.locs := by
        intro handed
        rw [takes.free loc handed] at owner
        cases owner
      have stays : loc ∉ state.origLocs := by
        intro old
        obtain ⟨nbr, member, other⟩ := inserting.owner_of_mem_origLocs sound old
        obtain rfl := SlotId.real.inj (other.symm.trans owner)
        exact inserted (List.mem_append_left _ member)
      exact (kept loc outside stays).trans owner
  · by_cases handed : loc ∈ state.locs
    · obtain ⟨holder, member⟩ := inserting.mem_locs handed
      obtain rfl := SlotId.real.inj ((assigned member).2.symm.trans owner)
      exact (assigned member).1
    · have stays : loc ∉ state.origLocs := by
        intro old
        rw [erased loc old] at owner
        cases owner
      rw [kept loc handed stays] at owner
      have found := (sound.consistent.bijective id loc).mpr owner
      have outside : id ∉ newNhood ++ [index.curId] := by
        intro inserted
        obtain nbr | target := List.mem_append.mp inserted
        · exact stays (inserting.mem_origLocs.mpr ⟨id, nbr, found⟩)
        · rw [List.mem_singleton.mp target, inserting.unmapped] at found
          cases found
      rw [id2loc, inserting.others id outside]
      exact found
  · intro allocated
    by_cases handed : loc ∈ state.locs
    · obtain ⟨holder, member⟩ := inserting.mem_locs handed
      rw [(assigned member).2] at allocated
      cases allocated
    · by_cases old : loc ∈ state.origLocs
      · rw [erased loc old] at allocated
        cases allocated
      · exact sound.consistent.unallocated loc ((kept loc handed old).symm.trans allocated)

/-- The slots that an insert is given are small. -/
theorem locs_small (inserting : Inserting geometry index newNhood seen state)
    (small : index.Small geometry (.insert newNhood seen)) :
    ∀ loc ∈ state.locs, loc < NarrowLayout.kAllocatedID := by
  obtain ⟨needRead, allocated⟩ := inserting.allocated
  exact small.2 _ allocated

theorem ids_small (sound : index.Sound geometry)
    (mapped : ∀ nbr ∈ newNhood, index.layout.id2loc nbr ≠ none) :
    ∀ id ∈ newNhood ++ [index.curId], id < index.curId + 1 := by
  intro id inserted
  obtain nbr | target := List.mem_append.mp inserted
  · obtain ⟨loc, found⟩ := Option.ne_none_iff_exists'.mp (mapped id nbr)
    exact (sound.ids id loc found).trans (Nat.lt_succ_self _)
  · rw [List.mem_singleton.mp target]
    exact Nat.lt_succ_self _

/-- The locations that the insert assigns, small as those before. -/
theorem id2loc_small (inserting : Inserting geometry index newNhood seen state)
    (sound : index.Sound geometry) (small : index.Small geometry (.insert newNhood seen))
    (mapped : ∀ nbr ∈ newNhood, index.layout.id2loc nbr ≠ none) {id loc : Nat}
    (found : state.id2loc id = some loc) :
    id < index.curId + 1 ∧ id < NarrowLayout.kAllocatedID ∧ loc < NarrowLayout.kAllocatedID := by
  by_cases inserted : id ∈ newNhood ++ [index.curId]
  · obtain ⟨place, member⟩ := inserting.mem_ids inserted
    obtain rfl := Option.some.inj ((inserting.pairs _ member).symm.trans found)
    have below := ids_small sound mapped id inserted
    exact ⟨below, (Nat.le_of_lt_succ below).trans_lt small.1,
      inserting.locs_small small _ (List.of_mem_zip member).2⟩
  · rw [inserting.others id inserted] at found
    exact ⟨(sound.ids id loc found).trans (Nat.lt_succ_self _), sound.fits.ids id loc found⟩

/-- An insert with 32 bits is the insert without overflow, when its numbers are small. -/
theorem narrow_insert (nChunks : Nat) (inserting : Inserting geometry index newNhood seen state)
    (sound : index.Sound geometry) (small : index.Small geometry (.insert newNhood seen))
    (mapped : ∀ nbr ∈ newNhood, index.layout.id2loc nbr ≠ none) :
    index.narrow.insert geometry nChunks newNhood seen =
        some ((⟨state.next geometry index newNhood, index.curId + 1⟩ : WideIndex).narrow,
          ⟨index.curId, state.locs, index.curId * nChunks⟩) ∧
      (state.next geometry index newNhood).Fits := by
  have locsSmall := inserting.locs_small small
  obtain ⟨needRead, allocated⟩ := inserting.allocated
  have hintsSmall : ∀ page ∈ index.hintPages geometry seen, page < 2 ^ 32 := by
    intro page member
    obtain ⟨id, _, found⟩ := List.mem_filterMap.mp member
    obtain ⟨loc, mappedTo, rfl⟩ := Option.map_eq_some_iff.mp found
    exact (locSectorNo_lt (sound.fits.ids id loc mappedTo).2).trans (by decide)
  obtain ⟨allocates, fitsAfter⟩ := Layout.allocLoc_narrow (newNhood.length + 1) hintsSmall
    sound.fits small.2
  have fits := fitsAfter _ allocated
  rw [allocated, Option.map_some] at allocates
  have targetSmall : low32 state.targetLoc = state.targetLoc :=
    low32_of_lt_kAllocatedID (locsSmall _ (List.mem_append_right _ List.mem_cons_self))
  have moved : moveNeighbors low32
      (Function.update state.after.narrow.id2loc index.curId (some state.targetLoc))
        (newNhood.zip state.locs) = some (state.id2loc, state.origLocs) :=
    (moveNeighbors_congr _ fun pair member =>
      low32_of_lt_kAllocatedID (locsSmall _ (List.of_mem_zip member).2)).trans inserting.moved
  have fitsMoved : ({ state.after with id2loc := state.id2loc } : Layout).Fits :=
    ⟨fits.pages, fits.slots,
      fun id loc found => (inserting.id2loc_small sound small mapped found).2, fits.queue⟩
  have oldSmall : ∀ loc ∈ state.origLocs, loc < NarrowLayout.kAllocatedID := by
    intro loc old
    obtain ⟨nbr, _, found⟩ := inserting.mem_origLocs.mp old
    exact (sound.fits.ids nbr loc found).2
  have idsSmall : ∀ id ∈ newNhood ++ [index.curId], id < NarrowLayout.kAllocatedID :=
    fun id member => (Nat.le_of_lt_succ (ids_small sound mapped id member)).trans_lt small.1
  obtain ⟨stores, fitsNext⟩ := @Layout.eraseAndSetLoc_narrow geometry _ _ _ _ fitsMoved
    oldSmall locsSmall idsSmall
  refine ⟨?_, fitsNext⟩
  unfold NarrowIndex.insert
  dsimp only
  rw [show index.narrow.layout.allocLoc geometry (newNhood.length + 1)
    (pagesOfIds geometry index.narrow.layout.id2loc seen) = _ from allocates, Option.bind_some]
  dsimp only
  rw [show index.narrow.curId = index.curId from rfl, low32_of_lt_kAllocatedID small.1,
    inserting.targetLoc_eq, Option.bind_some, targetSmall, moved, Option.map_some]
  exact congrArg (fun layout : NarrowLayout => some ((⟨layout, index.curId + 1⟩ : NarrowIndex),
    (⟨index.curId, state.locs, index.curId * nChunks⟩ : Inserted))) stores

/-- The index after the insert is as sound as the one before. -/
theorem sound_next (inserting : Inserting geometry index newNhood seen state)
    (sound : index.Sound geometry) (small : index.Small geometry (.insert newNhood seen))
    (distinct : newNhood.Nodup) (mapped : ∀ nbr ∈ newNhood, index.layout.id2loc nbr ≠ none) :
    (⟨state.next geometry index newNhood, index.curId + 1⟩ : WideIndex).Sound geometry where
  consistent := inserting.consistent sound distinct mapped
  fits := (narrow_insert 0 inserting sound small mapped).2
  ids id loc found := by
    have id2loc := (inserting.next_spec sound distinct mapped).2.1
    exact (inserting.id2loc_small sound small mapped (id2loc ▸ found)).1

end Inserting

/-! ### A merge without overflow -/

/-- The maps that `reload` builds. -/
theorem renumbered_spec (geometry : Geometry) (count : Nat) :
    (∀ loc, (renumbered geometry count).loc2id geometry loc =
      if loc < count then .real loc else .kInvalidID) ∧
    (∀ id, (renumbered geometry count).id2loc id = if id < count then some id else none) ∧
    (renumbered geometry count).emptyPages = [] ∧
    ∀ page slots, (renumbered geometry count).pageLayout page = some slots →
      ∃ loc < count, page = geometry.locSectorNo loc := by
  induction count with
  | zero =>
    exact ⟨fun _ => rfl, fun _ => rfl, rfl, fun page slots stored => by cases stored⟩
  | succ count inductionHypothesis =>
    obtain ⟨owners, locs, queue, pages⟩ := inductionHypothesis
    have step : renumbered geometry (count + 1) =
        Layout.setLoc2id geometry { renumbered geometry count with
          id2loc := Function.update (renumbered geometry count).id2loc count (some count) }
            count (.real count) := by
      unfold renumbered
      rw [List.range_succ, List.foldl_append, List.foldl_cons, List.foldl_nil]
    rw [step]
    refine ⟨fun loc => ?_, fun id => ?_, queue, fun page slots stored => ?_⟩
    · rw [Layout.loc2id_setLoc2id]
      by_cases last : loc = count
      · rw [if_pos last, last, if_pos (Nat.lt_succ_self count)]
      · rw [if_neg last]
        refine (owners loc).trans (if_congr ?_ rfl rfl)
        omega
    · show Function.update (renumbered geometry count).id2loc count (some count) id = _
      by_cases last : id = count
      · rw [last, Function.update_self, if_pos (Nat.lt_succ_self count)]
      · rw [Function.update_of_ne last]
        refine (locs id).trans (if_congr ?_ rfl rfl)
        omega
    · obtain here | before := Layout.setLoc2id_pageLayout stored
      · exact ⟨count, Nat.lt_succ_self count, here⟩
      · obtain ⟨loc, below, same⟩ := pages page slots before
        exact ⟨loc, below.trans (Nat.lt_succ_self count), same⟩

/-- `reload` with 32 bits, for points that 32 bits can number. -/
theorem renumbered_narrow {count : Nat} (small : count ≤ NarrowLayout.kAllocatedID) :
    NarrowIndex.renumbered geometry count = (renumbered geometry count).narrow ∧
      (renumbered geometry count).Fits := by
  induction count with
  | zero =>
    refine ⟨rfl, fun page slots stored => ?_, fun page slots stored => ?_,
      fun id loc found => ?_, fun page queued => absurd queued List.not_mem_nil⟩
    · cases stored
    · cases stored
    · cases found
  | succ count inductionHypothesis =>
    obtain ⟨same, fits⟩ := inductionHypothesis ((Nat.le_succ count).trans small)
    have below : count < NarrowLayout.kAllocatedID := small
    have assigned : ({ renumbered geometry count with
        id2loc := Function.update (renumbered geometry count).id2loc count (some count) } :
          Layout).Fits := by
      refine ⟨fits.pages, fits.slots, fun id loc found => ?_, fits.queue⟩
      dsimp only at found
      by_cases last : id = count
      · rw [last, Function.update_self] at found
        rw [last, ← Option.some.inj found]
        exact ⟨below, below⟩
      · rw [Function.update_of_ne last] at found
        exact fits.ids id loc found
    have narrowed := @Layout.setLoc2id_narrow geometry ({ renumbered geometry count with
      id2loc := Function.update (renumbered geometry count).id2loc count (some count) } : Layout)
        _ below (.real count)
    have written := @Layout.Fits.setLoc2id geometry _ assigned _ below (.real count)
      fun number held => SlotId.real.inj held ▸ below
    unfold NarrowIndex.renumbered at same ⊢
    unfold renumbered at same written narrowed ⊢
    rw [List.range_succ, List.foldl_append, List.foldl_append, same]
    refine ⟨?_, written⟩
    rw [List.foldl_cons, List.foldl_nil, List.foldl_cons, List.foldl_nil, ← narrowed]
    show NarrowLayout.setLoc2id geometry _ count count = NarrowLayout.setLoc2id geometry _ count
      (low32 count)
    rw [low32_of_lt_kAllocatedID below]
    rfl

/-- The locations that a merge keeps have ids. -/
theorem mem_live {deleted : Nat → Bool} {loc : Nat} (kept : loc ∈ index.live geometry deleted) :
    ∃ id, index.layout.loc2id geometry loc = .real id := by
  have owned := (List.mem_filter.mp kept).2
  cases owner : index.layout.loc2id geometry loc with
  | kInvalidID =>
    rw [owner] at owned
    cases owned
  | kAllocatedID =>
    rw [owner] at owned
    cases owned
  | real id => exact ⟨id, rfl⟩

/-- 32 bits can number the points that are left. -/
theorem length_live_le (sound : index.Sound geometry) (deleted : Nat → Bool) :
    (index.live geometry deleted).length ≤ NarrowLayout.kAllocatedID := by
  have distinct : (index.live geometry deleted).Nodup := List.nodup_range.filter _
  have inside : index.live geometry deleted ⊆ List.range NarrowLayout.kAllocatedID := by
    intro loc kept
    obtain ⟨id, owner⟩ := mem_live kept
    exact List.mem_range.mpr
      (sound.fits.ids id loc ((sound.consistent.bijective id loc).mpr owner)).2
  have shorter := (distinct.subperm inside).length_le
  rwa [List.length_range] at shorter

/-- A merge with 32 bits keeps the same points, when `cur_loc` is within them. -/
theorem live_narrow (sound : index.Sound geometry) {deleted : Nat → Bool}
    (small : index.Small geometry (.merge deleted)) :
    index.narrow.live geometry deleted = index.live geometry deleted := by
  refine List.filter_congr fun loc inside => ?_
  have below : loc < 2 ^ 32 := (List.mem_range.mp inside).trans_le small
  dsimp only
  rw [show index.narrow.layout.loc2id geometry loc = _ from
    Layout.loc2id_narrow sound.fits below]
  cases owner : index.layout.loc2id geometry loc with
  | kInvalidID => exact decide_eq_false fun kept => kept.1 rfl
  | kAllocatedID => exact decide_eq_false fun kept => kept.2.1 rfl
  | real id =>
    have idSmall := (sound.fits.ids id loc ((sound.consistent.bijective id loc).mpr owner)).1
    have real : (SlotId.real id).narrow = id := low32_of_lt_kAllocatedID idSmall
    have noHole : id ≠ NarrowLayout.kInvalidID := (idSmall.trans (by decide)).ne
    rw [real]
    dsimp only
    cases gone : deleted id with
    | true => exact decide_eq_false fun kept => by cases kept.2.2
    | false => exact decide_eq_true ⟨noHole, idSmall.ne, rfl⟩

/-- A merge with 32 bits is the merge without overflow. -/
theorem merge_narrow (sound : index.Sound geometry) {deleted : Nat → Bool}
    (small : index.Small geometry (.merge deleted)) :
    index.narrow.merge geometry deleted = (index.merge geometry deleted).narrow := by
  have maps := (@renumbered_narrow geometry _ (length_live_le sound deleted)).1
  unfold NarrowIndex.merge
  dsimp only
  rw [live_narrow sound small, maps]
  rfl

/-- The index after a merge is sound. -/
theorem sound_merge (sound : index.Sound geometry) (deleted : Nat → Bool) :
    (index.merge geometry deleted).Sound geometry := by
  have fits := (@renumbered_narrow geometry _ (length_live_le sound deleted)).2
  have above := Layout.le_alignedTail geometry (index.live geometry deleted).length
  have aligned := Layout.alignedTail_dvd geometry (index.live geometry deleted).length
  obtain ⟨owners, locs, queue, pages⟩ :=
    renumbered_spec geometry (index.live geometry deleted).length
  refine ⟨⟨⟨aligned, fun page slots stored => ?_, ?_, fun page queued => ?_⟩,
    fun id loc => ?_, fun loc => ?_⟩, ⟨fits.pages, fits.slots, fits.ids, fits.queue⟩,
    fun id loc found => ?_⟩
  · obtain ⟨loc, below, rfl⟩ := pages page slots stored
    exact ⟨geometry.locSectorNo_pos loc,
      Geometry.locSectorNo_le_of_lt aligned (below.trans_le above)⟩
  · exact queue ▸ List.nodup_nil
  · rw [show (index.merge geometry deleted).layout.emptyPages = [] from queue] at queued
    cases queued
  · show (renumbered geometry _).id2loc id = some loc ↔
      (renumbered geometry _).loc2id geometry loc = .real id
    rw [locs, owners]
    by_cases below : id < (index.live geometry deleted).length
    · rw [if_pos below]
      refine ⟨fun same => ?_, fun same => ?_⟩
      · rw [← Option.some.inj same, if_pos below]
      · split at same
        · rw [SlotId.real.inj same]
        · cases same
    · rw [if_neg below]
      refine ⟨fun same => absurd same.symm (Option.some_ne_none loc), fun same => ?_⟩
      split at same
      · rename_i inside
        exact absurd (SlotId.real.inj same ▸ inside) below
      · cases same
  · show (renumbered geometry _).loc2id geometry loc ≠ _
    rw [owners]
    split <;> exact SlotId.noConfusion
  · have number := (locs id).symm.trans found
    rw [Option.ite_none_right_eq_some] at number
    exact number.1

/-- Every point after a merge is numbered by its location. -/
theorem id2loc_merge {deleted : Nat → Bool} {id : Nat}
    (below : id < (index.merge geometry deleted).curId) :
    (index.merge geometry deleted).layout.id2loc id = some id :=
  ((renumbered_spec geometry _).2.1 id).trans (if_pos below)

/-! ### A run -/

/-- What a sound index maps is stored with 32 bits and read back. -/
theorem Sound.stores (sound : index.Sound geometry) {id loc : Nat}
    (found : index.layout.id2loc id = some loc) : index.narrow.Stores geometry id loc := by
  obtain ⟨idSmall, locSmall⟩ := sound.fits.ids id loc found
  have noHole : loc ≠ NarrowLayout.kInvalidID := (locSmall.trans (by decide)).ne
  refine ⟨idSmall, locSmall, found, ?_, ?_, geometry.sectorToLoc_locSectorNo loc⟩
  · rw [show index.narrow.layout.loc2id geometry loc = _ from
      Layout.loc2id_narrow sound.fits (locSmall.trans (by decide)),
      (sound.consistent.bijective id loc).mp found]
    exact low32_of_lt_kAllocatedID idSmall
  · unfold NarrowLayout.id2page
    rw [show index.narrow.layout.id2loc id = some loc from found, Option.map_some, if_neg noHole]

theorem Sound.intact (sound : index.Sound geometry) : index.narrow.Intact geometry where
  stores _ _ found := sound.stores found
  queue page queued := ⟨low32_of_lt_kInvalidID (sound.fits.queue page queued),
    (sound.fits.queue page queued).ne⟩

/-- An index that is loaded without a partition file is sound, when 32 bits can number its
points. -/
theorem loadIdentity_sound (geometry : Geometry) {numPoints : Nat}
    (small : numPoints ≤ NarrowLayout.kAllocatedID) :
    (⟨Layout.loadIdentity geometry numPoints, numPoints⟩ : WideIndex).Sound geometry := by
  have consistent := @Layout.loadIdentity_consistent geometry numPoints
  have mapped {id loc : Nat}
      (found : (Layout.loadIdentity geometry numPoints).id2loc id = some loc) :
      id < numPoints ∧ loc < numPoints := by
    unfold Layout.loadIdentity at found
    rw [Option.ite_none_right_eq_some] at found
    exact ⟨found.1, Option.some.inj found.2 ▸ found.1⟩
  refine ⟨consistent, ⟨fun page slots stored => ?_, fun page slots stored slot id held => ?_,
    fun id loc found => ?_, fun page queued => absurd queued List.not_mem_nil⟩,
    fun id loc found => (mapped found).1⟩
  · unfold Layout.loadIdentity at stored
    rw [Option.ite_none_right_eq_some, geometry.locSectorNo_zero] at stored
    have sectors : (numPoints + geometry.nnodesPerSector - 1) / geometry.nnodesPerSector ≤
        numPoints := by
      have positive := geometry.nnodesPerSector_pos
      have product := Nat.le_mul_of_pos_right numPoints positive
      refine Nat.le_of_lt_succ ((Nat.div_lt_iff_lt_mul positive).mpr ?_)
      rw [Nat.succ_mul]
      omega
    refine ⟨stored.1.1, stored.1.2.trans_le ?_⟩
    unfold NarrowLayout.kAllocatedID at small
    unfold NarrowLayout.kInvalidID
    omega
  · unfold Layout.loadIdentity at stored
    rw [Option.ite_none_right_eq_some] at stored
    obtain ⟨-, same⟩ := stored
    rw [← Option.some.inj same] at held
    dsimp only at held
    split at held
    · rename_i inside
      exact (SlotId.real.inj held ▸ inside.2).trans_le small
    · cases held
  · exact ⟨(mapped found).1.trans_le small, (mapped found).2.trans_le small⟩

/-- From a sound index on, ids and locations survive every run whose numbers are small. -/
theorem survives (sound : index.Sound geometry) {calls : List WideCall}
    (run : index.SmallRun geometry nChunks calls) :
    index.narrow.Survives geometry nChunks calls := by
  induction calls generalizing index with
  | nil => exact sound.intact
  | cons first rest inductionHypothesis =>
    cases first with
    | insert newNhood seen =>
      obtain ⟨⟨distinct, mapped⟩, small, later⟩ := run
      obtain ⟨state, inserting⟩ := exists_inserting sound distinct mapped seen
      have soundNext := inserting.sound_next sound small distinct mapped
      have id2loc := (inserting.next_spec sound distinct mapped).2.1
      refine ⟨sound.intact, _, _, (inserting.narrow_insert nChunks sound small mapped).1, rfl, rfl,
        inserting.length_locs, fun pair member => ?_, rfl,
        inductionHypothesis soundNext (later _ _ inserting.insert_eq)⟩
      exact soundNext.stores ((congrFun id2loc pair.1).trans (inserting.pairs pair member))
    | merge deleted =>
      obtain ⟨small, later⟩ := run
      have soundNext := sound_merge sound deleted
      have after := inductionHypothesis soundNext later
      unfold NarrowIndex.Survives
      rw [merge_narrow sound small]
      exact ⟨sound.intact, fun id below => soundNext.stores (id2loc_merge below), after⟩

/-- Two records in a sector. -/
def twoPerSector : Geometry := ⟨2, Nat.two_pos⟩

/-- Three points, an insert that moves the first of them, and a merge without it. -/
theorem survives_three : (⟨Layout.loadIdentity twoPerSector 3, 3⟩ : WideIndex).narrow.Survives
    twoPerSector 8 [.insert [0] [0, 2], .merge fun id => id = 0] := by
  refine survives (loadIdentity_sound twoPerSector (by decide))
    ⟨⟨List.nodup_singleton 0, fun nbr member => ?_⟩, ⟨by decide, fun result found loc member => ?_⟩,
      fun next inserted found => ⟨?_, trivial⟩⟩
  · rw [List.mem_singleton.mp member]
    exact Option.some_ne_none 0
  · have locs := (congrArg (Option.map fun result => result.2.1) found).symm
    rw [Option.map_some, show Option.map _ _ = some [3, 4] from rfl] at locs
    rw [Option.some.inj locs] at member
    revert member
    revert loc
    decide
  · have tail := (congrArg (Option.map fun result => result.1.layout.curLoc) found).symm
    rw [Option.map_some, show Option.map _ _ = some 6 from rfl] at tail
    show next.layout.curLoc ≤ 2 ^ 32
    rw [Option.some.inj tail]
    decide

/-- With `kAllocatedID` points the next insert takes `kAllocatedID` as its id: the slot of the new
record reads as one that is only handed out. -/
theorem insert_kAllocatedID : ∃ next inserted,
    (⟨Layout.loadIdentity twoPerSector NarrowLayout.kAllocatedID, NarrowLayout.kAllocatedID⟩ :
      WideIndex).narrow.insert twoPerSector 8 [] [] = some (next, inserted) ∧
    inserted = ⟨NarrowLayout.kAllocatedID, [NarrowLayout.kAllocatedID],
      NarrowLayout.kAllocatedID * 8⟩ ∧
    next.layout.loc2id twoPerSector NarrowLayout.kAllocatedID = NarrowLayout.kAllocatedID ∧
    ¬ next.Intact twoPerSector := by
  refine ⟨_, _, rfl, rfl, rfl, fun intact => ?_⟩
  exact (intact.stores NarrowLayout.kAllocatedID NarrowLayout.kAllocatedID rfl).idSmall.ne rfl

end WideIndex

end OdinVector
