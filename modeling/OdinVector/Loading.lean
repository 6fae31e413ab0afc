/-
This file proves what `load_page_layout` builds: a well-formed layout in which
ids and locations are in one-to-one correspondence, for the identity layout and
for a partition file whose pages are disjoint, cover the ids of the index and pad
the unused entries with `kInvalidID`.
-/

import OdinVector.Allocation

namespace OdinVector

namespace Layout

variable (geometry : Geometry)

/-- No slot is handed out, and the maps between ids and locations are inverse to each other. -/
structure Consistent (layout : Layout) : Prop where
  formed : layout.WellFormed geometry
  bijective : ∀ id loc, layout.id2loc id = some loc ↔ layout.loc2id geometry loc = .real id
  unallocated : ∀ loc, layout.loc2id geometry loc ≠ .kAllocatedID

/-- What the source expects of a partition file. -/
structure Covers (pages : List PartitionPage) (numPoints : Nat) : Prop where
  used_le : ∀ page ∈ pages, page.used ≤ geometry.nnodesPerSector
  entries : ∀ page ∈ pages, ∀ slot < page.used, ∃ id < numPoints, page.slots slot = .real id
  padded : ∀ page ∈ pages, ∀ slot, page.used ≤ slot → page.slots slot = .kInvalidID
  disjoint : ∀ first ∈ pages.zipIdx, ∀ second ∈ pages.zipIdx, ∀ slot < first.1.used,
    ∀ other < second.1.used, first.1.slots slot = second.1.slots other →
      first.2 = second.2 ∧ slot = other
  covered : ∀ id < numPoints, ∃ page ∈ pages, ∃ slot < page.used, page.slots slot = .real id

variable {geometry}

/-! ### The identity layout -/

theorem loc2id_loadIdentity (numPoints loc : Nat) :
    (loadIdentity geometry numPoints).loc2id geometry loc =
      if loc < numPoints then .real loc else .kInvalidID := by
  have number : (geometry.locSectorNo loc - geometry.locSectorNo 0) * geometry.nnodesPerSector +
      geometry.slotOf loc = loc := by
    rw [geometry.locSectorNo_zero]
    exact geometry.sectorToLoc_locSectorNo loc
  have here : geometry.locSectorNo 0 ≤ geometry.locSectorNo loc :=
    geometry.locSectorNo_zero ▸ geometry.locSectorNo_pos loc
  rw [loc2id, loadIdentity]
  dsimp only
  by_cases below : loc < numPoints
  · have laidOut : geometry.locSectorNo loc < geometry.locSectorNo 0 +
        (numPoints + geometry.nnodesPerSector - 1) / geometry.nnodesPerSector := by
      rw [geometry.locSectorNo_zero, Geometry.locSectorNo]
      have next : loc / geometry.nnodesPerSector + 1 ≤
          (numPoints + geometry.nnodesPerSector - 1) / geometry.nnodesPerSector := by
        rw [← Nat.add_div_right _ geometry.nnodesPerSector_pos]
        exact Nat.div_le_div_right (by omega)
      omega
    simp only [if_pos (And.intro here laidOut), number, if_pos below, geometry.slotOf_lt loc,
      true_and]
  · rw [if_neg below]
    split
    · rename_i slots stored
      rw [Option.ite_none_right_eq_some, Option.some.injEq] at stored
      obtain ⟨_, rfl⟩ := stored
      simp only [number, below, and_false, if_false]
    · rfl

variable (geometry) in
theorem alignedTail_dvd (count : Nat) : geometry.nnodesPerSector ∣ alignedTail geometry count := by
  obtain ⟨_, rfl, _, aligned⟩ := aligned_tail geometry count
  exact aligned

variable (geometry) in
theorem le_alignedTail (count : Nat) : count ≤ alignedTail geometry count := by
  obtain ⟨_, rfl, above, _⟩ := aligned_tail geometry count
  exact above

/-- The identity layout is consistent. -/
theorem loadIdentity_consistent (numPoints : Nat) :
    (loadIdentity geometry numPoints).Consistent geometry where
  formed :=
    { aligned := alignedTail_dvd geometry numPoints
      below := by
        intro page slots stored
        simp only [loadIdentity, Option.ite_none_right_eq_some] at stored
        obtain ⟨⟨first, last⟩, _⟩ := stored
        rw [geometry.locSectorNo_zero] at first last
        obtain ⟨count, tail⟩ := alignedTail_dvd geometry numPoints
        have above := le_alignedTail geometry numPoints
        refine ⟨first, (by omega : page ≤ (numPoints + geometry.nnodesPerSector - 1) /
          geometry.nnodesPerSector).trans ?_⟩
        show _ ≤ alignedTail geometry numPoints / _
        rw [tail] at above ⊢
        rw [Nat.mul_div_cancel_left _ geometry.nnodesPerSector_pos]
        refine Nat.le_of_lt_succ ?_
        rw [Nat.div_lt_iff_lt_mul geometry.nnodesPerSector_pos, Nat.succ_mul, Nat.mul_comm]
        have := geometry.nnodesPerSector_pos
        omega
      queueNodup := .nil
      queueEmpty := nofun }
  bijective id loc := by
    rw [loc2id_loadIdentity]
    show (if id < numPoints then some id else none) = some loc ↔ _
    grind
  unallocated loc := by
    rw [loc2id_loadIdentity]
    split <;> nofun

/-! ### A partition file -/

/-- The assignments of `load_page_layout` in their order. -/
def assignments (geometry : Geometry) (pages : List PartitionPage) : List (SlotId × Nat) :=
  pages.zipIdx.flatMap fun entry =>
    (List.range entry.1.used).map fun slot =>
      (entry.1.slots slot, entry.2 * geometry.nnodesPerSector + slot)

theorem loadPartition_id2loc (pages : List PartitionPage) :
    (loadPartition geometry pages).id2loc =
      (assignments geometry pages).foldl (fun current entry => assignLoc current entry.1 entry.2)
        fun _ => none := by
  rw [assignments, List.foldl_flatMap]
  simp only [List.foldl_map]
  rfl

/-- When every id is assigned once, the order of the assignments does not matter. -/
theorem foldl_assignLoc {entries : List (SlotId × Nat)}
    (once : ∀ first ∈ entries, ∀ second ∈ entries, first.1 = second.1 → first = second)
    (initial : Nat → Option Nat) (id loc : Nat) :
    entries.foldl (fun current entry => assignLoc current entry.1 entry.2) initial id = some loc ↔
      (.real id, loc) ∈ entries ∨
        (∀ other, (.real id, other) ∉ entries) ∧ initial id = some loc := by
  induction entries generalizing initial with
  | nil => simp
  | cons entry rest inductionHypothesis =>
    obtain ⟨slot, first⟩ := entry
    rw [List.foldl_cons, inductionHypothesis fun one member two other =>
      once one (List.mem_cons_of_mem _ member) two (List.mem_cons_of_mem _ other)]
    by_cases here : slot = .real id
    · subst here
      have later : ∀ other, (SlotId.real id, other) ∈ rest → other = first := fun other member =>
        congrArg Prod.snd (once _ (List.mem_cons_of_mem _ member) _ List.mem_cons_self rfl)
      simp only [assignLoc, Function.update_self, List.mem_cons, Prod.mk.injEq, true_and,
        Option.some.injEq]
      grind
    · have kept : assignLoc initial slot first id = initial id := by
        cases slot with
        | real other =>
          refine Function.update_of_ne (fun same => here ?_) _ _
          rw [same]
        | _ => rfl
      have absent : ∀ other, (SlotId.real id, other) ≠ (slot, first) :=
        fun other same => here (congrArg Prod.fst same).symm
      simp only [kept, List.mem_cons, absent, false_or]

theorem mem_assignments {pages : List PartitionPage} {slot : SlotId} {loc : Nat} :
    (slot, loc) ∈ assignments geometry pages ↔ ∃ entry ∈ pages.zipIdx, ∃ place < entry.1.used,
      entry.1.slots place = slot ∧ entry.2 * geometry.nnodesPerSector + place = loc := by
  simp only [assignments, List.mem_flatMap, List.mem_map, List.mem_range, Prod.mk.injEq]

theorem loc2id_loadPartition (pages : List PartitionPage) (loc : Nat) :
    (loadPartition geometry pages).loc2id geometry loc =
      ((pages[loc / geometry.nnodesPerSector]?).map
        fun page => page.slots (geometry.slotOf loc)).getD .kInvalidID := by
  have here : geometry.locSectorNo 0 ≤ geometry.locSectorNo loc :=
    geometry.locSectorNo_zero ▸ geometry.locSectorNo_pos loc
  rw [loc2id, loadPartition]
  simp only [if_pos here, geometry.locSectorNo_sub]
  cases pages[loc / geometry.nnodesPerSector]? <;> rfl

/-- The layout of a partition file is consistent, and maps the ids of the index. -/
theorem loadPartition_consistent {pages : List PartitionPage} {numPoints : Nat}
    (covers : Covers geometry pages numPoints) :
    (loadPartition geometry pages).Consistent geometry ∧
      ∀ id, (loadPartition geometry pages).id2loc id ≠ none ↔ id < numPoints := by
  have once : ∀ first ∈ assignments geometry pages, ∀ second ∈ assignments geometry pages,
      first.1 = second.1 → first = second := by
    rintro ⟨slot, loc⟩ firstMember ⟨_, other⟩ secondMember rfl
    obtain ⟨first, inFirst, place, used, holds, rfl⟩ := mem_assignments.mp firstMember
    obtain ⟨second, inSecond, there, usedThere, also, rfl⟩ := mem_assignments.mp secondMember
    obtain ⟨page, same⟩ :=
      covers.disjoint first inFirst second inSecond place used there usedThere (holds.trans also.symm)
    rw [page, same]
  have assigned : ∀ id loc, (loadPartition geometry pages).id2loc id = some loc ↔
      (.real id, loc) ∈ assignments geometry pages := by
    intro id loc
    rw [loadPartition_id2loc, foldl_assignLoc once]
    simp
  have stored : ∀ id loc, (loadPartition geometry pages).loc2id geometry loc = .real id ↔
      (.real id, loc) ∈ assignments geometry pages := by
    intro id loc
    rw [loc2id_loadPartition, mem_assignments]
    constructor
    · intro holds
      cases present : pages[loc / geometry.nnodesPerSector]? with
      | none => simp [present] at holds
      | some page =>
        have slot : page.slots (geometry.slotOf loc) = .real id := by simpa [present] using holds
        refine ⟨(page, loc / geometry.nnodesPerSector), ?_, geometry.slotOf loc, ?_, slot, ?_⟩
        · exact List.mk_mem_zipIdx_iff_getElem?.mpr present
        · by_contra unused
          have padded := covers.padded page (List.mem_of_getElem? present) _
            (Nat.le_of_not_lt unused)
          cases slot.symm.trans padded
        · rw [Nat.mul_comm]
          exact Nat.div_add_mod loc geometry.nnodesPerSector
    · rintro ⟨⟨page, index⟩, member, place, used, slot, rfl⟩
      have present := List.mk_mem_zipIdx_iff_getElem?.mp member
      have inside := used.trans_le (covers.used_le page (List.mem_of_getElem? present))
      have quotient : (index * geometry.nnodesPerSector + place) / geometry.nnodesPerSector =
          index := by
        rw [Nat.mul_comm, Nat.mul_add_div geometry.nnodesPerSector_pos, Nat.div_eq_of_lt inside,
          Nat.add_zero]
      have remainder : geometry.slotOf (index * geometry.nnodesPerSector + place) = place := by
        rw [Geometry.slotOf, Nat.add_comm, Nat.add_mul_mod_self_right, Nat.mod_eq_of_lt inside]
      rw [quotient, remainder, present]
      exact slot
  refine ⟨⟨⟨⟨pages.length, Nat.mul_comm _ _⟩, ?_, .nil, (by intros; contradiction)⟩, fun id loc =>
    (assigned id loc).trans (stored id loc).symm, ?_⟩, ?_⟩
  · intro page slots laidOut
    simp only [loadPartition, Option.ite_none_right_eq_some, Option.map_eq_some_iff] at laidOut
    obtain ⟨first, entry, present, _⟩ := laidOut
    obtain ⟨inside, _⟩ := List.getElem?_eq_some_iff.mp present
    rw [geometry.locSectorNo_zero] at first inside
    refine ⟨first, ?_⟩
    show page ≤ pages.length * _ / _
    rw [Nat.mul_div_cancel _ geometry.nnodesPerSector_pos]
    omega
  · intro loc allocated
    rw [loc2id_loadPartition] at allocated
    cases present : pages[loc / geometry.nnodesPerSector]? with
    | none => simp [present] at allocated
    | some page =>
      have slot : page.slots (geometry.slotOf loc) = .kAllocatedID := by
        simpa [present] using allocated
      have member := List.mem_of_getElem? present
      by_cases used : geometry.slotOf loc < page.used
      · obtain ⟨_, _, real⟩ := covers.entries page member _ used
        cases slot.symm.trans real
      · have padded := covers.padded page member _ (Nat.le_of_not_lt used)
        cases slot.symm.trans padded
  · intro id
    rw [Option.ne_none_iff_exists']
    constructor
    · rintro ⟨loc, mapped⟩
      obtain ⟨entry, member, place, used, slot, _⟩ := mem_assignments.mp ((assigned id loc).mp mapped)
      have inPages : entry.1 ∈ pages :=
        List.mem_of_getElem? (List.mk_mem_zipIdx_iff_getElem?.mp member)
      obtain ⟨other, below, same⟩ := covers.entries entry.1 inPages place used
      rw [slot, SlotId.real.injEq] at same
      exact same ▸ below
    · intro below
      obtain ⟨page, member, place, used, slot⟩ := covers.covered id below
      obtain ⟨index, present⟩ := List.mem_iff_getElem?.mp member
      exact ⟨_, (assigned id _).mpr (mem_assignments.mpr
        ⟨(page, index), List.mk_mem_zipIdx_iff_getElem?.mpr present, place, used, slot, rfl⟩)⟩

end Layout

end OdinVector
