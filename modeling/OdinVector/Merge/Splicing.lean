/-
This file describes the lists that `merge_deletes` writes without the tables of its first pass.
A neighbour that goes is replaced by those of its own neighbours that are kept, the point itself
is taken out, and what is left is pruned if it is longer than `range`. The list that is written
names the result by new ids.
-/

import OdinVector.Merge.Medoid

namespace OdinVector

variable {Point Code Distance : Type} [LinearOrder Distance]

namespace MergeInput

/-! ### Neighbours that are replaced -/

section Splice

variable (input : MergeInput Point Code Distance)

/-- The neighbours that are kept of a point that goes. -/
def keptNbrs (gone : Nat) : List Nat :=
  ((input.index.layout.id2loc gone).map input.sampledNhood).getD []

/-- What a neighbour becomes. -/
def splice (nbr : Nat) : List Nat := if input.Deleted nbr then input.keptNbrs nbr else [nbr]

/-- The neighbours of a point when those that go are replaced. -/
def spliced (loc id : Nat) : Finset Nat :=
  ((input.node loc).nbrs.flatMap input.splice).toFinset.erase id

end Splice

variable {input : MergeInput Point Code Distance}

omit [LinearOrder Distance] in
theorem keptNbrs_eq {loc gone : Nat} (here : input.loc2id loc = .real gone) :
    input.keptNbrs gone = input.sampledNhood loc := by
  have mapped := (input.wellFormed.consistent.bijective gone loc).mpr here
  unfold keptNbrs
  rw [mapped]
  rfl

omit [LinearOrder Distance] in
/-- The set that the second pass gathers has no more than the replaced neighbours. -/
theorem nhoodSet_eq {loc id : Nat} (here : input.loc2id loc = .real id) :
    input.nhoodSet input.populate id (input.node loc).nbrs = some (input.spliced loc id) := by
  have gathered : ∀ (nbrs : List Nat) (before : Finset Nat),
      (∀ nbr ∈ nbrs, nbr ∈ (input.node loc).nbrs) →
        nbrs.foldlM (fun (nhoodSet : Finset Nat) nbr =>
          if input.Deleted nbr then
            (input.populate.deletedNhoods nbr).map fun nhoods => nhoodSet ∪ nhoods.toFinset
          else some (insert nbr nhoodSet)) before =
            some (before ∪ (nbrs.flatMap input.splice).toFinset) := by
    intro nbrs
    induction nbrs with
    | nil =>
      intro before _
      rw [List.flatMap_nil, List.toFinset_nil, Finset.union_empty]
      rfl
    | cons nbr rest inductionHypothesis =>
      intro before listed
      have listedRest : ∀ other ∈ rest, other ∈ (input.node loc).nbrs :=
        fun other member => listed other (List.mem_cons_of_mem _ member)
      obtain ⟨there, isThere⟩ := input.exists_loc_of_nbr here (listed nbr List.mem_cons_self)
      rw [List.foldlM_cons, List.flatMap_cons, List.toFinset_append, ← Finset.union_assoc]
      by_cases deleted : input.Deleted nbr
      · have replaced : input.splice nbr = input.sampledNhood there := by
          rw [splice, if_pos deleted, keptNbrs_eq isThere]
        rw [if_pos deleted, input.nhood_of_deleted isThere deleted, replaced]
        exact inductionHypothesis _ listedRest
      · have kept : input.splice nbr = [nbr] := if_neg deleted
        have same : insert nbr before = before ∪ [nbr].toFinset := by
          rw [List.toFinset_cons, List.toFinset_nil, Finset.union_insert, Finset.union_empty]
        rw [if_neg deleted, kept, ← same]
        exact inductionHypothesis _ listedRest
  unfold nhoodSet
  rw [gathered _ ∅ fun _ member => member, Finset.empty_union]
  rfl

omit [LinearOrder Distance] in
/-- A neighbour that is found in this way stays. -/
theorem stays_of_spliced {loc id nbr : Nat} (here : input.loc2id loc = .real id)
    (member : nbr ∈ input.spliced loc id) : input.Stays nbr := by
  obtain ⟨nhoodSet, found, stay⟩ := input.exists_nhoodSet here
  rw [nhoodSet_eq here, Option.some.injEq] at found
  exact stay nbr (found ▸ member)

/-! ### The list that is written -/

/-- What is written for a point: a part of its replaced neighbours in new ids, all of them when
`range` allows it. -/
structure ListMerged (input : MergeInput Point Code Distance) (loc id : Nat) (list : List Nat) :
    Prop where
  images : ∀ new ∈ list, ∃ nbr ∈ input.spliced loc id, input.populate.idMap nbr = some new
  bounded : list.length ≤ input.params.prune.range
  nodup : list.Nodup
  whole : (input.spliced loc id).card ≤ input.params.prune.range →
    ∀ nbr ∈ input.spliced loc id, ∃ new ∈ list, input.populate.idMap nbr = some new

omit [LinearOrder Distance] in
/-- Points that stay have new ids of their own. -/
theorem idMap_injective {first second new : Nat} (here : input.populate.idMap first = some new)
    (there : input.populate.idMap second = some new) : first = second :=
  Option.some.inj (((input.populate_populatedBy.idMap first new).mp here).symm.trans
    ((input.populate_populatedBy.idMap second new).mp there))

theorem length_prunedNhood_le (id : Nat) (nhood : List Nat) :
    (input.prunedNhood id nhood).length ≤ input.params.prune.range := by
  unfold prunedNhood
  dsimp only
  split
  · exact (pruned_pruneNeighborsPq _).bounded
  · rename_i short
    exact Nat.not_lt.mp short

theorem nodup_prunedNhood (id : Nat) {nhood : List Nat} (nodup : nhood.Nodup) :
    (input.prunedNhood id nhood).Nodup := by
  unfold prunedNhood
  dsimp only
  split
  · refine nodup_pruneNeighborsPq ?_
    rw [List.map_take]
    refine List.Nodup.sublist (List.take_sublist _ _) ?_
    exact (((perm_sortPool _).map Neighbor.id).trans (perm_map_id nhood _)).nodup_iff.mpr nodup
  · exact nodup

theorem prunedNhood_of_le (id : Nat) {nhood : List Nat}
    (short : nhood.length ≤ input.params.prune.range) : input.prunedNhood id nhood = nhood :=
  if_neg (Nat.not_lt.mpr short)

/-- A lookup of all the keys finds what the table has for them, in order. -/
theorem mapM_eq_some_iff {table : Nat → Option Nat} {keys values : List Nat} :
    keys.mapM table = some values ↔ keys.map table = values.map some := by
  induction keys generalizing values with
  | nil =>
    rw [List.mapM_nil, List.map_nil, eq_comm (a := []), List.map_eq_nil_iff, eq_comm]
    exact Option.some_inj
  | cons key rest inductionHypothesis =>
    rw [List.mapM_cons, List.map_cons]
    constructor
    · intro mapped
      obtain ⟨value, isValue, mapped⟩ := Option.bind_eq_some_iff.mp mapped
      obtain ⟨others, areOthers, mapped⟩ := Option.bind_eq_some_iff.mp mapped
      rw [← Option.some.inj mapped, isValue, inductionHypothesis.mp areOthers]
      rfl
    · intro mapped
      cases values with
      | nil => cases mapped
      | cons value others =>
        obtain ⟨isValue, areOthers⟩ := List.cons_eq_cons.mp mapped
        rw [isValue, inductionHypothesis.mpr areOthers]
        rfl

/-- The list of a point that stays. The elements of an `unordered_set` are distinct. -/
theorem listMerged_of_newNode {loc id : Nat} {node : DiskNode Point}
    (distinct : ∀ ids, (input.elements ids).Nodup) (here : input.loc2id loc = .real id)
    (made : input.newNode input.populate loc id = some node) :
    node.coords = (input.node loc).coords ∧ input.ListMerged loc id node.nbrs := by
  obtain ⟨list, written, rfl⟩ := Option.map_eq_some_iff.mp made
  refine ⟨rfl, ?_⟩
  unfold newNhood at written
  rw [nhoodSet_eq here] at written
  have mapped := mapM_eq_some_iff.mp written
  have elements := input.mem_elements (input.spliced loc id)
  have kept : (input.prunedNhood id (input.elements (input.spliced loc id))).Nodup :=
    nodup_prunedNhood id (distinct _)
  have subset : ∀ nbr ∈ input.prunedNhood id (input.elements (input.spliced loc id)),
      nbr ∈ input.spliced loc id :=
    fun nbr member => (elements nbr).mp (input.mem_of_mem_prunedNhood nbr member)
  refine
    { images := fun new member => ?_
      bounded := ?_
      nodup := ?_
      whole := fun few nbr member => ?_ }
  · have isValue : some new ∈ list.map some := List.mem_map_of_mem member
    rw [← mapped] at isValue
    obtain ⟨nbr, inside, isNew⟩ := List.mem_map.mp isValue
    exact ⟨nbr, subset nbr inside, isNew⟩
  · have length := congrArg List.length mapped
    rw [List.length_map, List.length_map] at length
    exact length.symm.trans_le (length_prunedNhood_le id _)
  · refine List.Nodup.of_map some ?_
    rw [← mapped]
    refine kept.map_on fun first inFirst second _ same => ?_
    obtain ⟨new, isNew⟩ := exists_newId_of_stays (stays_of_spliced here (subset first inFirst))
    exact idMap_injective isNew (same ▸ isNew)
  · have short : (input.elements (input.spliced loc id)).length ≤ input.params.prune.range := by
      have perm : (input.elements (input.spliced loc id)).toFinset = input.spliced loc id :=
        Finset.ext fun other => List.mem_toFinset.trans (elements other)
      rw [← List.toFinset_card_of_nodup (distinct _), perm]
      exact few
    have inside : input.populate.idMap nbr ∈ list.map some := by
      rw [← mapped, prunedNhood_of_le id short]
      exact List.mem_map_of_mem ((elements nbr).mpr member)
    obtain ⟨new, inList, isNew⟩ := List.mem_map.mp inside
    exact ⟨new, inList, isNew.symm⟩

end MergeInput

end OdinVector
