/-
This file proves that the search loop of `filter_beam_search` ends, and that it expands
a node once at most. An id goes into the list when it is first seen and never again, its
entry is flagged until it is picked for the frontier, and a round that sees no new node
moves `k` on by one.
-/

import OdinVector.Search.FilterBeam

namespace OdinVector

variable {Distance : Type} [LinearOrder Distance]

/-! ### The entries of the list -/

namespace Pool

omit [LinearOrder Distance] in
/-- The entries after a shift are the old ones with the new one among them. -/
theorem map_shiftIn (addr : Nat → PoolEntry Distance) {place K : Nat} (inside : place ≤ K)
    (nn : PoolEntry Distance) :
    (List.range (K + 1)).map (shiftIn addr place K nn) =
      ((List.range K).map addr).insertIdx place nn := by
  have length : ((List.range K).map addr).length = K := by
    rw [List.length_map, List.length_range]
  apply List.ext_getElem
  · rw [List.length_map, List.length_range, List.length_insertIdx_of_le_length (by omega), length]
  · intro i first second
    rw [List.length_map, List.length_range] at first
    rw [List.getElem_map, List.getElem_range, List.getElem_insertIdx]
    unfold shiftIn
    split
    · rw [List.getElem_map, List.getElem_range]
    · split
      · rfl
      · rw [if_pos (by omega), List.getElem_map, List.getElem_range]

end Pool

namespace Traversal

/-- The entries of the list. -/
def entries (traversal : Traversal Distance) : List (PoolEntry Distance) :=
  (List.range traversal.curListSize).map traversal.retset

omit [LinearOrder Distance] in
theorem length_entries (traversal : Traversal Distance) :
    traversal.entries.length = traversal.curListSize := by
  unfold entries
  rw [List.length_map, List.length_range]

end Traversal

namespace FilterQuery

variable (query : FilterQuery Distance)

/-- What holds in the search loop while the nodes of `frontier` are to be expanded. -/
structure Searching (frontier : List Nat) (traversal : Traversal Distance) : Prop where
  nonempty : 0 < traversal.curListSize
  nodes : traversal.visited ⊆ query.graph.nodes
  seen : ∀ entry ∈ traversal.entries, entry.id ∈ traversal.visited
  apart : (traversal.entries.map fun entry => entry.id).Nodup
  flagged : ∀ entry ∈ traversal.entries, entry.flag = true → entry.id ∉ traversal.expanded
  expanded : traversal.expanded.Nodup
  expandedSeen : ∀ id ∈ traversal.expanded, id ∈ traversal.visited
  chosen : frontier.Nodup
  chosenSeen : ∀ id ∈ frontier, id ∈ traversal.visited
  chosenNew : ∀ id ∈ frontier, id ∉ traversal.expanded
  picked : ∀ entry ∈ traversal.entries, entry.id ∈ frontier → entry.flag = false
  heap : ∀ neighbor ∈ traversal.pqCandidateHeap,
    query.IsCandidate neighbor.id ∧ neighbor.id ∈ traversal.visited

variable {query}

omit [LinearOrder Distance] in
theorem Searching.curListSize_le {frontier : List Nat} {traversal : Traversal Distance}
    (searching : query.Searching frontier traversal) :
    traversal.curListSize ≤ query.graph.nodes.card := by
  have inside : (traversal.entries.map fun entry => entry.id).toFinset ⊆ query.graph.nodes := by
    intro id member
    obtain ⟨entry, listed, rfl⟩ := List.mem_map.mp (List.mem_toFinset.mp member)
    exact searching.nodes (searching.seen entry listed)
  have card := Finset.card_le_card inside
  rw [List.toFinset_card_of_nodup searching.apart, List.length_map,
    Traversal.length_entries] at card
  exact card

/-! ### Picking the frontier -/

omit [LinearOrder Distance] in
theorem Searching.pick {frontier : List Nat} {traversal : Traversal Distance}
    (searching : query.Searching frontier traversal) {marker : Nat}
    (inside : marker < traversal.curListSize) (flag : (traversal.retset marker).flag = true) :
    query.Searching (frontier ++ [(traversal.retset marker).id])
      { traversal with retset := Pool.pick traversal.retset marker } := by
  have there : traversal.retset marker ∈ traversal.entries :=
    List.mem_map.mpr ⟨marker, List.mem_range.mpr inside, rfl⟩
  have ids : ({ traversal with retset := Pool.pick traversal.retset marker } :
      Traversal Distance).entries.map (fun entry => entry.id) =
        traversal.entries.map fun entry => entry.id := by
    unfold Traversal.entries
    rw [List.map_map, List.map_map]
    refine List.map_congr_left fun i _ => ?_
    show (Pool.pick traversal.retset marker i).id = (traversal.retset i).id
    by_cases this : i = marker
    · rw [this, Pool.pick_self]
    · rw [Pool.pick_of_ne _ this]
  have entry : ∀ entry ∈ ({ traversal with retset := Pool.pick traversal.retset marker } :
      Traversal Distance).entries,
      (entry.id = (traversal.retset marker).id ∧ entry.flag = false) ∨
        entry ∈ traversal.entries ∧ entry.id ≠ (traversal.retset marker).id := by
    intro entry member
    obtain ⟨i, range, rfl⟩ := List.mem_map.mp member
    show ((Pool.pick traversal.retset marker i).id = _ ∧ _) ∨
      Pool.pick traversal.retset marker i ∈ _ ∧ (Pool.pick traversal.retset marker i).id ≠ _
    by_cases this : i = marker
    · left
      rw [this]
      show (Pool.pick traversal.retset marker marker).id = _ ∧
        (Pool.pick traversal.retset marker marker).flag = false
      rw [Pool.pick_self]
      exact ⟨rfl, rfl⟩
    · right
      rw [Pool.pick_of_ne _ this]
      refine ⟨List.mem_map.mpr ⟨i, range, rfl⟩, fun same => this ?_⟩
      have apart := searching.apart
      unfold Traversal.entries at apart
      rw [List.map_map] at apart
      exact List.inj_on_of_nodup_map apart range (List.mem_range.mpr inside) same
  have new : (traversal.retset marker).id ∉ frontier := fun member =>
    Bool.false_ne_true ((searching.picked _ there member).symm.trans flag)
  have unexpanded := searching.flagged _ there flag
  refine ⟨searching.nonempty, searching.nodes, fun other member => ?_, ids ▸ searching.apart,
    fun other member raised => ?_, searching.expanded, searching.expandedSeen, ?_, ?_, ?_, ?_,
    searching.heap⟩
  · obtain ⟨same, -⟩ | ⟨old, -⟩ := entry other member
    · rw [same]
      exact searching.seen _ there
    · exact searching.seen other old
  · obtain ⟨-, lowered⟩ | ⟨old, -⟩ := entry other member
    · exact absurd (lowered.symm.trans raised) Bool.false_ne_true
    · exact searching.flagged other old raised
  · exact nodup_snoc searching.chosen new
  · intro id member
    obtain before | last := List.mem_append.mp member
    · exact searching.chosenSeen id before
    · rw [List.mem_singleton.mp last]
      exact searching.seen _ there
  · intro id member
    obtain before | last := List.mem_append.mp member
    · exact searching.chosenNew id before
    · rw [List.mem_singleton.mp last]
      exact unexpanded
  · intro other member chosen
    obtain ⟨-, lowered⟩ | ⟨old, another⟩ := entry other member
    · exact lowered
    · obtain before | last := List.mem_append.mp chosen
      · exact searching.picked other old before
      · exact absurd (List.mem_singleton.mp last) another

omit [LinearOrder Distance] in
theorem Searching.frontierFrom {frontier : List Nat} {traversal : Traversal Distance}
    (searching : query.Searching frontier traversal) (left : Nat) {marker : Nat}
    (inside : marker + left ≤ traversal.curListSize) :
    query.Searching (query.frontierFrom left marker traversal.retset frontier).2
      { traversal with retset := (query.frontierFrom left marker traversal.retset frontier).1 } := by
  induction left generalizing marker frontier traversal with
  | zero => exact searching
  | succ left inductionHypothesis =>
    unfold FilterQuery.frontierFrom
    split
    · split
      · rename_i flag
        exact inductionHypothesis (searching.pick (by omega) flag) (by
          show marker + 1 + left ≤ traversal.curListSize
          omega)
      · exact inductionHypothesis searching (by omega)
    · exact searching

/-! ### Visiting neighbours -/

/-- What a part of a round does: `k` stays, nodes are visited, and when none is, the size of
the list and the least place stay. -/
structure Advances (before after : Traversal Distance × Nat) : Prop where
  k : after.1.k = before.1.k
  visited : before.1.visited ⊆ after.1.visited
  quiet : after.1.visited = before.1.visited →
    after.1.curListSize = before.1.curListSize ∧ after.2 = before.2

omit [LinearOrder Distance] in
theorem Advances.refl (search : Traversal Distance × Nat) : Advances search search :=
  ⟨rfl, Finset.Subset.refl _, fun _ => ⟨rfl, rfl⟩⟩

omit [LinearOrder Distance] in
theorem Advances.trans {first second third : Traversal Distance × Nat}
    (before : Advances first second) (after : Advances second third) : Advances first third := by
  refine ⟨after.k.trans before.k, before.visited.trans after.visited, fun same => ?_⟩
  have middle : second.1.visited = first.1.visited :=
    Finset.Subset.antisymm (same ▸ after.visited) before.visited
  obtain ⟨size, place⟩ := before.quiet middle
  obtain ⟨size', place'⟩ := after.quiet (same.trans middle.symm)
  exact ⟨size'.trans size, place'.trans place⟩

theorem collect_spec {visited : Finset Nat} {heap : List (Neighbor Distance)} {id : Nat}
    (inside : ∀ neighbor ∈ heap, query.IsCandidate neighbor.id ∧ neighbor.id ∈ visited) :
    ∀ neighbor ∈ query.collect heap id,
      query.IsCandidate neighbor.id ∧ neighbor.id ∈ insert id visited := by
  intro neighbor member
  unfold collect at member
  split at member
  · rename_i candidate
    obtain rfl | before := BoundedHeap.mem_push member
    · exact ⟨candidate, Finset.mem_insert_self _ _⟩
    · exact ⟨(inside neighbor before).1, Finset.mem_insert_of_mem (inside neighbor before).2⟩
  · exact ⟨(inside neighbor member).1, Finset.mem_insert_of_mem (inside neighbor member).2⟩

/-- A list with other entries: old ones, and possibly one for a node that was not seen. -/
theorem Searching.enter {frontier : List Nat} {traversal next : Traversal Distance}
    (searching : query.Searching frontier traversal) {nbr : Nat} (node : nbr ∈ query.graph.nodes)
    (fresh : nbr ∉ traversal.visited) (visited : next.visited = insert nbr traversal.visited)
    (heap : next.pqCandidateHeap = query.collect traversal.pqCandidateHeap nbr)
    (expanded : next.expanded = traversal.expanded) (nonempty : 0 < next.curListSize)
    (entries : ∀ entry ∈ next.entries, entry = query.entry nbr ∨ entry ∈ traversal.entries)
    (apart : (next.entries.map fun entry => entry.id).Nodup) :
    query.Searching frontier next := by
  refine ⟨nonempty, ?_, fun entry member => ?_, apart, fun entry member raised => ?_,
    expanded ▸ searching.expanded, ?_, searching.chosen, ?_, ?_, fun entry member picked => ?_, ?_⟩
  · rw [visited]
    exact Finset.insert_subset node searching.nodes
  · rw [visited]
    obtain rfl | old := entries entry member
    · exact Finset.mem_insert_self _ _
    · exact Finset.mem_insert_of_mem (searching.seen entry old)
  · rw [expanded]
    obtain rfl | old := entries entry member
    · exact fun before => fresh (searching.expandedSeen nbr before)
    · exact searching.flagged entry old raised
  · rw [expanded, visited]
    exact fun id before => Finset.mem_insert_of_mem (searching.expandedSeen id before)
  · rw [visited]
    exact fun id before => Finset.mem_insert_of_mem (searching.chosenSeen id before)
  · rw [expanded]
    exact searching.chosenNew
  · obtain rfl | old := entries entry member
    · exact absurd (searching.chosenSeen nbr picked) fresh
    · exact searching.picked entry old picked
  · rw [visited, heap]
    exact collect_spec searching.heap

theorem Searching.visit {frontier : List Nat} {traversal : Traversal Distance}
    (searching : query.Searching frontier traversal) {nbr : Nat} (node : nbr ∈ query.graph.nodes)
    (nk : Nat) :
    ∃ after, query.visit (traversal, nk) nbr = some after ∧ query.Searching frontier after.1 ∧
      Advances (traversal, nk) after := by
  unfold FilterQuery.visit
  dsimp only
  rw [if_neg (Nat.not_lt.mpr (query.graph.bounded nbr node))]
  split
  · exact ⟨_, rfl, searching, Advances.refl _⟩
  rename_i fresh
  have more : insert nbr traversal.visited ≠ traversal.visited := fun same =>
    fresh (same ▸ Finset.mem_insert_self nbr traversal.visited)
  split
  · refine ⟨_, rfl, searching.enter node fresh rfl rfl rfl searching.nonempty
      (fun entry member => Or.inr member) searching.apart, rfl, Finset.subset_insert _ _,
      fun same => absurd same more⟩
  · have others : ∀ i < traversal.curListSize, (traversal.retset i).id ≠ (query.entry nbr).id := by
      intro i inside same
      refine fresh ?_
      have there : traversal.retset i ∈ traversal.entries :=
        List.mem_map.mpr ⟨i, List.mem_range.mpr inside, rfl⟩
      have seen := searching.seen _ there
      rw [same] at seen
      exact seen
    obtain ⟨place, inside, -, shifted⟩ := Pool.insertIntoPool_spec _ searching.nonempty others
    have longer : (List.range (traversal.curListSize + 1)).map
        (Pool.insertIntoPool traversal.retset traversal.curListSize (query.entry nbr)).1 =
        traversal.entries.insertIdx place (query.entry nbr) := by
      rw [Traversal.entries, ← Pool.map_shiftIn traversal.retset inside]
      refine List.map_congr_left fun i range => shifted i ?_
      exact Nat.lt_succ_iff.mp (List.mem_range.mp range)
    have all : (traversal.entries.insertIdx place (query.entry nbr)).Perm
        (query.entry nbr :: traversal.entries) :=
      List.perm_insertIdx _ _ (by rw [Traversal.length_entries]; exact inside)
    have kept : ∀ size ≤ traversal.curListSize + 1, ((List.range size).map
        (Pool.insertIntoPool traversal.retset traversal.curListSize
          (query.entry nbr)).1).Sublist (traversal.entries.insertIdx place (query.entry nbr)) := by
      intro size less
      rw [← longer]
      exact (List.range_sublist.mpr less).map _
    have size : (if traversal.curListSize < traversal.lSearch then traversal.curListSize + 1
        else traversal.curListSize) ≤ traversal.curListSize + 1 := by
      split <;> omega
    refine ⟨_, rfl, searching.enter node fresh rfl rfl rfl ?_ (fun entry member => ?_) ?_, rfl,
      Finset.subset_insert _ _, fun same => absurd same more⟩
    · have nonempty := searching.nonempty
      dsimp only
      split <;> omega
    · exact List.mem_cons.mp (all.subset ((kept _ size).subset member))
    · refine ((kept _ size).map _).nodup ?_
      rw [(all.map fun entry => entry.id).nodup_iff, List.map_cons, List.nodup_cons]
      refine ⟨fun member => ?_, searching.apart⟩
      obtain ⟨entry, there, same⟩ := List.mem_map.mp member
      have seen := searching.seen entry there
      rw [same] at seen
      exact fresh seen

theorem Searching.visitAll {frontier : List Nat} (nbrs : List Nat)
    (nodes : ∀ nbr ∈ nbrs, nbr ∈ query.graph.nodes) {search : Traversal Distance × Nat}
    (searching : query.Searching frontier search.1) :
    ∃ after, nbrs.foldlM query.visit search = some after ∧ query.Searching frontier after.1 ∧
      Advances search after := by
  induction nbrs generalizing search with
  | nil => exact ⟨search, rfl, searching, Advances.refl search⟩
  | cons nbr rest inductionHypothesis =>
    obtain ⟨next, visited, nextSearching, advances⟩ :=
      searching.visit (nodes nbr List.mem_cons_self) search.2
    obtain ⟨after, restVisited, afterSearching, restAdvances⟩ := inductionHypothesis
      (fun other member => nodes other (List.mem_cons_of_mem _ member)) nextSearching
    refine ⟨after, ?_, afterSearching, advances.trans restAdvances⟩
    rw [List.foldlM_cons, visited]
    exact restVisited

/-! ### Rounds -/

/-- The next node of the frontier is expanded. -/
theorem Searching.expand {id : Nat} {frontier : List Nat} {search : Traversal Distance × Nat}
    (searching : query.Searching (id :: frontier) search.1) :
    ∃ after, query.expand search id = some after ∧ query.Searching frontier after.1 ∧
      Advances search after := by
  have seen := searching.chosenSeen id List.mem_cons_self
  have node := searching.nodes seen
  obtain ⟨first, chosen⟩ := List.nodup_cons.mp searching.chosen
  have new := searching.chosenNew id List.mem_cons_self
  have expanding : query.Searching frontier (Prod.fst (search.1.mark id, search.2)) := by
    refine ⟨searching.nonempty, searching.nodes, searching.seen, searching.apart,
      fun entry member raised expanded => ?_, ?_, fun other expanded => ?_, chosen,
      fun other member => searching.chosenSeen other (List.mem_cons_of_mem _ member),
      fun other member expanded => ?_,
      fun entry member picked => searching.picked entry member (List.mem_cons_of_mem _ picked),
      searching.heap⟩
    · obtain before | last := List.mem_append.mp expanded
      · exact searching.flagged entry member raised before
      · have lowered := searching.picked entry member
          (List.mem_singleton.mp last ▸ List.mem_cons_self)
        exact Bool.false_ne_true (lowered.symm.trans raised)
    · exact nodup_snoc searching.expanded new
    · obtain before | last := List.mem_append.mp expanded
      · exact searching.expandedSeen other before
      · rw [List.mem_singleton.mp last]
        exact seen
    · obtain before | last := List.mem_append.mp expanded
      · exact searching.chosenNew other (List.mem_cons_of_mem _ member) before
      · exact first (List.mem_singleton.mp last ▸ member)
  obtain ⟨after, visited, afterSearching, advances⟩ :=
    Searching.visitAll (query.graph.nbrs id) (query.graph.closed id node) expanding
  have advanced : Advances search after := ⟨advances.k, advances.visited, advances.quiet⟩
  unfold FilterQuery.expand
  rw [if_pos node, visited, Option.map_some]
  dsimp only
  split
  · refine ⟨_, rfl, ?_, advanced.k, advanced.visited, advanced.quiet⟩
    exact { afterSearching with }
  · exact ⟨_, rfl, afterSearching, advanced⟩

theorem Searching.expandAll {frontier : List Nat} {search : Traversal Distance × Nat}
    (searching : query.Searching frontier search.1) :
    ∃ after, frontier.foldlM query.expand search = some after ∧ query.Searching [] after.1 ∧
      Advances search after := by
  induction frontier generalizing search with
  | nil => exact ⟨search, rfl, searching, Advances.refl search⟩
  | cons id rest inductionHypothesis =>
    obtain ⟨next, expanded, nextSearching, advances⟩ := searching.expand
    obtain ⟨after, restExpanded, afterSearching, restAdvances⟩ := inductionHypothesis nextSearching
    refine ⟨after, ?_, afterSearching, advances.trans restAdvances⟩
    rw [List.foldlM_cons, expanded]
    exact restExpanded

/-- The rounds that may be left. -/
def left (query : FilterQuery Distance) (traversal : Traversal Distance) : Nat :=
  (query.graph.nodes.card - traversal.visited.card) * (query.graph.nodes.card + 1) +
    (query.graph.nodes.card - traversal.k)

theorem Searching.hop {traversal : Traversal Distance} (searching : query.Searching [] traversal)
    (going : traversal.k < traversal.curListSize) :
    ∃ next, query.hop traversal = some next ∧ query.Searching [] next ∧
      query.left next < query.left traversal := by
  have whole : traversal.k + (traversal.curListSize - traversal.k) ≤ traversal.curListSize := by
    omega
  have picked : query.Searching _ (Prod.fst (_, traversal.curListSize)) :=
    searching.frontierFrom _ whole
  obtain ⟨after, expanded, afterSearching, advances⟩ := Searching.expandAll picked
  unfold FilterQuery.hop
  dsimp only
  rw [expanded, Option.map_some]
  refine ⟨_, rfl, { afterSearching with }, ?_⟩
  have size := searching.curListSize_le
  have more := Finset.card_le_card advances.visited
  have bound := Finset.card_le_card afterSearching.nodes
  unfold left
  dsimp only at more ⊢
  obtain same | fewer := Nat.eq_or_lt_of_le more
  · -- No node is new, so the least place is the size of the list and `k` moves on.
    have quiet : after.1.visited = traversal.visited :=
      (Finset.eq_of_subset_of_card_le advances.visited same.ge).symm
    obtain ⟨-, place⟩ := advances.quiet quiet
    dsimp only at place
    rw [quiet, if_neg (by omega)]
    omega
  · have k : (if after.2 ≤ traversal.k then after.2 else traversal.k + 1) ≤ traversal.k + 1 := by
      split <;> omega
    have product : (query.graph.nodes.card - after.1.visited.card + 1) *
        (query.graph.nodes.card + 1) ≤ (query.graph.nodes.card - traversal.visited.card) *
          (query.graph.nodes.card + 1) := Nat.mul_le_mul_right _ (by omega)
    rw [Nat.add_mul, Nat.one_mul] at product
    omega

theorem Searching.loop {traversal : Traversal Distance} (searching : query.Searching [] traversal)
    {fuel : Nat} (enough : query.left traversal < fuel) :
    ∃ last, query.loop fuel traversal = some last ∧ query.Searching [] last := by
  induction fuel generalizing traversal with
  | zero => exact absurd enough (Nat.not_lt_zero _)
  | succ fuel inductionHypothesis =>
    unfold FilterQuery.loop
    split
    · rename_i going
      obtain ⟨next, hopped, nextSearching, less⟩ := searching.hop going
      rw [hopped, Option.bind_some]
      split
      · exact ⟨next, rfl, nextSearching⟩
      · exact inductionHypothesis nextSearching (by omega)
    · exact ⟨traversal, rfl, searching⟩

end FilterQuery

end OdinVector
