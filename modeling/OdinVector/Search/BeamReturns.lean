/-
This file proves that `do_beam_search` comes to its end in every mode, also when its list
grows with the nodes that are excluded: while a node is new there is one fewer to see, and
when none is the cursor moves on. What the list keeps does not matter for this.
-/

import OdinVector.Search.Beam

namespace OdinVector

variable {Distance : Type} [LinearOrder Distance]

namespace BeamQuery

variable {query : BeamQuery Distance} {state : BeamState Distance}

/-- The entries and the nodes that were seen are nodes of the graph, and the list has no more
entries than were put in it. -/
structure Roaming (query : BeamQuery Distance) (state : BeamState Distance) : Prop where
  entries : ∀ entry ∈ state.retset, entry.id ∈ query.graph.nodes
  nodes : state.visited ⊆ query.graph.nodes
  length : state.retset.length ≤ state.visited.card + query.entryIds.length

/-! ### One round -/

/-- A neighbour that was not seen is offered to the list. -/
theorem Roaming.enter {nbr : Nat} (roaming : query.Roaming state)
    (node : nbr ∈ query.graph.nodes) (fresh : nbr ∉ state.visited) (nk : Nat) :
    query.Roaming
      { state with
        retset := (Retset.offer id state.lSearch state.retset nk (query.entry nbr)).1
        visited := insert nbr state.visited } where
  entries entry member := by
    obtain rfl | old := Retset.mem_offer member
    · exact node
    · exact roaming.entries entry old
  nodes := Finset.insert_subset node roaming.nodes
  length := by
    have longer := Retset.length_offer_le id state.lSearch state.retset nk (query.entry nbr)
    have before := roaming.length
    rw [Finset.card_insert_of_notMem fresh]
    dsimp only
    omega

theorem Roaming.visit {nbr : Nat} {search : BeamState Distance × Nat}
    (roaming : query.Roaming search.1) (node : nbr ∈ query.graph.nodes) :
    ∃ after, query.visit search nbr = some after ∧ query.Roaming after.1 ∧ Moves search after := by
  unfold BeamQuery.visit
  dsimp only
  rw [if_neg (Nat.not_lt.mpr (query.graph.bounded nbr node))]
  split
  · exact ⟨search, rfl, roaming, Moves.refl search⟩
  · rename_i fresh
    refine ⟨_, rfl, roaming.enter node fresh search.2, rfl, Finset.subset_insert _ _, ?_⟩
    exact fun same => absurd (same ▸ Finset.mem_insert_self nbr _) fresh

theorem Roaming.visitAll {nbrs : List Nat} {search : BeamState Distance × Nat}
    (roaming : query.Roaming search.1) (nodes : ∀ nbr ∈ nbrs, nbr ∈ query.graph.nodes) :
    ∃ after, nbrs.foldlM query.visit search = some after ∧ query.Roaming after.1 ∧
      Moves search after := by
  induction nbrs generalizing search with
  | nil => exact ⟨search, rfl, roaming, Moves.refl search⟩
  | cons nbr rest inductionHypothesis =>
    obtain ⟨next, visited, nextRoaming, moves⟩ := roaming.visit (nodes nbr List.mem_cons_self)
    obtain ⟨after, restVisited, afterRoaming, restMoves⟩ := inductionHypothesis nextRoaming
      fun other member => nodes other (List.mem_cons_of_mem _ member)
    refine ⟨after, ?_, afterRoaming, moves.trans restMoves⟩
    rw [List.foldlM_cons, visited]
    exact restVisited

/-- A node is expanded; the size of the list may change. -/
theorem Roaming.expand {node : Nat} {search : BeamState Distance × Nat}
    (roaming : query.Roaming search.1) (there : node ∈ query.graph.nodes) :
    ∃ after, query.expand search node = some after ∧ query.Roaming after.1 ∧
      Moves search after := by
  have pushed : query.Roaming
      (Prod.fst (search.1.push ⟨node, query.exactDist node⟩, search.2)) :=
    ⟨roaming.entries, roaming.nodes, roaming.length⟩
  obtain ⟨after, visited, afterRoaming, moves⟩ :=
    pushed.visitAll (query.graph.closed node there)
  unfold BeamQuery.expand
  rw [if_pos there, visited, Option.map_some]
  dsimp only
  split
  · exact ⟨_, rfl, ⟨afterRoaming.entries, afterRoaming.nodes, afterRoaming.length⟩,
      moves.k, moves.visited, moves.quiet⟩
  · exact ⟨_, rfl, afterRoaming, moves.k, moves.visited, moves.quiet⟩

theorem Roaming.expandAll {frontier : List Nat} {search : BeamState Distance × Nat}
    (roaming : query.Roaming search.1) (there : ∀ node ∈ frontier, node ∈ query.graph.nodes) :
    ∃ after, frontier.foldlM query.expand search = some after ∧ query.Roaming after.1 ∧
      Moves search after := by
  induction frontier generalizing search with
  | nil => exact ⟨search, rfl, roaming, Moves.refl search⟩
  | cons node rest inductionHypothesis =>
    obtain ⟨next, expanded, nextRoaming, moves⟩ := roaming.expand (there node List.mem_cons_self)
    obtain ⟨after, restExpanded, afterRoaming, restMoves⟩ := inductionHypothesis nextRoaming
      fun other member => there other (List.mem_cons_of_mem _ member)
    refine ⟨after, ?_, afterRoaming, moves.trans restMoves⟩
    rw [List.foldlM_cons, expanded]
    exact restExpanded

omit [LinearOrder Distance] in
/-- What was picked are entries of the list, and the list has the entries that it had. -/
theorem pickFrontier_ids (rest : List (PoolEntry Distance)) (frontier : List Nat) :
    Retset.ids id (query.pickFrontier rest frontier).1 = Retset.ids id rest ∧
      ∀ node ∈ (query.pickFrontier rest frontier).2,
        node ∈ frontier ∨ node ∈ Retset.ids id rest := by
  induction rest generalizing frontier with
  | nil => exact ⟨rfl, fun node member => Or.inl member⟩
  | cons entry rest inductionHypothesis =>
    unfold BeamQuery.pickFrontier
    split
    · split
      · obtain ⟨ids, picked⟩ := inductionHypothesis (frontier ++ [entry.id])
        refine ⟨congrArg (entry.id :: ·) ids, fun node member => ?_⟩
        obtain before | later := picked node member
        · obtain old | last := List.mem_append.mp before
          · exact Or.inl old
          · exact Or.inr (List.mem_cons.mpr (Or.inl (List.mem_singleton.mp last)))
        · exact Or.inr (List.mem_cons_of_mem _ later)
      · obtain ⟨ids, picked⟩ := inductionHypothesis frontier
        exact ⟨congrArg (entry.id :: ·) ids, fun node member =>
          (picked node member).imp_right (List.mem_cons_of_mem _)⟩
    · exact ⟨rfl, fun node member => Or.inl member⟩

/-- The rounds that may be left, when the list may have every entry that is put in it. -/
def turnsLeft (query : BeamQuery Distance) (state : BeamState Distance) : Nat :=
  (query.graph.nodes.card - state.visited.card) *
      (query.graph.nodes.card + query.entryIds.length + 1) +
    (query.graph.nodes.card + query.entryIds.length - state.k)

theorem Roaming.hop (roaming : query.Roaming state) (going : state.k < state.retset.length) :
    ∃ next, query.hop state = some next ∧ query.Roaming next ∧
      query.turnsLeft next < query.turnsLeft state := by
  obtain ⟨ids, picked⟩ := query.pickFrontier_ids (state.retset.drop state.k) []
  let retset := state.retset.take state.k ++
    (query.pickFrontier (state.retset.drop state.k) []).1
  have whole : Retset.ids id retset = Retset.ids id state.retset := by
    unfold Retset.ids at ids ⊢
    rw [List.map_append, ids, ← List.map_append, List.take_append_drop]
  have begun : query.Roaming
      (Prod.fst ({ state with retset := retset }, state.retset.length)) := by
    refine ⟨fun entry member => ?_, roaming.nodes, ?_⟩
    · have there : entry.id ∈ Retset.ids id retset := List.mem_map_of_mem member
      rw [whole] at there
      obtain ⟨old, inList, same⟩ := List.mem_map.mp there
      exact same ▸ roaming.entries old inList
    · have length := congrArg List.length whole
      rw [Retset.ids, Retset.ids, List.length_map, List.length_map] at length
      exact length.trans_le roaming.length
  have nodes : ∀ node ∈ (query.pickFrontier (state.retset.drop state.k) []).2,
      node ∈ query.graph.nodes := by
    intro node member
    obtain ⟨entry, dropped, rfl⟩ :=
      List.mem_map.mp ((picked node member).resolve_left List.not_mem_nil)
    exact roaming.entries entry (List.mem_of_mem_drop dropped)
  obtain ⟨after, expanded, afterRoaming, moves⟩ := begun.expandAll nodes
  unfold BeamQuery.hop
  dsimp only
  rw [expanded, Option.map_some]
  refine ⟨_, rfl, ⟨afterRoaming.entries, afterRoaming.nodes, afterRoaming.length⟩, ?_⟩
  have known := Finset.card_le_card roaming.nodes
  refine rounds_lt ?_ (Finset.card_le_card afterRoaming.nodes)
    (going.trans_le (roaming.length.trans (Nat.add_le_add_right known _)))
  obtain same | fewer := Nat.eq_or_lt_of_le (Finset.card_le_card moves.visited)
  · -- no node is new, so `k` moves on
    have quiet : after.1.visited = state.visited :=
      (Finset.eq_of_subset_of_card_le moves.visited same.ge).symm
    have place : after.2 = state.retset.length := moves.quiet quiet
    refine Or.inr ⟨same, ?_⟩
    dsimp only
    rw [if_neg (by omega)]
    exact Nat.lt_succ_self _
  · exact Or.inl fewer

/-! ### The search -/

theorem Roaming.loop (roaming : query.Roaming state) {fuel : Nat}
    (enough : query.turnsLeft state < fuel) : ∃ last, query.loop fuel state = some last := by
  induction fuel generalizing state with
  | zero => exact absurd enough (Nat.not_lt_zero _)
  | succ fuel inductionHypothesis =>
    unfold BeamQuery.loop
    split
    · rename_i going
      obtain ⟨next, hopped, nextRoaming, fewer⟩ := roaming.hop going
      rw [hopped, Option.bind_some]
      split
      · exact ⟨next, rfl⟩
      · exact inductionHypothesis nextRoaming (by omega)
    · exact ⟨state, rfl⟩

theorem roaming_start (inside : ∀ id ∈ query.entryIds, id ∈ query.graph.nodes) :
    query.Roaming query.start := by
  have same : (query.start.retset).Perm (query.entryIds.map query.entry) :=
    Retset.perm_sort _
  refine ⟨fun entry member => ?_, fun id member => inside id (List.mem_toFinset.mp member), ?_⟩
  · obtain ⟨id, there, rfl⟩ := List.mem_map.mp (same.subset member)
    exact inside id there
  · rw [same.length_eq, List.length_map]
    exact Nat.le_add_left _ _

/-- From nodes of the graph the search comes to its end, whether its list grows, its time is
limited, or nothing is picked in a round. -/
theorem doBeamSearch_returns (query : BeamQuery Distance)
    (inside : ∀ id ∈ query.entryIds, id ∈ query.graph.nodes) :
    ∃ fuel last, query.doBeamSearch fuel = some last := by
  obtain ⟨last, looped⟩ := (roaming_start inside).loop (Nat.lt_succ_self _)
  refine ⟨(query.turnsLeft query.start).succ,
    { last with fullRetset := sortPool last.fullRetset }, ?_⟩
  unfold doBeamSearch
  rw [looped, Option.map_some]

end BeamQuery

end OdinVector
