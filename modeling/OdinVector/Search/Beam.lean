/-
This file models `do_beam_search`: it keeps a sorted list of the nodes that it has seen,
picks the first ones that are not expanded, reads them, and offers their neighbours to
the list. A cursor goes over the list and back to the place of the first new entry.

A node stands for the record that its id is mapped to, and the locks, page references
and scratch buffers around the reads are left out.
-/

import OdinVector.Search.Retset

namespace OdinVector

variable {Distance : Type} [LinearOrder Distance]

/-- What `do_beam_search` is called with, and the distances to its query. -/
structure BeamQuery (Distance : Type) where
  graph : DiskGraph
  id2tag : Nat → Nat
  pqDist : Nat → Distance
  exactDist : Nat → Distance
  medoid : Nat
  /-- The `mem_L` nodes that `mem_index_` gives. -/
  memTags : List Nat
  lSearch : Nat
  beamWidth : Nat
  dynSearchL : Bool
  /-- `exclude_nodes`: tags. -/
  excludeNodes : List Nat
  /-- Whether the time is over after a number of hops. -/
  timeOver : Nat → Bool

/-- The state of the search loop. -/
structure BeamState (Distance : Type) where
  retset : List (PoolEntry Distance)
  visited : Finset Nat
  lSearch : Nat
  k : Nat
  hops : Nat
  fullRetset : List (Neighbor Distance)

namespace BeamState

/-- The nodes that were expanded, in their order. -/
def expanded (state : BeamState Distance) : List Nat :=
  state.fullRetset.map Neighbor.id

/-- An expanded node with its exact distance. -/
def push (state : BeamState Distance) (neighbor : Neighbor Distance) : BeamState Distance :=
  { state with fullRetset := state.fullRetset ++ [neighbor] }

end BeamState

namespace BeamQuery

variable (query : BeamQuery Distance)

/-- The nodes that the search starts with. -/
def entryIds : List Nat :=
  if query.memTags = [] then [query.medoid] else query.memTags.take query.lSearch

/-- The entry of a node that is not expanded. -/
def entry (id : Nat) : PoolEntry Distance where
  id := id
  distance := query.pqDist id
  flag := true

/-- The state before the loop. -/
def start : BeamState Distance where
  retset := Retset.sort id (query.entryIds.map query.entry)
  visited := query.entryIds.toFinset
  lSearch := query.lSearch
  k := 0
  hops := 0
  fullRetset := []

/-- The loop that picks the frontier from the entries from `marker` on, and clears their
flags. -/
def pickFrontier : List (PoolEntry Distance) → List Nat → List (PoolEntry Distance) × List Nat
  | [], frontier => ([], frontier)
  | entry :: rest, frontier =>
    if frontier.length < query.beamWidth then
      if entry.flag then
        let (rest, frontier) := pickFrontier rest (frontier ++ [entry.id])
        ({ entry with flag := false } :: rest, frontier)
      else
        let (rest, frontier) := pickFrontier rest frontier
        (entry :: rest, frontier)
    else (entry :: rest, frontier)

/-- A neighbour of an expanded node; `nk` is the least place of a new entry, and `none` is the
`crash` for an id that is too large. -/
def visit (search : BeamState Distance × Nat) (nbr : Nat) : Option (BeamState Distance × Nat) :=
  let (state, nk) := search
  if query.graph.curId < nbr then none
  else if nbr ∈ state.visited then some (state, nk)
  else
    let (retset, nk) := Retset.offer id state.lSearch state.retset nk (query.entry nbr)
    some ({ state with retset := retset, visited := insert nbr state.visited }, nk)

/-- The scan of `dyn_search_l`: the index of the last entry that is needed for enough nodes
that are not excluded, or the size of the list. -/
def dynScan : List (PoolEntry Distance) → Nat → Nat → Nat
  | [], cur, _ => cur
  | entry :: rest, cur, tot =>
    if query.id2tag entry.id ∉ query.excludeNodes then
      if tot + 1 = query.lSearch then cur else dynScan rest (cur + 1) (tot + 1)
    else dynScan rest (cur + 1) tot

/-- The expansion of a node of the frontier; `none` is also a node that does not exist. -/
def expand (search : BeamState Distance × Nat) (id : Nat) : Option (BeamState Distance × Nat) :=
  if id ∈ query.graph.nodes then
    ((query.graph.nbrs id).foldlM query.visit
      (search.1.push ⟨id, query.exactDist id⟩, search.2)).map fun (state, nk) =>
        if query.dynSearchL then
          ({ state with lSearch := max query.lSearch (query.dynScan state.retset 0 0 + 1) }, nk)
        else (state, nk)
  else none

/-- One round of `while (k < cur_list_size)`. -/
def hop (state : BeamState Distance) : Option (BeamState Distance) :=
  let (rest, frontier) := query.pickFrontier (state.retset.drop state.k) []
  let retset := state.retset.take state.k ++ rest
  (frontier.foldlM query.expand ({ state with retset := retset }, state.retset.length)).map
    fun (next, nk) =>
      { next with
        k := if nk ≤ state.k then nk else state.k + 1
        hops := state.hops + 1 }

/-- The loop; `none` is also a loop that goes on when the fuel is used up. -/
def loop : Nat → BeamState Distance → Option (BeamState Distance)
  | 0, _ => none
  | fuel + 1, state =>
    if state.k < state.retset.length then
      (query.hop state).bind fun next =>
        if query.timeOver next.hops then some next else loop fuel next
    else some state

/-- `do_beam_search`: the state in the end, with `expanded_nodes_info` sorted. -/
def doBeamSearch (fuel : Nat) : Option (BeamState Distance) :=
  (query.loop fuel query.start).map fun last =>
    { last with fullRetset := sortPool last.fullRetset }

/-! ### The invariant of the loop -/

/-- What holds while the nodes of `frontier` are to be expanded and the neighbours in `left`
are to be visited. -/
structure Beaming (frontier left : List Nat) (state : BeamState Distance) : Prop where
  limit : state.lSearch = query.lSearch
  entered : ∀ id ∈ query.entryIds, id ∈ state.visited
  nearest : Retset.Nearest id query.pqDist query.lSearch state.visited state.retset
  nonempty : state.retset ≠ []
  nodes : state.visited ⊆ query.graph.nodes
  lowered : ∀ entry ∈ state.retset, entry.flag = false → entry.id ∈ state.expanded ++ frontier
  raised : ∀ entry ∈ state.retset, entry.flag = true → entry.id ∉ state.expanded ++ frontier
  once : (state.expanded ++ frontier).Nodup
  seen : ∀ id ∈ state.expanded ++ frontier, id ∈ state.visited
  covered : ∀ id ∈ state.expanded, ∀ nbr ∈ query.graph.nbrs id, nbr ∈ state.visited ∨ nbr ∈ left

variable {query} {frontier left : List Nat} {state : BeamState Distance}

/-! ### Picking the frontier -/

/-- An entry that is not expanded is picked. -/
theorem Beaming.pick {before rest : List (PoolEntry Distance)} {entry : PoolEntry Distance}
    (beaming : query.Beaming frontier left { state with retset := before ++ entry :: rest })
    (flag : entry.flag = true) :
    query.Beaming (frontier ++ [entry.id]) left
      { state with retset := before ++ { entry with flag := false } :: rest } := by
  have there : entry ∈ before ++ entry :: rest :=
    List.mem_append_right _ List.mem_cons_self
  have new := beaming.raised entry there flag
  have known : entry.id ∈ state.visited :=
    beaming.nearest.nearest.subset _ (List.mem_map_of_mem there)
  have same : (id { entry with flag := false } : PoolEntry Distance).id = (id entry).id := rfl
  have others : ∀ other ∈ before ++ { entry with flag := false } :: rest,
      other = { entry with flag := false } ∨ other ∈ before ++ entry :: rest ∧
        other.id ≠ entry.id :=
    fun other member => Retset.mem_replace beaming.nearest.nearest.nodup member
  refine ⟨beaming.limit, beaming.entered, ⟨fun other member => ?_, ?_⟩, fun empty => ?_,
    beaming.nodes, fun other member flagged => ?_, fun other member flagged => ?_, ?_, ?_,
    beaming.covered⟩
  · obtain rfl | ⟨old, -⟩ := others other member
    · exact beaming.nearest.measured entry there
    · exact beaming.nearest.measured other old
  · show NearestList.Nearest _ _ _ (Retset.ids id _)
    rw [Retset.ids_replace same]
    exact beaming.nearest.nearest
  · exact absurd empty (List.append_ne_nil_of_right_ne_nil _ (List.cons_ne_nil _ _))
  · rw [← List.append_assoc]
    obtain rfl | ⟨old, -⟩ := others other member
    · exact List.mem_append_right _ (List.mem_singleton_self _)
    · exact List.mem_append_left _ (beaming.lowered other old flagged)
  · rw [← List.append_assoc]
    obtain rfl | ⟨old, different⟩ := others other member
    · exact absurd flagged Bool.false_ne_true
    · intro either
      obtain before | last := List.mem_append.mp either
      · exact beaming.raised other old flagged before
      · exact different (List.mem_singleton.mp last)
  · rw [← List.append_assoc]
    exact nodup_snoc beaming.once new
  · rw [← List.append_assoc]
    intro other member
    obtain before | last := List.mem_append.mp member
    · exact beaming.seen other before
    · rw [List.mem_singleton.mp last]
      exact known

theorem Beaming.pickFrontier {rest : List (PoolEntry Distance)} (before : List (PoolEntry Distance))
    (beaming : query.Beaming frontier left { state with retset := before ++ rest }) :
    query.Beaming (query.pickFrontier rest frontier).2 left
      { state with retset := before ++ (query.pickFrontier rest frontier).1 } := by
  induction rest generalizing before frontier with
  | nil => exact beaming
  | cons entry rest inductionHypothesis =>
    unfold BeamQuery.pickFrontier
    split
    · split
      · rename_i flag
        have picked := inductionHypothesis (before ++ [{ entry with flag := false }]) (by
          rw [List.append_assoc]
          exact beaming.pick flag)
        rw [List.append_assoc] at picked
        exact picked
      · have kept := inductionHypothesis (before ++ [entry]) (by
          rw [List.append_assoc]
          exact beaming)
        rw [List.append_assoc] at kept
        exact kept
    · exact beaming

omit [LinearOrder Distance] in
@[simp] theorem length_pickFrontier (rest : List (PoolEntry Distance)) (frontier : List Nat) :
    (query.pickFrontier rest frontier).1.length = rest.length := by
  induction rest generalizing frontier with
  | nil => rfl
  | cons entry rest inductionHypothesis =>
    unfold BeamQuery.pickFrontier
    split
    · split <;> exact congrArg (· + 1) (inductionHypothesis _)
    · rfl

omit [LinearOrder Distance] in
/-- The first entry is not flagged after the frontier was picked. -/
theorem pickFrontier_head (wide : 0 < query.beamWidth) (rest : List (PoolEntry Distance)) :
    ∀ entry ∈ (query.pickFrontier rest []).1.take 1, entry.flag = false := by
  intro entry member
  cases rest with
  | nil => exact absurd member List.not_mem_nil
  | cons first rest =>
    have room : ([] : List Nat).length < query.beamWidth := wide
    unfold BeamQuery.pickFrontier at member
    rw [if_pos room] at member
    split at member
    · rw [List.mem_singleton.mp member]
    · rename_i flag
      rw [List.mem_singleton.mp member]
      exact Bool.eq_false_of_not_eq_true flag

/-! ### Visiting neighbours -/

/-- What a part of a round does: `k` stays, nodes are visited, and when no node is visited the
least place of a new entry stays. -/
structure Moves (before after : BeamState Distance × Nat) : Prop where
  k : after.1.k = before.1.k
  visited : before.1.visited ⊆ after.1.visited
  quiet : after.1.visited = before.1.visited → after.2 = before.2

omit [LinearOrder Distance] in
theorem Moves.refl (search : BeamState Distance × Nat) : Moves search search :=
  ⟨rfl, Finset.Subset.refl _, fun _ => rfl⟩

omit [LinearOrder Distance] in
theorem Moves.trans {first second third : BeamState Distance × Nat} (before : Moves first second)
    (after : Moves second third) : Moves first third := by
  refine ⟨after.k.trans before.k, before.visited.trans after.visited, fun same => ?_⟩
  have middle : second.1.visited = first.1.visited :=
    Finset.Subset.antisymm (same ▸ after.visited) before.visited
  exact (after.quiet (same.trans middle.symm)).trans (before.quiet middle)

/-- The entries before the least place of a new one stay, too. -/
structure Goes (before after : BeamState Distance × Nat) : Prop extends Moves before after where
  least : after.2 ≤ before.2
  inside : after.2 ≤ after.1.retset.length
  kept : after.1.retset.take after.2 = before.1.retset.take after.2

omit [LinearOrder Distance] in
theorem Goes.refl {search : BeamState Distance × Nat} (inside : search.2 ≤ search.1.retset.length) :
    Goes search search :=
  ⟨Moves.refl search, le_rfl, inside, rfl⟩

omit [LinearOrder Distance] in
theorem Goes.trans {first second third : BeamState Distance × Nat} (before : Goes first second)
    (after : Goes second third) : Goes first third := by
  refine ⟨before.toMoves.trans after.toMoves, after.least.trans before.least, after.inside,
    after.kept.trans ?_⟩
  have shorter := congrArg (List.take third.2) before.kept
  rwa [List.take_take, List.take_take, Nat.min_eq_left after.least] at shorter

/-- The nodes whose neighbours are visited, when one more is. -/
theorem Beaming.covered_more {nbr : Nat} (beaming : query.Beaming frontier (nbr :: left) state)
    {visited : Finset Nat} (more : state.visited ⊆ visited) (there : nbr ∈ visited) :
    ∀ id ∈ state.expanded, ∀ other ∈ query.graph.nbrs id, other ∈ visited ∨ other ∈ left := by
  intro id member other adjacent
  obtain before | todo := beaming.covered id member other adjacent
  · exact Or.inl (more before)
  · obtain rfl | later := List.mem_cons.mp todo
    · exact Or.inl there
    · exact Or.inr later

/-- A neighbour that was not seen is offered to the list. -/
theorem Beaming.enter {nbr : Nat} (beaming : query.Beaming frontier (nbr :: left) state)
    (node : nbr ∈ query.graph.nodes) (fresh : nbr ∉ state.visited) {nk : Nat}
    {after : List (PoolEntry Distance) × Nat}
    (nearest : Retset.Nearest id query.pqDist query.lSearch (insert nbr state.visited) after.1)
    (offered : Retset.Offered query.lSearch state.retset nk (query.entry nbr) after) :
    query.Beaming frontier left
      { state with retset := after.1, visited := insert nbr state.visited } where
  limit := beaming.limit
  entered id member := Finset.mem_insert_of_mem (beaming.entered id member)
  nearest := nearest
  nonempty := offered.nonempty beaming.nonempty
  nodes := Finset.insert_subset node beaming.nodes
  lowered entry member flag := by
    obtain rfl | old := offered.mem member
    · exact absurd flag.symm Bool.false_ne_true
    · exact beaming.lowered entry old flag
  raised entry member flag := by
    obtain rfl | old := offered.mem member
    · exact fun before => fresh (beaming.seen nbr before)
    · exact beaming.raised entry old flag
  once := beaming.once
  seen id member := Finset.mem_insert_of_mem (beaming.seen id member)
  covered := beaming.covered_more (Finset.subset_insert _ _) (Finset.mem_insert_self _ _)

/-- The next neighbour is visited. -/
theorem Beaming.visit {nbr : Nat} (beaming : query.Beaming frontier (nbr :: left) state)
    (node : nbr ∈ query.graph.nodes) {nk : Nat} (inside : nk ≤ state.retset.length) :
    ∃ after, query.visit (state, nk) nbr = some after ∧ query.Beaming frontier left after.1 ∧
      Goes (state, nk) after := by
  unfold BeamQuery.visit
  dsimp only
  rw [if_neg (Nat.not_lt.mpr (query.graph.bounded nbr node))]
  split
  · rename_i known
    exact ⟨_, rfl, { beaming with covered := beaming.covered_more subset_rfl known },
      Goes.refl inside⟩
  · rename_i fresh
    have new : (id (query.entry nbr)).id ∉ state.visited := fresh
    obtain ⟨nearest, offered⟩ := beaming.nearest.offer beaming.nonempty nk new rfl
    have same : Retset.offer id state.lSearch state.retset nk (query.entry nbr) =
        Retset.offer id query.lSearch state.retset nk (query.entry nbr) := by
      rw [beaming.limit]
    rw [same]
    obtain ⟨least, within, kept⟩ := offered.keepsBefore inside
    have quiet : insert nbr state.visited = state.visited →
        (Retset.offer id query.lSearch state.retset nk (query.entry nbr)).2 = nk :=
      fun same => absurd (same ▸ Finset.mem_insert_self nbr _) fresh
    exact ⟨_, rfl, beaming.enter node fresh nearest offered,
      ⟨rfl, Finset.subset_insert _ _, quiet⟩, least, within, kept⟩

theorem Beaming.visitAll {nbrs : List Nat} {search : BeamState Distance × Nat}
    (beaming : query.Beaming frontier nbrs search.1)
    (nodes : ∀ nbr ∈ nbrs, nbr ∈ query.graph.nodes)
    (inside : search.2 ≤ search.1.retset.length) :
    ∃ after, nbrs.foldlM query.visit search = some after ∧ query.Beaming frontier [] after.1 ∧
      Goes search after := by
  induction nbrs generalizing search with
  | nil => exact ⟨search, rfl, beaming, Goes.refl inside⟩
  | cons nbr rest inductionHypothesis =>
    obtain ⟨next, visited, nextBeaming, goes⟩ :=
      beaming.visit (nodes nbr List.mem_cons_self) inside
    obtain ⟨after, restVisited, afterBeaming, restGoes⟩ := inductionHypothesis nextBeaming
      (fun other member => nodes other (List.mem_cons_of_mem _ member)) goes.inside
    refine ⟨after, ?_, afterBeaming, goes.trans restGoes⟩
    rw [List.foldlM_cons, visited]
    exact restVisited

/-! ### Rounds -/

/-- The next node of the frontier is expanded. -/
theorem Beaming.expand (plain : query.dynSearchL = false) {id : Nat}
    {search : BeamState Distance × Nat} (beaming : query.Beaming (id :: frontier) [] search.1)
    (inside : search.2 ≤ search.1.retset.length) :
    ∃ after, query.expand search id = some after ∧ query.Beaming frontier [] after.1 ∧
      Goes search after := by
  have node := beaming.nodes (beaming.seen id (List.mem_append_right _ List.mem_cons_self))
  have expanded : (search.1.push ⟨id, query.exactDist id⟩).expanded = search.1.expanded ++ [id] :=
    List.map_append
  have same : (search.1.push ⟨id, query.exactDist id⟩).expanded ++ frontier =
      search.1.expanded ++ id :: frontier := by
    rw [expanded, List.append_assoc]
    rfl
  have pushed : query.Beaming frontier (query.graph.nbrs id)
      (search.1.push ⟨id, query.exactDist id⟩) := by
    refine ⟨beaming.limit, beaming.entered, beaming.nearest, beaming.nonempty, beaming.nodes,
      ?_, ?_, ?_, ?_, ?_⟩
    · rw [same]
      exact beaming.lowered
    · rw [same]
      exact beaming.raised
    · rw [same]
      exact beaming.once
    · rw [same]
      exact beaming.seen
    · rw [expanded]
      intro other member nbr adjacent
      obtain before | last := List.mem_append.mp member
      · exact Or.inl ((beaming.covered other before nbr adjacent).resolve_right List.not_mem_nil)
      · rw [List.mem_singleton.mp last] at adjacent
        exact Or.inr adjacent
  have start : Prod.snd (search.1.push ⟨id, query.exactDist id⟩, search.2) ≤
      search.1.retset.length := inside
  obtain ⟨after, visited, afterBeaming, goes⟩ := Beaming.visitAll pushed
    (query.graph.closed id node) start
  unfold BeamQuery.expand
  rw [if_pos node, visited, Option.map_some, plain]
  exact ⟨_, rfl, afterBeaming, ⟨goes.k, goes.visited, goes.quiet⟩, goes.least, goes.inside,
    goes.kept⟩

theorem Beaming.expandAll (plain : query.dynSearchL = false) {search : BeamState Distance × Nat}
    (beaming : query.Beaming frontier [] search.1) (inside : search.2 ≤ search.1.retset.length) :
    ∃ after, frontier.foldlM query.expand search = some after ∧ query.Beaming [] [] after.1 ∧
      Goes search after := by
  induction frontier generalizing search with
  | nil => exact ⟨search, rfl, beaming, Goes.refl inside⟩
  | cons id rest inductionHypothesis =>
    obtain ⟨next, expanded, nextBeaming, goes⟩ := beaming.expand plain inside
    obtain ⟨after, restExpanded, afterBeaming, restGoes⟩ :=
      inductionHypothesis nextBeaming goes.inside
    refine ⟨after, ?_, afterBeaming, goes.trans restGoes⟩
    rw [List.foldlM_cons, expanded]
    exact restExpanded

/-- The entries before the cursor are not flagged. -/
def Swept (state : BeamState Distance) : Prop :=
  ∀ entry ∈ state.retset.take state.k, entry.flag = false

/-- The rounds that may be left. -/
def roundsLeft (query : BeamQuery Distance) (state : BeamState Distance) : Nat :=
  (query.graph.nodes.card - state.visited.card) * (query.graph.nodes.card + 1) +
    (query.graph.nodes.card - state.k)

/-- Fewer rounds are left after one that sees a node or moves the cursor on. -/
theorem rounds_lt {nodes bound seen next k cursor : Nat}
    (goesOn : seen < next ∨ seen = next ∧ k < cursor) (known : next ≤ nodes) (inside : k < bound) :
    (nodes - next) * (bound + 1) + (bound - cursor) <
      (nodes - seen) * (bound + 1) + (bound - k) := by
  obtain more | ⟨rfl, later⟩ := goesOn
  · have product : (nodes - next + 1) * (bound + 1) ≤ (nodes - seen) * (bound + 1) :=
      Nat.mul_le_mul_right _ (by omega)
    rw [Nat.add_mul, Nat.one_mul] at product
    omega
  · omega

theorem Beaming.length_le (beaming : query.Beaming frontier left state) :
    state.retset.length ≤ query.graph.nodes.card := by
  have length := beaming.nearest.nearest.length
  have card := Finset.card_le_card beaming.nodes
  rw [Retset.ids, List.length_map] at length
  omega

theorem Beaming.hop (plain : query.dynSearchL = false) (wide : 0 < query.beamWidth)
    (beaming : query.Beaming [] [] state) (swept : Swept state)
    (going : state.k < state.retset.length) :
    ∃ next, query.hop state = some next ∧ query.Beaming [] [] next ∧ Swept next ∧
      query.roundsLeft next < query.roundsLeft state := by
  let rest := query.pickFrontier (state.retset.drop state.k) []
  have whole : query.Beaming [] []
      { state with retset := state.retset.take state.k ++ state.retset.drop state.k } := by
    rw [List.take_append_drop]
    exact beaming
  have picked := whole.pickFrontier (state.retset.take state.k)
  have prefixLength : (state.retset.take state.k).length = state.k := by
    rw [List.length_take, Nat.min_eq_left going.le]
  have length : (state.retset.take state.k ++ rest.1).length = state.retset.length := by
    rw [List.length_append, length_pickFrontier, ← List.length_append, List.take_append_drop]
  have front : ∀ entry ∈ (state.retset.take state.k ++ rest.1).take (state.k + 1),
      entry.flag = false := by
    intro entry member
    rw [List.take_append, prefixLength, Nat.add_sub_cancel_left] at member
    obtain before | first := List.mem_append.mp member
    · exact swept entry (List.mem_of_mem_take before)
    · exact pickFrontier_head wide _ entry first
  let begun : BeamState Distance × Nat :=
    ({ state with retset := state.retset.take state.k ++ rest.1 }, state.retset.length)
  have ready : query.Beaming rest.2 [] begun.1 := picked
  obtain ⟨after, expanded, afterBeaming, goes⟩ := ready.expandAll plain length.ge
  have kept : ∀ count ≤ after.2, after.1.retset.take count =
      (state.retset.take state.k ++ rest.1).take count := by
    intro count less
    have shorter := congrArg (List.take count) goes.kept
    rwa [List.take_take, List.take_take, Nat.min_eq_left less] at shorter
  unfold BeamQuery.hop
  dsimp only
  rw [expanded, Option.map_some]
  refine ⟨_, rfl, { afterBeaming with }, fun entry member => ?_, ?_⟩
  · refine front entry ?_
    dsimp only at member
    by_cases back : after.2 ≤ state.k
    · rw [if_pos back, kept after.2 le_rfl] at member
      have shorter := List.take_subset_take_left (state.retset.take state.k ++ rest.1)
        (back.trans (Nat.le_succ state.k))
      exact shorter member
    · rw [if_neg back, kept (state.k + 1) (Nat.not_le.mp back)] at member
      exact member
  · have size := beaming.length_le
    have more := Finset.card_le_card goes.visited
    have bound := Finset.card_le_card afterBeaming.nodes
    refine rounds_lt ?_ bound (going.trans_le size)
    obtain same | fewer := Nat.eq_or_lt_of_le more
    · -- No node is new, so the least place is the size of the list and `k` moves on.
      have quiet : after.1.visited = state.visited :=
        (Finset.eq_of_subset_of_card_le goes.visited same.ge).symm
      have place : after.2 = state.retset.length := goes.quiet quiet
      refine Or.inr ⟨same, ?_⟩
      dsimp only
      rw [if_neg (by omega)]
      exact Nat.lt_succ_self _
    · exact Or.inl fewer

/-- A query whose list has a fixed length, and whose search has no time limit. -/
structure Plain (query : BeamQuery Distance) : Prop where
  dynSearchL : query.dynSearchL = false
  timeOver : ∀ hops, query.timeOver hops = false
  beamWidth : 0 < query.beamWidth
  lSearch : 0 < query.lSearch

theorem Beaming.loop (plain : query.Plain) (beaming : query.Beaming [] [] state)
    (swept : Swept state) {fuel : Nat} (enough : query.roundsLeft state < fuel) :
    ∃ last, query.loop fuel state = some last ∧ query.Beaming [] [] last ∧
      ∀ entry ∈ last.retset, entry.flag = false := by
  induction fuel generalizing state with
  | zero => exact absurd enough (Nat.not_lt_zero _)
  | succ fuel inductionHypothesis =>
    unfold BeamQuery.loop
    split
    · rename_i going
      obtain ⟨next, hopped, nextBeaming, nextSwept, less⟩ :=
        beaming.hop plain.dynSearchL plain.beamWidth swept going
      have timely : ¬ query.timeOver next.hops = true := by
        rw [plain.timeOver]
        exact Bool.false_ne_true
      rw [hopped, Option.bind_some, if_neg timely]
      exact inductionHypothesis nextBeaming nextSwept (by omega)
    · rename_i ended
      refine ⟨state, rfl, beaming, fun entry member => swept entry ?_⟩
      rwa [List.take_of_length_le (Nat.not_lt.mp ended)]

/-! ### The fixed point -/

/-- What a search has found in the end: the nodes that it starts with were seen, the list has the
nearest of the nodes that were seen, each of them was expanded, no node was expanded twice, and
the neighbours of the nodes that were expanded were seen. -/
structure FixedPoint (query : BeamQuery Distance) (last : BeamState Distance) : Prop where
  entered : ∀ id ∈ query.entryIds, id ∈ last.visited
  measured : Retset.Measured id query.pqDist last.retset
  nearest : NearestList.Nearest query.pqDist query.lSearch last.visited (Retset.ids id last.retset)
  expanded : ∀ entry ∈ last.retset, entry.id ∈ last.expanded
  once : last.expanded.Nodup
  closed : ∀ id ∈ last.expanded, ∀ nbr ∈ query.graph.nbrs id, nbr ∈ last.visited

theorem beaming_start (plain : query.Plain) (unaided : query.memTags = [])
    (node : query.medoid ∈ query.graph.nodes) : query.Beaming [] [] query.start := by
  have entries : query.entryIds = [query.medoid] := if_pos unaided
  have retset : query.start.retset = [query.entry query.medoid] := by
    unfold start
    rw [entries]
    rfl
  have visited : query.start.visited = {query.medoid} := by
    unfold start
    rw [entries]
    rfl
  refine ⟨rfl, fun id => List.mem_toFinset.mpr, ⟨fun entry member => ?_, ?_⟩, fun empty => ?_, ?_,
    fun entry member flag => ?_, fun entry _ _ => List.not_mem_nil, List.nodup_nil, nofun, nofun⟩
  · rw [retset] at member
    rw [List.mem_singleton.mp member]
    rfl
  · rw [retset, visited]
    exact NearestList.nearest_singleton plain.lSearch query.medoid
  · rw [retset] at empty
    exact List.cons_ne_nil _ _ empty
  · rw [visited]
    exact Finset.singleton_subset_iff.mpr node
  · rw [retset] at member
    rw [List.mem_singleton.mp member] at flag
    exact absurd flag.symm Bool.false_ne_true

/-- The search has expanded nodes of the graph only, and ends within the rounds that are left. -/
theorem doBeamSearch_nodes (plain : query.Plain) (unaided : query.memTags = [])
    (node : query.medoid ∈ query.graph.nodes) {fuel : Nat}
    (enough : query.roundsLeft query.start < fuel) :
    ∃ last, query.doBeamSearch fuel = some last ∧
      ∀ neighbor ∈ last.fullRetset, neighbor.id ∈ query.graph.nodes := by
  have swept : Swept query.start := by
    intro entry member
    exact absurd member List.not_mem_nil
  obtain ⟨last, looped, beaming, -⟩ := (beaming_start plain unaided node).loop plain swept enough
  refine ⟨{ last with fullRetset := sortPool last.fullRetset }, ?_, fun neighbor member => ?_⟩
  · unfold doBeamSearch
    rw [looped, Option.map_some]
  · have expanded : neighbor.id ∈ last.expanded :=
      List.mem_map_of_mem ((perm_sortPool last.fullRetset).subset member)
    exact beaming.nodes (beaming.seen _ (List.mem_append_left _ expanded))

/-- Four nodes in a ring, of which the third one is the nearest. -/
def ring : BeamQuery Nat where
  graph :=
    { nodes := {0, 1, 2, 3}
      nbrs := fun id => [(id + 1) % 4]
      curId := 3
      closed := by decide
      bounded := by decide }
  id2tag := id
  pqDist id := if id = 2 then 0 else id + 1
  exactDist := id
  medoid := 0
  memTags := []
  lSearch := 2
  beamWidth := 2
  dynSearchL := false
  excludeNodes := []
  timeOver _ := false

end BeamQuery

end OdinVector
