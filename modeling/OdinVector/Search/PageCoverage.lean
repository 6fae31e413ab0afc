/-
This file says which nodes of the pages that it reads `page_search` expands. The nodes that it
picks are expanded in their round, and the others of their pages in the next one. A search
that ends has no next round for the pages that it read last.
-/

import OdinVector.Search.PageSearch

namespace OdinVector

variable {Distance : Type} [LinearOrder Distance]

namespace PageQuery

variable {query : PageQuery Distance} {state : PageState Distance}

/-! ### What the parts of a round do -/

/-- Nodes are put in `full_retset` with their distances, and the neighbours of nodes are seen
and offered to the list. -/
structure Handles (query : PageQuery Distance) (exact pushed : List Nat)
    (before after : PageState Distance × Nat) : Prop where
  fullRetset : after.1.fullRetset =
    before.1.fullRetset ++ exact.map fun id => ⟨id, query.exactDist id⟩
  pageVisited : after.1.pageVisited = before.1.pageVisited
  visited : before.1.visited ⊆ after.1.visited
  seen : ∀ id ∈ pushed, ∀ nbr ∈ query.graph.nbrs id, nbr ∈ after.1.visited
  listed : (∀ id ∈ pushed, id ∈ query.graph.nodes) →
    (∀ entry ∈ before.1.retset, entry.id ∈ query.graph.nodes) →
      ∀ entry ∈ after.1.retset, entry.id ∈ query.graph.nodes

omit [LinearOrder Distance] in
theorem Handles.refl (search : PageState Distance × Nat) : query.Handles [] [] search search where
  fullRetset := (List.append_nil _).symm
  pageVisited := rfl
  visited := Finset.Subset.refl _
  seen _ member := absurd member List.not_mem_nil
  listed _ old := old

omit [LinearOrder Distance] in
theorem Handles.trans {exact pushed moreExact morePushed : List Nat}
    {first second third : PageState Distance × Nat}
    (before : query.Handles exact pushed first second)
    (after : query.Handles moreExact morePushed second third) :
    query.Handles (exact ++ moreExact) (pushed ++ morePushed) first third where
  fullRetset := by
    rw [after.fullRetset, before.fullRetset, List.map_append, List.append_assoc]
  pageVisited := after.pageVisited.trans before.pageVisited
  visited := before.visited.trans after.visited
  seen id member nbr adjacent := by
    obtain early | late := List.mem_append.mp member
    · exact after.visited (before.seen id early nbr adjacent)
    · exact after.seen id late nbr adjacent
  listed nodes old := by
    refine after.listed (fun id member => nodes id (List.mem_append_right _ member)) ?_
    exact before.listed (fun id member => nodes id (List.mem_append_left _ member)) old

omit [LinearOrder Distance] in
theorem Handles.foldl {Item : Type} {step : PageState Distance × Nat → Item → PageState Distance × Nat}
    {exact pushed : Item → List Nat}
    (each : ∀ search item, query.Handles (exact item) (pushed item) search (step search item))
    (items : List Item) (search : PageState Distance × Nat) :
    query.Handles (items.flatMap exact) (items.flatMap pushed) search (items.foldl step search) := by
  induction items generalizing search with
  | nil => exact Handles.refl search
  | cons item items inductionHypothesis =>
    exact (each search item).trans (inductionHypothesis (step search item))

omit [LinearOrder Distance] in
theorem handles_computeExact (search : PageState Distance × Nat) (id : Nat) :
    query.Handles [id] [] search (query.computeExactDistsAndPush search.1 id, search.2) where
  fullRetset := rfl
  pageVisited := rfl
  visited := Finset.Subset.refl _
  seen _ member := absurd member List.not_mem_nil
  listed _ old := old

/-- Neighbours that are offered change nothing but the list and the least place. -/
theorem pushNbrs_keeps (query : PageQuery Distance) (nbrs : List Nat)
    (search : PageState Distance × Nat) :
    (nbrs.foldl query.pushNbr search).1.fullRetset = search.1.fullRetset ∧
      (nbrs.foldl query.pushNbr search).1.pageVisited = search.1.pageVisited ∧
        (nbrs.foldl query.pushNbr search).1.visited = search.1.visited := by
  induction nbrs generalizing search with
  | nil => exact ⟨rfl, rfl, rfl⟩
  | cons nbr nbrs inductionHypothesis => exact inductionHypothesis (query.pushNbr search nbr)

theorem mem_pushNbrs {nbrs : List Nat} {search : PageState Distance × Nat}
    {entry : PoolEntry Distance} (member : entry ∈ (nbrs.foldl query.pushNbr search).1.retset) :
    (∃ nbr ∈ nbrs, entry = query.entry nbr) ∨ entry ∈ search.1.retset := by
  induction nbrs generalizing search with
  | nil => exact Or.inr member
  | cons nbr nbrs inductionHypothesis =>
    obtain ⟨other, later, same⟩ | before := inductionHypothesis member
    · exact Or.inl ⟨other, List.mem_cons_of_mem _ later, same⟩
    · obtain same | old := Retset.mem_offer before
      · exact Or.inl ⟨nbr, List.mem_cons_self, same⟩
      · exact Or.inr old

theorem handles_computeAndPushNbrs (search : PageState Distance × Nat) (id : Nat) :
    query.Handles [] [id] search (query.computeAndPushNbrs search id) := by
  obtain ⟨fullRetset, pageVisited, visited⟩ := pushNbrs_keeps query
    ((query.graph.nbrs id).foldl Retset.freshNbr ([], search.1.visited)).1
    ({ search.1 with visited :=
      ((query.graph.nbrs id).foldl Retset.freshNbr ([], search.1.visited)).2 }, search.2)
  refine ⟨?_, ?_, ?_, fun other member nbr adjacent => ?_, fun nodes old entry member => ?_⟩
  · rw [List.map_nil, List.append_nil]
    exact fullRetset
  · exact pageVisited
  · refine (Retset.subset_freshNbrs (query.graph.nbrs id) ([], search.1.visited)).trans ?_
    exact visited.symm.subset
  · rw [List.mem_singleton.mp member] at adjacent
    refine visited.symm.subset ?_
    exact Retset.mem_freshNbrs adjacent ([], search.1.visited)
  · obtain ⟨nbr, fresh, rfl⟩ | before := mem_pushNbrs member
    · have adjacent := (Retset.mem_of_mem_freshNbrs fresh).resolve_left List.not_mem_nil
      exact query.graph.closed id (nodes id (List.mem_singleton_self id)) nbr adjacent
    · exact old entry before

omit [LinearOrder Distance] in
theorem handles_computeExacts (query : PageQuery Distance) (ids : List Nat)
    (search : PageState Distance × Nat) :
    query.Handles ids [] search (ids.foldl query.computeExactDistsAndPush search.1, search.2) := by
  induction ids generalizing search with
  | nil => exact Handles.refl search
  | cons id ids inductionHypothesis =>
    exact (handles_computeExact search id).trans
      (inductionHypothesis (query.computeExactDistsAndPush search.1 id, search.2))

theorem handles_computeAndPushAll (query : PageQuery Distance) (ids : List Nat)
    (search : PageState Distance × Nat) :
    query.Handles [] ids search (ids.foldl query.computeAndPushNbrs search) := by
  induction ids generalizing search with
  | nil => exact Handles.refl search
  | cons id ids inductionHypothesis =>
    exact (handles_computeAndPushNbrs search id).trans
      (inductionHypothesis (query.computeAndPushNbrs search id))

omit [LinearOrder Distance] in
/-- The neighbours of the same nodes in another order. -/
theorem Handles.congr {exact pushed others : List Nat} {before after : PageState Distance × Nat}
    (handles : query.Handles exact pushed before after) (same : pushed.Perm others) :
    query.Handles exact others before after where
  fullRetset := handles.fullRetset
  pageVisited := handles.pageVisited
  visited := handles.visited
  seen id member := handles.seen id (same.symm.subset member)
  listed nodes := handles.listed fun id member => nodes id (same.subset member)

theorem handles_expandLast (query : PageQuery Distance) (search : PageState Distance × Nat)
    (io : Nat × Nat) :
    query.Handles (query.others io) (query.others io) search (query.expandLast search io) := by
  have exacts := handles_computeExacts query (query.others io) search
  have pushes := handles_computeAndPushAll query
    ((query.others io).insertionSort fun first second =>
      query.exactDist first ≤ query.exactDist second)
    ((query.others io).foldl query.computeExactDistsAndPush search.1, search.2)
  have both := exacts.trans pushes
  rw [List.append_nil, List.nil_append] at both
  exact both.congr (List.perm_insertionSort _ _)

theorem handles_expandOwn (search : PageState Distance × Nat) {id : Nat}
    (node : id ∈ query.graph.nodes) :
    query.Handles [id] [id] search (query.expandOwn search id) := by
  have own : (query.graph.pageIds (query.graph.id2page id)).filter (· = id) = [id] := by
    have there : id ∈ query.graph.pageIds (query.graph.id2page id) :=
      PageGraph.mem_pageIds.mpr ⟨node, rfl⟩
    refine List.perm_singleton.mp ((List.perm_ext_iff_of_nodup
      (PageGraph.nodup_pageIds.filter _) (List.nodup_singleton id)).mpr fun other => ?_)
    rw [List.mem_filter, List.mem_singleton]
    refine ⟨fun both => of_decide_eq_true both.2, ?_⟩
    rintro rfl
    exact ⟨there, decide_eq_true rfl⟩
  unfold expandOwn
  rw [own]
  exact (handles_computeExact search id).trans (handles_computeAndPushNbrs _ id)

/-! ### What is picked in a round -/

/-- Nodes of the entries are picked whose pages are new and different. -/
structure Picks (query : PageQuery Distance) (rest : List (PoolEntry Distance))
    (before : List Nat × Finset Nat)
    (after : List (PoolEntry Distance) × List Nat × Finset Nat) : Prop where
  ids : Retset.ids id after.1 = Retset.ids id rest
  picked : ∃ picked, after.2.1 = before.1 ++ picked ∧ picked ⊆ Retset.ids id rest ∧
    (picked.map query.graph.id2page).Nodup ∧
      (∀ id ∈ picked, query.graph.id2page id ∉ before.2) ∧
        after.2.2 = before.2 ∪ (picked.map query.graph.id2page).toFinset

omit [LinearOrder Distance] in
theorem picks_none (rest : List (PoolEntry Distance)) (beam : List Nat × Finset Nat) :
    query.Picks rest beam (rest, beam) where
  ids := rfl
  picked := ⟨[], (List.append_nil _).symm, List.nil_subset _, List.nodup_nil, nofun,
    (Finset.union_empty _).symm⟩

omit [LinearOrder Distance] in
theorem picks_pickBeam (query : PageQuery Distance) (rest : List (PoolEntry Distance))
    (beam : List Nat × Finset Nat) :
    query.Picks rest beam (query.pickBeam rest beam) := by
  induction rest generalizing beam with
  | nil => exact picks_none [] beam
  | cons entry rest inductionHypothesis =>
    obtain ⟨frontier, pageVisited⟩ := beam
    unfold pickBeam
    split
    · split
      · rename_i new
        obtain ⟨ids, picked, grown, inRest, apart, fresh, pages⟩ := inductionHypothesis
          (frontier ++ [entry.id], insert (query.graph.id2page entry.id) pageVisited)
        refine ⟨congrArg (entry.id :: ·) ids, entry.id :: picked, ?_, ?_, ?_, ?_, ?_⟩
        · rw [grown, List.append_assoc]
          rfl
        · exact List.cons_subset_cons _ inRest
        · refine List.nodup_cons.mpr ⟨fun again => ?_, apart⟩
          obtain ⟨other, member, same⟩ := List.mem_map.mp again
          exact fresh other member (same ▸ Finset.mem_insert_self _ _)
        · intro id member
          obtain rfl | later := List.mem_cons.mp member
          · exact new.1
          · exact fun old => fresh id later (Finset.mem_insert_of_mem old)
        · rw [pages]
          ext page
          simp only [List.map_cons, List.toFinset_cons, Finset.mem_union, Finset.mem_insert]
          tauto
      · obtain ⟨ids, picked, grown, inRest, others⟩ :=
          inductionHypothesis (frontier, pageVisited)
        exact ⟨congrArg (entry.id :: ·) ids, picked, grown,
          List.subset_cons_of_subset _ inRest, others⟩
    · exact picks_none _ _

/-! ### The invariant -/

/-- A node is on a page that was read in the last round, and was not picked. -/
def Pending (query : PageQuery Distance) (state : PageState Distance) (id : Nat) : Prop :=
  ∃ io ∈ state.lastIoSnapshot, query.graph.id2page id = io.2 ∧ id ≠ io.1

/-- What holds between the rounds: the nodes of the pages that were read are expanded but for
those that are left for the next round. -/
structure Paging (query : PageQuery Distance) (state : PageState Distance) : Prop where
  listed : ∀ entry ∈ state.retset, entry.id ∈ query.graph.nodes
  exact : ∀ neighbor ∈ state.fullRetset, neighbor.distance = query.exactDist neighbor.id
  once : state.expanded.Nodup
  expanded : ∀ id, id ∈ state.expanded ↔ id ∈ query.graph.nodes ∧
    query.graph.id2page id ∈ state.pageVisited ∧ ¬ query.Pending state id
  seen : ∀ id ∈ state.expanded, ∀ nbr ∈ query.graph.nbrs id, nbr ∈ state.visited
  snapshot : ∀ io ∈ state.lastIoSnapshot, io.2 ∈ state.pageVisited
  apart : (state.lastIoSnapshot.map Prod.snd).Nodup

omit [LinearOrder Distance] in
/-- The nodes that are left for the next round. -/
theorem mem_others {id : Nat} : id ∈ state.lastIoSnapshot.flatMap query.others ↔
    id ∈ query.graph.nodes ∧ query.Pending state id := by
  unfold others Pending
  rw [List.mem_flatMap]
  constructor
  · rintro ⟨io, member, inPage⟩
    obtain ⟨onPage, different⟩ := List.mem_filter.mp inPage
    obtain ⟨node, page⟩ := PageGraph.mem_pageIds.mp onPage
    exact ⟨node, io, member, page, of_decide_eq_true different⟩
  · rintro ⟨node, io, member, page, different⟩
    exact ⟨io, member, List.mem_filter.mpr
      ⟨PageGraph.mem_pageIds.mpr ⟨node, page⟩, decide_eq_true different⟩⟩

omit [LinearOrder Distance] in
theorem Paging.nodup_others (paging : query.Paging state) :
    (state.lastIoSnapshot.flatMap query.others).Nodup := by
  refine List.nodup_flatMap.mpr ⟨fun io _ => PageGraph.nodup_pageIds.filter _, ?_⟩
  refine (List.pairwise_map.mp paging.apart).imp fun {first second} different id inFirst inSecond => ?_
  have firstPage := (PageGraph.mem_pageIds.mp (List.mem_filter.mp inFirst).1).2
  have secondPage := (PageGraph.mem_pageIds.mp (List.mem_filter.mp inSecond).1).2
  exact different (firstPage.symm.trans secondPage)

/-- The nodes that are picked in a round. -/
def frontier (query : PageQuery Distance) (state : PageState Distance) : List Nat :=
  (query.beam state).2.1

/-- The nodes that a round expands: those that were left for it and those that are picked. -/
def expandedIn (query : PageQuery Distance) (state : PageState Distance) : List Nat :=
  state.lastIoSnapshot.flatMap query.others ++ query.frontier state

/-- What a round does. -/
structure Advances (query : PageQuery Distance) (state next : PageState Distance) : Prop where
  nodes : ∀ id ∈ query.frontier state, id ∈ query.graph.nodes
  apart : ((query.frontier state).map query.graph.id2page).Nodup
  fresh : ∀ id ∈ query.frontier state, query.graph.id2page id ∉ state.pageVisited
  fullRetset : next.fullRetset =
    state.fullRetset ++ (query.expandedIn state).map fun id => ⟨id, query.exactDist id⟩
  pageVisited : next.pageVisited =
    state.pageVisited ∪ ((query.frontier state).map query.graph.id2page).toFinset
  visited : state.visited ⊆ next.visited
  seen : ∀ id ∈ query.expandedIn state, ∀ nbr ∈ query.graph.nbrs id, nbr ∈ next.visited
  listed : ∀ entry ∈ next.retset, entry.id ∈ query.graph.nodes
  snapshot : next.lastIoSnapshot =
    (query.frontier state).map fun id => (id, query.graph.id2page id)

theorem Paging.advances (paging : query.Paging state) : query.Advances state (query.round state) := by
  obtain ⟨ids, picked, grown, inRest, apart, fresh, pages⟩ :=
    picks_pickBeam query (state.retset.drop state.k) ([], state.pageVisited)
  have same : query.frontier state = picked := grown
  have nodes : ∀ id ∈ query.frontier state, id ∈ query.graph.nodes := by
    intro id member
    rw [same] at member
    obtain ⟨entry, inList, rfl⟩ := List.mem_map.mp (inRest member)
    exact paging.listed entry (List.mem_of_mem_drop inList)
  let begun : PageState Distance × Nat :=
    ({ state with
      retset := state.retset.take state.k ++ (query.beam state).1
      pageVisited := (query.beam state).2.2 }, state.retset.length)
  have begunListed : ∀ entry ∈ begun.1.retset, entry.id ∈ query.graph.nodes := by
    intro entry member
    obtain before | behind := List.mem_append.mp member
    · exact paging.listed entry (List.mem_of_mem_take before)
    · have inIds : entry.id ∈ Retset.ids id (query.beam state).1 := List.mem_map_of_mem behind
      have old : entry.id ∈ Retset.ids id (state.retset.drop state.k) := ids ▸ inIds
      obtain ⟨other, inList, equal⟩ := List.mem_map.mp old
      rw [← equal]
      exact paging.listed other (List.mem_of_mem_drop inList)
  have late := Handles.foldl (handles_expandLast query) state.lastIoSnapshot begun
  have own : ∀ ids : List Nat, (∀ id ∈ ids, id ∈ query.graph.nodes) → ∀ search,
      query.Handles ids ids search (ids.foldl query.expandOwn search) := by
    intro ids
    induction ids with
    | nil => exact fun _ search => Handles.refl search
    | cons id ids inductionHypothesis =>
      intro all search
      exact (handles_expandOwn search (all id List.mem_cons_self)).trans
        (inductionHypothesis (fun other member => all other (List.mem_cons_of_mem _ member)) _)
  have both : query.Handles (query.expandedIn state) (query.expandedIn state) begun
      ((query.frontier state).foldl query.expandOwn
        (state.lastIoSnapshot.foldl query.expandLast begun)) :=
    late.trans (own (query.frontier state) nodes _)
  have all : ∀ id ∈ query.expandedIn state, id ∈ query.graph.nodes := by
    intro id member
    obtain left | picked := List.mem_append.mp member
    · exact (mem_others.mp left).1
    · exact nodes id picked
  refine ⟨nodes, same ▸ apart, same ▸ fresh, both.fullRetset, both.pageVisited.trans ?_,
    both.visited, both.seen, both.listed all begunListed, rfl⟩
  rw [same]
  exact pages

theorem Paging.round (paging : query.Paging state) : query.Paging (query.round state) := by
  have advances := paging.advances
  generalize query.round state = next at advances
  obtain ⟨nodes, apart, fresh, fullRetset, pageVisited, visited, seen, listed, snapshot⟩ := advances
  have expanded : next.expanded = state.expanded ++ query.expandedIn state := by
    unfold PageState.expanded
    rw [fullRetset, List.map_append, List.map_map]
    exact congrArg (_ ++ ·) (List.map_id _)
  have onPages : ∀ id, query.graph.id2page id ∈ next.pageVisited ↔
      query.graph.id2page id ∈ state.pageVisited ∨
        ∃ other ∈ query.frontier state, query.graph.id2page other = query.graph.id2page id := by
    intro id
    rw [pageVisited, Finset.mem_union, List.mem_toFinset, List.mem_map]
  have pendingPage : ∀ id, query.Pending state id → query.graph.id2page id ∈ state.pageVisited := by
    rintro id ⟨io, member, page, -⟩
    rw [page]
    exact paging.snapshot io member
  have pendingNext : ∀ id, query.Pending next id ↔
      ∃ other ∈ query.frontier state, query.graph.id2page id = query.graph.id2page other ∧
        id ≠ other := by
    intro id
    unfold Pending
    rw [snapshot]
    constructor
    · rintro ⟨io, member, page, different⟩
      obtain ⟨other, picked, rfl⟩ := List.mem_map.mp member
      exact ⟨other, picked, page, different⟩
    · rintro ⟨other, picked, page, different⟩
      exact ⟨_, List.mem_map_of_mem picked, page, different⟩
  refine ⟨listed, fun neighbor member => ?_, ?_, fun id => ?_, fun id member nbr adjacent => ?_,
    fun io member => ?_, ?_⟩
  · rw [fullRetset] at member
    obtain old | new := List.mem_append.mp member
    · exact paging.exact neighbor old
    · obtain ⟨id, -, rfl⟩ := List.mem_map.mp new
      rfl
  · rw [expanded, expandedIn]
    refine List.nodup_append.mpr ⟨paging.once, List.nodup_append.mpr
      ⟨paging.nodup_others, apart.of_map _, ?_⟩, ?_⟩
    · intro id left other picked same
      subst same
      exact fresh id picked (pendingPage id (mem_others.mp left).2)
    · intro id old other new same
      subst same
      obtain left | picked := List.mem_append.mp new
      · exact ((paging.expanded id).mp old).2.2 (mem_others.mp left).2
      · exact fresh id picked ((paging.expanded id).mp old).2.1
  · rw [expanded, onPages, pendingNext, expandedIn, List.mem_append, List.mem_append,
      paging.expanded, mem_others]
    constructor
    · rintro (⟨node, page, -⟩ | ⟨node, pending⟩ | picked)
      · refine ⟨node, Or.inl page, ?_⟩
        rintro ⟨other, picked, same, -⟩
        exact fresh other picked (same ▸ page)
      · refine ⟨node, Or.inl (pendingPage id pending), ?_⟩
        rintro ⟨other, picked, same, -⟩
        exact fresh other picked (same ▸ pendingPage id pending)
      · refine ⟨nodes id picked, Or.inr ⟨id, picked, rfl⟩, ?_⟩
        rintro ⟨other, also, same, different⟩
        exact different (List.inj_on_of_nodup_map apart picked also same)
    · rintro ⟨node, page | ⟨other, picked, page⟩, notLeft⟩
      · by_cases pending : query.Pending state id
        · exact Or.inr (Or.inl ⟨node, pending⟩)
        · exact Or.inl ⟨node, page, pending⟩
      · by_cases same : id = other
        · exact Or.inr (Or.inr (same ▸ picked))
        · exact absurd ⟨other, picked, page.symm, same⟩ notLeft
  · rw [expanded] at member
    obtain old | new := List.mem_append.mp member
    · exact visited (paging.seen id old nbr adjacent)
    · exact seen id new nbr adjacent
  · rw [snapshot] at member
    obtain ⟨id, picked, rfl⟩ := List.mem_map.mp member
    exact (onPages id).mpr (Or.inr ⟨id, picked, rfl⟩)
  · rw [snapshot, List.map_map]
    exact apart

/-- The nodes that the search starts with are nodes of the graph. -/
def StartsInGraph (query : PageQuery Distance) : Prop :=
  ∀ id ∈ query.entryIds, id ∈ query.graph.nodes

theorem paging_start (starts : query.StartsInGraph) : query.Paging query.start where
  listed entry member := by
    obtain ⟨id, inEntries, rfl⟩ := List.mem_map.mp ((Retset.perm_sort _).subset member)
    exact starts id inEntries
  exact _ member := absurd member List.not_mem_nil
  once := List.nodup_nil
  expanded id := ⟨fun member => absurd member List.not_mem_nil,
    fun both => absurd both.2.1 (Finset.notMem_empty _)⟩
  seen _ member := absurd member List.not_mem_nil
  snapshot _ member := absurd member List.not_mem_nil
  apart := List.nodup_nil

theorem paging (starts : query.StartsInGraph)
    {guard : PageState Distance → Unit → Prop}
    (reachable : query.search.Reachable guard state) : query.Paging state := by
  induction reachable with
  | initial begins =>
    rw [begins.2]
    exact paging_start starts
  | step _ _ taken inductionHypothesis =>
    obtain ⟨-, same⟩ := Option.ite_none_right_eq_some.mp taken
    rw [← Option.some.inj same]
    exact inductionHypothesis.round

/-! ### The pages that are used -/

/-- Every node of the pages that were read is in `full_retset` once, with its distance, and its
neighbours were seen. -/
def UsesPages (query : PageQuery Distance) (last : PageState Distance) : Prop :=
  ∀ page ∈ last.pageVisited, ∀ id ∈ query.graph.pageIds page,
    ⟨id, query.exactDist id⟩ ∈ last.fullRetset ∧ last.expanded.count id = 1 ∧
      ∀ nbr ∈ query.graph.nbrs id, nbr ∈ last.visited

omit [LinearOrder Distance] in
/-- The pages that were read are used but for the nodes that are left for the next round. -/
theorem Paging.usesPages_iff (paging : query.Paging state) :
    query.UsesPages state ↔ ∀ id ∈ query.graph.nodes, ¬ query.Pending state id := by
  constructor
  · intro uses id node pending
    have page : query.graph.id2page id ∈ state.pageVisited := by
      obtain ⟨io, member, page, -⟩ := pending
      rw [page]
      exact paging.snapshot io member
    obtain ⟨-, count, -⟩ := uses _ page id (PageGraph.mem_pageIds.mpr ⟨node, rfl⟩)
    have expanded : id ∈ state.expanded := List.count_pos_iff.mp (count ▸ Nat.one_pos)
    exact ((paging.expanded id).mp expanded).2.2 pending
  · intro none page read id onPage
    obtain ⟨node, rfl⟩ := PageGraph.mem_pageIds.mp onPage
    have expanded : id ∈ state.expanded := (paging.expanded id).mpr ⟨node, read, none id node⟩
    obtain ⟨neighbor, member, rfl⟩ := List.mem_map.mp expanded
    refine ⟨?_, List.count_eq_one_of_mem paging.once expanded, paging.seen _ expanded⟩
    rw [← paging.exact neighbor member]
    exact member

/-- After a round, and so when the search returns, all pages that were read are used exactly
when every node that was picked in that round is alone on its page. -/
theorem search_usesPages_iff (query : PageQuery Distance) (starts : query.StartsInGraph)
    {state last : PageState Distance}
    (reachable : query.search.Reachable Transition.anyStep state)
    (lastRound : query.search.step state () = some last) :
    query.UsesPages last ↔ ∀ id ∈ query.frontier state, query.graph.Alone id := by
  have before := paging starts reachable
  obtain ⟨-, same⟩ := Option.ite_none_right_eq_some.mp lastRound
  obtain rfl := Option.some.inj same
  have advances := before.advances
  rw [before.round.usesPages_iff]
  constructor
  · intro none id picked other onPage
    obtain ⟨node, page⟩ := PageGraph.mem_pageIds.mp onPage
    by_contra different
    refine none other node ⟨(id, query.graph.id2page id), ?_, page, different⟩
    rw [advances.snapshot]
    exact List.mem_map_of_mem picked
  · rintro alone id node ⟨io, member, page, different⟩
    rw [advances.snapshot] at member
    obtain ⟨picked, inFrontier, rfl⟩ := List.mem_map.mp member
    exact different (alone picked inFrontier id (PageGraph.mem_pageIds.mpr ⟨node, page⟩))

/-- Two nodes that share a page, without edges. -/
def onePage : PageQuery Nat where
  graph :=
    { nnodesPerSector := 2
      pageLayout := fun page slot => if page = 0 then .real slot else .kInvalidID
      id2page := fun _ => 0
      nodes := {0, 1}
      nbrs := fun _ => []
      closed := by decide
      placed := by decide
      apart := by
        intro page slot inside id held
        by_cases first : page = 0
        · rw [if_pos first, SlotId.real.injEq] at held
          subst held first
          refine ⟨?_, rfl⟩
          revert slot
          decide
        · rw [if_neg first] at held
          exact absurd held nofun
      once := by
        intro page first _ second _ id firstHas secondHas
        by_cases zero : page = 0
        · rw [if_pos zero, SlotId.real.injEq] at firstHas secondHas
          exact firstHas.trans secondHas.symm
        · rw [if_neg zero] at firstHas
          exact absurd firstHas nofun }
  pqDist := id
  exactDist := id
  memTags := []
  lSearch := 1
  beamWidth := 1

/-- The second node of `onePage` is on a page that is read, and is not expanded. -/
theorem not_usesPages_onePage : ¬ ∀ state last : PageState Nat,
    onePage.search.Reachable Transition.anyStep state →
      onePage.search.step state () = some last → last.retset.length ≤ last.k →
        onePage.UsesPages last := by
  intro always
  have uses := always onePage.start (onePage.round onePage.start) (.initial ⟨by decide, rfl⟩)
    (step_eq_round (by decide +kernel)) (by decide +kernel)
  have counted := (uses 0 (by decide +kernel) 1 (by decide +kernel)).2.1
  exact absurd counted (by decide +kernel)

private theorem closed_twoPages : ∀ id ∈ ({0, 1} : Finset Nat),
    ∀ nbr ∈ (if id = 0 then [1] else []), nbr ∈ ({0, 1} : Finset Nat) := by
  decide

/-- Two nodes with a page each, and an edge between them. -/
def twoPages : PageQuery Nat where
  graph :=
    { nnodesPerSector := 1
      pageLayout := fun page _ => if page < 2 then .real page else .kInvalidID
      id2page := id
      nodes := {0, 1}
      nbrs := fun id => if id = 0 then [1] else []
      closed := closed_twoPages
      placed := by decide
      apart := by
        intro page slot _ id held
        by_cases low : page < 2
        · rw [if_pos low, SlotId.real.injEq] at held
          subst held
          refine ⟨?_, rfl⟩
          revert page
          decide
        · rw [if_neg low] at held
          exact absurd held nofun
      once := by
        intro page first inFirst second inSecond _ _ _
        omega }
  pqDist := id
  exactDist := id
  memTags := []
  lSearch := 2
  beamWidth := 1

/-- The search of `twoPages` uses its pages. -/
theorem search_usesPages_twoPages :
    twoPages.UsesPages (twoPages.round (twoPages.round twoPages.start)) := by
  have begins : twoPages.search.initial twoPages.start := ⟨by decide, rfl⟩
  have first : twoPages.search.step twoPages.start () = some (twoPages.round twoPages.start) :=
    step_eq_round (by decide +kernel)
  have second : twoPages.search.step (twoPages.round twoPages.start) () =
      some (twoPages.round (twoPages.round twoPages.start)) := step_eq_round (by decide +kernel)
  have starts : twoPages.StartsInGraph := by
    unfold StartsInGraph
    decide
  refine (search_usesPages_iff twoPages starts (.step (.initial begins) trivial first) second).mpr ?_
  unfold PageGraph.Alone
  decide +kernel

end PageQuery

end OdinVector
