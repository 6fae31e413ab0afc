/-
This file says when the searches of the disk index stay within their buffers. The list of
`do_beam_search` and `pipe_search` grows, but the coordinates of `do_beam_search` are put one
behind the other in a buffer whose size counts components as bytes, the distances have 512
places whatever the degree is, and the list of `page_search` has 4096 places whatever
`l_search` is.
-/

import OdinVector.Search.Scratch
import Mathlib.Data.List.Destutter

namespace OdinVector

variable {Distance : Type} [LinearOrder Distance]

open ScratchAccess

/-! ### Buffers -/

namespace ScratchShape

variable (shape : ScratchShape)

theorem within_distAccess {count : Nat} (few : count ≤ 512) : Within [distAccess count] :=
  within_singleton few

/-- `coord_scratch` has a byte for each component of `MAX_N_CMPS` nodes: rounding up changes
nothing. -/
theorem coordAllocSize_eq : shape.coordAllocSize = maxNCmps * shape.alignedDim := by
  have whole : maxNCmps * shape.alignedDim = 64 * shape.alignedDim * 256 := by
    rw [show maxNCmps = 64 * 256 from rfl, Nat.mul_right_comm]
  unfold coordAllocSize roundUp divRoundUp
  rw [whole, Nat.mul_mod_left, if_pos rfl, Nat.add_zero, Nat.mul_div_cancel _ (Nat.succ_pos 255)]

/-- The coordinates of a node fit while the components before them and its own have not more
bytes than `MAX_N_CMPS` nodes have components. -/
theorem within_coordAccess_iff (some : 0 < shape.alignedDim) {index : Nat} :
    Within [shape.coordAccess index] ↔ (index + 1) * shape.componentLen ≤ maxNCmps := by
  have access : Within [shape.coordAccess index] ↔
      (index + 1) * shape.alignedDim * shape.componentLen ≤ shape.coordAllocSize :=
    ⟨fun within => within _ (List.mem_singleton_self _), within_singleton⟩
  rw [access, coordAllocSize_eq, Nat.mul_right_comm]
  exact Nat.mul_le_mul_right_iff some

theorem within_coordAccess {index : Nat}
    (few : (index + 1) * shape.componentLen ≤ maxNCmps) : Within [shape.coordAccess index] := by
  obtain none | some := Nat.eq_zero_or_pos shape.alignedDim
  · refine within_singleton ?_
    rw [none, Nat.mul_zero, Nat.zero_mul]
    exact Nat.zero_le _
  · exact (shape.within_coordAccess_iff some).mpr few

/-- There is room for the coordinates of one node. -/
theorem within_coordAccess_zero : Within [shape.coordAccess 0] := by
  refine shape.within_coordAccess ?_
  obtain one | four := shape.element
  · rw [one]
    decide
  · rw [four]
    decide

/-- The first sectors are within the buffer when the last one is. -/
theorem within_sectorAccesses {count : Nat}
    (few : count * shape.header.sizePerIo ≤ sectorAllocSize) :
    Within ((List.range count).map shape.sectorAccess) := by
  refine within_map fun index member => ?_
  have below : index + 1 ≤ count := List.mem_range.mp member
  exact (Nat.mul_le_mul_right _ below).trans few

theorem within_lastPagesAccesses {beamWidth count : Nat} (few : count ≤ beamWidth) :
    Within ((List.range count).map (lastPagesAccess beamWidth)) := by
  refine within_map fun index member => ?_
  have below : index + 1 ≤ beamWidth := (Nat.succ_le_of_lt (List.mem_range.mp member)).trans few
  calc (index + 1) * sectorLen
      ≤ beamWidth * sectorLen := Nat.mul_le_mul_right _ below
    _ = sectorLen * beamWidth := Nat.mul_comm _ _
    _ ≤ sectorLen * beamWidth * 2 := Nat.le_mul_of_pos_right _ Nat.two_pos

end ScratchShape

/-! ### Lists -/

namespace Retset

variable {Entry : Type} {view : Entry → PoolEntry Distance} {lSearch size : Nat}
variable {retset : List Entry}

/-- An offer does not shorten the list, and lengthens it only below the limit. -/
theorem length_offer (view : Entry → PoolEntry Distance) (lSearch : Nat) (retset : List Entry)
    (nk : Nat) (nn : Entry) :
    retset.length ≤ (offer view lSearch retset nk nn).1.length ∧
      (offer view lSearch retset nk nn).1.length ≤ max retset.length lSearch := by
  unfold offer
  split
  · exact ⟨le_rfl, Nat.le_max_left _ _⟩
  · dsimp only
    split
    · rw [List.length_take, NearestList.length_insertAt]
      split <;> omega
    · exact ⟨le_rfl, Nat.le_max_left _ _⟩

theorem within_offerAccesses (room : retset.length < size) (nn : Entry) :
    Within (offerAccesses view lSearch size retset nn) := by
  unfold offerAccesses
  split
  · exact within_nil
  · exact within_singleton room

/-- The list that grows is always longer than what it has. -/
theorem lt_resized {first : Nat} (room : first < size) (more : Nat) :
    first + more < resized size first more := by
  cases more with
  | zero => exact room
  | succ more =>
    unfold resized
    split
    · omega
    · rename_i large
      exact Nat.not_le.mp large

theorem lt_resized_sub {first length : Nat} (room : first < size) (grown : first ≤ length) :
    length < resized size first (length - first) := by
  have larger := lt_resized room (length - first)
  rwa [Nat.add_sub_cancel' grown] at larger

theorem length_foldl_freshNbr_le {seen : Finset Nat} (nbrs : List Nat)
    {search : List Nat × Finset Nat} (known : seen ⊆ search.2) :
    (nbrs.foldl freshNbr search).1.length ≤
      search.1.length + (nbrs.filter (· ∉ seen)).length := by
  induction nbrs generalizing search with
  | nil => exact Nat.le_add_right _ _
  | cons nbr nbrs inductionHypothesis =>
    have next : seen ⊆ (freshNbr search nbr).2 := by
      unfold freshNbr
      split
      · exact known
      · exact known.trans (Finset.subset_insert _ _)
    have one : (freshNbr search nbr).1.length + (nbrs.filter (· ∉ seen)).length ≤
        search.1.length + ((nbr :: nbrs).filter (· ∉ seen)).length := by
      have fewer := (List.sublist_cons_self nbr nbrs).filter (· ∉ seen)
      unfold freshNbr
      split
      · exact Nat.add_le_add_left fewer.length_le _
      · rename_i fresh
        have counted : (nbr :: nbrs).filter (· ∉ seen) = nbr :: nbrs.filter (· ∉ seen) :=
          List.filter_cons_of_pos (decide_eq_true fun old => fresh (known old))
        rw [counted, List.length_append, List.length_singleton, List.length_cons]
        omega
    exact (inductionHypothesis next).trans one

/-- The neighbours that were not seen are among those that were not seen before. -/
theorem length_freshNbrs_le {seen visited : Finset Nat} (nbrs : List Nat)
    (known : seen ⊆ visited) :
    (nbrs.foldl freshNbr ([], visited)).1.length ≤ (nbrs.filter (· ∉ seen)).length := by
  have start : seen ⊆ (([], visited) : List Nat × Finset Nat).2 := known
  have counted := length_foldl_freshNbr_le nbrs start
  rwa [List.length_nil, Nat.zero_add] at counted

end Retset

/-! ### `do_beam_search` -/

namespace BeamQuery

variable {query : BeamQuery Distance} {shape : ScratchShape}

/-- What `do_beam_search` relies on before its loop: there is room behind the first entries, and
there are not more of them than `dist_scratch` has places. -/
structure Fits (query : BeamQuery Distance) : Prop where
  room : query.entryIds.length < query.firstSize
  entries : query.entryIds.length ≤ 512

/-- What a round of `do_beam_search` relies on. -/
structure RoundFits (query : BeamQuery Distance) (shape : ScratchShape)
    (state : BeamState Distance) : Prop where
  sectors : (query.frontier state).length * shape.header.sizePerIo ≤ ScratchShape.sectorAllocSize
  coords : (state.fullRetset.length + (query.frontier state).length) * shape.componentLen ≤
    maxNCmps
  degrees : ∀ id ∈ query.frontier state, (query.graph.nbrs id).length ≤ 512

theorem visit_keeps {nbr : Nat} {search next : BeamState Distance × Nat}
    (visited : query.visit search nbr = some next) :
    search.1.retset.length ≤ next.1.retset.length ∧
      next.1.fullRetset = search.1.fullRetset := by
  unfold visit at visited
  dsimp only at visited
  obtain ⟨-, visited⟩ := Option.ite_none_left_eq_some.mp visited
  split at visited
  · rw [← Option.some.inj visited]
    exact ⟨le_rfl, rfl⟩
  · rw [← Option.some.inj visited]
    exact ⟨(Retset.length_offer _ _ _ _ _).1, rfl⟩

theorem visitAll_keeps {nbrs : List Nat} {search next : BeamState Distance × Nat}
    (visited : nbrs.foldlM query.visit search = some next) :
    search.1.retset.length ≤ next.1.retset.length ∧
      next.1.fullRetset = search.1.fullRetset := by
  induction nbrs generalizing search with
  | nil =>
    rw [← Option.some.inj visited]
    exact ⟨le_rfl, rfl⟩
  | cons nbr nbrs inductionHypothesis =>
    rw [List.foldlM_cons] at visited
    obtain ⟨between, first, rest⟩ := Option.bind_eq_some_iff.mp visited
    obtain ⟨grown, kept⟩ := visit_keeps first
    obtain ⟨more, same⟩ := inductionHypothesis rest
    exact ⟨grown.trans more, same.trans kept⟩

/-- An expansion does not shorten the list, and uses the coordinates of one node. -/
theorem expand_keeps {id : Nat} {search next : BeamState Distance × Nat}
    (expanded : query.expand search id = some next) :
    search.1.retset.length ≤ next.1.retset.length ∧
      next.1.fullRetset.length = search.1.fullRetset.length + 1 := by
  unfold expand at expanded
  obtain ⟨-, visited⟩ := Option.ite_none_right_eq_some.mp expanded
  obtain ⟨after, all, same⟩ := Option.map_eq_some_iff.mp visited
  obtain ⟨grown, kept⟩ := visitAll_keeps all
  have length : after.1.fullRetset.length = search.1.fullRetset.length + 1 := by
    rw [kept]
    exact List.length_append
  rw [← same]
  dsimp only
  split
  · exact ⟨grown, length⟩
  · exact ⟨grown, length⟩

theorem expandAll_keeps {ids : List Nat} {search next : BeamState Distance × Nat}
    (expanded : ids.foldlM query.expand search = some next) :
    search.1.retset.length ≤ next.1.retset.length := by
  induction ids generalizing search with
  | nil => exact (Option.some.inj expanded) ▸ le_rfl
  | cons id ids inductionHypothesis =>
    rw [List.foldlM_cons] at expanded
    obtain ⟨between, first, rest⟩ := Option.bind_eq_some_iff.mp expanded
    exact (expand_keeps first).1.trans (inductionHypothesis rest)

omit [LinearOrder Distance] in
theorem length_picked (query : BeamQuery Distance) (state : BeamState Distance) :
    (state.retset.take state.k ++
      (query.pickFrontier (state.retset.drop state.k) []).1).length = state.retset.length := by
  rw [List.length_append, length_pickFrontier, ← List.length_append, List.take_append_drop]

/-- The list always has its first entries. -/
theorem length_retset {guard : BeamState Distance → Unit → Prop} {state : BeamState Distance}
    (reachable : query.rounds.Reachable guard state) :
    query.entryIds.length ≤ state.retset.length := by
  induction reachable with
  | initial begins =>
    rw [show _ = query.start from begins]
    show _ ≤ (Retset.sort id (query.entryIds.map query.entry)).length
    rw [(Retset.perm_sort _).length_eq, List.length_map]
  | @step state next _ before admitted taken inductionHypothesis =>
    obtain ⟨-, hopped⟩ := Option.ite_none_right_eq_some.mp taken
    obtain ⟨after, expanded, same⟩ := Option.map_eq_some_iff.mp hopped
    have grown : (state.retset.take state.k ++
        (query.pickFrontier (state.retset.drop state.k) []).1).length ≤ after.1.retset.length :=
      expandAll_keeps expanded
    rw [length_picked] at grown
    rw [← same]
    exact inductionHypothesis.trans grown

theorem within_visitAccesses (fits : query.Fits) {nbrs : List Nat}
    {search : BeamState Distance × Nat} (grown : query.entryIds.length ≤ search.1.retset.length) :
    Within (trace query.visit query.visitAccesses search nbrs) := by
  refine within_trace (fun _ search => query.entryIds.length ≤ search.1.retset.length)
    (fun nbr rest search grown => ?_) (fun nbr rest search next grown visited => ?_) grown
  · unfold visitAccesses
    split
    · exact within_nil
    · exact Retset.within_offerAccesses (Retset.lt_resized_sub fits.room grown) _
  · exact grown.trans (visit_keeps visited).1

/-- A round stays within the buffers. -/
theorem within_hopAccesses (fits : query.Fits) {state : BeamState Distance}
    (grown : query.entryIds.length ≤ state.retset.length)
    (round : query.RoundFits shape state) : Within (query.hopAccesses shape state) := by
  refine (shape.within_sectorAccesses round.sectors).append ?_
  -- The nodes that are left have their coordinates behind those of the nodes before.
  refine within_trace (fun rest search => query.entryIds.length ≤ search.1.retset.length ∧
      search.1.fullRetset.length + rest.length =
        state.fullRetset.length + (query.frontier state).length ∧
      ∀ id ∈ rest, (query.graph.nbrs id).length ≤ 512)
    (fun id rest search holds => ?_) (fun id rest search next holds expanded => ?_)
    ⟨(length_picked query state).symm ▸ grown, rfl, round.degrees⟩
  · obtain ⟨longer, total, degrees⟩ := holds
    have coords : Within [shape.coordAccess search.1.fullRetset.length] := by
      refine shape.within_coordAccess (le_trans (Nat.mul_le_mul_right _ ?_) round.coords)
      rw [← total, List.length_cons]
      omega
    have dists := ScratchShape.within_distAccess (degrees id List.mem_cons_self)
    exact (coords.append dists).append (within_visitAccesses fits longer)
  · obtain ⟨longer, total, degrees⟩ := holds
    obtain ⟨more, one⟩ := expand_keeps expanded
    refine ⟨longer.trans more, ?_, fun other member => degrees other (List.mem_cons_of_mem _ member)⟩
    rw [one, ← total, List.length_cons]
    omega

omit [LinearOrder Distance] in
theorem within_startAccesses (fits : query.Fits) : Within query.startAccesses :=
  (ScratchShape.within_distAccess fits.entries).append (within_singleton fits.room.le)

end BeamQuery

/-! ### `page_search` -/

namespace PageQuery

variable {query : PageQuery Distance} {shape : ScratchShape} {seen : Finset Nat}

/-- What `page_search` relies on before its loop. -/
structure Fits (query : PageQuery Distance) : Prop where
  lSearch : query.lSearch < 4096
  entries : query.entryIds.length ≤ 512

/-- What a round of `page_search` relies on. -/
structure RoundFits (query : PageQuery Distance) (shape : ScratchShape)
    (state : PageState Distance) : Prop where
  sectors : (query.frontier state).length * shape.header.sizePerIo ≤ ScratchShape.sectorAllocSize
  degrees : ∀ id ∈ query.expandedIn state,
    ((query.graph.nbrs id).filter (· ∉ state.visited)).length ≤ 512

/-- The list has no more entries than its limit, and the nodes that were seen stay seen. -/
structure Bounded (query : PageQuery Distance) (seen : Finset Nat)
    (search : PageState Distance × Nat) : Prop where
  length : search.1.retset.length ≤ max 1 query.lSearch
  visited : seen ⊆ search.1.visited

theorem Bounded.pushNbr {search : PageState Distance × Nat} (bounded : query.Bounded seen search)
    (nbr : Nat) : query.Bounded seen (query.pushNbr search nbr) where
  length := by
    have most := (Retset.length_offer id query.lSearch search.1.retset search.2
      (query.entry nbr)).2
    exact most.trans (Nat.max_le.mpr ⟨bounded.length, Nat.le_max_right _ _⟩)
  visited := bounded.visited

theorem Bounded.computeAndPushNbrs {search : PageState Distance × Nat}
    (bounded : query.Bounded seen search) (id : Nat) :
    query.Bounded seen (query.computeAndPushNbrs search id) := by
  refine List.foldlRecOn _ query.pushNbr ?_ fun next holds nbr _ => holds.pushNbr nbr
  exact ⟨bounded.length, bounded.visited.trans (Retset.subset_freshNbrs _ ([], search.1.visited))⟩

omit [LinearOrder Distance] in
theorem Bounded.computeExacts {state : PageState Distance} {nk : Nat}
    (bounded : query.Bounded seen (state, nk)) (ids : List Nat) :
    query.Bounded seen (ids.foldl query.computeExactDistsAndPush state, nk) := by
  induction ids generalizing state with
  | nil => exact bounded
  | cons id ids inductionHypothesis => exact inductionHypothesis ⟨bounded.length, bounded.visited⟩

theorem Bounded.expandLast {search : PageState Distance × Nat}
    (bounded : query.Bounded seen search) (io : Nat × Nat) :
    query.Bounded seen (query.expandLast search io) :=
  List.foldlRecOn _ query.computeAndPushNbrs (bounded.computeExacts (query.others io))
    fun _ holds id _ => holds.computeAndPushNbrs id

theorem Bounded.expandOwn {search : PageState Distance × Nat}
    (bounded : query.Bounded seen search) (id : Nat) :
    query.Bounded seen (query.expandOwn search id) :=
  List.foldlRecOn _ _ bounded fun _ holds id _ => (holds.computeExacts [id]).computeAndPushNbrs id

/-- The neighbours of a node stay within the buffers. -/
theorem within_nbrAccesses (fits : query.Fits) {search : PageState Distance × Nat} {id : Nat}
    (bounded : query.Bounded seen search)
    (degree : ((query.graph.nbrs id).filter (· ∉ seen)).length ≤ 512) :
    Within (query.nbrAccesses search id) := by
  have fresh := Retset.length_freshNbrs_le (query.graph.nbrs id) bounded.visited
  refine (ScratchShape.within_distAccess (fresh.trans degree)).append ?_
  refine within_trace (fun _ => query.Bounded seen) (fun nbr rest search holds => ?_)
    (fun nbr rest search next holds pushed => ?_) ?_
  · refine Retset.within_offerAccesses (holds.length.trans_lt ?_) _
    exact Nat.max_lt.mpr ⟨by decide, fits.lSearch⟩
  · exact Option.some.inj pushed ▸ holds.pushNbr nbr
  · exact ⟨bounded.length, bounded.visited.trans (Retset.subset_freshNbrs _ ([], search.1.visited))⟩

/-- Nodes that are expanded one after the other stay within the buffers. -/
theorem within_lastAccesses (fits : query.Fits) {search : PageState Distance × Nat}
    {io : Nat × Nat} (bounded : query.Bounded seen search)
    (degrees : ∀ id ∈ query.others io, ((query.graph.nbrs id).filter (· ∉ seen)).length ≤ 512) :
    Within (query.lastAccesses shape search io) := by
  refine Within.append (within_map fun _ _ => ?_) ?_
  · exact shape.within_coordAccess_zero _ (List.mem_singleton_self _)
  refine within_trace (fun rest search => query.Bounded seen search ∧ rest ⊆ query.others io)
    (fun id rest search holds => ?_) (fun id rest search next holds pushed => ?_)
    ⟨bounded.computeExacts _, (List.perm_insertionSort _ _).subset⟩
  · exact within_nbrAccesses fits holds.1 (degrees id (holds.2 List.mem_cons_self))
  · exact Option.some.inj pushed ▸
      ⟨holds.1.computeAndPushNbrs id, (List.cons_subset.mp holds.2).2⟩

theorem within_ownAccesses (fits : query.Fits) {search : PageState Distance × Nat} {id : Nat}
    (bounded : query.Bounded seen search)
    (degree : ((query.graph.nbrs id).filter (· ∉ seen)).length ≤ 512) :
    Within (query.ownAccesses shape search id) := by
  refine within_trace
    (fun rest search => query.Bounded seen search ∧ ∀ other ∈ rest, other = id)
    (fun other rest search holds => ?_) (fun other rest search next holds pushed => ?_)
    ⟨bounded, fun other member => of_decide_eq_true (List.mem_filter.mp member).2⟩
  · obtain ⟨before, same⟩ := holds
    rw [same other List.mem_cons_self]
    exact shape.within_coordAccess_zero.append
      (within_nbrAccesses fits (before.computeExacts [id]) degree)
  · obtain ⟨before, same⟩ := holds
    exact Option.some.inj pushed ▸ ⟨(before.computeExacts [other]).computeAndPushNbrs other,
      fun last member => same last (List.mem_cons_of_mem _ member)⟩

omit [LinearOrder Distance] in
theorem length_pickBeam_le (rest : List (PoolEntry Distance)) {beam : List Nat × Finset Nat}
    (few : beam.1.length ≤ query.beamWidth) :
    (query.pickBeam rest beam).2.1.length ≤ query.beamWidth := by
  induction rest generalizing beam with
  | nil => exact few
  | cons entry rest inductionHypothesis =>
    unfold pickBeam
    split
    · rename_i room
      split
      · refine inductionHypothesis ?_
        rw [List.length_append, List.length_singleton]
        exact room
      · exact inductionHypothesis few
    · exact few

omit [LinearOrder Distance] in
theorem length_frontier_le (state : PageState Distance) :
    (query.frontier state).length ≤ query.beamWidth :=
  length_pickBeam_le _ (Nat.zero_le _)

/-- What holds between the rounds: the list is not over its limit, and there are not more pages
left for the next round than one round reads. -/
structure Fitting (query : PageQuery Distance) (state : PageState Distance) : Prop where
  length : state.retset.length ≤ max 1 query.lSearch
  snapshot : state.lastIoSnapshot.length ≤ query.beamWidth

omit [LinearOrder Distance] in
/-- The state of a round after its frontier was picked. -/
theorem Fitting.bounded {state : PageState Distance} (fitting : query.Fitting state) :
    query.Bounded state.visited ({ state with
      retset := state.retset.take state.k ++ (query.beam state).1
      pageVisited := (query.beam state).2.2 }, state.retset.length) := by
  have ids : Retset.ids id (query.beam state).1 = Retset.ids id (state.retset.drop state.k) :=
    (picks_pickBeam query _ _).ids
  have same := congrArg List.length ids
  rw [Retset.ids, Retset.ids, List.length_map, List.length_map] at same
  have picked : (state.retset.take state.k ++ (query.beam state).1).length =
      state.retset.length := by
    rw [List.length_append, same, ← List.length_append, List.take_append_drop]
  exact ⟨picked.le.trans fitting.length, Finset.Subset.refl _⟩

theorem Fitting.round {state : PageState Distance} (fitting : query.Fitting state) :
    query.Fitting (query.round state) := by
  have lates := List.foldlRecOn state.lastIoSnapshot query.expandLast fitting.bounded
    fun _ holds io _ => holds.expandLast io
  have owns := List.foldlRecOn (query.frontier state) query.expandOwn lates
    fun _ holds id _ => holds.expandOwn id
  refine ⟨owns.length, ?_⟩
  show ((query.frontier state).map _).length ≤ query.beamWidth
  rw [List.length_map]
  exact length_frontier_le state

theorem fitting {guard : PageState Distance → Unit → Prop} {state : PageState Distance}
    (reachable : query.search.Reachable guard state) : query.Fitting state := by
  induction reachable with
  | initial begins =>
    rw [begins.2]
    refine ⟨?_, Nat.zero_le _⟩
    show (Retset.sort id (query.entryIds.map query.entry)).length ≤ max 1 query.lSearch
    rw [(Retset.perm_sort _).length_eq, List.length_map]
    unfold entryIds
    split
    · exact Nat.le_max_left _ _
    · exact (List.length_take_le _ _).trans (Nat.le_max_right _ _)
  | step before admitted taken inductionHypothesis =>
    obtain ⟨-, same⟩ := Option.ite_none_right_eq_some.mp taken
    exact Option.some.inj same ▸ inductionHypothesis.round

/-- A round stays within the buffers. -/
theorem within_roundAccesses (fits : query.Fits) {state : PageState Distance}
    (fitting : query.Fitting state) (round : query.RoundFits shape state) :
    Within (query.roundAccesses shape state) := by
  have late : ∀ io ∈ state.lastIoSnapshot, ∀ id ∈ query.others io,
      ((query.graph.nbrs id).filter (· ∉ state.visited)).length ≤ 512 := fun io member id other =>
    round.degrees id (List.mem_append_left _ (List.mem_flatMap.mpr ⟨io, member, other⟩))
  have own : ∀ id ∈ query.frontier state,
      ((query.graph.nbrs id).filter (· ∉ state.visited)).length ≤ 512 := fun id member =>
    round.degrees id (List.mem_append_right _ member)
  refine ((((shape.within_sectorAccesses round.sectors).append
    (ScratchShape.within_lastPagesAccesses fitting.snapshot)).append
      (ScratchShape.within_lastPagesAccesses (length_frontier_le state))).append ?_).append ?_
  · refine within_trace
      (fun rest search => query.Bounded state.visited search ∧ rest ⊆ state.lastIoSnapshot)
      (fun io rest search holds => ?_) (fun io rest search next holds expanded => ?_)
      ⟨fitting.bounded, List.Subset.refl _⟩
    · exact within_lastAccesses fits holds.1 (late io (holds.2 List.mem_cons_self))
    · exact Option.some.inj expanded ▸
        ⟨holds.1.expandLast io, (List.cons_subset.mp holds.2).2⟩
  · refine within_trace
      (fun rest search => query.Bounded state.visited search ∧ rest ⊆ query.frontier state)
      (fun id rest search holds => ?_) (fun id rest search next holds expanded => ?_)
      ⟨?_, List.Subset.refl _⟩
    · exact within_ownAccesses fits holds.1 (own id (holds.2 List.mem_cons_self))
    · exact Option.some.inj expanded ▸
        ⟨holds.1.expandOwn id, (List.cons_subset.mp holds.2).2⟩
    · exact List.foldlRecOn state.lastIoSnapshot query.expandLast fitting.bounded
        fun _ holds io _ => holds.expandLast io

omit [LinearOrder Distance] in
theorem within_startAccesses (fits : query.Fits) : Within query.startAccesses :=
  (ScratchShape.within_distAccess fits.entries).append
    (within_singleton (fits.entries.trans (by decide)))

end PageQuery

/-! ### `pipe_search` -/

namespace PipeQuery

open PipeState

variable {query : PipeQuery Distance} {shape : ScratchShape} {state : PipeState Distance}

/-- What `pipe_search` relies on before its loop; each read has the place of one sector. -/
structure Fits (query : PipeQuery Distance) (shape : ScratchShape) : Prop where
  room : query.entryIds.length < query.firstSize
  entries : query.memTags.length ≤ 512
  sectors : shape.header.sizePerIo ≤ sectorLen

/-- What a turn of `pipe_search` relies on. -/
structure TurnFits (query : PipeQuery Distance) (state : PipeState Distance)
    (turn : PipeTurn Distance) : Prop where
  degrees : ∀ entry ∈ state.retset, entry.visited = false →
    ((query.disk entry.id).nbrs.filter (· ∉ state.visited)).length ≤ 512
  torn : (turn.torn.nbrs.filter (· ∉ state.visited)).length ≤ 512

omit [LinearOrder Distance] in
/-- Reads stay within the ring of sectors. -/
theorem within_sendAccesses (narrow : shape.header.sizePerIo ≤ sectorLen)
    (inside : state.sectorIdx < maxNSectorReads) (n : Nat) (rest : List (PipeEntry Distance)) :
    Within (sendAccesses shape n rest state) := by
  induction rest generalizing n state with
  | nil => exact within_nil
  | cons entry rest inductionHypothesis =>
    unfold sendAccesses
    split
    · exact within_nil
    split
    · exact inductionHypothesis inside n
    · have sector : Within [shape.sectorAccess state.sectorIdx] :=
        within_singleton (Nat.mul_le_mul (Nat.succ_le_of_lt inside) narrow)
      refine sector.append (inductionHypothesis ?_ (n - 1))
      exact Nat.mod_lt _ (by decide)

omit [LinearOrder Distance] in
theorem Keeps.length {before after : PipeState Distance} (keeps : Keeps before after) :
    after.retset.length = before.retset.length := by
  have same := congrArg List.length keeps.retset
  rwa [List.length_map, List.length_map] at same

theorem length_pushNbrs (query : PipeQuery Distance) (nbrs : List Nat)
    (state : PipeState Distance) :
    state.retset.length ≤ (nbrs.foldl query.pushNbr state).retset.length :=
  List.foldlRecOn (motive := fun next => state.retset.length ≤ next.retset.length) nbrs
    query.pushNbr le_rfl fun _ grown _ _ => grown.trans (Retset.length_offer _ _ _ _ _).1

theorem length_expand (query : PipeQuery Distance) (record : NodeRecord Distance) (id : Nat)
    (marked : List (PipeEntry Distance)) (state : PipeState Distance) :
    marked.length ≤ (query.expand record id marked state).retset.length := by
  have pushed := length_pushNbrs query
    (record.nbrs.foldl Retset.freshNbr ([], state.visited)).1
    { state with
      retset := marked
      fullRetset := state.fullRetset ++ [⟨id, record.exactDist⟩]
      visited := (record.nbrs.foldl Retset.freshNbr ([], state.visited)).2 }
  exact pushed

omit [LinearOrder Distance] in
theorem length_takeBest {isRead : Nat → Bool} {retset marked : List (PipeEntry Distance)} {id : Nat}
    (taken : takeBest isRead retset = some (id, marked)) : marked.length = retset.length := by
  obtain ⟨before, entry, rest, whole, same, -⟩ := takeBest_eq_some taken
  rw [whole, same, List.length_append, List.length_append, List.length_cons, List.length_cons]

theorem length_start (begins : query.start = some state) :
    state.retset.length = query.entryIds.length := by
  have sent := (keeps_sendBestReadReq
    (query.begin.curBeamWidth - query.begin.onFlightIos.length) query.begin).length
  rw [show query.begin.retset = query.entryIds.map query.firstEntry from rfl,
    List.length_map] at sent
  unfold start at begins
  obtain ⟨-, begins⟩ := Option.ite_none_left_eq_some.mp begins
  dsimp only at begins
  split at begins
  · rw [← Option.some.inj begins]
    exact sent
  · rw [← Option.some.inj begins]
    dsimp only
    rw [(Retset.perm_sort _).length_eq, List.length_map]
    exact sent

theorem length_turn (turn : PipeTurn Distance) (state : PipeState Distance) :
    state.retset.length ≤ (query.turn turn state).retset.length := by
  have polled : (query.poll turn.completes state).retset.length = state.retset.length :=
    (keeps_poll query turn.completes state).length
  show _ ≤ (query.calcBestNode turn.torn (query.poll turn.completes state)).1.retset.length
  obtain ⟨same, -⟩ | ⟨id, marked, taken, next⟩ :=
    query.calcBestNode_cases turn.torn (query.poll turn.completes state)
  · rw [same]
    exact polled.ge
  · rw [next]
    have marks := length_takeBest taken
    rw [← polled, ← marks]
    exact length_expand query _ _ _ _

/-- The list always has its first entries. -/
theorem length_retset {guard : PipeState Distance → PipeTurn Distance → Prop}
    (reachable : query.search.Reachable guard state) :
    query.entryIds.length ≤ state.retset.length := by
  induction reachable with
  | initial begins => exact (length_start begins).ge
  | step before admitted taken inductionHypothesis =>
    rw [search_step taken]
    exact inductionHypothesis.trans (length_turn _ _)

/-- The neighbours of a node stay within the buffers. -/
theorem within_nbrAccesses (room : query.entryIds.length < query.firstSize) {nbrs : List Nat}
    (grown : query.entryIds.length ≤ state.retset.length)
    (degree : (nbrs.filter (· ∉ state.visited)).length ≤ 512) :
    Within (query.nbrAccesses nbrs state) := by
  have fresh := Retset.length_freshNbrs_le nbrs (Finset.Subset.refl state.visited)
  refine (ScratchShape.within_distAccess (fresh.trans degree)).append ?_
  refine within_trace (fun _ state => query.entryIds.length ≤ state.retset.length)
    (fun nbr rest state longer => ?_) (fun nbr rest state next longer pushed => ?_) grown
  · exact Retset.within_offerAccesses (Retset.lt_resized_sub room longer) _
  · exact Option.some.inj pushed ▸ longer.trans (Retset.length_offer _ _ _ _ _).1

theorem within_calcAccesses (room : query.entryIds.length < query.firstSize)
    {turn : PipeTurn Distance} (grown : query.entryIds.length ≤ state.retset.length)
    (fits : query.TurnFits state turn) : Within (query.calcAccesses shape turn.torn state) := by
  unfold calcAccesses
  cases taken : takeBest state.isRead state.retset with
  | none => exact within_nil
  | some best =>
    obtain ⟨id, marked⟩ := best
    refine shape.within_coordAccess_zero.append (within_nbrAccesses room ?_ ?_)
    · exact grown.trans (length_takeBest taken).ge
    · obtain ⟨before, entry, rest, whole, -, rfl, closed, -⟩ := takeBest_eq_some taken
      unfold bufRecord
      split
      · refine fits.degrees entry ?_ closed
        rw [whole]
        exact List.mem_append_right _ List.mem_cons_self
      · exact fits.torn

/-- The turn relies on the same when the reads that are complete were polled. -/
theorem TurnFits.poll {turn : PipeTurn Distance} (fits : query.TurnFits state turn)
    (completes : List Nat) : query.TurnFits (query.poll completes state) turn := by
  have keeps : Keeps state (query.poll completes state) := keeps_poll query completes state
  refine ⟨fun entry member closed => ?_, ?_⟩
  · have there : unflagged entry ∈ state.retset.map unflagged := by
      rw [← keeps.retset]
      exact List.mem_map_of_mem member
    obtain ⟨old, inList, same⟩ := List.mem_map.mp there
    have id : old.id = entry.id := congrArg (fun neighbor => neighbor.1.id) same
    have unvisited : old.visited = entry.visited := congrArg Prod.snd same
    rw [keeps.visited, ← id]
    exact fits.degrees old inList (unvisited.trans closed)
  · rw [keeps.visited]
    exact fits.torn

/-- A turn stays within the buffers. -/
theorem within_turnAccesses (fits : query.Fits shape)
    (inside : state.sectorIdx < maxNSectorReads)
    (grown : query.entryIds.length ≤ state.retset.length) {turn : PipeTurn Distance}
    (turnFits : query.TurnFits state turn) : Within (query.turnAccesses shape turn state) := by
  have tuned : ∀ nIn nOut, (query.tune nIn nOut
      (state.readerPoll turn.completes).pollAll.1).sectorIdx < maxNSectorReads := by
    intro nIn nOut
    unfold tune
    split <;> exact inside
  refine Within.append ?_ (within_calcAccesses fits.room ?_ (turnFits.poll turn.completes))
  · split
    · exact within_sendAccesses fits.sectors (tuned _ _) _ _
    · exact within_nil
  · exact grown.trans (keeps_poll query turn.completes state).length.ge

omit [LinearOrder Distance] in
theorem within_startAccesses (fits : query.Fits shape) : Within (query.startAccesses shape) := by
  have dists : (if query.memTags = [] then 1 else query.memTags.length) ≤ 512 := by
    split
    · exact Nat.one_le_ofNat
    · exact fits.entries
  exact ((ScratchShape.within_distAccess dists).append (within_singleton fits.room.le)).append
    (within_sendAccesses fits.sectors (Nat.succ_pos 511) _ _)

end PipeQuery

/-! ### The searches -/

omit [LinearOrder Distance] in
theorem BeamQuery.within_resultAccess (query : BeamQuery Distance) {kSearch : Nat}
    {last : BeamState Distance} (few : kSearch ≤ 4096 ∨ last.fullRetset.length ≤ 4096) :
    Within [ScratchShape.resultAccess (query.resultCount kSearch last)] := by
  refine within_singleton ?_
  obtain small | small := few
  · exact (Nat.min_le_left _ _).trans small
  · exact ((Nat.min_le_right _ _).trans (Nat.min_le_right _ _)).trans small

theorem within_copiedAccess {kSearch : Nat} {fullRetset : List (Neighbor Distance)}
    (few : kSearch ≤ 4096 ∨ fullRetset.length ≤ 4096) :
    Within [ScratchShape.resultAccess (copiedCount kSearch fullRetset)] := by
  refine within_singleton ?_
  obtain small | small := few
  · exact (Nat.min_le_left _ _).trans small
  · have copied := (List.destutter_sublist (· ≠ ·)
      ((sortPool fullRetset).map Neighbor.id)).length_le
    rw [List.length_map, (perm_sortPool fullRetset).length_eq] at copied
    exact ((Nat.min_le_right _ _).trans copied).trans small

/-- The searches stay within their buffers, and `DynamicSSDIndex::search` within its arrays, in
every step that keeps to the sizes: there are not more expanded nodes than `coord_scratch` has
room for, not more distances at once than 512, and no list over its size. -/
theorem ScratchShape.searches_within (shape : ScratchShape) :
    (∀ query : BeamQuery Distance, query.Fits → Within query.startAccesses ∧
      ∀ state, query.rounds.Reachable Transition.anyStep state →
        (query.RoundFits shape state → Within (query.hopAccesses shape state)) ∧
        (query.lSearch ≤ 4096 ∨ state.fullRetset.length ≤ 4096 →
          Within [resultAccess (query.resultCount query.lSearch state)])) ∧
    (∀ query : PageQuery Distance, query.Fits → Within query.startAccesses ∧
      ∀ state, query.search.Reachable Transition.anyStep state →
        (query.RoundFits shape state → Within (query.roundAccesses shape state)) ∧
        (query.lSearch ≤ 4096 ∨ state.fullRetset.length ≤ 4096 →
          Within [resultAccess (copiedCount query.lSearch state.fullRetset)])) ∧
    (∀ query : PipeQuery Distance, query.Fits shape → Within (query.startAccesses shape) ∧
      ∀ state, query.search.Reachable Transition.anyStep state →
        (∀ turn, query.TurnFits state turn → Within (query.turnAccesses shape turn state)) ∧
        (query.lSearch ≤ 4096 ∨ state.fullRetset.length ≤ 4096 →
          Within [resultAccess (copiedCount query.lSearch state.fullRetset)])) := by
  refine ⟨fun query fits => ⟨BeamQuery.within_startAccesses fits, fun state reachable => ⟨?_, ?_⟩⟩,
    fun query fits => ⟨PageQuery.within_startAccesses fits, fun state reachable => ⟨?_, ?_⟩⟩,
    fun query fits => ⟨PipeQuery.within_startAccesses fits, fun state reachable => ⟨?_, ?_⟩⟩⟩
  · exact BeamQuery.within_hopAccesses fits (BeamQuery.length_retset reachable)
  · exact query.within_resultAccess
  · exact PageQuery.within_roundAccesses fits (PageQuery.fitting reachable)
  · exact within_copiedAccess
  · intro turn turnFits
    have sector := (PipeQuery.ringed reachable).sector
    have inside : state.sectorIdx < maxNSectorReads := by
      rw [sector]
      exact Nat.mod_lt _ (Nat.succ_pos 511)
    exact PipeQuery.within_turnAccesses fits inside (PipeQuery.length_retset reachable) turnFits
  · exact within_copiedAccess

/-- An index of records with 128 bytes for the coordinates and 513 neighbours. -/
def ScratchShape.bytes : ScratchShape where
  header :=
    { diskNnodes := 514
      dataDim := 128
      medoid := 0
      maxNodeLen := 2184
      nnodesPerSector := 1
      maxDegree := 513 }
  componentLen := 1
  element := Or.inl rfl

namespace BeamQuery

/-- A node with a number of neighbours. -/
def star (degree : Nat) : BeamQuery Nat where
  graph :=
    { nodes := Finset.range (degree + 1)
      nbrs := fun id => if id = 0 then List.range' 1 degree else []
      curId := degree
      closed := by
        intro id _ nbr adjacent
        split at adjacent
        · obtain ⟨i, below, rfl⟩ := List.mem_range'.mp adjacent
          exact Finset.mem_range.mpr (by omega)
        · exact absurd adjacent List.not_mem_nil
      bounded := fun id member => Nat.le_of_lt_succ (Finset.mem_range.mp member) }
  id2tag := id
  pqDist := id
  exactDist := id
  medoid := 0
  memTags := []
  lSearch := 4
  beamWidth := 4
  dynSearchL := false
  excludeNodes := []
  timeOver _ := false

theorem plain_star (degree : Nat) : (star degree).Plain :=
  ⟨rfl, fun _ => rfl, Nat.succ_pos 3, Nat.succ_pos 3⟩

/-- The distances of all neighbours are computed when the middle of a star is expanded. -/
theorem distAccess_mem_star (degree : Nat) : ScratchShape.distAccess degree ∈
    (star degree).hopAccesses ScratchShape.bytes (star degree).start := by
  have count : ((star degree).graph.nbrs 0).length = degree := List.length_range'
  have there : ScratchShape.distAccess ((star degree).graph.nbrs 0).length ∈
      (star degree).hopAccesses ScratchShape.bytes (star degree).start := by
    refine List.mem_append_right _ (List.mem_append_left _ (List.mem_append_left _ ?_))
    exact List.mem_cons_of_mem _ (List.mem_singleton_self _)
  rwa [count] at there

/-- The first steps of three small searches are within the buffers. -/
theorem searches_within_star :
    Within ((star 3).hopAccesses ScratchShape.bytes (star 3).start) ∧
      Within (PageQuery.twoPages.roundAccesses ScratchShape.bytes PageQuery.twoPages.start) ∧
        Within (PipeQuery.pushedOut.turnAccesses ScratchShape.bytes ⟨[0], ⟨0, []⟩⟩
          PipeQuery.pushedOutStart) := by
  obtain ⟨beam, page, pipe⟩ := @ScratchShape.searches_within Nat _ ScratchShape.bytes
  have beamFits : (star 3).Fits := ⟨by decide, by decide⟩
  have hop : (star 3).RoundFits ScratchShape.bytes (star 3).start :=
    ⟨by decide, by decide, by decide⟩
  have pageFits : PageQuery.twoPages.Fits := ⟨by decide, by decide⟩
  have round : PageQuery.twoPages.RoundFits ScratchShape.bytes PageQuery.twoPages.start :=
    ⟨by decide, by decide⟩
  have pipeFits : PipeQuery.pushedOut.Fits ScratchShape.bytes :=
    ⟨by decide, by decide, by decide⟩
  have turn : PipeQuery.pushedOut.TurnFits PipeQuery.pushedOutStart ⟨[0], ⟨0, []⟩⟩ :=
    ⟨by decide, by decide⟩
  have begins : PipeQuery.pushedOut.start = some PipeQuery.pushedOutStart := (Option.some_get _).symm
  exact ⟨((beam _ beamFits).2 _ (.initial rfl)).1 hop,
    ((page _ pageFits).2 _ (.initial ⟨by decide, rfl⟩)).1 round,
    ((pipe _ pipeFits).2 _ (.initial begins)).1 _ turn⟩

/-- With 513 neighbours, which `load` admits, `dist_scratch` is overrun. -/
theorem not_within_star :
    ¬ ∀ (shape : ScratchShape) (query : BeamQuery Nat), query.Plain → ∀ state,
      query.rounds.Reachable Transition.anyStep state →
        Within (query.hopAccesses shape state) := by
  intro always
  have within := always ScratchShape.bytes (star 513) (plain_star 513) (star 513).start
    (.initial rfl)
  exact absurd (within _ (distAccess_mem_star 513)) (by decide)

end BeamQuery

end OdinVector
