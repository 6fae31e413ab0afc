/-
This file models the search of the in-memory `Index`: `iterate_to_fixed_point` keeps the
nearest nodes that it has seen, and expands them one after the other. Every round reads the
list of one node under its lock; between two rounds other threads may change the lists.

`best_L_nodes` is the list of its first `l` entries here.
-/

import OdinVector.Search.Retset

namespace OdinVector

variable {Distance : Type} [LinearOrder Distance]

/-- The state of the loop of `iterate_to_fixed_point`. -/
structure MemorySearch (Distance : Type) where
  /-- The first `l` entries of `best_L_nodes`. -/
  best : List (PoolEntry Distance)
  k : Nat
  /-- `inserted_into_pool`. -/
  inserted : Finset Nat
  /-- `expanded_nodes_info`. -/
  expanded : List (Neighbor Distance)

namespace MemorySearch

variable (distance : Nat → Distance) (lSize : Nat)

/-- The entry of a node that is not expanded. -/
def entry (id : Nat) : PoolEntry Distance where
  id := id
  distance := distance id
  flag := true

/-- The state before the loop. -/
def start (initIds : List Nat) : MemorySearch Distance where
  best := Retset.sort id ((initIds.eraseDups.take lSize).map (entry distance))
  k := 0
  inserted := (initIds.eraseDups.take lSize).toFinset
  expanded := []

/-- A neighbour of an expanded node; `nk` is the least place of a new entry. -/
def visit (search : MemorySearch Distance × Nat) (nbr : Nat) : MemorySearch Distance × Nat :=
  if nbr ∈ search.1.inserted then search
  else
    let (best, nk) := Retset.offer id lSize search.1.best search.2 (entry distance nbr)
    ({ search.1 with best := best, inserted := insert nbr search.1.inserted }, nk)

/-- The entry at `k`, without its flag. -/
def lower (search : MemorySearch Distance) (entry : PoolEntry Distance) :
    MemorySearch Distance :=
  { search with
    best := search.best.set search.k { entry with flag := false }
    expanded := search.expanded ++ [entry.toNeighbor] }

/-- The expansion of the entry at `k`, with the list of its node. -/
def expand (search : MemorySearch Distance) (entry : PoolEntry Distance) (nbrs : List Nat) :
    MemorySearch Distance :=
  let (after, nk) := nbrs.foldl (visit distance lSize) (search.lower entry, search.best.length)
  { after with k := if nk ≤ search.k then nk else search.k + 1 }

/-- A round of the loop, or `none` after the last one. -/
def round (lists : Nat → List Nat) (search : MemorySearch Distance) :
    Option (MemorySearch Distance) :=
  search.best[search.k]?.map fun entry =>
    if entry.flag then search.expand distance lSize entry (lists entry.id)
    else { search with k := search.k + 1 }

/-- The nodes that were expanded, in their order. -/
def expandedIds (search : MemorySearch Distance) : List Nat :=
  search.expanded.map Neighbor.id

/-! ### What holds in the loop -/

/-- What the list has, and which of its entries were expanded. -/
structure Sound (search : MemorySearch Distance) : Prop where
  nearest : Retset.Nearest id distance lSize search.inserted search.best
  nonempty : search.best ≠ []
  lowered : ∀ entry ∈ search.best, entry.flag = false → entry.id ∈ search.expandedIds
  raised : ∀ entry ∈ search.best, entry.flag = true → entry.id ∉ search.expandedIds
  once : search.expandedIds.Nodup
  seen : ∀ id ∈ search.expandedIds, id ∈ search.inserted

/-- The entries before `k` were expanded. -/
def Swept (search : MemorySearch Distance) : Prop :=
  ∀ entry ∈ search.best.take search.k, entry.flag = false

variable {distance lSize} {search : MemorySearch Distance}

omit [LinearOrder Distance] in
theorem ids_entry (ids : List Nat) :
    Retset.ids (fun entry : PoolEntry Distance => entry) (ids.map (entry distance)) = ids := by
  unfold Retset.ids
  rw [List.map_map]
  exact List.map_id ids

theorem nodup_eraseDups (ids : List Nat) : ids.eraseDups.Nodup := by
  induction length : ids.length using Nat.strongRecOn generalizing ids with
  | ind count inductionHypothesis =>
    cases ids with
    | nil => exact List.nodup_nil
    | cons first rest =>
      rw [List.eraseDups_cons, List.nodup_cons]
      have shorter : (rest.filter fun other => !other == first).length < count := by
        rw [← length]
        exact Nat.lt_succ_of_le (List.length_filter_le _ _)
      refine ⟨fun member => ?_, inductionHypothesis _ shorter _ rfl⟩
      rw [List.mem_eraseDups, List.mem_filter] at member
      simp at member

/-- A search starts with some of the given nodes. -/
theorem mem_inserted_start {initIds : List Nat} {id : Nat}
    (member : id ∈ (start distance lSize initIds).inserted) : id ∈ initIds :=
  List.mem_eraseDups.mp (List.mem_of_mem_take (List.mem_toFinset.mp member))

variable (distance) in
theorem sound_start (some : 0 < lSize) {initIds : List Nat} (nonempty : initIds ≠ []) :
    (start distance lSize initIds).Sound distance lSize ∧ (start distance lSize initIds).Swept := by
  have apart : (initIds.eraseDups.take lSize).Nodup :=
    (nodup_eraseDups initIds).sublist (List.take_sublist _ _)
  have same : (start distance lSize initIds).best.Perm
      ((initIds.eraseDups.take lSize).map (entry distance)) := Retset.perm_sort _
  have raised : ∀ listed ∈ (start distance lSize initIds).best, listed.flag = true := by
    intro listed member
    obtain ⟨node, _, rfl⟩ := List.mem_map.mp (same.subset member)
    rfl
  refine ⟨⟨?_, ?_, ?_, ?_, List.nodup_nil, ?_⟩, ?_⟩
  · have measured : Retset.Measured id distance
        ((initIds.eraseDups.take lSize).map (entry distance)) := by
      intro listed member
      obtain ⟨node, _, rfl⟩ := List.mem_map.mp member
      rfl
    have ids : Retset.ids id ((initIds.eraseDups.take lSize).map (entry distance)) =
        initIds.eraseDups.take lSize := ids_entry _
    have nearest : Retset.Nearest id distance lSize _ (start distance lSize initIds).best :=
      Retset.nearest_sort measured (ids.symm ▸ apart)
        ((List.length_map _).trans_le (List.length_take_le _ _))
    rw [ids] at nearest
    exact nearest
  · obtain ⟨first, rest, rfl⟩ := List.exists_cons_of_ne_nil nonempty
    obtain ⟨more, rfl⟩ := Nat.exists_eq_succ_of_ne_zero some.ne'
    have there : entry distance first ∈
        (((first :: rest).eraseDups.take (more + 1)).map (entry distance)) := by
      rw [List.eraseDups_cons, List.take_succ_cons, List.map_cons]
      exact List.mem_cons_self
    exact List.ne_nil_of_mem (same.symm.subset there)
  · intro listed member flag
    rw [raised listed member] at flag
    cases flag
  · exact fun listed _ _ => List.not_mem_nil
  · exact fun node member => absurd member List.not_mem_nil
  · exact fun listed member => absurd member List.not_mem_nil

omit [LinearOrder Distance] in
/-- The list around the entry at `k`, before and after it is expanded. -/
theorem split_lower {listed : PoolEntry Distance} (here : search.best[search.k]? = some listed) :
    search.best = search.best.take search.k ++ listed :: search.best.drop (search.k + 1) ∧
      (search.lower listed).best = search.best.take search.k ++
        { listed with flag := false } :: search.best.drop (search.k + 1) := by
  obtain ⟨inside, rfl⟩ := List.getElem?_eq_some_iff.mp here
  refine ⟨?_, ?_⟩
  · rw [List.getElem_cons_drop, List.take_append_drop]
  · unfold lower
    dsimp only
    rw [List.set_eq_take_append_cons_drop, if_pos inside]

/-- The entry at `k` is expanded. -/
theorem Sound.lower (sound : search.Sound distance lSize) {listed : PoolEntry Distance}
    (here : search.best[search.k]? = some listed) (flag : listed.flag = true) :
    (search.lower listed).Sound distance lSize := by
  obtain ⟨before, after⟩ := split_lower here
  have member : listed ∈ search.best := List.mem_of_getElem? here
  have ids : (search.lower listed).expandedIds = search.expandedIds ++ [listed.id] :=
    List.map_append
  have fresh := sound.raised listed member flag
  have seen : listed.id ∈ search.inserted :=
    sound.nearest.nearest.subset _ (List.mem_map_of_mem member)
  have nodup : (Retset.ids id search.best).Nodup := sound.nearest.nearest.nodup
  have mem_lower : ∀ other ∈ (search.lower listed).best,
      other = { listed with flag := false } ∨ other ∈ search.best ∧ other.id ≠ listed.id := by
    intro other inList
    rw [after] at inList
    rw [before] at nodup ⊢
    exact Retset.mem_replace nodup inList
  refine ⟨sound.nearest.congr ?_, ?_, fun other inList off => ?_, fun other inList on => ?_,
    ?_, fun node expanded => ?_⟩
  · rw [after]
    conv => right; rw [before]
    rw [List.map_append, List.map_append, List.map_cons, List.map_cons]
    rfl
  · rw [after]
    exact List.append_ne_nil_of_right_ne_nil _ (List.cons_ne_nil _ _)
  · rw [ids, List.mem_append]
    obtain rfl | ⟨old, _⟩ := mem_lower other inList
    · exact .inr (List.mem_singleton.mpr rfl)
    · exact .inl (sound.lowered other old off)
  · rw [ids, List.mem_append, not_or]
    obtain rfl | ⟨old, another⟩ := mem_lower other inList
    · cases on
    · exact ⟨sound.raised other old on, fun same => another (List.mem_singleton.mp same)⟩
  · rw [ids]
    exact nodup_snoc sound.once fresh
  · rw [ids, List.mem_append] at expanded
    obtain old | last := expanded
    · exact sound.seen node old
    · rw [List.mem_singleton.mp last]
      exact seen

/-- What the visits of a round do: the entries before the least place of a new one stay. -/
structure Visits (nbrs : List Nat) (before after : MemorySearch Distance × Nat) : Prop where
  k : after.1.k = before.1.k
  expanded : after.1.expanded = before.1.expanded
  inserted : before.1.inserted ⊆ after.1.inserted
  visited : ∀ nbr ∈ nbrs, nbr ∈ after.1.inserted
  known : ∀ node ∈ after.1.inserted, node ∈ before.1.inserted ∨ node ∈ nbrs
  least : after.2 ≤ before.2
  inside : after.2 ≤ after.1.best.length
  kept : after.1.best.take after.2 = before.1.best.take after.2

theorem Sound.visit (sound : search.Sound distance lSize) {nk : Nat}
    (inside : nk ≤ search.best.length) (nbr : Nat) :
    (visit distance lSize (search, nk) nbr).1.Sound distance lSize ∧
      Visits [nbr] (search, nk) (visit distance lSize (search, nk) nbr) := by
  unfold MemorySearch.visit
  split
  · rename_i known
    refine ⟨sound, rfl, rfl, Finset.Subset.refl _, fun other member => ?_,
      fun node isSeen => .inl isSeen, le_rfl, inside, rfl⟩
    rw [List.mem_singleton.mp member]
    exact known
  · rename_i fresh
    have new : (id (entry distance nbr)).id ∉ search.inserted := fresh
    obtain ⟨nearest, offered⟩ := sound.nearest.offer sound.nonempty nk new rfl
    obtain ⟨least, within, kept⟩ := offered.keepsBefore inside
    refine ⟨⟨nearest, offered.nonempty sound.nonempty, fun listed member off => ?_,
      fun listed member on => ?_, sound.once,
      fun node expanded => Finset.mem_insert_of_mem (sound.seen node expanded)⟩, rfl, rfl,
      Finset.subset_insert _ _, fun other member => ?_, fun node isSeen => ?_, least, within, kept⟩
    · obtain rfl | old := offered.mem member
      · cases off
      · exact sound.lowered listed old off
    · obtain rfl | old := offered.mem member
      · exact fun expanded => fresh (sound.seen nbr expanded)
      · exact sound.raised listed old on
    · rw [List.mem_singleton.mp member]
      exact Finset.mem_insert_self _ _
    · exact ((Finset.mem_insert.mp isSeen).symm).imp_right List.mem_singleton.mpr

omit [LinearOrder Distance] in
theorem Visits.trans {nbr : Nat} {rest : List Nat} {first second third : MemorySearch Distance × Nat}
    (before : Visits [nbr] first second) (after : Visits rest second third) :
    Visits (nbr :: rest) first third := by
  refine ⟨after.k.trans before.k, after.expanded.trans before.expanded,
    before.inserted.trans after.inserted, fun other member => ?_, fun node isSeen => ?_,
    after.least.trans before.least, after.inside, after.kept.trans ?_⟩
  · obtain rfl | later := List.mem_cons.mp member
    · exact after.inserted (before.visited other List.mem_cons_self)
    · exact after.visited other later
  · obtain known | later := after.known node isSeen
    · refine (before.known node known).imp_right fun last => ?_
      rw [List.mem_singleton.mp last]
      exact List.mem_cons_self
    · exact .inr (List.mem_cons_of_mem _ later)
  · have shorter := congrArg (List.take third.2) before.kept
    rwa [List.take_take, List.take_take, Nat.min_eq_left after.least] at shorter

theorem Sound.visits (nbrs : List Nat) : ∀ (search : MemorySearch Distance × Nat),
    search.1.Sound distance lSize → search.2 ≤ search.1.best.length →
      (nbrs.foldl (MemorySearch.visit distance lSize) search).1.Sound distance lSize ∧
        Visits nbrs search (nbrs.foldl (MemorySearch.visit distance lSize) search) := by
  induction nbrs with
  | nil =>
    intro search sound inside
    exact ⟨sound, rfl, rfl, Finset.Subset.refl _, fun other member =>
      absurd member List.not_mem_nil, fun node isSeen => .inl isSeen, le_rfl, inside, rfl⟩
  | cons nbr rest inductionHypothesis =>
    intro search sound inside
    obtain ⟨nextSound, first⟩ := sound.visit inside nbr
    obtain ⟨lastSound, later⟩ := inductionHypothesis _ nextSound first.inside
    exact ⟨lastSound, first.trans later⟩

/-- What a round does with the list of a node. -/
structure Expands (nbrs : List Nat) (node : Nat) (before after : MemorySearch Distance) : Prop where
  expanded : after.expandedIds = before.expandedIds ++ [node]
  inserted : before.inserted ⊆ after.inserted
  visited : ∀ nbr ∈ nbrs, nbr ∈ after.inserted
  known : ∀ other ∈ after.inserted, other ∈ before.inserted ∨ other ∈ nbrs

/-- The entry at `k` is expanded, and the search goes back to the least place of a new entry. -/
theorem Sound.expand (sound : search.Sound distance lSize) (swept : search.Swept)
    {listed : PoolEntry Distance} (here : search.best[search.k]? = some listed)
    (flag : listed.flag = true) (nbrs : List Nat) :
    (search.expand distance lSize listed nbrs).Sound distance lSize ∧
      (search.expand distance lSize listed nbrs).Swept ∧
        Expands nbrs listed.id search (search.expand distance lSize listed nbrs) := by
  have inside : search.k < search.best.length := (List.getElem?_eq_some_iff.mp here).1
  have length : (search.lower listed).best.length = search.best.length := List.length_set
  obtain ⟨afterSound, visits⟩ := Sound.visits nbrs
    (search.lower listed, search.best.length) (sound.lower here flag) length.ge
  unfold MemorySearch.expand
  generalize nbrs.foldl (MemorySearch.visit distance lSize) _ = after at afterSound visits
  obtain ⟨after, nk⟩ := after
  refine ⟨{ afterSound with }, fun other member => ?_, ?_, visits.inserted, visits.visited,
    visits.known⟩
  · -- Up to `k` the entries were expanded before this round or in it.
    have front : ∀ listed' ∈ (search.lower listed).best.take (search.k + 1),
        listed'.flag = false := by
      intro listed' first
      rw [(split_lower here).2, List.take_append, List.length_take, Nat.min_eq_left inside.le,
        Nat.add_sub_cancel_left, List.mem_append] at first
      obtain before | last := first
      · exact swept listed' (List.mem_of_mem_take before)
      · rw [List.mem_singleton.mp last]
    have kept : ∀ count ≤ nk, after.best.take count =
        (search.lower listed).best.take count := by
      intro count less
      have shorter := congrArg (List.take count) visits.kept
      rwa [List.take_take, List.take_take, Nat.min_eq_left less] at shorter
    dsimp only at member
    refine front other ?_
    by_cases back : nk ≤ search.k
    · rw [if_pos back, kept nk le_rfl] at member
      exact List.take_subset_take_left _ (back.trans (Nat.le_succ _)) member
    · rw [if_neg back, kept _ (Nat.not_le.mp back)] at member
      exact member
  · show after.expanded.map Neighbor.id = _
    rw [visits.expanded]
    exact List.map_append

/-- A round goes over an entry that was expanded, or expands another one. -/
theorem Sound.round (sound : search.Sound distance lSize) (swept : search.Swept)
    {lists : Nat → List Nat} {next : MemorySearch Distance}
    (taken : search.round distance lSize lists = some next) :
    next.Sound distance lSize ∧ next.Swept ∧
      (next.inserted = search.inserted ∧ next.expanded = search.expanded ∧
          search.k < search.best.length ∧ next.k = search.k + 1 ∨
        ∃ node ∈ search.inserted, node ∉ search.expandedIds ∧
          Expands (lists node) node search next) := by
  obtain ⟨listed, here, same⟩ := Option.map_eq_some_iff.mp taken
  have member : listed ∈ search.best := List.mem_of_getElem? here
  split at same
  · rename_i flag
    obtain ⟨after, front, expands⟩ := sound.expand swept here flag (lists listed.id)
    rw [← same]
    exact ⟨after, front, .inr ⟨listed.id, sound.nearest.nearest.subset _
      (List.mem_map_of_mem member), sound.raised listed member flag, expands⟩⟩
  · rename_i flag
    rw [← same]
    have inside := (List.getElem?_eq_some_iff.mp here).1
    refine ⟨{ sound with }, fun other first => ?_, .inl ⟨rfl, rfl, inside, rfl⟩⟩
    dsimp only at first
    rw [List.take_add_one, here, List.mem_append] at first
    obtain before | last := first
    · exact swept other before
    · rw [List.mem_singleton.mp last]
      exact Bool.eq_false_of_not_eq_true flag

/-- After the last round every entry of the list was expanded. -/
theorem Swept.ended (swept : search.Swept) {lists : Nat → List Nat}
    (ended : search.round distance lSize lists = none) :
    ∀ listed ∈ search.best, listed.flag = false := by
  intro listed member
  refine swept listed ?_
  rw [List.take_of_length_le (List.getElem?_eq_none_iff.mp (Option.map_eq_none_iff.mp ended))]
  exact member

/-- After the last round as many nodes were expanded as the list has. -/
theorem Sound.card_le_expanded (sound : search.Sound distance lSize) (swept : search.Swept)
    {lists : Nat → List Nat} (ended : search.round distance lSize lists = none) :
    min lSize search.inserted.card ≤ search.expanded.length := by
  have all : ∀ node ∈ Retset.ids id search.best, node ∈ search.expandedIds := by
    intro node listed
    obtain ⟨entry, member, rfl⟩ := List.mem_map.mp listed
    exact sound.lowered entry member (swept.ended ended entry member)
  have few := (List.subperm_of_subset sound.nearest.nearest.nodup all).length_le
  rw [sound.nearest.nearest.length, expandedIds, List.length_map] at few
  exact few

end MemorySearch

end OdinVector
