/-
This file proves that a search of the in-memory `Index` ends when no list changes meanwhile,
and what it has found then: locations that are linked to the first ones, and all of them when
they are fewer than the list holds. Nothing that the list has is linked to a nearer location that
it does not have; so a location is kept out when enough others are linked to it through nearer
ones.
-/

import OdinVector.InMemory.MemorySearch
import Mathlib.Order.Lattice.Nat

namespace OdinVector

variable {Distance : Type} [LinearOrder Distance]

/-- A location that the lists link to the first ones. -/
inductive Reaches (lists : Nat → List Nat) (starts : List Nat) : Nat → Prop
  | start {id : Nat} (member : id ∈ starts) : Reaches lists starts id
  | link {id nbr : Nat} (before : Reaches lists starts id) (member : nbr ∈ lists id) :
      Reaches lists starts nbr

theorem Reaches.mono {lists : Nat → List Nat} {fewer starts : List Nat}
    (subset : fewer ⊆ starts) {id : Nat} (reaches : Reaches lists fewer id) :
    Reaches lists starts id := by
  induction reaches with
  | start member => exact .start (subset member)
  | link _ linked inductionHypothesis => exact .link inductionHypothesis linked

namespace MemorySearch

variable (distance : Nat → Distance) (lSize : Nat) (lists : Nat → List Nat)

/-- `while (k < l)`. -/
def iterate : Nat → MemorySearch Distance → Option (MemorySearch Distance)
  | 0, _ => none
  | fuel + 1, search =>
    match search.round distance lSize lists with
    | none => some search
    | some next => iterate fuel next

/-- The search from the first locations ends in this state. -/
def EndsIn (starts : List Nat) (last : MemorySearch Distance) : Prop :=
  ∃ fuel, iterate distance lSize lists fuel (start distance lSize starts) = some last

/-- What holds in the loop when no list changes. -/
structure Walks (starts : List Nat) (search : MemorySearch Distance) : Prop where
  sound : search.Sound distance lSize
  swept : search.Swept
  reached : ∀ id ∈ search.inserted, Reaches lists (starts.eraseDups.take lSize) id
  covered : ∀ id ∈ search.expandedIds, ∀ nbr ∈ lists id, nbr ∈ search.inserted
  started : ∀ id ∈ starts.eraseDups.take lSize, id ∈ search.inserted

variable {distance lSize lists} {starts : List Nat} {search next last : MemorySearch Distance}

/-- The list starts with some of the first locations. -/
theorem firsts_subset : starts.eraseDups.take lSize ⊆ starts :=
  fun _ member => List.mem_eraseDups.mp (List.mem_of_mem_take member)

variable (distance lists) in
theorem walks_start (some : 0 < lSize) (nonempty : starts ≠ []) :
    (start distance lSize starts).Walks distance lSize lists starts := by
  obtain ⟨sound, swept⟩ := sound_start distance some nonempty
  exact ⟨sound, swept, fun id member => .start (List.mem_toFinset.mp member),
    fun id member => absurd member List.not_mem_nil, fun id member => List.mem_toFinset.mpr member⟩

theorem Walks.round (walks : search.Walks distance lSize lists starts)
    (taken : search.round distance lSize lists = some next) :
    next.Walks distance lSize lists starts := by
  obtain ⟨sound, swept, same | ⟨node, isSeen, _, expands⟩⟩ := walks.sound.round walks.swept taken
  · have ids : next.expandedIds = search.expandedIds := congrArg (List.map Neighbor.id) same.2.1
    refine ⟨sound, swept, fun id member => walks.reached id (same.1 ▸ member),
      fun id member nbr linked => ?_, fun id member => ?_⟩
    · rw [same.1]
      exact walks.covered id (ids ▸ member) nbr linked
    · rw [same.1]
      exact walks.started id member
  · refine ⟨sound, swept, fun id member => ?_, fun id member nbr linked => ?_,
      fun id member => expands.inserted (walks.started id member)⟩
    · obtain before | listed := expands.known id member
      · exact walks.reached id before
      · exact .link (walks.reached node isSeen) listed
    · rw [expands.expanded] at member
      obtain before | new := List.mem_append.mp member
      · exact expands.inserted (walks.covered id before nbr linked)
      · rw [List.mem_singleton.mp new] at linked
        exact expands.visited nbr linked

theorem Walks.iterate {fuel : Nat} : ∀ {search : MemorySearch Distance},
    search.Walks distance lSize lists starts →
      MemorySearch.iterate distance lSize lists fuel search = some last →
        last.Walks distance lSize lists starts ∧ last.round distance lSize lists = none := by
  induction fuel with
  | zero =>
    intro search walks ends
    cases ends
  | succ fuel inductionHypothesis =>
    intro search walks ends
    unfold MemorySearch.iterate at ends
    split at ends
    · rename_i ended
      obtain rfl := Option.some.inj ends
      exact ⟨walks, ended⟩
    · rename_i next taken
      exact inductionHypothesis (walks.round taken) ends

/-! ### The search ends -/

/-- A bound on the rounds that are left, among so many locations. -/
def roundsLeft (locations : Nat) (search : MemorySearch Distance) : Nat :=
  (locations - search.expanded.length) * (locations + 1) + (locations - search.k)

/-- A round brings the end nearer. -/
theorem Walks.roundsLeft_lt {locations : Nat} (walks : search.Walks distance lSize lists starts)
    (few : ∀ id, Reaches lists starts id → id < locations)
    (taken : search.round distance lSize lists = some next) :
    next.roundsLeft locations < search.roundsLeft locations := by
  have card : ∀ {search : MemorySearch Distance}, search.Walks distance lSize lists starts →
      search.inserted.card ≤ locations := by
    intro search walks
    rw [← Finset.card_range locations]
    exact Finset.card_le_card fun id member =>
      Finset.mem_range.mpr (few id ((walks.reached id member).mono firsts_subset))
  unfold roundsLeft
  obtain ⟨sound, swept, same | ⟨node, isSeen, _, expands⟩⟩ := walks.sound.round walks.swept taken
  · obtain ⟨_, expanded, inside, k⟩ := same
    have length := walks.sound.nearest.nearest.length
    rw [Retset.ids, List.length_map] at length
    have bound := card walks
    rw [expanded, k]
    omega
  · have after : next.expanded.length = search.expanded.length + 1 := by
      have ids := congrArg List.length expands.expanded
      rwa [List.length_append, expandedIds, expandedIds, List.length_map, List.length_map,
        List.length_singleton] at ids
    have nodes : next.expanded.length ≤ locations := by
      refine le_trans ?_ (card (walks.round taken))
      have subset : next.expandedIds.toFinset ⊆ next.inserted :=
        fun id member => sound.seen id (List.mem_toFinset.mp member)
      have count := Finset.card_le_card subset
      rwa [List.toFinset_card_of_nodup sound.once, expandedIds, List.length_map] at count
    have product : (locations - next.expanded.length + 1) * (locations + 1) ≤
        (locations - search.expanded.length) * (locations + 1) :=
      Nat.mul_le_mul_right _ (by omega)
    rw [Nat.add_mul, Nat.one_mul] at product
    omega

theorem Walks.ends {locations : Nat} (few : ∀ id, Reaches lists starts id → id < locations)
    (walks : search.Walks distance lSize lists starts) :
    ∃ fuel last, MemorySearch.iterate distance lSize lists fuel search = some last := by
  induction left : search.roundsLeft locations using Nat.strongRecOn generalizing search with
  | ind left inductionHypothesis =>
    cases taken : search.round distance lSize lists with
    | none =>
      refine ⟨1, search, ?_⟩
      unfold MemorySearch.iterate
      rw [taken]
    | some next =>
      have nearer := walks.roundsLeft_lt few taken
      rw [left] at nearer
      obtain ⟨fuel, last, ends⟩ := inductionHypothesis _ nearer (walks.round taken) rfl
      refine ⟨fuel + 1, last, ?_⟩
      unfold MemorySearch.iterate
      rw [taken]
      exact ends

/-- A search among finitely many locations ends. -/
theorem exists_endsIn {locations : Nat} (some : 0 < lSize) (nonempty : starts ≠ [])
    (few : ∀ id, Reaches lists starts id → id < locations) :
    ∃ last, EndsIn distance lSize lists starts last := by
  obtain ⟨fuel, last, ends⟩ := (walks_start distance lists some nonempty).ends few
  exact ⟨last, fuel, ends⟩

/-! ### What is found -/

/-- What a search has found at its end. -/
structure Found (distance : Nat → Distance) (lSize : Nat) (lists : Nat → List Nat)
    (starts : List Nat) (best : List (PoolEntry Distance)) : Prop where
  nodup : (best.map fun entry => entry.id).Nodup
  reached : ∀ entry ∈ best, Reaches lists starts entry.id
  measured : ∀ entry ∈ best, entry.distance = distance entry.id
  length : best.length ≤ lSize
  /-- Fewer than the list holds are all there are. -/
  all : best.length < lSize → ∀ id, Reaches lists starts id → id ∈ best.map fun entry => entry.id

theorem EndsIn.found (ends : EndsIn distance lSize lists starts last) (some : 0 < lSize)
    (nonempty : starts ≠ []) : Found distance lSize lists starts last.best := by
  obtain ⟨fuel, ends⟩ := ends
  obtain ⟨walks, ended⟩ := (walks_start distance lists some nonempty).iterate ends
  have nearest := walks.sound.nearest
  have length := nearest.nearest.length
  rw [Retset.ids, List.length_map] at length
  have listed : ∀ entry ∈ last.best, entry.id ∈ last.inserted :=
    fun entry member => nearest.nearest.subset _ (List.mem_map_of_mem member)
  refine ⟨nearest.nearest.nodup, fun entry member =>
      (walks.reached _ (listed entry member)).mono firsts_subset,
    nearest.measured, length.trans_le (min_le_left _ _), fun short id reaches => ?_⟩
  have shortIds : (Retset.ids (fun entry : PoolEntry Distance => entry) last.best).length <
      lSize := (List.length_map _).trans_lt short
  have inserted_mem : ∀ id ∈ last.inserted, id ∈ last.best.map fun entry => entry.id :=
    fun id member => nearest.nearest.mem_of_short shortIds member
  refine inserted_mem id ?_
  induction reaches with
  | @start id member =>
    refine walks.started id ?_
    have few : starts.eraseDups.length < lSize := by
      by_contra! many
      have subset : (starts.eraseDups.take lSize).toFinset ⊆ last.inserted :=
        fun id member => walks.started id (List.mem_toFinset.mp member)
      have count := Finset.card_le_card subset
      rw [List.toFinset_card_of_nodup ((nodup_eraseDups starts).sublist (List.take_sublist _ _)),
        List.length_take, Nat.min_eq_left many] at count
      omega
    rw [List.take_of_length_le few.le]
    exact List.mem_eraseDups.mpr member
  | @link id nbr before linked inductionHypothesis =>
    obtain ⟨entry, member, same⟩ := List.mem_map.mp (inserted_mem id inductionHypothesis)
    refine walks.covered id ?_ nbr linked
    rw [← same]
    exact walks.sound.lowered entry member (walks.swept.ended ended entry member)

/-! ### What is kept -/

/-- What the list has at the end: nothing that one of its locations is linked to, and nothing that
it started with, is nearer than all that it has. -/
structure Exhausted (distance : Nat → Distance) (lSize : Nat) (lists : Nat → List Nat)
    (starts ids : List Nat) : Prop where
  nonempty : ids ≠ []
  sorted : NearestList.Sorted distance ids
  nodup : ids.Nodup
  length : ids.length ≤ lSize
  reached : ∀ id ∈ ids, Reaches lists (starts.eraseDups.take lSize) id
  linked : ∀ id ∈ ids, ∀ nbr ∈ lists id,
    nbr ∈ ids ∨ ∀ other ∈ ids, distance other ≤ distance nbr
  started : ∀ id ∈ starts.eraseDups.take lSize,
    id ∈ ids ∨ ∀ other ∈ ids, distance other ≤ distance id

theorem EndsIn.exhausted (ends : EndsIn distance lSize lists starts last) (some : 0 < lSize)
    (nonempty : starts ≠ []) :
    Exhausted distance lSize lists starts (last.best.map fun entry => entry.id) := by
  obtain ⟨fuel, ends⟩ := ends
  obtain ⟨walks, ended⟩ := (walks_start distance lists some nonempty).iterate ends
  have nearest := walks.sound.nearest.nearest
  have seen : ∀ id ∈ last.inserted, id ∈ last.best.map (fun entry => entry.id) ∨
      ∀ other ∈ last.best.map fun entry => entry.id, distance other ≤ distance id :=
    fun id inserted => or_iff_not_imp_left.mpr fun absent => nearest.nearest id inserted absent
  refine ⟨fun empty => walks.sound.nonempty (List.map_eq_nil_iff.mp empty), nearest.sorted,
    nearest.nodup, nearest.length.trans_le (min_le_left _ _),
    fun id member => walks.reached id (nearest.subset id member), fun id member nbr linked => ?_,
    fun id member => seen id (walks.started id member)⟩
  obtain ⟨entry, listed, rfl⟩ := List.mem_map.mp member
  have lowered := walks.sound.lowered entry listed (walks.swept.ended ended entry listed)
  exact seen nbr (walks.covered _ lowered nbr linked)

variable (distance lists) in
/-- The links to locations that are nearer than one. -/
def nearerLists (id location : Nat) : List Nat :=
  (lists location).filter fun nbr => distance nbr < distance id

variable (distance lists) in
/-- So many locations are linked to one through locations that are nearer than it. -/
def NearerLinked (id count : Nat) : Prop :=
  ∃ ids : List Nat, ids.Nodup ∧ ids.length = count ∧ ∀ other ∈ ids,
    Reaches (nearerLists distance lists id) (nearerLists distance lists id id) other

variable {ids : List Nat}

/-- With a location, the list has what is linked to it through nearer ones. -/
theorem Exhausted.mem_of_nearer (exhausted : Exhausted distance lSize lists starts ids)
    {id other : Nat} (inside : id ∈ ids)
    (nearer : Reaches (nearerLists distance lists id) (nearerLists distance lists id id) other) :
    other ∈ ids ∧ distance other < distance id := by
  have next : ∀ location ∈ ids, ∀ nbr ∈ nearerLists distance lists id location,
      nbr ∈ ids ∧ distance nbr < distance id := by
    intro location listed nbr member
    obtain ⟨linked, less⟩ := List.mem_filter.mp member
    have less := of_decide_eq_true less
    refine ⟨(exhausted.linked location listed nbr linked).resolve_right fun far => ?_, less⟩
    exact absurd (far id inside) (not_le.mpr less)
  induction nearer with
  | start member => exact next id inside _ member
  | link _ member inductionHypothesis => exact next _ inductionHypothesis.1 _ member

/-- A location that so many are linked to is not one of the first so many. -/
theorem Exhausted.notMem_take (exhausted : Exhausted distance lSize lists starts ids)
    {id count : Nat} (many : NearerLinked distance lists id count) : id ∉ ids.take count := by
  intro member
  obtain ⟨others, nodup, rfl, linked⟩ := many
  obtain ⟨before, behind, split⟩ := List.append_of_mem (List.mem_of_mem_take member)
  have sorted := exhausted.sorted
  rw [split, NearestList.Sorted, List.pairwise_append, List.pairwise_cons] at sorted
  have subset : ∀ other ∈ others, other ∈ before := by
    intro other isOther
    obtain ⟨inside, less⟩ :=
      exhausted.mem_of_nearer (List.mem_of_mem_take member) (linked other isOther)
    rw [split, List.mem_append, List.mem_cons] at inside
    obtain inside | rfl | inside := inside
    · exact inside
    · exact absurd less (lt_irrefl _)
    · exact absurd less (not_lt.mpr (sorted.2.1.1 other inside))
  have count := (List.subperm_of_subset nodup subset).length_le
  have apart := exhausted.nodup
  rw [split] at member apart
  rw [List.take_append_of_le_length count] at member
  exact (List.nodup_append.mp apart).2.2 id (List.mem_of_mem_take member) id List.mem_cons_self rfl

/-! ### A search that keeps a location -/

/-- One location is linked to another in so many steps. -/
def LinkedIn (lists : Nat → List Nat) (target : Nat) : Nat → Nat → Prop
  | 0, id => id = target
  | steps + 1, id => ∃ nbr ∈ lists id, LinkedIn lists target steps nbr

theorem LinkedIn.snoc {steps id target nbr : Nat} (linked : LinkedIn lists target steps id)
    (member : nbr ∈ lists target) : LinkedIn lists nbr (steps + 1) id := by
  induction steps generalizing id with
  | zero =>
    obtain rfl : id = target := linked
    exact ⟨nbr, member, rfl⟩
  | succ steps inductionHypothesis =>
    obtain ⟨first, inList, later⟩ := linked
    exact ⟨first, inList, inductionHypothesis later⟩

theorem exists_linkedIn {target : Nat} (reaches : Reaches lists starts target) :
    ∃ first ∈ starts, ∃ steps, LinkedIn lists target steps first := by
  induction reaches with
  | @start id member => exact ⟨id, member, 0, rfl⟩
  | link _ member inductionHypothesis =>
    obtain ⟨first, isFirst, steps, linked⟩ := inductionHypothesis
    exact ⟨first, isFirst, steps + 1, linked.snoc member⟩

/-- The steps to a location, when they are fewer than so many. -/
noncomputable def stepsTo (lists : Nat → List Nat) (target limit id : Nat) : Nat :=
  sInf {steps | LinkedIn lists target steps id ∨ steps = limit}

/-- When the distance of a location is the way to another one, that one is the nearest found. -/
theorem Exhausted.head_of_steps {rank : Nat → Distance} (ranks : StrictMono rank)
    {target first steps : Nat} (linked : LinkedIn lists target steps first)
    (isFirst : first ∈ starts.eraseDups.take lSize)
    (exhausted : Exhausted (fun id => rank (stepsTo lists target (steps + 1) id)) lSize lists starts
      ids) : ids.head? = some target := by
  have least : ∀ {id steps'}, LinkedIn lists target steps' id →
      stepsTo lists target (steps + 1) id ≤ steps' := fun linked => Nat.sInf_le (.inl linked)
  obtain ⟨nearest, rest, rfl⟩ := List.exists_cons_of_ne_nil exhausted.nonempty
  have below : ∀ {id}, id ∈ nearest :: rest ∨ (∀ other ∈ nearest :: rest,
      rank (stepsTo lists target (steps + 1) other) ≤ rank (stepsTo lists target (steps + 1) id)) →
        stepsTo lists target (steps + 1) nearest ≤ stepsTo lists target (steps + 1) id := by
    rintro id (inside | far)
    · obtain rfl | inside := List.mem_cons.mp inside
      · exact le_rfl
      · exact ranks.le_iff_le.mp ((List.pairwise_cons.mp exhausted.sorted).1 id inside)
    · exact ranks.le_iff_le.mp (far nearest List.mem_cons_self)
  have short := (below (exhausted.started first isFirst)).trans (least linked)
  have way : LinkedIn lists target (stepsTo lists target (steps + 1) nearest) nearest := by
    have attained : stepsTo lists target (steps + 1) nearest ∈
        {steps' | LinkedIn lists target steps' nearest ∨ steps' = steps + 1} :=
      Nat.sInf_mem ⟨steps + 1, .inr rfl⟩
    exact attained.resolve_right (by omega)
  cases left : stepsTo lists target (steps + 1) nearest with
  | zero =>
    rw [left] at way
    exact congrArg some way
  | succ fewer =>
    rw [left] at way
    obtain ⟨nbr, inList, later⟩ := way
    have nearer := below (exhausted.linked nearest List.mem_cons_self nbr inList)
    have further := least later
    omega

end MemorySearch

end OdinVector
