/-
This file models what the searches of the disk index do with a neighbour that they see
for the first time: unless the list is full and the neighbour is not nearer than its
last entry, `InsertIntoPool` puts it in, and the list is cut to its limit. With this the
list always has the nearest of the nodes that were seen.

`retset` is the list of its first `cur_list_size` entries here. The searches have entries
of their own, which are seen as the ones of `InsertIntoPool`.
-/

import OdinVector.NearestList
import OdinVector.Search.FilterBeam

namespace OdinVector

variable {Distance : Type} [LinearOrder Distance]

open NearestList

/-! ### The place of a new entry -/

namespace Pool

variable {addr : Nat → PoolEntry Distance} {K : Nat}

/-- The distances do not fall up to the size of the list. -/
def Ascending (addr : Nat → PoolEntry Distance) (K : Nat) : Prop :=
  ∀ i j, i ≤ j → j < K → (addr i).distance ≤ (addr j).distance

/-- What the two ends of the bisection are next to. -/
theorem bisect_spec (ascending : Ascending addr K) {distance : Distance} {left right : Nat}
    (fuel : Nat) (enough : right - left ≤ fuel) (ordered : left ≤ right) (inside : right < K)
    (low : (addr left).distance ≤ distance)
    (high : right = K - 1 ∧ distance ≤ (addr right).distance ∨
      distance < (addr right).distance) :
    (bisect addr distance fuel left right).2 < K ∧
      (∀ i < (bisect addr distance fuel left right).2, (addr i).distance ≤ distance) ∧
        distance ≤ (addr (bisect addr distance fuel left right).2).distance := by
  have ended : ¬ (1 < right ∧ left < right - 1) →
      right < K ∧ (∀ i < right, (addr i).distance ≤ distance) ∧
        distance ≤ (addr right).distance := by
    intro close
    refine ⟨inside, fun i below => ?_, high.elim And.right le_of_lt⟩
    exact (ascending i left (by omega) (by omega)).trans low
  induction fuel generalizing left right with
  | zero => exact ended (by omega)
  | succ fuel inductionHypothesis =>
    unfold bisect
    split
    · rename_i apart
      dsimp only
      have below : left < (left + right) / 2 := by omega
      have above : (left + right) / 2 < right := by omega
      split
      · rename_i less
        refine inductionHypothesis (by omega) (by omega) (by omega) low (Or.inr less) ?_
        intro close
        refine ⟨by omega, fun i before => ?_, less.le⟩
        exact (ascending i left (by omega) (by omega)).trans low
      · rename_i notLess
        have middle := not_lt.mp notLess
        refine inductionHypothesis (by omega) (by omega) inside middle high ?_
        intro close
        refine ⟨inside, fun i before => ?_, high.elim And.right le_of_lt⟩
        exact (ascending i _ (by omega) (by omega)).trans middle
    · exact ended (by assumption)

/-- The place that is returned has no entry that is farther before it and none that is
nearer from it on. -/
theorem insertIntoPool_place (some : 0 < K) (ascending : Ascending addr K)
    {nn : PoolEntry Distance} (fresh : ∀ i < K, (addr i).id ≠ nn.id) :
    (insertIntoPool addr K nn).2 ≤ K ∧
      (∀ i < (insertIntoPool addr K nn).2, (addr i).distance ≤ nn.distance) ∧
        ∀ i < K, (insertIntoPool addr K nn).2 ≤ i → nn.distance ≤ (addr i).distance := by
  unfold insertIntoPool
  split
  · rename_i nearest
    refine ⟨Nat.zero_le K, fun i below => absurd below (Nat.not_lt_zero i), fun i inside _ => ?_⟩
    exact nearest.le.trans (ascending 0 i (Nat.zero_le i) inside)
  rename_i low
  split
  · rename_i farthest
    refine ⟨le_rfl, fun i below => ?_, fun i inside behind => absurd inside (Nat.not_lt.mpr behind)⟩
    exact (ascending i (K - 1) (by omega) (by omega)).trans farthest.le
  rename_i high
  dsimp only
  obtain ⟨inside, before, behind⟩ := bisect_spec ascending K (by omega : K - 1 - 0 ≤ K)
    (Nat.zero_le (K - 1)) (by omega) (not_lt.mp low) (Or.inl ⟨rfl, not_lt.mp high⟩)
  have bounds := bisect_le addr nn.distance K (Nat.zero_le (K - 1)) (le_refl (K - 1))
  obtain ⟨back, equal⟩ := scanEqual_le addr nn (bisect addr nn.distance K 0 (K - 1)).1
  split
  · rename_i found
    obtain same | same | same := found
    · exact absurd (equal same) (fresh _ (by omega))
    · exact absurd same (fresh _ (by omega))
    · exact absurd same (fresh _ inside)
  · exact ⟨inside.le, before, fun i below past => behind.trans (ascending _ i past below)⟩

end Pool

/-! ### The list -/

namespace Retset

variable {Entry : Type} (view : Entry → PoolEntry Distance)

/-- The entries of a list as the array of `InsertIntoPool`; what is behind them is not read. -/
def addr (retset : List Entry) (nn : Entry) (i : Nat) : PoolEntry Distance :=
  view (retset.getD i nn)

/-- What `InsertIntoPool` returns. -/
def insertPlace (retset : List Entry) (nn : Entry) : Nat :=
  (Pool.insertIntoPool (addr view retset nn) retset.length (view nn)).2

/-- A new entry is offered to the list, and `nk` is the least place of a new entry. The place
behind the list and one more means that the id is there: only ids that were not seen are
offered. -/
def offer (lSearch : Nat) (retset : List Entry) (nk : Nat) (nn : Entry) : List Entry × Nat :=
  if (addr view retset nn (retset.length - 1)).distance ≤ (view nn).distance ∧
      retset.length = lSearch then (retset, nk)
  else
    let r := insertPlace view retset nn
    (if r ≤ retset.length then
      (insertAt retset r nn).take
        (if retset.length < lSearch then retset.length + 1 else retset.length)
      else retset,
      if r < nk then r else nk)

/-- The ids of the entries. -/
def ids (retset : List Entry) : List Nat :=
  retset.map fun entry => (view entry).id

/-- The entries have the distances of their nodes. -/
def Measured (pqDist : Nat → Distance) (retset : List Entry) : Prop :=
  ∀ entry ∈ retset, (view entry).distance = pqDist (view entry).id

/-- The list has the nearest of the nodes that were seen. -/
structure Nearest (pqDist : Nat → Distance) (lSearch : Nat) (visited : Finset Nat)
    (retset : List Entry) : Prop where
  measured : Measured view pqDist retset
  nearest : NearestList.Nearest pqDist lSearch visited (ids view retset)

variable {view} {pqDist : Nat → Distance} {lSearch : Nat} {visited : Finset Nat}
variable {retset : List Entry}

omit [LinearOrder Distance] in
theorem addr_of_lt {nn : Entry} {i : Nat} (inside : i < retset.length) :
    addr view retset nn i = view retset[i] := by
  unfold addr
  rw [List.getD_eq_getElem?_getD, List.getElem?_eq_getElem inside]
  rfl

omit [LinearOrder Distance] in
theorem addr_mem (view : Entry → PoolEntry Distance) (nn : Entry) {i : Nat}
    (inside : i < retset.length) :
    ∃ entry ∈ retset, addr view retset nn i = view entry :=
  ⟨retset[i], List.getElem_mem inside, addr_of_lt inside⟩

section Replace

variable {before rest : List Entry} {entry changed other : Entry}

omit [LinearOrder Distance] in
/-- An entry that keeps its id is replaced. -/
theorem ids_replace (same : (view changed).id = (view entry).id) :
    ids view (before ++ changed :: rest) = ids view (before ++ entry :: rest) := by
  unfold ids
  rw [List.map_append, List.map_append, List.map_cons, List.map_cons, same]

omit [LinearOrder Distance] in
/-- What is in the list after an entry was replaced: the new one, and the others. -/
theorem mem_replace (apart : (ids view (before ++ entry :: rest)).Nodup)
    (member : other ∈ before ++ changed :: rest) :
    other = changed ∨ other ∈ before ++ entry :: rest ∧ (view other).id ≠ (view entry).id := by
  unfold ids at apart
  rw [List.map_append, List.map_cons, List.nodup_append, List.nodup_cons] at apart
  obtain ⟨-, ⟨notBehind, -⟩, notBefore⟩ := apart
  obtain inFirst | inSecond := List.mem_append.mp member
  · exact Or.inr ⟨List.mem_append_left _ inFirst,
      notBefore _ (List.mem_map_of_mem inFirst) _ List.mem_cons_self⟩
  · obtain same | inRest := List.mem_cons.mp inSecond
    · exact Or.inl same
    · exact Or.inr ⟨List.mem_append_right _ (List.mem_cons_of_mem _ inRest), fun same =>
        notBehind (same ▸ List.mem_map_of_mem inRest)⟩

end Replace

omit [LinearOrder Distance] in
theorem Measured.of_perm {after : List Entry} (measured : Measured view pqDist retset)
    (same : (after.map fun entry => (view entry).toNeighbor).Perm
      (retset.map fun entry => (view entry).toNeighbor)) : Measured view pqDist after := by
  intro entry member
  obtain ⟨old, there, equal⟩ := List.mem_map.mp (same.subset (List.mem_map_of_mem member))
  rw [← equal]
  exact measured old there

/-- Entries that are changed but keep their ids and distances. -/
theorem Nearest.congr {after : List Entry}
    (nearest : Nearest view pqDist lSearch visited retset)
    (same : (after.map fun entry => (view entry).toNeighbor) =
      retset.map fun entry => (view entry).toNeighbor) :
    Nearest view pqDist lSearch visited after := by
  have ids : ids view after = ids view retset := by
    have each := congrArg (List.map Neighbor.id) same
    rwa [List.map_map, List.map_map] at each
  exact ⟨nearest.measured.of_perm (.of_eq same), ids ▸ nearest.nearest⟩

theorem Nearest.ascending (nearest : Nearest view pqDist lSearch visited retset) (nn : Entry) :
    Pool.Ascending (addr view retset nn) retset.length := by
  intro i j ordered inside
  have before : i < retset.length := ordered.trans_lt inside
  rw [addr_of_lt before, addr_of_lt inside, nearest.measured _ (List.getElem_mem before),
    nearest.measured _ (List.getElem_mem inside)]
  obtain rfl | less := Nat.eq_or_lt_of_le ordered
  · exact le_rfl
  · have sorted := List.pairwise_map.mp nearest.nearest.sorted
    exact List.pairwise_iff_getElem.mp sorted i j before inside less

/-- What is said of the place of a new entry, by the list. -/
theorem Nearest.insertPlace_spec (nearest : Nearest view pqDist lSearch visited retset)
    (nonempty : retset ≠ []) {nn : Entry} (fresh : (view nn).id ∉ visited)
    (measured : (view nn).distance = pqDist (view nn).id) :
    insertPlace view retset nn ≤ retset.length ∧
      Fits pqDist (ids view retset) (insertPlace view retset nn) (view nn).id := by
  have absent : ∀ i < retset.length, (addr view retset nn i).id ≠ (view nn).id := by
    intro i inside same
    obtain ⟨entry, member, there⟩ := addr_mem view nn inside
    rw [there] at same
    exact fresh (same ▸ nearest.nearest.subset _ (List.mem_map_of_mem member))
  obtain ⟨inside, before, behind⟩ := Pool.insertIntoPool_place
    (List.length_pos_iff.mpr nonempty) (nearest.ascending nn) absent
  refine ⟨inside, ?_, fun other member => ?_, fun other member => ?_⟩
  · rwa [ids, List.length_map]
  · unfold ids at member
    rw [← List.map_take] at member
    obtain ⟨entry, taken, rfl⟩ := List.mem_map.mp member
    obtain ⟨i, below, rfl⟩ := List.mem_take_iff_getElem.mp taken
    have low := before i (lt_min_iff.mp below).1
    rwa [addr_of_lt (by omega), measured, nearest.measured _ (List.getElem_mem _)] at low
  · unfold ids at member
    rw [← List.map_drop] at member
    obtain ⟨entry, dropped, rfl⟩ := List.mem_map.mp member
    obtain ⟨i, below, rfl⟩ := List.mem_drop_iff_getElem.mp dropped
    have inPool : insertPlace view retset nn + i < retset.length := by omega
    have high := behind _ inPool (Nat.le_add_right _ i)
    rwa [addr_of_lt inPool, measured, nearest.measured _ (List.getElem_mem _)] at high

/-- What an offer does: the neighbour is left out, or it goes in at its place. -/
inductive Offered (lSearch : Nat) (retset : List Entry) (nk : Nat) (nn : Entry) :
    List Entry × Nat → Prop
  | skipped (full : retset.length = lSearch) : Offered lSearch retset nk nn (retset, nk)
  | entered (place : Nat) (inside : place ≤ retset.length)
      (room : retset.length < lSearch ∨ place < retset.length) :
      Offered lSearch retset nk nn
        ((insertAt retset place nn).take
          (if retset.length < lSearch then retset.length + 1 else retset.length),
          if place < nk then place else nk)

theorem Nearest.last_le (nearest : Nearest view pqDist lSearch visited retset) {nn : Entry}
    {entry : Entry} (member : entry ∈ retset) :
    (view entry).distance ≤ (addr view retset nn (retset.length - 1)).distance := by
  obtain ⟨i, inside, rfl⟩ := List.mem_iff_getElem.mp member
  have low := nearest.ascending nn i (retset.length - 1) (by omega) (by omega)
  rwa [addr_of_lt inside] at low

/-- An offer keeps the nearest of the nodes that were seen. -/
theorem Nearest.offer (nearest : Nearest view pqDist lSearch visited retset)
    (nonempty : retset ≠ []) (nk : Nat) {nn : Entry} (fresh : (view nn).id ∉ visited)
    (measured : (view nn).distance = pqDist (view nn).id) :
    Nearest view pqDist lSearch (insert (view nn).id visited)
        (offer view lSearch retset nk nn).1 ∧
      Offered lSearch retset nk nn (offer view lSearch retset nk nn) := by
  have some := List.length_pos_iff.mpr nonempty
  obtain ⟨inside, fits⟩ := nearest.insertPlace_spec nonempty fresh measured
  unfold Retset.offer
  split
  · rename_i full
    refine ⟨⟨nearest.measured, nearest.nearest.skip ?_ fresh fun near member => ?_⟩,
      .skipped full.2⟩
    · rw [ids, List.length_map]
      exact full.2
    · obtain ⟨entry, there, rfl⟩ := List.mem_map.mp member
      rw [← nearest.measured entry there, ← measured]
      exact (nearest.last_le there).trans full.1
  · rename_i notFull
    dsimp only
    rw [if_pos inside]
    obtain ⟨last, lastMember, lastThere⟩ := addr_mem view nn
      (by omega : retset.length - 1 < retset.length)
    have room : retset.length < lSearch ∨ (view nn).distance < (view last).distance := by
      rw [lastThere] at notFull
      obtain less | more := Nat.lt_or_ge retset.length lSearch
      · exact Or.inl less
      · have length := nearest.nearest.length
        rw [ids, List.length_map] at length
        refine Or.inr (not_le.mp fun far => notFull ⟨far, ?_⟩)
        omega
    refine ⟨⟨fun entry member => ?_, ?_⟩, .entered _ inside (room.imp_right fun less => ?_)⟩
    · obtain rfl | before := mem_insertAt.mp ((List.take_sublist _ _).subset member)
      · exact measured
      · exact nearest.measured entry before
    · have entered := nearest.nearest.insertAt fresh fits ?_
      · rw [ids, List.length_map] at entered
        rw [ids, List.map_take, map_insertAt]
        exact entered
      · rw [ids, List.length_map]
        refine room.imp_right fun less => ⟨(view last).id, List.mem_map_of_mem lastMember, ?_⟩
        rw [← measured, ← nearest.measured last lastMember]
        exact less
    · -- Behind all entries there is no place for a neighbour that is nearer than the last one.
      by_contra past
      have behind : insertPlace view retset nn = retset.length := by omega
      have low := fits.before (view last).id ?_
      · rw [← measured, ← nearest.measured last lastMember] at low
        exact absurd less (not_lt.mpr low)
      · rw [behind, ids, List.take_of_length_le (List.length_map _).le]
        exact List.mem_map_of_mem lastMember

variable {nk : Nat} {nn : Entry} {after : List Entry × Nat}

omit [LinearOrder Distance] in
theorem Offered.nonempty (offered : Offered lSearch retset nk nn after) (before : retset ≠ []) :
    after.1 ≠ [] := by
  have some := List.length_pos_iff.mpr before
  refine List.length_pos_iff.mp ?_
  cases offered with
  | skipped full => exact some
  | entered place inside room =>
    rw [List.length_take, length_insertAt]
    split <;> omega

theorem Offered.mem (offered : Offered lSearch retset nk nn after) {entry : Entry}
    (member : entry ∈ after.1) : entry = nn ∨ entry ∈ retset := by
  cases offered with
  | skipped full => exact Or.inr member
  | entered place inside room => exact mem_insertAt.mp ((List.take_sublist _ _).subset member)

/-- A neighbour that is not left out is in the list. -/
theorem Offered.same_or_mem (offered : Offered lSearch retset nk nn after) :
    after.1 = retset ∨ nn ∈ after.1 := by
  cases offered with
  | skipped full => exact Or.inl rfl
  | entered place inside room =>
    refine Or.inr ?_
    have before : (retset.take place).length = place := by
      rw [List.length_take, Nat.min_eq_left inside]
    have there : (insertAt retset place nn)[place]? = some nn := by
      unfold insertAt
      rw [List.getElem?_append_right before.le, before, Nat.sub_self, List.getElem?_cons_zero]
    refine List.mem_of_getElem? (i := place) ?_
    rw [List.getElem?_take_of_lt]
    · exact there
    · split <;> omega

/-- What was before and behind an entry of the list, when the new entry is not that one. -/
theorem Offered.split (offered : Offered lSearch retset nk nn after) {entry : Entry}
    {before later : List Entry} (there : after.1 = before ++ entry :: later) (old : entry ≠ nn) :
    ∃ first second rest, retset = first ++ second ++ entry :: rest ∧
      (before = first ++ second ∨ before = first ++ nn :: second) := by
  cases offered with
  | skipped full => exact ⟨before, [], later, (List.append_nil before).symm ▸ there,
      Or.inl (List.append_nil before).symm⟩
  | entered place inside room =>
    have whole := List.take_append_drop (if retset.length < lSearch then retset.length + 1
      else retset.length) (insertAt retset place nn)
    dsimp only at there
    rw [there] at whole
    generalize List.drop _ (insertAt retset place nn) = cut at whole
    unfold insertAt at whole
    rw [List.append_assoc, List.cons_append] at whole
    obtain ⟨middle, front, behind⟩ | ⟨middle, front, behind⟩ := List.append_eq_append_iff.mp whole
    · obtain rfl | ⟨head, rest⟩ := middle
      · exact absurd (List.cons_eq_cons.mp behind).1 old
      · obtain ⟨rfl, back⟩ := List.cons_eq_cons.mp behind
        refine ⟨before, [], rest ++ retset.drop place, ?_, Or.inl (List.append_nil before).symm⟩
        rw [List.append_nil, ← List.cons_append, ← List.append_assoc, ← front,
          List.take_append_drop]
    · obtain rfl | ⟨head, rest⟩ := middle
      · exact absurd (List.cons_eq_cons.mp behind).1.symm old
      · obtain ⟨rfl, back⟩ := List.cons_eq_cons.mp behind
        refine ⟨retset.take place, rest, later ++ cut, ?_, Or.inr front⟩
        have behindPlace : retset.drop place = rest ++ entry :: (later ++ cut) := back
        rw [List.append_assoc, ← behindPlace, List.take_append_drop]

/-- Before the least place of a new entry nothing changes. -/
theorem Offered.keepsBefore (offered : Offered lSearch retset nk nn after)
    (bounded : nk ≤ retset.length) :
    after.2 ≤ nk ∧ after.2 ≤ after.1.length ∧ after.1.take after.2 = retset.take after.2 := by
  cases offered with
  | skipped full => exact ⟨le_rfl, bounded, rfl⟩
  | entered place inside room =>
    have least : (if place < nk then place else nk) ≤ place ∧
        (if place < nk then place else nk) ≤ nk := by
      split <;> omega
    have length : (if place < nk then place else nk) ≤
        (if retset.length < lSearch then retset.length + 1 else retset.length) := by
      split <;> split <;> omega
    refine ⟨least.2, ?_, ?_⟩
    · rw [List.length_take, length_insertAt]
      split <;> omega
    · show ((insertAt retset place nn).take _).take (if place < nk then place else nk) =
        retset.take (if place < nk then place else nk)
      rw [List.take_take, Nat.min_eq_left length, take_insertAt least.1 inside]

theorem mem_offer {entry : Entry} (member : entry ∈ (offer view lSearch retset nk nn).1) :
    entry = nn ∨ entry ∈ retset := by
  unfold offer at member
  split at member
  · exact Or.inr member
  · dsimp only at member
    split at member
    · exact mem_insertAt.mp ((List.take_sublist _ _).subset member)
    · exact Or.inr member

/-- One entry more at most. -/
theorem length_offer_le (view : Entry → PoolEntry Distance) (lSearch : Nat) (retset : List Entry)
    (nk : Nat) (nn : Entry) : (offer view lSearch retset nk nn).1.length ≤ retset.length + 1 := by
  unfold offer
  split
  · exact Nat.le_succ _
  · dsimp only
    split
    · rw [List.length_take]
      refine (Nat.min_le_left _ _).trans ?_
      split
      · exact le_rfl
      · exact Nat.le_succ _
    · exact Nat.le_succ _

/-! ### Neighbours that were not seen -/

/-- The first loop of `compute_and_push_nbrs`: the neighbours that were not seen, and the nodes
that were seen. -/
def freshNbr (search : List Nat × Finset Nat) (nbr : Nat) : List Nat × Finset Nat :=
  if nbr ∈ search.2 then search else (search.1 ++ [nbr], insert nbr search.2)

theorem mem_of_mem_freshNbrs {nbrs : List Nat} {search : List Nat × Finset Nat} {nbr : Nat}
    (member : nbr ∈ (nbrs.foldl freshNbr search).1) : nbr ∈ search.1 ∨ nbr ∈ nbrs := by
  induction nbrs generalizing search with
  | nil => exact Or.inl member
  | cons first nbrs inductionHypothesis =>
    obtain before | later := inductionHypothesis member
    · unfold freshNbr at before
      split at before
      · exact Or.inl before
      · obtain old | last := List.mem_append.mp before
        · exact Or.inl old
        · exact Or.inr (List.mem_singleton.mp last ▸ List.mem_cons_self)
    · exact Or.inr (List.mem_cons_of_mem _ later)

theorem subset_freshNbrs (nbrs : List Nat) (search : List Nat × Finset Nat) :
    search.2 ⊆ (nbrs.foldl freshNbr search).2 := by
  induction nbrs generalizing search with
  | nil => exact Finset.Subset.refl _
  | cons nbr nbrs inductionHypothesis =>
    have first : search.2 ⊆ (freshNbr search nbr).2 := by
      unfold freshNbr
      split
      · exact Finset.Subset.refl _
      · exact Finset.subset_insert _ _
    exact first.trans (inductionHypothesis (freshNbr search nbr))

/-- The neighbours are seen. -/
theorem mem_freshNbrs {nbrs : List Nat} {nbr : Nat} (member : nbr ∈ nbrs)
    (search : List Nat × Finset Nat) : nbr ∈ (nbrs.foldl freshNbr search).2 := by
  induction nbrs generalizing search with
  | nil => exact absurd member List.not_mem_nil
  | cons first nbrs inductionHypothesis =>
    obtain rfl | later := List.mem_cons.mp member
    · refine subset_freshNbrs nbrs (freshNbr search nbr) ?_
      unfold freshNbr
      split
      · assumption
      · exact Finset.mem_insert_self _ _
    · exact inductionHypothesis later (freshNbr search first)

/-! ### The first entries -/

variable (view) in
/-- `std::sort` on the list. -/
def sort (retset : List Entry) : List Entry :=
  retset.insertionSort fun first second => (view first).toNeighbor.AtMost (view second).toNeighbor

theorem perm_sort (retset : List Entry) : (sort view retset).Perm retset :=
  List.perm_insertionSort _ _

theorem sorted_sort (measured : Measured view pqDist retset) :
    NearestList.Sorted pqDist (ids view (sort view retset)) := by
  have total : Std.Total fun first second : Entry =>
      (view first).toNeighbor.AtMost (view second).toNeighbor := ⟨fun _ _ => total_of _ _ _⟩
  have trans : IsTrans Entry fun first second =>
      (view first).toNeighbor.AtMost (view second).toNeighbor := ⟨fun _ _ _ => trans_of _⟩
  have sorted := List.pairwise_insertionSort (fun first second : Entry =>
    (view first).toNeighbor.AtMost (view second).toNeighbor) retset
  unfold NearestList.Sorted ids
  rw [List.pairwise_map]
  refine sorted.imp_of_mem fun {first second} inFirst inSecond ordered => ?_
  rw [← measured first ((perm_sort retset).subset inFirst),
    ← measured second ((perm_sort retset).subset inSecond)]
  exact ordered.distance_le

/-- The first entries, when they have different ids and are not more than the limit. -/
theorem nearest_sort (measured : Measured view pqDist retset) (apart : (ids view retset).Nodup)
    (short : retset.length ≤ lSearch) :
    Nearest view pqDist lSearch (ids view retset).toFinset (sort view retset) where
  measured entry member := measured entry ((perm_sort retset).subset member)
  nearest := by
    have same : (ids view (sort view retset)).Perm (ids view retset) := (perm_sort retset).map _
    refine ⟨sorted_sort measured, same.nodup_iff.mpr apart, fun id member => ?_, ?_,
      fun id isSeen absent => ?_⟩
    · exact List.mem_toFinset.mpr (same.subset member)
    · rw [same.length_eq, List.toFinset_card_of_nodup apart, ids, List.length_map,
        Nat.min_eq_right short]
    · exact absurd (same.symm.subset (List.mem_toFinset.mp isSeen)) absent

end Retset

end OdinVector
