/-
This file is about what is done with the nearest items: they are kept in a queue whose greatest
item is thrown out, the rows of several parts are sorted together and cut, and a row is filtered.

The queue has the greatest item on its top; of several greatest ones it may have any. A sort may
put equal items in any order.
-/

import OdinVector.NearestList
import Mathlib.Data.List.Count
import Mathlib.Data.List.MinMax
import Mathlib.Data.List.Sort
import Mathlib.Data.Finset.Image

namespace NearestList

variable {Item Key : Type} [LinearOrder Key] {key : Item → Key} {limit : Nat} {seen : Finset Item}
  {list : List Item}

/-! ### Shorter rows -/

/-- The first of the nearest items. -/
theorem Nearest.take (nearest : Nearest key limit seen list) {fewer : Nat} (less : fewer ≤ limit) :
    Nearest key fewer seen (list.take fewer) where
  sorted := nearest.sorted.sublist (List.take_sublist _ _)
  nodup := nearest.nodup.sublist (List.take_sublist _ _)
  subset item member := nearest.subset item (List.mem_of_mem_take member)
  length := by rw [List.length_take, nearest.length, ← Nat.min_assoc, Nat.min_eq_left less]
  nearest item isSeen absent near member := by
    by_cases inside : item ∈ list
    · rw [← List.take_append_drop fewer list, List.mem_append] at inside
      exact nearest.sorted.take_le_drop fewer near member item (inside.resolve_left absent)
    · exact nearest.nearest item isSeen inside near (List.mem_of_mem_take member)

/-- The chosen ones of the nearest items are the nearest of the chosen ones. -/
theorem Nearest.filter (nearest : Nearest key limit seen list) (chosen : Item → Prop)
    [DecidablePred chosen] :
    Nearest key (list.filter chosen).length (seen.filter chosen) (list.filter chosen) where
  sorted := nearest.sorted.sublist List.filter_sublist
  nodup := nearest.nodup.filter _
  subset item member := by
    rw [List.mem_filter, decide_eq_true_eq] at member
    exact Finset.mem_filter.mpr ⟨nearest.subset item member.1, member.2⟩
  length := by
    refine (Nat.min_eq_left ?_).symm
    classical
    rw [← List.toFinset_card_of_nodup (nearest.nodup.filter _)]
    refine Finset.card_le_card fun item member => ?_
    rw [List.mem_toFinset, List.mem_filter, decide_eq_true_eq] at member
    exact Finset.mem_filter.mpr ⟨nearest.subset item member.1, member.2⟩
  nearest item isSeen absent near member := by
    rw [Finset.mem_filter] at isSeen
    refine nearest.nearest item isSeen.1 (fun inside => absent ?_) near
      (List.mem_of_mem_filter member)
    exact List.mem_filter.mpr ⟨inside, decide_eq_true isSeen.2⟩

/-- Items under other names. -/
theorem Nearest.map {Other : Type} [DecidableEq Other] (nearest : Nearest key limit seen list)
    {name : Item → Other} (injective : Function.Injective name) {nameKey : Other → Key}
    (same : ∀ item, nameKey (name item) = key item) :
    Nearest nameKey limit (seen.image name) (list.map name) where
  sorted := List.pairwise_map.mpr <| nearest.sorted.imp fun {first second} le => by
    rwa [same, same]
  nodup := nearest.nodup.map injective
  subset other member := by
    obtain ⟨item, inside, rfl⟩ := List.mem_map.mp member
    exact Finset.mem_image_of_mem name (nearest.subset item inside)
  length := by rw [List.length_map, nearest.length, Finset.card_image_of_injective _ injective]
  nearest other isSeen absent near member := by
    obtain ⟨item, itemSeen, rfl⟩ := Finset.mem_image.mp isSeen
    obtain ⟨nearItem, inside, rfl⟩ := List.mem_map.mp member
    rw [same, same]
    exact nearest.nearest item itemSeen (fun there => absent (List.mem_map_of_mem there))
      nearItem inside

theorem Nearest.of_map {Other : Type} [DecidableEq Other] {name : Item → Other}
    {nameKey : Other → Key} (nearest : Nearest nameKey limit (seen.image name) (list.map name))
    (injective : Function.Injective name) (same : ∀ item, nameKey (name item) = key item) :
    Nearest key limit seen list where
  sorted := (List.pairwise_map.mp nearest.sorted).imp fun {first second} le => by
    rwa [same, same] at le
  nodup := nearest.nodup.of_map name
  subset item member := by
    obtain ⟨other, isSeen, equal⟩ :=
      Finset.mem_image.mp (nearest.subset _ (List.mem_map_of_mem member))
    exact injective equal ▸ isSeen
  length := by
    have length := nearest.length
    rwa [List.length_map, Finset.card_image_of_injective _ injective] at length
  nearest item isSeen absent near member := by
    rw [← same, ← same]
    refine nearest.nearest _ (Finset.mem_image_of_mem name isSeen) (fun inside => absent ?_) _
      (List.mem_map_of_mem member)
    exact (List.mem_map_of_injective injective).mp inside

/-! ### Ties -/

/-- Fewer items than the rank are nearer than this one. -/
def Among (key : Item → Key) (rank : Nat) (seen : Finset Item) (item : Item) : Prop :=
  (seen.filter fun other => key other < key item).card < rank

instance (key : Item → Key) (rank : Nat) (seen : Finset Item) (item : Item) :
    Decidable (Among key rank seen item) :=
  inferInstanceAs (Decidable (_ < _))

/-- The rank of an item in a row says which items, among the chosen ones, are no farther. -/
theorem Nearest.among_iff [DecidableEq Item] {before behind : List Item} {last : Item}
    (nearest : Nearest key limit seen (before ++ last :: behind)) {chosen : Item → Prop}
    [DecidablePred chosen] (isChosen : chosen last) {item : Item} :
    Among key (before.countP chosen + 1) (seen.filter chosen) item ↔ key item ≤ key last := by
  obtain ⟨_, sortedBehind, sorted⟩ := List.pairwise_append.mp nearest.sorted
  have nodup : (before ++ [last]).Nodup :=
    nearest.nodup.sublist
      (List.Sublist.append_left (List.singleton_sublist.mpr List.mem_cons_self) _)
  constructor
  · intro among
    by_contra farther
    have nearer : ((before ++ [last]).filter chosen).toFinset ⊆
        (seen.filter chosen).filter fun other => key other < key item := by
      intro other member
      rw [List.mem_toFinset, List.mem_filter, decide_eq_true_eq] at member
      have inRow : other ∈ before ++ last :: behind := by
        refine List.mem_append.mpr ((List.mem_append.mp member.1).imp_right fun inside => ?_)
        exact List.mem_cons.mpr (.inl (List.mem_singleton.mp inside))
      have le : key other ≤ key last := by
        rcases List.mem_append.mp member.1 with inside | inside
        · exact sorted other inside last List.mem_cons_self
        · exact (congrArg key (List.mem_singleton.mp inside)).le
      exact Finset.mem_filter.mpr ⟨Finset.mem_filter.mpr ⟨nearest.subset other inRow, member.2⟩,
        le.trans_lt (not_le.mp farther)⟩
    have count := Finset.card_le_card nearer
    rw [List.toFinset_card_of_nodup (nodup.filter _), ← List.countP_eq_length_filter,
      List.countP_append, List.countP_singleton, if_pos (decide_eq_true isChosen)] at count
    exact absurd among (Nat.not_lt.mpr count)
  · intro le
    have fewer : ((seen.filter chosen).filter fun other => key other < key item) ⊆
        (before.filter chosen).toFinset := by
      intro other member
      rw [Finset.mem_filter, Finset.mem_filter] at member
      obtain ⟨⟨isSeen, otherChosen⟩, nearer⟩ := member
      have less : key other < key last := nearer.trans_le le
      have inRow : other ∈ before ++ last :: behind := by
        by_contra absent
        exact absurd (nearest.nearest other isSeen absent last
          (List.mem_append_right _ List.mem_cons_self)) (not_le.mpr less)
      rw [List.mem_toFinset, List.mem_filter]
      refine ⟨(List.mem_append.mp inRow).resolve_right fun inside => ?_,
        decide_eq_true otherChosen⟩
      rcases List.mem_cons.mp inside with rfl | inside
      · exact absurd less (lt_irrefl _)
      · exact absurd less (not_lt.mpr ((List.pairwise_cons.mp sortedBehind).1 other inside))
    have count := Finset.card_le_card fewer
    rw [List.toFinset_card_of_nodup ((nodup.of_append_left).filter _),
      ← List.countP_eq_length_filter] at count
    exact Nat.lt_succ_of_le count

/-- The items of a row are among its nearest. -/
theorem Nearest.among_of_mem [DecidableEq Item] (nearest : Nearest key limit seen list)
    {item : Item} (inside : item ∈ list) : Among key limit seen item := by
  have length := nearest.length
  obtain ⟨before, behind, rfl⟩ := List.append_of_mem inside
  have among := (@Nearest.among_iff _ _ _ key limit seen _ before behind item nearest
    (fun _ => True) _ trivial item).mpr (le_refl _)
  rw [Finset.filter_true] at among
  refine among.trans_le ?_
  rw [List.length_append, List.length_cons] at length
  have count := @List.countP_le_length _ (fun _ => decide True) before
  omega

/-- Every item that is among the nearest is in one of the rows of the nearest items. -/
theorem Nearest.exists_with [DecidableEq Item] (nearest : Nearest key limit seen list)
    {item : Item} (isSeen : item ∈ seen) (among : Among key limit seen item) :
    ∃ other, Nearest key limit seen other ∧ item ∈ other := by
  by_cases inside : item ∈ list
  · exact ⟨list, nearest, inside⟩
  have full : list.length = limit := by
    refine Nat.le_antisymm (nearest.length ▸ Nat.min_le_left _ _) (not_lt.mp fun short => ?_)
    exact inside (nearest.mem_of_short short isSeen)
  have some : list ≠ [] := by
    rintro rfl
    exact absurd (full ▸ among) (Nat.not_lt_zero _)
  have split := List.dropLast_append_getLast some
  generalize list.dropLast = before at split
  generalize list.getLast some = last at split
  subst split
  have length : before.length + 1 = limit := by
    rwa [List.length_append, List.length_singleton] at full
  have le : key item ≤ key last := by
    refine (@Nearest.among_iff _ _ _ key limit seen _ before [] last nearest
      (fun _ => True) _ trivial item).mp ?_
    rw [Finset.filter_true, List.countP_eq_length.mpr fun _ _ => decide_eq_true trivial, length]
    exact among
  have same : key item = key last := le_antisymm le
    (nearest.nearest item isSeen inside last (List.mem_append_right _ List.mem_cons_self))
  rw [List.mem_append, List.mem_singleton, not_or] at inside
  obtain ⟨sorted, _, below⟩ := List.pairwise_append.mp nearest.sorted
  refine ⟨before ++ [item], ⟨?_, ?_, fun other member => ?_, ?_, fun other otherSeen absent near
    member => ?_⟩, List.mem_append_right _ List.mem_cons_self⟩
  · refine List.pairwise_append.mpr ⟨sorted, List.pairwise_singleton _ _,
      fun low isLow high isHigh => ?_⟩
    rw [List.mem_singleton.mp isHigh, same]
    exact below low isLow last List.mem_cons_self
  · exact nearest.nodup.of_append_left.append (List.nodup_singleton item)
      (List.disjoint_singleton.mpr inside.1)
  · rcases List.mem_append.mp member with member | member
    · exact nearest.subset other (List.mem_append_left _ member)
    · exact List.mem_singleton.mp member ▸ isSeen
  · rw [List.length_append, List.length_singleton, ← nearest.length, full, length]
  · rw [List.mem_append, List.mem_singleton, not_or] at absent
    have far : key last ≤ key other := by
      by_cases isLast : other = last
      · exact (congrArg key isLast).ge
      · refine nearest.nearest other otherSeen (fun there => ?_) last
          (List.mem_append_right _ List.mem_cons_self)
        rcases List.mem_append.mp there with there | there
        · exact absent.1 there
        · exact isLast (List.mem_singleton.mp there)
    rcases List.mem_append.mp member with member | member
    · exact (below near member last List.mem_cons_self).trans far
    · rw [List.mem_singleton.mp member, same]
      exact far

/-! ### Several rows together -/

/-- Items among which the nearest ones are: no item that is left out is nearer than so many of
them. -/
structure HasNearest (key : Item → Key) (limit : Nat) (seen : Finset Item) (list : List Item) :
    Prop where
  nodup : list.Nodup
  subset : ∀ item ∈ list, item ∈ seen
  enough : ∀ item ∈ seen, item ∉ list → limit ≤ list.countP fun near => key near ≤ key item

theorem hasNearest_nil : HasNearest key limit ∅ [] where
  nodup := List.nodup_nil
  subset _ member := absurd member List.not_mem_nil
  enough _ isSeen := absurd isSeen (Finset.notMem_empty _)

theorem Nearest.hasNearest [DecidableEq Item] (nearest : Nearest key limit seen list) :
    HasNearest key limit seen list where
  nodup := nearest.nodup
  subset := nearest.subset
  enough item isSeen absent := by
    have full : ¬ list.length < limit := fun short => absent (nearest.mem_of_short short isSeen)
    have all : list.countP (fun near => key near ≤ key item) = list.length :=
      List.countP_eq_length.mpr fun near member =>
        decide_eq_true (nearest.nearest item isSeen absent near member)
    rw [all]
    exact not_lt.mp full

/-- Rows of parts that share no item. -/
theorem HasNearest.append [DecidableEq Item] {other : Finset Item} {rest : List Item}
    (first : HasNearest key limit seen list) (second : HasNearest key limit other rest)
    (disjoint : Disjoint seen other) : HasNearest key limit (seen ∪ other) (list ++ rest) where
  nodup := first.nodup.append second.nodup fun item member again =>
    Finset.disjoint_left.mp disjoint (first.subset item member) (second.subset item again)
  subset item member := by
    rcases List.mem_append.mp member with member | member
    · exact Finset.mem_union_left _ (first.subset item member)
    · exact Finset.mem_union_right _ (second.subset item member)
  enough item isSeen absent := by
    rw [List.mem_append, not_or] at absent
    rw [List.countP_append]
    rcases Finset.mem_union.mp isSeen with isSeen | isSeen
    · exact (first.enough item isSeen absent.1).trans (Nat.le_add_right _ _)
    · exact (second.enough item isSeen absent.2).trans (Nat.le_add_left _ _)

theorem HasNearest.perm {other : List Item} (has : HasNearest key limit seen list)
    (perm : other.Perm list) : HasNearest key limit seen other where
  nodup := perm.nodup_iff.mpr has.nodup
  subset item member := has.subset item (perm.mem_iff.mp member)
  enough item isSeen absent := by
    rw [perm.countP_eq]
    exact has.enough item isSeen fun member => absent (perm.mem_iff.mpr member)

/-- Sorted and cut, they are the nearest items. -/
theorem HasNearest.nearest [DecidableEq Item] (has : HasNearest key limit seen list)
    (sorted : Sorted key list) : Nearest key limit seen (list.take limit) where
  sorted := sorted.sublist (List.take_sublist _ _)
  nodup := has.nodup.sublist (List.take_sublist _ _)
  subset item member := has.subset item (List.mem_of_mem_take member)
  length := by
    have fewer : list.length ≤ seen.card := by
      rw [← List.toFinset_card_of_nodup has.nodup]
      exact Finset.card_le_card fun item member => has.subset item (List.mem_toFinset.mp member)
    rw [List.length_take]
    rcases Nat.lt_or_ge list.length limit with short | full
    · have all : seen ⊆ list.toFinset := by
        intro item isSeen
        by_contra absent
        have enough := has.enough item isSeen fun member => absent (List.mem_toFinset.mpr member)
        exact absurd (enough.trans List.countP_le_length) (Nat.not_le.mpr short)
      have same := Finset.card_le_card all
      rw [List.toFinset_card_of_nodup has.nodup] at same
      rw [Nat.le_antisymm fewer same]
    · rw [Nat.min_eq_left full, Nat.min_eq_left (full.trans fewer)]
  nearest item isSeen absent near member := by
    by_cases inside : item ∈ list
    · rw [← List.take_append_drop limit list, List.mem_append] at inside
      exact sorted.take_le_drop limit near member item (inside.resolve_left absent)
    -- If it were nearer, only items before that one could be as near.
    by_contra nearer
    obtain ⟨place, below, rfl⟩ := List.mem_take_iff_getElem.mp member
    have enough := has.enough item isSeen inside
    have behind : (list.drop place).countP (fun near => key near ≤ key item) = 0 := by
      refine List.countP_eq_zero.mpr fun other later => ?_
      rw [decide_eq_true_eq, not_le]
      rw [List.drop_eq_getElem_cons (by omega), List.mem_cons] at later
      rcases later with rfl | later
      · exact not_le.mp nearer
      · have ordered := sorted.take_le_drop (place + 1) (list[place]) (by
          rw [List.mem_take_iff_getElem]
          exact ⟨place, by omega, rfl⟩) other later
        exact (not_le.mp nearer).trans_le ordered
    have before : (list.take place).countP (fun near => key near ≤ key item) ≤ place :=
      List.countP_le_length.trans (List.length_take_le _ _)
    rw [← List.take_append_drop place list, List.countP_append, behind] at enough
    omega

/-! ### A queue -/

/-- Which of the greatest items of a queue is on its top. -/
structure MaxQueue (key : Item → Key) where
  top : List Item → Option Item
  top_nil : top [] = none
  greatest : ∀ {queue : List Item}, queue ≠ [] → ∃ item ∈ queue, top queue = some item ∧
    ∀ other ∈ queue, key other ≤ key item

/-- The queue whose top is the greatest item that is behind the fewest others. -/
def MaxQueue.first (key : Item → Key) : MaxQueue key where
  top := List.argmax key
  top_nil := List.argmax_nil key
  greatest {queue} some := by
    cases found : queue.argmax key with
    | none => exact absurd (List.argmax_eq_none.mp found) some
    | some item => exact ⟨item, List.argmax_mem found, rfl, fun other member =>
        List.le_of_mem_argmax member found⟩

/-- A queue without what is on its top. -/
def MaxQueue.pop [DecidableEq Item] (tops : MaxQueue key) (queue : List Item) : List Item :=
  (tops.top queue).elim queue queue.erase

theorem MaxQueue.pop_eq [DecidableEq Item] (tops : MaxQueue key) {queue : List Item} {top : Item}
    (isTop : tops.top queue = some top) : tops.pop queue = queue.erase top := by
  rw [MaxQueue.pop, isTop]
  rfl

/-- A queue with the nearest items, in any order. -/
structure Keeps (key : Item → Key) (limit : Nat) (seen : Finset Item) (queue : List Item) :
    Prop where
  nodup : queue.Nodup
  subset : ∀ item ∈ queue, item ∈ seen
  length : queue.length = min limit seen.card
  nearest : ∀ item ∈ seen, item ∉ queue → ∀ near ∈ queue, key near ≤ key item

variable {queue : List Item} {item : Item}

/-- A queue with all that was seen. -/
theorem keeps_all [DecidableEq Item] (nodup : queue.Nodup) (few : queue.length ≤ limit) :
    Keeps key limit queue.toFinset queue where
  nodup := nodup
  subset _ member := List.mem_toFinset.mpr member
  length := by rw [List.toFinset_card_of_nodup nodup, Nat.min_eq_right few]
  nearest _ isSeen absent := absurd (List.mem_toFinset.mp isSeen) absent

/-- An item that is no nearer than those of a full queue is left out. -/
theorem Keeps.skip [DecidableEq Item] (keeps : Keeps key limit seen queue)
    (full : queue.length = limit) (fresh : item ∉ seen)
    (far : ∀ near ∈ queue, key near ≤ key item) : Keeps key limit (insert item seen) queue where
  nodup := keeps.nodup
  subset other member := Finset.mem_insert_of_mem (keeps.subset other member)
  length := by
    have length := keeps.length
    rw [Finset.card_insert_of_notMem fresh]
    omega
  nearest other isSeen absent near member := by
    rcases Finset.mem_insert.mp isSeen with rfl | before
    · exact far near member
    · exact keeps.nearest other before absent near member

/-- A nearer item goes into a full queue, and a greatest one goes out. -/
theorem Keeps.exchange [DecidableEq Item] (keeps : Keeps key limit seen queue)
    (full : queue.length = limit) (fresh : item ∉ seen) {farther greatest : Item}
    (there : farther ∈ queue) (nearer : key item < key farther) (isIn : greatest ∈ item :: queue)
    (isGreatest : ∀ other ∈ item :: queue, key other ≤ key greatest) :
    Keeps key limit (insert item seen) ((item :: queue).erase greatest) where
  nodup := (List.nodup_cons.mpr ⟨fun member => fresh (keeps.subset item member), keeps.nodup⟩).erase
    greatest
  subset other member := by
    rcases List.mem_cons.mp (List.mem_of_mem_erase member) with rfl | before
    · exact Finset.mem_insert_self _ _
    · exact Finset.mem_insert_of_mem (keeps.subset other before)
  length := by
    have length := keeps.length
    rw [List.length_erase_of_mem isIn, Finset.card_insert_of_notMem fresh, List.length_cons]
    omega
  nearest other isSeen absent near member := by
    have inside := List.mem_of_mem_erase member
    by_cases out : other = greatest
    · exact out ▸ isGreatest near inside
    have outside : other ∉ item :: queue := fun there =>
      absent ((List.mem_erase_of_ne out).mpr there)
    rw [List.mem_cons, not_or] at outside
    have before := (Finset.mem_insert.mp isSeen).resolve_left outside.1
    rcases List.mem_cons.mp inside with rfl | old
    · exact nearer.le.trans (keeps.nearest other before outside.2 farther there)
    · exact keeps.nearest other before outside.2 near old

/-- The items of a queue in a sorted row. -/
theorem Keeps.nearest_row (keeps : Keeps key limit seen queue) {row : List Item}
    (sorted : Sorted key row) (perm : row.Perm queue) : Nearest key limit seen row where
  sorted := sorted
  nodup := perm.nodup_iff.mpr keeps.nodup
  subset item member := keeps.subset item (perm.mem_iff.mp member)
  length := perm.length_eq.trans keeps.length
  nearest item isSeen absent near member :=
    keeps.nearest item isSeen (fun inside => absent (perm.mem_iff.mpr inside)) near
      (perm.mem_iff.mp member)

variable [DecidableEq Item]

/-- Items are taken out of a queue from its top, and go in front of a row. -/
def MaxQueue.drain (tops : MaxQueue key) : Nat → List Item → List Item → Option (List Item)
  | 0, _, row => some row
  | count + 1, queue, row =>
    (tops.top queue).bind fun top => drain tops count (tops.pop queue) (top :: row)

/-- A queue that is emptied leaves a sorted row. -/
theorem MaxQueue.drain_spec (tops : MaxQueue key) {queue row : List Item} (sorted : Sorted key row)
    (before : ∀ item ∈ queue, ∀ other ∈ row, key item ≤ key other) :
    ∃ all, tops.drain queue.length queue row = some all ∧ Sorted key all ∧
      all.Perm (queue ++ row) := by
  generalize count : queue.length = length
  induction length generalizing queue row with
  | zero =>
    rw [List.eq_nil_of_length_eq_zero count]
    exact ⟨row, rfl, sorted, List.Perm.refl _⟩
  | succ length inductionHypothesis =>
    have some : queue ≠ [] := List.ne_nil_of_length_eq_add_one count
    obtain ⟨top, inside, isTop, greatest⟩ := tops.greatest some
    have rest : (queue.erase top).length = length := by
      rw [List.length_erase_of_mem inside, count]
      rfl
    obtain ⟨all, drained, allSorted, perm⟩ := @inductionHypothesis (queue.erase top) (top :: row)
      (List.pairwise_cons.mpr ⟨before top inside, sorted⟩)
      (fun item member other isOther => by
        have old := List.mem_of_mem_erase member
        rcases List.mem_cons.mp isOther with rfl | isOther
        · exact greatest item old
        · exact before item old other isOther) rest
    refine ⟨all, ?_, allSorted, perm.trans ?_⟩
    · rw [drain, isTop, Option.bind_some, tops.pop_eq isTop, drained]
    · refine List.perm_middle.trans ?_
      exact (List.perm_cons_erase inside).symm.append_right row

/-! ### Sorts -/

/-- A sort by a key, which may put items with the same key in any order. -/
structure KeySort (key : Item → Key) where
  sort : List Item → List Item
  perm : ∀ list, (sort list).Perm list
  sorted : ∀ list, Sorted key (sort list)

/-- Items with the same key stay in their order. -/
def KeySort.insertion (key : Item → Key) : KeySort key where
  sort := List.insertionSort fun first second => key first ≤ key second
  perm := List.perm_insertionSort _
  sorted list := by
    have total : Std.Total fun first second : Item => key first ≤ key second :=
      ⟨fun first second => le_total (key first) (key second)⟩
    have trans : IsTrans Item fun first second => key first ≤ key second :=
      ⟨fun _ _ _ => le_trans⟩
    exact List.pairwise_insertionSort _ list

end NearestList
