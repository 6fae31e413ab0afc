/-
This file models `InsertIntoPool` with the width of the source: `left`, `right`, `mid`
and `K` are `unsigned`, so the sum that the bisection halves keeps 32 bits.

As long as no sum wraps, the function is the one of `Pool`: the list stays sorted, has
the new entry and the old ones, and the place of the new entry is returned. From
`2 ^ 31 + 2` entries on a sum can wrap. Then `mid` falls back to the front of the list,
and the loop does not end.
-/

import OdinVector.Narrow.NarrowLayout
import OdinVector.Search.Retset

namespace OdinVector.Pool

open NearestList

variable {Distance : Type} [LinearOrder Distance]

section Functions

variable (addr : Nat → PoolEntry Distance)

/-- `while (right > 1 && left < right - 1)` on `unsigned`. -/
def narrowBisect (distance : Distance) : Nat → Nat → Nat → Option (Nat × Nat)
  | 0, _, _ => none
  | fuel + 1, left, right =>
    if 1 < right ∧ left < right - 1 then
      let mid := low32 (left + right) / 2
      if distance < (addr mid).distance then narrowBisect distance fuel left mid
      else narrowBisect distance fuel mid right
    else some (left, right)

/-- `InsertIntoPool` on `unsigned`, with `0 < K`. -/
def narrowInsertIntoPool (fuel K : Nat) (nn : PoolEntry Distance) :
    Option ((Nat → PoolEntry Distance) × Nat) :=
  if nn.distance < (addr 0).distance then some (shiftIn addr 0 K nn, 0)
  else if (addr (K - 1)).distance < nn.distance then some (Function.update addr K nn, K)
  else
    (narrowBisect addr nn.distance fuel 0 (K - 1)).map fun (left, right) =>
      let (left, equal) := scanEqual addr nn left
      if equal ∨ (addr left).id = nn.id ∨ (addr right).id = nn.id then (addr, low32 (K + 1))
      else (shiftIn addr right K nn, right)

end Functions

/-- What an insertion into a sorted list of `K` entries has to leave and to return. -/
structure Inserts (addr : Nat → PoolEntry Distance) (K : Nat) (nn : PoolEntry Distance)
    (result : (Nat → PoolEntry Distance) × Nat) : Prop where
  entered : (∀ i < K, (addr i).id ≠ nn.id) →
    Ascending result.1 (K + 1) ∧
      ((List.range (K + 1)).map result.1).Perm (nn :: (List.range K).map addr) ∧
        result.2 ≤ K ∧ result.1 result.2 = nn
  found : (∃ i < K, (addr i).id = nn.id ∧ (addr i).distance = nn.distance) →
    result = (addr, K + 1)

/-- The function returns for every sorted list of `K` entries, with what it has to leave. -/
def KeepsSorted (Distance : Type) [LinearOrder Distance] (K : Nat) : Prop :=
  ∀ (addr : Nat → PoolEntry Distance) (nn : PoolEntry Distance), Ascending addr K →
    ∃ fuel result, narrowInsertIntoPool addr fuel K nn = some result ∧ Inserts addr K nn result

variable {addr : Nat → PoolEntry Distance} {K : Nat} {nn : PoolEntry Distance}

/-! ### An entry that is not in the list -/

omit [LinearOrder Distance] in
theorem shiftIn_below {place i : Nat} (below : i < place) : shiftIn addr place K nn i = addr i :=
  if_pos below

omit [LinearOrder Distance] in
theorem shiftIn_self (place : Nat) : shiftIn addr place K nn place = nn := by
  unfold shiftIn
  rw [if_neg (Nat.lt_irrefl place), if_pos rfl]

omit [LinearOrder Distance] in
theorem shiftIn_above {place i : Nat} (above : place < i) (inside : i ≤ K) :
    shiftIn addr place K nn i = addr (i - 1) := by
  unfold shiftIn
  rw [if_neg (by omega), if_neg (by omega), if_pos inside]

omit [LinearOrder Distance] in
/-- The entries of the array that was shifted, as a list. -/
theorem entries_shiftIn {place : Nat} (inside : place ≤ K) :
    (List.range (K + 1)).map (shiftIn addr place K nn) =
      insertAt ((List.range K).map addr) place nn := by
  unfold insertAt
  refine List.ext_getElem (by simp; omega) fun i first second => ?_
  have bound : i ≤ K := by
    rw [List.length_map, List.length_range] at first
    omega
  have front : (((List.range K).map addr).take place).length = place := by
    rw [List.length_take, List.length_map, List.length_range, Nat.min_eq_left inside]
  rw [List.getElem_map, List.getElem_range, List.getElem_append]
  split
  · rename_i below
    rw [front] at below
    rw [shiftIn_below below, List.getElem_take, List.getElem_map, List.getElem_range]
  · rename_i notBelow
    rw [front] at notBelow
    simp only [front]
    obtain rfl | above := Nat.eq_or_lt_of_not_lt notBelow
    · simp only [Nat.sub_self, List.getElem_cons_zero, shiftIn_self]
    · rw [shiftIn_above above bound, List.getElem_cons, dif_neg (by omega), List.getElem_drop,
        List.getElem_map, List.getElem_range]
      congr 1
      omega

/-- A new entry at a place where it fits leaves the array sorted. -/
theorem ascending_shiftIn (ascending : Ascending addr K) {place : Nat} (bound : place ≤ K)
    (before : ∀ i < place, (addr i).distance ≤ nn.distance)
    (behind : ∀ i < K, place ≤ i → nn.distance ≤ (addr i).distance) :
    Ascending (shiftIn addr place K nn) (K + 1) := by
  intro i j ordered inside
  obtain iBelow | rfl | iAbove := Nat.lt_trichotomy i place
  · rw [shiftIn_below iBelow]
    obtain jBelow | rfl | jAbove := Nat.lt_trichotomy j place
    · rw [shiftIn_below jBelow]
      exact ascending i j ordered (by omega)
    · rw [shiftIn_self]
      exact before i iBelow
    · rw [shiftIn_above jAbove (by omega)]
      exact ascending i (j - 1) (by omega) (by omega)
  · rw [shiftIn_self]
    obtain rfl | jAbove := Nat.eq_or_lt_of_le ordered
    · rw [shiftIn_self]
    · rw [shiftIn_above jAbove (by omega)]
      exact behind (j - 1) (by omega) (by omega)
  · rw [shiftIn_above iAbove (by omega), shiftIn_above (by omega) (by omega)]
    exact ascending (i - 1) (j - 1) (by omega) (by omega)

/-! ### An entry that is in the list -/

/-- The bisection ends with neighbouring places around the distance. -/
theorem bisect_ends {distance : Distance} {left right : Nat} (fuel : Nat)
    (enough : right - left ≤ fuel) (ordered : left ≤ right) (inside : right < K)
    (low : (addr left).distance ≤ distance)
    (high : right = K - 1 ∨ distance < (addr right).distance) {leftEnd rightEnd : Nat}
    (ends : bisect addr distance fuel left right = (leftEnd, rightEnd)) :
    leftEnd ≤ rightEnd ∧ rightEnd ≤ leftEnd + 1 ∧ rightEnd < K ∧
      (rightEnd = K - 1 ∨ distance < (addr rightEnd).distance) := by
  have close : ¬ (1 < right ∧ left < right - 1) → (left, right) = (leftEnd, rightEnd) →
      leftEnd ≤ rightEnd ∧ rightEnd ≤ leftEnd + 1 ∧ rightEnd < K ∧
        (rightEnd = K - 1 ∨ distance < (addr rightEnd).distance) := by
    rintro notApart same
    obtain ⟨rfl, rfl⟩ := Prod.mk.inj same
    exact ⟨ordered, by omega, inside, high⟩
  induction fuel generalizing left right with
  | zero => exact close (by omega) ends
  | succ fuel inductionHypothesis =>
    unfold bisect at ends
    split at ends
    · rename_i apart
      dsimp only at ends
      split at ends
      · rename_i less
        refine inductionHypothesis (by omega) (by omega) (by omega) low (Or.inr less) ends ?_
        rintro notApart same
        obtain ⟨rfl, rfl⟩ := Prod.mk.inj same
        exact ⟨by omega, by omega, by omega, Or.inr less⟩
      · rename_i notLess
        refine inductionHypothesis (by omega) (by omega) inside (not_lt.mp notLess) high ends ?_
        rintro notApart same
        obtain ⟨rfl, rfl⟩ := Prod.mk.inj same
        exact ⟨by omega, by omega, inside, high⟩
    · exact close (by assumption) ends

/-- The scan goes back to an entry with the id at the same distance. -/
theorem scanEqual_finds (ascending : Ascending addr K) {i left : Nat} (inside : left < K)
    (below : i ≤ left) (same : (addr i).id = nn.id) (equal : (addr i).distance = nn.distance) :
    (scanEqual addr nn left).2 = true ∨ (addr (scanEqual addr nn left).1).id = nn.id := by
  induction left with
  | zero =>
    obtain rfl := Nat.le_zero.mp below
    exact Or.inr same
  | succ left inductionHypothesis =>
    unfold scanEqual
    split
    · rename_i less
      have low := ascending i (left + 1) below inside
      rw [equal] at low
      exact absurd less (not_lt.mpr low)
    · split
      · exact Or.inl rfl
      · rename_i other
        refine inductionHypothesis (by omega) ?_
        obtain rfl | before := Nat.eq_or_lt_of_le below
        · exact absurd same other
        · omega

theorem insertIntoPool_found (ascending : Ascending addr K)
    (present : ∃ i < K, (addr i).id = nn.id ∧ (addr i).distance = nn.distance) :
    insertIntoPool addr K nn = (addr, K + 1) := by
  obtain ⟨i, inside, same, equal⟩ := present
  have first : (addr 0).distance ≤ nn.distance := equal ▸ ascending 0 i (Nat.zero_le i) inside
  have last : nn.distance ≤ (addr (K - 1)).distance :=
    equal ▸ ascending i (K - 1) (by omega) (by omega)
  unfold insertIntoPool
  rw [if_neg (not_lt.mpr first), if_neg (not_lt.mpr last)]
  cases ends : bisect addr nn.distance K 0 (K - 1) with
  | mk left right =>
  obtain ⟨ordered, close, bound, high⟩ := bisect_ends K (by omega) (Nat.zero_le (K - 1)) (by omega)
    first (Or.inl rfl) ends
  dsimp only
  rw [if_pos]
  obtain iLeft | iRight := Nat.lt_or_ge left i
  · -- Only the right end is behind the left one and not farther than the entry.
    refine Or.inr (Or.inr ?_)
    obtain lastPlace | farther := high
    · rwa [show right = i by omega]
    · have low := ascending right i (by omega) inside
      rw [equal] at low
      exact absurd farther (not_lt.mpr low)
  · exact (scanEqual_finds ascending (by omega) iRight same equal).imp_right Or.inl

/-- What the insertion does while no sum wraps. -/
theorem insertIntoPool_inserts (some : 0 < K) (ascending : Ascending addr K) :
    Inserts addr K nn (insertIntoPool addr K nn) where
  entered := by
    intro fresh
    obtain ⟨place, inside, returned, array⟩ := insertIntoPool_spec addr some fresh
    obtain ⟨-, before, behind⟩ := insertIntoPool_place some ascending fresh
    rw [returned] at before behind ⊢
    refine ⟨?_, ?_, inside, ?_⟩
    · intro i j ordered bound
      rw [array i (by omega), array j (by omega)]
      exact ascending_shiftIn ascending inside before behind i j ordered bound
    · have same : (List.range (K + 1)).map (insertIntoPool addr K nn).1 =
          (List.range (K + 1)).map (shiftIn addr place K nn) :=
        List.map_congr_left fun i member => array i (by rw [List.mem_range] at member; omega)
      rw [same, entries_shiftIn inside]
      exact perm_insertAt _ place nn
    · rw [array place inside, shiftIn_self]
  found := insertIntoPool_found ascending

/-! ### The width of the sums -/

theorem narrowBisect_eq {distance : Distance} {left right : Nat} (fuel : Nat)
    (small : right ≤ 2 ^ 31) (ordered : left ≤ right) (enough : right - left < fuel) :
    narrowBisect addr distance fuel left right = some (bisect addr distance fuel left right) := by
  induction fuel generalizing left right with
  | zero => omega
  | succ fuel inductionHypothesis =>
    unfold narrowBisect bisect
    split
    · have fits : low32 (left + right) = left + right := Nat.mod_eq_of_lt (by omega)
      dsimp only
      rw [fits]
      split
      · exact inductionHypothesis (by omega) (by omega) (by omega)
      · exact inductionHypothesis small (by omega) (by omega)
    · rfl

theorem narrowInsertIntoPool_eq (some : 0 < K) (small : K ≤ 2 ^ 31 + 1) :
    narrowInsertIntoPool addr K K nn = Option.some (insertIntoPool addr K nn) := by
  have fits : low32 (K + 1) = K + 1 := Nat.mod_eq_of_lt (by omega)
  unfold narrowInsertIntoPool insertIntoPool
  split
  · rfl
  split
  · rfl
  · rw [narrowBisect_eq K (by omega) (Nat.zero_le (K - 1)) (by omega), Option.map_some, fits]

/-- Where no entry is farther, the left end would have to come up to the right one, and the
half of a wrapped sum is before it. -/
theorem narrowBisect_endless {distance : Distance} {left : Nat} (fuel : Nat)
    (long : 2 ^ 31 + 2 ≤ K) (near : ∀ i, ¬ distance < (addr i).distance) (apart : left < K - 2) :
    narrowBisect addr distance fuel left (K - 1) = none := by
  induction fuel generalizing left with
  | zero => rfl
  | succ fuel inductionHypothesis =>
    have middle : low32 (left + (K - 1)) / 2 < K - 2 := by
      have wrapped : low32 (left + (K - 1)) < 2 ^ 32 := Nat.mod_lt _ (by decide)
      omega
    unfold narrowBisect
    rw [if_pos (by omega)]
    dsimp only
    rw [if_neg (near _)]
    exact inductionHypothesis middle

/-- Different nodes at one distance. -/
def levelList (distance : Distance) : Nat → PoolEntry Distance :=
  fun i => { id := i + 1, distance := distance, flag := true }

/-- Another node at the distance of the list. -/
def levelEntry (distance : Distance) : PoolEntry Distance :=
  { id := 0, distance := distance, flag := true }

theorem narrowInsertIntoPool_endless (distance : Distance) (fuel : Nat) (long : 2 ^ 31 + 2 ≤ K) :
    narrowInsertIntoPool (levelList distance) fuel K (levelEntry distance) = none := by
  have level : ∀ i, ¬ (levelEntry distance).distance < (levelList distance i).distance :=
    fun _ => lt_irrefl distance
  have last : ¬ (levelList distance (K - 1)).distance < (levelEntry distance).distance :=
    lt_irrefl distance
  unfold narrowInsertIntoPool
  rw [if_neg (level 0), if_neg last, narrowBisect_endless fuel long level (by omega),
    Option.map_none]

/-- `InsertIntoPool` keeps the sorted lists of `K` entries if and only if no sum of two places
of such a list wraps. -/
theorem insertIntoPool_keepsSorted_iff [Nonempty Distance] (some : 0 < K) :
    KeepsSorted Distance K ↔ K ≤ 2 ^ 31 + 1 := by
  constructor
  · intro keeps
    by_contra long
    obtain ⟨distance⟩ := ‹Nonempty Distance›
    obtain ⟨fuel, result, returned, -⟩ := keeps (levelList distance) (levelEntry distance)
      fun _ _ _ _ => le_rfl
    rw [narrowInsertIntoPool_endless distance fuel (by omega)] at returned
    cases returned
  · intro small addr nn ascending
    exact ⟨K, _, narrowInsertIntoPool_eq some small, insertIntoPool_inserts some ascending⟩

theorem insertIntoPool_keepsSorted_three : KeepsSorted ℕ 3 :=
  (insertIntoPool_keepsSorted_iff (by decide)).mpr (by decide)

/-- A new node at the distance of `2 ^ 31 + 2` entries: the bisection does not end. -/
theorem not_inserts_levelList :
    Ascending (levelList (0 : ℕ)) (2 ^ 31 + 2) ∧
      (∀ i < 2 ^ 31 + 2, (levelList (0 : ℕ) i).id ≠ (levelEntry (0 : ℕ)).id) ∧
        ¬ ∃ fuel result,
          narrowInsertIntoPool (levelList (0 : ℕ)) fuel (2 ^ 31 + 2) (levelEntry 0) = some result ∧
            Inserts (levelList (0 : ℕ)) (2 ^ 31 + 2) (levelEntry 0) result := by
  refine ⟨fun _ _ _ _ => le_rfl, fun i _ => Nat.succ_ne_zero i, ?_⟩
  rintro ⟨fuel, result, returned, -⟩
  rw [narrowInsertIntoPool_endless 0 fuel (le_refl _)] at returned
  cases returned

end OdinVector.Pool
