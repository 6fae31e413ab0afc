/-
This file models the candidate list of the searches: an array of entries that is sorted
by distance up to its size, and `InsertIntoPool`, which looks the place of a new entry
up by bisection and moves the entries behind it by one.

The array is a function of the index; what is behind the size of the list is there too.
-/

import OdinVector.Prune

namespace OdinVector

/-- `Neighbor` with its `flag`, which is set until the node is expanded. -/
structure PoolEntry (Distance : Type) extends Neighbor Distance where
  flag : Bool

namespace Pool

variable {Distance : Type} [LinearOrder Distance]
variable (addr : Nat → PoolEntry Distance)

/-- The `memmove` of the entries from `place` to `K`, and the new entry at `place`. -/
def shiftIn (place K : Nat) (nn : PoolEntry Distance) : Nat → PoolEntry Distance := fun i =>
  if i < place then addr i
  else if i = place then nn
  else if i ≤ K then addr (i - 1)
  else addr i

/-- `while (right > 1 && left < right - 1)`; every round brings the two closer. -/
def bisect (distance : Distance) : Nat → Nat → Nat → Nat × Nat
  | 0, left, right => (left, right)
  | fuel + 1, left, right =>
    if 1 < right ∧ left < right - 1 then
      let mid := (left + right) / 2
      if distance < (addr mid).distance then bisect distance fuel left mid
      else bisect distance fuel mid right
    else (left, right)

/-- `while (left > 0)`: back over the entries at the same distance, and whether one of them
has the id. -/
def scanEqual (nn : PoolEntry Distance) : Nat → Nat × Bool
  | 0 => (0, false)
  | left + 1 =>
    if (addr (left + 1)).distance < nn.distance then (left + 1, false)
    else if (addr (left + 1)).id = nn.id then (left + 1, true)
    else scanEqual nn left

/-- `InsertIntoPool` with `0 < K`: the array and the place that is returned. -/
def insertIntoPool (K : Nat) (nn : PoolEntry Distance) : (Nat → PoolEntry Distance) × Nat :=
  if nn.distance < (addr 0).distance then (shiftIn addr 0 K nn, 0)
  else if (addr (K - 1)).distance < nn.distance then (Function.update addr K nn, K)
  else
    let (left, right) := bisect addr nn.distance K 0 (K - 1)
    let (left, equal) := scanEqual addr nn left
    if equal ∨ (addr left).id = nn.id ∨ (addr right).id = nn.id then (addr, K + 1)
    else (shiftIn addr right K nn, right)

/-- The entry at `marker` is picked: its flag is cleared. -/
def pick (marker : Nat) : Nat → PoolEntry Distance :=
  Function.update addr marker { addr marker with flag := false }

omit [LinearOrder Distance] in
theorem pick_self (marker : Nat) : pick addr marker marker = { addr marker with flag := false } :=
  Function.update_self _ _ _

omit [LinearOrder Distance] in
theorem pick_of_ne {marker i : Nat} (another : i ≠ marker) : pick addr marker i = addr i :=
  Function.update_of_ne another _ _

/-! ### What an insertion changes -/

omit [LinearOrder Distance] in
theorem update_eq_shiftIn (K : Nat) (nn : PoolEntry Distance) {i : Nat} (inside : i ≤ K) :
    Function.update addr K nn i = shiftIn addr K K nn i := by
  unfold shiftIn
  obtain below | rfl := Nat.lt_or_eq_of_le inside
  · rw [Function.update_of_ne below.ne, if_pos below]
  · rw [Function.update_self, if_neg (Nat.lt_irrefl _), if_pos rfl]

theorem bisect_le (distance : Distance) (fuel : Nat) {left right K : Nat} (first : left ≤ K)
    (second : right ≤ K) :
    (bisect addr distance fuel left right).1 ≤ K ∧ (bisect addr distance fuel left right).2 ≤ K := by
  induction fuel generalizing left right with
  | zero => exact ⟨first, second⟩
  | succ fuel inductionHypothesis =>
    unfold bisect
    split
    · dsimp only
      split
      · exact inductionHypothesis first (by omega)
      · exact inductionHypothesis (by omega) second
    · exact ⟨first, second⟩

theorem scanEqual_le (nn : PoolEntry Distance) (left : Nat) :
    (scanEqual addr nn left).1 ≤ left ∧
      ((scanEqual addr nn left).2 = true → (addr (scanEqual addr nn left).1).id = nn.id) := by
  induction left with
  | zero => exact ⟨le_rfl, nofun⟩
  | succ left inductionHypothesis =>
    unfold scanEqual
    split
    · exact ⟨le_rfl, nofun⟩
    · split
      · rename_i same
        exact ⟨le_rfl, fun _ => same⟩
      · exact ⟨inductionHypothesis.1.trans (Nat.le_succ left), inductionHypothesis.2⟩

/-- An entry whose id is not in the list goes in at a place of the list or behind it. -/
theorem insertIntoPool_spec {K : Nat} (some : 0 < K) {nn : PoolEntry Distance}
    (fresh : ∀ i < K, (addr i).id ≠ nn.id) :
    ∃ place ≤ K, (insertIntoPool addr K nn).2 = place ∧
      ∀ i ≤ K, (insertIntoPool addr K nn).1 i = shiftIn addr place K nn i := by
  unfold insertIntoPool
  split
  · exact ⟨0, Nat.zero_le K, rfl, fun _ _ => rfl⟩
  split
  · exact ⟨K, le_rfl, rfl, fun i inside => update_eq_shiftIn addr K nn inside⟩
  · dsimp only
    have bounds := bisect_le addr nn.distance K (Nat.zero_le (K - 1)) (le_refl (K - 1))
    obtain ⟨back, equal⟩ := scanEqual_le addr nn (bisect addr nn.distance K 0 (K - 1)).1
    split
    · rename_i found
      obtain same | same | same := found
      · exact absurd (equal same) (fresh _ (by omega))
      · exact absurd same (fresh _ (by omega))
      · exact absurd same (fresh _ (by omega))
    · exact ⟨_, by omega, rfl, fun _ _ => rfl⟩

end Pool

end OdinVector
