/-
This file models `calculate_recall`, with and without the tags of an index. It counts the answers
that are in the first places of the truth. Where the truth has distances, the places of the same
distance count too.

A full recall is not always 100, since the percentage of a place is rounded. It does not say that
the nearest points were found, nor does every exact answer reach it: that depends on the ties, and
on how long the rows of the truth are.
-/

import OdinVector.Evaluation.WindowTruth

namespace OdinVector

open Finset NearestList

/-! ### The loops -/

section Loops

variable {Scalar : Type} [DecidableEq Scalar]

/-- The loop over `tie_breaker`. -/
def tieLoop (last : Scalar) : List Scalar → Nat → Nat
  | [], tieBreaker => tieBreaker
  | dist :: rest, tieBreaker =>
    if dist = last then tieLoop last rest (tieBreaker + 1) else tieBreaker

/-- `tie_breaker`, from the last one of the first distances on. -/
def tieBreakerFrom (gtDistVec : List Scalar) (count : Nat) : Nat :=
  match gtDistVec.drop (count - 1) with
  | [] => count - 1
  | last :: rest => tieLoop last (last :: rest) (count - 1)

/-- The loop over `cur_counter`. -/
def activeLoop (activeTags : Finset Nat) (recallAt : Nat) : List Nat → Nat → Nat → Nat
  | [], _, curCounter => curCounter
  | tag :: rest, activePointsCount, curCounter =>
    if activePointsCount < recallAt then
      activeLoop activeTags recallAt rest
        (if tag ∈ activeTags then activePointsCount + 1 else activePointsCount) (curCounter + 1)
    else curCounter

theorem tieLoop_eq (last : Scalar) (dists : List Scalar) (tieBreaker : Nat) :
    tieLoop last dists tieBreaker =
      tieBreaker + (dists.takeWhile fun dist => dist = last).length := by
  induction dists generalizing tieBreaker with
  | nil => rfl
  | cons dist rest inductionHypothesis =>
    rw [tieLoop, List.takeWhile_cons]
    by_cases same : dist = last
    · rw [if_pos same, if_pos (decide_eq_true same), inductionHypothesis, List.length_cons,
        Nat.add_assoc, Nat.add_comm 1]
    · rw [if_neg same, if_neg (by rwa [decide_eq_true_eq]), List.length_nil, Nat.add_zero]

theorem tieBreakerFrom_le {gtDistVec : List Scalar} {count : Nat}
    (inside : count ≤ gtDistVec.length) : tieBreakerFrom gtDistVec count ≤ gtDistVec.length := by
  unfold tieBreakerFrom
  split
  · omega
  · rename_i last rest behind
    have places : ((last :: rest).takeWhile fun dist => decide (dist = last)).length ≤
        (last :: rest).length := (List.takeWhile_sublist _).length_le
    have length := congrArg List.length behind
    rw [List.length_drop] at length
    rw [tieLoop_eq]
    omega

/-- The loop stops behind the last place that it counts. -/
theorem activeLoop_eq {activeTags : Finset Nat} {recallAt : Nat} {row : List Nat}
    {activePointsCount : Nat} (less : activePointsCount < recallAt)
    (enough : recallAt ≤ activePointsCount + row.countP (· ∈ activeTags)) (curCounter : Nat) :
    ∃ before last behind, row = before ++ last :: behind ∧ last ∈ activeTags ∧
      activePointsCount + before.countP (· ∈ activeTags) + 1 = recallAt ∧
      activeLoop activeTags recallAt row activePointsCount curCounter =
        curCounter + (before.length + 1) := by
  induction row generalizing activePointsCount curCounter with
  | nil => exact absurd enough (Nat.not_le.mpr less)
  | cons tag rest inductionHypothesis =>
    rw [activeLoop, if_pos less]
    by_cases active : tag ∈ activeTags
    · rw [if_pos active]
      rw [List.countP_cons, if_pos (decide_eq_true active)] at enough
      by_cases full : activePointsCount + 1 = recallAt
      · refine ⟨[], tag, rest, rfl, active, full, ?_⟩
        cases rest with
        | nil => rfl
        | cons next rest => exact if_neg full.not_lt
      · obtain ⟨before, last, behind, rfl, isActive, count, stops⟩ :=
          @inductionHypothesis (activePointsCount + 1) (by omega) (by omega) (curCounter + 1)
        refine ⟨tag :: before, last, behind, rfl, isActive, ?_, ?_⟩
        · rw [List.countP_cons, if_pos (decide_eq_true active)]
          omega
        · rw [stops, List.length_cons]
          omega
    · rw [if_neg active]
      rw [List.countP_cons, if_neg (by rwa [decide_eq_true_eq])] at enough
      obtain ⟨before, last, behind, rfl, isActive, count, stops⟩ :=
        inductionHypothesis less enough (curCounter + 1)
      refine ⟨tag :: before, last, behind, rfl, isActive, ?_, ?_⟩
      · rwa [List.countP_cons, if_neg (by rwa [decide_eq_true_eq])]
      · rw [stops, List.length_cons]
        omega

end Loops

section Ties

variable {Scalar : Type} [LinearOrder Scalar] {key : Nat → Scalar}

/-- The places of a sorted row at whose beginning no distance is less than one. -/
theorem mem_take_takeWhile {row : List Nat} (sorted : Sorted key row) {value : Scalar}
    (least : ∀ id ∈ row, value ≤ key id) {id : Nat} :
    id ∈ row.take ((row.map key).takeWhile fun dist => dist = value).length ↔
      id ∈ row ∧ key id ≤ value := by
  induction row with
  | nil => simp
  | cons first rest inductionHypothesis =>
    obtain ⟨below, sortedRest⟩ := List.pairwise_cons.mp sorted
    rw [List.map_cons, List.takeWhile_cons]
    by_cases same : key first = value
    · rw [if_pos (decide_eq_true same), List.length_cons, List.take_succ_cons, List.mem_cons,
        List.mem_cons, inductionHypothesis sortedRest fun id inside =>
          least id (List.mem_cons_of_mem first inside), or_and_right]
      exact or_congr_left ⟨fun equal => ⟨equal, (equal ▸ same).le⟩, And.left⟩
    · rw [if_neg (by rwa [decide_eq_true_eq]), List.length_nil, List.take_zero]
      refine iff_of_false List.not_mem_nil fun ⟨inside, le⟩ => same ?_
      refine le_antisymm ?_ (least first List.mem_cons_self)
      rcases List.mem_cons.mp inside with rfl | inside
      · exact le
      · exact (below id inside).trans le

/-- With the places of the same distance, those that are no farther count. -/
theorem mem_take_tieBreakerFrom {before behind : List Nat} {last : Nat}
    (sorted : Sorted key (before ++ last :: behind)) {id : Nat} :
    id ∈ (before ++ last :: behind).take
        (tieBreakerFrom ((before ++ last :: behind).map key) (before.length + 1)) ↔
      id ∈ before ++ last :: behind ∧ key id ≤ key last := by
  obtain ⟨_, sortedRest, between⟩ := List.pairwise_append.mp sorted
  have least : ∀ id ∈ last :: behind, key last ≤ key id := by
    intro id inside
    rcases List.mem_cons.mp inside with rfl | inside
    · exact le_refl _
    · exact (List.pairwise_cons.mp sortedRest).1 id inside
  have first : ((before ++ last :: behind).map key).drop before.length =
      key last :: behind.map key := by
    rw [← List.map_drop, List.drop_left, List.map_cons]
  rw [tieBreakerFrom, Nat.add_sub_cancel, first]
  dsimp only
  rw [tieLoop_eq, ← List.map_cons, List.take_length_add_append, List.mem_append, List.mem_append,
    mem_take_takeWhile sortedRest least, or_and_right]
  exact or_congr_left ⟨fun inside => ⟨inside, between id inside last List.mem_cons_self⟩, And.left⟩

end Ties

/-! ### The percentage -/

section Percentage

/-- What is returned for a sum, in `double`. -/
def percentage (numQueries recallAt : Nat) (total : ℚ) : ℚ :=
  binary64.nearest
    (binary64.nearest (total / numQueries) * binary64.nearest (100 / recallAt))

/-- What is returned when every answer counts. -/
def fullRecall (recallAt : Nat) : ℚ :=
  binary64.nearest (recallAt * binary64.nearest (100 / recallAt))

variable {numQueries recallAt total : Nat}

/-- What one place is worth. -/
theorem place_bounds (some : 0 < recallAt) (small : recallAt ≤ 2 ^ 51) :
    |binary64.nearest (100 / recallAt) - 100 / recallAt| ≤ 100 / recallAt / 2 ^ 53 := by
  have recallPos : (0 : ℚ) < recallAt := by exact_mod_cast some
  have recallLe : (recallAt : ℚ) ≤ 2 ^ 51 := by exact_mod_cast small
  refine abs_binary64_sub_le_of_normal ?_
  rw [le_div_iff₀ recallPos]
  calc (1 : ℚ) / 2 ^ 200 * recallAt ≤ 1 / 2 ^ 200 * 2 ^ 51 :=
        mul_le_mul_of_nonneg_left recallLe (by positivity)
    _ ≤ 100 := by norm_num

/-- What all places are worth before the last rounding, and after it. -/
theorem fullRecall_bounds (some : 0 < recallAt) (small : recallAt ≤ 2 ^ 51) :
    |recallAt * binary64.nearest (100 / recallAt) - 100| ≤ 100 / 2 ^ 53 ∧
      |fullRecall recallAt - recallAt * binary64.nearest (100 / recallAt)| ≤
        recallAt * binary64.nearest (100 / recallAt) / 2 ^ 53 := by
  have recallPos : (0 : ℚ) < recallAt := by exact_mod_cast some
  have all : |recallAt * binary64.nearest (100 / recallAt) - 100| ≤ 100 / 2 ^ 53 := by
    calc |recallAt * binary64.nearest (100 / recallAt) - 100|
        = |recallAt * (binary64.nearest (100 / recallAt) - 100 / recallAt)| := by
          rw [mul_sub, mul_div_cancel₀ _ recallPos.ne']
      _ = recallAt * |binary64.nearest (100 / recallAt) - 100 / recallAt| := by
          rw [abs_mul, abs_of_pos recallPos]
      _ ≤ recallAt * (100 / recallAt / 2 ^ 53) :=
          mul_le_mul_of_nonneg_left (place_bounds some small) recallPos.le
      _ = 100 / 2 ^ 53 := by rw [← mul_div_assoc, mul_div_cancel₀ _ recallPos.ne']
  refine ⟨all, abs_binary64_sub_le_of_normal ?_⟩
  have near := (abs_le.mp all).1
  linarith

/-- A full recall is nearly 100. -/
theorem abs_fullRecall_sub_le (some : 0 < recallAt) (small : recallAt ≤ 2 ^ 51) :
    |fullRecall recallAt - 100| ≤ 100 / 2 ^ 51 := by
  obtain ⟨all, rounded⟩ := fullRecall_bounds some small
  rw [abs_le] at all rounded ⊢
  constructor <;> linarith

/-- It is 100 when a place is worth an integer. -/
theorem fullRecall_eq_hundred (whole : recallAt ∣ 100) : fullRecall recallAt = 100 := by
  obtain ⟨worth, product⟩ := whole
  have some : recallAt ≠ 0 := by
    rintro rfl
    omega
  have recallPos : (0 : ℚ) < recallAt := by exact_mod_cast Nat.pos_of_ne_zero some
  have casts : (recallAt : ℚ) * worth = 100 := by exact_mod_cast product.symm
  have small : worth < 2 ^ 53 := by
    have le := Nat.le_of_dvd (by decide : 0 < 100) (Dvd.intro_left recallAt product.symm)
    omega
  have quotient : (100 : ℚ) / recallAt = worth := by
    rw [div_eq_iff recallPos.ne', mul_comm]
    exact casts.symm
  have hundred : binary64.nearest ((100 : Nat) : ℚ) = (100 : Nat) :=
    FloatFormat.nearest_natCast (by decide) (by decide)
  rw [fullRecall, quotient, FloatFormat.nearest_natCast (by decide) small, casts]
  exact_mod_cast hundred

theorem percentage_full (queries : 0 < numQueries) (small : recallAt ≤ 2 ^ 51) :
    percentage numQueries recallAt ((numQueries * recallAt : Nat) : ℚ) = fullRecall recallAt := by
  have queriesPos : (0 : ℚ) < numQueries := by exact_mod_cast queries
  have integer : binary64.nearest (recallAt : ℚ) = recallAt :=
    FloatFormat.nearest_natCast (by decide) (small.trans_lt (by decide))
  rw [percentage, Nat.cast_mul, mul_div_cancel_left₀ _ queriesPos.ne', integer, fullRecall]

/-- With one answer less the percentage is less, whatever the roundings do. -/
theorem percentage_lt (queries : 0 < numQueries) (some : 0 < recallAt)
    (small : numQueries * recallAt ≤ 2 ^ 51) (less : total < numQueries * recallAt) :
    percentage numQueries recallAt total < fullRecall recallAt := by
  have recallSmall : recallAt ≤ 2 ^ 51 := (Nat.le_mul_of_pos_left recallAt queries).trans small
  have queriesSmall : numQueries ≤ 2 ^ 51 := (Nat.le_mul_of_pos_right numQueries some).trans small
  have queriesPos : (0 : ℚ) < numQueries := by exact_mod_cast queries
  have recallPos : (0 : ℚ) < recallAt := by exact_mod_cast some
  obtain ⟨all, rounded⟩ := fullRecall_bounds some recallSmall
  rw [abs_le] at all rounded
  have worthPos : 0 < binary64.nearest (100 / recallAt) := by
    have product : 0 < recallAt * binary64.nearest (100 / recallAt) := by linarith
    exact pos_of_mul_pos_right product recallPos.le
  unfold percentage
  generalize binary64.nearest (100 / recallAt) = worth at *
  obtain rfl | counted := Nat.eq_zero_or_pos total
  · rw [Nat.cast_zero, zero_div, FloatFormat.nearest_zero, zero_mul, FloatFormat.nearest_zero]
    linarith
  have atLeastOne : (1 : ℚ) ≤ total := by exact_mod_cast counted
  have productSmall : (numQueries * recallAt : ℚ) ≤ 2 ^ 51 := by exact_mod_cast small
  have oneLess : (total : ℚ) + 1 ≤ numQueries * recallAt := by exact_mod_cast less
  -- The quotient has the error of one rounding,
  have quotientNormal : (1 : ℚ) / 2 ^ 51 ≤ total / numQueries := by
    have queriesLe : (numQueries : ℚ) ≤ 2 ^ 51 := by exact_mod_cast queriesSmall
    exact div_le_div₀ (by linarith) atLeastOne queriesPos queriesLe
  have quotient := abs_le.mp (abs_binary64_sub_le_of_normal
    (le_trans (by norm_num) quotientNormal))
  generalize binary64.nearest (total / numQueries) = rate at *
  -- and the product that of another one.
  have worthNormal : (1 : ℚ) / 2 ^ 51 ≤ worth := by
    have recallLe : (recallAt : ℚ) ≤ 2 ^ 51 := by exact_mod_cast recallSmall
    have scaled : recallAt * worth ≤ 2 ^ 51 * worth :=
      mul_le_mul_of_nonneg_right recallLe worthPos.le
    linarith
  have rateNormal : (1 : ℚ) / 2 ^ 52 ≤ rate := by linarith
  have productNormal : (1 : ℚ) / 2 ^ 200 ≤ rate * worth := by
    calc (1 : ℚ) / 2 ^ 200 ≤ 1 / 2 ^ 52 * (1 / 2 ^ 51) := by norm_num
      _ ≤ rate * worth :=
        mul_le_mul rateNormal worthNormal (by positivity) (le_trans (by positivity) rateNormal)
  have product := abs_le.mp (abs_binary64_sub_le_of_normal productNormal)
  have apart : (total / numQueries : ℚ) * (1 + 1 / 2 ^ 53) * (1 + 1 / 2 ^ 53) <
      recallAt * (1 - 1 / 2 ^ 53) := by
    rw [div_mul_eq_mul_div, div_mul_eq_mul_div, div_lt_iff₀ queriesPos]
    have scaled : (recallAt : ℚ) * (1 - 1 / 2 ^ 53) * numQueries =
        (numQueries * recallAt) * (1 - 1 / 2 ^ 53) := by ring
    rw [scaled]
    generalize (numQueries * recallAt : ℚ) = places at *
    norm_num
    linarith
  calc binary64.nearest (rate * worth) ≤ rate * worth * (1 + 1 / 2 ^ 53) := by linarith
    _ ≤ total / numQueries * (1 + 1 / 2 ^ 53) * worth * (1 + 1 / 2 ^ 53) := by
        have upper : rate ≤ total / numQueries * (1 + 1 / 2 ^ 53) := by linarith
        exact mul_le_mul_of_nonneg_right (mul_le_mul_of_nonneg_right upper worthPos.le)
          (by norm_num)
    _ = total / numQueries * (1 + 1 / 2 ^ 53) * (1 + 1 / 2 ^ 53) * worth := by ring
    _ < recallAt * (1 - 1 / 2 ^ 53) * worth := mul_lt_mul_of_pos_right apart worthPos
    _ ≤ fullRecall recallAt := by linarith

end Percentage

/-- What `calculate_recall` is given. -/
structure RecallInput (Scalar : Type) where
  numQueries : Nat
  goldStd : List Nat
  gsDist : Option (List Scalar)
  dimGs : Nat
  ourResults : List Nat
  dimOr : Nat
  recallAt : Nat

namespace RecallInput

section

variable {Scalar : Type} (input : RecallInput Scalar)

/-- What `gt` is filled with. -/
def gtRow (tieBreaker i : Nat) : List Nat := (input.goldStd.drop (input.dimGs * i)).take tieBreaker

/-- What `res` is filled with. -/
def resRow (i : Nat) : List Nat := (input.ourResults.drop (input.dimOr * i)).take input.recallAt

/-- `cur_recall`. -/
def curRecall (tieBreaker i : Nat) : Nat :=
  ((input.resRow i).toFinset.filter (· ∈ (input.gtRow tieBreaker i).toFinset)).card

/-- `total_recall`, a sum of `double`. -/
def totalRecall (tieBreaker : Nat → Nat) (queries : Nat) : ℚ :=
  (List.range queries).foldl (fun total i =>
    binary64.nearest (total + input.curRecall (tieBreaker i) i)) 0

/-- What is returned. -/
def recallOf (tieBreaker : Nat → Nat) : ℚ :=
  percentage input.numQueries input.recallAt (input.totalRecall tieBreaker input.numQueries)

variable [DecidableEq Scalar]

/-- `tie_breaker` behind so many places. -/
def tieBreaker (count i : Nat) : Nat :=
  input.gsDist.elim input.recallAt fun gsDist =>
    tieBreakerFrom (rowAtOf gsDist input.dimGs i) count

/-- `calculate_recall`. -/
def calculateRecall : ℚ := input.recallOf (input.tieBreaker input.recallAt)

/-- `cur_counter`. -/
def curCounter (activeTags : Finset Nat) (i : Nat) : Nat :=
  if activeTags = ∅ then input.recallAt
  else activeLoop activeTags input.recallAt (rowAtOf input.goldStd input.dimGs i) 0 0

/-- `calculate_recall` with the tags of an index. -/
def calculateActiveRecall (activeTags : Finset Nat) : ℚ :=
  input.recallOf fun i => input.tieBreaker (input.curCounter activeTags i) i

end

/-! ### Full recall -/

variable {Scalar : Type} {input : RecallInput Scalar}

theorem curRecall_le (tieBreaker i : Nat) : input.curRecall tieBreaker i ≤ input.recallAt := by
  calc input.curRecall tieBreaker i ≤ (input.resRow i).toFinset.card := card_filter_le _ _
    _ ≤ (input.resRow i).length := List.toFinset_card_le _
    _ ≤ input.recallAt := List.length_take_le _ _

/-- Every answer counts. -/
theorem curRecall_eq_iff {tieBreaker i : Nat} :
    input.curRecall tieBreaker i = input.recallAt ↔
      (input.resRow i).length = input.recallAt ∧ (input.resRow i).Nodup ∧
        ∀ id ∈ input.resRow i, id ∈ input.gtRow tieBreaker i := by
  have counted := card_filter_le (input.resRow i).toFinset
    (· ∈ (input.gtRow tieBreaker i).toFinset)
  have distinct := List.toFinset_card_le (input.resRow i)
  have length : (input.resRow i).length ≤ input.recallAt := List.length_take_le _ _
  constructor
  · intro all
    unfold curRecall at all
    have nodup : (input.resRow i).toFinset.card = (input.resRow i).length := by omega
    refine ⟨by omega, ?_, fun id inside => ?_⟩
    · rw [List.card_toFinset] at nodup
      exact List.dedup_eq_self.mp ((List.dedup_sublist _).eq_of_length nodup)
    · have full : (input.resRow i).toFinset.filter
          (· ∈ (input.gtRow tieBreaker i).toFinset) = (input.resRow i).toFinset :=
        eq_of_subset_of_card_le (filter_subset _ _) (by omega)
      exact List.mem_toFinset.mp (mem_filter.mp (full ▸ List.mem_toFinset.mpr inside)).2
  · rintro ⟨full, nodup, inGt⟩
    rw [curRecall, filter_true_of_mem fun id inside =>
      List.mem_toFinset.mpr (inGt id (List.mem_toFinset.mp inside)),
      List.toFinset_card_of_nodup nodup, full]

theorem sum_curRecall_le (tieBreaker : Nat → Nat) (queries : Nat) :
    ∑ i ∈ range queries, input.curRecall (tieBreaker i) i ≤ queries * input.recallAt := by
  calc ∑ i ∈ range queries, input.curRecall (tieBreaker i) i
      ≤ ∑ _i ∈ range queries, input.recallAt :=
        sum_le_sum fun i _ => curRecall_le (tieBreaker i) i
    _ = queries * input.recallAt := by rw [sum_const, card_range, nsmul_eq_mul, Nat.cast_id]

/-- The sum is exact. -/
theorem totalRecall_eq {queries : Nat} (tieBreaker : Nat → Nat)
    (small : queries * input.recallAt < 2 ^ 53) :
    input.totalRecall tieBreaker queries =
      (∑ i ∈ range queries, input.curRecall (tieBreaker i) i : Nat) := by
  induction queries with
  | zero => rfl
  | succ queries inductionHypothesis =>
    have fewer : queries * input.recallAt < 2 ^ 53 :=
      (Nat.mul_le_mul_right _ (Nat.le_succ queries)).trans_lt small
    have bound := (sum_curRecall_le tieBreaker (queries + 1)).trans_lt small
    rw [totalRecall, List.range_succ, List.foldl_append, ← totalRecall, inductionHypothesis fewer]
    show binary64.nearest (_ + _) = _
    rw [← Nat.cast_add, ← sum_range_succ]
    exact FloatFormat.nearest_natCast (by decide) bound

/-- The recall is at most a full one, and is full when every answer counts. -/
theorem recallOf_full_iff (queries : 0 < input.numQueries) (some : 0 < input.recallAt)
    (small : input.numQueries * input.recallAt ≤ 2 ^ 51) (tieBreaker : Nat → Nat) :
    input.recallOf tieBreaker ≤ fullRecall input.recallAt ∧
      (input.recallOf tieBreaker = fullRecall input.recallAt ↔
        ∀ i < input.numQueries, input.curRecall (tieBreaker i) i = input.recallAt) := by
  have all : (∑ i ∈ range input.numQueries, input.curRecall (tieBreaker i) i) =
      input.numQueries * input.recallAt ↔
        ∀ i < input.numQueries, input.curRecall (tieBreaker i) i = input.recallAt := by
    have every := sum_eq_sum_iff_of_le fun i (_ : i ∈ range input.numQueries) =>
      @curRecall_le _ input (tieBreaker i) i
    rw [sum_const, card_range, nsmul_eq_mul, Nat.cast_id] at every
    exact every.trans (forall_congr' fun i => imp_congr_left mem_range)
  have recallSmall : input.recallAt ≤ 2 ^ 51 :=
    (Nat.le_mul_of_pos_left input.recallAt queries).trans small
  rw [recallOf, totalRecall_eq tieBreaker (small.trans_lt (by decide)), ← all]
  obtain full | less := (sum_curRecall_le tieBreaker input.numQueries).eq_or_lt
  · rw [full, percentage_full queries recallSmall]
    exact ⟨le_rfl, iff_of_true rfl rfl⟩
  · have fewer := percentage_lt queries some small less
    exact ⟨fewer.le, iff_of_false fewer.ne less.ne⟩

/-! ### The places that count -/

/-- Without tags all points are active. -/
def IsActive (activeTags : Finset Nat) (id : Nat) : Prop := activeTags = ∅ ∨ id ∈ activeTags

instance (activeTags : Finset Nat) : DecidablePred (IsActive activeTags) := fun id =>
  inferInstanceAs (Decidable (activeTags = ∅ ∨ id ∈ activeTags))

/-- The last place that counts without a tie. -/
theorem exists_curCounter {activeTags : Finset Nat} {i : Nat} (some : 0 < input.recallAt)
    (enough : input.recallAt ≤
      (rowAtOf input.goldStd input.dimGs i).countP (IsActive activeTags)) :
    ∃ before last behind, rowAtOf input.goldStd input.dimGs i = before ++ last :: behind ∧
      IsActive activeTags last ∧ before.countP (IsActive activeTags) + 1 = input.recallAt ∧
      input.curCounter activeTags i = before.length + 1 := by
  unfold curCounter
  generalize rowAtOf input.goldStd input.dimGs i = row at *
  by_cases all : activeTags = ∅
  · have count : ∀ list : List Nat, list.countP (IsActive activeTags) = list.length := fun list =>
      List.countP_eq_length.mpr fun _ _ => decide_eq_true (.inl all)
    rw [count] at enough
    have inside : input.recallAt - 1 < row.length := by omega
    refine ⟨row.take (input.recallAt - 1), row[input.recallAt - 1],
      row.drop (input.recallAt - 1 + 1), ?_, .inl all, ?_, ?_⟩
    · rw [← List.drop_eq_getElem_cons inside, List.take_append_drop]
    · rw [count, List.length_take_of_le inside.le]
      omega
    · rw [if_pos all, List.length_take_of_le inside.le]
      omega
  · have same : (fun id => decide (IsActive activeTags id)) =
        fun id => decide (id ∈ activeTags) := by
      funext id
      exact decide_eq_decide.mpr ⟨fun active => active.resolve_left all, .inr⟩
    rw [same] at enough
    obtain ⟨before, last, behind, isRow, isActive, count, stops⟩ :=
      @activeLoop_eq activeTags input.recallAt row 0 some (by rwa [Nat.zero_add]) 0
    refine ⟨before, last, behind, isRow, .inr isActive, ?_, ?_⟩
    · rwa [same, ← Nat.zero_add (List.countP _ _)]
    · rw [if_neg all, stops, Nat.zero_add]

theorem gtRow_eq {tieBreaker : Nat} (le : tieBreaker ≤ input.dimGs) (i : Nat) :
    input.gtRow tieBreaker i = (rowAtOf input.goldStd input.dimGs i).take tieBreaker := by
  rw [gtRow, rowAtOf, List.take_take, Nat.min_eq_left le, Nat.mul_comm]

end RecallInput

/-! ### The truth -/

section Truth

variable {Scalar : Type} [CommRing Scalar] [LinearOrder Scalar]

namespace TruthInput

/-- A truth, with or without its distances, and answers of as many points as are looked at. -/
def recallInput (input : TruthInput Scalar) (rows : List (List (Nat × Scalar))) (dists : Bool)
    (ourResults : List Nat) (recallAt : Nat) : RecallInput Scalar where
  numQueries := input.nqueries
  goldStd := rows.flatten.map Prod.fst
  gsDist := if dists then some (rows.flatten.map Prod.snd) else none
  dimGs := input.k
  ourResults := ourResults
  dimOr := recallAt
  recallAt := recallAt

variable (input : TruthInput Scalar)

/-- The points that are active. -/
def activePoints (activeTags : Finset Nat) : Finset Nat :=
  (range input.npts).filter (RecallInput.IsActive activeTags)

/-- With distances, what counts are the points of a row to which few active ones are nearer;
without distances, those at its beginning. -/
def Counts (dists : Bool) (activeTags : Finset Nat) (recallAt q : Nat) (row : List Nat)
    (id : Nat) : Prop :=
  if dists then
    id ∈ row ∧ Among (input.distance q) recallAt (input.activePoints activeTags) id
  else id ∈ row.take recallAt

variable {input}

theorem mem_gtRow_iff {rows : List (List (Nat × Scalar))}
    (all : List.Forall₂ input.IsTruth (List.range input.nqueries) rows) {q : Nat}
    {row : List (Nat × Scalar)} (there : rows[q]? = some row) (isTruth : input.IsTruth q row)
    {dists : Bool} {ourResults : List Nat} {recallAt : Nat} {activeTags : Finset Nat}
    (some : 0 < recallAt)
    (enough : recallAt ≤ (row.map Prod.fst).countP (RecallInput.IsActive activeTags)) {id : Nat} :
    id ∈ (input.recallInput rows dists ourResults recallAt).gtRow
        ((input.recallInput rows dists ourResults recallAt).tieBreaker
          ((input.recallInput rows dists ourResults recallAt).curCounter activeTags q) q) q ↔
      input.Counts dists activeTags recallAt q (row.map Prod.fst) id := by
  have length : (row.map Prod.fst).length = input.k := by rw [List.length_map, isTruth.length]
  have isRow : rowAtOf (input.recallInput rows dists ourResults recallAt).goldStd
      (input.recallInput rows dists ourResults recallAt).dimGs q = row.map Prod.fst :=
    rowAtOf_truth all there Prod.fst
  have le : recallAt ≤ input.k := length ▸ enough.trans List.countP_le_length
  cases dists with
  | false =>
    rw [RecallInput.gtRow_eq le, isRow]
    exact Iff.rfl
  | true =>
    obtain ⟨before, last, behind, split, isActive, count, stops⟩ :=
      @RecallInput.exists_curCounter _ (input.recallInput rows true ourResults recallAt)
        activeTags q some (isRow ▸ enough)
    rw [isRow] at split
    have dists : rowAtOf (rows.flatten.map Prod.snd) input.k q =
        (row.map Prod.fst).map (input.distance q) := by
      rw [rowAtOf_truth all there Prod.snd, List.map_map]
      exact List.map_congr_left isTruth.distances
    have tie : (input.recallInput rows true ourResults recallAt).tieBreaker
        ((input.recallInput rows true ourResults recallAt).curCounter activeTags q) q =
        tieBreakerFrom ((row.map Prod.fst).map (input.distance q)) (before.length + 1) := by
      rw [stops, ← dists]
      rfl
    have inside : before.length + 1 ≤ ((row.map Prod.fst).map (input.distance q)).length := by
      rw [split, List.length_map, List.length_append, List.length_cons]
      omega
    have within := tieBreakerFrom_le inside
    rw [List.length_map, length] at within
    have nearest := isTruth.nearest
    rw [tie, RecallInput.gtRow_eq within, isRow, split]
    rw [split] at nearest
    rw [mem_take_tieBreakerFrom nearest.sorted, ← nearest.among_iff isActive, count]
    exact Iff.rfl

/-- What `compute_groundtruth` gave. -/
theorem forall_isTruth (neighbours : 0 < input.k) (full : input.PartsFull)
    {rows : List (List (Nat × Scalar))} (isRows : input.truth = some rows) :
    List.Forall₂ input.IsTruth (List.range input.nqueries) rows := by
  obtain ⟨written, isWritten, all⟩ := mapM_some fun q isQuery =>
    truthRow_spec neighbours full (List.mem_range.mp isQuery)
  obtain rfl : written = rows := Option.some.inj (isWritten.symm.trans isRows)
  exact all

/-- An answer that counts as a whole. -/
structure Scored (input : TruthInput Scalar) (dists : Bool) (activeTags : Finset Nat)
    (recallAt q : Nat) (row answer : List Nat) : Prop where
  length : answer.length = recallAt
  nodup : answer.Nodup
  counts : ∀ id ∈ answer, input.Counts dists activeTags recallAt q row id

/-- Enough points of every row are active. -/
def Enough (activeTags : Finset Nat) (recallAt : Nat) (rows : List (List (Nat × Scalar))) : Prop :=
  ∀ row ∈ rows, recallAt ≤ (row.map Prod.fst).countP (RecallInput.IsActive activeTags)

/-- The recall is full when all answers count as a whole. -/
theorem calculateActiveRecall_iff {rows : List (List (Nat × Scalar))}
    (all : List.Forall₂ input.IsTruth (List.range input.nqueries) rows)
    (queries : 0 < input.nqueries) {recallAt : Nat} (some : 0 < recallAt)
    (small : input.nqueries * recallAt ≤ 2 ^ 51) {activeTags : Finset Nat}
    (enough : Enough activeTags recallAt rows) (dists : Bool) (ourResults : List Nat) :
    (input.recallInput rows dists ourResults recallAt).calculateActiveRecall activeTags =
        fullRecall recallAt ↔
      ∀ q < input.nqueries, ∀ row, rows[q]? = .some row →
        input.Scored dists activeTags recallAt q (row.map Prod.fst)
          (rowAtOf ourResults recallAt q) := by
  refine (RecallInput.recallOf_full_iff queries some small _).2.trans
    (forall₂_congr fun q isQuery => ?_)
  obtain ⟨row, there, isTruth⟩ := exists_row all isQuery
  have answer : (input.recallInput rows dists ourResults recallAt).resRow q =
      rowAtOf ourResults recallAt q := by
    rw [rowAtOf, Nat.mul_comm]
    rfl
  have counts := @mem_gtRow_iff _ _ _ input rows all q row there isTruth dists ourResults recallAt
    activeTags some (enough row (List.mem_of_getElem? there))
  rw [RecallInput.curRecall_eq_iff, answer]
  constructor
  · rintro ⟨length, nodup, inGt⟩ other isOther
    obtain rfl := Option.some.inj (there.symm.trans isOther)
    exact ⟨length, nodup, fun id inside => counts.mp (inGt id inside)⟩
  · intro scored
    obtain ⟨length, nodup, inGt⟩ := scored row there
    exact ⟨length, nodup, fun id inside => counts.mpr (inGt id inside)⟩

/-- The nearest active points of a row are those of all points. -/
theorem nearest_active {q recallAt : Nat} {row : List (Nat × Scalar)}
    (isTruth : input.IsTruth q row) {activeTags : Finset Nat}
    (enough : recallAt ≤ (row.map Prod.fst).countP (RecallInput.IsActive activeTags)) :
    Nearest (input.distance q) recallAt (input.activePoints activeTags)
      (((row.map Prod.fst).filter (RecallInput.IsActive activeTags)).take recallAt) := by
  rw [List.countP_eq_length_filter] at enough
  exact (isTruth.nearest.filter _).take enough

/-- The exact answers have a full recall when all points that may be in them count. -/
theorem exact_answers_iff {rows : List (List (Nat × Scalar))}
    (all : List.Forall₂ input.IsTruth (List.range input.nqueries) rows)
    (queries : 0 < input.nqueries) {recallAt : Nat} (some : 0 < recallAt)
    (small : input.nqueries * recallAt ≤ 2 ^ 51) {activeTags : Finset Nat}
    (enough : Enough activeTags recallAt rows) (dists : Bool) :
    (∀ ourResults, (∀ q < input.nqueries, Nearest (input.distance q) recallAt
        (input.activePoints activeTags) (rowAtOf ourResults recallAt q)) →
      (input.recallInput rows dists ourResults recallAt).calculateActiveRecall activeTags =
        fullRecall recallAt) ↔
    ∀ q < input.nqueries, ∀ row, rows[q]? = .some row → ∀ id ∈ input.activePoints activeTags,
      Among (input.distance q) recallAt (input.activePoints activeTags) id →
        id ∈ if dists then row.map Prod.fst else (row.map Prod.fst).take recallAt := by
  have base : ∀ q < input.nqueries, ∃ list, Nearest (input.distance q) recallAt
      (input.activePoints activeTags) list ∧ list.length = recallAt := by
    intro q isQuery
    obtain ⟨row, there, isTruth⟩ := exists_row all isQuery
    have places := enough row (List.mem_of_getElem? there)
    refine ⟨_, nearest_active isTruth places, ?_⟩
    rw [List.countP_eq_length_filter] at places
    exact List.length_take_of_le places
  have full : ∀ q < input.nqueries, ∀ list, Nearest (input.distance q) recallAt
      (input.activePoints activeTags) list → list.length = recallAt := by
    intro q isQuery list nearest
    obtain ⟨other, otherNearest, length⟩ := base q isQuery
    rw [nearest.length, ← otherNearest.length, length]
  constructor
  · intro reach q isQuery row there id isActive among
    -- One of the exact answers has this point.
    have answers : ∀ other, ∃ answer, other < input.nqueries →
        Nearest (input.distance other) recallAt (input.activePoints activeTags) answer ∧
          (other = q → id ∈ answer) := by
      intro other
      by_cases isOther : other < input.nqueries
      · obtain ⟨list, nearest, _⟩ := base other isOther
        by_cases same : other = q
        · subst same
          obtain ⟨answer, exact_, inside⟩ := nearest.exists_with isActive among
          exact ⟨answer, fun _ => ⟨exact_, fun _ => inside⟩⟩
        · exact ⟨list, fun _ => ⟨nearest, fun equal => absurd equal same⟩⟩
      · exact ⟨[], fun isQuery => absurd isQuery isOther⟩
    choose answer isAnswer using answers
    have length : ∀ row ∈ (List.range input.nqueries).map answer, row.length = recallAt := by
      intro row member
      obtain ⟨other, inRange, rfl⟩ := List.mem_map.mp member
      have isOther := List.mem_range.mp inRange
      exact full other isOther _ (isAnswer other isOther).1
    have rowOf : ∀ other < input.nqueries,
        rowAtOf ((List.range input.nqueries).map answer).flatten recallAt other = answer other :=
      fun other isOther => rowAtOf_flatten length (by
        rw [List.getElem?_map, List.getElem?_range isOther, Option.map_some])
    have scored := (calculateActiveRecall_iff all queries some small enough dists _).mp
      (reach _ fun other isOther => (rowOf other isOther).symm ▸ (isAnswer other isOther).1)
      q isQuery row there
    have counts := scored.counts id (by
      rw [rowOf q isQuery]
      exact (isAnswer q isQuery).2 rfl)
    cases dists with
    | false => exact counts
    | true => exact counts.1
  · intro covered ourResults exact_
    refine (calculateActiveRecall_iff all queries some small enough dists _).mpr
      fun q isQuery row there => ?_
    have nearest := exact_ q isQuery
    refine ⟨full q isQuery _ nearest, nearest.nodup, fun id inside => ?_⟩
    have among := nearest.among_of_mem inside
    have inRow := covered q isQuery row there id (nearest.subset id inside) among
    cases dists with
    | false => exact inRow
    | true => exact ⟨inRow, among⟩

end TruthInput

end Truth

/-- What `compute_groundtruth` writes for the five numbers. -/
def fiveNumbersRows : List (List (Nat × ℤ)) := [[(3, 1), (1, 16)], [(2, 0), (4, 1)]]

theorem truth_fiveNumbers : fiveNumbers.truth = some fiveNumbersRows := by
  decide +kernel

/-- `calculate_recall` against the truth of `compute_groundtruth`, with and without tags. A full
recall is nearly 100, and 100 when a place is worth an integer. With the distances, the recall is
full when every answer has as many points as are looked at, all of the row and each with fewer
active ones that are nearer; such a point may be deleted, and a nearer one may be missing. Without
distances only the first points of the row count, deleted ones too. -/
theorem recall_is_full_iff {Scalar : Type} [CommRing Scalar] [LinearOrder Scalar]
    {input : TruthInput Scalar} (neighbours : 0 < input.k) (full : input.PartsFull)
    (queries : 0 < input.nqueries) {rows : List (List (Nat × Scalar))}
    (isRows : input.truth = some rows) {recallAt : Nat} (positive : 0 < recallAt)
    (small : input.nqueries * recallAt ≤ 2 ^ 51) {activeTags : Finset Nat}
    (enough : TruthInput.Enough activeTags recallAt rows) (dists : Bool) (ourResults : List Nat) :
    (input.recallInput rows dists ourResults recallAt).calculateRecall =
        (input.recallInput rows dists ourResults recallAt).calculateActiveRecall ∅ ∧
      (|fullRecall recallAt - 100| ≤ 100 / 2 ^ 51 ∧
        (recallAt ∣ 100 → fullRecall recallAt = 100)) ∧
      (input.recallInput rows dists ourResults recallAt).calculateActiveRecall activeTags ≤
        fullRecall recallAt ∧
      ((input.recallInput rows dists ourResults recallAt).calculateActiveRecall activeTags =
          fullRecall recallAt ↔
        ∀ q < input.nqueries, ∀ row, rows[q]? = some row →
          input.Scored dists activeTags recallAt q (row.map Prod.fst)
            (rowAtOf ourResults recallAt q)) := by
  have all := TruthInput.forall_isTruth neighbours full isRows
  have recallSmall : recallAt ≤ 2 ^ 51 := (Nat.le_mul_of_pos_left recallAt queries).trans small
  refine ⟨?_, ⟨abs_fullRecall_sub_le positive recallSmall, fullRecall_eq_hundred⟩,
    (RecallInput.recallOf_full_iff queries positive small _).1,
    TruthInput.calculateActiveRecall_iff all queries positive small enough dists ourResults⟩
  refine congrArg (RecallInput.recallOf _) (funext fun q => ?_)
  rw [RecallInput.curCounter, if_pos rfl]

/-- The points 1 and 2 are active, and the point 3 counts though it was deleted. -/
theorem recall_is_full_iff_fiveNumbers :
    (fiveNumbers.recallInput fiveNumbersRows true [3, 2] 1).calculateActiveRecall {1, 2} =
      100 := by
  have full := @recall_is_full_iff ℤ _ _ fiveNumbers (by decide) ⟨by decide, by decide⟩ (by decide)
    fiveNumbersRows truth_fiveNumbers 1 (by decide) (by decide) {1, 2}
    (by unfold TruthInput.Enough; decide) true [3, 2]
  rw [← full.2.1.2 (one_dvd _)]
  refine full.2.2.2.mpr fun q isQuery row there => ?_
  obtain rfl | rfl : q = 0 ∨ q = 1 := by
    have two : q < 2 := isQuery
    omega
  · obtain rfl : [(3, 1), (1, 16)] = row := Option.some.inj there
    refine ⟨rfl, List.nodup_singleton _, fun id member => ?_⟩
    obtain rfl : id = 3 := List.mem_singleton.mp member
    exact ⟨by decide, by decide +kernel⟩
  · obtain rfl : [(2, 0), (4, 1)] = row := Option.some.inj there
    refine ⟨rfl, List.nodup_singleton _, fun id member => ?_⟩
    obtain rfl : id = 2 := List.mem_singleton.mp member
    exact ⟨by decide, by decide +kernel⟩

/-- All exact answers have a full recall if and only if the truth has, for every query, all active
points that may be in an exact answer: anywhere in the row with distances, else at its beginning. -/
theorem exact_answers_are_full_iff {Scalar : Type} [CommRing Scalar] [LinearOrder Scalar]
    {input : TruthInput Scalar} (neighbours : 0 < input.k) (full : input.PartsFull)
    (queries : 0 < input.nqueries) {rows : List (List (Nat × Scalar))}
    (isRows : input.truth = some rows) {recallAt : Nat} (positive : 0 < recallAt)
    (small : input.nqueries * recallAt ≤ 2 ^ 51) {activeTags : Finset Nat}
    (enough : TruthInput.Enough activeTags recallAt rows) (dists : Bool) :
    (∀ ourResults, (∀ q < input.nqueries, Nearest (input.distance q) recallAt
        (input.activePoints activeTags) (rowAtOf ourResults recallAt q)) →
      (input.recallInput rows dists ourResults recallAt).calculateActiveRecall activeTags =
        fullRecall recallAt) ↔
    ∀ q < input.nqueries, ∀ row, rows[q]? = some row → ∀ id ∈ input.activePoints activeTags,
      Among (input.distance q) recallAt (input.activePoints activeTags) id →
        id ∈ if dists then row.map Prod.fst else (row.map Prod.fst).take recallAt :=
  TruthInput.exact_answers_iff (TruthInput.forall_isTruth neighbours full isRows) queries positive
    small enough dists

/-- Without distances, the first point of each row must be the only nearest one. -/
theorem exact_answers_are_full_iff_fiveNumbers :
    (∀ ourResults, (∀ q < 2, Nearest (fiveNumbers.distance q) 1 (fiveNumbers.activePoints ∅)
        (rowAtOf ourResults 1 q)) →
      (fiveNumbers.recallInput fiveNumbersRows false ourResults 1).calculateActiveRecall ∅ =
        fullRecall 1) ↔
    ∀ q < 2, ∀ row, fiveNumbersRows[q]? = some row → ∀ id ∈ fiveNumbers.activePoints ∅,
      Among (fiveNumbers.distance q) 1 (fiveNumbers.activePoints ∅) id →
        id ∈ (row.map Prod.fst).take 1 :=
  exact_answers_are_full_iff (by decide) ⟨by decide, by decide⟩ (by decide) truth_fiveNumbers
    (by decide) (by decide) (by unfold TruthInput.Enough; decide) false

end OdinVector
