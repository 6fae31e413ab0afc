/-
This file models how `generate_pq_pivots` divides the dimensions into chunks: the loop that
gives each dimension to a bin, the rearrangement, the chunk offsets and the columns of the
training data that the k-means of a chunk reads. It proves that the chunks are a balanced
partition of the dimensions.

Since `bin_loads` is never written, a dimension goes to the first bin below the threshold,
and the threshold drops as soon as enough bins have the larger size. The quotients that the
source takes in `double` are those of natural numbers for all values of 32 bits.
-/

import OdinVector.Geometry
import Mathlib.Data.List.Range
import Mathlib.Logic.Function.Basic

namespace OdinVector

/-! ### The loop -/

/-- `bin_to_dims`, `cur_num_high` and `cur_bin_threshold`. -/
structure BinState where
  binToDims : Nat → List Nat
  curNumHigh : Nat
  curBinThreshold : Nat

namespace BinState

/-- `bin_loads`: the loop does not write it. -/
def binLoads (_bin : Nat) : Nat := 0

/-- `std::numeric_limits<float>::max()`. -/
def maxLoad : Nat := 2 ^ 128 - 2 ^ 104

variable (dim numPqChunks : Nat)

/-- `low_val`. -/
def lowVal : Nat := dim / numPqChunks

/-- `high_val`. -/
def highVal : Nat := divRoundUp dim numPqChunks

/-- `max_num_high`. -/
def maxNumHigh : Nat := dim - lowVal dim numPqChunks * numPqChunks

/-- The scan for the bin of a dimension, with the best bin and its load. -/
def scanBins (state : BinState) (count : Nat) : Nat × Nat :=
  (List.range count).foldl (fun best bin =>
    if binLoads bin < best.2 ∧ (state.binToDims bin).length < state.curBinThreshold then
      (bin, binLoads bin)
    else best) (numPqChunks + 1, maxLoad)

/-- One dimension; `none` is an access behind the end of `bin_to_dims`. -/
def assignDim (state : BinState) (d : Nat) : Option BinState :=
  let curBest := (state.scanBins numPqChunks numPqChunks).1
  if curBest < numPqChunks then
    let dims := state.binToDims curBest ++ [d]
    let binToDims := Function.update state.binToDims curBest dims
    if dims.length = highVal dim numPqChunks then
      let curNumHigh := state.curNumHigh + 1
      some ⟨binToDims, curNumHigh,
        if curNumHigh = maxNumHigh dim numPqChunks then lowVal dim numPqChunks
        else state.curBinThreshold⟩
    else some ⟨binToDims, state.curNumHigh, state.curBinThreshold⟩
  else none

/-- The binning loop of `generate_pq_pivots`. -/
def binDims : Option BinState :=
  (List.range dim).foldlM (assignDim dim numPqChunks) ⟨fun _ => [], 0, highVal dim numPqChunks⟩

/-- `rearrangement`. -/
def rearrangement (state : BinState) : List Nat :=
  (List.range numPqChunks).flatMap state.binToDims

/-- `chunk_offsets`. -/
def chunkOffsets (state : BinState) : List Nat :=
  (List.range numPqChunks).foldl (fun offsets bin =>
    if 0 < bin then offsets ++ [offsets.getD (bin - 1) 0 + (state.binToDims (bin - 1)).length]
    else offsets) [0] ++ [dim]

/-- The columns of the training data that are copied for a chunk. -/
def trainColumns (offsets : List Nat) (chunk : Nat) : List Nat :=
  (List.range (offsets.getD (chunk + 1) 0 - offsets.getD chunk 0)).map
    (offsets.getD chunk 0 + ·)

/-! ### Where the bins start -/

/-- The number of dimensions of a bin. -/
def share (bin : Nat) : Nat :=
  if bin < dim % numPqChunks then dim / numPqChunks + 1 else dim / numPqChunks

/-- The first dimension of a bin. -/
def start (bin : Nat) : Nat := bin * (dim / numPqChunks) + min bin (dim % numPqChunks)

variable {dim numPqChunks}

theorem start_zero : start dim numPqChunks 0 = 0 := by
  rw [start, Nat.zero_mul, Nat.zero_min]

theorem start_succ (bin : Nat) :
    start dim numPqChunks (bin + 1) = start dim numPqChunks bin + share dim numPqChunks bin := by
  unfold start share
  rw [Nat.succ_mul]
  split <;> omega

theorem start_last (some : 0 < numPqChunks) : start dim numPqChunks numPqChunks = dim := by
  have below := Nat.mod_lt dim some
  rw [start, Nat.min_eq_right below.le]
  exact Nat.div_add_mod dim numPqChunks

theorem share_pos (some : 0 < numPqChunks) (fits : numPqChunks ≤ dim) (bin : Nat) :
    0 < share dim numPqChunks bin := by
  have positive := Nat.div_pos fits some
  unfold share
  split <;> omega

theorem start_mono {first second : Nat} (le : first ≤ second) :
    start dim numPqChunks first ≤ start dim numPqChunks second := by
  induction second, le using Nat.le_induction with
  | base => exact le_rfl
  | succ second _ inductionHypothesis =>
    rw [start_succ]
    exact inductionHypothesis.trans (Nat.le_add_right _ _)

/-- Every dimension lies in a bin. -/
theorem exists_bin {d count : Nat} (inside : d < start dim numPqChunks count) :
    ∃ bin < count, start dim numPqChunks bin ≤ d ∧ d < start dim numPqChunks (bin + 1) := by
  induction count with
  | zero =>
    rw [start_zero] at inside
    exact absurd inside (Nat.not_lt_zero d)
  | succ count inductionHypothesis =>
    obtain below | above := Nat.lt_or_ge d (start dim numPqChunks count)
    · obtain ⟨bin, within, range⟩ := inductionHypothesis below
      exact ⟨bin, within.trans (Nat.lt_succ_self count), range⟩
    · exact ⟨count, Nat.lt_succ_self count, above, inside⟩

theorem highVal_eq : highVal dim numPqChunks =
    dim / numPqChunks + if dim % numPqChunks = 0 then 0 else 1 := rfl

theorem maxNumHigh_eq : maxNumHigh dim numPqChunks = dim % numPqChunks := by
  have whole := Nat.div_add_mod' dim numPqChunks
  unfold maxNumHigh lowVal
  omega

/-! ### The scan -/

theorem scanBins_succ (state : BinState) (count : Nat) :
    state.scanBins numPqChunks (count + 1) =
      if binLoads count < (state.scanBins numPqChunks count).2 ∧
        (state.binToDims count).length < state.curBinThreshold then (count, binLoads count)
      else state.scanBins numPqChunks count := by
  unfold scanBins
  rw [List.range_succ, List.foldl_append, List.foldl_cons, List.foldl_nil]

/-- The scan finds the first bin below the threshold. -/
theorem scanBins_eq {state : BinState} {bin : Nat}
    (free : (state.binToDims bin).length < state.curBinThreshold)
    (full : ∀ other < bin, ¬ (state.binToDims other).length < state.curBinThreshold)
    (count : Nat) : state.scanBins numPqChunks count =
      if bin < count then (bin, 0) else (numPqChunks + 1, maxLoad) := by
  induction count with
  | zero => rfl
  | succ count inductionHypothesis =>
    rw [scanBins_succ, inductionHypothesis]
    obtain before | rfl | behind := Nat.lt_trichotomy count bin
    · rw [if_neg (by omega : ¬ bin < count), if_neg fun found => full count before found.2,
        if_neg (by omega)]
    · rw [if_neg (Nat.lt_irrefl count), if_pos ⟨show 0 < maxLoad by decide, free⟩,
        if_pos (Nat.lt_succ_self count)]
      rfl
    · rw [if_pos behind, if_neg fun found => Nat.lt_irrefl 0 found.1, if_pos (by omega)]

/-! ### The invariant of the loop -/

/-- What the loop has done before a dimension: the bins are filled one after the other, and the
threshold is the larger size as long as bins of that size are missing. -/
structure Filled (dim numPqChunks d : Nat) (state : BinState) : Prop where
  bins : ∀ bin < numPqChunks, state.binToDims bin = List.range' (start dim numPqChunks bin)
    (min (share dim numPqChunks bin) (d - start dim numPqChunks bin))
  even : dim % numPqChunks = 0 → state.curBinThreshold = dim / numPqChunks
  uneven : 0 < dim % numPqChunks →
    state.curNumHigh ≤ dim % numPqChunks ∧ start dim numPqChunks state.curNumHigh ≤ d ∧
    (state.curNumHigh < dim % numPqChunks → d < start dim numPqChunks (state.curNumHigh + 1)) ∧
    state.curBinThreshold =
      if state.curNumHigh = dim % numPqChunks then dim / numPqChunks else dim / numPqChunks + 1

variable {state : BinState} {d bin : Nat}

/-- A dimension belongs to one bin. -/
theorem bin_unique {other : Nat} (first : start dim numPqChunks bin ≤ d)
    (last : d < start dim numPqChunks (bin + 1)) (above : start dim numPqChunks other ≤ d)
    (below : d < start dim numPqChunks (other + 1)) : other = bin := by
  by_contra differ
  obtain before | behind := Nat.lt_or_gt_of_ne differ
  · exact absurd (below.trans_le ((start_mono before).trans first)) (Nat.lt_irrefl d)
  · exact absurd (last.trans_le ((start_mono behind).trans above)) (Nat.lt_irrefl d)

theorem Filled.length_bin (filled : Filled dim numPqChunks d state) (within : bin < numPqChunks) :
    (state.binToDims bin).length =
      min (share dim numPqChunks bin) (d - start dim numPqChunks bin) := by
  rw [filled.bins bin within, List.length_range']

/-- The threshold is the size of the bin that is being filled. -/
theorem Filled.threshold_eq (filled : Filled dim numPqChunks d state)
    (first : start dim numPqChunks bin ≤ d) (last : d < start dim numPqChunks (bin + 1)) :
    state.curBinThreshold = share dim numPqChunks bin := by
  obtain even | uneven := Nat.eq_zero_or_pos (dim % numPqChunks)
  · rw [filled.even even, share, even, if_neg (Nat.not_lt_zero bin)]
  · obtain ⟨bound, reached, missing, threshold⟩ := filled.uneven uneven
    rw [threshold, share]
    by_cases done : state.curNumHigh = dim % numPqChunks
    · -- All larger bins are full, so that the bin is none of them.
      have behind : ¬ bin < dim % numPqChunks := by
        intro before
        rw [← done] at before
        exact absurd (last.trans_le ((start_mono before).trans reached)) (Nat.lt_irrefl d)
      rw [if_pos done, if_neg behind]
    · have below := lt_of_le_of_ne bound done
      have same := bin_unique first last reached (missing below)
      rw [if_neg done, if_pos (same ▸ below)]

/-- The bin of the next dimension is found. -/
theorem Filled.scan_eq (filled : Filled dim numPqChunks d state) (within : bin < numPqChunks)
    (first : start dim numPqChunks bin ≤ d) (last : d < start dim numPqChunks (bin + 1)) :
    (state.scanBins numPqChunks numPqChunks).1 = bin := by
  have threshold := filled.threshold_eq first last
  have grows := @start_succ dim numPqChunks bin
  have free : (state.binToDims bin).length < state.curBinThreshold := by
    rw [filled.length_bin within, threshold]
    omega
  have full : ∀ other < bin, ¬ (state.binToDims other).length < state.curBinThreshold := by
    intro other before
    have next := @start_succ dim numPqChunks other
    have ends := (@start_mono dim numPqChunks (other + 1) bin before).trans first
    have larger : share dim numPqChunks bin ≤ share dim numPqChunks other := by
      unfold share
      split <;> split <;> omega
    rw [filled.length_bin (before.trans within), threshold]
    omega
  rw [scanBins_eq free full, if_pos within]

/-- One dimension. -/
theorem Filled.assign (filled : Filled dim numPqChunks d state) (some : 0 < numPqChunks)
    (inside : d < dim) : ∃ next, state.assignDim dim numPqChunks d = .some next ∧
      Filled dim numPqChunks (d + 1) next := by
  obtain ⟨bin, within, first, last⟩ := exists_bin (inside.trans_eq (start_last some).symm)
  have scan := filled.scan_eq within first last
  have grows := @start_succ dim numPqChunks bin
  have length : (state.binToDims bin ++ [d]).length = d + 1 - start dim numPqChunks bin := by
    rw [List.length_append, List.length_singleton, filled.length_bin within]
    omega
  have bins : ∀ other < numPqChunks,
      Function.update state.binToDims bin (state.binToDims bin ++ [d]) other =
        List.range' (start dim numPqChunks other)
          (min (share dim numPqChunks other) (d + 1 - start dim numPqChunks other)) := by
    intro other inside
    by_cases same : other = bin
    · have before : min (share dim numPqChunks bin) (d - start dim numPqChunks bin) =
          d - start dim numPqChunks bin := by omega
      have after : min (share dim numPqChunks bin) (d + 1 - start dim numPqChunks bin) =
          d - start dim numPqChunks bin + 1 := by omega
      rw [same, Function.update_self, filled.bins bin within, before, after, List.range'_concat,
        Nat.one_mul, Nat.add_sub_cancel' first]
    · rw [Function.update_of_ne same, filled.bins other inside]
      obtain before | behind := Nat.lt_or_gt_of_ne same
      · have ends := (@start_mono dim numPqChunks (other + 1) bin before).trans first
        rw [start_succ] at ends
        congr 1
        omega
      · have begins := last.trans_le (@start_mono dim numPqChunks (bin + 1) other behind)
        congr 1
        omega
  rw [assignDim, scan]
  dsimp only
  rw [if_pos within, length]
  have high := @highVal_eq dim numPqChunks
  obtain even | uneven := Nat.eq_zero_or_pos (dim % numPqChunks)
  · have threshold := filled.even even
    split
    · refine ⟨_, rfl, bins, fun _ => ?_, fun positive => absurd even positive.ne'⟩
      dsimp only
      rw [maxNumHigh_eq, even, if_neg (Nat.succ_ne_zero _), threshold]
    · exact ⟨_, rfl, bins, fun _ => threshold, fun positive => absurd even positive.ne'⟩
  · obtain ⟨bound, reached, missing, threshold⟩ := filled.uneven uneven
    rw [if_neg uneven.ne'] at high
    split
    · rename_i complete
      have larger : bin < dim % numPqChunks := by
        by_contra behind
        rw [share, if_neg behind] at grows
        omega
      have below : state.curNumHigh < dim % numPqChunks := by
        refine lt_of_le_of_ne bound fun done => ?_
        rw [← done] at larger
        exact absurd (last.trans_le ((start_mono larger).trans reached)) (Nat.lt_irrefl d)
      have same := bin_unique first last reached (missing below)
      rw [share, if_pos larger] at grows
      refine ⟨_, rfl, bins, fun even => absurd even uneven.ne', fun _ => ?_⟩
      dsimp only
      rw [same, maxNumHigh_eq]
      refine ⟨larger, by omega, fun more => ?_, ?_⟩
      · have next := @start_succ dim numPqChunks (bin + 1)
        rw [share, if_pos more] at next
        omega
      · rw [threshold, if_neg below.ne]
        rfl
    · rename_i partly
      refine ⟨_, rfl, bins, fun even => absurd even uneven.ne',
        fun _ => ⟨bound, reached.trans (Nat.le_succ d), fun below => ?_, threshold⟩⟩
      have same := bin_unique first last reached (missing below)
      dsimp only
      rw [same] at below ⊢
      rw [share, if_pos below] at grows
      omega

/-- The loop fills all bins and never looks behind the last one. -/
theorem binDims_spec (some : 0 < numPqChunks) :
    ∃ state, binDims dim numPqChunks = .some state ∧ ∀ bin < numPqChunks,
      state.binToDims bin =
        List.range' (start dim numPqChunks bin) (share dim numPqChunks bin) := by
  have run : ∀ count ≤ dim, ∃ state, (List.range count).foldlM (assignDim dim numPqChunks)
      ⟨fun _ => [], 0, highVal dim numPqChunks⟩ = .some state ∧
        Filled dim numPqChunks count state := by
    intro count
    induction count with
    | zero =>
      refine fun _ => ⟨_, rfl, fun bin _ => ?_, fun even => ?_, fun uneven =>
        ⟨Nat.zero_le _, start_zero.le, fun _ => ?_, ?_⟩⟩
      · rw [Nat.zero_sub, Nat.min_zero]
        rfl
      · show highVal dim numPqChunks = _
        rw [highVal_eq, if_pos even, Nat.add_zero]
      · show 0 < start dim numPqChunks (0 + 1)
        rw [start_succ, share, if_pos uneven]
        exact Nat.add_pos_right _ (Nat.succ_pos _)
      · show highVal dim numPqChunks = _
        rw [highVal_eq, if_neg uneven.ne', if_neg uneven.ne]
    | succ count inductionHypothesis =>
      intro inside
      obtain ⟨state, done, filled⟩ := inductionHypothesis (Nat.le_of_succ_le inside)
      obtain ⟨next, assigned, after⟩ := filled.assign some inside
      refine ⟨next, ?_, after⟩
      rw [List.range_succ, List.foldlM_append, done]
      simpa using assigned
  obtain ⟨state, done, filled⟩ := run dim le_rfl
  refine ⟨state, done, fun bin within => ?_⟩
  have ends := (@start_mono dim numPqChunks (bin + 1) numPqChunks within).trans
    (start_last some).le
  rw [start_succ] at ends
  rw [filled.bins bin within, Nat.min_eq_left (by omega)]

/-! ### The partition -/

/-- The bins behind each other are the dimensions in their order. -/
theorem flatMap_bins (count : Nat) :
    ((List.range count).flatMap fun bin =>
      List.range' (start dim numPqChunks bin) (share dim numPqChunks bin)) =
      List.range (start dim numPqChunks count) := by
  induction count with
  | zero => rw [start_zero, List.range_zero, List.flatMap_nil]
  | succ count inductionHypothesis =>
    rw [List.range_succ, List.flatMap_append, List.flatMap_singleton, inductionHypothesis,
      start_succ, List.range_add, List.range'_eq_map_range]

theorem chunkOffsets_eq {state : BinState} (some : 0 < numPqChunks)
    (bins : ∀ bin < numPqChunks, state.binToDims bin =
      List.range' (start dim numPqChunks bin) (share dim numPqChunks bin)) :
    state.chunkOffsets dim numPqChunks =
      (List.range (numPqChunks + 1)).map (start dim numPqChunks) := by
  have run : ∀ count < numPqChunks, (List.range (count + 1)).foldl (fun offsets bin =>
      if 0 < bin then offsets ++ [offsets.getD (bin - 1) 0 + (state.binToDims (bin - 1)).length]
      else offsets) [0] = (List.range (count + 1)).map (start dim numPqChunks) := by
    intro count
    induction count with
    | zero =>
      intro _
      show [0] = [start dim numPqChunks 0]
      rw [start_zero]
    | succ count inductionHypothesis =>
      intro inside
      have before := inductionHypothesis (Nat.lt_of_succ_lt inside)
      rw [List.range_succ, List.foldl_append, before, List.foldl_cons, List.foldl_nil,
        if_pos (Nat.succ_pos count), Nat.add_sub_cancel, bins count (Nat.lt_of_succ_lt inside),
        List.length_range', List.map_append, List.map_singleton, start_succ]
      congr 3
      rw [List.getD_eq_getElem?_getD, List.getElem?_map, List.getElem?_range (Nat.lt_succ_self _)]
      rfl
  obtain ⟨count, rfl⟩ := Nat.exists_eq_succ_of_ne_zero some.ne'
  rw [chunkOffsets, run count (Nat.lt_succ_self count), List.range_succ (n := count + 1),
    List.map_append, List.map_singleton, start_last some]

theorem chunkOffsets_getD {state : BinState} (some : 0 < numPqChunks)
    (bins : ∀ bin < numPqChunks, state.binToDims bin =
      List.range' (start dim numPqChunks bin) (share dim numPqChunks bin))
    {chunk : Nat} (within : chunk ≤ numPqChunks) :
    (state.chunkOffsets dim numPqChunks).getD chunk 0 = start dim numPqChunks chunk := by
  rw [chunkOffsets_eq some bins, List.getD_eq_getElem?_getD, List.getElem?_map,
    List.getElem?_range (Nat.lt_succ_of_le within)]
  rfl

/-- What the chunks are to be. -/
structure Balanced (dim numPqChunks : Nat) (state : BinState) : Prop where
  permutation : (state.rearrangement numPqChunks).Perm (List.range dim)
  length : (state.chunkOffsets dim numPqChunks).length = numPqChunks + 1
  first : (state.chunkOffsets dim numPqChunks).head? = some 0
  last : (state.chunkOffsets dim numPqChunks).getLast? = some dim
  strict : (state.chunkOffsets dim numPqChunks).Pairwise (· < ·)
  /-- The columns that k-means reads, of vectors that are not permuted. -/
  columns : ∀ chunk < numPqChunks,
    trainColumns (state.chunkOffsets dim numPqChunks) chunk = state.binToDims chunk
  /-- The dimensions that the encoders read for these columns. -/
  rearranged : ∀ chunk < numPqChunks,
    (trainColumns (state.chunkOffsets dim numPqChunks) chunk).map
      (fun column => (state.rearrangement numPqChunks).getD column dim) = state.binToDims chunk
  sizes : ∀ chunk < numPqChunks, ∀ other < numPqChunks,
    (state.binToDims chunk).length ≤ (state.binToDims other).length + 1

/-- With at most as many chunks as dimensions the loop always finds a bin and leaves a balanced
partition. -/
theorem binDims_balanced (some : 1 ≤ numPqChunks) (fits : numPqChunks ≤ dim) :
    ∃ state, binDims dim numPqChunks = .some state ∧ Balanced dim numPqChunks state := by
  obtain ⟨state, done, bins⟩ := @binDims_spec dim numPqChunks some
  have offsets := chunkOffsets_eq some bins
  have identity : state.rearrangement numPqChunks = List.range dim := by
    rw [rearrangement, List.flatMap_congr fun bin member => bins bin (List.mem_range.mp member),
      flatMap_bins, start_last some]
  have columns : ∀ chunk < numPqChunks,
      trainColumns (state.chunkOffsets dim numPqChunks) chunk = state.binToDims chunk := by
    intro chunk within
    rw [trainColumns, chunkOffsets_getD some bins (Nat.succ_le_of_lt within),
      chunkOffsets_getD some bins within.le, start_succ, Nat.add_sub_cancel_left, bins chunk within,
      List.range'_eq_map_range]
  refine ⟨state, done, identity ▸ List.Perm.refl _, ?_, ?_, ?_, ?_, columns, ?_, ?_⟩
  · rw [offsets, List.length_map, List.length_range]
  · rw [offsets, List.head?_map, List.head?_range, if_neg (Nat.succ_ne_zero _), Option.map_some,
      start_zero]
  · rw [offsets, List.getLast?_map, List.getLast?_range, if_neg (Nat.succ_ne_zero _),
      Option.map_some, Nat.add_sub_cancel, start_last some]
  · rw [offsets]
    refine List.pairwise_lt_range.map _ fun first second before => ?_
    refine lt_of_lt_of_le ?_ (start_mono before)
    rw [start_succ]
    exact Nat.lt_add_of_pos_right (share_pos some fits first)
  · intro chunk within
    have ends := (@start_mono dim numPqChunks (chunk + 1) numPqChunks within).trans
      (start_last some).le
    rw [start_succ] at ends
    rw [columns chunk within, identity]
    refine (List.map_congr_left fun column member => ?_).trans (List.map_id _)
    rw [bins chunk within, List.mem_range'_1] at member
    rw [List.getD_eq_getElem?_getD, List.getElem?_range (by omega)]
    rfl
  · intro chunk within other inside
    rw [bins chunk within, bins other inside, List.length_range', List.length_range', share, share]
    split <;> split <;> omega

/-- Five dimensions in two chunks. -/
theorem binDims_five : ∃ state, binDims 5 2 = some state ∧ Balanced 5 2 state :=
  binDims_balanced (by decide) (by decide)

end BinState

end OdinVector
