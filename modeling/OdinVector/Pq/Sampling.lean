/-
This file models the `gen_random_slice` that samples into memory: the estimate for the array,
its growth, and the rows that are stored one after the other. A store outside the array ends
the run.

The arithmetic is that of `double`, rounded to nearest; the random numbers are arbitrary.
-/

import Mathlib.Algebra.Order.Floor.Semiring
import OdinVector.Build.ShardData
import OdinVector.Rounding

namespace OdinVector

open Binary

variable {Scalar : Type}

/-! ### The array -/

/-- The variables of the loop: the array, how many rows it was allocated for and how many it
has, and the reader. What nothing was stored to is `none`. -/
structure Slice (Scalar : Type) where
  sampledData : List (Option Scalar)
  expectedSamples : Nat
  actualSamples : Nat
  remaining : Bytes

/-- `current_row[d] = ...` for a row; `none` where it is not inside the array. -/
def storeRow : Nat → List Scalar → List (Option Scalar) → Option (List (Option Scalar))
  | _, [], sampledData => some sampledData
  | place, value :: row, sampledData =>
    if place < sampledData.length then
      storeRow (place + 1) row (sampledData.set place (some value))
    else none

/-- `expected_samples * 1.2`, truncated. -/
def newExpected (expectedSamples : Nat) : Nat :=
  ⌊binary64.nearest (expectedSamples * binary64.nearest (6 / 5))⌋₊

/-- `npts * p_val * 1.05`. -/
def estimate (npts : Nat) (pVal : ℚ) : ℚ :=
  binary64.nearest (binary64.nearest (npts * pVal) * binary64.nearest (21 / 20))

/-- `expected_samples` before the loop. -/
def expectedSamples (npts : Nat) (pVal : ℚ) : Nat :=
  if npts < ⌊estimate npts pVal⌋₊ then npts else ⌊estimate npts pVal⌋₊

/-- `p_val < 1 ? p_val : 1`. -/
def clampRate (pVal : ℚ) : ℚ := if pVal < 1 then pVal else 1

namespace Slice

/-- A full array gets a larger one, to which its rows are copied. -/
def grow (ndims : Nat) (slice : Slice Scalar) : Option (Slice Scalar) :=
  if slice.expectedSamples ≤ slice.actualSamples then
    let expected := newExpected slice.expectedSamples
    let copied := slice.actualSamples * ndims
    if copied ≤ expected * ndims ∧ copied ≤ slice.sampledData.length then
      some { slice with
        sampledData := slice.sampledData.take copied ++
          List.replicate (expected * ndims - copied) none
        expectedSamples := expected }
    else none
  else some slice

end Slice

/-! ### The loop -/

namespace VectorFile

variable (file : VectorFile) (toFloat : Bytes → Scalar)

/-- `cur_vector_T` as floats. -/
def floats (vector : Bytes) : List Scalar :=
  (List.range file.dim).map fun d =>
    toFloat ((vector.drop (d * file.sizeofT)).take file.sizeofT)

/-- A point: it is stored when it is drawn, else it is skipped. -/
def samplePoint (drawn : Prop) [Decidable drawn] (slice : Slice Scalar) :
    Option (Slice Scalar) :=
  if drawn then do
    let slice ← slice.grow file.dim
    let curVectorT := slice.remaining.take (file.dim * file.sizeofT)
    let sampledData ← storeRow (slice.actualSamples * file.dim) (file.floats toFloat curVectorT)
      slice.sampledData
    return { slice with
      sampledData := sampledData
      actualSamples := slice.actualSamples + 1
      remaining := slice.remaining.drop (file.dim * file.sizeofT) }
  else some { slice with remaining := slice.remaining.drop (file.dim * file.sizeofT) }

/-- What `gen_random_slice` gives: the array, `slice_size` and `ndims`. -/
structure Sampled (Scalar : Type) where
  sampledData : List (Option Scalar)
  sliceSize : Nat
  ndims : Nat

/-- `gen_random_slice` for the draws `rndVal`. -/
def genRandomSlice (pVal : ℚ) (rndVal : Nat → ℚ) : Option (Sampled Scalar) := do
  let rate := clampRate pVal
  let expected := expectedSamples file.npts rate
  let slice ← (List.range file.npts).foldlM
    (fun slice i => file.samplePoint toFloat (rndVal i < binary32.nearest rate) slice)
    ⟨List.replicate (expected * file.dim) none, expected, 0, file.elements⟩
  if slice.actualSamples = 0 then
    let curVectorT := file.elements.take (file.dim * file.sizeofT)
    let sampledData ← storeRow 0 (file.floats toFloat curVectorT) slice.sampledData
    return ⟨sampledData, 1, file.dim⟩
  return ⟨slice.sampledData, slice.actualSamples, file.dim⟩

end VectorFile

/-! ### A row -/

theorem storeRow_eq {row : List Scalar} {place : Nat} {sampledData : List (Option Scalar)}
    (inside : place + row.length ≤ sampledData.length) :
    storeRow place row sampledData = some (sampledData.take place ++ row.map some ++
      sampledData.drop (place + row.length)) := by
  induction row generalizing place sampledData with
  | nil => rw [storeRow, List.map_nil, List.append_nil, List.length_nil, Nat.add_zero,
      List.take_append_drop]
  | cons value row inductionHypothesis =>
    rw [List.length_cons] at inside
    have first : place < sampledData.length := by omega
    rw [storeRow, if_pos first, inductionHypothesis (by rw [List.length_set]; omega)]
    have front : (sampledData.set place (some value)).take (place + 1) =
        sampledData.take place ++ [some value] := by
      rw [List.take_succ_eq_append_getElem (by rw [List.length_set]; exact first),
        List.take_set_of_le (Nat.le_refl _), List.getElem_set_self]
    rw [front, List.drop_set_of_lt (by omega), List.map_cons, List.length_cons,
      (by omega : place + 1 + row.length = place + (row.length + 1)), List.append_assoc _ [_]]
    rfl

/-- A row that does not fit is not stored. -/
theorem storeRow_none {row : List Scalar} {place : Nat} {sampledData : List (Option Scalar)}
    (start : place ≤ sampledData.length) (outside : sampledData.length < place + row.length) :
    storeRow place row sampledData = none := by
  induction row generalizing place sampledData with
  | nil => exact absurd outside (Nat.not_lt.mpr start)
  | cons value row inductionHypothesis =>
    rw [List.length_cons] at outside
    rw [storeRow]
    split
    · refine inductionHypothesis ?_ ?_ <;> rw [List.length_set] <;> omega
    · rfl

/-! ### The growth -/

theorem double_sixFifths : binary64.nearest (6 / 5) = 5404319552844595 / 2 ^ 52 := by
  have value := @FloatFormat.nearest_eq binary64 (6 / 5) 0 5404319552844595 (by norm_num)
    (by norm_num) (by norm_num [binary64]) (by norm_num [binary64, abs_lt])
  rw [value]
  norm_num [binary64]

/-- What the product is before it is truncated. -/
theorem abs_growth_sub_le {expected : Nat} (some : 1 ≤ expected) :
    |binary64.nearest (expected * binary64.nearest (6 / 5)) - 6 / 5 * expected| ≤
      expected / 2 ^ 50 := by
  have one : (1 : ℚ) ≤ expected := by exact_mod_cast some
  rw [double_sixFifths]
  have error := @abs_binary64_sub_le (expected * (5404319552844595 / 2 ^ 52)) (by linarith)
  rw [abs_le] at error ⊢
  constructor <;> linarith

/-- Up to four rows the array does not become larger. -/
theorem newExpected_of_le {expected : Nat} (few : expected ≤ 4) :
    newExpected expected = expected := by
  unfold newExpected
  obtain rfl | some := Nat.eq_zero_or_pos expected
  · rw [Nat.cast_zero, zero_mul, FloatFormat.nearest_zero, Nat.floor_zero]
  · have error := abs_le.mp (abs_growth_sub_le some)
    have one : (1 : ℚ) ≤ expected := by exact_mod_cast some
    have four : (expected : ℚ) ≤ 4 := by exact_mod_cast few
    refine (Nat.floor_eq_iff (by linarith)).mpr ⟨by linarith, by linarith⟩

/-- From five rows on there is room for another one. -/
theorem lt_newExpected {expected : Nat} (several : 5 ≤ expected) :
    expected < newExpected expected := by
  refine Nat.le_floor ?_
  push_cast
  obtain rfl | more := several.eq_or_lt
  · -- 5 * 1.2 lies below 6 by less than a half of the last digit
    have six := @FloatFormat.nearest_eq binary64 ((5 : Nat) * binary64.nearest (6 / 5)) 2
      6755399441055744 (by rw [double_sixFifths]; norm_num) (by rw [double_sixFifths]; norm_num)
      (by norm_num [binary64]) (by rw [double_sixFifths]; norm_num [binary64, abs_lt])
    rw [six]
    norm_num [binary64]
  · have error := abs_le.mp (abs_growth_sub_le (by omega : 1 ≤ expected))
    have six : (6 : ℚ) ≤ expected := by exact_mod_cast more
    linarith

theorem le_newExpected (expected : Nat) : expected ≤ newExpected expected := by
  by_cases few : expected ≤ 4
  · exact (newExpected_of_le few).ge
  · exact (lt_newExpected (by omega)).le

/-! ### The array in the loop -/

namespace VectorFile

variable {file : VectorFile} {toFloat : Bytes → Scalar} {expected : Nat} {chosen : List Nat}

/-- The row of a point. -/
def sampleRow (file : VectorFile) (toFloat : Bytes → Scalar) (id : Nat) : List Scalar :=
  file.floats toFloat (file.vector id)

/-- Before a point: the array has the rows of the chosen ones, and room for them. -/
structure Samples (file : VectorFile) (toFloat : Bytes → Scalar) (expected count : Nat)
    (chosen : List Nat) (slice : Slice Scalar) : Prop where
  reader : slice.remaining = file.elements.drop (count * (file.dim * file.sizeofT))
  actual : slice.actualSamples = chosen.length
  allocated : slice.sampledData.length = slice.expectedSamples * file.dim
  room : chosen.length * file.dim ≤ slice.expectedSamples * file.dim
  stored : slice.sampledData.take (chosen.length * file.dim) =
    (chosen.flatMap (file.sampleRow toFloat)).map some
  least : expected ≤ slice.expectedSamples
  kept : expected ≤ 4 → slice.expectedSamples = expected

theorem length_floats (vector : Bytes) : (file.floats toFloat vector).length = file.dim := by
  rw [floats, List.length_map, List.length_range]

variable {count : Nat} {slice : Slice Scalar} {drawn : Prop} [Decidable drawn]

theorem Samples.start (file : VectorFile) (toFloat : Bytes → Scalar) (expected : Nat) :
    file.Samples toFloat expected 0 []
      ⟨List.replicate (expected * file.dim) none, expected, 0, file.elements⟩ where
  reader := by rw [Nat.zero_mul, List.drop_zero]
  actual := rfl
  allocated := List.length_replicate
  room := by rw [List.length_nil, Nat.zero_mul]; exact Nat.zero_le _
  stored := by rw [List.length_nil, Nat.zero_mul, List.take_zero]; rfl
  least := Nat.le_refl _
  kept _ := rfl

/-- A point that is not drawn changes nothing of the array. -/
theorem Samples.skip (samples : file.Samples toFloat expected count chosen slice)
    (skipped : ¬ drawn) : ∃ next, file.samplePoint toFloat drawn slice = some next ∧
      file.Samples toFloat expected (count + 1) chosen next := by
  refine ⟨_, if_neg skipped, { samples with reader := ?_ }⟩
  dsimp only
  rw [samples.reader, List.drop_drop, Nat.succ_mul]

/-- The array has room for one more row after it grew, unless it is full and small. -/
theorem Samples.grow (samples : file.Samples toFloat expected count chosen slice)
    (grows : file.dim = 0 ∨ chosen.length < expected ∨ 5 ≤ expected) :
    ∃ next, slice.grow file.dim = some next ∧
      file.Samples toFloat expected count chosen next ∧
      (chosen.length + 1) * file.dim ≤ next.expectedSamples * file.dim := by
  have least := samples.least
  unfold Slice.grow
  rw [samples.actual]
  split
  · rename_i full
    have more := le_newExpected slice.expectedSamples
    have larger := samples.room.trans (Nat.mul_le_mul_right file.dim more)
    have copied : chosen.length * file.dim ≤ slice.sampledData.length :=
      samples.room.trans_eq samples.allocated.symm
    dsimp only
    rw [if_pos ⟨larger, copied⟩]
    refine ⟨_, rfl, ⟨samples.reader, rfl, ?_, larger, ?_, least.trans more,
      fun few => ?_⟩, ?_⟩
    · rw [List.length_append, List.length_take, List.length_replicate, Nat.min_eq_left copied,
        Nat.add_sub_cancel' larger]
    · rw [List.take_left' (by rw [List.length_take, Nat.min_eq_left copied])]
      exact samples.stored
    · have kept := samples.kept few
      dsimp only
      rw [kept, newExpected_of_le few]
    · dsimp only
      obtain flat | below | several := grows
      · rw [flat, Nat.mul_zero, Nat.mul_zero]
      · exact absurd full (by omega)
      · obtain flat | positive := Nat.eq_zero_or_pos file.dim
        · rw [flat, Nat.mul_zero, Nat.mul_zero]
        · have fits := Nat.le_of_mul_le_mul_right samples.room positive
          have larger := lt_newExpected (several.trans least)
          exact Nat.mul_le_mul_right _ (by omega)
  · rename_i free
    exact ⟨slice, rfl, samples, Nat.mul_le_mul_right _ (by omega)⟩

/-- A drawn point is stored behind the others. -/
theorem Samples.draw (samples : file.Samples toFloat expected count chosen slice)
    (grows : file.dim = 0 ∨ chosen.length < expected ∨ 5 ≤ expected) (taken : drawn) :
    ∃ next, file.samplePoint toFloat drawn slice = some next ∧
      file.Samples toFloat expected (count + 1) (chosen ++ [count]) next := by
  obtain ⟨grown, done, samples, room⟩ := samples.grow grows
  have row : grown.remaining.take (file.dim * file.sizeofT) = file.vector count := by
    rw [samples.reader]
    rfl
  have inside : chosen.length * file.dim + (file.sampleRow toFloat count).length ≤
      grown.sampledData.length := by
    rw [sampleRow, length_floats, samples.allocated, ← Nat.succ_mul]
    exact room
  have store := storeRow_eq inside
  have front : (grown.sampledData.take (chosen.length * file.dim)).length =
      chosen.length * file.dim := by
    rw [List.length_take, Nat.min_eq_left ((Nat.le_add_right _ _).trans inside)]
  rw [sampleRow, length_floats] at inside
  have length : (chosen ++ [count]).length = chosen.length + 1 := List.length_append
  unfold samplePoint
  rw [if_pos taken, done]
  dsimp only [bind, Option.bind]
  rw [row, samples.actual]
  unfold sampleRow at store
  rw [store]
  refine ⟨_, rfl, ⟨?_, ?_, ?_, ?_, ?_, samples.least, samples.kept⟩⟩
  · dsimp only
    rw [samples.reader, List.drop_drop, Nat.succ_mul]
  · exact length.symm
  · dsimp only
    rw [List.length_append, List.length_append, front, List.length_map, List.length_drop,
      length_floats, ← samples.allocated]
    omega
  · rw [length]
    exact room
  · dsimp only
    rw [length, Nat.succ_mul, List.take_left' (by
      rw [List.length_append, front, List.length_map, length_floats]), samples.stored,
      List.flatMap_append, List.flatMap_singleton, List.map_append]
    rfl

/-- A point that is drawn for a full and small array is stored outside. -/
theorem Samples.overrun (samples : file.Samples toFloat expected count chosen slice)
    (row : 0 < file.dim) (few : expected ≤ 4) (full : chosen.length = expected) (taken : drawn) :
    file.samplePoint toFloat drawn slice = none := by
  have kept := samples.kept few
  have length := samples.allocated
  rw [kept] at length
  have copied : expected * file.dim ≤ expected * file.dim ∧
      expected * file.dim ≤ slice.sampledData.length := ⟨Nat.le_refl _, length.ge⟩
  unfold samplePoint Slice.grow
  rw [if_pos taken, samples.actual, full, kept, if_pos (Nat.le_refl _)]
  dsimp only [bind, Option.bind]
  rw [newExpected_of_le few, if_pos copied, Nat.sub_self, List.replicate_zero, List.append_nil]
  dsimp only
  rw [storeRow_none] <;> rw [List.length_take, Nat.min_eq_left length.ge]
  rw [length_floats]
  omega

/-! ### All points -/

/-- The points that are drawn among the first ones. -/
def drawnIds (pVal : ℚ) (rndVal : Nat → ℚ) (count : Nat) : List Nat :=
  (List.range count).filter fun i => rndVal i < binary32.nearest (clampRate pVal)

/-- The loop over the first points. -/
def sampleRun (file : VectorFile) (toFloat : Bytes → Scalar) (pVal : ℚ) (rndVal : Nat → ℚ)
    (expected count : Nat) : Option (Slice Scalar) :=
  (List.range count).foldlM (fun slice i =>
      file.samplePoint toFloat (rndVal i < binary32.nearest (clampRate pVal)) slice)
    ⟨List.replicate (expected * file.dim) none, expected, 0, file.elements⟩

variable {pVal : ℚ} {rndVal : Nat → ℚ}

theorem sampleRun_succ (expected count : Nat) :
    file.sampleRun toFloat pVal rndVal expected (count + 1) =
      (file.sampleRun toFloat pVal rndVal expected count).bind fun slice =>
        file.samplePoint toFloat (rndVal count < binary32.nearest (clampRate pVal)) slice := by
  unfold sampleRun
  rw [List.range_succ, List.foldlM_append]
  refine congrArg _ (funext fun slice => ?_)
  rw [List.foldlM_cons]
  exact bind_pure _

theorem drawnIds_succ (count : Nat) :
    drawnIds pVal rndVal (count + 1) = drawnIds pVal rndVal count ++
      if rndVal count < binary32.nearest (clampRate pVal) then [count] else [] := by
  unfold drawnIds
  rw [List.range_succ, List.filter_append]
  split
  · rename_i taken
    rw [List.filter_cons_of_pos (by simpa using taken), List.filter_nil]
  · rename_i skipped
    rw [List.filter_cons_of_neg (by simpa using skipped), List.filter_nil]

/-- While the array has room or can grow, the drawn points are stored. -/
theorem sampleRun_samples (grows : file.dim = 0 ∨
      (drawnIds pVal rndVal count).length ≤ expected ∨ 5 ≤ expected) :
    ∃ slice, file.sampleRun toFloat pVal rndVal expected count = some slice ∧
      file.Samples toFloat expected count (drawnIds pVal rndVal count) slice := by
  induction count with
  | zero => exact ⟨_, rfl, Samples.start file toFloat expected⟩
  | succ count inductionHypothesis =>
    rw [drawnIds_succ] at grows ⊢
    rw [List.length_append] at grows
    obtain ⟨slice, done, samples⟩ := inductionHypothesis
      (grows.imp_right (Or.imp_left (le_trans (Nat.le_add_right _ _))))
    rw [sampleRun_succ, done, Option.bind_some]
    split at grows
    · rename_i taken
      rw [if_pos taken]
      exact samples.draw grows taken
    · rename_i skipped
      rw [if_neg skipped, List.append_nil]
      exact samples.skip skipped

/-- A small array is overrun by the first point for which it has no room. -/
theorem sampleRun_overruns (row : 0 < file.dim) (few : expected ≤ 4)
    (more : expected < (drawnIds pVal rndVal count).length) :
    file.sampleRun toFloat pVal rndVal expected count = none := by
  induction count with
  | zero => exact absurd more (Nat.not_lt_zero _)
  | succ count inductionHypothesis =>
    rw [sampleRun_succ]
    by_cases before : expected < (drawnIds pVal rndVal count).length
    · rw [inductionHypothesis before, Option.bind_none]
    · rw [drawnIds_succ, List.length_append] at more
      split at more
      · rename_i taken
        rw [List.length_singleton] at more
        obtain ⟨slice, done, samples⟩ := @sampleRun_samples _ file toFloat _ _ _ _
          (.inr (.inl (Nat.not_lt.mp before)))
        rw [done, Option.bind_some]
        exact samples.overrun row few (by omega) taken
      · exact absurd more before

/-! ### The sample -/

/-- The points of the sample: the drawn ones, or the first one. -/
def sampleIds (pVal : ℚ) (rndVal : Nat → ℚ) (npts : Nat) : List Nat :=
  if drawnIds pVal rndVal npts = [] then [0] else drawnIds pVal rndVal npts

/-- The sample is the rows of its points, in order. -/
structure Sampled.Exact (file : VectorFile) (toFloat : Bytes → Scalar) (ids : List Nat)
    (sampled : Sampled Scalar) : Prop where
  sliceSize : sampled.sliceSize = ids.length
  ndims : sampled.ndims = file.dim
  rows : sampled.sampledData.take (sampled.sliceSize * sampled.ndims) =
    (ids.flatMap (file.sampleRow toFloat)).map some

theorem expectedSamples_eq (npts : Nat) (pVal : ℚ) :
    expectedSamples npts pVal = min npts ⌊estimate npts pVal⌋₊ := by
  unfold expectedSamples
  split <;> omega

theorem length_drawnIds_le (npts : Nat) : (drawnIds pVal rndVal npts).length ≤ npts :=
  (List.length_filter_le _ _).trans_eq List.length_range

/-- `gen_random_slice` in terms of its loop. -/
theorem genRandomSlice_eq (file : VectorFile) (toFloat : Bytes → Scalar) (pVal : ℚ)
    (rndVal : Nat → ℚ) :
    file.genRandomSlice toFloat pVal rndVal =
      (file.sampleRun toFloat pVal rndVal (expectedSamples file.npts (clampRate pVal))
        file.npts).bind fun slice =>
        if slice.actualSamples = 0 then
          (storeRow 0 (file.sampleRow toFloat 0) slice.sampledData).map fun sampledData =>
            ⟨sampledData, 1, file.dim⟩
        else some ⟨slice.sampledData, slice.actualSamples, file.dim⟩ := by
  unfold genRandomSlice sampleRun sampleRow vector
  dsimp only
  rw [Nat.zero_mul, List.drop_zero, Option.bind_eq_bind]
  refine congrArg _ (funext fun slice => ?_)
  split
  · cases storeRow 0 _ slice.sampledData <;> rfl
  · rfl

/-- The sample is taken within the array. -/
theorem exists_sampled (within : file.dim = 0 ∨
      (drawnIds pVal rndVal file.npts).length ≤ expectedSamples file.npts (clampRate pVal) ∨
      5 ≤ expectedSamples file.npts (clampRate pVal))
    (first : file.dim = 0 ∨ (drawnIds pVal rndVal file.npts = [] →
      1 ≤ expectedSamples file.npts (clampRate pVal))) :
    ∃ sampled, file.genRandomSlice toFloat pVal rndVal = some sampled ∧
      sampled.Exact file toFloat (sampleIds pVal rndVal file.npts) := by
  obtain ⟨slice, done, samples⟩ := @sampleRun_samples _ file toFloat _ _ _ _ within
  have actual := samples.actual
  rw [genRandomSlice_eq, done, Option.bind_some]
  unfold sampleIds
  split
  · rename_i zero
    have none : drawnIds pVal rndVal file.npts = [] :=
      List.eq_nil_of_length_eq_zero (actual.symm.trans zero)
    have inside : 0 + (file.sampleRow toFloat 0).length ≤ slice.sampledData.length := by
      rw [sampleRow, length_floats, Nat.zero_add, samples.allocated]
      obtain flat | some := first
      · rw [flat, Nat.mul_zero]
      · exact Nat.le_mul_of_pos_left _ ((some none).trans samples.least)
    rw [if_pos none, storeRow_eq inside]
    refine ⟨_, rfl, ⟨rfl, rfl, ?_⟩⟩
    dsimp only
    rw [Nat.one_mul, List.take_zero, List.nil_append, List.flatMap_singleton, List.take_left' (by
      rw [List.length_map, sampleRow, length_floats])]
  · rename_i some
    rw [if_neg fun none => some (actual.trans (congrArg List.length none))]
    refine ⟨_, rfl, ⟨actual, rfl, ?_⟩⟩
    dsimp only
    rw [actual]
    exact samples.stored

/-- Else a row is stored outside the array. -/
theorem genRandomSlice_none (row : 0 < file.dim)
    (outside : expectedSamples file.npts (clampRate pVal) ≤ 4 ∧
        expectedSamples file.npts (clampRate pVal) < (drawnIds pVal rndVal file.npts).length ∨
      drawnIds pVal rndVal file.npts = [] ∧ expectedSamples file.npts (clampRate pVal) = 0) :
    file.genRandomSlice toFloat pVal rndVal = none := by
  rw [genRandomSlice_eq]
  obtain ⟨few, more⟩ | ⟨none, zero⟩ := outside
  · rw [sampleRun_overruns row few more, Option.bind_none]
  · have short : (drawnIds pVal rndVal file.npts).length ≤
        expectedSamples file.npts (clampRate pVal) := by
      rw [none]
      exact Nat.zero_le _
    obtain ⟨slice, done, samples⟩ := @sampleRun_samples _ file toFloat _ _ _ _
      (.inr (.inl short))
    have actual := samples.actual
    have length := samples.allocated
    rw [none, List.length_nil] at actual
    rw [samples.kept (by omega), zero, Nat.zero_mul] at length
    rw [done, Option.bind_some, if_pos actual, storeRow_none (Nat.zero_le _), Option.map_none]
    rw [length, sampleRow, length_floats, Nat.zero_add]
    exact row

theorem le_expectedSamples_iff {npts bound : Nat} (positive : 0 < bound) :
    bound ≤ expectedSamples npts pVal ↔ bound ≤ npts ∧ (bound : ℚ) ≤ estimate npts pVal := by
  rw [expectedSamples_eq, Nat.le_min, Nat.le_floor_iff' positive.ne']

/-- The sample is taken within the array exactly when the estimate allows for the points that
are drawn, or for five, and for one where none is drawn. -/
theorem genRandomSlice_exact_iff (file : VectorFile) (toFloat : Bytes → Scalar) (pVal : ℚ)
    (rndVal : Nat → ℚ) :
    (∃ sampled, file.genRandomSlice toFloat pVal rndVal = some sampled ∧
        sampled.Exact file toFloat (sampleIds pVal rndVal file.npts)) ↔
      file.dim = 0 ∨
        (((drawnIds pVal rndVal file.npts).length ≤ estimate file.npts (clampRate pVal) ∨
            5 ≤ estimate file.npts (clampRate pVal)) ∧
          (drawnIds pVal rndVal file.npts = [] →
            0 < file.npts ∧ 1 ≤ estimate file.npts (clampRate pVal))) := by
  have positive {bound : Nat} (one : 0 < bound) := @le_expectedSamples_iff
    (clampRate pVal) file.npts bound one
  have most := @length_drawnIds_le pVal rndVal file.npts
  obtain flat | row := Nat.eq_zero_or_pos file.dim
  · exact iff_of_true (exists_sampled (.inl flat) (.inl flat)) (.inl flat)
  constructor
  · rintro ⟨sampled, done, -⟩
    have inside : ∀ outside, False := fun outside => by
      rw [@genRandomSlice_none _ file toFloat pVal rndVal row outside] at done
      cases done
    have one : drawnIds pVal rndVal file.npts = [] →
        1 ≤ expectedSamples file.npts (clampRate pVal) := fun none =>
      Nat.pos_of_ne_zero fun zero => inside (.inr ⟨none, zero⟩)
    refine .inr ⟨?_, fun none => ⟨((positive Nat.one_pos).mp (one none)).1,
      by exact_mod_cast ((positive Nat.one_pos).mp (one none)).2⟩⟩
    by_cases five : 5 ≤ expectedSamples file.npts (clampRate pVal)
    · exact .inr ((positive (by omega)).mp five).2
    · have enough : (drawnIds pVal rndVal file.npts).length ≤
          expectedSamples file.npts (clampRate pVal) :=
        Nat.not_lt.mp fun more => inside (.inl ⟨by omega, more⟩)
      refine .inl ?_
      obtain none | some := Nat.eq_zero_or_pos (drawnIds pVal rndVal file.npts).length
      · have bound := ((positive Nat.one_pos).mp (one (List.eq_nil_of_length_eq_zero none))).2
        rw [none, Nat.cast_zero]
        exact zero_le_one.trans (by exact_mod_cast bound)
      · exact ((positive some).mp enough).2
  · rintro (flat | ⟨enough, one⟩)
    · exact absurd flat row.ne'
    refine exists_sampled (.inr ?_) (.inr fun none => (positive Nat.one_pos).mpr
      ⟨(one none).1, by exact_mod_cast (one none).2⟩)
    by_cases five : 5 ≤ expectedSamples file.npts (clampRate pVal)
    · exact .inr five
    refine .inl ?_
    obtain none | some := Nat.eq_zero_or_pos (drawnIds pVal rndVal file.npts).length
    · exact none.trans_le (Nat.zero_le _)
    · refine (positive some).mpr ⟨most, enough.elim id fun estimate => ?_⟩
      -- the file has less than five points, else the array had room for five
      have few : ¬ 5 ≤ file.npts := fun many =>
        five ((positive (by omega)).mpr ⟨many, by exact_mod_cast estimate⟩)
      have less : ((drawnIds pVal rndVal file.npts).length : ℚ) ≤ (5 : Nat) := by
        exact_mod_cast (by omega : (drawnIds pVal rndVal file.npts).length ≤ 5)
      exact less.trans (by exact_mod_cast estimate)

/-- A file of 16 points with one element. -/
def sixteenPoints : VectorFile :=
  ⟨16, 1, 4, List.replicate 64 0, Nat.le_of_ble_eq_true rfl, one_lt_word,
    List.length_replicate⟩

/-- The first three points are drawn for an eighth. -/
def firstThree (i : Nat) : ℚ := if i < 3 then 0 else 1 / 2

theorem drawnIds_firstThree : drawnIds (1 / 8) firstThree 16 = [0, 1, 2] := by
  have clamp : clampRate (1 / 8) = 1 / 8 := if_pos (by norm_num)
  have rate : binary32.nearest (1 / 8) = 1 / 8 := by
    have value := @FloatFormat.nearest_eq binary32 (1 / 8) (-3) (2 ^ 23) (by norm_num)
      (by norm_num) (by norm_num [binary32]) (by norm_num [binary32])
    rw [value]
    norm_num [binary32]
  have drawn (i : Nat) : firstThree i < 1 / 8 ↔ i < 3 := by
    unfold firstThree
    split <;> rename_i side
    · exact iff_of_true (by norm_num) side
    · exact iff_of_false (by norm_num) side
  unfold drawnIds
  rw [clamp, rate]
  simp only [drawn]
  rfl

theorem estimate_sixteen : estimate 16 (1 / 8) < 3 := by
  have two := abs_le.mp (@abs_binary64_sub_le ((16 : Nat) * (1 / 8)) (by norm_num))
  have rate := abs_le.mp (@abs_binary64_sub_le (21 / 20) (by norm_num))
  unfold estimate
  generalize binary64.nearest ((16 : Nat) * (1 / 8)) = first at two ⊢
  generalize binary64.nearest (21 / 20) = second at rate ⊢
  norm_num at two rate
  have product : first * second ≤ 11 / 5 * (11 / 10) :=
    mul_le_mul (by linarith) (by linarith) (by linarith) (by norm_num)
  have least : 1 * 1 ≤ first * second :=
    mul_le_mul (by linarith) (by linarith) zero_le_one (by linarith)
  have error := abs_le.mp (@abs_binary64_sub_le (first * second) (by linarith))
  linarith

/-- The array for two points does not grow for a third one. -/
theorem genRandomSlice_third :
    ¬ ∃ sampled, sixteenPoints.genRandomSlice (fun bytes => bytes) (1 / 8) firstThree =
        some sampled ∧
      sampled.Exact sixteenPoints (fun bytes => bytes) (sampleIds (1 / 8) firstThree 16) := by
  have clamp : clampRate (1 / 8) = 1 / 8 := if_pos (by norm_num)
  have two : expectedSamples 16 (1 / 8) ≤ 2 := by
    refine Nat.le_of_not_lt fun three => ?_
    have three := ((@le_expectedSamples_iff (1 / 8) 16 3 (by norm_num)).mp three).2
    have less := estimate_sixteen
    push_cast at three
    linarith
  have drawn : (drawnIds (1 / 8) firstThree 16).length = 3 := by
    rw [drawnIds_firstThree]
    rfl
  have none : sixteenPoints.genRandomSlice (fun bytes => bytes) (1 / 8) firstThree = none := by
    refine genRandomSlice_none Nat.one_pos (.inl ?_)
    rw [clamp]
    show expectedSamples 16 (1 / 8) ≤ 4 ∧
      expectedSamples 16 (1 / 8) < (drawnIds (1 / 8) firstThree 16).length
    omega
  rintro ⟨sampled, done, -⟩
  rw [none] at done
  cases done

end VectorFile

end OdinVector
