/-
This file is about rounding to the nearest number of a binary floating-point format, ties to
even: how far away it is, and which it is where the exponent is known. Subnormal numbers have
the least exponent; that a number is too large for a format is left out.
-/

import Mathlib.Data.Int.Log
import Mathlib.Data.Rat.Floor
import Mathlib.Tactic.FieldSimp
import Mathlib.Tactic.Linarith
import Mathlib.Tactic.NormNum
import Mathlib.Tactic.Positivity
import Mathlib.Tactic.Ring

namespace OdinVector

/-! ### Rounding to an integer -/

/-- The nearest integer; of two, the even one. -/
def roundEven (q : ℚ) : ℤ :=
  if q - ⌊q⌋ < 1 / 2 then ⌊q⌋
  else if 1 / 2 < q - ⌊q⌋ then ⌊q⌋ + 1
  else if ⌊q⌋ % 2 = 0 then ⌊q⌋
  else ⌊q⌋ + 1

theorem abs_roundEven_sub_le (q : ℚ) : |(roundEven q : ℚ) - q| ≤ 1 / 2 := by
  have low := Int.floor_le q
  have high := Int.lt_floor_add_one q
  unfold roundEven
  rw [abs_le]
  split_ifs <;> push_cast <;> constructor <;> linarith

/-- An integer closer than a half is the nearest one. -/
theorem roundEven_eq {q : ℚ} {n : ℤ} (near : |q - n| < 1 / 2) : roundEven q = n := by
  have rounded := abs_le.mp (abs_roundEven_sub_le q)
  have between := abs_lt.mp near
  have above : ((roundEven q : ℤ) : ℚ) < (n + 1 : ℤ) := by
    push_cast
    linarith
  have below : ((n : ℤ) : ℚ) < (roundEven q + 1 : ℤ) := by
    push_cast
    linarith
  have above := Int.cast_lt.mp above
  have below := Int.cast_lt.mp below
  omega

/-! ### Formats -/

/-- A format: the binary digits of a significand, and the exponent of the least positive
number. -/
structure FloatFormat where
  digits : Nat
  lowest : Int

/-- `double`. -/
def binary64 : FloatFormat := ⟨53, -1074⟩

/-- `float`. -/
def binary32 : FloatFormat := ⟨24, -149⟩

namespace FloatFormat

variable (format : FloatFormat)

/-- The exponent of the last digit of a number. -/
def exponent (q : ℚ) : ℤ := max (Int.log 2 |q| + 1 - format.digits) format.lowest

/-- The nearest number of a format. -/
def nearest (q : ℚ) : ℚ := roundEven (q / 2 ^ format.exponent q) * 2 ^ format.exponent q

theorem nearest_zero : format.nearest 0 = 0 := by
  have zero : roundEven 0 = 0 := roundEven_eq (by norm_num)
  unfold nearest
  rw [zero_div, zero, Int.cast_zero, zero_mul]

variable {format} {q : ℚ}

theorem abs_nearest_sub_le_exponent :
    |format.nearest q - q| ≤ 2 ^ format.exponent q / 2 := by
  have positive : (0 : ℚ) < 2 ^ format.exponent q := zpow_pos two_pos _
  have scaled : format.nearest q - q =
      (roundEven (q / 2 ^ format.exponent q) - q / 2 ^ format.exponent q) *
        2 ^ format.exponent q := by
    unfold nearest
    field_simp
  rw [scaled, abs_mul, abs_of_pos positive]
  have error := abs_roundEven_sub_le (q / 2 ^ format.exponent q)
  calc |(roundEven (q / 2 ^ format.exponent q) : ℚ) - q / 2 ^ format.exponent q| *
        2 ^ format.exponent q ≤ 1 / 2 * 2 ^ format.exponent q :=
        mul_le_mul_of_nonneg_right error positive.le
    _ = 2 ^ format.exponent q / 2 := by ring

theorem exponent_eq {place : ℤ} (above : (2 : ℚ) ^ place ≤ q) (below : q < 2 ^ (place + 1))
    (normal : format.lowest ≤ place + 1 - format.digits) :
    format.exponent q = place + 1 - format.digits := by
  have positive : 0 < q := (zpow_pos two_pos place).trans_le above
  have log : Int.log 2 q = place := by
    have least := (Int.zpow_le_iff_le_log Nat.one_lt_two positive).mp (by exact_mod_cast above)
    have most := (Int.lt_zpow_iff_log_lt Nat.one_lt_two positive).mp (by exact_mod_cast below)
    omega
  unfold exponent
  rw [abs_of_pos positive, log, max_eq_left normal]

/-- The error of a normal number, relative to it. -/
theorem abs_nearest_sub_le (normal : (2 : ℚ) ^ (format.lowest + format.digits - 1) ≤ q) :
    |format.nearest q - q| ≤ q / 2 ^ format.digits := by
  have positive : 0 < q := (zpow_pos two_pos _).trans_le normal
  have above := Int.zpow_log_le_self Nat.one_lt_two positive
  have below := Int.lt_zpow_succ_log_self Nat.one_lt_two q
  have least := (Int.zpow_le_iff_le_log Nat.one_lt_two positive).mp (by exact_mod_cast normal)
  push_cast at above below
  have exponent := @exponent_eq format q _ above below (by omega)
  refine abs_nearest_sub_le_exponent.trans ?_
  rw [exponent, zpow_sub₀ two_ne_zero, zpow_add_one₀ two_ne_zero, zpow_natCast]
  calc (2 : ℚ) ^ Int.log 2 q * 2 / 2 ^ format.digits / 2 =
        2 ^ Int.log 2 q / 2 ^ format.digits := by ring
    _ ≤ q / 2 ^ format.digits := div_le_div_of_nonneg_right above (by positivity)

/-- The significand that is closer than a half is the one of the nearest number. -/
theorem nearest_eq {place significand : ℤ} (above : (2 : ℚ) ^ place ≤ q)
    (below : q < 2 ^ (place + 1)) (normal : format.lowest ≤ place + 1 - format.digits)
    (near : |q / 2 ^ (place + 1 - (format.digits : ℤ)) - significand| < 1 / 2) :
    format.nearest q = significand * 2 ^ (place + 1 - (format.digits : ℤ)) := by
  unfold nearest
  rw [exponent_eq above below normal, roundEven_eq near]

/-- A number of the format stays as it is. -/
theorem nearest_eq_self {significand : ℤ}
    (same : q = significand * 2 ^ format.exponent q) : format.nearest q = q := by
  have scaled : q / 2 ^ format.exponent q = significand :=
    (div_eq_iff (zpow_pos two_pos _).ne').mpr same
  have rounded : roundEven (q / 2 ^ format.exponent q) = significand := by
    rw [scaled]
    exact roundEven_eq (by rw [sub_self, abs_zero]; norm_num)
  unfold nearest
  rw [rounded]
  exact same.symm

/-- Integers of no more digits than the significand are numbers of the format. -/
theorem nearest_intCast {n : ℤ} (integers : format.lowest ≤ 0)
    (small : |n| < 2 ^ format.digits) : format.nearest n = n := by
  rcases eq_or_ne n 0 with rfl | some
  · rw [Int.cast_zero, nearest_zero]
  have positive : (0 : ℚ) < |(n : ℚ)| := abs_pos.mpr (Int.cast_ne_zero.mpr some)
  have log : Int.log 2 |(n : ℚ)| < format.digits := by
    refine (Int.lt_zpow_iff_log_lt Nat.one_lt_two positive).mp ?_
    rw [zpow_natCast]
    exact_mod_cast small
  have low : format.exponent n ≤ 0 := max_le (by omega) integers
  refine @nearest_eq_self format n (n * 2 ^ (-format.exponent n).toNat) ?_
  have shift : (2 : ℚ) ^ (-format.exponent n).toNat * 2 ^ format.exponent n = 1 := by
    rw [← zpow_natCast, Int.toNat_of_nonneg (by omega), ← zpow_add₀ two_ne_zero, neg_add_cancel,
      zpow_zero]
  push_cast
  rw [mul_assoc, shift, mul_one]

/-- So are the natural numbers. -/
theorem nearest_natCast {n : Nat} (integers : format.lowest ≤ 0) (small : n < 2 ^ format.digits) :
    format.nearest n = n := by
  have integer := @nearest_intCast format n integers (by
    rw [Nat.abs_cast]
    exact_mod_cast small)
  rwa [Int.cast_natCast] at integer

end FloatFormat

/-- The error of `double` for numbers that are far from subnormal. -/
theorem abs_binary64_sub_le_of_normal {q : ℚ} (normal : 1 / 2 ^ 200 ≤ q) :
    |binary64.nearest q - q| ≤ q / 2 ^ 53 := by
  refine FloatFormat.abs_nearest_sub_le (le_trans ?_ normal)
  rw [one_div, ← zpow_natCast, ← zpow_neg]
  exact zpow_le_zpow_right₀ one_le_two (by norm_num [binary64])

/-- The error of `double` from 1 on. -/
theorem abs_binary64_sub_le {q : ℚ} (one : 1 ≤ q) : |binary64.nearest q - q| ≤ q / 2 ^ 53 := by
  refine FloatFormat.abs_nearest_sub_le (le_trans ?_ one)
  exact zpow_le_one_of_nonpos₀ one_le_two (by norm_num [binary64])

end OdinVector
