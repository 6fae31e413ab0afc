/-
This file models the squared Euclidean distances of the index in their builds: with AVX-512,
with AVX2, and plain. The sums of bytes are rounded as `float` rounds them. The sums of `float`
coordinates are in exact arithmetic: a rounded sum depends on the order, which the compiler may
change.

As long as a distance is below 2^24 the builds agree on bytes. On `float` the AVX2 build leaves out
what is behind the last whole group of 8 coordinates, and counts the groups in 16 bits.
-/

import OdinVector.Registers
import Mathlib.Tactic.Ring

namespace OdinVector

open Finset Register

/-! ### The loops with AVX-512 -/

section Lanes

variable {Value : Type*} (plus : Value → Value → Value) (zero : Value) (width : Nat)
  (exec512 exec256 exec128 : Nat → Nat → Value)

/-- The three loops of `REPEAT`, on vectors with `width` coordinates in 128 bits. A loop takes
its place in the vectors and adds up what `exec` gives for it. -/
def sumLanes (length : Nat) : Value :=
  let pEnd512 := length / (4 * width) * (4 * width)
  let pEnd256 := length / (2 * width) * (2 * width)
  let pEnd128 := length / width * width
  let diff512 := whileBelow pEnd512 (4 * width)
    (fun diff pX lane => plus (diff lane) (exec512 pX lane)) 0 fun _ => zero
  let diff256 := fun lane => plus (diff512 lane) (diff512 (lane + 8))
  let diff256 := whileBelow pEnd256 (2 * width)
    (fun diff pX lane => plus (diff lane) (exec256 pX lane)) pEnd512 diff256
  let diff128 := fun lane => plus (diff256 lane) (diff256 (lane + 4))
  let diff128 := whileBelow pEnd128 width
    (fun diff pX lane => plus (diff lane) (exec128 pX lane)) pEnd256 diff128
  plus (plus (plus (diff128 0) (diff128 1)) (diff128 2)) (diff128 3)

variable {plus zero width exec512 exec256 exec128} {Number : Type*} [AddCommMonoid Number]
  {embed : Number → Value} {Small : Number → Prop} {term : Nat → Number}

/-- The end of a loop is some rounds behind the end of the one with twice as much in a round. -/
theorem end_of_half (length width : Nat) :
    length / width * width = length / (2 * width) * (2 * width) + length / width % 2 * width := by
  rw [Nat.mul_comm 2 width, ← Nat.div_div_eq_div_mul, Nat.mul_comm width 2, ← Nat.mul_assoc,
    ← Nat.add_mul, Nat.div_add_mod']

theorem sumLanes_eq (isExact : ExactAddition plus embed Small) (isZero : embed 0 = zero)
    (positive : 0 < width)
    (is512 : ∀ pX, LanesHold embed 16 (exec512 pX) (∑ index ∈ range (4 * width), term (pX + index)))
    (is256 : ∀ pX, LanesHold embed 8 (exec256 pX) (∑ index ∈ range (2 * width), term (pX + index)))
    (is128 : ∀ pX, LanesHold embed 4 (exec128 pX) (∑ index ∈ range width, term (pX + index)))
    {length : Nat} (small : Small (∑ index ∈ range length, term index)) :
    sumLanes plus zero width exec512 exec256 exec128 length =
      embed (∑ index ∈ range (length / width * width), term index) := by
  have prefixSmall : ∀ {stop}, stop ≤ length → Small (∑ index ∈ range stop, term index) := by
    intro stop within
    obtain ⟨rest, rfl⟩ := Nat.exists_eq_add_of_le within
    rw [sum_range_add] at small
    exact isExact.left small
  have end512 : length / (4 * width) * (4 * width) = 0 + length / (4 * width) * (4 * width) :=
    (Nat.zero_add _).symm
  have end256 : length / (2 * width) * (2 * width) =
      length / (4 * width) * (4 * width) + length / (2 * width) % 2 * (2 * width) := by
    have four : 4 * width = 2 * (2 * width) := Nat.mul_assoc 2 2 width
    rw [four]
    exact end_of_half length (2 * width)
  have small512 := prefixSmall (Nat.div_mul_le_self length (4 * width))
  have small256 := prefixSmall (Nat.div_mul_le_self length (2 * width))
  have small128 := prefixSmall (Nat.div_mul_le_self length width)
  have start : LanesHold embed 16 (fun _ => zero) (∑ index ∈ range 0, term index) :=
    ⟨fun _ => 0, fun _ _ => isZero.symm, sum_const_zero⟩
  rw [end512] at small512
  have lanes512 := start.loop isExact (Nat.mul_pos (by decide) positive) is512 small512
  rw [← end512] at lanes512 small512
  have lanes256 := lanes512.halve isExact 8 small512
  rw [end256] at small256
  replace lanes256 := lanes256.loop isExact (Nat.mul_pos (by decide) positive) is256 small256
  rw [← end256] at lanes256 small256
  have lanes128 := lanes256.halve isExact 4 small256
  rw [end_of_half length width] at small128 ⊢
  replace lanes128 := lanes128.loop isExact positive is128 small128
  rw [← end_of_half length width] at lanes128 small128 ⊢
  exact lanes128.add_four isExact small128

end Lanes

/-! ### Bytes -/

section Bytes

/-- `float` arithmetic. -/
def addPs (a b : ℚ) : ℚ := binary32.nearest (a + b)

def subPs (a b : ℚ) : ℚ := binary32.nearest (a - b)

def mulPs (a b : ℚ) : ℚ := binary32.nearest (a * b)

/-- `loadu`. -/
def loadu (memory : Nat → BitVec 8) (place : Nat) : Register := fun byte => memory (place + byte)

/-- `_mm_sqdf_epi8`. -/
def mmSqdfEpi8 (x y : Register) : Nat → ℚ := sqdf (cmpltEpi8 x setzero) (cmpltEpi8 y setzero) x y

/-- `_mm256_sqdf_epi8`. -/
def mm256SqdfEpi8 (x y : Register) : Nat → ℚ :=
  sqdf (cmpgtEpi8 setzero x) (cmpgtEpi8 setzero y) x y

/-- `_mm512_sqdf_epi8`. -/
def mm512SqdfEpi8 (x y : Register) : Nat → ℚ :=
  sqdf (movmEpi8 (cmpgtEpi8Mask setzero x)) (movmEpi8 (cmpgtEpi8Mask setzero y)) x y

/-- `_mm_sqdf_epu8`. -/
def mmSqdfEpu8 (x y : Register) : Nat → ℚ := sqdf setzero setzero x y

/-- `_mm256_sqdf_epu8`. -/
def mm256SqdfEpu8 (x y : Register) : Nat → ℚ := sqdf setzero setzero x y

/-- `_mm512_sqdf_epu8`. -/
def mm512SqdfEpu8 (x y : Register) : Nat → ℚ := sqdf setzero setzero x y

/-- The `compare` of bytes with AVX-512: the loops of `REPEAT`, then a loop by fours and one by
ones. -/
def compareAvx512 (exec512 exec256 exec128 : Register → Register → Nat → ℚ)
    (value : BitVec 8 → ℤ) (pX pY : Nat → BitVec 8) (length : Nat) : ℚ :=
  let square := fun place =>
    let c1 := subPs (binary32.nearest (value (pX place))) (binary32.nearest (value (pY place)))
    mulPs c1 c1
  let diff := sumLanes addPs 0 16 (fun place => exec512 (loadu pX place) (loadu pY place))
    (fun place => exec256 (loadu pX place) (loadu pY place))
    (fun place => exec128 (loadu pX place) (loadu pY place)) length
  let diff := whileBelow (length / 4 * 4) 4 (fun diff place =>
      addPs (addPs (addPs (addPs diff (square place)) (square (place + 1))) (square (place + 2)))
        (square (place + 3))) (length / 16 * 16) diff
  whileBelow length 1 (fun diff place => addPs diff (square place)) (length / 4 * 4) diff

/-- `DistanceL2Int8::compare` with AVX-512. -/
def distanceL2Int8Avx512 : (Nat → BitVec 8) → (Nat → BitVec 8) → Nat → ℚ :=
  compareAvx512 mm512SqdfEpi8 mm256SqdfEpi8 mmSqdfEpi8 BitVec.toInt

/-- `DistanceL2UInt8::compare` with AVX-512. -/
def distanceL2UInt8Avx512 : (Nat → BitVec 8) → (Nat → BitVec 8) → Nat → ℚ :=
  compareAvx512 mm512SqdfEpu8 mm256SqdfEpu8 mmSqdfEpu8 fun byte => byte.toNat

/-- `(int32_t) size`, as the bound of a loop. -/
def int32Size (size : Nat) : Nat := (BitVec.ofNat 32 size).toInt.toNat

/-- The sum of the plain `compare` of bytes, in 32 bits. -/
def plainSum (widen : BitVec 8 → BitVec 32) (a b : Nat → BitVec 8) (size : Nat) : BitVec 32 :=
  (List.range (int32Size size)).foldl
    (fun result i => result + (widen (a i) - widen (b i)) * (widen (a i) - widen (b i))) 0

/-- `DistanceL2Int8::compare`, whose `result` is an `int32_t`. -/
def distanceL2Int8 (a b : Nat → BitVec 8) (size : Nat) : ℚ :=
  binary32.nearest (plainSum (BitVec.signExtend 32) a b size).toInt

/-- `DistanceL2UInt8::compare`, whose `result` is a `uint32_t`. -/
def distanceL2UInt8 (a b : Nat → BitVec 8) (size : Nat) : ℚ :=
  binary32.nearest (plainSum (BitVec.setWidth 32) a b size).toNat

/-- Additions of `float` are exact below 2^24. -/
theorem exactAddition_addPs : ExactAddition addPs (fun n : ℕ => (n : ℚ)) (· < 2 ^ 24) where
  add_eq {first second} small := by
    rw [addPs, ← Nat.cast_add, ← Int.cast_natCast]
    refine FloatFormat.nearest_intCast (by decide) ?_
    rw [Nat.abs_cast]
    exact_mod_cast small
  left small := (Nat.le_add_right _ _).trans_lt small

theorem widens_toInt :
    Widens (fun byte => if byte.slt 0 then BitVec.allOnes 8 else 0) BitVec.toInt where
  toInt_append := by decide +kernel
  near first second := by
    have low := first.le_toInt
    have high := first.toInt_lt
    have low' := second.le_toInt
    have high' := second.toInt_lt
    exact abs_lt.mpr ⟨by omega, by omega⟩

theorem widens_toNat : Widens (fun _ => 0) fun byte => byte.toNat where
  toInt_append := by decide +kernel
  near first second := by
    have first := first.isLt
    have second := second.isLt
    exact abs_lt.mpr ⟨by omega, by omega⟩

section Agree

variable {high : BitVec 8 → BitVec 8} {value : BitVec 8 → ℤ} {pX pY : Nat → BitVec 8}

/-- The squares that are taken one by one are exact. -/
theorem square_eq (widens : Widens high value) (place : Nat) :
    mulPs
        (subPs (binary32.nearest (value (pX place))) (binary32.nearest (value (pY place))))
        (subPs (binary32.nearest (value (pX place))) (binary32.nearest (value (pY place)))) =
      squaredDifference value pX pY place := by
  have exactInt : ∀ {n : ℤ}, |n| < 2 ^ 24 → binary32.nearest n = n :=
    fun small => FloatFormat.nearest_intCast (by decide) small
  have small : ∀ byte, |value byte| < 2 ^ 24 := by
    intro byte
    rw [← widens.toInt_append]
    have low := (high byte ++ byte).le_toInt
    have high := (high byte ++ byte).toInt_lt
    exact abs_lt.mpr ⟨by omega, by omega⟩
  have near := widens.near (pX place) (pY place)
  have bounds := abs_lt.mp near
  have square := sq_lt_sq' bounds.1 bounds.2
  rw [exactInt (small _), exactInt (small _), subPs, ← Int.cast_sub,
    exactInt (near.trans (by decide)), mulPs, ← Int.cast_mul, ← sq, exactInt, squaredDifference,
    ← Int.cast_natCast, Int.natCast_pow, Int.natAbs_sq]
  rw [abs_of_nonneg (sq_nonneg _)]
  omega

/-- A loop that adds squares one by one, from a place to a later one. -/
theorem addOnes_eq {term : Nat → ℕ} {start stop : Nat} (later : start ≤ stop)
    (small : ∑ index ∈ range stop, term index < 2 ^ 24) :
    whileBelow stop 1 (fun diff place => addPs diff (term place)) start
      ((∑ index ∈ range start, term index : ℕ) : ℚ) = (∑ index ∈ range stop, term index : ℕ) := by
  obtain ⟨count, rfl⟩ := Nat.exists_eq_add_of_le later
  have whole : start + count = start + count * 1 := congrArg _ (Nat.mul_one count).symm
  rw [whole] at small ⊢
  refine @whileBelow_keeps _ 1 Nat.one_pos _
    (fun place diff => diff = ((∑ index ∈ range place, term index : ℕ) : ℚ)) _ _ _
    (fun round within diff holds => ?_) rfl
  have below : ∑ index ∈ range (start + round * 1 + 1), term index < 2 ^ 24 :=
    (sum_le_sum_of_subset (range_mono (by omega))).trans_lt small
  rw [sum_range_succ] at below
  rw [holds, exactAddition_addPs.add_eq below, ← sum_range_succ, Nat.add_mul, Nat.one_mul,
    Nat.add_assoc]

/-- A loop that adds squares by fours. -/
theorem addFours_eq {term : Nat → ℕ} {start count : Nat}
    (small : ∑ index ∈ range (start + count * 4), term index < 2 ^ 24) :
    whileBelow (start + count * 4) 4 (fun diff place =>
        addPs (addPs (addPs (addPs diff (term place)) (term (place + 1))) (term (place + 2)))
          (term (place + 3))) start ((∑ index ∈ range start, term index : ℕ) : ℚ) =
      (∑ index ∈ range (start + count * 4), term index : ℕ) := by
  refine @whileBelow_keeps _ 4 (by decide) _
    (fun place diff => diff = ((∑ index ∈ range place, term index : ℕ) : ℚ)) _ _ _
    (fun round within diff holds => ?_) rfl
  have below : ∑ index ∈ range (start + round * 4 + 3 + 1), term index < 2 ^ 24 :=
    (sum_le_sum_of_subset (range_mono (by omega))).trans_lt small
  have next : start + (round + 1) * 4 = start + round * 4 + 3 + 1 := by ring
  rw [holds, next]
  simp only [sum_range_succ] at below ⊢
  rw [exactAddition_addPs.add_eq (by omega), exactAddition_addPs.add_eq (by omega),
    exactAddition_addPs.add_eq (by omega), exactAddition_addPs.add_eq below]

theorem compareAvx512_eq (widens : Widens high value)
    {exec512 exec256 exec128 : Register → Register → Nat → ℚ}
    (is512 : ∀ x y, exec512 x y =
      sqdf (fun byte => high (x byte)) (fun byte => high (y byte)) x y)
    (is256 : ∀ x y, exec256 x y =
      sqdf (fun byte => high (x byte)) (fun byte => high (y byte)) x y)
    (is128 : ∀ x y, exec128 x y =
      sqdf (fun byte => high (x byte)) (fun byte => high (y byte)) x y) {length : Nat}
    (small : ∑ place ∈ range length, squaredDifference value pX pY place < 2 ^ 24) :
    compareAvx512 exec512 exec256 exec128 value pX pY length =
      (∑ place ∈ range length, squaredDifference value pX pY place : ℕ) := by
  have lanes := @sumLanes_eq _ addPs 0 16
    (fun place => exec512 (loadu pX place) (loadu pY place))
    (fun place => exec256 (loadu pX place) (loadu pY place))
    (fun place => exec128 (loadu pX place) (loadu pY place)) _ _ _ _
    (squaredDifference value pX pY) exactAddition_addPs Nat.cast_zero (by decide)
    (fun place => (is512 _ _).symm ▸ widens.lanesHold_sqdf (loadu pX place) (loadu pY place) 4)
    (fun place => (is256 _ _).symm ▸ widens.lanesHold_sqdf (loadu pX place) (loadu pY place) 2)
    (fun place => (is128 _ _).symm ▸ widens.lanesHold_sqdf (loadu pX place) (loadu pY place) 1)
    length small
  have fours : length / 4 * 4 = length / 16 * 16 + length / 4 % 4 * 4 := by omega
  have within : ∑ place ∈ range (length / 4 * 4), squaredDifference value pX pY place < 2 ^ 24 :=
    (sum_le_sum_of_subset (range_mono (Nat.div_mul_le_self length 4))).trans_lt small
  unfold compareAvx512
  simp only [square_eq widens]
  rw [lanes, fours, addFours_eq (fours ▸ within), ← fours,
    addOnes_eq (Nat.div_mul_le_self length 4) small]

theorem int32Size_eq {size : Nat} (dimension : size < 2 ^ 31) : int32Size size = size := by
  rw [int32Size, BitVec.toInt_ofNat', Int.bmod_eq_of_le (by omega) (by omega), Int.toNat_natCast]

/-- The plain sum is exact below 2^31. -/
theorem plainSum_eq {widen : BitVec 8 → BitVec 32} (widens : Widens high value)
    (isValue : ∀ byte, (widen byte).toInt = value byte) {size : Nat} (dimension : size < 2 ^ 31)
    (small : ∑ place ∈ range size, squaredDifference value pX pY place < 2 ^ 31) :
    (plainSum widen pX pY size).toInt =
      (∑ place ∈ range size, squaredDifference value pX pY place : ℕ) := by
  rw [plainSum, int32Size_eq dimension]
  clear dimension
  induction size with
  | zero => rfl
  | succ size inductionHypothesis =>
    rw [sum_range_succ] at small ⊢
    rw [List.range_succ, List.foldl_append]
    have bounds := abs_lt.mp (widens.near (pX size) (pY size))
    have difference : (widen (pX size) - widen (pY size)).toInt =
        value (pX size) - value (pY size) := by
      rw [BitVec.toInt_sub, isValue, isValue]
      exact Int.bmod_eq_of_le (by omega) (by omega)
    have square := sq_lt_sq' bounds.1 bounds.2
    have positive := sq_nonneg (value (pX size) - value (pY size))
    have term : ((widen (pX size) - widen (pY size)) * (widen (pX size) - widen (pY size))).toInt =
        squaredDifference value pX pY size := by
      rw [BitVec.toInt_mul, difference, ← sq, squaredDifference, Int.natCast_pow, Int.natAbs_sq]
      exact Int.bmod_eq_of_le (by omega) (by omega)
    exact toInt_add_small (inductionHypothesis ((Nat.le_add_right _ _).trans_lt small)) term small

end Agree

/-- A sum of fewer than 259 squares is below 2^24. -/
theorem sum_squaredDifference_lt {high : BitVec 8 → BitVec 8} {value : BitVec 8 → ℤ}
    (widens : Widens high value) (pX pY : Nat → BitVec 8) {length : Nat} (short : length < 259) :
    ∑ place ∈ range length, squaredDifference value pX pY place < 2 ^ 24 := by
  have terms : ∀ place ∈ range length, squaredDifference value pX pY place ≤ 255 ^ 2 := by
    intro place _
    have bounds := abs_lt.mp (widens.near (pX place) (pY place))
    exact Nat.pow_le_pow_left (by omega) 2
  calc ∑ place ∈ range length, squaredDifference value pX pY place ≤ #(range length) • 255 ^ 2 :=
        sum_le_card_nsmul _ _ _ terms
    _ < 2 ^ 24 := by
        rw [card_range]
        show length * 255 ^ 2 < 2 ^ 24
        omega

/-- Below 2^24 the distances of bytes are the sums of the squared differences, with AVX-512 and
without; so they are for all vectors of fewer than 259 coordinates. -/
theorem byte_distances_agree (pX pY : Nat → BitVec 8) {length : Nat} (dimension : length < 2 ^ 31) :
    (∑ place ∈ range length, squaredDifference BitVec.toInt pX pY place < 2 ^ 24 ∨ length < 259 →
      distanceL2Int8Avx512 pX pY length =
          (∑ place ∈ range length, squaredDifference BitVec.toInt pX pY place : ℕ) ∧
        distanceL2Int8 pX pY length =
          (∑ place ∈ range length, squaredDifference BitVec.toInt pX pY place : ℕ)) ∧
    (∑ place ∈ range length, squaredDifference (fun byte => byte.toNat) pX pY place < 2 ^ 24 ∨
        length < 259 →
      distanceL2UInt8Avx512 pX pY length =
          (∑ place ∈ range length, squaredDifference (fun byte => byte.toNat) pX pY place : ℕ) ∧
        distanceL2UInt8 pX pY length =
          (∑ place ∈ range length,
            squaredDifference (fun byte => byte.toNat) pX pY place : ℕ)) := by
  have rounded : ∀ {n : ℕ}, n < 2 ^ 24 → binary32.nearest (n : ℤ) = n := by
    intro n small
    rw [FloatFormat.nearest_intCast (by decide) (by rw [Nat.abs_cast]; exact_mod_cast small),
      Int.cast_natCast]
  constructor
  · intro bounded
    have small := bounded.elim id (sum_squaredDifference_lt widens_toInt pX pY)
    have plain := plainSum_eq widens_toInt (fun byte => BitVec.toInt_signExtend_of_le (by decide))
      dimension (small.trans (by decide))
    refine ⟨compareAvx512_eq widens_toInt (fun _ _ => rfl) (fun _ _ => rfl) (fun _ _ => rfl) small,
      ?_⟩
    rw [distanceL2Int8, plain, rounded small]
  · intro bounded
    have small := bounded.elim id (sum_squaredDifference_lt widens_toNat pX pY)
    have widened : ∀ byte : BitVec 8, (byte.setWidth 32).toInt = byte.toNat := by decide +kernel
    have plain := plainSum_eq widens_toNat widened dimension (small.trans (by decide))
    rw [BitVec.toInt_eq_toNat_cond] at plain
    have unsigned : (plainSum (BitVec.setWidth 32) pX pY length).toNat =
        ∑ place ∈ range length, squaredDifference (fun byte => byte.toNat) pX pY place := by
      have wide := (plainSum (BitVec.setWidth 32) pX pY length).isLt
      split at plain <;> omega
    refine ⟨compareAvx512_eq widens_toNat (fun _ _ => rfl) (fun _ _ => rfl) (fun _ _ => rfl) small,
      ?_⟩
    rw [distanceL2UInt8, unsigned, ← Int.cast_natCast, rounded small, Int.cast_natCast]

/-- Vectors of 200 coordinates, which all loops take part of. -/
theorem byte_distances_agree_ramp :
    distanceL2Int8Avx512 (BitVec.ofNat 8) (fun _ => 0) 200 =
        distanceL2Int8 (BitVec.ofNat 8) (fun _ => 0) 200 ∧
      distanceL2UInt8Avx512 (BitVec.ofNat 8) (fun _ => 0) 200 =
        distanceL2UInt8 (BitVec.ofNat 8) (fun _ => 0) 200 := by
  obtain ⟨signed, unsigned⟩ := byte_distances_agree (BitVec.ofNat 8) (fun _ => 0)
    (show 200 < 2 ^ 31 by decide)
  obtain ⟨vector, plain⟩ := signed (.inr (by decide))
  obtain ⟨vector', plain'⟩ := unsigned (.inr (by decide))
  exact ⟨vector.trans plain.symm, vector'.trans plain'.symm⟩

end Bytes

/-! ### Coordinates -/

section Coordinates

variable {Scalar : Type*} [CommRing Scalar]

/-- `_mm512_sqdf_ps` of what is read at a place, and the same with fewer lanes. -/
def sqdfPs (pX pY : Nat → Scalar) (place lane : Nat) : Scalar :=
  let d := pX (place + lane) - pY (place + lane)
  d * d

/-- `DistanceL2::compare` with AVX-512. -/
def distanceL2Avx512 (pX pY : Nat → Scalar) (length : Nat) : Scalar :=
  let diff := sumLanes (· + ·) 0 4 (sqdfPs pX pY) (sqdfPs pX pY) (sqdfPs pX pY) length
  whileBelow length 1 (fun diff place => diff + sqdfPs pX pY place 0) (length / 4 * 4) diff

/-- `_mm256_reduce_add_ps`. -/
def mm256ReduceAddPs (x : Nat → Scalar) : Scalar :=
  let x128 := fun lane => x (lane + 4) + x lane
  let x64 := fun lane => x128 lane + x128 (lane + 2)
  x64 0 + x64 1

/-- `DistanceL2::compare` with AVX2. The number of rounds is a `uint16_t`. -/
def distanceL2Avx2 (a b : Nat → Scalar) (size : Nat) : Scalar :=
  let niters := size / 8 % 65536
  let sum := (List.range niters).foldl
    (fun sum j lane => (a (8 * j + lane) - b (8 * j + lane)) *
      (a (8 * j + lane) - b (8 * j + lane)) + sum lane) fun _ => 0
  mm256ReduceAddPs sum

/-- `DistanceL2::compare` without AVX. -/
def distanceL2 (a b : Nat → Scalar) (size : Nat) : Scalar :=
  (List.range (int32Size size)).foldl (fun result i => result + (a i - b i) * (a i - b i)) 0

/-- The squared difference of two coordinates. -/
def squared (a b : Nat → Scalar) (i : Nat) : Scalar := (a i - b i) * (a i - b i)

theorem distanceL2_eq (a b : Nat → Scalar) {size : Nat} (dimension : size < 2 ^ 31) :
    distanceL2 a b size = ∑ i ∈ range size, squared a b i := by
  rw [distanceL2, int32Size_eq dimension]
  clear dimension
  induction size with
  | zero => rfl
  | succ size inductionHypothesis =>
    rw [List.range_succ, List.foldl_append, inductionHypothesis, sum_range_succ]
    rfl

/-- Exact arithmetic. -/
theorem exactAddition_id : ExactAddition (fun a b : Scalar => a + b) id fun _ => True where
  add_eq _ := rfl
  left _ := trivial

theorem distanceL2Avx512_eq (pX pY : Nat → Scalar) (length : Nat) :
    distanceL2Avx512 pX pY length = ∑ i ∈ range length, squared pX pY i := by
  have lanes : ∀ count place, LanesHold id count (sqdfPs pX pY place)
      (∑ index ∈ range count, squared pX pY (place + index)) :=
    fun count place => ⟨sqdfPs pX pY place, fun _ _ => rfl, rfl⟩
  have sum := @sumLanes_eq Scalar (fun a b => a + b) 0 4 (sqdfPs pX pY) (sqdfPs pX pY)
    (sqdfPs pX pY) Scalar _ id _ (squared pX pY) exactAddition_id rfl (by decide) (lanes 16)
    (lanes 8) (lanes 4) length trivial
  obtain ⟨rest, isRest⟩ := Nat.exists_eq_add_of_le (Nat.div_mul_le_self length 4)
  have whole : length = length / 4 * 4 + rest * 1 := by rw [Nat.mul_one]; exact isRest
  have tail := @whileBelow_keeps Scalar 1 Nat.one_pos
    (fun diff place => diff + sqdfPs pX pY place 0)
    (fun place diff => diff = ∑ i ∈ range place, squared pX pY i) (length / 4 * 4) rest _
    (fun round _ diff holds => by
      rw [holds, Nat.add_mul, Nat.one_mul, ← Nat.add_assoc, sum_range_succ]
      rfl) sum
  rw [← whole] at tail
  exact tail

/-- The lanes of the AVX2 build after its rounds. -/
theorem distanceL2Avx2_eq (a b : Nat → Scalar) (size : Nat) :
    distanceL2Avx2 a b size = ∑ i ∈ range (8 * (size / 8 % 65536)), squared a b i := by
  have lanes : ∀ rounds, ∑ lane ∈ range 8, (List.range rounds).foldl
      (fun sum j lane => (a (8 * j + lane) - b (8 * j + lane)) *
        (a (8 * j + lane) - b (8 * j + lane)) + sum lane) (fun _ => 0) lane =
      ∑ i ∈ range (8 * rounds), squared a b i := by
    intro rounds
    induction rounds with
    | zero => exact sum_const_zero
    | succ rounds inductionHypothesis =>
      rw [Nat.mul_succ, sum_range_add, ← inductionHypothesis, List.range_succ]
      simp only [List.foldl_append, List.foldl_cons, List.foldl_nil]
      rw [sum_add_distrib, add_comm]
      rfl
  rw [← lanes, distanceL2Avx2, mm256ReduceAddPs]
  simp only [sum_range_succ, range_zero, sum_empty, zero_add]
  ring

/-- In exact arithmetic the AVX-512 build of `DistanceL2` agrees with the plain one. The AVX2 build
leaves out the coordinates from `8 * (size / 8 % 65536)` on; so it agrees exactly on the vectors
whose number of coordinates is a multiple of 8 below 524288. -/
theorem float_distances_agree [Nontrivial Scalar] {size : Nat} (dimension : size < 2 ^ 31) :
    (∀ a b : Nat → Scalar, distanceL2Avx512 a b size = distanceL2 a b size) ∧
    (∀ a b : Nat → Scalar, distanceL2Avx2 a b size =
      distanceL2 a b (8 * (size / 8 % 65536))) ∧
    ((∀ a b : Nat → Scalar, distanceL2Avx2 a b size = distanceL2 a b size) ↔
      size % 8 = 0 ∧ size < 524288) := by
  have part : 8 * (size / 8 % 65536) ≤ size :=
    (Nat.mul_le_mul_left 8 (Nat.mod_le _ _)).trans (Nat.mul_div_le size 8)
  refine ⟨fun a b => (distanceL2Avx512_eq a b size).trans (distanceL2_eq a b dimension).symm,
    fun a b => (distanceL2Avx2_eq a b size).trans
      (distanceL2_eq a b (part.trans_lt dimension)).symm, fun agree => ?_, fun whole a b => ?_⟩
  · by_contra fails
    -- The last coordinate is left out.
    have short : 8 * (size / 8 % 65536) < size := by omega
    have differ := agree (fun i => if i = size - 1 then 1 else 0) fun _ => 0
    rw [distanceL2Avx2_eq, distanceL2_eq _ _ dimension,
      sum_eq_zero fun i inside => ?_, sum_eq_single_of_mem (size - 1)
        (mem_range.mpr (by omega)) fun i _ other => ?_] at differ
    · rw [squared, if_pos rfl, sub_zero, mul_one] at differ
      exact zero_ne_one differ
    · rw [squared, if_neg other, sub_zero, mul_zero]
    · rw [squared, if_neg (by have := mem_range.mp inside; omega), sub_zero, mul_zero]
  · rw [distanceL2Avx2_eq, distanceL2_eq _ _ dimension,
      show 8 * (size / 8 % 65536) = size by omega]

/-- The AVX2 build is wrong on some vectors of 100 coordinates. -/
theorem float_distances_agree_hundred :
    ¬ ∀ a b : Nat → ℚ, distanceL2Avx2 a b 100 = distanceL2 a b 100 := fun agree =>
  absurd ((float_distances_agree (show 100 < 2 ^ 31 by decide)).2.2.mp agree).1 (by decide)

end Coordinates

end OdinVector
