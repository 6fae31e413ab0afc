/-
This file is about vector registers. A sum may be taken in several lanes at once that are added
up at the end; that is the sum of the terms, as long as the addition is exact on what is added.
A register is a row of bytes that instructions read as lanes of 8, 16 or 32 bits, and the
instructions here widen bytes and add up the squares of their differences.
-/

import OdinVector.Rounding
import Mathlib.Algebra.BigOperators.Intervals
import Mathlib.Algebra.Order.Ring.Abs

namespace OdinVector

open Finset

/-! ### Loops -/

section Loops

variable {State : Type*}

/-- `while (place < stop)`, where a round moves the place by `delta`. -/
def whileBelow (stop delta : Nat) (body : State → Nat → State) (place : Nat) (state : State) :
    State :=
  (List.range' place ((stop - place + (delta - 1)) / delta) delta).foldl body state

/-- What a round carries from its place to the next one holds at the end. -/
theorem whileBelow_keeps {delta : Nat} (positive : 0 < delta) {body : State → Nat → State}
    {Holds : Nat → State → Prop} {start count : Nat} {state : State}
    (keeps : ∀ round < count, ∀ state, Holds (start + round * delta) state →
      Holds (start + (round + 1) * delta) (body state (start + round * delta)))
    (holds : Holds start state) :
    Holds (start + count * delta) (whileBelow (start + count * delta) delta body start state) := by
  have rounds : (start + count * delta - start + (delta - 1)) / delta = count := by
    rw [Nat.add_sub_cancel_left, Nat.mul_comm, Nat.mul_add_div positive,
      Nat.div_eq_of_lt (Nat.sub_lt positive Nat.one_pos), Nat.add_zero]
  rw [whileBelow, rounds]
  clear rounds
  induction count with
  | zero => exact (congrArg (Holds · state) (by rw [Nat.zero_mul, Nat.add_zero])).mp holds
  | succ count inductionHypothesis =>
    rw [List.range'_concat, List.foldl_append, Nat.mul_comm delta count]
    exact keeps count (Nat.lt_succ_self count) _
      (inductionHypothesis fun round within => keeps round (within.trans (Nat.lt_succ_self count)))

end Loops

/-! ### Sums in lanes -/

section Sums

variable {Value Number : Type*} [AddCommMonoid Number] {plus : Value → Value → Value}
  {embed : Number → Value} {Small : Number → Prop}

/-- An addition of values that is exact on numbers with a small sum. -/
structure ExactAddition (plus : Value → Value → Value) (embed : Number → Value)
    (Small : Number → Prop) : Prop where
  add_eq : ∀ {first second : Number}, Small (first + second) →
    plus (embed first) (embed second) = embed (first + second)
  left : ∀ {first second : Number}, Small (first + second) → Small first

theorem ExactAddition.right (isExact : ExactAddition plus embed Small) {first second : Number}
    (small : Small (first + second)) : Small second :=
  isExact.left ((add_comm first second).symm ▸ small)

/-- The numbers in some lanes have a sum. -/
def LanesHold (embed : Number → Value) (count : Nat) (lanes : Nat → Value) (sum : Number) : Prop :=
  ∃ numbers : Nat → Number, (∀ lane < count, lanes lane = embed (numbers lane)) ∧
    ∑ lane ∈ range count, numbers lane = sum

/-- Parts of a small sum are small. -/
theorem ExactAddition.small_term (isExact : ExactAddition plus embed Small) {numbers : Nat → Number}
    {count lane : Nat} (inside : lane < count)
    (small : Small (∑ lane ∈ range count, numbers lane)) :
    Small (numbers lane) := by
  rw [← sum_erase_add _ _ (mem_range.mpr inside)] at small
  exact isExact.right small

theorem LanesHold.add (isExact : ExactAddition plus embed Small) {count : Nat}
    {lanes others : Nat → Value} {sum rest : Number} (holds : LanesHold embed count lanes sum)
    (read : LanesHold embed count others rest) (small : Small (sum + rest)) :
    LanesHold embed count (fun lane => plus (lanes lane) (others lane)) (sum + rest) := by
  obtain ⟨numbers, isNumber, rfl⟩ := holds
  obtain ⟨terms, isTerm, rfl⟩ := read
  rw [← sum_add_distrib] at small ⊢
  refine ⟨fun lane => numbers lane + terms lane, fun lane inside => ?_, rfl⟩
  dsimp only
  rw [isNumber lane inside, isTerm lane inside, isExact.add_eq (isExact.small_term inside small)]

/-- The upper half of the lanes is added to the lower one. -/
theorem LanesHold.halve (isExact : ExactAddition plus embed Small) (count : Nat)
    {lanes : Nat → Value} {sum : Number} (holds : LanesHold embed (count + count) lanes sum)
    (small : Small sum) :
    LanesHold embed count (fun lane => plus (lanes lane) (lanes (lane + count))) sum := by
  obtain ⟨numbers, isNumber, rfl⟩ := holds
  rw [sum_range_add] at small ⊢
  refine LanesHold.add isExact ⟨numbers, fun lane inside => ?_, rfl⟩
    ⟨fun lane => numbers (count + lane), fun lane inside => ?_, rfl⟩ small
  · exact isNumber lane (Nat.lt_add_right count inside)
  · exact (congrArg lanes (Nat.add_comm lane count)).trans
      (isNumber _ (Nat.add_lt_add_left inside count))

/-- Four lanes are added from the first one on. -/
theorem LanesHold.add_four (isExact : ExactAddition plus embed Small) {lanes : Nat → Value}
    {sum : Number} (holds : LanesHold embed 4 lanes sum) (small : Small sum) :
    plus (plus (plus (lanes 0) (lanes 1)) (lanes 2)) (lanes 3) = embed sum := by
  obtain ⟨numbers, isNumber, rfl⟩ := holds
  simp only [sum_range_succ, range_zero, sum_empty, zero_add] at small ⊢
  rw [isNumber 0 (by decide), isNumber 1 (by decide), isNumber 2 (by decide),
    isNumber 3 (by decide), isExact.add_eq (isExact.left (isExact.left small)),
    isExact.add_eq (isExact.left small), isExact.add_eq small]

/-- A loop adds the terms of a round to its lanes. -/
theorem LanesHold.loop (isExact : ExactAddition plus embed Small) {lanesCount delta : Nat}
    (positive : 0 < delta) {term : Nat → Number} {start count : Nat} {read : Nat → Nat → Value}
    (isRead : ∀ place, LanesHold embed lanesCount (read place)
      (∑ index ∈ range delta, term (place + index)))
    (small : Small (∑ index ∈ range (start + count * delta), term index)) {lanes : Nat → Value}
    (holds : LanesHold embed lanesCount lanes (∑ index ∈ range start, term index)) :
    LanesHold embed lanesCount
      (whileBelow (start + count * delta) delta
        (fun lanes place lane => plus (lanes lane) (read place lane)) start lanes)
      (∑ index ∈ range (start + count * delta), term index) := by
  refine @whileBelow_keeps _ _ positive _
    (fun place lanes => LanesHold embed lanesCount lanes (∑ index ∈ range place, term index))
    _ _ _ (fun round within lanes holds => ?_) holds
  obtain ⟨rest, rfl⟩ := Nat.exists_eq_add_of_le (Nat.succ_le_of_lt within)
  rw [Nat.add_mul, ← Nat.add_assoc, sum_range_add] at small
  have next : start + (round + 1) * delta = start + round * delta + delta := by
    rw [Nat.add_mul, Nat.one_mul, Nat.add_assoc]
  have sum := isExact.left small
  rw [next, sum_range_add] at sum ⊢
  exact holds.add isExact (isRead _) sum

end Sums

/-! ### Bytes -/

/-- The bytes of a register, the low ones of a lane first. -/
abbrev Register := Nat → BitVec 8

namespace Register

/-- The lanes of 16 bits. -/
def lane16 (x : Register) (lane : Nat) : BitVec 16 := x (2 * lane + 1) ++ x (2 * lane)

/-- The lanes of 32 bits. -/
def lane32 (x : Register) (lane : Nat) : BitVec 32 := lane16 x (2 * lane + 1) ++ lane16 x (2 * lane)

def ofLanes16 (lanes : Nat → BitVec 16) : Register := fun byte =>
  (lanes (byte / 2)).extractLsb' (8 * (byte % 2)) 8

def ofLanes32 (lanes : Nat → BitVec 32) : Register :=
  ofLanes16 fun half => (lanes (half / 2)).extractLsb' (16 * (half % 2)) 16

/-- Both halves of a word make up the word. -/
theorem extract_append {half : Nat} (word : BitVec (half + half)) :
    word.extractLsb' half half ++ word.extractLsb' 0 half = word := by
  ext index bound
  simp only [BitVec.getElem_append, BitVec.getElem_extractLsb']
  split
  · rw [Nat.zero_add]
    exact BitVec.getLsbD_eq_getElem bound
  · rw [Nat.add_sub_cancel' (by omega)]
    exact BitVec.getLsbD_eq_getElem bound

@[simp] theorem lane16_ofLanes16 (lanes : Nat → BitVec 16) : lane16 (ofLanes16 lanes) = lanes := by
  funext lane
  rw [lane16, ofLanes16, ofLanes16, Nat.mul_add_div Nat.two_pos, Nat.mul_add_mod,
    Nat.mul_div_cancel_left lane Nat.two_pos, Nat.mul_mod_right]
  exact @extract_append 8 (lanes lane)

@[simp] theorem lane32_ofLanes32 (lanes : Nat → BitVec 32) : lane32 (ofLanes32 lanes) = lanes := by
  funext lane
  rw [lane32, ofLanes32, lane16_ofLanes16, Nat.mul_add_div Nat.two_pos, Nat.mul_add_mod,
    Nat.mul_div_cancel_left lane Nat.two_pos, Nat.mul_mod_right]
  exact @extract_append 16 (lanes lane)

/-! ### Instructions -/

def setzero : Register := fun _ => 0

/-- `cmpgt_epi8`. -/
def cmpgtEpi8 (x y : Register) : Register := fun byte =>
  if (y byte).slt (x byte) then BitVec.allOnes 8 else 0

/-- `cmplt_epi8`. -/
def cmpltEpi8 (x y : Register) : Register := cmpgtEpi8 y x

/-- `cmpgt_epi8_mask`. -/
def cmpgtEpi8Mask (x y : Register) : Nat → Bool := fun byte => (y byte).slt (x byte)

/-- `movm_epi8`. -/
def movmEpi8 (mask : Nat → Bool) : Register := fun byte => if mask byte then BitVec.allOnes 8 else 0

/-- In each 16 bytes, 8 of both registers in turns. -/
def unpackEpi8 (from8 : Nat) (x y : Register) : Register := fun byte =>
  (if byte % 2 = 0 then x else y) (byte / 16 * 16 + byte % 16 / 2 + from8)

/-- `unpacklo_epi8`. -/
def unpackloEpi8 : Register → Register → Register := unpackEpi8 0

/-- `unpackhi_epi8`. -/
def unpackhiEpi8 : Register → Register → Register := unpackEpi8 8

/-- `sub_epi16`. -/
def subEpi16 (x y : Register) : Register := ofLanes16 fun lane => lane16 x lane - lane16 y lane

/-- `madd_epi16`: the products of the lanes of 16 bits, added in pairs. -/
def maddEpi16 (x y : Register) : Register := ofLanes32 fun lane =>
  (lane16 x (2 * lane)).signExtend 32 * (lane16 y (2 * lane)).signExtend 32 +
    (lane16 x (2 * lane + 1)).signExtend 32 * (lane16 y (2 * lane + 1)).signExtend 32

/-- `add_epi32`. -/
def addEpi32 (x y : Register) : Register := ofLanes32 fun lane => lane32 x lane + lane32 y lane

/-- `cvtepi32_ps`. -/
def cvtepi32Ps (x : Register) (lane : Nat) : ℚ := binary32.nearest (lane32 x lane).toInt

/-! ### Squared differences -/

/-- The squared differences of bytes: each byte is widened by a high byte, and the squares are
added in lanes of 32 bits. -/
def sqdf (signX signY x y : Register) : Nat → ℚ :=
  let xlo := unpackloEpi8 x signX
  let xhi := unpackhiEpi8 x signX
  let ylo := unpackloEpi8 y signY
  let yhi := unpackhiEpi8 y signY
  let dlo := subEpi16 xlo ylo
  let dhi := subEpi16 xhi yhi
  cvtepi32Ps (addEpi32 (maddEpi16 dlo dlo) (maddEpi16 dhi dhi))

/-- High bytes that widen bytes to their value, of which any two are less than 256 apart. -/
structure Widens (high : BitVec 8 → BitVec 8) (value : BitVec 8 → ℤ) : Prop where
  toInt_append : ∀ byte, (high byte ++ byte).toInt = value byte
  near : ∀ first second, |value first - value second| < 256

theorem lane16_unpackEpi8 (from8 : Nat) (x y : Register) (lane : Nat) :
    lane16 (unpackEpi8 from8 x y) lane =
      y (lane / 8 * 16 + lane % 8 + from8) ++ x (lane / 8 * 16 + lane % 8 + from8) := by
  have odd : ¬ (2 * lane + 1) % 2 = 0 := by omega
  have first : (2 * lane + 1) / 16 * 16 + (2 * lane + 1) % 16 / 2 = lane / 8 * 16 + lane % 8 := by
    omega
  have second : 2 * lane / 16 * 16 + 2 * lane % 16 / 2 = lane / 8 * 16 + lane % 8 := by omega
  rw [lane16, unpackEpi8, unpackEpi8, if_neg odd, if_pos (Nat.mul_mod_right 2 lane), first,
    second]

/-- A square of 16 bits fits 32. -/
theorem toInt_square {first second : BitVec 16} (near : |first.toInt - second.toInt| < 256) :
    ((first - second).signExtend 32 * (first - second).signExtend 32).toInt =
      (((first.toInt - second.toInt).natAbs ^ 2 : ℕ) : ℤ) := by
  have bounds := abs_lt.mp near
  have difference : (first - second).toInt = first.toInt - second.toInt := by
    rw [BitVec.toInt_sub]
    exact Int.bmod_eq_of_le (by omega) (by omega)
  have square := sq_lt_sq' bounds.1 bounds.2
  have positive := sq_nonneg (first.toInt - second.toInt)
  rw [BitVec.toInt_mul, BitVec.toInt_signExtend_of_le (by decide), difference, ← sq,
    Int.natCast_pow, Int.natAbs_sq]
  exact Int.bmod_eq_of_le (by omega) (by omega)

/-- The squared difference of the values of two bytes. -/
def squaredDifference (value : BitVec 8 → ℤ) (x y : Register) (byte : Nat) : ℕ :=
  (value (x byte) - value (y byte)).natAbs ^ 2

theorem toInt_add_small {first second : BitVec 32} {m n : ℕ} (isFirst : first.toInt = m)
    (isSecond : second.toInt = n) (small : m + n < 2 ^ 31) :
    (first + second).toInt = (m + n : ℕ) := by
  rw [BitVec.toInt_add, isFirst, isSecond, ← Int.natCast_add]
  exact Int.bmod_eq_of_le (by omega) (by omega)

section Widened

variable {high : BitVec 8 → BitVec 8} {value : BitVec 8 → ℤ}

theorem Widens.squaredDifference_lt (widens : Widens high value) (x y : Register) (byte : Nat) :
    squaredDifference value x y byte < 65536 := by
  have bounds := abs_lt.mp (widens.near (x byte) (y byte))
  exact Nat.pow_lt_pow_left (show (value (x byte) - value (y byte)).natAbs < 256 by omega)
    two_ne_zero

/-- Where the bytes of the lanes of `sqdf` begin. -/
def laneStart (lane : Nat) : Nat := lane / 4 * 16 + 2 * (lane % 4)

/-- The sum of the squares that are added in a lane. -/
def laneSquares (term : Nat → ℕ) (lane : Nat) : ℕ :=
  (term (laneStart lane) + term (laneStart lane + 1)) +
    (term (laneStart lane + 8) + term (laneStart lane + 8 + 1))

/-- The lanes of some blocks of 16 bytes have all their bytes. -/
theorem sum_laneSquares (term : Nat → ℕ) (blocks : Nat) :
    ∑ lane ∈ range (4 * blocks), laneSquares term lane =
      ∑ byte ∈ range (16 * blocks), term byte := by
  induction blocks with
  | zero => rfl
  | succ blocks inductionHypothesis =>
    rw [Nat.mul_succ, Nat.mul_succ, sum_range_add, sum_range_add, inductionHypothesis]
    have start : ∀ lane < 4, laneStart (4 * blocks + lane) = 16 * blocks + 2 * lane := by
      intro lane inside
      unfold laneStart
      omega
    simp only [sum_range_succ, range_zero, sum_empty, laneSquares]
    rw [start 0 (by decide), start 1 (by decide), start 2 (by decide), start 3 (by decide)]
    simp only [Nat.add_assoc, Nat.reduceAdd, Nat.reduceMul]
    omega

/-- The differences of widened bytes. -/
def widenedDifferences (from8 : Nat) (high : BitVec 8 → BitVec 8) (x y : Register) : Register :=
  subEpi16 (unpackEpi8 from8 x fun byte => high (x byte))
    (unpackEpi8 from8 y fun byte => high (y byte))

/-- A lane of `madd_epi16` has the squares of two bytes. -/
theorem Widens.madd_differences (widens : Widens high value) (from8 : Nat) (x y : Register)
    (lane : Nat) :
    (lane32 (maddEpi16 (widenedDifferences from8 high x y) (widenedDifferences from8 high x y))
        lane).toInt =
      (squaredDifference value x y (laneStart lane + from8) +
        squaredDifference value x y (laneStart lane + from8 + 1) : ℕ) := by
  have square : ∀ byte, ((high (x byte) ++ x byte - (high (y byte) ++ y byte)).signExtend 32 *
      (high (x byte) ++ x byte - (high (y byte) ++ y byte)).signExtend 32).toInt =
        squaredDifference value x y byte := by
    intro byte
    have near := widens.near (x byte) (y byte)
    rw [← widens.toInt_append, ← widens.toInt_append] at near
    rw [toInt_square near, widens.toInt_append, widens.toInt_append]
    rfl
  have even : 2 * lane / 8 * 16 + 2 * lane % 8 + from8 = laneStart lane + from8 := by
    unfold laneStart
    omega
  have odd : (2 * lane + 1) / 8 * 16 + (2 * lane + 1) % 8 + from8 =
      laneStart lane + from8 + 1 := by
    unfold laneStart
    omega
  have first := widens.squaredDifference_lt x y (laneStart lane + from8)
  have second := widens.squaredDifference_lt x y (laneStart lane + from8 + 1)
  simp only [maddEpi16, widenedDifferences, subEpi16, lane32_ofLanes32, lane16_ofLanes16,
    lane16_unpackEpi8, even, odd]
  exact toInt_add_small (square _) (square _) (by omega)

/-- A lane of `sqdf` has the squares of four bytes. -/
theorem Widens.sqdf_eq (widens : Widens high value) (x y : Register) (lane : Nat) :
    sqdf (fun byte => high (x byte)) (fun byte => high (y byte)) x y lane =
      laneSquares (squaredDifference value x y) lane := by
  have first := widens.squaredDifference_lt x y (laneStart lane)
  have second := widens.squaredDifference_lt x y (laneStart lane + 1)
  have third := widens.squaredDifference_lt x y (laneStart lane + 8)
  have fourth := widens.squaredDifference_lt x y (laneStart lane + 8 + 1)
  have sum : (lane32 (addEpi32
      (maddEpi16 (widenedDifferences 0 high x y) (widenedDifferences 0 high x y))
      (maddEpi16 (widenedDifferences 8 high x y) (widenedDifferences 8 high x y))) lane).toInt =
        laneSquares (squaredDifference value x y) lane := by
    rw [addEpi32, lane32_ofLanes32]
    exact toInt_add_small (widens.madd_differences 0 x y lane) (widens.madd_differences 8 x y lane)
      (by rw [Nat.add_zero]; omega)
  have fits : laneSquares (squaredDifference value x y) lane < 2 ^ 24 := by
    unfold laneSquares
    omega
  refine (congrArg (fun n : ℤ => binary32.nearest n) sum).trans ?_
  refine FloatFormat.nearest_intCast (by decide) ?_
  rw [Nat.abs_cast]
  exact_mod_cast fits

/-- Lanes of `sqdf` that hold the squares of all bytes of some blocks of 16 bytes. -/
theorem Widens.lanesHold_sqdf (widens : Widens high value) (x y : Register) (blocks : Nat) :
    LanesHold (fun n : ℕ => (n : ℚ)) (4 * blocks)
      (sqdf (fun byte => high (x byte)) (fun byte => high (y byte)) x y)
      (∑ byte ∈ range (16 * blocks), squaredDifference value x y byte) :=
  ⟨laneSquares (squaredDifference value x y), fun lane _ => widens.sqdf_eq x y lane,
    sum_laneSquares _ blocks⟩

end Widened

end Register

end OdinVector
