/-
This file is a small library of files as lists of bytes: numbers with their lowest
byte first, reading from a stream, and writing at a place of a file. A read past the
end of a stream gives nothing. A write past the end of a file fills the hole with
zeros.
-/

import Mathlib.Data.List.Basic
import Mathlib.Tactic.Ring

namespace Binary

/-- Bytes of a file or a stream. -/
abbrev Bytes := List UInt8

/-! ### Numbers -/

/-- The lowest `width` bytes of a number. -/
def bytesOf : Nat → Nat → Bytes
  | 0, _ => []
  | width + 1, value => UInt8.ofNat value :: bytesOf width (value / 256)

/-- The number that bytes stand for. -/
def valueOf (bytes : Bytes) : Nat :=
  bytes.foldr (fun byte rest => byte.toNat + 256 * rest) 0

@[simp] theorem length_bytesOf (width value : Nat) : (bytesOf width value).length = width := by
  induction width generalizing value with
  | zero => rfl
  | succ width inductionHypothesis =>
    show (bytesOf width (value / 256)).length + 1 = width + 1
    rw [inductionHypothesis]

theorem valueOf_bytesOf_mod (width value : Nat) :
    valueOf (bytesOf width value) = value % 256 ^ width := by
  induction width generalizing value with
  | zero =>
    rw [pow_zero, Nat.mod_one]
    rfl
  | succ width inductionHypothesis =>
    show (UInt8.ofNat value).toNat + 256 * valueOf (bytesOf width (value / 256)) = _
    have lowest : (UInt8.ofNat value).toNat = value % 256 := UInt8.toNat_ofNat'
    have split : value % 256 ^ (width + 1) = value % 256 + 256 * (value / 256 % 256 ^ width) := by
      rw [Nat.pow_succ', Nat.mod_mul]
    rw [inductionHypothesis, lowest, split]

theorem valueOf_bytesOf {width value : Nat} (fits : value < 256 ^ width) :
    valueOf (bytesOf width value) = value := by
  rw [valueOf_bytesOf_mod, Nat.mod_eq_of_lt fits]

theorem zero_lt_word : 0 < 2 ^ 32 := Nat.two_pow_pos 32

theorem one_lt_word : 1 < 2 ^ 32 := Nat.one_lt_two_pow (Nat.succ_ne_zero 31)

/-! ### Reading a stream -/

/-- The next bytes of a stream. -/
def readBytes (count : Nat) (stream : Bytes) : Option (Bytes × Bytes) :=
  if count ≤ stream.length then some (stream.take count, stream.drop count) else none

/-- The next number of a stream. -/
def readWord (width : Nat) (stream : Bytes) : Option (Nat × Bytes) :=
  (readBytes width stream).map fun (bytes, rest) => (valueOf bytes, rest)

variable {Item : Type}

/-- Items read in turn. -/
def readAll (read : Bytes → Option (Item × Bytes)) : Nat → Bytes → Option (List Item × Bytes)
  | 0, stream => some ([], stream)
  | count + 1, stream =>
    (read stream).bind fun (item, rest) =>
      (readAll read count rest).map fun (items, rest) => (item :: items, rest)

theorem readBytes_append {count : Nat} {bytes : Bytes} (length : bytes.length = count)
    (rest : Bytes) : readBytes count (bytes ++ rest) = some (bytes, rest) := by
  unfold readBytes
  rw [List.length_append, if_pos (by omega), List.take_left' length, List.drop_left' length]

theorem readWord_append {width value : Nat} (fits : value < 256 ^ width) (rest : Bytes) :
    readWord width (bytesOf width value ++ rest) = some (value, rest) := by
  unfold readWord
  rw [readBytes_append (length_bytesOf width value), Option.map_some]
  dsimp only
  rw [valueOf_bytesOf fits]

theorem readAll_append {read : Bytes → Option (Item × Bytes)} {encode : Item → Bytes}
    {items : List Item}
    (reads : ∀ item ∈ items, ∀ rest, read (encode item ++ rest) = some (item, rest))
    (rest : Bytes) :
    readAll read items.length (items.flatMap encode ++ rest) = some (items, rest) := by
  induction items with
  | nil => rfl
  | cons item more inductionHypothesis =>
    have first := reads item List.mem_cons_self
    have others := inductionHypothesis fun other member =>
      reads other (List.mem_cons_of_mem _ member)
    rw [List.flatMap_cons, List.append_assoc, List.length_cons]
    unfold readAll
    rw [first, Option.bind_some]
    dsimp only
    rw [others, Option.map_some]

/-! ### Lists of numbers -/

/-- Numbers of the same width in turn. -/
def wordsOf (width : Nat) (values : List Nat) : Bytes :=
  values.flatMap (bytesOf width)

@[simp] theorem length_wordsOf (width : Nat) (values : List Nat) :
    (wordsOf width values).length = values.length * width := by
  induction values with
  | nil => exact (Nat.zero_mul width).symm
  | cons value rest inductionHypothesis =>
    show (bytesOf width value ++ wordsOf width rest).length = _
    rw [List.length_append, length_bytesOf, inductionHypothesis, List.length_cons]
    ring

theorem readWords_append {width : Nat} {values : List Nat}
    (fit : ∀ value ∈ values, value < 256 ^ width) (rest : Bytes) :
    readAll (readWord width) values.length (wordsOf width values ++ rest) = some (values, rest) :=
  readAll_append (fun value member => readWord_append (fit value member)) rest

/-! ### Arrays in memory -/

/-- Values of a fixed size. -/
structure Format (Value : Type) where
  width : Nat
  encode : Value → Bytes
  decode : Bytes → Value
  length_encode : ∀ value, (encode value).length = width
  decode_encode : ∀ value, decode (encode value) = value

/-- Machine words of so many bytes. -/
def Format.bits (width : Nat) : Format (BitVec (8 * width)) where
  width := width
  encode value := bytesOf width value.toNat
  decode bytes := BitVec.ofNat _ (valueOf bytes)
  length_encode _ := length_bytesOf _ _
  decode_encode value := by
    have fits : value.toNat < 256 ^ width := by
      have below := value.isLt
      rwa [Nat.pow_mul] at below
    rw [valueOf_bytesOf fits, BitVec.ofNat_toNat, BitVec.setWidth_eq]

/-- The first elements of an array whose elements have `width` bytes. -/
def arrayAt (decode : Bytes → Item) (width count : Nat) (bytes : Bytes) : List Item :=
  (List.range count).map fun place => decode ((bytes.drop (place * width)).take width)

theorem length_flatMap_const {items : List Item} {encode : Item → Bytes} {width : Nat}
    (length : ∀ item ∈ items, (encode item).length = width) :
    (items.flatMap encode).length = items.length * width := by
  induction items with
  | nil => exact (Nat.zero_mul width).symm
  | cons item rest inductionHypothesis =>
    rw [List.flatMap_cons, List.length_append, length item List.mem_cons_self,
      inductionHypothesis fun other member => length other (List.mem_cons_of_mem _ member),
      List.length_cons]
    ring

/-- An array of elements of the same size from one of them on. -/
theorem drop_flatMap_const {items : List Item} {encode : Item → Bytes} {width : Nat}
    (length : ∀ item ∈ items, (encode item).length = width) (rest : Bytes) {place : Nat}
    {item : Item} (there : items[place]? = some item) :
    (items.flatMap encode ++ rest).drop (place * width) =
      encode item ++ ((items.drop (place + 1)).flatMap encode ++ rest) := by
  induction items generalizing place with
  | nil => exact absurd there nofun
  | cons first more inductionHypothesis =>
    have size := length first List.mem_cons_self
    rw [List.flatMap_cons, List.append_assoc]
    cases place with
    | zero =>
      obtain rfl : first = item := Option.some.inj there
      rw [Nat.zero_mul, List.drop_zero]
      rfl
    | succ place =>
      have split : (place + 1) * width = (encode first).length + place * width := by
        rw [size]
        ring
      rw [split, ← List.drop_drop, List.drop_left]
      exact inductionHypothesis (fun other member => length other (List.mem_cons_of_mem _ member))
        there

theorem arrayAt_flatMap {items : List Item} {encode : Item → Bytes} {decode : Bytes → Item}
    {width : Nat} (length : ∀ item ∈ items, (encode item).length = width)
    (decodes : ∀ item ∈ items, decode (encode item) = item) (rest : Bytes) :
    arrayAt decode width items.length (items.flatMap encode ++ rest) = items := by
  unfold arrayAt
  apply List.ext_getElem
  · rw [List.length_map, List.length_range]
  · intro place first second
    rw [List.getElem_map, List.getElem_range,
      drop_flatMap_const length rest (List.getElem?_eq_getElem second),
      List.take_left' (length _ (List.getElem_mem second))]
    exact decodes _ (List.getElem_mem second)

/-! ### Writing a file -/

/-- Bytes written at a place of a file. -/
def writeAt (file : Bytes) (offset : Nat) (bytes : Bytes) : Bytes :=
  (file ++ List.replicate (offset - file.length) 0).take offset ++ bytes ++
    file.drop (offset + bytes.length)

theorem writeAt_append (head tail bytes : Bytes) :
    writeAt (head ++ tail) head.length bytes = head ++ bytes ++ tail.drop bytes.length := by
  unfold writeAt
  have inside : head.length - (head ++ tail).length = 0 := by
    rw [List.length_append]
    omega
  rw [inside, List.replicate_zero, List.append_nil, List.take_left, List.drop_append]
  have past : head.drop (head.length + bytes.length) = [] :=
    List.drop_of_length_le (Nat.le_add_right _ _)
  rw [past, Nat.add_sub_cancel_left, List.nil_append]

/-- Bytes written over bytes of the file. -/
theorem writeAt_over {head old bytes tail : Bytes} {offset : Nat} (place : head.length = offset)
    (same : old.length = bytes.length) :
    writeAt (head ++ old ++ tail) offset bytes = head ++ bytes ++ tail := by
  rw [← place, List.append_assoc head, writeAt_append, ← same, List.drop_left]

/-- Bytes written at the start of a rest of zeros. -/
theorem writeAt_zeros {head bytes : Bytes} {offset : Nat} (place : head.length = offset)
    (zeros : Nat) :
    writeAt (head ++ List.replicate zeros 0) offset bytes =
      head ++ bytes ++ List.replicate (zeros - bytes.length) 0 := by
  rw [← place, writeAt_append, List.drop_replicate]

/-- Bytes written at the end of the file. -/
theorem writeAt_end {file bytes : Bytes} {offset : Nat} (place : file.length = offset) :
    writeAt file offset bytes = file ++ bytes := by
  have write := writeAt_append file [] bytes
  rw [List.append_nil, place, List.drop_nil, List.append_nil] at write
  exact write

/-- Bytes written past the end of the file. -/
theorem writeAt_hole {file bytes : Bytes} {offset : Nat} (place : file.length ≤ offset) :
    writeAt file offset bytes = file ++ List.replicate (offset - file.length) 0 ++ bytes := by
  unfold writeAt
  have length : (file ++ List.replicate (offset - file.length) 0).length = offset := by
    rw [List.length_append, List.length_replicate]
    omega
  rw [List.take_of_length_le length.le, List.drop_of_length_le (by omega), List.append_nil]

/-- Bytes written at the start of the file. -/
theorem writeAt_zero (file bytes : Bytes) :
    writeAt file 0 bytes = bytes ++ file.drop bytes.length :=
  writeAt_append [] file bytes

end Binary
