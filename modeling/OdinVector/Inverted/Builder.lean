/-
This file models `InvertedIndexBuilder`: a label file has a line for each vector, with
its tags between commas. The number of a line is the id of its vector, so the loop has
to count every line, and it counts in 32 bits. A field that `stoi` cannot read is
dropped.

A file is modelled as the list of its characters.
-/

import OdinVector.Inverted.IndexFormat
import Mathlib.Combinatorics.Colex

namespace OdinVector.Inverted

/-! ### The fields of a line -/

/-- What `getline` gives in turn: the pieces between separators, without an empty last
one. -/
def getlines (separator : Char) : List Char → List (List Char)
  | [] => []
  | char :: rest =>
    if char = separator then [] :: getlines separator rest
    else
      match getlines separator rest with
      | [] => [[char]]
      | line :: more => (char :: line) :: more

/-- `isspace`. -/
def isSpace (char : Char) : Bool :=
  char = ' ' ∨ 9 ≤ char.toNat ∧ char.toNat ≤ 13

/-- `std::stoi`: blanks, a sign and digits, and whatever is behind them; `none` is an
exception. -/
def stoi (segment : List Char) : Option Tag :=
  let text := segment.dropWhile isSpace
  let negative := text.head? = some '-'
  let digits := (if negative ∨ text.head? = some '+' then text.tail else text).takeWhile Char.isDigit
  let value : Nat := digits.foldl (fun value digit => 10 * value + (digit.toNat - 48)) 0
  let signed : Int := if negative then -value else value
  if digits = [] then none
  else if -2147483648 ≤ signed ∧ signed ≤ 2147483647 then some (Int32.ofInt signed) else none

/-- The tags of a line. -/
def parseLine (line : List Char) : List Tag :=
  (getlines ',' line).filterMap fun segment =>
    if segment = [] ∨ segment = ['\r'] then none else stoi segment

example : parseLine [' ', '7', ',', ',', '-', '1', 'x', ',', 'y', ',', '8', '\r'] = [7, -1, 8] := by
  decide

/-! ### The builder -/

/-- The fields of `InvertedIndexBuilder`. -/
structure Builder where
  invertedIndex : TagIndex
  universalBitmap : Bitmap

namespace Builder

/-- A builder as it is constructed. -/
def init : Builder where
  invertedIndex := ∅
  universalBitmap := ∅

/-- What `build` does with a line; a universal vector is in no bitmap of a tag. -/
def addLine (universalTag : Tag) (builder : Builder) (vectorId : VectorId) (line : List Char) :
    Builder :=
  if line = [] then builder
  else
    let tags := parseLine line
    if universalTag ∈ tags then
      { builder with universalBitmap := insert vectorId builder.universalBitmap }
    else
      { builder with
        invertedIndex := tags.foldl (fun index tag => index.add tag vectorId)
          builder.invertedIndex }

/-- The loop over the lines, with `vector_id`. -/
def addLines (universalTag : Tag) (builder : Builder) (lines : List (List Char)) :
    Builder × VectorId :=
  lines.foldl (fun (builder, vectorId) line =>
    (builder.addLine universalTag vectorId line, vectorId + 1)) (builder, 0)

/-- The content of the file that `build` writes. -/
def file (builder : Builder) : IndexFile where
  universalBitmap := builder.universalBitmap
  tagBitmaps := (builder.invertedIndex.keys.sort (· ≤ ·)).map
    fun tag => (tag, builder.invertedIndex.bitmap tag)

/-- `build`: the builder and the file. -/
def build (roaring : Roaring) (builder : Builder) (universalTag : Tag) (text : List Char) :
    Builder × Binary.Bytes :=
  let built := (builder.addLines universalTag (getlines '\n' text)).1
  (built, writeIndex roaring built.file)

end Builder

/-! ### What the bitmaps hold -/

/-- The numbers of the lines with a property. -/
def LineOf (lines : List (List Char)) (vid : VectorId) (property : List Tag → Prop) : Prop :=
  ∃ number line, lines[number]? = some line ∧ UInt32.ofNat number = vid ∧ property (parseLine line)

theorem lineOf_concat (lines : List (List Char)) (line : List Char) (vid : VectorId)
    (property : List Tag → Prop) :
    LineOf (lines ++ [line]) vid property ↔
      LineOf lines vid property ∨ UInt32.ofNat lines.length = vid ∧ property (parseLine line) := by
  constructor
  · intro ⟨number, found, there, same, has⟩
    obtain inside | past := Nat.lt_or_ge number lines.length
    · rw [List.getElem?_append_left inside] at there
      exact Or.inl ⟨number, found, there, same, has⟩
    · obtain ⟨rfl, rfl⟩ : number = lines.length ∧ line = found := by
        rw [List.getElem?_append_right past] at there
        cases offset : number - lines.length with
        | zero =>
          rw [offset] at there
          exact ⟨Nat.le_antisymm (Nat.sub_eq_zero_iff_le.mp offset) past, Option.some.inj there⟩
        | succ more =>
          rw [offset] at there
          exact absurd there nofun
      exact Or.inr ⟨same, has⟩
  · intro either
    obtain ⟨number, found, there, same, has⟩ | ⟨same, has⟩ := either
    · obtain ⟨inside, -⟩ := List.getElem?_eq_some_iff.mp there
      exact ⟨number, found, (List.getElem?_append_left inside).trans there, same, has⟩
    · exact ⟨lines.length, line, List.getElem?_concat_length, same, has⟩

namespace Builder

variable (universalTag : Tag)

/-- The bitmaps hold the vectors of the lines. -/
structure Holds (builder : Builder) (lines : List (List Char)) : Prop where
  universal : ∀ vid, vid ∈ builder.universalBitmap ↔ LineOf lines vid (universalTag ∈ ·)
  tagged : ∀ vid tag, vid ∈ builder.invertedIndex.bitmap tag ↔
    LineOf lines vid fun tags => universalTag ∉ tags ∧ tag ∈ tags
  never : universalTag ∉ builder.invertedIndex

theorem mem_foldl_add (index : TagIndex) (tags : List Tag) (vid : VectorId) (other : Tag) :
    other ∈ tags.foldl (fun index tag => index.add tag vid) index ↔ other ∈ index ∨ other ∈ tags := by
  induction tags generalizing index with
  | nil => exact (or_iff_left List.not_mem_nil).symm
  | cons tag rest inductionHypothesis =>
    rw [List.foldl_cons, inductionHypothesis, List.mem_cons]
    unfold TagIndex.add
    rw [Finmap.mem_insert]
    tauto

theorem holds_init : Holds universalTag init [] where
  universal vid := iff_of_false (Finset.notMem_empty vid) fun ⟨_, _, there, _⟩ => nomatch there
  tagged vid tag := by
    have empty : init.invertedIndex.bitmap tag = ∅ := TagIndex.bitmap_empty tag
    rw [empty]
    exact iff_of_false (Finset.notMem_empty vid) fun ⟨_, _, there, _⟩ => nomatch there
  never := Finmap.notMem_empty

variable {universalTag}

theorem Holds.addLine {builder : Builder} {lines : List (List Char)}
    (holds : Holds universalTag builder lines) (line : List Char) :
    Holds universalTag (builder.addLine universalTag (UInt32.ofNat lines.length) line)
      (lines ++ [line]) := by
  unfold Builder.addLine
  by_cases empty : line = []
  · rw [if_pos empty, empty]
    have nothing : ∀ tag, tag ∉ parseLine [] := fun tag => List.not_mem_nil
    refine ⟨fun vid => ?_, fun vid tag => ?_, holds.never⟩
    · rw [lineOf_concat, holds.universal]
      exact (or_iff_left fun both => nothing _ both.2).symm
    · rw [lineOf_concat, holds.tagged]
      exact (or_iff_left fun both => nothing _ both.2.2).symm
  · rw [if_neg empty]
    by_cases universal : universalTag ∈ parseLine line
    · rw [if_pos universal]
      refine ⟨fun vid => ?_, fun vid tag => ?_, holds.never⟩
      · rw [lineOf_concat, Finset.mem_insert, holds.universal, or_comm]
        exact or_congr_right ⟨fun same => ⟨same.symm, universal⟩, fun both => both.1.symm⟩
      · rw [lineOf_concat, holds.tagged]
        exact (or_iff_left fun both => both.2.1 universal).symm
    · rw [if_neg universal]
      refine ⟨fun vid => ?_, fun vid tag => ?_, fun member => ?_⟩
      · rw [lineOf_concat, holds.universal]
        exact (or_iff_left fun both => universal both.2).symm
      · rw [lineOf_concat, TagIndex.mem_bitmap_foldl_add, holds.tagged]
        exact or_congr_right ⟨fun both => ⟨both.2.symm, universal, both.1⟩,
          fun both => ⟨both.2.2, both.1.symm⟩⟩
      · exact ((mem_foldl_add _ _ _ _).mp member).elim holds.never universal

/-- After every number of lines the bitmaps hold the vectors of the lines. -/
theorem holds_addLines (universalTag : Tag) (lines : List (List Char)) :
    Holds universalTag (init.addLines universalTag lines).1 lines ∧
      (init.addLines universalTag lines).2 = UInt32.ofNat lines.length := by
  induction lines using List.reverseRecOn with
  | nil => exact ⟨holds_init universalTag, rfl⟩
  | append_singleton lines line inductionHypothesis =>
    obtain ⟨holds, counted⟩ := inductionHypothesis
    have added : init.addLines universalTag (lines ++ [line]) =
        ((init.addLines universalTag lines).1.addLine universalTag
          (init.addLines universalTag lines).2 line,
          (init.addLines universalTag lines).2 + 1) := List.foldl_concat _ _ _ _
    rw [added, counted, List.length_append]
    exact ⟨holds.addLine line, (UInt32.ofNat_add _ _).symm⟩

end Builder

/-! ### The round trip -/

/-- The tags of a line match a query. -/
def Matches (universalTag : Tag) (query tags : List Tag) : Prop :=
  universalTag ∈ tags ∨ query ≠ [] ∧ ∀ tag ∈ query, tag ∈ tags

/-- A searcher that loads what a builder has written answers every query with the numbers
of the lines that match it. -/
def BuildReadBack (roaring : Roaring) (universalTag : Tag) (text : List Char) : Prop :=
  ∃ file, readIndex roaring (Builder.init.build roaring universalTag text).2 = some file ∧
    ∀ (searcher : Searcher) (query : List Tag) (number : Nat),
      (∃ vid ∈ (searcher.load file).query query, vid.toNat = number) ↔
        ∃ line, (getlines '\n' text)[number]? = some line ∧
          Matches universalTag query (parseLine line)

variable {roaring : Roaring}

theorem readIndex_build (inverse : roaring.Inverse) (small : roaring.Small) (universalTag : Tag)
    (text : List Char) :
    readIndex roaring (Builder.init.build roaring universalTag text).2 =
      some (Builder.init.addLines universalTag (getlines '\n' text)).1.file := by
  obtain ⟨holds, -⟩ := Builder.holds_addLines universalTag (getlines '\n' text)
  refine readIndex_writeIndex_of_lt inverse small ?_
  show (List.map _ _).length < _
  rw [List.length_map, Finset.length_sort]
  exact card_lt_of_notMem fun member => holds.never (Finmap.mem_keys.mp member)

/-- What a query on the built index gives, by the lines. -/
theorem Builder.Holds.mem_query {universalTag : Tag} {builder : Builder}
    {lines : List (List Char)} (holds : Builder.Holds universalTag builder lines)
    (searcher : Searcher) (query : List Tag) (vid : VectorId) :
    vid ∈ (searcher.load builder.file).query query ↔
      LineOf lines vid (universalTag ∈ ·) ∨ query ≠ [] ∧
        ∀ tag ∈ query, LineOf lines vid fun tags => universalTag ∉ tags ∧ tag ∈ tags := by
  have universal : (searcher.load builder.file).universalBitmap = builder.universalBitmap :=
    Finset.union_empty _
  have tagged : ∀ tag, (searcher.load builder.file).tagBitmap tag =
      builder.invertedIndex.bitmap tag := by
    intro tag
    show TagIndex.bitmap _ tag ∪ TagIndex.bitmap ∅ tag = _
    rw [TagIndex.bitmap_empty, Finset.union_empty]
    exact builder.invertedIndex.bitmap_foldl_entries tag
  rw [Searcher.mem_query, Searcher.mem_queryBitmap, universal, holds.universal]
  simp only [tagged, holds.tagged]
  exact and_iff_right (Finset.notMem_empty vid)

/-- The lines whose numbers do not fit `vector_id` have no tags. -/
def LateLinesEmpty (lines : List (List Char)) : Prop :=
  ∀ number line, 2 ^ 32 ≤ number → lines[number]? = some line → parseLine line = []

theorem LateLinesEmpty.lineOf_iff {lines : List (List Char)} (empty : LateLinesEmpty lines)
    (property : List Tag → Prop) (nonempty : ¬ property []) (vid : VectorId) :
    LineOf lines vid property ↔
      ∃ line, lines[vid.toNat]? = some line ∧ property (parseLine line) := by
  constructor
  · intro ⟨number, line, there, same, has⟩
    obtain early | late := Nat.lt_or_ge number (2 ^ 32)
    · obtain rfl : vid.toNat = number := by
        rw [← same]
        exact UInt32.toNat_ofNat_of_lt' early
      exact ⟨line, there, has⟩
    · rw [empty number line late there] at has
      exact absurd has nonempty
  · intro ⟨line, there, has⟩
    exact ⟨vid.toNat, line, there, UInt32.ofNat_toNat, has⟩

/-- A label file is answered for by its index exactly when no line whose number has more
than 32 bits has a tag. -/
theorem buildReadBack_iff (inverse : roaring.Inverse) (small : roaring.Small) (universalTag : Tag)
    (text : List Char) :
    BuildReadBack roaring universalTag text ↔ LateLinesEmpty (getlines '\n' text) := by
  obtain ⟨holds, -⟩ := Builder.holds_addLines universalTag (getlines '\n' text)
  have read := readIndex_build inverse small universalTag text
  constructor
  · intro ⟨file, loaded, answers⟩ number line late there
    by_contra some
    obtain ⟨tag, member⟩ := List.exists_mem_of_ne_nil _ some
    obtain ⟨vid, -, same⟩ := (answers Searcher.init [tag] number).mpr
      ⟨line, there, Or.inr ⟨List.cons_ne_nil _ _, List.forall_mem_singleton.mpr member⟩⟩
    exact Nat.not_lt.mpr late (same ▸ vid.toNat_lt)
  · intro empty
    refine ⟨_, read, fun searcher query number => ?_⟩
    have universalLines := empty.lineOf_iff (universalTag ∈ ·) List.not_mem_nil
    have taggedLines := fun tag => empty.lineOf_iff
      (fun tags => universalTag ∉ tags ∧ tag ∈ tags) fun both => List.not_mem_nil both.2
    constructor
    · intro ⟨vid, answered, same⟩
      rw [← same]
      obtain universal | ⟨nonempty, tagged⟩ := (holds.mem_query searcher query vid).mp answered
      · obtain ⟨line, there, has⟩ := (universalLines vid).mp universal
        exact ⟨line, there, Or.inl has⟩
      · obtain ⟨first, member⟩ := List.exists_mem_of_ne_nil query nonempty
        obtain ⟨line, there, -⟩ := (taggedLines first vid).mp (tagged first member)
        refine ⟨line, there, Or.inr ⟨nonempty, fun tag member => ?_⟩⟩
        obtain ⟨other, also, -, has⟩ := (taggedLines tag vid).mp (tagged tag member)
        obtain rfl := Option.some.inj (there.symm.trans also)
        exact has
    · intro ⟨line, there, isMatch⟩
      have early : number < 2 ^ 32 := by
        by_contra late
        rw [empty number line (Nat.not_lt.mp late) there] at isMatch
        obtain universal | ⟨nonempty, tagged⟩ := isMatch
        · exact List.not_mem_nil universal
        · obtain ⟨first, member⟩ := List.exists_mem_of_ne_nil query nonempty
          exact List.not_mem_nil (tagged first member)
      have same : (UInt32.ofNat number).toNat = number := UInt32.toNat_ofNat_of_lt' early
      refine ⟨UInt32.ofNat number, (holds.mem_query searcher query _).mpr ?_, same⟩
      by_cases universal : universalTag ∈ parseLine line
      · exact Or.inl ⟨number, line, there, rfl, universal⟩
      · obtain ⟨nonempty, tagged⟩ := isMatch.resolve_left universal
        exact Or.inr ⟨nonempty, fun tag member =>
          ⟨number, line, there, rfl, universal, tagged tag member⟩⟩

/-- A label file and a merged file are read back as they should exactly when no line whose
number has more than 32 bits has a tag, and some tag is left without a vector. -/
theorem index_files_round_trip (inverse : roaring.Inverse) (small : roaring.Small)
    (universalTag : Tag) (text : List Char) (searcher : Searcher) :
    (BuildReadBack roaring universalTag text ↔ LateLinesEmpty (getlines '\n' text)) ∧
      (searcher.MergeReadBack roaring ↔
        ∃ tag, searcher.tagBitmap tag ⊆ searcher.deletedBitmap) :=
  ⟨buildReadBack_iff inverse small universalTag text, searcher.mergeReadBack_iff inverse small⟩

/-! ### A format of the bitmaps -/

/-- The bits of a bitmap, one for each vector. -/
def bitSet (bitmap : Bitmap) : Binary.Bytes :=
  Binary.bytesOf (2 ^ 29) (∑ position ∈ bitmap.image UInt32.toNat, 2 ^ position)

/-- The bitmap of the bits. -/
def ofBitSet (bytes : Binary.Bytes) : Bitmap :=
  (Binary.valueOf bytes).bitIndices.toFinset.image UInt32.ofNat

theorem ofBitSet_bitSet (bitmap : Bitmap) : ofBitSet (bitSet bitmap) = bitmap := by
  have below : ∀ position ∈ bitmap.image UInt32.toNat, position < 2 ^ 32 := by
    intro position member
    obtain ⟨vid, -, rfl⟩ := Finset.mem_image.mp member
    exact vid.toNat_lt
  have sum := Nat.geomSum_lt le_rfl below
  have width : 256 ^ (2 ^ 29) = 2 ^ (2 ^ 32) := by
    rw [show 2 ^ 32 = 8 * 2 ^ 29 by rfl, Nat.pow_mul]
  unfold ofBitSet bitSet
  rw [Binary.valueOf_bytesOf (by rw [width]; exact sum), Finset.toFinset_bitIndices_sum_two_pow,
    Finset.image_image]
  refine (Finset.image_congr fun vid _ => ?_).trans Finset.image_id
  exact UInt32.ofNat_toNat

/-- Roaring's portable format of a bitmap of one small vector: the cookie, one container, its key
and cardinality, where it begins, and its value. -/
def singletonBytes (vid : UInt8) : Binary.Bytes :=
  [0x3A, 0x30, 0, 0, 1, 0, 0, 0, 0, 0, 0, 0, 16, 0, 0, 0, vid, 0]

/-- Roaring's portable format of the empty bitmap and of those of the vectors 0 and 2, and bit sets
of the others. -/
def sampleRoaring : Roaring where
  write bitmap :=
    if bitmap = ∅ then [0x3A, 0x30, 0, 0, 0, 0, 0, 0]
    else if bitmap = {0} then singletonBytes 0
    else if bitmap = {2} then singletonBytes 2
    else bitSet bitmap
  read bytes :=
    if bytes.length = 8 then ∅
    else if bytes.length = 18 then {(bytes.getD 16 0).toUInt32}
    else ofBitSet bytes

theorem sampleRoaring_inverse : sampleRoaring.Inverse := by
  intro bitmap
  unfold sampleRoaring
  dsimp only
  by_cases empty : bitmap = ∅
  · rw [if_pos empty, empty]
    rfl
  rw [if_neg empty]
  by_cases first : bitmap = {0}
  · rw [if_pos first, first]
    rfl
  rw [if_neg first]
  by_cases third : bitmap = {2}
  · rw [if_pos third, third]
    rfl
  · have length : (bitSet bitmap).length = 2 ^ 29 := Binary.length_bytesOf _ _
    rw [if_neg third, length, if_neg (by decide), if_neg (by decide), ofBitSet_bitSet]

theorem sampleRoaring_small : sampleRoaring.Small := by
  intro bitmap
  unfold sampleRoaring
  dsimp only
  split_ifs
  · decide
  · decide
  · decide
  · rw [bitSet, Binary.length_bytesOf]
    decide

/-- A line with the universal tag 7 and another one twice, an empty line, and a line with the other
tag. -/
def sampleText : List Char := ['5', ',', '5', ',', '7', '\n', '\n', '5']

/-- A vector with a tag, one that is deleted again, and a universal one. -/
def sampleSearcher : Searcher :=
  (((Searcher.init.insert 0 [5]).insert 1 [5]).remove 1).insert 2 [-1]

/-- The bitmaps that are written are those of the vectors 0 and 2. -/
theorem index_files_round_trip_sample :
    BuildReadBack sampleRoaring 7 sampleText ∧ sampleSearcher.MergeReadBack sampleRoaring := by
  obtain ⟨build, merge⟩ := index_files_round_trip sampleRoaring_inverse sampleRoaring_small 7
    sampleText sampleSearcher
  refine ⟨build.mpr fun number line late there => ?_, merge.mpr ⟨6, by decide⟩⟩
  have past : (getlines '\n' sampleText).length ≤ number :=
    (by decide : (getlines '\n' sampleText).length ≤ 2 ^ 32).trans late
  exact absurd ((List.getElem?_eq_none past).symm.trans there) nofun

theorem getlines_replicate (count : Nat) (text : List Char) :
    getlines '\n' (List.replicate count '\n' ++ text) =
      List.replicate count [] ++ getlines '\n' text := by
  induction count with
  | zero => rfl
  | succ count inductionHypothesis =>
    rw [List.replicate_succ, List.replicate_succ, List.cons_append, List.cons_append,
      ← inductionHypothesis]
    exact if_pos rfl

/-- A line with a tag after `2 ^ 32` empty lines. -/
theorem index_files_late_line :
    ¬ ∀ roaring : Roaring, roaring.Inverse → roaring.Small →
      ∀ (universalTag : Tag) (text : List Char) (searcher : Searcher),
        BuildReadBack roaring universalTag text ∧ searcher.MergeReadBack roaring := by
  intro reads
  have build := (reads sampleRoaring sampleRoaring_inverse sampleRoaring_small 7
    (List.replicate (2 ^ 32) '\n' ++ ['6']) Searcher.init).1
  have empty := (buildReadBack_iff sampleRoaring_inverse sampleRoaring_small _ _).mp build
  have there : (getlines '\n' (List.replicate (2 ^ 32) '\n' ++ ['6']))[2 ^ 32]? = some ['6'] := by
    rw [getlines_replicate, List.getElem?_append_right List.length_replicate.le,
      List.length_replicate, Nat.sub_self]
    rfl
  have parsed := empty (2 ^ 32) ['6'] le_rfl there
  exact absurd parsed (by decide)

end OdinVector.Inverted
