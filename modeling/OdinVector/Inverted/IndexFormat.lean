/-
This file models the bytes of an index file: the magic number, the universal bitmap,
the number of tags in 32 bits, and every tag with its bitmap, where each bitmap has
its size in front. `build` and `merge` write it, and `load` reads it.

What Roaring makes of a bitmap is a parameter, with the two things that the format
relies on: reading what was written gives the bitmap back, and its size fits 32 bits.
-/

import OdinVector.Binary
import OdinVector.Inverted.Merging

namespace OdinVector.Inverted

open Binary (Bytes)

/-! ### Writing and reading -/

/-- `roaring::Roaring::write` and `roaring::Roaring::read`. -/
structure Roaring where
  write : Bitmap → Bytes
  read : Bytes → Bitmap

/-- What a bitmap is written as is read as the bitmap. -/
def Roaring.Inverse (roaring : Roaring) : Prop :=
  ∀ bitmap, roaring.read (roaring.write bitmap) = bitmap

/-- `getSizeInBytes` fits `uint32_t`. -/
def Roaring.Small (roaring : Roaring) : Prop :=
  ∀ bitmap, (roaring.write bitmap).length < 2 ^ 32

variable (roaring : Roaring)

/-- `INDEX_MAGIC`. -/
def indexMagic : UInt32 := 0xAA55AA55

/-- `write_bitmap`. -/
def writeBitmap (bitmap : Bitmap) : Bytes :=
  wordBytes (UInt32.ofNat (roaring.write bitmap).length) ++ roaring.write bitmap

/-- A tag and its bitmap. -/
def writeEntry (entry : Tag × Bitmap) : Bytes :=
  wordBytes entry.1.toUInt32 ++ writeBitmap roaring entry.2

/-- The file that `build` and `merge` write; `uint32_t map_size` keeps 32 bits. -/
def writeIndex (file : IndexFile) : Bytes :=
  wordBytes indexMagic ++ (writeBitmap roaring file.universalBitmap ++
    (wordBytes (UInt32.ofNat file.tagBitmaps.length) ++
      file.tagBitmaps.flatMap (writeEntry roaring)))

/-- The next word; `none` is a read past the end, which the code does not check for. -/
def takeWord (stream : Bytes) : Option (UInt32 × Bytes) :=
  (Binary.readBytes 4 stream).map fun (bytes, rest) => (wordOf bytes, rest)

/-- `read_bitmap`. -/
def readBitmap (stream : Bytes) : Option (Bitmap × Bytes) :=
  (takeWord stream).bind fun (size, stream) =>
    (Binary.readBytes size.toNat stream).map fun (buffer, rest) => (roaring.read buffer, rest)

/-- A tag and its bitmap. -/
def readEntry (stream : Bytes) : Option ((Tag × Bitmap) × Bytes) :=
  (takeWord stream).bind fun (tagId, stream) =>
    (readBitmap roaring stream).map fun (bitmap, rest) => ((tagId.toInt32, bitmap), rest)

/-- What `load` reads; `none` is also the exception for another magic number. -/
def readIndex (stream : Bytes) : Option IndexFile :=
  (takeWord stream).bind fun (magic, stream) =>
    if magic ≠ indexMagic then none
    else
      (readBitmap roaring stream).bind fun (universal, stream) =>
        (takeWord stream).bind fun (mapSize, stream) =>
          (Binary.readAll (readEntry roaring) mapSize.toNat stream).map fun (entries, _) =>
            ⟨universal, entries⟩

/-! ### The round trip -/

theorem takeWord_append (word : UInt32) (rest : Bytes) :
    takeWord (wordBytes word ++ rest) = some (word, rest) := by
  unfold takeWord
  rw [Binary.readBytes_append (length_wordBytes word), Option.map_some]
  exact congrArg (fun word => some (word, rest)) (wordOf_wordBytes word)

variable {roaring}

theorem readBitmap_append (inverse : roaring.Inverse) (small : roaring.Small) (bitmap : Bitmap)
    (rest : Bytes) :
    readBitmap roaring (writeBitmap roaring bitmap ++ rest) = some (bitmap, rest) := by
  unfold readBitmap writeBitmap
  have size : (UInt32.ofNat (roaring.write bitmap).length).toNat = (roaring.write bitmap).length :=
    UInt32.toNat_ofNat_of_lt' (small bitmap)
  rw [List.append_assoc, takeWord_append, Option.bind_some]
  dsimp only
  rw [size, Binary.readBytes_append rfl, Option.map_some]
  exact congrArg (fun bitmap => some (bitmap, rest)) (inverse bitmap)

theorem readEntry_append (inverse : roaring.Inverse) (small : roaring.Small)
    (entry : Tag × Bitmap) (rest : Bytes) :
    readEntry roaring (writeEntry roaring entry ++ rest) = some (entry, rest) := by
  unfold readEntry writeEntry
  rw [List.append_assoc, takeWord_append, Option.bind_some]
  dsimp only
  rw [readBitmap_append inverse small, Option.map_some]
  rfl

/-- A file is read as it was written, up to the entries that the 32 bits of the number
of tags do not count. -/
theorem readIndex_writeIndex (inverse : roaring.Inverse) (small : roaring.Small)
    (file : IndexFile) :
    readIndex roaring (writeIndex roaring file) =
      some ⟨file.universalBitmap,
        file.tagBitmaps.take (file.tagBitmaps.length % 2 ^ 32)⟩ := by
  have mapSize : (UInt32.ofNat file.tagBitmaps.length).toNat =
      (file.tagBitmaps.take (file.tagBitmaps.length % 2 ^ 32)).length := by
    rw [List.length_take, Nat.min_eq_left (Nat.mod_le _ _)]
    exact UInt32.toNat_ofNat'
  have entries : file.tagBitmaps.flatMap (writeEntry roaring) =
      (file.tagBitmaps.take (file.tagBitmaps.length % 2 ^ 32)).flatMap (writeEntry roaring) ++
        (file.tagBitmaps.drop (file.tagBitmaps.length % 2 ^ 32)).flatMap (writeEntry roaring) := by
    rw [← List.flatMap_append, List.take_append_drop]
  unfold readIndex writeIndex
  rw [takeWord_append, Option.bind_some]
  dsimp only
  rw [if_neg (not_not_intro rfl), readBitmap_append inverse small, Option.bind_some]
  dsimp only
  rw [takeWord_append, Option.bind_some]
  dsimp only
  rw [mapSize, entries, Binary.readAll_append fun entry _ => readEntry_append inverse small entry,
    Option.map_some]

/-- A file whose number of tags fits 32 bits is read as it was written. -/
theorem readIndex_writeIndex_of_lt (inverse : roaring.Inverse) (small : roaring.Small)
    {file : IndexFile} (fits : file.tagBitmaps.length < 2 ^ 32) :
    readIndex roaring (writeIndex roaring file) = some file := by
  rw [readIndex_writeIndex inverse small, Nat.mod_eq_of_lt fits, List.take_length]

/-! ### The number of tags -/

/-- There are `2 ^ 32` tags. -/
theorem card_le_of_tags (tags : Finset Tag) : tags.card ≤ 2 ^ 32 := by
  have injective : Set.InjOn (fun tag : Tag => tag.toUInt32.toNat) tags := by
    intro first _ second _ same
    exact congrArg UInt32.toInt32 (UInt32.toNat_inj.mp same)
  have bounded : Set.MapsTo (fun tag : Tag => tag.toUInt32.toNat) tags (Finset.range (2 ^ 32)) :=
    fun tag _ => Finset.mem_coe.mpr (Finset.mem_range.mpr tag.toUInt32.toNat_lt)
  have counted := Finset.card_le_card_of_injOn _ bounded injective
  rwa [Finset.card_range] at counted

theorem card_lt_of_notMem {tags : Finset Tag} {tag : Tag} (absent : tag ∉ tags) :
    tags.card < 2 ^ 32 := by
  have counted := card_le_of_tags (insert tag tags)
  rw [Finset.card_insert_of_notMem absent] at counted
  exact counted

theorem card_eq_of_forall_mem {tags : Finset Tag} (all : ∀ tag, tag ∈ tags) :
    tags.card = 2 ^ 32 := by
  refine le_antisymm (card_le_of_tags tags) ?_
  have injective : Set.InjOn (fun number => (UInt32.ofNat number).toInt32)
      (Finset.range (2 ^ 32)) := by
    intro first firstBelow second secondBelow same
    have words : UInt32.ofNat first = UInt32.ofNat second := congrArg Int32.toUInt32 same
    have numbers := congrArg UInt32.toNat words
    rwa [UInt32.toNat_ofNat_of_lt' (Finset.mem_range.mp (Finset.mem_coe.mp firstBelow)),
      UInt32.toNat_ofNat_of_lt' (Finset.mem_range.mp (Finset.mem_coe.mp secondBelow))] at numbers
  have counted := Finset.card_le_card_of_injOn _ (fun number _ => all _) injective
  rwa [Finset.card_range] at counted

theorem TagIndex.mem_foldl_insert_nonempty (bitmapOf : Tag → Bitmap) (tags : List Tag)
    (index : TagIndex) (other : Tag) :
    other ∈ tags.foldl (fun index tag =>
      if bitmapOf tag = ∅ then index else Finmap.insert tag (bitmapOf tag) index) index ↔
      other ∈ index ∨ other ∈ tags ∧ bitmapOf other ≠ ∅ := by
  induction tags generalizing index with
  | nil => exact (or_iff_left fun both => List.not_mem_nil both.1).symm
  | cons tag rest inductionHypothesis =>
    rw [List.foldl_cons, inductionHypothesis, List.mem_cons]
    by_cases empty : bitmapOf tag = ∅
    · rw [if_pos empty]
      refine or_congr_right (and_congr_left fun something => (or_iff_right fun same => ?_).symm)
      exact something (same ▸ empty)
    · rw [if_neg empty, Finmap.mem_insert]
      constructor
      · intro either
        obtain (same | before) | ⟨listed, something⟩ := either
        · exact Or.inr ⟨Or.inl same, same ▸ empty⟩
        · exact Or.inl before
        · exact Or.inr ⟨Or.inr listed, something⟩
      · intro either
        obtain before | ⟨same | listed, something⟩ := either
        · exact Or.inl (Or.inr before)
        · exact Or.inl (Or.inl same)
        · exact Or.inr ⟨listed, something⟩

namespace Searcher

variable (searcher : Searcher)

theorem length_mergedFile : searcher.mergedFile.tagBitmaps.length = searcher.newIndex.keys.card := by
  show (List.map _ _).length = _
  rw [List.length_map, Finset.length_sort]

/-- The file that a merge writes is read as the bitmaps that the merge has computed. -/
def MergeReadBack (roaring : Roaring) : Prop :=
  ∃ file, readIndex roaring (writeIndex roaring searcher.mergedFile) = some file ∧
    ∀ fresh : Searcher,
      (fresh.load file).diskUniversalBitmap = searcher.universalBitmap \ searcher.deletedBitmap ∧
        ∀ tag, (fresh.load file).diskIndex.bitmap tag =
          searcher.tagBitmap tag \ searcher.deletedBitmap

/-- A tag is in the new index when one of its vectors is not deleted. -/
theorem mem_newIndex (tag : Tag) :
    tag ∈ searcher.newIndex ↔ ¬ searcher.tagBitmap tag ⊆ searcher.deletedBitmap := by
  refine (TagIndex.mem_foldl_insert_nonempty
    (fun tag => searcher.tagBitmap tag \ searcher.deletedBitmap) _ ∅ tag).trans ?_
  rw [← Finset.sdiff_eq_empty_iff_subset]
  refine (or_iff_right Finmap.notMem_empty).trans (and_iff_right_of_imp fun something => ?_)
  by_contra absent
  rw [tagBitmap_of_notMem_allTags searcher absent, Finset.empty_sdiff] at something
  exact something rfl

/-- The merged file is read back exactly when some tag is left without a vector. -/
theorem mergeReadBack_iff (inverse : roaring.Inverse) (small : roaring.Small) :
    searcher.MergeReadBack roaring ↔ ∃ tag, searcher.tagBitmap tag ⊆ searcher.deletedBitmap := by
  constructor
  · intro ⟨file, read, loads⟩
    by_contra none
    have everywhere : ∀ tag, tag ∈ searcher.newIndex.keys := fun tag =>
      Finmap.mem_keys.mpr ((searcher.mem_newIndex tag).mpr fun gone => none ⟨tag, gone⟩)
    rw [readIndex_writeIndex inverse small, length_mergedFile, card_eq_of_forall_mem everywhere,
      Nat.mod_self, List.take_zero] at read
    obtain rfl := Option.some.inj read
    have loaded := (loads init).2 0
    have empty : (init.load ⟨searcher.mergedFile.universalBitmap, []⟩).diskIndex.bitmap 0 = ∅ :=
      TagIndex.bitmap_empty 0
    rw [empty] at loaded
    exact none ⟨0, Finset.sdiff_eq_empty_iff_subset.mp loaded.symm⟩
  · intro ⟨tag, gone⟩
    have absent : tag ∉ searcher.newIndex.keys := fun member =>
      (searcher.mem_newIndex tag).mp (Finmap.mem_keys.mp member) gone
    have fits : searcher.mergedFile.tagBitmaps.length < 2 ^ 32 := by
      rw [length_mergedFile]
      exact card_lt_of_notMem absent
    refine ⟨_, readIndex_writeIndex_of_lt inverse small fits, fun fresh => ⟨rfl, fun tag => ?_⟩⟩
    exact searcher.bitmap_load_mergedFile fresh tag

end Searcher

end OdinVector.Inverted
