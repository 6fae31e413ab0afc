/-
This file models `InvertedIndexSearcher`: the bitmaps of each tag and of the
universal vectors, in a layer that `load` reads from a file and a layer that the
operations write to, and the bitmap of the deleted vectors. A removal only adds to
the deleted vectors, and an insertion only takes its vector out of them, so a vector
that comes back answers for every tag that it has had since the file was built.

A Roaring bitmap is the finite set of its elements. Files are modelled up to the
encoding of the bitmaps and the magic number.
-/

import Mathlib.Data.Finmap
import Mathlib.Data.Finset.Sort
import Mathlib.Order.Fin.Basic
import Mathlib.Data.UInt

namespace OdinVector.Inverted

/-! ### The bitmaps -/

/-- `uint32_t vid`. -/
abbrev VectorId := UInt32

/-- `int tag`. -/
abbrev Tag := Int32

instance tagTrans : IsTrans Tag (· ≤ ·) := inferInstance

/-- `roaring::Roaring`. -/
abbrev Bitmap := Finset VectorId

/-- `std::map<int, roaring::Roaring>`. -/
abbrev TagIndex := Finmap fun _ : Tag => Bitmap

/-- The bitmap that `find` gives for a tag, and the empty one at `end`. -/
def TagIndex.bitmap (index : TagIndex) (tag : Tag) : Bitmap :=
  (index.lookup tag).getD ∅

/-- `index[tag].add(vid)`. -/
def TagIndex.add (index : TagIndex) (tag : Tag) (vid : VectorId) : TagIndex :=
  Finmap.insert tag (insert vid (index.bitmap tag)) index

@[simp] theorem TagIndex.bitmap_empty (tag : Tag) : TagIndex.bitmap ∅ tag = ∅ := by
  unfold TagIndex.bitmap
  rw [Finmap.lookup_empty]
  rfl

theorem TagIndex.bitmap_insert (index : TagIndex) (tag other : Tag) (bitmap : Bitmap) :
    TagIndex.bitmap (Finmap.insert tag bitmap index) other =
      if tag = other then bitmap else index.bitmap other := by
  unfold TagIndex.bitmap
  by_cases same : tag = other
  · rw [if_pos same, ← same, Finmap.lookup_insert]
    rfl
  · rw [if_neg same, Finmap.lookup_insert_of_ne _ (Ne.symm same)]

theorem TagIndex.bitmap_add (index : TagIndex) (tag other : Tag) (vid : VectorId) :
    (index.add tag vid).bitmap other =
      if tag = other then insert vid (index.bitmap tag) else index.bitmap other :=
  index.bitmap_insert tag other _

theorem TagIndex.bitmap_of_notMem {index : TagIndex} {tag : Tag} (absent : tag ∉ index) :
    index.bitmap tag = ∅ := by
  unfold TagIndex.bitmap
  rw [Finmap.lookup_eq_none.mpr absent]
  rfl

/-! ### The records of the log -/

/-- The bytes of a word as `write` puts them, lowest first. -/
def wordBytes (word : UInt32) : List UInt8 :=
  [UInt8.ofNat word.toNat, UInt8.ofNat (word.toNat / 256), UInt8.ofNat (word.toNat / 65536),
    UInt8.ofNat (word.toNat / 16777216)]

/-- `WalOp::INSERT`. -/
def opInsert : UInt8 := 1

/-- `WalOp::REMOVE`. -/
def opRemove : UInt8 := 2

/-- What `_append_wal_insert` writes; `uint32_t count = tags.size()` keeps 32 bits. -/
def walInsert (vid : VectorId) (tags : List Tag) : List UInt8 :=
  opInsert :: wordBytes vid ++ wordBytes (UInt32.ofNat tags.length) ++
    tags.flatMap fun tag => wordBytes tag.toUInt32

/-- What `_append_wal_remove` writes. -/
def walRemove (vid : VectorId) : List UInt8 :=
  opRemove :: wordBytes vid

/-! ### The searcher -/

/-- What `load` reads of a file: `merge` and `build` write it. -/
structure IndexFile where
  universalBitmap : Bitmap
  tagBitmaps : List (Tag × Bitmap)

/-- The fields of `InvertedIndexSearcher`. -/
structure Searcher where
  diskIndex : TagIndex
  diskUniversalBitmap : Bitmap
  memIndex : TagIndex
  memUniversalBitmap : Bitmap
  deletedBitmap : Bitmap
  universalTag : Tag
  /-- The file behind `_wal_stream` while it is open. -/
  wal : Option (List UInt8)

namespace Searcher

/-- A searcher as it is constructed. -/
def init : Searcher where
  diskIndex := ∅
  diskUniversalBitmap := ∅
  memIndex := ∅
  memUniversalBitmap := ∅
  deletedBitmap := ∅
  universalTag := -1
  wal := none

/-- `set_universal_tag`. -/
def setUniversalTag (searcher : Searcher) (tag : Tag) : Searcher :=
  { searcher with universalTag := tag }

/-- `load`. -/
def load (searcher : Searcher) (file : IndexFile) : Searcher :=
  { searcher with
    diskUniversalBitmap := file.universalBitmap
    diskIndex := file.tagBitmaps.foldl (fun index entry => Finmap.insert entry.1 entry.2 index) ∅
    memIndex := ∅
    memUniversalBitmap := ∅
    deletedBitmap := ∅ }

/-- `open_wal` on a file that holds `content`. -/
def openWal (searcher : Searcher) (content : List UInt8) : Searcher :=
  { searcher with wal := some content }

/-- `_append_wal_insert` and `_append_wal_remove`, with the record of the operation. -/
def appendWal (searcher : Searcher) (record : List UInt8) : Searcher :=
  { searcher with wal := searcher.wal.map (· ++ record) }

/-- `_apply_insert_to_mem`. -/
def applyInsertToMem (searcher : Searcher) (vid : VectorId) (tags : List Tag) : Searcher :=
  let written :=
    if searcher.universalTag ∈ tags then
      { searcher with memUniversalBitmap := insert vid searcher.memUniversalBitmap }
    else
      { searcher with memIndex := tags.foldl (fun index tag => index.add tag vid) searcher.memIndex }
  { written with deletedBitmap := searcher.deletedBitmap.erase vid }

/-- `_apply_remove_to_mem`. -/
def applyRemoveToMem (searcher : Searcher) (vid : VectorId) : Searcher :=
  { searcher with deletedBitmap := insert vid searcher.deletedBitmap }

/-- `insert`. -/
def insert (searcher : Searcher) (vid : VectorId) (tags : List Tag) : Searcher :=
  (searcher.appendWal (walInsert vid tags)).applyInsertToMem vid tags

/-- `remove`. -/
def remove (searcher : Searcher) (vid : VectorId) : Searcher :=
  (searcher.appendWal (walRemove vid)).applyRemoveToMem vid

/-- The bitmap of a tag over both layers. -/
def tagBitmap (searcher : Searcher) (tag : Tag) : Bitmap :=
  searcher.diskIndex.bitmap tag ∪ searcher.memIndex.bitmap tag

/-- The universal bitmap over both layers. -/
def universalBitmap (searcher : Searcher) : Bitmap :=
  searcher.diskUniversalBitmap ∪ searcher.memUniversalBitmap

/-- `query_bitmap`. -/
def queryBitmap (searcher : Searcher) (tags : List Tag) : Bitmap :=
  match tags with
  | [] => searcher.universalBitmap \ searcher.deletedBitmap
  | tag :: rest =>
    let result := rest.foldl (fun result tag => result ∩ searcher.tagBitmap tag)
      (searcher.tagBitmap tag)
    (result ∪ searcher.universalBitmap) \ searcher.deletedBitmap

/-- `query`. -/
def query (searcher : Searcher) (tags : List Tag) : List VectorId :=
  (searcher.queryBitmap tags).sort (· ≤ ·)

/-! ### What a query answers -/

theorem mem_foldl_inter (searcher : Searcher) (tags : List Tag) (result : Bitmap)
    (vid : VectorId) :
    vid ∈ tags.foldl (fun result tag => result ∩ searcher.tagBitmap tag) result ↔
      vid ∈ result ∧ ∀ tag ∈ tags, vid ∈ searcher.tagBitmap tag := by
  induction tags generalizing result with
  | nil => simp only [List.foldl_nil, List.not_mem_nil, false_imp_iff, implies_true, and_true]
  | cons tag rest inductionHypothesis =>
    rw [List.foldl_cons, inductionHypothesis, Finset.mem_inter, List.forall_mem_cons, and_assoc]

/-- A query answers with the vectors that are not deleted and universal or under each tag. -/
theorem mem_queryBitmap (searcher : Searcher) (tags : List Tag) (vid : VectorId) :
    vid ∈ searcher.queryBitmap tags ↔
      vid ∉ searcher.deletedBitmap ∧
        (vid ∈ searcher.universalBitmap ∨
          tags ≠ [] ∧ ∀ tag ∈ tags, vid ∈ searcher.tagBitmap tag) := by
  unfold queryBitmap
  split
  · rw [Finset.mem_sdiff, and_comm]
    simp only [ne_eq, not_true_eq_false, false_and, or_false]
  · rename_i tag rest
    rw [Finset.mem_sdiff, Finset.mem_union, mem_foldl_inter, and_comm, or_comm,
      List.forall_mem_cons]
    simp only [ne_eq, reduceCtorEq, not_false_eq_true, true_and]

theorem mem_query (searcher : Searcher) (tags : List Tag) (vid : VectorId) :
    vid ∈ searcher.query tags ↔ vid ∈ searcher.queryBitmap tags :=
  Finset.mem_sort _

/-- A query lists each vector once. -/
theorem nodup_query (searcher : Searcher) (tags : List Tag) : (searcher.query tags).Nodup :=
  Finset.sort_nodup _ _

end Searcher

/-! ### What the operations change -/

theorem TagIndex.mem_bitmap_foldl_add (index : TagIndex) (tags : List Tag) (tag : Tag)
    (vid other : VectorId) :
    other ∈ (tags.foldl (fun index tag => index.add tag vid) index).bitmap tag ↔
      other ∈ index.bitmap tag ∨ tag ∈ tags ∧ other = vid := by
  induction tags generalizing index with
  | nil => simp only [List.foldl_nil, List.not_mem_nil, false_and, or_false]
  | cons head rest inductionHypothesis =>
    rw [List.foldl_cons, inductionHypothesis, TagIndex.bitmap_add, List.mem_cons]
    by_cases same : head = tag
    · rw [if_pos same, same, Finset.mem_insert]
      tauto
    · rw [if_neg same]
      have notHead : tag ≠ head := Ne.symm same
      tauto

namespace Searcher

variable (searcher : Searcher) (vid : VectorId) (tags : List Tag)

theorem mem_tagBitmap_applyInsertToMem (tag : Tag) (other : VectorId) :
    other ∈ (searcher.applyInsertToMem vid tags).tagBitmap tag ↔
      other ∈ searcher.tagBitmap tag ∨
        searcher.universalTag ∉ tags ∧ tag ∈ tags ∧ other = vid := by
  unfold applyInsertToMem tagBitmap
  simp only [Finset.mem_union]
  split
  · rename_i universal
    simp only [universal, not_true_eq_false, false_and, or_false]
  · rename_i labelled
    rw [TagIndex.mem_bitmap_foldl_add]
    simp only [labelled, not_false_eq_true, true_and, or_assoc]

theorem mem_universalBitmap_applyInsertToMem (other : VectorId) :
    other ∈ (searcher.applyInsertToMem vid tags).universalBitmap ↔
      other ∈ searcher.universalBitmap ∨ searcher.universalTag ∈ tags ∧ other = vid := by
  unfold applyInsertToMem universalBitmap
  simp only [Finset.mem_union]
  split
  · rename_i universal
    simp only [universal, true_and, Finset.mem_insert]
    tauto
  · rename_i labelled
    simp only [labelled, false_and, or_false]

@[simp] theorem universalTag_applyInsertToMem :
    (searcher.applyInsertToMem vid tags).universalTag = searcher.universalTag := by
  unfold applyInsertToMem
  dsimp only
  split <;> rfl

@[simp] theorem wal_applyInsertToMem : (searcher.applyInsertToMem vid tags).wal = searcher.wal := by
  unfold applyInsertToMem
  dsimp only
  split <;> rfl

end Searcher

/-! ### Runs -/

/-- An operation on a searcher. -/
inductive Op
  | insert (vid : VectorId) (tags : List Tag)
  | remove (vid : VectorId)
  deriving DecidableEq

/-- The record that the operation logs. -/
def Op.record : Op → List UInt8
  | .insert vid tags => walInsert vid tags
  | .remove vid => walRemove vid

namespace Searcher

/-- An operation without its record. -/
def applyToMem (searcher : Searcher) : Op → Searcher
  | .insert vid tags => searcher.applyInsertToMem vid tags
  | .remove vid => searcher.applyRemoveToMem vid

/-- An operation. -/
def apply (searcher : Searcher) : Op → Searcher
  | .insert vid tags => searcher.insert vid tags
  | .remove vid => searcher.remove vid

/-- A sequence of operations. -/
def run (searcher : Searcher) (ops : List Op) : Searcher :=
  ops.foldl apply searcher

/-- A sequence of operations without their records. -/
def replay (searcher : Searcher) (ops : List Op) : Searcher :=
  ops.foldl applyToMem searcher

/-- An operation appends its record and changes the bitmaps. -/
theorem apply_eq (searcher : Searcher) (op : Op) :
    searcher.apply op = (searcher.appendWal op.record).applyToMem op := by
  cases op <;> rfl

theorem applyToMem_appendWal (searcher : Searcher) (op : Op) (record : List UInt8) :
    (searcher.appendWal record).applyToMem op = (searcher.applyToMem op).appendWal record := by
  cases op with
  | insert vid tags =>
    show (searcher.appendWal record).applyInsertToMem vid tags =
      (searcher.applyInsertToMem vid tags).appendWal record
    unfold applyInsertToMem appendWal
    dsimp only
    split <;> rfl
  | remove vid => rfl

theorem appendWal_appendWal (searcher : Searcher) (first second : List UInt8) :
    (searcher.appendWal first).appendWal second = searcher.appendWal (first ++ second) := by
  unfold appendWal
  dsimp only
  rw [Option.map_map]
  congr 2
  funext content
  exact List.append_assoc content first second

theorem appendWal_nil (searcher : Searcher) : searcher.appendWal [] = searcher := by
  unfold appendWal
  simp only [List.append_nil, Option.map_id']

theorem replay_appendWal (searcher : Searcher) (ops : List Op) (record : List UInt8) :
    (searcher.appendWal record).replay ops = (searcher.replay ops).appendWal record := by
  induction ops generalizing searcher with
  | nil => rfl
  | cons op rest inductionHypothesis =>
    show ((searcher.appendWal record).applyToMem op).replay rest = _
    rw [applyToMem_appendWal, inductionHypothesis]
    rfl

theorem wal_replay (searcher : Searcher) (ops : List Op) :
    (searcher.replay ops).wal = searcher.wal := by
  induction ops generalizing searcher with
  | nil => rfl
  | cons op rest inductionHypothesis =>
    refine (inductionHypothesis _).trans ?_
    cases op with
    | insert vid tags => exact wal_applyInsertToMem searcher vid tags
    | remove vid => rfl

/-- A run appends the records in their order and changes the bitmaps. -/
theorem run_eq (searcher : Searcher) (ops : List Op) :
    searcher.run ops = (searcher.replay ops).appendWal (ops.flatMap Op.record) := by
  induction ops generalizing searcher with
  | nil => exact (appendWal_nil searcher).symm
  | cons op rest inductionHypothesis =>
    show (searcher.apply op).run rest = _
    rw [inductionHypothesis, apply_eq, applyToMem_appendWal, replay_appendWal,
      appendWal_appendWal]
    rfl

/-- The log of a run. -/
theorem wal_run (searcher : Searcher) (ops : List Op) :
    (searcher.run ops).wal = searcher.wal.map (· ++ ops.flatMap Op.record) := by
  rw [run_eq]
  show Option.map _ (searcher.replay ops).wal = _
  rw [wal_replay]

/-- Queries do not look at the log. -/
@[simp] theorem queryBitmap_appendWal (searcher : Searcher) (record : List UInt8) :
    (searcher.appendWal record).queryBitmap = searcher.queryBitmap :=
  rfl

end Searcher

end OdinVector.Inverted
