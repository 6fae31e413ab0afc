/-
This file models `merge` of an `InvertedIndexSearcher`: the file that it writes holds
what both layers hold of the vectors that are not deleted. The operations of the log
do not look at the layer of the file, so replaying them over the new file gives the
layers of the running searcher over a layer that already has their effects.
-/

import OdinVector.Inverted.Wal

namespace OdinVector.Inverted

/-! ### The merged file -/

namespace Searcher

/-- `all_tags`: the tags of both layers in their order, each once. -/
def allTags (searcher : Searcher) : List Tag :=
  (searcher.diskIndex.keys ∪ searcher.memIndex.keys).sort (· ≤ ·)

/-- `new_index`. -/
def newIndex (searcher : Searcher) : TagIndex :=
  searcher.allTags.foldl (fun index tag =>
    let bitmap := searcher.tagBitmap tag \ searcher.deletedBitmap
    if bitmap = ∅ then index else Finmap.insert tag bitmap index) ∅

/-- The file that `merge` writes. -/
def mergedFile (searcher : Searcher) : IndexFile where
  universalBitmap := searcher.universalBitmap \ searcher.deletedBitmap
  tagBitmaps := (searcher.newIndex.keys.sort (· ≤ ·)).map
    fun tag => (tag, searcher.newIndex.bitmap tag)

/-- `merge`: the file and the searcher, whose log is empty if it is open. -/
def merge (searcher : Searcher) : IndexFile × Searcher :=
  (searcher.mergedFile, { searcher with wal := searcher.wal.map fun _ => [] })

end Searcher

/-! ### What the merged file holds -/

theorem TagIndex.bitmap_foldl_insert (bitmapOf : Tag → Bitmap) (tags : List Tag)
    (index : TagIndex) (other : Tag) :
    TagIndex.bitmap (tags.foldl (fun index tag => Finmap.insert tag (bitmapOf tag) index) index)
      other = if other ∈ tags then bitmapOf other else index.bitmap other := by
  induction tags generalizing index with
  | nil => exact (if_neg List.not_mem_nil).symm
  | cons tag rest inductionHypothesis =>
    rw [List.foldl_cons, inductionHypothesis, TagIndex.bitmap_insert]
    by_cases same : tag = other
    · rw [if_pos same, same, if_pos List.mem_cons_self, ite_self]
    · rw [if_neg same]
      simp only [List.mem_cons, Ne.symm same, false_or]

theorem TagIndex.bitmap_foldl_insert_nonempty (bitmapOf : Tag → Bitmap) (tags : List Tag)
    (index : TagIndex) (other : Tag) :
    TagIndex.bitmap (tags.foldl (fun index tag =>
      if bitmapOf tag = ∅ then index else Finmap.insert tag (bitmapOf tag) index) index) other =
      if other ∈ tags ∧ bitmapOf other ≠ ∅ then bitmapOf other else index.bitmap other := by
  induction tags generalizing index with
  | nil => exact (if_neg fun both => List.not_mem_nil both.1).symm
  | cons tag rest inductionHypothesis =>
    rw [List.foldl_cons, inductionHypothesis]
    by_cases same : tag = other
    · subst same
      by_cases empty : bitmapOf tag = ∅
      · rw [if_pos empty, if_neg fun both => both.2 empty, if_neg fun both => both.2 empty]
      · rw [if_neg empty, TagIndex.bitmap_insert, if_pos rfl, ite_self,
          if_pos ⟨List.mem_cons_self, empty⟩]
    · have kept : TagIndex.bitmap
          (if bitmapOf tag = ∅ then index else Finmap.insert tag (bitmapOf tag) index) other =
          index.bitmap other := by
        split
        · rfl
        · rw [TagIndex.bitmap_insert, if_neg same]
      rw [kept]
      simp only [List.mem_cons, Ne.symm same, false_or]

/-- The entries of an index in the order of their tags, put into an empty index again. -/
theorem TagIndex.bitmap_foldl_entries (index : TagIndex) (tag : Tag) :
    TagIndex.bitmap (((index.keys.sort (· ≤ ·)).map fun tag => (tag, index.bitmap tag)).foldl
      (fun index entry => Finmap.insert entry.1 entry.2 index) ∅) tag = index.bitmap tag := by
  rw [List.foldl_map, TagIndex.bitmap_foldl_insert]
  split
  · rfl
  · rename_i absent
    rw [Finset.mem_sort, Finmap.mem_keys] at absent
    rw [TagIndex.bitmap_empty, TagIndex.bitmap_of_notMem absent]

namespace Searcher

variable (searcher : Searcher)

theorem tagBitmap_of_notMem_allTags {tag : Tag} (absent : tag ∉ searcher.allTags) :
    searcher.tagBitmap tag = ∅ := by
  unfold allTags at absent
  rw [Finset.mem_sort, Finset.mem_union, not_or, Finmap.mem_keys, Finmap.mem_keys] at absent
  unfold tagBitmap
  rw [TagIndex.bitmap_of_notMem absent.1, TagIndex.bitmap_of_notMem absent.2, Finset.union_empty]

/-- `new_index` has what both layers hold under a tag, without the deleted vectors. -/
theorem bitmap_newIndex (tag : Tag) :
    searcher.newIndex.bitmap tag = searcher.tagBitmap tag \ searcher.deletedBitmap := by
  refine (TagIndex.bitmap_foldl_insert_nonempty
    (fun tag => searcher.tagBitmap tag \ searcher.deletedBitmap) _ ∅ tag).trans ?_
  split
  · rfl
  · rename_i nothing
    rw [TagIndex.bitmap_empty]
    by_contra something
    refine nothing ⟨?_, Ne.symm something⟩
    by_contra absent
    rw [tagBitmap_of_notMem_allTags searcher absent, Finset.empty_sdiff] at something
    exact something rfl

/-- A searcher that loads the merged file has what the merge has computed. -/
theorem bitmap_load_mergedFile (fresh : Searcher) (tag : Tag) :
    (fresh.load searcher.mergedFile).diskIndex.bitmap tag =
      searcher.tagBitmap tag \ searcher.deletedBitmap := by
  rw [← bitmap_newIndex]
  exact searcher.newIndex.bitmap_foldl_entries tag

/-! ### Replaying over another layer -/

/-- Two searchers that differ in the layer of the file, and in the log, at most. -/
structure SameMem (first second : Searcher) : Prop where
  memIndex : first.memIndex = second.memIndex
  memUniversalBitmap : first.memUniversalBitmap = second.memUniversalBitmap
  deletedBitmap : first.deletedBitmap = second.deletedBitmap
  universalTag : first.universalTag = second.universalTag

theorem SameMem.applyToMem {first second : Searcher} (same : SameMem first second) (op : Op) :
    SameMem (first.applyToMem op) (second.applyToMem op) := by
  cases op with
  | remove vid =>
    refine ⟨same.memIndex, same.memUniversalBitmap, ?_, same.universalTag⟩
    exact congrArg (Insert.insert vid) same.deletedBitmap
  | insert vid tags =>
    have deleted : (first.applyInsertToMem vid tags).deletedBitmap =
        (second.applyInsertToMem vid tags).deletedBitmap :=
      congrArg (Finset.erase · vid) same.deletedBitmap
    show SameMem (first.applyInsertToMem vid tags) (second.applyInsertToMem vid tags)
    refine ⟨?_, ?_, deleted, ?_⟩
    · unfold applyInsertToMem
      rw [same.universalTag]
      split
      · exact same.memIndex
      · exact congrArg (fun index : TagIndex =>
          tags.foldl (fun index tag => index.add tag vid) index) same.memIndex
    · unfold applyInsertToMem
      rw [same.universalTag]
      split
      · exact congrArg (Insert.insert vid) same.memUniversalBitmap
      · exact same.memUniversalBitmap
    · rw [universalTag_applyInsertToMem, universalTag_applyInsertToMem]
      exact same.universalTag

theorem SameMem.replay {first second : Searcher} (same : SameMem first second) (ops : List Op) :
    SameMem (first.replay ops) (second.replay ops) := by
  induction ops generalizing first second with
  | nil => exact same
  | cons op rest inductionHypothesis => exact inductionHypothesis (same.applyToMem op)

theorem disk_replay (searcher : Searcher) (ops : List Op) :
    (searcher.replay ops).diskIndex = searcher.diskIndex ∧
      (searcher.replay ops).diskUniversalBitmap = searcher.diskUniversalBitmap := by
  induction ops generalizing searcher with
  | nil => exact ⟨rfl, rfl⟩
  | cons op rest inductionHypothesis =>
    have step : (searcher.applyToMem op).diskIndex = searcher.diskIndex ∧
        (searcher.applyToMem op).diskUniversalBitmap = searcher.diskUniversalBitmap := by
      cases op with
      | remove vid => exact ⟨rfl, rfl⟩
      | insert vid tags =>
        show (searcher.applyInsertToMem vid tags).diskIndex = _ ∧
          (searcher.applyInsertToMem vid tags).diskUniversalBitmap = _
        unfold applyInsertToMem
        dsimp only
        split <;> exact ⟨rfl, rfl⟩
    obtain ⟨index, universal⟩ := inductionHypothesis (searcher.applyToMem op)
    exact ⟨index.trans step.1, universal.trans step.2⟩

/-- Over the merged file, the layers of the searcher that has merged answer as before. -/
theorem queryBitmap_mergedFile {fresh merged : Searcher} (same : SameMem fresh merged)
    (index : ∀ tag, fresh.diskIndex.bitmap tag = merged.tagBitmap tag \ merged.deletedBitmap)
    (universal : fresh.diskUniversalBitmap = merged.universalBitmap \ merged.deletedBitmap)
    (tags : List Tag) : fresh.queryBitmap tags = merged.queryBitmap tags := by
  have tagged : ∀ vid ∉ merged.deletedBitmap, ∀ tag,
      vid ∈ fresh.tagBitmap tag ↔ vid ∈ merged.tagBitmap tag := by
    intro vid live tag
    unfold tagBitmap at index ⊢
    rw [Finset.mem_union, index, same.memIndex, Finset.mem_sdiff, Finset.mem_union]
    tauto
  have everywhere : ∀ vid ∉ merged.deletedBitmap,
      (vid ∈ fresh.universalBitmap ↔ vid ∈ merged.universalBitmap) := by
    intro vid live
    unfold universalBitmap at universal ⊢
    rw [Finset.mem_union, universal, same.memUniversalBitmap, Finset.mem_sdiff, Finset.mem_union]
    tauto
  ext vid
  rw [mem_queryBitmap, mem_queryBitmap, same.deletedBitmap]
  refine and_congr_right fun live => ?_
  rw [everywhere vid live]
  refine or_congr_right (and_congr_right fun _ => ?_)
  exact forall₂_congr fun tag _ => tagged vid live tag

end Searcher

/-! ### A crash after the file is written -/

variable (memory : Nat) (stale : Stale)

/-- A searcher that starts from the merged file and replays the whole log answers every
query as the one that has merged did before. -/
def ReplayHarmless (searcher : Searcher) (file : IndexFile) (ops : List Op) : Prop :=
  let running := ((searcher.load file).openWal []).run ops
  ∃ log ∈ running.wal, ∃ recovered,
    recoverFromWal memory stale
      ((Searcher.init.load running.merge.1).setUniversalTag searcher.universalTag) log =
        some recovered ∧
      ∀ tags, recovered.query tags = running.query tags

/-- Replaying the log over the merged file is harmless when every number of tags fits the
field of its record. -/
theorem replayHarmless_of_short (searcher : Searcher) (file : IndexFile) {ops : List Op}
    (short : ∀ op ∈ ops, op.count < 2 ^ 32) (granted : ∀ op ∈ ops, op.count ≤ memory) :
    ReplayHarmless memory stale searcher file ops := by
  unfold ReplayHarmless
  intro running
  have merged : running = (((searcher.load file).openWal []).replay ops).appendWal
      (ops.flatMap Op.record) := Searcher.run_eq _ _
  have log : running.wal = some (ops.flatMap Op.record) := Searcher.wal_run _ _
  let fresh := (Searcher.init.load running.merge.1).setUniversalTag searcher.universalTag
  refine ⟨_, log, fresh.replay ops, recoverFromWal_log memory stale fresh short granted, ?_⟩
  have opened : Searcher.SameMem fresh ((searcher.load file).openWal []) := ⟨rfl, rfl, rfl, rfl⟩
  have same : Searcher.SameMem (fresh.replay ops) running := by
    have replayed := opened.replay ops
    rw [merged]
    exact ⟨replayed.memIndex, replayed.memUniversalBitmap, replayed.deletedBitmap,
      replayed.universalTag⟩
  obtain ⟨index, universal⟩ := fresh.disk_replay ops
  intro tags
  have answers : (fresh.replay ops).queryBitmap tags = running.queryBitmap tags := by
    refine Searcher.queryBitmap_mergedFile same (fun tag => ?_) universal tags
    rw [index]
    exact running.bitmap_load_mergedFile Searcher.init tag
  exact congrArg (Finset.sort · (· ≤ ·)) answers

/-- Two vectors, one of them with a tag twice. -/
theorem replayHarmless_twoVectors :
    ReplayHarmless 2 ⟨fun _ => 0, fun _ => 0⟩ Searcher.init ⟨{4}, [(7, {3})]⟩
      [.insert 1 [7, 7], .remove 3, .insert 2 []] :=
  replayHarmless_of_short 2 ⟨fun _ => 0, fun _ => 0⟩ Searcher.init ⟨{4}, [(7, {3})]⟩
    (by decide) (by decide)

/-! ### More tags than the record can count -/

/-- A vector whose number has the byte of `WalOp::REMOVE` on top. -/
def shadowed : VectorId := 0x02000000

/-- The bytes of the tag `2`, read as records, remove a vector. -/
theorem recoverLoop_surplus (pairs fuel : Nat) (searcher : Searcher) (enough : 8 * pairs ≤ fuel)
    (deleted : 0 < pairs ∨ shadowed ∈ searcher.deletedBitmap) :
    ∃ recovered, recoverLoop memory stale fuel searcher (tagBytes (List.replicate (2 * pairs) 2)) =
      some recovered ∧ shadowed ∈ recovered.deletedBitmap := by
  induction pairs generalizing fuel searcher with
  | zero => exact ⟨searcher, recoverLoop_nil memory stale fuel searcher,
      deleted.resolve_left (Nat.lt_irrefl 0)⟩
  | succ pairs inductionHypothesis =>
    have bytes : tagBytes (List.replicate (2 * (pairs + 1)) 2) =
        opRemove :: (wordBytes shadowed ++ (0 :: 0 :: 0 ::
          tagBytes (List.replicate (2 * pairs) 2))) := by
      rw [Nat.mul_succ, List.replicate_succ, List.replicate_succ]
      rfl
    obtain ⟨fuel, rfl⟩ : ∃ less, fuel = less + 4 := ⟨fuel - 4, by omega⟩
    obtain ⟨recovered, ran, deleted⟩ := inductionHypothesis fuel
      (searcher.applyRemoveToMem shadowed) (by omega) (Or.inr (Finset.mem_insert_self _ _))
    refine ⟨recovered, ?_, deleted⟩
    have insertion : opRemove ≠ opInsert := by decide
    have zeroInsertion : (0 : UInt8) ≠ opInsert := by decide
    have zeroRemoval : (0 : UInt8) ≠ opRemove := by decide
    rw [bytes, ← ran]
    simp only [recoverLoop, if_neg insertion, if_neg zeroInsertion, if_neg zeroRemoval, if_true,
      readWord_append]

/-- The count of a record that is a multiple of `2 ^ 32` is read as zero. -/
theorem recoverLoop_wrapped (fuel : Nat) (searcher : Searcher) (vid : VectorId) (tags : List Tag)
    (wrapped : UInt32.ofNat tags.length = 0) :
    recoverLoop memory stale (fuel + 1) searcher (walInsert vid tags) =
      recoverLoop memory stale fuel (searcher.applyInsertToMem vid []) (tagBytes tags) := by
  have bytes : walInsert vid tags = opInsert ::
      (wordBytes vid ++ (wordBytes 0 ++ tagBytes tags)) := by
    unfold walInsert
    rw [wrapped, List.append_assoc]
    rfl
  rw [bytes]
  simp only [recoverLoop, if_true, readWord_append]
  rfl

theorem not_replayHarmless_of_wrapped {pairs : Nat} (granted : 1 ≤ memory)
    (wrapped : UInt32.ofNat (2 * pairs) = 0) (some : 0 < pairs) :
    ¬ ReplayHarmless memory stale Searcher.init ⟨∅, []⟩
      [.insert shadowed [7], .insert 1 (List.replicate (2 * pairs) 2)] := by
  rintro ⟨log, opened, recovered, ran, answers⟩
  have bytes : log = (Op.insert shadowed [7]).record ++
      walInsert 1 (List.replicate (2 * pairs) 2) := by
    rw [Searcher.wal_run] at opened
    refine (Option.some.inj opened).symm.trans ?_
    show [] ++ (_ ++ (_ ++ [])) = _
    rw [List.append_nil]
    rfl
  have length : log.length = 20 + (tagBytes (List.replicate (2 * pairs) 2)).length + 1 + 1 := by
    rw [bytes, List.length_append, length_walInsert]
    show 13 + _ = _
    omega
  have surplus : (tagBytes (List.replicate (2 * pairs) 2)).length = 8 * pairs := by
    unfold tagBytes
    rw [List.length_flatMap, List.map_replicate, List.sum_replicate]
    show 2 * pairs * 4 = _
    omega
  unfold recoverFromWal at ran
  rw [length, bytes, recoverLoop_record memory stale _ _ (.insert shadowed [7]) _ (by decide) granted,
    recoverLoop_wrapped memory stale _ _ _ _ (by rw [List.length_replicate]; exact wrapped)]
    at ran
  obtain ⟨reached, surplusRan, deleted⟩ := recoverLoop_surplus memory stale pairs
    (20 + (tagBytes (List.replicate (2 * pairs) 2)).length) _ (by omega) (Or.inl some)
  obtain rfl := Option.some.inj (surplusRan.symm.trans ran)
  have gone : shadowed ∉ reached.query [7] := by
    rw [Searcher.mem_query, Searcher.mem_queryBitmap]
    exact fun both => both.1 deleted
  rw [answers, mem_query_run, Searcher.mem_queryBitmap] at gone
  refine gone ⟨?_, Or.inr ⟨List.cons_ne_nil _ _, List.forall_mem_singleton.mpr ?_⟩⟩
  · show shadowed ∉ (Finset.erase (Finset.erase ∅ shadowed) 1)
    decide
  · refine (Searcher.mem_tagBitmap_applyInsertToMem _ _ _ _ _).mpr (Or.inl ?_)
    refine (Searcher.mem_tagBitmap_applyInsertToMem _ _ _ _ _).mpr (Or.inr ?_)
    exact ⟨by decide, List.mem_singleton_self 7, rfl⟩

/-- An insertion with `2 ^ 32` tags, which the replay reads as removals. -/
theorem not_replayHarmless :
    ¬ ∀ (memory : Nat) (stale : Stale) (searcher : Searcher) (file : IndexFile) (ops : List Op),
      (∀ op ∈ ops, op.count ≤ memory) → ReplayHarmless memory stale searcher file ops := by
  intro harmless
  refine not_replayHarmless_of_wrapped (2 * 2 ^ 31) ⟨fun _ => 0, fun _ => 0⟩
    (by decide : 1 ≤ 2 * 2 ^ 31) (rfl : UInt32.ofNat (2 * 2 ^ 31) = 0) (by decide)
    (harmless _ _ _ _ _ fun op member => ?_)
  rw [List.mem_cons, List.mem_singleton] at member
  obtain rfl | rfl := member
  · show 1 ≤ 2 * 2 ^ 31
    decide
  · exact le_of_eq List.length_replicate

end OdinVector.Inverted
