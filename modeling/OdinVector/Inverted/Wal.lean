/-
This file models `recover_from_wal` on the bytes of a log. A record that the log has
in full gives back its operation. The loop does not check its reads: of a record that
the log has only a part of, it makes an operation from the bytes that are there, from
what the words held before and from zeros for the tags, and applies it.
-/

import OdinVector.Inverted.Labels

namespace OdinVector.Inverted

/-! ### Reading words -/

/-- The word of four bytes, lowest first. -/
def wordOf (bytes : List UInt8) : UInt32 :=
  UInt32.ofNat (bytes.foldr (fun byte rest => byte.toNat + 256 * rest) 0)

/-- A word that held `stale` after the first bytes of `word` were read over it. -/
def overlay (stale word : UInt32) (present : Nat) : UInt32 :=
  wordOf ((wordBytes word).take present ++ (wordBytes stale).drop present)

/-- `read` of a word that holds `stale`: a short read takes the bytes that are left. -/
def readWord (stale : UInt32) (bytes : List UInt8) : UInt32 × List UInt8 :=
  (wordOf (bytes.take 4 ++ (wordBytes stale).drop bytes.length), bytes.drop 4)

@[simp] theorem length_wordBytes (word : UInt32) : (wordBytes word).length = 4 :=
  rfl

@[simp] theorem wordOf_wordBytes (word : UInt32) : wordOf (wordBytes word) = word := by
  have bound : word.toNat < 4294967296 := word.toNat_lt
  apply UInt32.toNat_inj.mp
  simp only [wordOf, wordBytes, List.foldr_cons, List.foldr_nil, UInt32.toNat_ofNat',
    UInt8.toNat_ofNat']
  omega

theorem overlay_of_le (stale word : UInt32) {present : Nat} (complete : 4 ≤ present) :
    overlay stale word present = word := by
  unfold overlay
  rw [List.take_of_length_le complete, List.drop_of_length_le complete, List.append_nil,
    wordOf_wordBytes]

/-- A read from a cut stream that has the bytes of `word` and then `more`. -/
theorem readWord_take (stale word : UInt32) (more : List UInt8) (present : Nat) :
    readWord stale ((wordBytes word ++ more).take present) =
      (overlay stale word present, more.take (present - 4)) := by
  have cut : (wordBytes word ++ more).take present =
      (wordBytes word).take present ++ more.take (present - 4) := List.take_append
  rw [cut]
  unfold readWord overlay
  obtain short | complete := Nat.lt_or_ge present 4
  · have none : present - 4 = 0 := by omega
    have length : ((wordBytes word).take present).length = present := by
      rw [List.length_take, length_wordBytes]
      omega
    rw [none, List.take_zero, List.append_nil, length,
      List.take_of_length_le (by omega : ((wordBytes word).take present).length ≤ 4),
      List.drop_of_length_le (by omega : ((wordBytes word).take present).length ≤ 4)]
  · have all : (wordBytes word).take present = wordBytes word :=
      List.take_of_length_le complete
    have covered : (wordBytes stale).drop (wordBytes word ++ more.take (present - 4)).length = [] := by
      apply List.drop_of_length_le
      rw [List.length_append]
      exact Nat.le_add_right _ _
    rw [all, covered, List.take_left' (length_wordBytes word), List.drop_left' (length_wordBytes word),
      List.drop_of_length_le complete]

theorem readWord_append (stale word : UInt32) (more : List UInt8) :
    readWord stale (wordBytes word ++ more) = (word, more) := by
  have length : (wordBytes word ++ more).length = 4 + more.length := List.length_append
  have read := readWord_take stale word more (4 + more.length)
  rw [← length, List.take_length, length, overlay_of_le stale word (Nat.le_add_right 4 _),
    Nat.add_sub_cancel_left, List.take_length] at read
  exact read

theorem readWord_nil (stale : UInt32) : readWord stale [] = (stale, []) := by
  show (wordOf (wordBytes stale), _) = _
  rw [wordOf_wordBytes]
  rfl

/-! ### Reading tags -/

/-- The tags of a record. -/
def tagBytes (tags : List Tag) : List UInt8 :=
  tags.flatMap fun tag => wordBytes tag.toUInt32

/-- The loop that reads `count` tags into a vector of zeros. -/
def readTags : Nat → List UInt8 → List Tag × List UInt8
  | 0, bytes => ([], bytes)
  | count + 1, bytes =>
    let tag := readWord 0 bytes
    let tags := readTags count tag.2
    (tag.1.toInt32 :: tags.1, tags.2)

/-- The tags that are read where the bytes of `tags` are cut. -/
def tornTags : List Tag → Nat → List Tag
  | [], _ => []
  | tag :: rest, present =>
    (overlay 0 tag.toUInt32 present).toInt32 :: tornTags rest (present - 4)

theorem readTags_take (tags : List Tag) (present : Nat)
    (inside : present ≤ (tagBytes tags).length) :
    readTags tags.length ((tagBytes tags).take present) = (tornTags tags present, []) := by
  induction tags generalizing present with
  | nil =>
    show (([] : List Tag), List.take present []) = ([], [])
    rw [List.take_nil]
  | cons tag rest inductionHypothesis =>
    have bytes : tagBytes (tag :: rest) = wordBytes tag.toUInt32 ++ tagBytes rest := rfl
    rw [bytes, List.length_append, length_wordBytes] at inside
    have others := inductionHypothesis (present - 4) (by omega)
    rw [bytes, List.length_cons]
    simp only [readTags, readWord_take, others, tornTags]

theorem readTags_append (tags : List Tag) (more : List UInt8) :
    readTags tags.length (tagBytes tags ++ more) = (tags, more) := by
  induction tags with
  | nil => rfl
  | cons tag rest inductionHypothesis =>
    have bytes : tagBytes (tag :: rest) ++ more =
        wordBytes tag.toUInt32 ++ (tagBytes rest ++ more) := List.append_assoc _ _ _
    rw [bytes, List.length_cons]
    simp only [readTags, readWord_append, inductionHypothesis]
    rfl

theorem readTags_nil (count : Nat) : readTags count [] = (List.replicate count 0, []) := by
  induction count with
  | zero => rfl
  | succ count inductionHypothesis =>
    simp only [readTags, readWord_nil, inductionHypothesis]
    rfl

/-! ### Recovery -/

/-- What `vid` and `count` hold before they are read, by the bytes that are left. -/
structure Stale where
  vid : Nat → UInt32
  count : Nat → UInt32

variable (memory : Nat) (stale : Stale)

/-- The loop of `recover_from_wal`; `none` is the exception of a vector that is larger
than what the allocator grants. -/
def recoverLoop : Nat → Searcher → List UInt8 → Option Searcher
  | _, searcher, [] => some searcher
  | 0, _, _ :: _ => none
  | fuel + 1, searcher, op :: bytes =>
    if op = opInsert then
      let vid := readWord (stale.vid bytes.length) bytes
      let count := readWord (stale.count vid.2.length) vid.2
      if memory < count.1.toNat then none
      else
        let tags := readTags count.1.toNat count.2
        recoverLoop fuel (searcher.applyInsertToMem vid.1 tags.1) tags.2
    else if op = opRemove then
      let vid := readWord (stale.vid bytes.length) bytes
      recoverLoop fuel (searcher.applyRemoveToMem vid.1) vid.2
    else recoverLoop fuel searcher bytes

/-- `recover_from_wal`; every round of the loop takes a byte at least. -/
def recoverFromWal (searcher : Searcher) (log : List UInt8) : Option Searcher :=
  recoverLoop memory stale log.length searcher log

@[simp] theorem recoverLoop_nil (fuel : Nat) (searcher : Searcher) :
    recoverLoop memory stale fuel searcher [] = some searcher := by
  cases fuel <;> rfl

/-- The number of tags of an operation. -/
def Op.count : Op → Nat
  | .insert _ tags => tags.length
  | .remove _ => 0

/-- A record whose count fits its field is read back in full. -/
theorem recoverLoop_record (fuel : Nat) (searcher : Searcher) (op : Op) (more : List UInt8)
    (short : op.count < 2 ^ 32) (granted : op.count ≤ memory) :
    recoverLoop memory stale (fuel + 1) searcher (op.record ++ more) =
      recoverLoop memory stale fuel (searcher.applyToMem op) more := by
  cases op with
  | insert vid tags =>
    have bytes : (Op.insert vid tags).record ++ more = opInsert :: (wordBytes vid ++
        (wordBytes (UInt32.ofNat tags.length) ++ (tagBytes tags ++ more))) := by
      simp only [Op.record, walInsert, tagBytes, List.cons_append, List.append_assoc]
    have count : (UInt32.ofNat tags.length).toNat = tags.length :=
      UInt32.toNat_ofNat_of_lt' short
    have enough : ¬ memory < tags.length := Nat.not_lt.mpr granted
    rw [bytes]
    simp only [recoverLoop, if_true, readWord_append, count, if_neg enough, readTags_append]
    rfl
  | remove vid =>
    have other : opRemove ≠ opInsert := by decide
    show recoverLoop memory stale (fuel + 1) searcher (opRemove :: (wordBytes vid ++ more)) = _
    simp only [recoverLoop, if_neg other, if_true, readWord_append]
    rfl

/-! ### A torn record -/

/-- The operation that the loop makes of the first bytes of a record. -/
def tornOp : Op → Nat → Op
  | .remove vid, present => .remove (overlay (stale.vid (present - 1)) vid (present - 1))
  | .insert vid tags, present =>
    let count := overlay (stale.count (present - 5)) (UInt32.ofNat tags.length) (present - 5)
    .insert (overlay (stale.vid (present - 1)) vid (present - 1))
      (if 9 ≤ present then tornTags tags (present - 9) else List.replicate count.toNat 0)

theorem length_tornTags (tags : List Tag) (present : Nat) :
    (tornTags tags present).length = tags.length := by
  induction tags generalizing present with
  | nil => rfl
  | cons tag rest inductionHypothesis => exact congrArg (· + 1) (inductionHypothesis _)

theorem length_walInsert (vid : VectorId) (tags : List Tag) :
    (walInsert vid tags).length = 9 + (tagBytes tags).length := by
  unfold walInsert
  rw [List.length_append, List.length_append, List.length_cons, length_wordBytes,
    length_wordBytes]
  rfl

/-- The loop ends after a torn record, with what it has made of the record. -/
theorem recoverLoop_torn (fuel : Nat) (searcher : Searcher) (op : Op) (present : Nat)
    (short : op.count < 2 ^ 32) (begun : 0 < present) (torn : present < op.record.length) :
    recoverLoop memory stale (fuel + 1) searcher (op.record.take present) =
      if memory < (tornOp stale op present).count then none
      else some (searcher.applyToMem (tornOp stale op present)) := by
  obtain ⟨left, rfl⟩ : ∃ left, present = left + 1 := ⟨present - 1, by omega⟩
  cases op with
  | insert vid tags =>
    have bytes : ((Op.insert vid tags).record).take (left + 1) =
        opInsert :: (wordBytes vid ++ (wordBytes (UInt32.ofNat tags.length) ++
          tagBytes tags)).take left := by
      simp only [Op.record, walInsert, tagBytes, List.cons_append, List.append_assoc,
        List.take_succ_cons]
    have total : left < 8 + (tagBytes tags).length := by
      have length := length_walInsert vid tags
      have inside : left + 1 < (walInsert vid tags).length := torn
      omega
    have vidLength : ((wordBytes vid ++ (wordBytes (UInt32.ofNat tags.length) ++
        tagBytes tags)).take left).length = left := by
      rw [List.length_take, List.length_append, List.length_append, length_wordBytes,
        length_wordBytes]
      omega
    have countLength : ((wordBytes (UInt32.ofNat tags.length) ++ tagBytes tags).take
        (left - 4)).length = left - 4 := by
      rw [List.length_take, List.length_append, length_wordBytes]
      omega
    have five : left + 1 - 5 = left - 4 := by omega
    rw [bytes]
    simp only [recoverLoop, if_true, readWord_take, vidLength, countLength, tornOp, Op.count,
      Nat.add_sub_cancel, five]
    by_cases counted : 9 ≤ left + 1
    · have full : (overlay (stale.count (left - 4)) (UInt32.ofNat tags.length) (left - 4)).toNat =
          tags.length := by
        rw [overlay_of_le _ _ (by omega)]
        exact UInt32.toNat_ofNat_of_lt' short
      have eight : left - 4 - 4 = left + 1 - 9 := by omega
      rw [full, eight, readTags_take tags _ (by omega), if_pos counted, length_tornTags]
      simp only [recoverLoop_nil, Searcher.applyToMem]
    · have gone : left - 4 - 4 = 0 := by omega
      rw [gone, List.take_zero, readTags_nil, if_neg counted, List.length_replicate]
      simp only [recoverLoop_nil, Searcher.applyToMem]
  | remove vid =>
    have other : opRemove ≠ opInsert := by decide
    have bytes : ((Op.remove vid).record).take (left + 1) =
        opRemove :: (wordBytes vid ++ []).take left := by
      rw [List.append_nil]
      rfl
    have inside : left + 1 < 5 := torn
    have length : ((wordBytes vid ++ []).take left).length = left := by
      rw [List.length_take, List.length_append, length_wordBytes, List.length_nil]
      omega
    rw [bytes]
    simp only [recoverLoop, if_neg other, if_true, readWord_take, List.take_nil, length,
      recoverLoop_nil]
    rfl

/-! ### A cut log -/

/-- The longest prefix of operations whose records are complete. -/
def completeOps : List Op → Nat → List Op
  | [], _ => []
  | op :: rest, cut =>
    if op.record.length ≤ cut then op :: completeOps rest (cut - op.record.length) else []

/-- The operation whose record is torn, with the number of its bytes that are there. -/
def tornAt : List Op → Nat → Option (Op × Nat)
  | [], _ => none
  | op :: rest, cut =>
    if op.record.length ≤ cut then tornAt rest (cut - op.record.length)
    else if cut = 0 then none else some (op, cut)

/-- What recovery makes of a cut log. -/
theorem recoverLoop_take {ops : List Op} (short : ∀ op ∈ ops, op.count < 2 ^ 32)
    (granted : ∀ op ∈ ops, op.count ≤ memory) (searcher : Searcher) {fuel cut : Nat}
    (enough : ((ops.flatMap Op.record).take cut).length ≤ fuel) :
    recoverLoop memory stale fuel searcher ((ops.flatMap Op.record).take cut) =
      match tornAt ops cut with
      | none => some (searcher.replay (completeOps ops cut))
      | some (op, present) =>
        if memory < (tornOp stale op present).count then none
        else some ((searcher.replay (completeOps ops cut)).applyToMem
          (tornOp stale op present)) := by
  induction ops generalizing searcher fuel cut with
  | nil =>
    rw [List.flatMap_nil, List.take_nil, recoverLoop_nil]
    rfl
  | cons op rest inductionHypothesis =>
    have opShort := short op List.mem_cons_self
    have opGranted := granted op List.mem_cons_self
    have nonempty : 0 < op.record.length := by cases op <;> exact Nat.succ_pos _
    have bytes : ((op :: rest).flatMap Op.record).take cut =
        op.record.take cut ++ (rest.flatMap Op.record).take (cut - op.record.length) :=
      List.take_append
    rw [bytes] at enough ⊢
    unfold tornAt completeOps
    by_cases complete : op.record.length ≤ cut
    · rw [if_pos complete, if_pos complete]
      rw [List.take_of_length_le complete] at enough ⊢
      rw [List.length_append] at enough
      obtain ⟨fuel, rfl⟩ : ∃ less, fuel = less + 1 := ⟨fuel - 1, by omega⟩
      rw [recoverLoop_record memory stale fuel searcher op _ opShort opGranted]
      exact inductionHypothesis (fun op member => short op (List.mem_cons_of_mem _ member))
        (fun op member => granted op (List.mem_cons_of_mem _ member)) _ (by omega)
    · have rest : cut - op.record.length = 0 := by omega
      rw [if_neg complete, if_neg complete]
      rw [rest, List.take_zero, List.append_nil] at enough ⊢
      by_cases empty : cut = 0
      · rw [if_pos empty, empty, List.take_zero, recoverLoop_nil]
        rfl
      · rw [List.length_take] at enough
        obtain ⟨fuel, rfl⟩ : ∃ less, fuel = less + 1 := ⟨fuel - 1, by omega⟩
        rw [if_neg empty, recoverLoop_torn memory stale fuel searcher op cut opShort
          (Nat.pos_of_ne_zero empty) (Nat.not_le.mp complete)]
        rfl

/-- A log of its full length has every record. -/
theorem cut_length (ops : List Op) : tornAt ops (ops.flatMap Op.record).length = none ∧
    completeOps ops (ops.flatMap Op.record).length = ops := by
  induction ops with
  | nil => exact ⟨rfl, rfl⟩
  | cons op rest inductionHypothesis =>
    have length : ((op :: rest).flatMap Op.record).length =
        op.record.length + (rest.flatMap Op.record).length := List.length_append
    unfold tornAt completeOps
    rw [length, if_pos (Nat.le_add_right _ _), if_pos (Nat.le_add_right _ _),
      Nat.add_sub_cancel_left]
    exact ⟨inductionHypothesis.1, congrArg _ inductionHypothesis.2⟩

/-- A log that is not cut gives back its operations. -/
theorem recoverFromWal_log (searcher : Searcher) {ops : List Op}
    (short : ∀ op ∈ ops, op.count < 2 ^ 32) (granted : ∀ op ∈ ops, op.count ≤ memory) :
    recoverFromWal memory stale searcher (ops.flatMap Op.record) = some (searcher.replay ops) := by
  obtain ⟨whole, all⟩ := cut_length ops
  have recovered := recoverLoop_take memory stale short granted searcher
    (le_refl ((ops.flatMap Op.record).take (ops.flatMap Op.record).length).length)
  rw [List.take_length, whole, all] at recovered
  exact recovered

/-! ### Operations that change nothing -/

/-- The bitmaps of the operations already hold what the operation would write. -/
def Searcher.InEffect (searcher : Searcher) : Op → Prop
  | .remove vid => vid ∈ searcher.deletedBitmap
  | .insert vid tags =>
    vid ∉ searcher.deletedBitmap ∧
      if searcher.universalTag ∈ tags then vid ∈ searcher.memUniversalBitmap
      else ∀ tag ∈ tags, vid ∈ searcher.memIndex.bitmap tag

theorem TagIndex.add_of_mem {index : TagIndex} {tag : Tag} {vid : VectorId}
    (present : vid ∈ index.bitmap tag) : index.add tag vid = index := by
  have found : index.lookup tag = some (index.bitmap tag) := by
    unfold TagIndex.bitmap at present ⊢
    cases found : index.lookup tag with
    | none =>
      rw [found] at present
      exact absurd present (Finset.notMem_empty vid)
    | some bitmap => rfl
  apply Finmap.ext_lookup
  intro other
  unfold TagIndex.add
  by_cases same : other = tag
  · rw [same, Finmap.lookup_insert, Finset.insert_eq_of_mem present, found]
  · exact Finmap.lookup_insert_of_ne _ same

theorem TagIndex.foldl_add_eq_iff (index : TagIndex) (tags : List Tag) (vid : VectorId) :
    tags.foldl (fun index tag => index.add tag vid) index = index ↔
      ∀ tag ∈ tags, vid ∈ index.bitmap tag := by
  constructor
  · intro same tag member
    rw [← same, TagIndex.mem_bitmap_foldl_add]
    exact Or.inr ⟨member, rfl⟩
  · intro present
    induction tags with
    | nil => rfl
    | cons tag rest inductionHypothesis =>
      rw [List.foldl_cons, TagIndex.add_of_mem (present tag List.mem_cons_self)]
      exact inductionHypothesis fun other member => present other (List.mem_cons_of_mem _ member)

theorem Searcher.applyToMem_eq_iff (searcher : Searcher) (op : Op) :
    searcher.applyToMem op = searcher ↔ searcher.InEffect op := by
  cases op with
  | remove vid =>
    constructor
    · intro same
      have deleted := congrArg Searcher.deletedBitmap same
      exact Finset.insert_eq_self.mp deleted
    · intro deleted
      show { searcher with deletedBitmap := Insert.insert vid searcher.deletedBitmap } = searcher
      rw [Finset.insert_eq_of_mem deleted]
  | insert vid tags =>
    show searcher.applyInsertToMem vid tags = searcher ↔ _ ∧ _
    unfold Searcher.applyInsertToMem
    by_cases universal : searcher.universalTag ∈ tags
    · rw [if_pos universal, if_pos universal]
      constructor
      · intro same
        exact ⟨Finset.erase_eq_self.mp (congrArg Searcher.deletedBitmap same),
          Finset.insert_eq_self.mp (congrArg Searcher.memUniversalBitmap same)⟩
      · rintro ⟨live, present⟩
        dsimp only
        rw [Finset.insert_eq_of_mem present, Finset.erase_eq_of_notMem live]
    · rw [if_neg universal, if_neg universal]
      constructor
      · intro same
        exact ⟨Finset.erase_eq_self.mp (congrArg Searcher.deletedBitmap same),
          (TagIndex.foldl_add_eq_iff _ _ _).mp (congrArg Searcher.memIndex same)⟩
      · rintro ⟨live, present⟩
        dsimp only
        rw [(TagIndex.foldl_add_eq_iff _ _ _).mpr present, Finset.erase_eq_of_notMem live]

/-- Recovery from a cut log gives what the operations with complete records give. -/
def RecoversPrefix (searcher : Searcher) (file : IndexFile) (ops : List Op) (cut : Nat) : Prop :=
  recoverFromWal memory stale (searcher.load file) ((ops.flatMap Op.record).take cut) =
    some ((searcher.load file).replay (completeOps ops cut))

/-- The record that the cut tears, if it does, leaves an operation that can be read and
that changes nothing. -/
def TornInEffect (searcher : Searcher) (file : IndexFile) (ops : List Op) (cut : Nat) : Prop :=
  ∀ torn ∈ tornAt ops cut, (tornOp stale torn.1 torn.2).count ≤ memory ∧
    ((searcher.load file).replay (completeOps ops cut)).InEffect (tornOp stale torn.1 torn.2)

/-- A cut log recovers to a prefix exactly when no record is torn or the torn one changes
nothing. -/
theorem recoverFromWal_take_iff (searcher : Searcher) (file : IndexFile) {ops : List Op}
    (short : ∀ op ∈ ops, op.count < 2 ^ 32) (granted : ∀ op ∈ ops, op.count ≤ memory)
    (cut : Nat) :
    RecoversPrefix memory stale searcher file ops cut ↔
      TornInEffect memory stale searcher file ops cut := by
  unfold RecoversPrefix TornInEffect recoverFromWal
  rw [recoverLoop_take memory stale short granted _ le_rfl]
  cases torn : tornAt ops cut with
  | none => exact iff_of_true rfl nofun
  | some cutOp =>
    obtain ⟨op, present⟩ := cutOp
    simp only [Option.mem_some_iff, forall_eq']
    by_cases large : memory < (tornOp stale op present).count
    · rw [if_pos large]
      exact iff_of_false (Option.some_ne_none _).symm fun both => Nat.not_le.mpr large both.1
    · rw [if_neg large, Option.some_inj, Searcher.applyToMem_eq_iff]
      exact (and_iff_right (Nat.not_lt.mp large)).symm

/-- A removal that is torn after a removal of the same vector. -/
theorem recoverFromWal_take_removed :
    RecoversPrefix 0 ⟨fun _ => 7, fun _ => 0⟩ Searcher.init ⟨∅, []⟩ [.remove 7, .remove 8] 6 :=
  (recoverFromWal_take_iff 0 ⟨fun _ => 7, fun _ => 0⟩ Searcher.init ⟨∅, []⟩ (by decide)
    (by decide) 6).mpr fun torn tears => by
      obtain rfl := Option.some.inj tears
      exact ⟨Nat.le_refl 0, by show (7 : VectorId) ∈ _; decide⟩

/-- An insertion that is torn between its two tags. -/
theorem recoverFromWal_take_torn :
    ¬ ∀ (memory : Nat) (stale : Stale) (searcher : Searcher) (file : IndexFile) (ops : List Op)
      (cut : Nat), (∀ op ∈ ops, op.count ≤ memory) →
        RecoversPrefix memory stale searcher file ops cut := by
  intro recovers
  have recovered := recovers 2 ⟨fun _ => 0, fun _ => 0⟩ Searcher.init ⟨∅, []⟩
    [.insert 1 [5, 6]] 13 (by decide)
  have answers := congrArg (Option.map fun searcher => searcher.queryBitmap [5]) recovered
  revert answers
  decide

end OdinVector.Inverted
