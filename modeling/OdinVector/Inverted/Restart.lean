/-
This file compares a searcher that goes on after a merge with one that starts from the
merged file. The merge writes a file without the deleted vectors but leaves the layers
of the running searcher as they are, so a vector that comes back there has the tags of
its time before the removal again, and in the other searcher only the new ones.
-/

import OdinVector.Inverted.Merging

namespace OdinVector.Inverted

/-! ### What a sequence of operations does to one vector -/

/-- The vector of an operation. -/
def Op.vid : Op → VectorId
  | .insert vid _ => vid
  | .remove vid => vid

/-- The last operation on a vector. -/
def lastOn (vid : VectorId) (ops : List Op) : Option Op :=
  (ops.filter fun op => op.vid = vid).getLast?

/-- The labels that the operations give to a vector. -/
def givenBy (universalTag : Tag) (ops : List Op) (vid : VectorId) : List Label :=
  ops.filterMap (Op.label? universalTag vid)

theorem lastOn_concat (vid : VectorId) (ops : List Op) (op : Op) :
    lastOn vid (ops ++ [op]) = if op.vid = vid then some op else lastOn vid ops := by
  unfold lastOn
  rw [List.filter_append, List.filter_singleton]
  by_cases same : op.vid = vid
  · rw [decide_eq_true same, if_pos same]
    exact List.getLast?_concat
  · rw [decide_eq_false same, if_neg same]
    exact congrArg List.getLast? (List.append_nil _)

theorem Op.label?_of_ne {op : Op} {vid : VectorId} (other : op.vid ≠ vid) (universalTag : Tag) :
    op.label? universalTag vid = none := by
  cases op with
  | insert inserted tags => exact if_neg other
  | remove removed => rfl

theorem givenBy_of_lastOn {vid : VectorId} {ops : List Op} (untouched : lastOn vid ops = none)
    (universalTag : Tag) : givenBy universalTag ops vid = [] := by
  unfold givenBy
  refine List.filterMap_eq_nil_iff.mpr fun op member => Op.label?_of_ne (fun same => ?_) _
  have touching : op ∈ ops.filter fun op => op.vid = vid :=
    List.mem_filter.mpr ⟨member, decide_eq_true same⟩
  rw [List.getLast?_eq_none_iff.mp untouched] at touching
  exact List.not_mem_nil touching

theorem mem_givenBy_concat (universalTag : Tag) (ops : List Op) (op : Op) (vid : VectorId)
    (label : Label) :
    label ∈ givenBy universalTag (ops ++ [op]) vid ↔
      label ∈ givenBy universalTag ops vid ∨ op.label? universalTag vid = some label := by
  unfold givenBy
  rw [List.filterMap_append, List.mem_append]
  refine or_congr_right ?_
  rw [List.mem_filterMap]
  exact ⟨fun ⟨found, member, labels⟩ => List.mem_singleton.mp member ▸ labels,
    fun labels => ⟨op, List.mem_singleton_self op, labels⟩⟩

theorem exists_mem_givenBy_concat (universalTag : Tag) (ops : List Op) (op : Op)
    (vid : VectorId) (property : Label → Prop) :
    (∃ label ∈ givenBy universalTag (ops ++ [op]) vid, property label) ↔
      (∃ label ∈ givenBy universalTag ops vid, property label) ∨
        ∃ label, op.label? universalTag vid = some label ∧ property label := by
  simp only [mem_givenBy_concat, or_and_right, exists_or]

namespace Searcher

variable (searcher : Searcher)

theorem replay_concat (ops : List Op) (op : Op) :
    searcher.replay (ops ++ [op]) = (searcher.replay ops).applyToMem op :=
  List.foldl_concat _ _ _ _

theorem mem_universalBitmap_applyToMem (op : Op) (vid : VectorId) :
    vid ∈ (searcher.applyToMem op).universalBitmap ↔ vid ∈ searcher.universalBitmap ∨
      ∃ label, op.label? searcher.universalTag vid = some label ∧ label.universal = true := by
  cases op with
  | remove removed => exact (or_iff_left fun ⟨_, labels, _⟩ => nomatch labels).symm
  | insert inserted tags =>
    refine (searcher.mem_universalBitmap_applyInsertToMem inserted tags vid).trans
      (or_congr_right ?_)
    constructor
    · intro ⟨universal, same⟩
      exact ⟨_, if_pos same.symm, decide_eq_true universal⟩
    · intro ⟨label, labels, universal⟩
      obtain ⟨same, labels⟩ := Option.ite_none_right_eq_some.mp labels
      obtain rfl := Option.some.inj labels
      exact ⟨of_decide_eq_true universal, same.symm⟩

theorem mem_tagBitmap_applyToMem (op : Op) (tag : Tag) (vid : VectorId) :
    vid ∈ (searcher.applyToMem op).tagBitmap tag ↔ vid ∈ searcher.tagBitmap tag ∨
      ∃ label, op.label? searcher.universalTag vid = some label ∧
        label.universal = false ∧ tag ∈ label.tags := by
  cases op with
  | remove removed => exact (or_iff_left fun ⟨_, labels, _⟩ => nomatch labels).symm
  | insert inserted tags =>
    refine (searcher.mem_tagBitmap_applyInsertToMem inserted tags tag vid).trans
      (or_congr_right ?_)
    constructor
    · intro ⟨ordinary, tagged, same⟩
      exact ⟨_, if_pos same.symm, decide_eq_false ordinary, List.mem_toFinset.mpr tagged⟩
    · intro ⟨label, labels, ordinary, tagged⟩
      obtain ⟨same, labels⟩ := Option.ite_none_right_eq_some.mp labels
      obtain rfl := Option.some.inj labels
      exact ⟨of_decide_eq_false ordinary, List.mem_toFinset.mp tagged, same.symm⟩

theorem mem_deletedBitmap_applyToMem (op : Op) (vid : VectorId) :
    vid ∈ (searcher.applyToMem op).deletedBitmap ↔
      if op.vid = vid then op = .remove vid else vid ∈ searcher.deletedBitmap := by
  cases op with
  | remove removed =>
    refine Finset.mem_insert.trans ?_
    show _ ↔ if removed = vid then _ else _
    by_cases same : removed = vid
    · rw [if_pos same, same]
      exact iff_of_true (Or.inl rfl) rfl
    · rw [if_neg same]
      exact or_iff_right (Ne.symm same)
  | insert inserted tags =>
    refine Finset.mem_erase.trans ?_
    show _ ↔ if inserted = vid then _ else _
    by_cases same : inserted = vid
    · rw [if_pos same, same]
      exact iff_of_false (fun both => both.1 rfl) nofun
    · rw [if_neg same]
      exact and_iff_right (Ne.symm same)

/-- A vector is universal if it was before or one of the operations makes it so. -/
theorem mem_universalBitmap_replay (ops : List Op) (vid : VectorId) :
    vid ∈ (searcher.replay ops).universalBitmap ↔ vid ∈ searcher.universalBitmap ∨
      ∃ label ∈ givenBy searcher.universalTag ops vid, label.universal = true := by
  induction ops using List.reverseRecOn with
  | nil => exact (or_iff_left fun ⟨_, member, _⟩ => List.not_mem_nil member).symm
  | append_singleton ops op inductionHypothesis =>
    rw [replay_concat, mem_universalBitmap_applyToMem, inductionHypothesis, universalTag_replay,
      exists_mem_givenBy_concat, or_assoc]

/-- A vector has a tag if it had it before or one of the operations gives it. -/
theorem mem_tagBitmap_replay (ops : List Op) (tag : Tag) (vid : VectorId) :
    vid ∈ (searcher.replay ops).tagBitmap tag ↔ vid ∈ searcher.tagBitmap tag ∨
      ∃ label ∈ givenBy searcher.universalTag ops vid,
        label.universal = false ∧ tag ∈ label.tags := by
  induction ops using List.reverseRecOn with
  | nil => exact (or_iff_left fun ⟨_, member, _⟩ => List.not_mem_nil member).symm
  | append_singleton ops op inductionHypothesis =>
    rw [replay_concat, mem_tagBitmap_applyToMem, inductionHypothesis, universalTag_replay,
      exists_mem_givenBy_concat, or_assoc]

/-- The last operation on a vector says whether it is deleted. -/
theorem mem_deletedBitmap_replay (ops : List Op) (vid : VectorId) :
    vid ∈ (searcher.replay ops).deletedBitmap ↔
      lastOn vid ops = none ∧ vid ∈ searcher.deletedBitmap ∨
        lastOn vid ops = some (.remove vid) := by
  induction ops using List.reverseRecOn with
  | nil => exact ⟨fun deleted => Or.inl ⟨rfl, deleted⟩, fun either => either.elim And.right nofun⟩
  | append_singleton ops op inductionHypothesis =>
    rw [replay_concat, mem_deletedBitmap_applyToMem, lastOn_concat]
    by_cases same : op.vid = vid
    · rw [if_pos same, if_pos same]
      simp only [reduceCtorEq, false_and, false_or, Option.some.injEq]
    · rw [if_neg same, if_neg same]
      exact inductionHypothesis

/-- Two searchers answer a vector alike for all queries. -/
def AgreeOn (first second : Searcher) (vid : VectorId) : Prop :=
  ∀ tags, vid ∈ first.queryBitmap tags ↔ vid ∈ second.queryBitmap tags

theorem query_eq_iff (first second : Searcher) :
    (∀ tags, first.query tags = second.query tags) ↔ ∀ vid, AgreeOn first second vid := by
  constructor
  · intro same vid tags
    rw [← mem_query, ← mem_query, same]
  · intro agree tags
    have bitmaps : first.queryBitmap tags = second.queryBitmap tags := by
      ext vid
      exact agree vid tags
    exact congrArg (Finset.sort · (· ≤ ·)) bitmaps

theorem agreeOn_of_bitmaps {first second : Searcher} {vid : VectorId}
    (deleted : vid ∈ first.deletedBitmap ↔ vid ∈ second.deletedBitmap)
    (universal : vid ∈ first.universalBitmap ↔ vid ∈ second.universalBitmap)
    (tagged : ∀ tag, vid ∈ first.tagBitmap tag ↔ vid ∈ second.tagBitmap tag) :
    AgreeOn first second vid := by
  intro tags
  rw [mem_queryBitmap, mem_queryBitmap, deleted, universal]
  simp only [tagged]

/-- A vector that no searcher answers. -/
theorem agreeOn_of_absent {first second : Searcher} {vid : VectorId}
    (firstAbsent : ∀ tags, vid ∉ first.queryBitmap tags)
    (secondAbsent : ∀ tags, vid ∉ second.queryBitmap tags) : AgreeOn first second vid :=
  fun tags => iff_of_false (firstAbsent tags) (secondAbsent tags)

end Searcher

/-! ### The two searchers -/

variable (memory : Nat) (stale : Stale)

/-- A searcher that starts from the merged file and replays the log of the operations
after the merge answers every query as the one that has gone on. -/
def RestartAgrees (searcher : Searcher) (file : IndexFile) (content : List UInt8)
    (ops rest : List Op) : Prop :=
  let merged := (((searcher.load file).openWal content).run ops).merge
  let running := merged.2.run rest
  ∃ log ∈ running.wal, ∃ restarted,
    recoverFromWal memory stale
      ((Searcher.init.load merged.1).setUniversalTag searcher.universalTag) log =
        some restarted ∧
      ∀ tags, restarted.query tags = running.query tags

/-- A deleted vector whose last operation is an insertion gets back what the bitmaps
still have of it. -/
def RestoresLabels (merging : Searcher) (rest : List Op) : Prop :=
  ∀ vid ∈ merging.deletedBitmap, (∃ tags, lastOn vid rest = some (.insert vid tags)) →
    (∃ label ∈ givenBy merging.universalTag rest vid, label.universal = true) ∨
      vid ∉ merging.universalBitmap ∧ ∀ tag, vid ∈ merging.tagBitmap tag →
        ∃ label ∈ givenBy merging.universalTag rest vid, tag ∈ label.tags

namespace Searcher

theorem lastOn_cases (vid : VectorId) (ops : List Op) :
    lastOn vid ops = none ∨ lastOn vid ops = some (.remove vid) ∨
      ∃ tags, lastOn vid ops = some (.insert vid tags) := by
  induction ops using List.reverseRecOn with
  | nil => exact Or.inl rfl
  | append_singleton ops op inductionHypothesis =>
    rw [lastOn_concat]
    by_cases same : op.vid = vid
    · rw [if_pos same]
      cases op with
      | remove removed =>
        obtain rfl : removed = vid := same
        exact Or.inr (Or.inl rfl)
      | insert inserted tags =>
        obtain rfl : inserted = vid := same
        exact Or.inr (Or.inr ⟨tags, rfl⟩)
    · rw [if_neg same]
      exact inductionHypothesis

variable {merging restart : Searcher}

/-- A searcher that has what `merging` has of the vectors that are not deleted. -/
structure Restarts (restart merging : Searcher) : Prop where
  universalTag : restart.universalTag = merging.universalTag
  deletedBitmap : restart.deletedBitmap = ∅
  universalBitmap : restart.universalBitmap = merging.universalBitmap \ merging.deletedBitmap
  tagBitmap : ∀ tag, restart.tagBitmap tag = merging.tagBitmap tag \ merging.deletedBitmap

/-- A vector that was live at the merge is answered alike. -/
theorem Restarts.agreeOn_of_live (restarts : Restarts restart merging) (rest : List Op)
    {vid : VectorId} (live : vid ∉ merging.deletedBitmap) :
    AgreeOn (restart.replay rest) (merging.replay rest) vid := by
  refine agreeOn_of_bitmaps ?_ ?_ fun tag => ?_
  · rw [mem_deletedBitmap_replay, mem_deletedBitmap_replay, restarts.deletedBitmap]
    refine or_congr_left (and_congr_right fun _ => ?_)
    exact iff_of_false (Finset.notMem_empty vid) live
  · rw [mem_universalBitmap_replay, mem_universalBitmap_replay, restarts.universalTag,
      restarts.universalBitmap, Finset.mem_sdiff]
    exact or_congr_left (and_iff_left live)
  · rw [mem_tagBitmap_replay, mem_tagBitmap_replay, restarts.universalTag,
      restarts.tagBitmap, Finset.mem_sdiff]
    exact or_congr_left (and_iff_left live)

/-- A deleted vector that nothing happens to is not answered. -/
theorem Restarts.agreeOn_of_untouched (restarts : Restarts restart merging) {rest : List Op}
    {vid : VectorId} (deleted : vid ∈ merging.deletedBitmap) (untouched : lastOn vid rest = none) :
    AgreeOn (restart.replay rest) (merging.replay rest) vid := by
  have nothing := givenBy_of_lastOn untouched merging.universalTag
  refine agreeOn_of_absent (fun tags => ?_) fun tags => ?_
  · rw [mem_queryBitmap, mem_universalBitmap_replay, restarts.universalTag, nothing,
      restarts.universalBitmap, Finset.mem_sdiff]
    intro ⟨_, answered⟩
    obtain (⟨_, live⟩ | ⟨_, member, _⟩) | ⟨nonempty, tagged⟩ := answered
    · exact live deleted
    · exact List.not_mem_nil member
    · obtain ⟨tag, member⟩ := List.exists_mem_of_ne_nil tags nonempty
      have present := tagged tag member
      rw [mem_tagBitmap_replay, restarts.universalTag, nothing, restarts.tagBitmap,
        Finset.mem_sdiff] at present
      obtain ⟨_, live⟩ | ⟨_, member, _⟩ := present
      · exact live deleted
      · exact List.not_mem_nil member
  · rw [mem_queryBitmap, mem_deletedBitmap_replay]
    exact fun both => both.1 (Or.inl ⟨untouched, deleted⟩)

theorem agreeOn_of_removed (first second : Searcher) {rest : List Op} {vid : VectorId}
    (removed : lastOn vid rest = some (.remove vid)) :
    AgreeOn (first.replay rest) (second.replay rest) vid := by
  have absent : ∀ (searcher : Searcher) (tags : List Tag),
      vid ∉ (searcher.replay rest).queryBitmap tags := by
    intro searcher tags
    rw [mem_queryBitmap, mem_deletedBitmap_replay]
    exact fun both => both.1 (Or.inr removed)
  exact agreeOn_of_absent (absent first) (absent second)

/-- A deleted vector that comes back is answered alike exactly when it gets back what the
bitmaps have of it. -/
theorem Restarts.agreeOn_inserted_iff (restarts : Restarts restart merging) {rest : List Op}
    {vid : VectorId} (deleted : vid ∈ merging.deletedBitmap) {tags : List Tag}
    (inserted : lastOn vid rest = some (.insert vid tags)) :
    AgreeOn (restart.replay rest) (merging.replay rest) vid ↔
      (∃ label ∈ givenBy merging.universalTag rest vid, label.universal = true) ∨
        vid ∉ merging.universalBitmap ∧ ∀ tag, vid ∈ merging.tagBitmap tag →
          ∃ label ∈ givenBy merging.universalTag rest vid, tag ∈ label.tags := by
  have live : ∀ searcher : Searcher, vid ∉ (searcher.replay rest).deletedBitmap := by
    intro searcher
    rw [mem_deletedBitmap_replay, inserted]
    simp only [reduceCtorEq, false_and, Option.some.injEq, or_self, not_false_eq_true]
  have universal : vid ∈ (restart.replay rest).universalBitmap ↔
      ∃ label ∈ givenBy merging.universalTag rest vid, label.universal = true := by
    rw [mem_universalBitmap_replay, restarts.universalTag, restarts.universalBitmap,
      Finset.mem_sdiff]
    exact or_iff_right fun both => both.2 deleted
  have tagged : ∀ tag, vid ∈ (restart.replay rest).tagBitmap tag ↔
      ∃ label ∈ givenBy merging.universalTag rest vid,
        label.universal = false ∧ tag ∈ label.tags := by
    intro tag
    rw [mem_tagBitmap_replay, restarts.universalTag, restarts.tagBitmap, Finset.mem_sdiff]
    exact or_iff_right fun both => both.2 deleted
  have runningUniversal := merging.mem_universalBitmap_replay rest vid
  have runningTagged := fun tag => merging.mem_tagBitmap_replay rest tag vid
  by_cases made : ∃ label ∈ givenBy merging.universalTag rest vid, label.universal = true
  · refine iff_of_true (fun query => ?_) (Or.inl made)
    rw [mem_queryBitmap, mem_queryBitmap]
    exact iff_of_true ⟨live restart, Or.inl (universal.mpr made)⟩
      ⟨live merging, Or.inl (runningUniversal.mpr (Or.inr made))⟩
  · have ordinary : ∀ label ∈ givenBy merging.universalTag rest vid, label.universal = false :=
      fun label member => Bool.eq_false_of_not_eq_true fun isUniversal =>
        made ⟨label, member, isUniversal⟩
    rw [or_iff_right made]
    constructor
    · intro agree
      constructor
      · intro wasUniversal
        obtain ⟨_, again | ⟨nonempty, _⟩⟩ := (mem_queryBitmap _ _ _).mp ((agree []).mpr
          ((mem_queryBitmap _ _ _).mpr
            ⟨live merging, Or.inl (runningUniversal.mpr (Or.inl wasUniversal))⟩))
        · exact made (universal.mp again)
        · exact nonempty rfl
      · intro tag had
        obtain ⟨_, again | ⟨_, covered⟩⟩ := (mem_queryBitmap _ _ _).mp ((agree [tag]).mpr
          ((mem_queryBitmap _ _ _).mpr ⟨live merging, Or.inr ⟨List.cons_ne_nil _ _,
            List.forall_mem_singleton.mpr ((runningTagged tag).mpr (Or.inl had))⟩⟩))
        · exact absurd (universal.mp again) made
        · obtain ⟨label, member, _, given⟩ :=
            (tagged tag).mp (covered tag (List.mem_singleton_self tag))
          exact ⟨label, member, given⟩
    · intro ⟨neverUniversal, covered⟩
      refine agreeOn_of_bitmaps ?_ ?_ fun tag => ?_
      · exact iff_of_false (live restart) (live merging)
      · rw [universal, runningUniversal]
        exact (or_iff_right neverUniversal).symm
      · rw [tagged, runningTagged]
        refine (or_iff_right_of_imp fun had => ?_).symm
        obtain ⟨label, member, given⟩ := covered tag had
        exact ⟨label, member, ordinary label member, given⟩

/-- All vectors are answered alike exactly when the deleted ones that come back get back
what the bitmaps have of them. -/
theorem Restarts.agree_iff (restarts : Restarts restart merging) (rest : List Op) :
    (∀ vid, AgreeOn (restart.replay rest) (merging.replay rest) vid) ↔
      RestoresLabels merging rest := by
  constructor
  · intro agree vid deleted ⟨tags, inserted⟩
    exact (restarts.agreeOn_inserted_iff deleted inserted).mp (agree vid)
  · intro restores vid
    by_cases deleted : vid ∈ merging.deletedBitmap
    · obtain untouched | removed | ⟨tags, inserted⟩ := lastOn_cases vid rest
      · exact restarts.agreeOn_of_untouched deleted untouched
      · exact agreeOn_of_removed restart merging removed
      · exact (restarts.agreeOn_inserted_iff deleted inserted).mpr
          (restores vid deleted ⟨tags, inserted⟩)
    · exact restarts.agreeOn_of_live rest deleted

/-- A fresh searcher over the merged file. -/
theorem restarts_mergedFile (merging : Searcher) :
    Restarts ((init.load merging.mergedFile).setUniversalTag merging.universalTag) merging where
  universalTag := rfl
  deletedBitmap := rfl
  universalBitmap := Finset.union_empty _
  tagBitmap tag := by
    have layers : ((init.load merging.mergedFile).setUniversalTag merging.universalTag).tagBitmap
        tag = (init.load merging.mergedFile).diskIndex.bitmap tag ∪ TagIndex.bitmap ∅ tag := rfl
    rw [layers, TagIndex.bitmap_empty, Finset.union_empty, bitmap_load_mergedFile]

end Searcher

/-- After a merge the running searcher answers as a restarted one exactly when every deleted
vector that is inserted again gets back what the bitmaps still have of it. -/
theorem restartAgrees_iff (searcher : Searcher) (file : IndexFile) (content : List UInt8)
    (ops : List Op) {rest : List Op} (short : ∀ op ∈ rest, op.count < 2 ^ 32)
    (granted : ∀ op ∈ rest, op.count ≤ memory) :
    RestartAgrees memory stale searcher file content ops rest ↔
      RestoresLabels (((searcher.load file).openWal content).run ops) rest := by
  let merging := ((searcher.load file).openWal content).run ops
  let merged := merging.merge
  have log : (merged.2.run rest).wal = some (rest.flatMap Op.record) := by
    have opened : merging.wal = some (content ++ ops.flatMap Op.record) := Searcher.wal_run _ _
    rw [Searcher.wal_run]
    show Option.map _ (Option.map _ merging.wal) = _
    rw [opened]
    rfl
  have tag : merging.universalTag = searcher.universalTag := by
    show (((searcher.load file).openWal content).run ops).universalTag = _
    rw [Searcher.run_eq]
    exact universalTag_replay _ _
  let restart := (Searcher.init.load merged.1).setUniversalTag searcher.universalTag
  have recovered := recoverFromWal_log memory stale restart short granted
  have restarts : Searcher.Restarts restart merged.2 := by
    have fresh := merging.restarts_mergedFile
    rw [tag] at fresh
    exact ⟨tag.symm, fresh.deletedBitmap, fresh.universalBitmap, fresh.tagBitmap⟩
  have answers : (∀ tags, (restart.replay rest).query tags = (merged.2.run rest).query tags) ↔
      RestoresLabels merged.2 rest := by
    have running : ∀ tags, (merged.2.run rest).query tags = (merged.2.replay rest).query tags := by
      intro tags
      unfold Searcher.query
      rw [Searcher.run_eq, Searcher.queryBitmap_appendWal]
    simp only [running]
    rw [Searcher.query_eq_iff]
    exact restarts.agree_iff rest
  refine Iff.trans ?_ answers
  constructor
  · intro ⟨other, opened, restarted, ran, agree⟩
    obtain rfl := Option.some.inj (log.symm.trans opened)
    obtain rfl := Option.some.inj (recovered.symm.trans ran)
    exact agree
  · intro agree
    exact ⟨_, log, _, recovered, agree⟩

/-- A vector that is removed and comes back as a universal one. -/
theorem restartAgrees_universal :
    RestartAgrees 2 ⟨fun _ => 0, fun _ => 0⟩ Searcher.init ⟨∅, []⟩ []
      [.insert 1 [5], .remove 1] [.insert 1 [6, -1]] :=
  (restartAgrees_iff 2 ⟨fun _ => 0, fun _ => 0⟩ Searcher.init ⟨∅, []⟩ [] [.insert 1 [5], .remove 1]
    (by decide) (by decide)).mpr fun vid deleted _ => by
      have only : (((Searcher.init.load ⟨∅, []⟩).openWal []).run
          [.insert 1 [5], .remove 1]).deletedBitmap = {1} := by decide
      rw [only] at deleted
      obtain rfl := Finset.mem_singleton.mp deleted
      exact Or.inl ⟨labelOf (-1) [6, -1], by decide, by decide⟩

/-- A vector that is removed before the merge and comes back with another tag. -/
theorem not_restartAgrees :
    ¬ ∀ (memory : Nat) (stale : Stale) (searcher : Searcher) (file : IndexFile)
      (content : List UInt8) (ops rest : List Op), (∀ op ∈ rest, op.count ≤ memory) →
        RestartAgrees memory stale searcher file content ops rest := by
  intro agrees
  let merging := ((Searcher.init.load ⟨∅, []⟩).openWal []).run [.insert 1 [5], .remove 1]
  obtain ⟨log, opened, restarted, ran, answers⟩ := agrees 1 ⟨fun _ => 0, fun _ => 0⟩
    Searcher.init ⟨∅, []⟩ [] [.insert 1 [5], .remove 1] [.insert 1 [6]] (by decide)
  obtain rfl := Option.some.inj opened
  have replayed := recoverFromWal_log 1 ⟨fun _ => 0, fun _ => 0⟩
    ((Searcher.init.load merging.mergedFile).setUniversalTag (-1))
    (by decide : ∀ op ∈ [Op.insert 1 [6]], op.count < 2 ^ 32) (by decide)
  obtain rfl := Option.some.inj (replayed.symm.trans ran)
  have agree : Searcher.AgreeOn _ (merging.replay [.insert 1 [6]]) 1 :=
    (Searcher.query_eq_iff _ _).mp answers 1
  obtain ⟨label, member, universal⟩ | ⟨-, covered⟩ :=
    (merging.restarts_mergedFile.agreeOn_inserted_iff (by decide) rfl).mp agree
  · obtain rfl := List.mem_singleton.mp member
    exact absurd universal (by decide)
  · obtain ⟨label, member, tagged⟩ := covered 5 (by decide)
    obtain rfl := List.mem_singleton.mp member
    exact absurd tagged (by decide)

end OdinVector.Inverted
