/-
This file states what an inverted index is for and when it does it. Every vector has
the label that it was given last, or none once it is removed; a query asks for the
vectors whose label is universal or has all the tags. The bitmaps instead collect all
the labels that a vector has ever had, so the answers are right as long as no vector
comes back with a label that lacks something of an earlier one.
-/

import OdinVector.Inverted.Searcher

namespace OdinVector.Inverted

/-! ### Labels -/

/-- A tag set: whether it makes a vector universal, and its tags. -/
structure Label where
  universal : Bool
  tags : Finset Tag
  deriving DecidableEq

/-- The tag set of an insertion. -/
def labelOf (universalTag : Tag) (tags : List Tag) : Label where
  universal := universalTag ∈ tags
  tags := tags.toFinset

/-- The vectors that a query should give. -/
def Label.Answers (label : Label) (tags : List Tag) : Prop :=
  label.universal = true ∨ tags ≠ [] ∧ ∀ tag ∈ tags, tag ∈ label.tags

/-- The label of a vector in a file that was loaded. -/
def IndexFile.label (file : IndexFile) (vid : VectorId) : Label where
  universal := vid ∈ file.universalBitmap
  tags := (Searcher.init.load file).diskIndex.keys.filter
    fun tag => vid ∈ (Searcher.init.load file).diskIndex.bitmap tag

/-- The label of each vector, for one that is not removed. -/
abbrev Labels := VectorId → Option Label

/-- What an operation should do. -/
def Labels.apply (universalTag : Tag) (labels : Labels) : Op → Labels
  | .insert vid tags => Function.update labels vid (some (labelOf universalTag tags))
  | .remove vid => Function.update labels vid none

/-- The labels after a sequence of operations on what was loaded. -/
def lastLabels (universalTag : Tag) (file : IndexFile) (ops : List Op) : Labels :=
  ops.foldl (Labels.apply universalTag) fun vid => some (file.label vid)

/-- The label that an operation gives to a vector. -/
def Op.label? (universalTag : Tag) (vid : VectorId) : Op → Option Label
  | .insert other tags => if other = vid then some (labelOf universalTag tags) else none
  | .remove _ => none

/-- All the labels that a vector was ever given. -/
def givenLabels (universalTag : Tag) (file : IndexFile) (ops : List Op) (vid : VectorId) :
    List Label :=
  file.label vid :: ops.filterMap (Op.label? universalTag vid)

/-- Every vector that is not removed has a label that covers the ones before: it is
universal, or none of them was and it has all their tags. -/
def LabelsGrow (universalTag : Tag) (file : IndexFile) (ops : List Op) : Prop :=
  ∀ vid last, lastLabels universalTag file ops vid = some last →
    last.universal = true ∨
      ∀ given ∈ givenLabels universalTag file ops vid,
        given.universal = false ∧ given.tags ⊆ last.tags

/-! ### The bitmaps collect the given labels -/

/-- What the bitmaps hold of the labels that were given. -/
structure Collects (searcher : Searcher) (labels : Labels) (given : VectorId → List Label) :
    Prop where
  deleted : ∀ vid, vid ∈ searcher.deletedBitmap ↔ labels vid = none
  universal : ∀ vid, vid ∈ searcher.universalBitmap ↔ ∃ label ∈ given vid, label.universal = true
  tagged : ∀ vid tag, vid ∈ searcher.tagBitmap tag → ∃ label ∈ given vid, tag ∈ label.tags
  stored : ∀ vid tag, ∀ label ∈ given vid, label.universal = false → tag ∈ label.tags →
    vid ∈ searcher.tagBitmap tag
  last : ∀ vid label, labels vid = some label → label ∈ given vid

variable {universalTag : Tag} {file : IndexFile} {ops : List Op}

theorem IndexFile.mem_label_tags (searcher : Searcher) (file : IndexFile) (vid : VectorId)
    (tag : Tag) : tag ∈ (file.label vid).tags ↔ vid ∈ (searcher.load file).tagBitmap tag := by
  have loaded : (searcher.load file).tagBitmap tag =
      (Searcher.init.load file).diskIndex.bitmap tag := by
    show _ ∪ TagIndex.bitmap ∅ tag = _
    rw [TagIndex.bitmap_empty, Finset.union_empty]
    rfl
  rw [loaded, IndexFile.label, Finset.mem_filter, Finmap.mem_keys]
  refine and_iff_right_of_imp fun member => ?_
  by_contra absent
  rw [TagIndex.bitmap_of_notMem absent] at member
  exact Finset.notMem_empty vid member

theorem collects_load (searcher : Searcher) (file : IndexFile) :
    Collects (searcher.load file) (fun vid => some (file.label vid))
      fun vid => [file.label vid] where
  deleted vid := iff_of_false (Finset.notMem_empty vid) (Option.some_ne_none _)
  universal vid := by
    have loaded : (searcher.load file).universalBitmap = file.universalBitmap :=
      Finset.union_empty _
    rw [loaded]
    simp only [List.mem_singleton, exists_eq_left]
    exact decide_eq_true_iff.symm
  tagged vid tag member :=
    ⟨_, List.mem_singleton_self _, (file.mem_label_tags searcher vid tag).mpr member⟩
  stored vid tag label member _ tagged := by
    rw [List.mem_singleton.mp member] at tagged
    exact (file.mem_label_tags searcher vid tag).mp tagged
  last vid label given := by
    rw [← Option.some.inj given]
    exact List.mem_singleton_self _

theorem Collects.applyToMem {searcher : Searcher} {labels : Labels}
    {given : VectorId → List Label} (collects : Collects searcher labels given) (op : Op) :
    Collects (searcher.applyToMem op) (labels.apply searcher.universalTag op)
      fun vid => given vid ++ (op.label? searcher.universalTag vid).toList := by
  cases op with
  | remove removed =>
    have same : (fun vid => given vid ++
        ((Op.remove removed).label? searcher.universalTag vid).toList) = given := by
      funext vid
      exact List.append_nil _
    rw [same]
    refine ⟨fun vid => ?_, collects.universal, collects.tagged, collects.stored, ?_⟩
    · show vid ∈ Insert.insert removed searcher.deletedBitmap ↔
        Function.update labels removed none vid = none
      rw [Finset.mem_insert, collects.deleted]
      by_cases this : vid = removed
      · rw [this, Function.update_self]
        exact iff_of_true (Or.inl rfl) rfl
      · rw [Function.update_of_ne this]
        exact or_iff_right this
    · intro vid label isLast
      by_cases this : vid = removed
      · rw [this] at isLast
        exact absurd ((Function.update_self _ _ _).symm.trans isLast) (Option.some_ne_none _).symm
      · exact collects.last vid label ((Function.update_of_ne this _ _).symm.trans isLast)
  | insert inserted tags =>
    have labelled : ∀ vid label,
        label ∈ ((Op.insert inserted tags).label? searcher.universalTag vid).toList ↔
          inserted = vid ∧ labelOf searcher.universalTag tags = label := by
      intro vid label
      rw [Option.mem_toList]
      refine Option.ite_none_right_eq_some.trans (and_congr_right fun _ => ?_)
      exact Option.some_inj
    constructor
    · intro vid
      show vid ∈ searcher.deletedBitmap.erase inserted ↔
        Function.update labels inserted (some _) vid = none
      rw [Finset.mem_erase, collects.deleted]
      by_cases this : vid = inserted
      · rw [this, Function.update_self]
        exact iff_of_false (fun both => both.1 rfl) (Option.some_ne_none _)
      · rw [Function.update_of_ne this]
        exact and_iff_right this
    · intro vid
      refine (searcher.mem_universalBitmap_applyInsertToMem inserted tags vid).trans ?_
      simp only [collects.universal, List.mem_append, labelled, labelOf]
      constructor
      · rintro (⟨label, member, universal⟩ | ⟨universal, rfl⟩)
        · exact ⟨label, Or.inl member, universal⟩
        · exact ⟨_, Or.inr ⟨rfl, rfl⟩, decide_eq_true universal⟩
      · rintro ⟨label, member | ⟨same, rfl⟩, universal⟩
        · exact Or.inl ⟨label, member, universal⟩
        · exact Or.inr ⟨of_decide_eq_true universal, same.symm⟩
    · intro vid tag member
      obtain before | ⟨-, tagged, rfl⟩ :=
        (searcher.mem_tagBitmap_applyInsertToMem inserted tags tag vid).mp member
      · obtain ⟨label, member, tagged⟩ := collects.tagged vid tag before
        exact ⟨label, List.mem_append_left _ member, tagged⟩
      · exact ⟨_, List.mem_append_right _ ((labelled _ _).mpr ⟨rfl, rfl⟩),
          List.mem_toFinset.mpr tagged⟩
    · intro vid tag label member ordinary tagged
      refine (searcher.mem_tagBitmap_applyInsertToMem inserted tags tag vid).mpr ?_
      obtain before | new := List.mem_append.mp member
      · exact Or.inl (collects.stored vid tag label before ordinary tagged)
      · obtain ⟨same, rfl⟩ := (labelled _ _).mp new
        exact Or.inr ⟨of_decide_eq_false ordinary, List.mem_toFinset.mp tagged, same.symm⟩
    · intro vid label isLast
      by_cases this : vid = inserted
      · rw [this] at isLast
        have new : labels.apply searcher.universalTag (Op.insert inserted tags) inserted =
            some (labelOf searcher.universalTag tags) := Function.update_self _ _ _
        exact List.mem_append_right _
          ((labelled _ _).mpr ⟨this.symm, Option.some.inj (new.symm.trans isLast)⟩)
      · exact List.mem_append_left _
          (collects.last vid label ((Function.update_of_ne this _ _).symm.trans isLast))

theorem universalTag_replay (searcher : Searcher) (ops : List Op) :
    (searcher.replay ops).universalTag = searcher.universalTag := by
  induction ops generalizing searcher with
  | nil => rfl
  | cons op rest inductionHypothesis =>
    refine (inductionHypothesis _).trans ?_
    cases op with
    | insert vid tags => exact searcher.universalTag_applyInsertToMem vid tags
    | remove vid => rfl

/-- After every sequence of operations the bitmaps hold all the labels that were given. -/
theorem collects_replay (searcher : Searcher) (file : IndexFile) (ops : List Op) :
    Collects ((searcher.load file).replay ops) (lastLabels searcher.universalTag file ops)
      (givenLabels searcher.universalTag file ops) := by
  induction ops using List.reverseRecOn with
  | nil => exact collects_load searcher file
  | append_singleton ops op inductionHypothesis =>
    have replayed : (searcher.load file).replay (ops ++ [op]) =
        ((searcher.load file).replay ops).applyToMem op := List.foldl_concat _ _ _ _
    have last : lastLabels searcher.universalTag file (ops ++ [op]) =
        (lastLabels searcher.universalTag file ops).apply searcher.universalTag op :=
      List.foldl_concat _ _ _ _
    have given : givenLabels searcher.universalTag file (ops ++ [op]) =
        fun vid => givenLabels searcher.universalTag file ops vid ++
          (op.label? searcher.universalTag vid).toList := by
      funext vid
      unfold givenLabels
      rw [List.filterMap_append, List.cons_append]
      cases labelled : op.label? searcher.universalTag vid with
      | none => rw [List.filterMap_cons_none labelled]; rfl
      | some label => rw [List.filterMap_cons_some labelled]; rfl
    have step := inductionHypothesis.applyToMem op
    rw [universalTag_replay] at step
    rw [replayed, last, given]
    exact step

/-! ### The answers of a run -/

/-- The vectors that a query asks for, after a sequence of operations. -/
def Asked (universalTag : Tag) (file : IndexFile) (ops : List Op) (tags : List Tag)
    (vid : VectorId) : Prop :=
  ∃ label, lastLabels universalTag file ops vid = some label ∧ label.Answers tags

theorem mem_query_run (searcher : Searcher) (ops : List Op) (tags : List Tag) (vid : VectorId) :
    vid ∈ (searcher.run ops).query tags ↔ vid ∈ (searcher.replay ops).queryBitmap tags := by
  rw [Searcher.mem_query, Searcher.run_eq, Searcher.queryBitmap_appendWal]

/-- What labels that grow have collected is what was given last. -/
theorem Collects.mem_queryBitmap {searcher : Searcher} {labels : Labels}
    {given : VectorId → List Label} (collects : Collects searcher labels given) {vid : VectorId}
    (grow : ∀ last, labels vid = some last → last.universal = true ∨
      ∀ label ∈ given vid, label.universal = false ∧ label.tags ⊆ last.tags) (tags : List Tag) :
    vid ∈ searcher.queryBitmap tags ↔ ∃ label, labels vid = some label ∧ label.Answers tags := by
  rw [Searcher.mem_queryBitmap, collects.deleted]
  cases labelled : labels vid with
  | none => exact iff_of_false (fun both => both.1 rfl) fun ⟨_, given, _⟩ => nomatch given
  | some last =>
    have member := collects.last vid last labelled
    simp only [reduceCtorEq, not_false_eq_true, true_and, Option.some.injEq, exists_eq_left']
    obtain universal | covered := grow last labelled
    · exact iff_of_true (Or.inl ((collects.universal vid).mpr ⟨last, member, universal⟩))
        (Or.inl universal)
    · have ordinary : vid ∉ searcher.universalBitmap := by
        intro universal
        obtain ⟨label, given, universal⟩ := (collects.universal vid).mp universal
        rw [(covered label given).1] at universal
        exact Bool.false_ne_true universal
      have tagged : ∀ tag, vid ∈ searcher.tagBitmap tag ↔ tag ∈ last.tags := by
        intro tag
        constructor
        · intro present
          obtain ⟨label, given, tagged⟩ := collects.tagged vid tag present
          exact (covered label given).2 tagged
        · exact collects.stored vid tag last member (covered last member).1
      unfold Label.Answers
      rw [(covered last member).1]
      simp only [ordinary, tagged, Bool.false_eq_true]

/-- The queries after a run answer for the last label of each vector exactly when every
vector that is not removed has a label that covers the ones before. -/
theorem query_run_iff (searcher : Searcher) (file : IndexFile) (ops : List Op) :
    (∀ tags vid, vid ∈ ((searcher.load file).run ops).query tags ↔
      Asked searcher.universalTag file ops tags vid) ↔
      LabelsGrow searcher.universalTag file ops := by
  have collects := collects_replay searcher file ops
  simp only [mem_query_run]
  constructor
  · intro answers vid last labelled
    have live : vid ∉ ((searcher.load file).replay ops).deletedBitmap := fun deleted =>
      Option.some_ne_none last (labelled.symm.trans ((collects.deleted vid).mp deleted))
    have asked : ∀ tags, vid ∈ ((searcher.load file).replay ops).queryBitmap tags →
        last.Answers tags := by
      intro tags present
      obtain ⟨label, given, answer⟩ := (answers tags vid).mp present
      rw [Option.some.inj (labelled.symm.trans given)]
      exact answer
    cases ordinary : last.universal with
    | true => exact Or.inl rfl
    | false =>
      have neverUniversal : ∀ label ∈ givenLabels searcher.universalTag file ops vid,
          label.universal = false := by
        intro label given
        by_contra universal
        have present := (collects.universal vid).mpr
          ⟨label, given, Bool.eq_true_of_not_eq_false universal⟩
        obtain universal | ⟨nonempty, -⟩ := asked []
          ((Searcher.mem_queryBitmap _ _ _).mpr ⟨live, Or.inl present⟩)
        · exact Bool.false_ne_true (ordinary.symm.trans universal)
        · exact nonempty rfl
      refine Or.inr fun label given => ⟨neverUniversal label given, fun tag tagged => ?_⟩
      have present := collects.stored vid tag label given (neverUniversal label given) tagged
      obtain universal | ⟨-, covered⟩ := asked [tag]
        ((Searcher.mem_queryBitmap _ _ _).mpr
          ⟨live, Or.inr ⟨List.cons_ne_nil _ _, List.forall_mem_singleton.mpr present⟩⟩)
      · exact absurd (ordinary.symm.trans universal) Bool.false_ne_true
      · exact covered tag (List.mem_singleton_self tag)
  · intro grow tags vid
    exact collects.mem_queryBitmap (grow vid) tags

/-- An empty file, and a vector that comes back with another tag. -/
theorem query_run_revived :
    ¬ ∀ (searcher : Searcher) (file : IndexFile) (ops : List Op) (tags : List Tag)
      (vid : VectorId), vid ∈ ((searcher.load file).run ops).query tags ↔
        Asked searcher.universalTag file ops tags vid := by
  intro answers
  let ops : List Op := [.insert 1 [5], .remove 1, .insert 1 [6]]
  have present : (1 : VectorId) ∈ ((Searcher.init.load ⟨∅, []⟩).run ops).query [5] := by
    rw [mem_query_run]
    decide
  obtain ⟨label, last, universal | ⟨-, tagged⟩⟩ := (answers _ _ _ _ _).mp present
  all_goals obtain rfl : labelOf (-1) [6] = label := Option.some.inj last
  · exact absurd universal (by decide)
  · exact absurd (tagged 5 (List.mem_singleton_self 5)) (by decide)

end OdinVector.Inverted
