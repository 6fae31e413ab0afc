/-
This file is about the copies of records in the buffers of an insert. It reads the
pages of its neighbours, rewrites their records in the buffers of its own slots,
puts the pages and maps the neighbours to the new slots. As long as nobody else
moves the neighbours, which is what the vec locks are for, and no put changes the
slot of a mapped id, the record that a neighbour gets is the edit of the record it
had: the buffer of its page is either one that the insert has read for the
neighbour, or one of a page that it writes, which by the time of the mapping is
what the page has.
-/

import OdinVector.Update.Records
import OdinVector.Update.VecLocks

namespace OdinVector

open IndexState (rmwPages bufOf bufRecord editBuf)

variable {Point Code Distance : Type}

/-- The phases from the edits on. -/
def Phase.edited : Phase → Bool
  | .edit | .put | .lockIdx | .lockPageIdx | .remap => true
  | _ => false

/-- What the insert has planned to read for its neighbours. -/
structure Thread.Planned (geometry : Geometry) (layout : Layout) (thread : Thread Point) :
    Prop where
  bounded : thread.phase = .plan → thread.reads.length ≤ thread.newNhood.length
  planning : thread.phase = .plan → thread.pending =
    (thread.newNhood.zipIdx.drop thread.reads.length).map fun entry =>
      .planNeighbor entry.2 entry.1
  planned : thread.phase = .plan → ∀ index id loc, index < thread.reads.length →
    thread.newNhood[index]? = some id → layout.id2loc id = some loc →
      thread.reads[index]? = some (geometry.locSectorNo loc, index) ∧
        ∃ buf, thread.pageBufMap (geometry.locSectorNo loc) = some buf ∧
          (geometry.locSectorNo loc, buf) ∈ thread.reads

/-- What the insert has read for the neighbours it has not moved yet. -/
def Thread.Fetched (geometry : Geometry) (state : IndexState Point Code)
    (thread : Thread Point) : Prop :=
  thread.phase.buffered → ∀ id ∈ thread.newNhood.drop thread.origLocs.length, ∀ loc,
    state.layout.id2loc id = some loc → geometry.locSectorNo loc ∉ thread.pagesLocked →
      ∃ buf < thread.newNhood.length, thread.pageBufMap (geometry.locSectorNo loc) = some buf ∧
        (∀ page, .readPage page buf ∈ thread.pending → page = geometry.locSectorNo loc) ∧
        (.readPage (geometry.locSectorNo loc) buf ∈ thread.pending ∨
          thread.updateBuf buf (geometry.slotOf loc) = state.record id)

/-- What the insert has written for its target, and for the neighbours it has not moved yet, with
codes of the kind. -/
structure Thread.Edited (params : IndexParams Point Code Distance) [LinearOrder Distance]
    (codes : (Nat → Code) → Prop) (state : IndexState Point Code) (thread : Thread Point) :
    Prop where
  pairs : thread.phase = .edit → ∀ id loc, .writeNeighbor id loc ∈ thread.pending →
    (id, loc) ∈ thread.newNhood.zip thread.locs
  target : thread.phase.edited → .writeTarget ∉ thread.pending → ∀ loc,
    thread.locs[thread.newNhood.length]? = some loc →
      bufRecord params thread loc = ⟨thread.point, thread.newNhood⟩
  neighbors : thread.phase.edited →
    ∀ entry ∈ (thread.newNhood.zip thread.locs).drop thread.origLocs.length,
      .writeNeighbor entry.1 entry.2 ∉ thread.pending → ∀ current,
        state.layout.id2loc entry.1 = some current → ∃ data, codes data ∧
          bufRecord params thread entry.2 = { state with data := data }.editedNeighbor params
            thread.target entry.1 (bufRecord params thread current)

theorem Phase.buffered_of_edited {phase : Phase} (edited : phase.edited) : phase.buffered := by
  cases phase <;> first | rfl | cases edited

theorem Phase.rewrites_of_buffered {phase : Phase} (buffered : phase.buffered) :
    phase.rewrites := by
  cases phase <;> first | rfl | cases buffered

/-! ### Neighbours stay where they are -/

section Locks

variable {params : IndexParams Point Code Distance} {state next : IndexState Point Code}
  {agent : Agent}

/-- An insert that rewrites its neighbours has their vec locks and that of its target. -/
theorem VecsKept.held (kept : VecsKept state) (phase : (state.threads agent).phase.rewrites)
    {id : Nat} (member : id ∈ (state.threads agent).newNhood ∨ id = (state.threads agent).target) :
    LockKey.vec id ∈ Holding.heldBy state.holders agent := by
  rw [← mem_vecsInHand, ((kept agent).rewriting phase).mem_iff, List.mem_append,
    List.mem_singleton]
  exact member

variable [LinearOrder Distance]

/-- While vec locks have one holder, a neighbour of an insert that rewrites it is moved by no other
thread. -/
theorem neighbor_unmoved (sound : Sound params state) (kept : VecsKept state)
    (exclusive : VecsExclusive state) (phase : (state.threads agent).phase.rewrites) {id : Nat}
    (member : id ∈ (state.threads agent).newNhood ∨ id = (state.threads agent).target)
    {action : Action Point} (taken : state.step params action = some next)
    (other : ∀ choice, action ≠ .step agent choice) :
    next.layout.id2loc id = state.layout.id2loc id ∧ next.record id = state.record id := by
  refine record_of_step sound taken fun maps => ?_
  have own := kept.held phase member
  cases action with
  | call => exact maps
  | step runner choice =>
    have maps : (state.threads runner).MapsNext id := maps
    have different : agent ≠ runner := by
      rintro rfl
      exact other choice rfl
    rw [Thread.MapsNext] at maps
    split at maps
    · rename_i moved loc rest pending
      obtain rfl := maps
      have remap : .remap moved loc ∈ (state.threads runner).pending :=
        pending ▸ List.mem_cons_self
      obtain ⟨moving, _⟩ := remap_own sound remap
      rw [(sound.shapes runner).moving moving] at remap
      obtain ⟨entry, inZip, equal⟩ := List.mem_map.mp remap
      rw [Op.remap.injEq] at equal
      have neighbor := equal.1 ▸ (List.of_mem_zip (List.mem_of_mem_drop inZip)).1
      exact different (exclusive.unique own
        (kept.held (by rw [moving]; rfl) (.inl neighbor)))
    · obtain ⟨putting, rfl⟩ := maps
      exact different (exclusive.unique own (kept.held (by rw [putting]; rfl) (.inr rfl)))
    · exact maps

end Locks

/-! ### Reads of the neighbours' pages -/

section Planned

variable {params : IndexParams Point Code Distance} {state next : IndexState Point Code}
  {agent : Agent} {geometry : Geometry}

theorem Thread.Planned.plain {layout : Layout} {thread : Thread Point}
    (phase : thread.phase ≠ .plan) : thread.Planned geometry layout :=
  ⟨fun here => absurd here phase, fun here => absurd here phase, fun here => absurd here phase⟩

theorem Thread.Planned.keep {layout after : Layout} {thread : Thread Point}
    (planned : thread.Planned geometry layout)
    (same : thread.phase = .plan → ∀ id ∈ thread.newNhood, after.id2loc id = layout.id2loc id) :
    thread.Planned geometry after := by
  refine ⟨planned.bounded, planned.planning, fun phase index id loc below listed mapped => ?_⟩
  rw [same phase id (List.mem_of_getElem? listed)] at mapped
  exact planned.planned phase index id loc below listed mapped

/-- The first neighbour that is not planned yet. -/
theorem Thread.Planned.head {layout : Layout} {thread : Thread Point} {buf id : Nat}
    {rest : List (Op Point)} (planned : thread.Planned geometry layout)
    (phase : thread.phase = .plan) (pending : thread.pending = .planNeighbor buf id :: rest) :
    buf = thread.reads.length ∧ thread.newNhood[buf]? = some id ∧
      rest = (thread.newNhood.zipIdx.drop (thread.reads.length + 1)).map fun entry =>
        .planNeighbor entry.2 entry.1 := by
  have all := planned.planning phase
  rw [pending] at all
  have inside : thread.reads.length < thread.newNhood.zipIdx.length := by
    by_contra beyond
    rw [List.drop_eq_nil_of_le (Nat.not_lt.mp beyond)] at all
    cases all
  rw [List.drop_eq_getElem_cons inside, List.map_cons, List.cons.injEq, Op.planNeighbor.injEq,
    List.getElem_zipIdx, Nat.zero_add] at all
  rw [List.length_zipIdx] at inside
  refine ⟨all.1.1, ?_, all.2⟩
  rw [all.1.1, List.getElem?_eq_getElem inside]
  exact congrArg some all.1.2.symm

theorem planned_planNeighbor {layout : Layout} {thread : Thread Point} {buf id current : Nat}
    {rest : List (Op Point)} (planned : thread.Planned geometry layout)
    (phase : thread.phase = .plan) (pending : thread.pending = .planNeighbor buf id :: rest)
    (here : layout.id2loc id = some current) :
    Thread.Planned geometry layout
      { thread with
        pending := rest
        reads := thread.reads ++ [(geometry.locSectorNo current, buf)]
        pageBufMap := Function.update thread.pageBufMap (geometry.locSectorNo current)
          (some buf) } := by
  obtain ⟨isNext, listed, left⟩ := planned.head phase pending
  refine ⟨fun _ => ?_, fun _ => ?_, fun _ index other loc below atIndex mapped => ⟨?_, ?_⟩⟩
  · rw [List.length_append, List.length_singleton, ← isNext]
    exact (List.getElem?_eq_some_iff.mp listed).1
  · rw [List.length_append, List.length_singleton]
    exact left
  · rw [List.length_append, List.length_singleton, Nat.lt_succ_iff_lt_or_eq] at below
    rcases below with old | last
    · rw [List.getElem?_append_left old]
      exact (planned.planned phase index other loc old atIndex mapped).1
    · have same : other = id := by
        rw [last, ← isNext, listed, Option.some.injEq] at atIndex
        exact atIndex.symm
      rw [same, here, Option.some.injEq] at mapped
      rw [last, List.getElem?_concat_length, mapped, isNext]
  · show ∃ found, Function.update thread.pageBufMap _ _ _ = some found ∧ _
    by_cases samePage : geometry.locSectorNo loc = geometry.locSectorNo current
    · rw [samePage, Function.update_self]
      exact ⟨buf, rfl, List.mem_append_right _ (List.mem_singleton.mpr rfl)⟩
    · rw [Function.update_of_ne samePage]
      rw [List.length_append, List.length_singleton, Nat.lt_succ_iff_lt_or_eq] at below
      rcases below with old | last
      · obtain ⟨found, entry, inReads⟩ :=
          (planned.planned phase index other loc old atIndex mapped).2
        exact ⟨found, entry, List.mem_append_left _ inReads⟩
      · have same : other = id := by
          rw [last, ← isNext, listed, Option.some.injEq] at atIndex
          exact atIndex.symm
        rw [same, here, Option.some.injEq] at mapped
        exact absurd (congrArg geometry.locSectorNo mapped.symm) samePage

variable [LinearOrder Distance]

theorem planned_execute (phases : InPhases state.threads)
    (planned : (state.threads agent).Planned params.geometry state.layout) {op : Op Point}
    {rest : List (Op Point)} (pending : (state.threads agent).pending = op :: rest)
    (taken : state.execute params agent { state.threads agent with pending := rest } op =
      some next) : (next.threads agent).Planned params.geometry next.layout := by
  have allows : (state.threads agent).phase.Allows op :=
    (phases.inPhase agent).allows op (by rw [pending]; exact List.mem_cons_self)
  by_cases phase : (state.threads agent).phase = .plan
  · rw [phase] at allows
    cases op with
    | planNeighbor buf id =>
      simp only [IndexState.execute, IndexState.id2page, Option.map_eq_some_iff] at taken
      obtain ⟨_, ⟨current, here, rfl⟩, rfl⟩ := taken
      rw [IndexState.setThread_threads_self]
      exact planned_planNeighbor planned phase pending here
    | _ => cases allows
  · obtain ⟨later, threads, same, _⟩ := execute_thread taken
    rw [threads, Function.update_self]
    exact .plain (by rw [same.phase]; exact phase)

omit [LinearOrder Distance] in
theorem planned_advance (buffered : (state.threads agent).Buffered) {choice : Choice}
    (taken : state.advance params agent choice = some next) (notBackground : agent ≠ .bgIoThread) :
    (next.threads agent).Planned params.geometry next.layout := by
  have follows := advance_follows taken notBackground
  by_cases phase : (state.threads agent).phase = .lockVec
  · have empty := buffered.empty (by rw [phase]; rfl)
    unfold IndexState.advance at taken
    simp only [phase, Option.some.injEq] at taken
    subst taken
    rw [IndexState.setThread_threads_self]
    refine ⟨fun _ => ?_, fun _ => ?_, fun _ index id loc below => ?_⟩
    · show (state.threads agent).reads.length ≤ _
      rw [empty]
      exact Nat.zero_le _
    · show _ = ((state.threads agent).newNhood.zipIdx.drop (state.threads agent).reads.length).map _
      rw [empty, List.length_nil, List.drop_zero]
      rfl
    · have below : index < (state.threads agent).reads.length := below
      rw [empty] at below
      exact absurd below (Nat.not_lt_zero index)
  · refine .plain fun isPlan => phase ?_
    rw [isPlan] at follows
    revert follows
    cases (state.threads agent).phase <;> decide

end Planned

/-! ### Copies of the neighbours' records -/

section Fetched

variable {params : IndexParams Point Code Distance} {state next : IndexState Point Code}
  {agent : Agent}

theorem Thread.Fetched.plain {geometry : Geometry} {thread : Thread Point}
    (phase : thread.phase.buffered = false) : thread.Fetched geometry state :=
  fun held => (nomatch phase.symm.trans held)

/-- An operation that does not read, and writes into buffers of own pages only. -/
theorem Thread.Fetched.later {geometry : Geometry} {thread later : Thread Point}
    (fetched : thread.Fetched geometry state) (same : later.SameCall thread)
    (moved : thread.origLocs.length ≤ later.origLocs.length)
    (pageBufMap : later.pageBufMap = thread.pageBufMap)
    (updateBuf : ∀ buf < thread.newNhood.length, later.updateBuf buf = thread.updateBuf buf)
    (reads : ∀ page buf, .readPage page buf ∈ later.pending ↔ .readPage page buf ∈ thread.pending)
    (maps : ∀ id ∈ thread.newNhood.drop later.origLocs.length,
      next.layout.id2loc id = state.layout.id2loc id ∧ next.record id = state.record id) :
    later.Fetched geometry next := by
  intro phase id member loc mapped unlocked
  rw [same.phase] at phase
  rw [same.newNhood] at member ⊢
  rw [same.pagesLocked] at unlocked
  rw [(maps id member).1] at mapped
  obtain ⟨buf, inside, entry, only, copy⟩ := fetched phase id
    (List.drop_subset_drop_left _ moved member) loc mapped unlocked
  refine ⟨buf, inside, pageBufMap ▸ entry, fun page read => only page ((reads _ _).mp read), ?_⟩
  rw [updateBuf buf inside, (maps id member).2]
  exact copy.imp_left (reads _ _).mpr

/-- The next phase with the same buffers. -/
theorem Thread.Fetched.advance {geometry : Geometry} {thread later : Thread Point}
    (fetched : thread.Fetched geometry state) (phase : thread.phase.buffered)
    (pending : thread.pending = []) (newNhood : later.newNhood = thread.newNhood)
    (pagesLocked : later.pagesLocked = thread.pagesLocked)
    (origLocs : later.origLocs = thread.origLocs)
    (pageBufMap : later.pageBufMap = thread.pageBufMap)
    (updateBuf : later.updateBuf = thread.updateBuf)
    (reads : ∀ page buf, .readPage page buf ∉ later.pending)
    (maps : ∀ id ∈ thread.newNhood, next.layout.id2loc id = state.layout.id2loc id ∧
      next.record id = state.record id) : later.Fetched geometry next := by
  intro _ id member loc mapped unlocked
  rw [newNhood, origLocs] at member
  rw [newNhood, pageBufMap, updateBuf]
  rw [pagesLocked] at unlocked
  have same := maps id (List.mem_of_mem_drop member)
  rw [same.1] at mapped
  obtain ⟨buf, inside, entry, _, copy⟩ := fetched phase id member loc mapped unlocked
  refine ⟨buf, inside, entry, fun page read => absurd read (reads page buf), .inr ?_⟩
  rw [same.2]
  exact copy.resolve_left (by rw [pending]; exact List.not_mem_nil)

theorem foldl_pageBufMap_other {entries : List (Nat × Nat)} {page : Nat}
    (other : ∀ entry ∈ entries, entry.1 ≠ page) (initial : Nat → Option Nat) :
    entries.foldl (fun (current : Nat → Option Nat) (entry : Nat × Nat) =>
      Function.update current entry.1 (some entry.2)) initial page = initial page := by
  induction entries generalizing initial with
  | nil => rfl
  | cons entry rest inductionHypothesis =>
    rw [List.foldl_cons, inductionHypothesis fun later inRest =>
      other later (List.mem_cons_of_mem _ inRest)]
    exact Function.update_of_ne (other entry List.mem_cons_self).symm _ _

/-- The reads of the neighbours' pages when they are all planned. -/
theorem fetched_readStep {thread : Thread Point} (buffered : thread.Buffered)
    (planned : thread.Planned params.geometry state.layout) (phase : thread.phase = .plan)
    (pending : thread.pending = [])
    (known : ∀ id ∈ thread.newNhood, state.layout.id2loc id ≠ none) :
    (IndexState.readStep thread).Fetched params.geometry state := by
  have all : thread.newNhood.length ≤ thread.reads.length := by
    have left := planned.planning phase
    rw [pending, List.nil_eq, List.map_eq_nil_iff, List.drop_eq_nil_iff, List.length_zipIdx] at left
    exact left
  have atIndex : ∀ index (inside : index < thread.newNhood.length),
      ∃ page, thread.reads[index]? = some (page, index) := by
    intro index inside
    obtain ⟨loc, mapped⟩ := Option.ne_none_iff_exists'.mp (known _ (List.getElem_mem inside))
    exact ⟨_, (planned.planned phase index _ loc (inside.trans_le all)
      (List.getElem?_eq_getElem inside) mapped).1⟩
  -- each neighbour is read into the buffer of its own number
  have single : ∀ page other buf, (page, buf) ∈ thread.reads → (other, buf) ∈ thread.reads →
      page = other := by
    have own : ∀ page buf, (page, buf) ∈ thread.reads → thread.reads[buf]? = some (page, buf) := by
      intro page buf member
      obtain ⟨index, here⟩ := List.mem_iff_getElem?.mp member
      have inside := (List.getElem?_eq_some_iff.mp here).1.trans_le (planned.bounded phase)
      obtain ⟨_, there⟩ := atIndex index inside
      obtain ⟨_, rfl⟩ := Prod.mk.inj (Option.some.inj (here.symm.trans there))
      exact here
    intro page other buf first second
    exact (Prod.mk.inj (Option.some.inj ((own _ _ first).symm.trans (own _ _ second)))).1
  intro _ id member loc mapped unlocked
  obtain ⟨index, listed⟩ := List.mem_iff_getElem?.mp (List.mem_of_mem_drop member)
  have inside := (List.getElem?_eq_some_iff.mp listed).1
  obtain ⟨_, buf, entry, inReads⟩ :=
    planned.planned phase index id loc (inside.trans_le all) listed mapped
  refine ⟨buf, buffered.planned phase _ inReads, ?_, fun page read => ?_, .inl ?_⟩
  · refine (foldl_pageBufMap_other (fun other isOwn same => unlocked ?_) _).trans entry
    rw [← same]
    exact mem_pagesLocked isOwn
  · obtain ⟨other, isRead, equal⟩ := List.mem_map.mp read
    rw [Op.readPage.injEq] at equal
    obtain ⟨rfl, rfl⟩ := equal
    rcases List.mem_append.mp isRead with source | written
    · exact single _ _ _ source inReads
    · have above := (mem_rmwPages.mp (List.mem_filter.mp written).1).1
      exact absurd (buffered.planned phase _ inReads) (Nat.not_lt.mpr above)
  · exact List.mem_map.mpr ⟨_, List.mem_append_left _ inReads, rfl⟩

/-- The buffer of an own slot is one of the pages to write. -/
theorem own_buf {thread : Thread Point} (buffered : thread.Buffered) (shape : thread.Shape params)
    (phase : thread.phase.buffered) {loc : Nat} (own : loc ∈ thread.locs) :
    (params.geometry.locSectorNo loc, bufOf params thread loc) ∈ rmwPages thread := by
  have locked : params.geometry.locSectorNo loc ∈ thread.pagesLocked := by
    rw [shape.pagesLocked (Phase.writes_of_buffered phase), mem_sortUnique]
    exact List.mem_map_of_mem own
  obtain ⟨buf, entry⟩ := exists_buf locked
  rwa [buffered.bufOf_eq phase entry]

theorem editBuf_source {thread : Thread Point} (buffered : thread.Buffered)
    (shape : thread.Shape params) (phase : thread.phase.buffered) {loc buf : Nat}
    (own : loc ∈ thread.locs) (node : DiskNode Point) (source : buf < thread.newNhood.length) :
    (editBuf params thread loc node).updateBuf buf = thread.updateBuf buf := by
  refine Function.update_of_ne ?_ _ _
  rintro rfl
  exact absurd (mem_rmwPages.mp (own_buf buffered shape phase own)).1 (Nat.not_le.mpr source)

/-- The neighbour that `remap` moves is the first one not moved yet. -/
theorem remap_head (sound : Sound params state) {id loc : Nat} {rest : List (Op Point)}
    (pending : (state.threads agent).pending = .remap id loc :: rest) :
    (state.threads agent).phase = .remap ∧
      (state.threads agent).newNhood[(state.threads agent).origLocs.length]? = some id ∧
      (state.threads agent).locs[(state.threads agent).origLocs.length]? = some loc := by
  have first : .remap id loc ∈ (state.threads agent).pending := by
    rw [pending]
    exact List.mem_cons_self
  have phase := (remap_own sound first).1
  have moving := (sound.shapes agent).moving phase
  rw [pending] at moving
  have inside : (state.threads agent).origLocs.length <
      ((state.threads agent).newNhood.zip (state.threads agent).locs).length := by
    by_contra beyond
    rw [List.drop_eq_nil_of_le (Nat.not_lt.mp beyond)] at moving
    cases moving
  rw [List.drop_eq_getElem_cons inside, List.map_cons, List.cons.injEq, Op.remap.injEq,
    List.getElem_zip] at moving
  rw [List.length_zip, Nat.lt_min] at inside
  refine ⟨phase, ?_, ?_⟩
  · rw [List.getElem?_eq_getElem inside.1, moving.1.1]
  · rw [List.getElem?_eq_getElem inside.2, moving.1.2]

/-- The neighbours that are left after `remap` are other ones. -/
theorem remap_left (sound : Sound params state) {moved loc : Nat} {rest : List (Op Point)}
    (pending : (state.threads agent).pending = .remap moved loc :: rest) {id : Nat}
    (left : id ∈ (state.threads agent).newNhood.drop
      ((state.threads agent).origLocs.length + 1)) : id ≠ moved := by
  rintro rfl
  obtain ⟨phase, first, _⟩ := remap_head sound pending
  have role := (sound.phases.inPhase agent).isInsert (by rw [phase]; decide)
  have valid := sound.tracked.valid agent _ (Thread.reservation_eq role)
  have nodup := valid.nodup_nhood (by simp only [phase]; exact ⟨nofun, nofun⟩)
  obtain ⟨index, listed⟩ := List.mem_iff_getElem?.mp left
  rw [List.getElem?_drop] at listed
  have inside := (List.getElem?_eq_some_iff.mp first).1
  have same := (List.getElem?_inj inside nodup).mp (first.trans listed.symm)
  omega

variable [LinearOrder Distance]

theorem fetched_execute (sound : Sound params state) (buffered : (state.threads agent).Buffered)
    (recorded : Recorded params state)
    (fetched : (state.threads agent).Fetched params.geometry state) {op : Op Point}
    {rest : List (Op Point)} (pending : (state.threads agent).pending = op :: rest)
    (taken : state.execute params agent { state.threads agent with pending := rest } op =
      some next) : (next.threads agent).Fetched params.geometry next := by
  have member : op ∈ (state.threads agent).pending := pending ▸ List.mem_cons_self
  have allows : (state.threads agent).phase.Allows op := (sound.phases.inPhase agent).allows op member
  by_cases isRead : ∃ page buf, op = .readPage page buf
  · obtain ⟨page, buf, rfl⟩ := isRead
    have phase : (state.threads agent).phase = .read := allows
    simp only [IndexState.execute, Option.some.injEq] at taken
    subst taken
    rw [IndexState.setThread_threads_self]
    intro _ id isNeighbor loc mapped unlocked
    have mapped : state.layout.id2loc id = some loc := mapped
    obtain ⟨found, inside, entry, only, copy⟩ :=
      fetched (by rw [phase]; rfl) id isNeighbor loc mapped unlocked
    refine ⟨found, inside, entry, fun other read => only other ?_, ?_⟩
    · rw [pending]
      exact List.mem_cons_of_mem _ read
    · by_cases same : buf = found
      · subst same
        obtain rfl := only page member
        refine .inr ((congrFun (Function.update_self _ _ _) _).trans ?_)
        exact recorded id loc mapped
      · refine copy.imp (fun read => ?_) fun here => ?_
        · rw [pending] at read
          refine (List.mem_cons.mp read).resolve_left fun equal => same ?_
          rw [Op.readPage.injEq] at equal
          exact equal.2.symm
        · exact (congrFun (Function.update_of_ne (Ne.symm same) _ _) _).trans here
  have reads : ∀ page buf, .readPage page buf ∈ (next.threads agent).pending ↔
      .readPage page buf ∈ (state.threads agent).pending := by
    intro page buf
    obtain ⟨later, threads, _, popped⟩ := execute_thread taken
    rw [threads, Function.update_self]
    rcases popped with ⟨left, _⟩ | ⟨_, _, _, still, _⟩
    · rw [left, pending, List.mem_cons]
      exact ⟨.inr, fun either => either.resolve_left fun equal => isRead ⟨page, buf, equal.symm⟩⟩
    · rw [still]
  by_cases isRemap : ∃ id loc, op = .remap id loc
  · obtain ⟨moved, loc, rfl⟩ := isRemap
    simp only [IndexState.execute, Option.map_eq_some_iff] at taken
    obtain ⟨current, _, rfl⟩ := taken
    have grown : ((state.threads agent).origLocs ++ [current]).length =
        (state.threads agent).origLocs.length + 1 := List.length_append
    simp only [IndexState.mapId, IndexState.setThread, Function.update_self] at reads ⊢
    refine fetched.later ⟨rfl, rfl, rfl, rfl, rfl, rfl, rfl, rfl, rfl, rfl, rfl, rfl⟩
      (by rw [grown]; exact Nat.le_succ _) rfl (fun _ _ => rfl) reads fun id left => ?_
    have different : id ≠ moved := remap_left sound pending (grown ▸ left)
    exact ⟨Function.update_of_ne different _ _, Function.update_of_ne different _ _⟩
  obtain ⟨layout, _, record, origLocs⟩ :=
    execute_layout (fun id loc equal => isRemap ⟨id, loc, equal⟩) taken
  have maps : ∀ id ∈ (state.threads agent).newNhood.drop (next.threads agent).origLocs.length,
      next.layout.id2loc id = state.layout.id2loc id ∧ next.record id = state.record id := by
    intro id _
    rw [layout, record]
    exact ⟨rfl, rfl⟩
  obtain ⟨later, threads, same, _⟩ := execute_thread taken
  have here : next.threads agent = later := by rw [threads, Function.update_self]
  have edits : ∀ (loc : Nat) (node : DiskNode Point), loc ∈ (state.threads agent).locs →
      (state.threads agent).phase = .edit → ∀ buf < (state.threads agent).newNhood.length,
        (editBuf params { state.threads agent with pending := rest } loc node).updateBuf buf =
          (state.threads agent).updateBuf buf :=
    fun loc node own phase buf source => editBuf_source buffered (sound.shapes agent)
      (by rw [phase]; rfl) own node source
  have updateBuf : ∀ buf < (state.threads agent).newNhood.length,
      (next.threads agent).updateBuf buf = (state.threads agent).updateBuf buf := by
    cases op with
    | readPage page buf => exact absurd ⟨page, buf, rfl⟩ isRead
    | writeTarget =>
      simp only [IndexState.execute, Option.map_eq_some_iff] at taken
      obtain ⟨loc, last, rfl⟩ := taken
      dsimp only
      rw [IndexState.setThread_threads_self]
      exact edits loc _ (List.mem_of_getElem? last) allows
    | writeNeighbor id loc =>
      simp only [IndexState.execute, Option.bind_eq_some_iff, Option.map_eq_some_iff] at taken
      obtain ⟨_, _, _, _, rfl⟩ := taken
      rw [IndexState.setThread_threads_self]
      exact edits loc _ (buffered.editing allows id loc member) allows
    | _ =>
      rw [execute_updateBuf rfl taken]
      exact fun _ _ => rfl
  by_cases isPlan : ∃ buf id, op = .planNeighbor buf id
  · obtain ⟨buf, id, rfl⟩ := isPlan
    have phase : (state.threads agent).phase = .plan := allows
    exact .plain (by rw [here, same.phase, phase]; rfl)
  · have kept := execute_reads (fun buf id equal => isPlan ⟨buf, id, equal⟩) taken
    rw [here] at kept updateBuf reads maps origLocs ⊢
    exact fetched.later same (Nat.le_of_eq (congrArg List.length origLocs).symm) kept.2 updateBuf
      reads maps

omit [LinearOrder Distance] in
theorem fetched_advance (sound : Sound params state) (buffered : (state.threads agent).Buffered)
    (planned : (state.threads agent).Planned params.geometry state.layout)
    (fetched : (state.threads agent).Fetched params.geometry state)
    (pending : (state.threads agent).pending = []) {choice : Choice}
    (taken : state.advance params agent choice = some next) (notBackground : agent ≠ .bgIoThread) :
    (next.threads agent).Fetched params.geometry next := by
  have follows := advance_follows taken notBackground
  have valid := fun role => sound.tracked.valid agent _ (Thread.reservation_eq role)
  have isInsert := (sound.phases.inPhase agent).isInsert
  cases IndexState.advances taken with
  | plan phase =>
    rw [IndexState.setThread_threads_self]
    have known := (valid (isInsert (by rw [phase]; decide))).known (by simp only [phase]; decide)
    exact fetched_readStep buffered planned phase pending known
  | read phase | edit phase | lockIdx phase | lockPageIdx phase =>
    rw [IndexState.setThread_threads_self]
    refine fetched.advance (by rw [phase]; rfl) pending rfl rfl rfl rfl rfl (fun page buf read => ?_)
      fun _ _ => ⟨rfl, rfl⟩
    simp [IndexState.editStep, IndexState.putStep, IndexState.remapStep] at read
  | put phase =>
    have unmapped := (valid (isInsert (by rw [phase]; decide))).not_mem_nhood
      (by simp only [phase]; exact ⟨(by decide), (by decide)⟩)
    simp only [IndexState.mapId, IndexState.setThread, Function.update_self]
    refine fetched.advance (by rw [phase]; rfl) pending rfl rfl rfl rfl rfl (fun page buf read => ?_)
      fun id isNeighbor => ?_
    · simp at read
    · have different : id ≠ (state.threads agent).target := by
        rintro rfl
        exact unmapped isNeighbor
      exact ⟨Function.update_of_ne different _ _, Function.update_of_ne different _ _⟩
  | writePq phase | beam phase | prune phase | beamFinish phase | alloc phase | lockPages phase
  | lockVec phase | remap phase | giveBack phase | handOff phase | pageLoop phase
  | pageFinish phase | pageLock phase | send phase | complete phase | pipeFinish phase =>
    rw [phase] at follows
    refine .plain ?_
    revert follows
    generalize Thread.phase _ = later
    cases later <;> decide

end Fetched

/-! ### Records written into the buffers -/

section Edited

variable {params : IndexParams Point Code Distance} {state next : IndexState Point Code}
  {agent : Agent} {codes : (Nat → Code) → Prop}

/-- An edit of an own slot is what the buffers have of it then. -/
theorem bufRecord_edit_self (thread : Thread Point) (loc : Nat) (node : DiskNode Point) :
    bufRecord params (editBuf params thread loc node) loc = node := by
  simp [bufRecord, editBuf, bufOf]

/-- An edit of an own slot leaves the records of other locations that the buffers have. -/
theorem bufRecord_edit_other {thread : Thread Point} (buffered : thread.Buffered)
    (shape : thread.Shape params) (phase : thread.phase.buffered) {loc : Nat}
    (own : loc ∈ thread.locs) (node : DiskNode Point) (other : Nat) (different : other ≠ loc)
    (source : params.geometry.locSectorNo other ∈ thread.pagesLocked ∨
      bufOf params thread other < thread.newNhood.length) :
    bufRecord params (editBuf params thread loc node) other = bufRecord params thread other := by
  have entry := own_buf buffered shape phase own
  show Function.update thread.updateBuf (bufOf params thread loc) _ (bufOf params thread other) _ = _
  rw [bufRecord]
  by_cases sameBuf : bufOf params thread other = bufOf params thread loc
  · rcases source with locked | below
    · obtain ⟨buf, otherEntry⟩ := exists_buf locked
      have isBuf := buffered.bufOf_eq phase otherEntry
      rw [sameBuf] at isBuf
      have sameSector := page_of_rmwPages otherEntry (isBuf ▸ entry)
      rw [sameBuf, Function.update_self, Function.update_of_ne]
      exact fun sameSlot => different (Geometry.eq_of_sector_of_slot sameSector sameSlot)
    · rw [sameBuf] at below
      exact absurd (mem_rmwPages.mp entry).1 (Nat.not_le.mpr below)
  · rw [Function.update_of_ne sameBuf]

/-- The pages of the neighbours that an insert has not moved are in its buffers. -/
theorem Thread.Fetched.source {thread : Thread Point}
    (fetched : thread.Fetched params.geometry state) (phase : thread.phase.buffered) {id loc : Nat}
    (member : id ∈ thread.newNhood.drop thread.origLocs.length)
    (mapped : state.layout.id2loc id = some loc) :
    params.geometry.locSectorNo loc ∈ thread.pagesLocked ∨
      bufOf params thread loc < thread.newNhood.length := by
  by_cases locked : params.geometry.locSectorNo loc ∈ thread.pagesLocked
  · exact .inl locked
  · obtain ⟨buf, inside, entry, _⟩ := fetched phase id member loc mapped locked
    refine .inr ?_
    rwa [bufOf, entry, Option.getD_some]

/-- The locations of two pairs differ when the pairs do. -/
theorem zip_snd_inj {ids locs : List Nat} (nodup : locs.Nodup) {first second : Nat × Nat}
    (inZip : first ∈ ids.zip locs) (also : second ∈ ids.zip locs) (same : first.2 = second.2) :
    first = second := by
  obtain ⟨index, here⟩ := List.mem_iff_getElem?.mp inZip
  obtain ⟨other, there⟩ := List.mem_iff_getElem?.mp also
  have atFirst := (List.getElem?_zip_eq_some.mp here).2
  have atSecond := (List.getElem?_zip_eq_some.mp there).2
  have inside := (List.getElem?_eq_some_iff.mp atFirst).1
  have sameLoc : locs[index]? = locs[other]? := by rw [atFirst, atSecond, same]
  obtain rfl := (List.getElem?_inj inside nodup).mp sameLoc
  exact Option.some.inj (here.symm.trans there)

/-- The location behind those of the neighbours is another one. -/
theorem zip_snd_ne_last {ids locs : List Nat} (nodup : locs.Nodup) {entry : Nat × Nat} {loc : Nat}
    (inZip : entry ∈ ids.zip locs) (last : locs[ids.length]? = some loc) : entry.2 ≠ loc := by
  rintro rfl
  obtain ⟨index, here⟩ := List.mem_iff_getElem?.mp inZip
  obtain ⟨atId, atLoc⟩ := List.getElem?_zip_eq_some.mp here
  have inside := (List.getElem?_eq_some_iff.mp atLoc).1
  have same := (List.getElem?_inj inside nodup).mp (atLoc.trans last.symm)
  exact absurd (List.getElem?_eq_some_iff.mp atId).1 (by omega)

theorem mem_drop_of_zip {ids locs : List Nat} {count : Nat} {entry : Nat × Nat}
    (member : entry ∈ (ids.zip locs).drop count) : entry.1 ∈ ids.drop count := by
  rw [List.zip, List.drop_zipWith, ← List.zip] at member
  exact (List.of_mem_zip member).1

variable [LinearOrder Distance]

theorem Thread.Edited.plain {thread : Thread Point} (phase : thread.phase.edited = false) :
    thread.Edited params codes state := by
  refine ⟨fun edit => ?_, fun held => (nomatch phase.symm.trans held),
    fun held => (nomatch phase.symm.trans held)⟩
  rw [edit] at phase
  cases phase

/-- An operation that writes no record into the buffers. -/
theorem Thread.Edited.later {thread later : Thread Point}
    (edited : thread.Edited params codes state) (same : later.SameCall thread)
    (moved : thread.origLocs.length ≤ later.origLocs.length)
    (pageBufMap : later.pageBufMap = thread.pageBufMap)
    (updateBuf : later.updateBuf = thread.updateBuf)
    (target : .writeTarget ∈ thread.pending → .writeTarget ∈ later.pending)
    (neighbors : ∀ id loc, .writeNeighbor id loc ∈ later.pending ↔
      .writeNeighbor id loc ∈ thread.pending)
    (maps : ∀ id ∈ thread.newNhood.drop later.origLocs.length,
      next.layout.id2loc id = state.layout.id2loc id) : later.Edited params codes next := by
  have records : ∀ loc, bufRecord params later loc = bufRecord params thread loc := by
    intro loc
    rw [bufRecord, bufRecord, bufOf, bufOf, pageBufMap, updateBuf]
  refine ⟨?_, ?_, ?_⟩
  · rw [same.phase, same.newNhood, same.locs]
    exact fun phase id loc member => edited.pairs phase id loc ((neighbors id loc).mp member)
  · rw [same.phase, same.newNhood, same.locs, same.point]
    intro phase written loc last
    rw [records]
    exact edited.target phase (fun waits => written (target waits)) loc last
  · rw [same.phase, same.newNhood, same.locs, same.target]
    intro phase entry member written current mapped
    rw [records, records]
    rw [maps entry.1 (mem_drop_of_zip member)] at mapped
    exact edited.neighbors phase entry (List.drop_subset_drop_left _ moved member)
      (fun waits => written ((neighbors _ _).mpr waits)) current mapped

/-- The next phase with the same buffers. -/
theorem Thread.Edited.advance {thread later : Thread Point}
    (edited : thread.Edited params codes state) (phase : thread.phase.edited)
    (pending : thread.pending = []) (notEdit : later.phase ≠ .edit)
    (newNhood : later.newNhood = thread.newNhood) (locs : later.locs = thread.locs)
    (point : later.point = thread.point) (target : later.target = thread.target)
    (origLocs : later.origLocs = thread.origLocs)
    (pageBufMap : later.pageBufMap = thread.pageBufMap)
    (updateBuf : later.updateBuf = thread.updateBuf)
    (maps : ∀ id ∈ thread.newNhood, next.layout.id2loc id = state.layout.id2loc id) :
    later.Edited params codes next := by
  have records : ∀ loc, bufRecord params later loc = bufRecord params thread loc := by
    intro loc
    rw [bufRecord, bufRecord, bufOf, bufOf, pageBufMap, updateBuf]
  have done : ∀ op : Op Point, op ∉ thread.pending := fun op => pending ▸ List.not_mem_nil
  refine ⟨fun edit => absurd edit notEdit, ?_, ?_⟩
  · rw [newNhood, locs, point]
    intro _ _ loc last
    rw [records]
    exact edited.target phase (done _) loc last
  · rw [newNhood, locs, origLocs, target]
    intro _ entry member _ current mapped
    rw [records, records]
    rw [maps entry.1 (List.mem_of_mem_drop (mem_drop_of_zip member))] at mapped
    exact edited.neighbors phase entry member (done _) current mapped

omit [LinearOrder Distance] in
/-- What an insert in its edit phase has reserved. -/
theorem Sound.editing (sound : Sound params state) (phase : (state.threads agent).phase = .edit) :
    (state.threads agent).locs.Nodup ∧ (state.threads agent).origLocs = [] ∧
      ∀ id loc, state.layout.id2loc id = some loc → loc ∉ (state.threads agent).locs := by
  have role := (sound.phases.inPhase agent).isInsert (by rw [phase]; decide)
  have valid := sound.tracked.valid agent _ (Thread.reservation_eq role)
  refine ⟨valid.distinct (by simp only [phase]; exact .inl rfl), ?_, fun id loc mapped => ?_⟩
  · exact (sound.shapes agent).unmoved (by rw [phase]; nofun) (by rw [phase]; nofun)
      (by rw [phase]; nofun)
  · exact mapped_not_own sound (by rw [phase]; rfl) mapped

theorem edited_writeTarget (sound : Sound params state)
    (buffered : (state.threads agent).Buffered)
    (fetched : (state.threads agent).Fetched params.geometry state)
    (edited : (state.threads agent).Edited params codes state) {rest : List (Op Point)}
    (phase : (state.threads agent).phase = .edit)
    (pending : (state.threads agent).pending = .writeTarget :: rest) {loc : Nat}
    (last : (state.threads agent).locs[(state.threads agent).newNhood.length]? = some loc) :
    Thread.Edited params codes state (editBuf params { state.threads agent with pending := rest } loc
      ⟨(state.threads agent).point, (state.threads agent).newNhood⟩) := by
  obtain ⟨nodup, _, free⟩ := sound.editing phase
  have own := List.mem_of_getElem? last
  have keeps := bufRecord_edit_other buffered
    (sound.shapes agent) (by rw [phase]; rfl) own
    ⟨(state.threads agent).point, (state.threads agent).newNhood⟩
  refine ⟨fun _ id other member => edited.pairs phase id other ?_, fun _ _ other isLast => ?_,
    fun _ entry member written current mapped => ?_⟩
  · rw [pending]
    exact List.mem_cons_of_mem _ member
  · obtain rfl := Option.some.inj (last.symm.trans isLast)
    exact bufRecord_edit_self _ _ _
  · have inZip := List.mem_of_mem_drop member
    have ownEntry := (List.of_mem_zip inZip).2
    have locked : params.geometry.locSectorNo entry.2 ∈ (state.threads agent).pagesLocked :=
      mem_pagesLocked (own_buf buffered (sound.shapes agent) (by rw [phase]; rfl) ownEntry)
    have notLast := zip_snd_ne_last nodup inZip last
    have apart : current ≠ loc := by
      rintro rfl
      exact free _ _ mapped own
    obtain ⟨data, ofKind, same⟩ := edited.neighbors (by rw [phase]; rfl) entry member (by
      rw [pending, List.mem_cons, not_or]
      exact ⟨nofun, written⟩) current mapped
    refine ⟨data, ofKind, (keeps entry.2 notLast (.inl locked)).trans (same.trans ?_)⟩
    rw [← keeps current apart (fetched.source (by rw [phase]; rfl) (mem_drop_of_zip member) mapped)]
    rfl

theorem edited_writeNeighbor (sound : Sound params state)
    (buffered : (state.threads agent).Buffered)
    (fetched : (state.threads agent).Fetched params.geometry state)
    (edited : (state.threads agent).Edited params codes state) (ofKind : codes state.data)
    {rest : List (Op Point)} (phase : (state.threads agent).phase = .edit) {id loc current : Nat}
    (pending : (state.threads agent).pending = .writeNeighbor id loc :: rest)
    (here : state.layout.id2loc id = some current) :
    Thread.Edited params codes state (editBuf params { state.threads agent with pending := rest } loc
      (state.editedNeighbor params (state.threads agent).target id
        (bufRecord params (state.threads agent) current))) := by
  obtain ⟨nodup, unmoved, free⟩ := sound.editing phase
  have pair := edited.pairs phase id loc (by rw [pending]; exact List.mem_cons_self)
  have own := (List.of_mem_zip pair).2
  have keeps := bufRecord_edit_other buffered
    (sound.shapes agent) (by rw [phase]; rfl) own
    (state.editedNeighbor params (state.threads agent).target id
      (bufRecord params (state.threads agent) current))
  have sources : ∀ entry ∈ (state.threads agent).newNhood.zip (state.threads agent).locs,
      ∀ old, state.layout.id2loc entry.1 = some old →
        bufRecord params (editBuf params (state.threads agent) loc
          (state.editedNeighbor params (state.threads agent).target id
            (bufRecord params (state.threads agent) current))) old =
          bufRecord params (state.threads agent) old := by
    intro entry inZip old mapped
    have apart : old ≠ loc := by
      rintro rfl
      exact free _ _ mapped own
    refine keeps old apart (fetched.source (by rw [phase]; rfl) ?_ mapped)
    rw [unmoved, List.length_nil, List.drop_zero]
    exact (List.of_mem_zip inZip).1
  refine ⟨fun _ other slot member => edited.pairs phase other slot ?_,
    fun _ written slot last => ?_, fun _ entry member written old mapped => ?_⟩
  · rw [pending]
    exact List.mem_cons_of_mem _ member
  · have locked : params.geometry.locSectorNo slot ∈ (state.threads agent).pagesLocked :=
      mem_pagesLocked (own_buf buffered (sound.shapes agent) (by rw [phase]; rfl)
        (List.mem_of_getElem? last))
    refine (keeps slot (zip_snd_ne_last nodup pair last).symm (.inl locked)).trans ?_
    refine edited.target (by rw [phase]; rfl) ?_ slot last
    rw [pending, List.mem_cons, not_or]
    exact ⟨nofun, written⟩
  · have inZip := List.mem_of_mem_drop member
    have source := sources entry inZip old mapped
    by_cases same : entry = (id, loc)
    · subst same
      obtain rfl := Option.some.inj (here.symm.trans mapped)
      refine ⟨state.data, ofKind, (bufRecord_edit_self _ _ _).trans ?_⟩
      exact congrArg _ source.symm
    · have apart : entry.2 ≠ loc := fun equal => same (zip_snd_inj nodup inZip pair equal)
      have locked : params.geometry.locSectorNo entry.2 ∈ (state.threads agent).pagesLocked :=
        mem_pagesLocked (own_buf buffered (sound.shapes agent) (by rw [phase]; rfl)
          (List.of_mem_zip inZip).2)
      obtain ⟨data, kind, written⟩ := edited.neighbors (by rw [phase]; rfl) entry member (by
        rw [pending, List.mem_cons, not_or]
        refine ⟨fun equal => same ?_, written⟩
        rw [Op.writeNeighbor.injEq] at equal
        exact Prod.ext equal.1 equal.2) old mapped
      refine ⟨data, kind, (keeps entry.2 apart (.inl locked)).trans (written.trans ?_)⟩
      exact congrArg _ source.symm

theorem edited_execute (sound : Sound params state) (buffered : (state.threads agent).Buffered)
    (fetched : (state.threads agent).Fetched params.geometry state)
    (edited : (state.threads agent).Edited params codes state) (ofKind : codes state.data)
    {op : Op Point} {rest : List (Op Point)}
    (pending : (state.threads agent).pending = op :: rest)
    (taken : state.execute params agent { state.threads agent with pending := rest } op =
      some next) : (next.threads agent).Edited params codes next := by
  have member : op ∈ (state.threads agent).pending := pending ▸ List.mem_cons_self
  have allows : (state.threads agent).phase.Allows op := (sound.phases.inPhase agent).allows op member
  by_cases isTarget : op = .writeTarget
  · subst isTarget
    simp only [IndexState.execute, Option.map_eq_some_iff] at taken
    obtain ⟨loc, last, rfl⟩ := taken
    have written := edited_writeTarget sound buffered fetched edited allows pending last
    dsimp only
    rw [IndexState.setThread_threads_self]
    exact ⟨written.pairs, written.target, written.neighbors⟩
  by_cases isNeighbor : ∃ id loc, op = .writeNeighbor id loc
  · obtain ⟨id, loc, rfl⟩ := isNeighbor
    simp only [IndexState.execute, Option.bind_eq_some_iff, Option.map_eq_some_iff] at taken
    obtain ⟨current, here, _, _, rfl⟩ := taken
    have written := edited_writeNeighbor sound buffered fetched edited ofKind allows pending here
    rw [IndexState.setThread_threads_self]
    exact ⟨written.pairs, written.target, written.neighbors⟩
  obtain ⟨later, threads, same, popped⟩ := execute_thread taken
  have here : next.threads agent = later := by rw [threads, Function.update_self]
  have still : ∀ other : Op Point, other ≠ op → (other ∈ later.pending ↔
      other ∈ (state.threads agent).pending) := by
    intro other different
    rcases popped with ⟨left, _⟩ | ⟨_, _, _, kept, _⟩
    · rw [left, pending, List.mem_cons]
      exact ⟨.inr, fun either => either.resolve_left different⟩
    · rw [kept]
  have target : .writeTarget ∈ (state.threads agent).pending → .writeTarget ∈ later.pending :=
    (still _ (Ne.symm isTarget)).mpr
  have neighbors : ∀ id loc, .writeNeighbor id loc ∈ later.pending ↔
      .writeNeighbor id loc ∈ (state.threads agent).pending :=
    fun id loc => still _ fun equal => isNeighbor ⟨id, loc, equal.symm⟩
  by_cases phase : (state.threads agent).phase.edited
  swap
  · refine .plain ?_
    rw [here, same.phase]
    exact Bool.eq_false_iff.mpr phase
  by_cases isRemap : ∃ id loc, op = .remap id loc
  · obtain ⟨moved, loc, rfl⟩ := isRemap
    rw [← here] at target neighbors same
    simp only [IndexState.execute, Option.map_eq_some_iff] at taken
    obtain ⟨current, _, rfl⟩ := taken
    have grown : ((state.threads agent).origLocs ++ [current]).length =
        (state.threads agent).origLocs.length + 1 := List.length_append
    simp only [IndexState.mapId, IndexState.setThread, Function.update_self] at target neighbors ⊢
    refine edited.later ⟨rfl, rfl, rfl, rfl, rfl, rfl, rfl, rfl, rfl, rfl, rfl, rfl⟩
      (by rw [grown]; exact Nat.le_succ _) rfl rfl target neighbors fun id left => ?_
    exact Function.update_of_ne (remap_left sound pending (grown ▸ left)) _ _
  · obtain ⟨layout, _, _, origLocs⟩ :=
      execute_layout (fun id loc equal => isRemap ⟨id, loc, equal⟩) taken
    have notRead : ∀ page buf, op ≠ .readPage page buf := by
      rintro page buf rfl
      have reading : (state.threads agent).phase = .read := allows
      rw [reading] at phase
      cases phase
    have notPlan : ∀ buf id, op ≠ .planNeighbor buf id := by
      rintro buf id rfl
      have planning : (state.threads agent).phase = .plan := allows
      rw [planning] at phase
      cases phase
    have updateBuf := execute_updateBuf (by
      cases op with
      | readPage page buf => exact absurd rfl (notRead page buf)
      | writeTarget => exact absurd rfl isTarget
      | writeNeighbor id loc => exact absurd ⟨id, loc, rfl⟩ isNeighbor
      | _ => rfl) taken
    have kept := execute_reads notPlan taken
    rw [here] at kept updateBuf origLocs ⊢
    refine edited.later same (Nat.le_of_eq (congrArg List.length origLocs).symm) kept.2 updateBuf
      target neighbors fun id _ => ?_
    rw [layout]

theorem edited_advance (sound : Sound params state)
    (edited : (state.threads agent).Edited params codes state)
    (pending : (state.threads agent).pending = []) {choice : Choice}
    (taken : state.advance params agent choice = some next) (notBackground : agent ≠ .bgIoThread) :
    (next.threads agent).Edited params codes next := by
  have follows := advance_follows taken notBackground
  cases IndexState.advances taken with
  | read phase =>
    rw [IndexState.setThread_threads_self]
    have role := (sound.phases.inPhase agent).isInsert (by rw [phase]; decide)
    have unmoved : (state.threads agent).origLocs = [] :=
      (sound.shapes agent).unmoved (by rw [phase]; decide) (by rw [phase]; decide)
        (by rw [phase]; decide)
    refine ⟨fun _ id loc member => ?_, fun _ written => absurd List.mem_cons_self written,
      fun _ entry member written => absurd ?_ written⟩
    · rcases List.mem_cons.mp member with isTarget | isNeighbor
      · cases isTarget
      · obtain ⟨entry, inZip, equal⟩ := List.mem_map.mp isNeighbor
        rw [Op.writeNeighbor.injEq] at equal
        obtain ⟨rfl, rfl⟩ := equal
        exact inZip
    · exact List.mem_cons_of_mem _ (List.mem_map.mpr ⟨entry, List.mem_of_mem_drop member, rfl⟩)
  | edit phase | lockIdx phase | lockPageIdx phase =>
    rw [IndexState.setThread_threads_self]
    exact edited.advance (by rw [phase]; rfl) pending
      (fun equal => by cases equal) rfl rfl rfl rfl rfl rfl rfl
      fun _ _ => rfl
  | put phase =>
    have role := (sound.phases.inPhase agent).isInsert (by rw [phase]; decide)
    have unmapped := (sound.tracked.valid agent _ (Thread.reservation_eq role)).not_mem_nhood
      (by simp only [phase]; exact ⟨(by decide), (by decide)⟩)
    simp only [IndexState.mapId, IndexState.setThread, Function.update_self]
    refine edited.advance (by rw [phase]; rfl) pending
      (fun equal => by cases equal) rfl rfl rfl rfl rfl rfl rfl
      fun id isNeighbor => Function.update_of_ne ?_ _ _
    rintro rfl
    exact unmapped isNeighbor
  | writePq phase | beam phase | prune phase | beamFinish phase | alloc phase | lockPages phase
  | lockVec phase | plan phase | remap phase | giveBack phase | handOff phase | pageLoop phase
  | pageFinish phase | pageLock phase | send phase | complete phase | pipeFinish phase =>
    rw [phase] at follows
    refine .plain ?_
    revert follows
    generalize Thread.phase _ = later
    cases later <;> decide

end Edited

/-! ### Every step -/

/-- The buffers of all inserts have the records of their neighbours, and the edits of them. -/
structure Copies (params : IndexParams Point Code Distance) [LinearOrder Distance]
    (codes : (Nat → Code) → Prop) (state : IndexState Point Code) : Prop where
  planned : ∀ agent, (state.threads agent).Planned params.geometry state.layout
  fetched : ∀ agent, (state.threads agent).Fetched params.geometry state
  edited : ∀ agent, (state.threads agent).Edited params codes state

section Copies

variable [LinearOrder Distance] {params : IndexParams Point Code Distance}
  {state next : IndexState Point Code} {agent : Agent} {codes : (Nat → Code) → Prop}

theorem copies_step (sound : Sound params state)
    (buffered : ∀ agent, (state.threads agent).Buffered) (kept : VecsKept state)
    (exclusive : VecsExclusive state) (recorded : Recorded params state)
    (ofKind : codes state.data) (copies : Copies params codes state) {action : Action Point}
    (taken : state.step params action = some next) : Copies params codes next := by
  -- a thread that another one leaves alone
  have away : ∀ agent, (∀ choice, action ≠ .step agent choice) →
      next.threads agent = state.threads agent →
        (next.threads agent).Planned params.geometry next.layout ∧
          (next.threads agent).Fetched params.geometry next ∧
          (next.threads agent).Edited params codes next := by
    intro agent other same
    have unmoved : (state.threads agent).phase.rewrites → ∀ id ∈ (state.threads agent).newNhood,
        next.layout.id2loc id = state.layout.id2loc id ∧ next.record id = state.record id :=
      fun phase id member => neighbor_unmoved sound kept exclusive phase (.inl member) taken other
    rw [same]
    refine ⟨(copies.planned agent).keep fun phase id member =>
      (unmoved (by rw [phase]; rfl) id member).1, ?_, ?_⟩
    · by_cases phase : (state.threads agent).phase.buffered
      · exact (copies.fetched agent).later (.refl _) (Nat.le_refl _) rfl (fun _ _ => rfl)
          (fun _ _ => Iff.rfl) fun id member => unmoved (Phase.rewrites_of_buffered phase) id
            (List.mem_of_mem_drop member)
      · exact .plain (Bool.eq_false_iff.mpr phase)
    · by_cases phase : (state.threads agent).phase.edited
      · exact (copies.edited agent).later (.refl _) (Nat.le_refl _) rfl rfl id
          (fun _ _ => Iff.rfl) fun id member =>
            (unmoved (Phase.rewrites_of_buffered (Phase.buffered_of_edited phase)) id
              (List.mem_of_mem_drop member)).1
      · exact .plain (Bool.eq_false_iff.mpr phase)
  have all : ∀ agent, (next.threads agent).Planned params.geometry next.layout ∧
      (next.threads agent).Fetched params.geometry next ∧
      (next.threads agent).Edited params codes next := by
    intro agent
    rcases IndexState.step_cases taken with ⟨number, request, _, rfl, started⟩ |
      ⟨runner, choice, _, _, rfl, pending, ran⟩ | ⟨runner, choice, rfl, pending, ended⟩
    · by_cases same : agent = .caller number
      · subst same
        obtain ⟨_, rfl⟩ := IndexState.start_cases started
        dsimp only
        rw [IndexState.setThread_threads_self]
        cases request <;> exact ⟨.plain nofun, .plain rfl, .plain rfl⟩
      · exact away agent (by nofun) (start_other started same)
    · by_cases same : agent = runner
      · subst same
        exact ⟨planned_execute sound.phases (copies.planned agent) pending ran,
          fetched_execute sound (buffered agent) recorded (copies.fetched agent) pending ran,
          edited_execute sound (buffered agent) (copies.fetched agent) (copies.edited agent) ofKind
            pending ran⟩
      · obtain ⟨later, threads, _⟩ := execute_thread ran
        refine away agent (fun choice equal => ?_) (by rw [threads, Function.update_of_ne same])
        rw [Action.step.injEq] at equal
        exact same equal.1.symm
    · have notBackground : runner ≠ .bgIoThread := by
        rintro rfl
        exact phase_of_advance ended sound.phases.phase_of_background
      by_cases same : agent = runner
      · subst same
        exact ⟨planned_advance (buffered agent) ended notBackground,
          fetched_advance sound (buffered agent) (copies.planned agent) (copies.fetched agent)
            pending ended notBackground,
          edited_advance sound (copies.edited agent) pending ended notBackground⟩
      · rcases advance_other ended same with unchanged | ⟨_, rfl, changed⟩
        · refine away agent (fun choice equal => ?_) unchanged
          rw [Action.step.injEq] at equal
          exact same equal.1.symm
        · have finished := sound.phases.phase_of_background
          rw [changed]
          exact ⟨.plain (by simp only [finished]; nofun), .plain (by simp only [finished]; rfl),
            .plain (by simp only [finished]; rfl)⟩
  exact ⟨fun agent => (all agent).1, fun agent => (all agent).2.1, fun agent => (all agent).2.2⟩

omit [LinearOrder Distance] in
/-- An insert that has put its pages has the records of the neighbours it has not moved in its
buffers. -/
theorem bufRecord_neighbor (sound : Sound params state)
    (buffered : (state.threads agent).Buffered)
    (mirrors : (state.threads agent).Mirrors params.geometry state.pages)
    (recorded : Recorded params state)
    (fetched : (state.threads agent).Fetched params.geometry state)
    (phase : (state.threads agent).phase.stored)
    (put : ∀ page buf, .putPage page buf ∉ (state.threads agent).pending) {id loc : Nat}
    (member : id ∈ (state.threads agent).newNhood.drop (state.threads agent).origLocs.length)
    (mapped : state.layout.id2loc id = some loc) :
    bufRecord params (state.threads agent) loc = state.record id := by
  have isBuffered := Phase.buffered_of_stored phase
  by_cases locked : params.geometry.locSectorNo loc ∈ (state.threads agent).pagesLocked
  · obtain ⟨buf, entry⟩ := exists_buf locked
    rw [bufRecord, buffered.bufOf_eq isBuffered entry, mirrors.stored phase _ buf entry (put _ _)]
    exact recorded id loc mapped
  · obtain ⟨buf, _, entry, _, copy⟩ := fetched isBuffered id member loc mapped locked
    rw [bufRecord, bufOf, entry, Option.getD_some]
    refine copy.resolve_left fun read => ?_
    have reading : (state.threads agent).phase = .read := (sound.phases.inPhase agent).allows _ read
    rw [reading] at phase
    cases phase

/-- The record that a neighbour gets is the edit of the one that it has. -/
theorem remapped_record (sound : Sound params state)
    (buffered : (state.threads agent).Buffered)
    (mirrors : (state.threads agent).Mirrors params.geometry state.pages)
    (recorded : Recorded params state) (copies : Copies params codes state) {id loc current : Nat}
    {rest : List (Op Point)} (pending : (state.threads agent).pending = .remap id loc :: rest)
    (mapped : state.layout.id2loc id = some current) : ∃ data, codes data ∧
      bufRecord params (state.threads agent) loc = { state with data := data }.editedNeighbor params
        (state.threads agent).target id (state.record id) := by
  obtain ⟨phase, atId, atLoc⟩ := remap_head sound pending
  have quiet : ∀ op : Op Point, (∀ id loc, op ≠ .remap id loc) →
      op ∉ (state.threads agent).pending := by
    intro op notRemap member
    rw [(sound.shapes agent).moving phase] at member
    obtain ⟨_, _, equal⟩ := List.mem_map.mp member
    exact notRemap _ _ equal.symm
  have inZip : (id, loc) ∈ ((state.threads agent).newNhood.zip (state.threads agent).locs).drop
      (state.threads agent).origLocs.length := by
    have here := (List.getElem?_zip_eq_some (z := (id, loc))).mpr ⟨atId, atLoc⟩
    refine List.mem_iff_getElem?.mpr ⟨0, ?_⟩
    rw [List.getElem?_drop, Nat.add_zero]
    exact here
  obtain ⟨data, ofKind, written⟩ := (copies.edited agent).neighbors (by rw [phase]; rfl) (id, loc)
    inZip (quiet _ nofun) current mapped
  refine ⟨data, ofKind, written.trans (congrArg _ ?_)⟩
  exact bufRecord_neighbor sound buffered mirrors recorded (copies.fetched agent) (by rw [phase]; rfl)
    (fun _ _ => quiet _ nofun) (mem_drop_of_zip inZip) mapped

end Copies

theorem IndexState.Quiescent.copies [LinearOrder Distance]
    {params : IndexParams Point Code Distance} {state : IndexState Point Code}
    {codes : (Nat → Code) → Prop} (quiescent : state.Quiescent) : Copies params codes state := by
  have finished := quiescent.finished
  exact ⟨fun agent => .plain (by rw [finished]; nofun), fun agent => .plain (by rw [finished]; rfl),
    fun agent => .plain (by rw [finished]; rfl)⟩

/-! ### Undisturbed runs -/

/-- The invariant of runs in which no put changes the slot of a mapped id and no unlock is of a vec
lock that another insert has. -/
structure Undisturbed (params : IndexParams Point Code Distance) [LinearOrder Distance]
    (codes : (Nat → Code) → Prop) (state : IndexState Point Code) : Prop where
  sound : Sound params state
  buffered : ∀ agent, (state.threads agent).Buffered
  mirrors : ∀ agent, (state.threads agent).Mirrors params.geometry state.pages
  recorded : Recorded params state
  kept : VecsKept state
  exclusive : VecsExclusive state
  copies : Copies params codes state

section Undisturbed

variable [LinearOrder Distance] {params : IndexParams Point Code Distance}
  {state next : IndexState Point Code} {codes : (Nat → Code) → Prop}

theorem Undisturbed.step (undisturbed : Undisturbed params codes state)
    (ofKind : codes state.data) {action : Action Point} (keeps : PutsKeep params state action)
    (noOther : UnlocksNoOther state action) (taken : state.step params action = some next) :
    Undisturbed params codes next where
  sound := undisturbed.sound.step taken
  buffered := buffered_step undisturbed.sound.phases undisturbed.sound.shapes undisturbed.buffered
    taken
  mirrors := mirrors_step undisturbed.sound undisturbed.buffered undisturbed.mirrors taken
  recorded := recorded_step undisturbed.recorded undisturbed.sound undisturbed.buffered
    undisturbed.mirrors keeps taken
  kept := undisturbed.kept.step undisturbed.sound.phases undisturbed.sound.shapes taken
  exclusive := undisturbed.exclusive.step undisturbed.sound undisturbed.kept noOther taken
  copies := copies_step undisturbed.sound undisturbed.buffered undisturbed.kept
    undisturbed.exclusive undisturbed.recorded ofKind undisturbed.copies taken

theorem IndexState.RecordsLoaded.undisturbed (fresh : state.RecordsLoaded params) :
    Undisturbed params codes state where
  sound := fresh.loaded.sound
  buffered := fresh.loaded.quiescent.buffered
  mirrors agent := by
    have finished := fresh.loaded.quiescent.finished agent
    exact .plain (by rw [finished]; rfl) (by rw [finished]; rfl)
  recorded := fresh.recorded
  kept := fresh.loaded.quiescent.vecsKept
  exclusive := fresh.loaded.quiescent.vecsExclusive
  copies := fresh.loaded.quiescent.copies

/-- The two steps that map an id, with the record that it gets. -/
theorem maps_cases {action : Action Point} {id : Nat} (maps : action.Maps state id)
    (taken : state.step params action = some next) : ∃ runner choice, action = .step runner choice ∧
      ((∃ loc rest current, (state.threads runner).pending = .remap id loc :: rest ∧
          state.layout.id2loc id = some current ∧
          next.record id = bufRecord params (state.threads runner) loc) ∨
        ∃ loc, (state.threads runner).phase = .put ∧ (state.threads runner).pending = [] ∧
          (state.threads runner).target = id ∧
          (state.threads runner).locs[(state.threads runner).newNhood.length]? = some loc ∧
          next.record id = bufRecord params (state.threads runner) loc) := by
  cases action with
  | call => exact maps.elim
  | step runner choice =>
    have maps : (state.threads runner).MapsNext id := maps
    refine ⟨runner, choice, rfl, ?_⟩
    rw [IndexState.step] at taken
    unfold Thread.MapsNext at maps
    split at maps
    · rename_i moved loc rest pending
      subst maps
      rw [pending] at taken
      simp only [IndexState.execute, Option.map_eq_some_iff] at taken
      obtain ⟨current, here, rfl⟩ := taken
      exact .inl ⟨loc, rest, current, pending, here, Function.update_self _ _ _⟩
    · rename_i pending
      obtain ⟨phase, rfl⟩ := maps
      rw [pending] at taken
      simp only [IndexState.advance, phase, IndexState.publishStep, Option.map_eq_some_iff] at taken
      obtain ⟨loc, last, rfl⟩ := taken
      exact .inr ⟨loc, phase, pending, rfl, last, Function.update_self _ _ _⟩
    · exact maps.elim

/-- What a step does to the record of an id: an insert edits the record that a neighbour has, or
writes the record of its target. -/
theorem Undisturbed.record_step (undisturbed : Undisturbed params codes state)
    {action : Action Point} (taken : state.step params action = some next) (id : Nat) :
    next.layout.id2loc id = state.layout.id2loc id ∧ next.record id = state.record id ∨
      (∃ runner choice, action = .step runner choice ∧ (state.threads runner).phase = .remap ∧
        id ∈ (state.threads runner).newNhood ∧ state.layout.id2loc id ≠ none ∧
          ∃ data, codes data ∧ next.record id = { state with data := data }.editedNeighbor params
            (state.threads runner).target id (state.record id)) ∨
      ∃ runner choice, action = .step runner choice ∧ (state.threads runner).phase = .put ∧
        (state.threads runner).pending = [] ∧ (state.threads runner).target = id ∧
          next.record id = ⟨(state.threads runner).point, (state.threads runner).newNhood⟩ := by
  by_cases maps : action.Maps state id
  · obtain ⟨runner, choice, rfl, ⟨loc, rest, current, pending, here, written⟩ |
      ⟨loc, phase, pending, target, last, written⟩⟩ := maps_cases maps taken
    · obtain ⟨phase, atId, _⟩ := remap_head undisturbed.sound pending
      refine .inr (.inl ⟨runner, choice, rfl, phase, List.mem_of_getElem? atId, ?_, ?_⟩)
      · rw [here]
        nofun
      · rw [written]
        exact remapped_record undisturbed.sound (undisturbed.buffered runner)
          (undisturbed.mirrors runner) undisturbed.recorded undisturbed.copies pending here
    · refine .inr (.inr ⟨runner, choice, rfl, phase, pending, target, written.trans ?_⟩)
      exact (undisturbed.copies.edited runner).target (by rw [phase]; rfl)
        (pending ▸ List.not_mem_nil) loc last
  · exact .inl (record_of_step undisturbed.sound taken maps)

end Undisturbed

end OdinVector
