/-
This file proves that the references to cached pages are balanced, as long as
`flush_page_cache` clears the cache when nobody has one.

Each vector that references are given back from is followed by itself. A call
has the references of `page_ref` and of the requests that its `read_alloc` has
found or put; an insert has those of the pages that `wbc_write` has put, until
it passes them to the background thread, which has one for each `deref` that is
left in its tasks. In such a task the write and the unlock of a page come before
its `deref`, so a page stays cached until its write has reached the disk.

`flush_page_cache` runs with inserts excluded, but searches are not. A search
that has references when the table is cleared gives them back to no entry.
-/

import OdinVector.Cache.Requests

namespace OdinVector

open PageCache (Reference outstanding)

variable {Image : Type}

/-! ### The tasks of the background thread -/

namespace BgOp

/-- After the write of a page the operation on it follows. -/
def Followed (after : Nat → BgOp Image) : List (BgOp Image) → Prop
  | [] => True
  | .writeDisk page _ :: rest => after page ∈ rest ∧ Followed after rest
  | _ :: rest => Followed after rest

theorem Followed.append {after : Nat → BgOp Image} {first second : List (BgOp Image)}
    (followed : Followed after first) (also : Followed after second) :
    Followed after (first ++ second) := by
  induction first with
  | nil => exact also
  | cons op rest inductionHypothesis =>
    cases op with
    | writeDisk page copy =>
      exact ⟨List.mem_append_left _ followed.1, inductionHypothesis followed.2⟩
    | unlock page => exact inductionHypothesis followed
    | deref page => exact inductionHypothesis followed

theorem Followed.mem {after : Nat → BgOp Image} {ops : List (BgOp Image)}
    (followed : Followed after ops) {page : Nat} {copy : Copy Image}
    (pending : .writeDisk page copy ∈ ops) : after page ∈ ops := by
  induction ops with
  | nil => cases pending
  | cons op rest inductionHypothesis =>
    refine List.mem_cons_of_mem _ ?_
    cases op with
    | writeDisk other image =>
      rcases List.mem_cons.mp pending with same | later
      · cases same
        exact followed.1
      · exact inductionHypothesis followed.2 later
    | unlock other =>
      exact inductionHypothesis followed ((List.mem_cons.mp pending).resolve_left nofun)
    | deref other =>
      exact inductionHypothesis followed ((List.mem_cons.mp pending).resolve_left nofun)

/-- Writes of pages can be put in front of the operations that follow them. -/
theorem Followed.writes {after : Nat → BgOp Image} {rest : List (BgOp Image)}
    (followed : Followed after rest) {entries : List (Nat × Copy Image)}
    (later : ∀ entry ∈ entries, after entry.1 ∈ rest) :
    Followed after (entries.map (fun entry => .writeDisk entry.1 entry.2) ++ rest) := by
  induction entries with
  | nil => exact followed
  | cons entry others inductionHypothesis =>
    exact ⟨List.mem_append_right _ (later entry List.mem_cons_self),
      inductionHypothesis fun other member => later other (List.mem_cons_of_mem _ member)⟩

/-- The unlocks and the derefs of a task write no page. -/
theorem followed_ending (after : Nat → BgOp Image) (pages : List Nat)
    (entries : List (Nat × Copy Image)) :
    Followed after (pages.map .unlock ++ entries.map fun entry => .deref entry.1) := by
  induction pages with
  | nil =>
    induction entries with
    | nil => trivial
    | cons entry rest inductionHypothesis => exact inductionHypothesis
  | cons page rest inductionHypothesis => exact inductionHypothesis

/-- The task of an insert writes its pages before it does anything else with them. -/
theorem followed_task {after : Nat → BgOp Image} (thread : CacheThread Image)
    (later : ∀ entry ∈ thread.written, after entry.1 ∈
      thread.pagesLocked.map BgOp.unlock ++ thread.written.map fun entry => BgOp.deref entry.1) :
    Followed after (CacheState.bgTask thread) := by
  rw [CacheState.bgTask, List.append_assoc]
  exact (followed_ending after _ _).writes later

/-- The pages whose `deref` is left. -/
def derefs (ops : List (BgOp Image)) : List Nat :=
  ops.filterMap fun op => match op with
    | .deref page => some page
    | _ => none

theorem derefs_append (first second : List (BgOp Image)) :
    derefs (first ++ second) = derefs first ++ derefs second := List.filterMap_append

theorem derefs_task (thread : CacheThread Image) :
    derefs (CacheState.bgTask thread) = thread.written.map Prod.fst := by
  simp [CacheState.bgTask, derefs]

theorem mem_derefs {ops : List (BgOp Image)} {page : Nat} (pending : .deref page ∈ ops) :
    page ∈ derefs ops :=
  List.mem_filterMap.mpr ⟨_, pending, rfl⟩

end BgOp

/-! ### The references of a call -/

namespace CacheThread

/-- The pages of a `read_alloc` that it has neither found nor put yet. -/
def awaited (thread : CacheThread Image) : List Nat :=
  if thread.role.allocates then
    thread.lookups.map ReadRequest.page ++ thread.diskReads.map fun read => read.request.page
  else []

/-- A call has the references that it will give back, apart from those its `read_alloc` is
still to take. -/
structure Owes (thread : CacheThread Image) (refs : List (Reference Holder)) (number : Nat) :
    Prop where
  reads : ∀ page, refs.count ⟨.pageRef number, page⟩ + thread.awaited.count page =
    thread.pageRef.count page + thread.readReqs.count page
  writes : ∀ page, refs.count ⟨.writePageRef number, page⟩ =
    (thread.written.map Prod.fst).count page
  putting : thread.stage ≠ .put → thread.written = []
  idle : thread.role = .idle → thread = {}

theorem awaited_settled {thread : CacheThread Image} (settled : thread.Settled) :
    thread.awaited = [] := by
  rw [awaited, settled.1, settled.2.1]
  split <;> rfl

namespace Owes

variable {thread other : CacheThread Image} {refs left : List (Reference Holder)} {number : Nat}

/-- A call that neither reads nor writes keeps what it owes. -/
theorem keep (owes : thread.Owes refs number) (awaited : other.awaited = thread.awaited)
    (pageRef : other.pageRef = thread.pageRef) (readReqs : other.readReqs = thread.readReqs)
    (written : other.written = thread.written) (putting : other.stage ≠ .put → other.written = [])
    (busy : other.role ≠ .idle) : other.Owes refs number where
  reads page := by
    rw [awaited, pageRef, readReqs]
    exact owes.reads page
  writes page := by
    rw [written]
    exact owes.writes page
  putting := putting
  idle idle := absurd idle busy

/-- What a call owes depends on its own references only. -/
theorem frame (owes : thread.Owes refs number)
    (same : ∀ ref : Reference Holder, ref.holder = .pageRef number ∨
      ref.holder = .writePageRef number → left.count ref = refs.count ref) :
    thread.Owes left number where
  reads page := by
    rw [same _ (.inl rfl)]
    exact owes.reads page
  writes page := by
    rw [same _ (.inr rfl)]
    exact owes.writes page
  putting := owes.putting
  idle := owes.idle

/-- A call that has read and that gives back a page of `page_ref` has a reference to it. -/
theorem member (owes : thread.Owes refs number) (settled : thread.Settled) {page : Nat}
    (pending : page ∈ thread.pageRef) : ⟨.pageRef number, page⟩ ∈ refs := by
  have counts := owes.reads page
  rw [awaited_settled settled, settled.2.2] at counts
  have positive := List.count_pos_iff.mpr pending
  refine List.count_pos_iff.mp ?_
  simp only [List.count_nil] at counts
  omega

theorem written (owes : thread.Owes refs number) {page : Nat}
    (put : page ∈ thread.written.map Prod.fst) : ⟨.writePageRef number, page⟩ ∈ refs := by
  rw [← List.count_pos_iff, owes.writes page]
  exact List.count_pos_iff.mpr put

end Owes

end CacheThread

/-! ### All references -/

namespace CacheState

/-- The cache is balanced with the references of the calls and of the background thread. -/
structure Accounted (state : CacheState Image) : Prop where
  balanced : state.pages.Balanced state.refs
  threads : ∀ number, (state.threads number).Owes state.refs number
  bgIo : ∀ page, state.refs.count ⟨.pagesToDeref, page⟩ =
    (BgOp.derefs state.bgTasks).count page
  covered : BgOp.Followed .deref state.bgTasks

variable {state next : CacheState Image} {number : Nat}

/-- A reference that is taken counts for its holder only. -/
theorem count_taken {refs : List (Reference Holder)} {taken ref : Reference Holder}
    (different : ref ≠ taken) : (taken :: refs).count ref = refs.count ref :=
  List.count_cons_of_ne (Ne.symm different)

namespace Accounted

/-- A step of a call that keeps the balance and what the call owes. -/
theorem ofThread (accounted : state.Accounted) (thread : CacheThread Image)
    (threads : next.threads = Function.update state.threads number thread)
    (bgTasks : next.bgTasks = state.bgTasks)
    (balanced : next.pages.Balanced next.refs) (owes : thread.Owes next.refs number)
    (others : ∀ ref : Reference Holder, ref.holder ≠ .pageRef number →
      ref.holder ≠ .writePageRef number → ref.holder ≠ .nobody →
      next.refs.count ref = state.refs.count ref) :
    next.Accounted where
  balanced := balanced
  threads other := by
    rw [threads]
    by_cases same : other = number
    · subst same
      rw [Function.update_self]
      exact owes
    · rw [Function.update_of_ne same]
      refine (accounted.threads other).frame fun ref held => others ref ?_ ?_ ?_
      · rcases held with held | held <;> simp [held, same]
      · rcases held with held | held <;> simp [held, same]
      · rcases held with held | held <;> simp [held]
  bgIo page := by
    rw [bgTasks, others _ (by simp) (by simp) (by simp)]
    exact accounted.bgIo page
  covered := bgTasks ▸ accounted.covered

/-- A step of a call that does not touch the cache. -/
theorem setThread (accounted : state.Accounted) {thread : CacheThread Image}
    (owes : thread.Owes state.refs number) : (state.setThread number thread).Accounted :=
  accounted.ofThread thread rfl rfl accounted.balanced owes fun _ _ _ _ => rfl

theorem call {role : Role} (accounted : state.Accounted)
    (taken : state.call number role = some next) : next.Accounted := by
  unfold CacheState.call at taken
  split at taken
  · rename_i starts
    obtain rfl := Option.some.inj taken
    have owes := accounted.threads number
    rw [owes.idle starts.1] at owes
    refine accounted.ofThread { role := role } rfl rfl accounted.balanced ?_ fun _ _ _ _ => rfl
    refine owes.keep ?_ rfl rfl rfl (fun _ => rfl) starts.2.1
    unfold CacheThread.awaited
    split <;> rfl
  · cases taken

theorem read {pages : List Nat} (accounted : state.Accounted)
    (taken : state.read number pages = some next) : next.Accounted := by
  unfold CacheState.read at taken
  dsimp only at taken
  split at taken
  · rename_i ready
    obtain rfl := Option.some.inj taken
    have owes := accounted.threads number
    have searching : (state.threads number).stage ≠ .put := by
      rcases ready.2.2 with stage | stage
      · simp [stage]
      · simp [stage.1]
    refine accounted.setThread ⟨fun page => ?_, owes.writes, fun _ => owes.putting searching,
      fun idle => absurd idle ready.1⟩
    have counts := owes.reads page
    rw [CacheThread.awaited_settled ready.2.1, ready.2.1.2.2] at counts
    simp only [CacheThread.awaited, ready.2.1.2.1]
    split
    · simp only [List.map_map, Function.comp_def, List.map_id', List.map_nil, List.append_nil]
      simp only [List.count_nil, Nat.add_zero] at counts
      omega
    · simpa only [List.count_nil] using counts
  · cases taken

/-- A call that takes a reference on the way from `awaited`. -/
theorem take (accounted : state.Accounted) {thread : CacheThread Image} {page : Nat}
    (threads : next.threads = Function.update state.threads number thread)
    (bgTasks : next.bgTasks = state.bgTasks)
    (refs : next.refs = ⟨.pageRef number, page⟩ :: state.refs)
    (balanced : next.pages.Balanced next.refs)
    (awaited : (state.threads number).awaited.Perm (page :: thread.awaited))
    (pageRef : thread.pageRef = (state.threads number).pageRef)
    (readReqs : thread.readReqs = (state.threads number).readReqs)
    (written : thread.written = (state.threads number).written)
    (stage : thread.stage = (state.threads number).stage)
    (busy : thread.role ≠ .idle) : next.Accounted := by
  have owes := accounted.threads number
  refine accounted.ofThread thread threads bgTasks balanced
    ⟨fun other => ?_, fun other => ?_, fun elsewhere => ?_, fun idle => absurd idle busy⟩
    fun ref first _ _ => ?_
  · have counts := owes.reads other
    rw [awaited.count_eq, List.count_cons] at counts
    rw [refs, pageRef, readReqs, List.count_cons]
    simp only [beq_iff_eq, Reference.mk.injEq, true_and] at counts ⊢
    omega
  · rw [refs, written, count_taken (by simp)]
    exact owes.writes other
  · rw [written]
    exact owes.putting (stage ▸ elsewhere)
  · rw [refs]
    exact count_taken fun same => first (congrArg Reference.holder same)

theorem lookup (accounted : state.Accounted) (taken : state.lookup number = some next) :
    next.Accounted := by
  have owes := accounted.threads number
  unfold CacheState.lookup at taken
  dsimp only at taken
  split at taken
  · cases taken
  · rename_i request rest pending
    have busy : (state.threads number).role ≠ .idle := by
      intro idle
      rw [owes.idle idle] at pending
      cases pending
    split at taken
    · rename_i pages copy hit
      obtain rfl := Option.some.inj taken
      by_cases allocates : (state.threads number).role.allocates
      · rw [allocates] at hit
        refine accounted.take rfl rfl (if_pos allocates) ?_ ?_ rfl rfl rfl rfl busy
        · dsimp only
          rw [if_pos allocates]
          exact accounted.balanced.get _ hit
        · simp only [CacheThread.awaited, allocates, if_true, pending]
          exact List.Perm.refl _
      · rw [eq_false_of_ne_true allocates] at hit
        obtain rfl := PageCache.get_unreferenced hit
        simp only [if_neg allocates]
        refine accounted.setThread (owes.keep ?_ rfl rfl rfl owes.putting busy)
        simp only [CacheThread.awaited, if_neg allocates]
    · obtain rfl := Option.some.inj taken
      refine accounted.setThread ⟨fun page => ?_, owes.writes, owes.putting,
        fun idle => absurd idle busy⟩
      have moved : (state.threads number).awaited.Perm
          (CacheThread.awaited { state.threads number with
            lookups := rest
            diskReads := (state.threads number).diskReads ++ [⟨request, none⟩] }) := by
        simp only [CacheThread.awaited, pending]
        split
        · simp only [List.map_cons, List.map_append, List.map_nil, ← List.append_assoc]
          exact (List.perm_append_singleton _ _).symm
        · exact List.Perm.refl _
      rw [← moved.count_eq]
      exact owes.reads page

theorem complete {place : Nat} (accounted : state.Accounted)
    (taken : state.complete number place = some next) : next.Accounted := by
  have owes := accounted.threads number
  unfold CacheState.complete at taken
  dsimp only at taken
  split at taken
  · rename_i request looked found
    obtain rfl := Option.some.inj taken
    have busy : (state.threads number).role ≠ .idle := by
      intro idle
      rw [owes.idle idle] at found
      cases found
    refine accounted.setThread (owes.keep ?_ rfl rfl rfl owes.putting busy)
    by_cases allocates : (state.threads number).role.allocates
    · simp only [CacheThread.awaited, if_pos allocates, List.map_set]
      obtain ⟨bound, here⟩ := List.getElem?_eq_some_iff.mp found
      congr 1
      refine List.ext_getElem (by simp) fun index first second => ?_
      rw [List.getElem_set]
      split
      · rename_i same
        subst same
        rw [List.getElem_map, here]
      · rfl
    · simp only [CacheThread.awaited, if_neg allocates]
  · cases taken

theorem put (accounted : state.Accounted) (taken : state.put number = some next) :
    next.Accounted := by
  obtain ⟨⟨request, copy⟩, ready, rfl⟩ := Option.map_eq_some_iff.mp taken
  obtain ⟨allocates, looked, rest, reads⟩ := CacheThread.nextPut_cases ready
  refine accounted.take rfl rfl rfl (accounted.balanced.put _ _ _) ?_ rfl rfl rfl rfl ?_
  · simp only [CacheThread.awaited, allocates, if_true, looked, reads]
    exact List.Perm.refl _
  · intro idle
    rw [idle] at allocates
    cases allocates

theorem gather (accounted : state.Accounted) (taken : state.gather number = some next) :
    next.Accounted := by
  have owes := accounted.threads number
  unfold CacheState.gather at taken
  dsimp only at taken
  split at taken
  · rename_i done
    obtain rfl := Option.some.inj taken
    refine accounted.setThread ⟨fun page => ?_, owes.writes, owes.putting, fun idle => ?_⟩
    · have counts := owes.reads page
      simp only [List.count_append, List.count_nil, Nat.add_zero]
      exact counts
    · have none_left := done.2.2
      rw [owes.idle idle] at none_left
      exact absurd rfl none_left
  · cases taken

theorem lockPages {pages : List Nat} (accounted : state.Accounted)
    (taken : state.lockPages number pages = some next) : next.Accounted := by
  have owes := accounted.threads number
  unfold CacheState.lockPages at taken
  dsimp only at taken
  split at taken
  · rename_i ready
    obtain rfl := Option.some.inj taken
    refine accounted.setThread (owes.keep rfl rfl rfl rfl (fun _ => owes.putting ?_) ?_)
    · simp [ready.2.1]
    · exact fun idle => nomatch ready.1.symm.trans idle
  · cases taken

theorem lock (accounted : state.Accounted) (taken : state.lock number = some next) :
    next.Accounted := by
  have owes := accounted.threads number
  unfold CacheState.lock at taken
  dsimp only at taken
  split at taken
  · cases taken
  · rename_i page rest pending
    split at taken
    · obtain rfl := Option.some.inj taken
      refine accounted.ofThread _ rfl rfl accounted.balanced
        (owes.keep rfl rfl rfl rfl owes.putting fun idle => ?_) fun _ _ _ _ => rfl
      rw [owes.idle idle] at pending
      cases pending
    · cases taken

theorem edit {image : Nat → Image} (accounted : state.Accounted)
    (taken : state.edit number image = some next) : next.Accounted := by
  have owes := accounted.threads number
  unfold CacheState.edit at taken
  dsimp only at taken
  split at taken
  · rename_i ready
    obtain rfl := Option.some.inj taken
    refine accounted.setThread (owes.keep rfl rfl rfl rfl (fun elsewhere => absurd rfl elsewhere)
      fun idle => ?_)
    have stage := ready.1
    rw [owes.idle idle] at stage
    cases stage
  · cases taken

theorem write (accounted : state.Accounted) (taken : state.write number = some next) :
    next.Accounted := by
  have owes := accounted.threads number
  unfold CacheState.write at taken
  dsimp only at taken
  split at taken
  · cases taken
  · rename_i page image rest pending
    split at taken
    · rename_i putting
      obtain rfl := Option.some.inj taken
      refine accounted.ofThread _ rfl rfl (accounted.balanced.put _ _ _)
        ⟨fun other => ?_, fun other => ?_, fun elsewhere => absurd putting elsewhere,
          fun idle => ?_⟩ fun ref _ second _ => ?_
      · rw [count_taken (by simp)]
        exact owes.reads other
      · simp only [List.map_append, List.count_append, ← owes.writes other, List.count_cons,
          List.map_cons, List.map_nil, List.count_nil, beq_iff_eq, Reference.mk.injEq, true_and,
          Nat.zero_add]
      · rw [owes.idle idle] at pending
        cases pending
      · exact count_taken fun same => second (congrArg Reference.holder same)
    · cases taken

theorem unlock (accounted : state.Accounted) (taken : state.unlock number = some next) :
    next.Accounted := by
  have owes := accounted.threads number
  unfold CacheState.unlock at taken
  dsimp only at taken
  split at taken
  · rename_i stage
    have busy : (state.threads number).role ≠ .idle := by
      intro idle
      rw [owes.idle idle] at stage
      cases stage
    split at taken
    · obtain rfl := Option.some.inj taken
      refine accounted.setThread (owes.keep rfl rfl rfl rfl (fun _ => owes.putting ?_) busy)
      simp [stage]
    · obtain rfl := Option.some.inj taken
      exact accounted.ofThread _ rfl rfl accounted.balanced (owes.keep rfl rfl rfl rfl owes.putting busy)
        fun _ _ _ _ => rfl
  · cases taken

theorem finish (accounted : state.Accounted) (taken : state.finish number = some next) :
    next.Accounted := by
  unfold CacheState.finish at taken
  dsimp only at taken
  split at taken
  · rename_i ready
    obtain rfl := Option.some.inj taken
    have owes := accounted.threads number
    refine accounted.setThread (owes.keep rfl rfl rfl rfl (fun _ => owes.putting ?_) ready.1)
    simp [ready.2.2.1]
  · cases taken

theorem deref (accounted : state.Accounted) (taken : state.deref number = some next) :
    next.Accounted := by
  have owes := accounted.threads number
  unfold CacheState.deref at taken
  dsimp only at taken
  split at taken
  · cases taken
  · rename_i page rest pending
    split at taken
    · rename_i ready
      obtain rfl := Option.some.inj taken
      have member : ⟨.pageRef number, page⟩ ∈ state.refs :=
        owes.member ready.2 (pending ▸ List.mem_cons_self)
      refine accounted.ofThread _ rfl rfl (accounted.balanced.deref member)
        ⟨fun other => ?_, fun other => ?_, owes.putting, fun idle => ?_⟩ fun ref first _ _ => ?_
      · have counts := owes.reads other
        have positive := List.count_pos_iff.mpr member
        show (state.refs.erase _).count _ + (state.threads number).awaited.count other =
          rest.count other + (state.threads number).readReqs.count other
        rw [pending] at counts
        by_cases same : page = other
        · subst same
          rw [List.count_cons_self] at counts
          rw [List.count_erase_self]
          omega
        · rw [List.count_cons_of_ne same] at counts
          rw [List.count_erase_of_ne (by simpa using Ne.symm same)]
          exact counts
      · rw [List.count_erase_of_ne (by simp)]
        exact owes.writes other
      · rw [owes.idle idle] at pending
        cases pending
      · exact List.count_erase_of_ne fun same => first (congrArg Reference.holder same)
    · cases taken

theorem leave (accounted : state.Accounted) (taken : state.leave number = some next) :
    next.Accounted := by
  have owes := accounted.threads number
  unfold CacheState.leave at taken
  dsimp only at taken
  split at taken
  · rename_i ready
    obtain rfl := Option.some.inj taken
    refine accounted.ofThread _ rfl rfl accounted.balanced
      ⟨fun page => ?_, fun page => ?_, fun _ => rfl, fun _ => rfl⟩ fun _ _ _ _ => rfl
    · have counts := owes.reads page
      rw [CacheThread.awaited_settled ready.2.1, ready.2.2, ready.2.1.2.2] at counts
      exact counts
    · have counts := owes.writes page
      rw [owes.putting (by simp [ready.1])] at counts
      exact counts
  · cases taken

/-- The references of `write_page_ref` that have passed count for their new holder. -/
theorem count_pass {holder : Holder} (other : holder ≠ .writePageRef number)
    (refs : List (Reference Holder)) (ref : Reference Holder) :
    (refs.map (pass number holder)).count ref =
      (if ref.holder = .writePageRef number then 0 else refs.count ref) +
        if ref.holder = holder then refs.count ⟨.writePageRef number, ref.page⟩ else 0 := by
  induction refs with
  | nil => simp
  | cons first rest inductionHypothesis =>
    obtain ⟨owner, page⟩ := first
    obtain ⟨wanted, target⟩ := ref
    rw [List.map_cons, List.count_cons, inductionHypothesis, List.count_cons, List.count_cons]
    simp only [pass, beq_iff_eq, Reference.mk.injEq]
    by_cases passes : owner = .writePageRef number
    · subst passes
      by_cases here : wanted = holder
      · subst here
        simp [other, Ne.symm other]
        omega
      · by_cases mine : wanted = .writePageRef number
        · subst mine
          simp [other, Ne.symm other]
        · simp [mine, here, Ne.symm here, Ne.symm mine]
    · by_cases mine : wanted = .writePageRef number
      · subst mine
        simp [passes, Ne.symm other]
      · simp [passes, mine]
        omega

theorem outstanding_pass (holder : Holder) (refs : List (Reference Holder)) (page : Nat) :
    outstanding (refs.map (pass number holder)) page = outstanding refs page :=
  PageCache.outstanding_map refs
    (fun owner => if owner = .writePageRef number then holder else owner) page

/-- An insert that passes the references of `write_page_ref` on owes them no longer. -/
theorem owes_pass {thread other : CacheThread Image} {refs : List (Reference Holder)}
    {holder : Holder} (owes : thread.Owes refs number) (stage : thread.stage = .put)
    (elsewhere : holder ≠ .writePageRef number) (page : holder ≠ .pageRef number)
    (same : other = { thread with
      stage := other.stage, written := [], pagesLocked := other.pagesLocked }) :
    other.Owes (refs.map (pass number holder)) number := by
  rw [same]
  refine ⟨fun read => ?_, fun written => ?_, fun _ => rfl, fun idle => ?_⟩
  · rw [count_pass elsewhere, if_neg nofun, if_neg (Ne.symm page), Nat.add_zero]
    exact owes.reads read
  · rw [count_pass elsewhere, if_pos rfl, if_neg (Ne.symm elsewhere)]
    rfl
  · have stays : thread = {} := owes.idle idle
    rw [stays] at stage
    cases stage

/-- The references of the other calls do not pass. -/
theorem count_pass_other {holder : Holder} (elsewhere : holder ≠ .writePageRef number)
    (refs : List (Reference Holder)) {ref : Reference Holder}
    (other : ref.holder ≠ .writePageRef number) (different : ref.holder ≠ holder) :
    (refs.map (pass number holder)).count ref = refs.count ref := by
  rw [count_pass elsewhere, if_neg other, if_neg different, Nat.add_zero]

theorem handOff (accounted : state.Accounted) (taken : state.handOff number = some next) :
    next.Accounted := by
  have owes := accounted.threads number
  unfold CacheState.handOff at taken
  dsimp only at taken
  split at taken
  · rename_i ready
    obtain rfl := Option.some.inj taken
    split
    · refine accounted.ofThread _ rfl rfl
        (accounted.balanced.congr (outstanding_pass _ _))
        (owes_pass owes ready.1 (fun equal => by cases equal) (fun equal => by cases equal) rfl)
        fun ref _ second third => ?_
      exact count_pass_other (by simp) _ second third
    · refine ⟨accounted.balanced.congr (outstanding_pass _ _), fun other => ?_, fun page => ?_,
        accounted.covered.append (BgOp.followed_task _ fun entry member => ?_)⟩
      · by_cases same : other = number
        · subst same
          simp only [CacheState.setThread, Function.update_self]
          exact owes_pass owes ready.1 (fun equal => by cases equal)
            (fun equal => by cases equal) rfl
        · simp only [CacheState.setThread, Function.update_of_ne same]
          refine (accounted.threads other).frame fun ref held => count_pass_other (by simp) _ ?_ ?_
          · rcases held with held | held <;> simp [held, same]
          · rcases held with held | held <;> simp [held]
      · show (state.refs.map (pass number .pagesToDeref)).count _ =
          (BgOp.derefs (state.bgTasks ++ bgTask (state.threads number))).count page
        rw [count_pass (by simp), if_neg (by simp), if_pos rfl, BgOp.derefs_append,
          BgOp.derefs_task, List.count_append, accounted.bgIo, owes.writes]
      · exact List.mem_append_right _ (List.mem_map_of_mem member)
  · cases taken

/-- A step of a call. -/
theorem goOn {move : CacheStep Image} (accounted : state.Accounted)
    (taken : state.goOn number move = some next) : next.Accounted := by
  cases move with
  | call role => exact accounted.call taken
  | read pages => exact accounted.read taken
  | lookup => exact accounted.lookup taken
  | complete place => exact accounted.complete taken
  | put => exact accounted.put taken
  | gather => exact accounted.gather taken
  | lockPages pages => exact accounted.lockPages taken
  | lock => exact accounted.lock taken
  | edit image => exact accounted.edit taken
  | write => exact accounted.write taken
  | handOff => exact accounted.handOff taken
  | unlock => exact accounted.unlock taken
  | finish => exact accounted.finish taken
  | deref => exact accounted.deref taken
  | leave => exact accounted.leave taken

theorem bgIoStep (accounted : state.Accounted) (taken : state.bgIo = some next) :
    next.Accounted := by
  have bgIo := accounted.bgIo
  have covered := accounted.covered
  unfold CacheState.bgIo at taken
  split at taken
  · cases taken
  · rename_i page copy rest pending
    obtain rfl := Option.some.inj taken
    rw [pending] at bgIo covered
    exact ⟨accounted.balanced, accounted.threads, bgIo, covered.2⟩
  · rename_i page rest pending
    obtain rfl := Option.some.inj taken
    rw [pending] at bgIo covered
    exact ⟨accounted.balanced, accounted.threads, bgIo, covered⟩
  · rename_i page rest pending
    obtain rfl := Option.some.inj taken
    rw [pending] at bgIo covered
    have counted : ∀ other, state.refs.count ⟨.pagesToDeref, other⟩ =
        (page :: BgOp.derefs rest).count other := bgIo
    have member : ⟨.pagesToDeref, page⟩ ∈ state.refs := by
      rw [← List.count_pos_iff, counted, List.count_cons_self]
      exact Nat.succ_pos _
    refine ⟨accounted.balanced.deref member, fun other => ?_, fun other => ?_, covered⟩
    · refine (accounted.threads other).frame fun ref held => List.count_erase_of_ne ?_
      rintro rfl
      rcases held with held | held <;> cases held
    · by_cases same : other = page
      · subst same
        rw [List.count_erase_self, counted, List.count_cons_self, Nat.add_sub_cancel]
      · rw [List.count_erase_of_ne (by simpa using same), counted,
          List.count_cons_of_ne (Ne.symm same)]

theorem flush (accounted : state.Accounted) (taken : state.flush = some next) :
    next.Accounted := by
  unfold CacheState.flush at taken
  split at taken
  · obtain rfl := Option.some.inj taken
    exact ⟨accounted.balanced, accounted.threads, accounted.bgIo, accounted.covered⟩
  · cases taken

theorem clear (accounted : state.Accounted)
    (unreferenced : state.flushing = true → state.refs = []) (taken : state.clear = some next) :
    next.Accounted := by
  unfold CacheState.clear at taken
  split at taken
  · rename_i flushing
    obtain rfl := Option.some.inj taken
    exact ⟨accounted.balanced.clear (unreferenced flushing), accounted.threads, accounted.bgIo,
      accounted.covered⟩
  · cases taken

end Accounted

/-! ### Runs -/

/-- `flush_page_cache` clears the cache when nobody has a reference. -/
def ClearsUnreferenced (state : CacheState Image) : CacheAction Image → Prop
  | .clear => state.flushing = true → state.refs = []
  | _ => True

theorem Accounted.step {action : CacheAction Image} (accounted : state.Accounted)
    (admitted : ClearsUnreferenced state action) (taken : state.step action = some next) :
    next.Accounted := by
  cases action with
  | step number move => exact accounted.goOn taken
  | bgIo => exact accounted.bgIoStep taken
  | flush => exact accounted.flush taken
  | clear => exact accounted.clear admitted taken

theorem Accounted.init (disk : Nat → Image) : (CacheState.init disk).Accounted where
  balanced := PageCache.Balanced.empty
  threads _ := ⟨fun _ => rfl, fun _ => rfl, fun _ => rfl, fun _ => rfl⟩
  bgIo _ := rfl
  covered := trivial

/-- An insert has put an image of the page and the disk has not got it from the background
thread. -/
def Unwritten (state : CacheState Image) (page : Nat) : Prop :=
  (∃ number, page ∈ (state.threads number).written.map Prod.fst) ∨
    (∃ copy, .writeDisk page copy ∈ state.bgTasks) ∨ ⟨.nobody, page⟩ ∈ state.refs

/-- The counts are those of the references, nothing was given back twice, and a page that is
still to be written is cached. -/
def KeepsReferences (state : CacheState Image) : Prop :=
  state.pages.Balanced state.refs ∧
    ∀ page, state.Unwritten page → ∃ item, state.pages.cache page = some item

theorem Accounted.keepsReferences (accounted : state.Accounted) : state.KeepsReferences := by
  refine ⟨accounted.balanced, fun page unwritten => ?_⟩
  rcases unwritten with ⟨number, written⟩ | ⟨copy, pending⟩ | lost
  · exact accounted.balanced.cached ((accounted.threads number).written written)
  · have member : ⟨.pagesToDeref, page⟩ ∈ state.refs := by
      rw [← List.count_pos_iff, accounted.bgIo]
      exact List.count_pos_iff.mpr (BgOp.mem_derefs (accounted.covered.mem pending))
    exact accounted.balanced.cached member
  · exact accounted.balanced.cached lost

/-- A table that was cleared is balanced with no references only. -/
theorem unreferenced_of_clear (taken : state.clear = some next)
    (balanced : next.pages.Balanced next.refs) : state.refs = [] := by
  unfold CacheState.clear at taken
  split at taken
  · obtain rfl := Option.some.inj taken
    refine List.eq_nil_iff_forall_not_mem.mpr fun ref member => ?_
    obtain ⟨item, cached⟩ := balanced.cached member
    cases cached
  · cases taken

/-- In every run the references are kept by each step if and only if the cache is cleared
when nobody has one. -/
theorem references_are_balanced (disk : Nat → Image) (actions : List (CacheAction Image)) :
    (cacheSystem Image).Along
        (fun state action => ∀ next, state.step action = some next → next.KeepsReferences)
        (CacheState.init disk) actions ↔
      (cacheSystem Image).Along ClearsUnreferenced (CacheState.init disk) actions := by
  constructor
  · refine Transition.System.Along.imply (fun _ => True) (fun _ _ _ _ _ _ => trivial)
      (fun state action _ keeps => ?_) trivial
    cases action with
    | clear =>
      intro flushing
      refine unreferenced_of_clear (if_pos flushing) (keeps _ (if_pos flushing)).1
    | _ => trivial
  · exact Transition.System.Along.imply Accounted
      (fun _ _ _ before admitted taken => before.step admitted taken)
      (fun _ _ before admitted _ taken => (before.step admitted taken).keepsReferences)
      (Accounted.init disk)

/-- A search has read a page when a merge flushes the cache, and gives its reference back
afterwards. -/
def flushedSearch : List (CacheAction Nat) :=
  [.step 0 (.call .beamSearch), .step 0 (.read [7]), .step 0 .lookup, .step 0 (.complete 0),
    .step 0 .put, .step 0 .gather, .flush, .clear, .step 0 .finish, .step 0 .deref]

/-- The page is absent when the search gives its reference back. -/
theorem search_derefs_absent_page :
    ∃ state, (cacheSystem Nat).Reachable Transition.anyStep state ∧
      state.pages.errors = [7] ∧ ¬state.KeepsReferences := by
  refine ⟨(cacheSystem Nat).after (CacheState.init fun _ => 0) flushedSearch,
    Transition.System.Reachable.after (.initial ⟨_, rfl⟩) Transition.System.along_anyStep,
    by decide +kernel, fun keeps => ?_⟩
  have logged : ((cacheSystem Nat).after (CacheState.init fun _ => 0) flushedSearch).pages.errors
      = [7] := by decide +kernel
  exact List.cons_ne_nil _ _ (logged.symm.trans keeps.1.noErrors)

end CacheState

end OdinVector
