/-
This file proves that an insert and the background thread hold the locks of the
pages they write: from `lockReqs` to the unlock after the write to disk, no
other writer has the lock of such a page.

The background thread has one unlock for each page whose lock was passed to it,
and the write of a page comes before its unlock.
-/

import OdinVector.Cache.References

namespace OdinVector

variable {Image : Type}

namespace BgOp

/-- The pages whose unlock is left. -/
def unlocks (ops : List (BgOp Image)) : List Nat :=
  ops.filterMap fun op => match op with
    | .unlock page => some page
    | _ => none

theorem unlocks_append (first second : List (BgOp Image)) :
    unlocks (first ++ second) = unlocks first ++ unlocks second := List.filterMap_append

theorem unlocks_task (thread : CacheThread Image) :
    unlocks (CacheState.bgTask thread) = thread.pagesLocked := by
  simp [CacheState.bgTask, unlocks]

theorem mem_unlocks {ops : List (BgOp Image)} {page : Nat} (pending : .unlock page ∈ ops) :
    page ∈ unlocks ops :=
  List.mem_filterMap.mpr ⟨_, pending, rfl⟩

end BgOp

namespace CacheThread

/-- An insert holds the locks of `pages_locked`, apart from those `lockReqs` is still to
take, and puts each of these pages once. -/
structure Locks (thread : CacheThread Image) (pageLocks : Nat → Option Agent) (number : Nat) :
    Prop where
  held : ∀ page ∈ thread.pagesLocked, page ∉ thread.unlocked →
    pageLocks page = some (.caller number)
  locking : thread.stage ≠ .lock → thread.unlocked = []
  distinct : thread.pagesLocked.Nodup
  putting : thread.stage = .put →
    thread.written.map Prod.fst ++ thread.unwritten.map Prod.fst = thread.pagesLocked

namespace Locks

variable {thread other : CacheThread Image} {pageLocks later : Nat → Option Agent} {number : Nat}

/-- The locks of a call depend on its stage and its pages only. -/
theorem keep (locks : thread.Locks pageLocks number) (pages : other.pagesLocked = thread.pagesLocked)
    (unlocked : other.unlocked = thread.unlocked)
    (stage : other.stage = thread.stage ∨ other.stage ≠ .put ∧ thread.stage ≠ .lock)
    (written : other.written = thread.written) (unwritten : other.unwritten = thread.unwritten) :
    other.Locks pageLocks number where
  held := by
    rw [pages, unlocked]
    exact locks.held
  locking elsewhere := by
    rw [unlocked]
    rcases stage with same | moved
    · exact locks.locking (same ▸ elsewhere)
    · exact locks.locking moved.2
  distinct := pages ▸ locks.distinct
  putting put := by
    rcases stage with same | moved
    · rw [written, unwritten, pages]
      exact locks.putting (same ▸ put)
    · exact absurd put moved.1

theorem frame (locks : thread.Locks pageLocks number)
    (kept : ∀ page, pageLocks page = some (.caller number) →
      later page = some (.caller number)) : thread.Locks later number where
  held page member taken := kept page (locks.held page member taken)
  locking := locks.locking
  distinct := locks.distinct
  putting := locks.putting

/-- A call without pages has no locks. -/
theorem none (pages : thread.pagesLocked = []) (unlocked : thread.unlocked = [])
    (stage : thread.stage ≠ .put) : thread.Locks pageLocks number where
  held page member := by
    rw [pages] at member
    cases member
  locking _ := unlocked
  distinct := pages ▸ List.nodup_nil
  putting put := absurd put stage

/-- A page that an insert puts or has put is locked by it. -/
theorem put (locks : thread.Locks pageLocks number) (stage : thread.stage = .put) {page : Nat}
    (member : page ∈ thread.pagesLocked) : pageLocks page = some (.caller number) := by
  refine locks.held page member ?_
  rw [locks.locking (by simp [stage])]
  exact List.not_mem_nil

end Locks

end CacheThread

namespace CacheState

/-- Every writer holds the locks of the pages it has locked. -/
structure LocksPages (state : CacheState Image) : Prop where
  threads : ∀ number, (state.threads number).Locks state.pageLocks number
  distinct : (BgOp.unlocks state.bgTasks).Nodup
  held : ∀ page ∈ BgOp.unlocks state.bgTasks, state.pageLocks page = some .bgIoThread
  followed : BgOp.Followed .unlock state.bgTasks

variable {state next : CacheState Image} {number : Nat}

namespace LocksPages

/-- A step of a call that takes locks that are free, or gives its own back. -/
theorem ofThread (locks : state.LocksPages) (thread : CacheThread Image)
    (threads : next.threads = Function.update state.threads number thread)
    (bgTasks : next.bgTasks = state.bgTasks) (mine : thread.Locks next.pageLocks number)
    (others : ∀ page owner, owner ≠ .caller number → state.pageLocks page = some owner →
      next.pageLocks page = some owner) : next.LocksPages where
  threads other := by
    rw [threads]
    by_cases same : other = number
    · subst same
      rw [Function.update_self]
      exact mine
    · rw [Function.update_of_ne same]
      exact (locks.threads other).frame fun page => others page _ (by simpa using same)
  distinct := bgTasks ▸ locks.distinct
  held page pending := others page _ nofun (locks.held page (bgTasks ▸ pending))
  followed := bgTasks ▸ locks.followed

theorem setThread (locks : state.LocksPages) {thread : CacheThread Image}
    (mine : thread.Locks state.pageLocks number) : (state.setThread number thread).LocksPages :=
  locks.ofThread thread rfl rfl mine fun _ _ _ held => held

/-- A step of a call that leaves its locks and its puts. -/
theorem unmoved (locks : state.LocksPages) (thread : CacheThread Image)
    (threads : next.threads = Function.update state.threads number thread)
    (bgTasks : next.bgTasks = state.bgTasks) (pageLocks : next.pageLocks = state.pageLocks)
    (same : thread.pagesLocked = (state.threads number).pagesLocked ∧
      thread.unlocked = (state.threads number).unlocked ∧
      thread.written = (state.threads number).written ∧
      thread.unwritten = (state.threads number).unwritten)
    (stage : thread.stage = (state.threads number).stage ∨
      thread.stage ≠ .put ∧ (state.threads number).stage ≠ .lock) : next.LocksPages := by
  refine locks.ofThread thread threads bgTasks ?_ fun page owner _ held => pageLocks ▸ held
  rw [pageLocks]
  exact (locks.threads number).keep same.1 same.2.1 stage same.2.2.1 same.2.2.2

theorem call {role : Role} (locks : state.LocksPages)
    (taken : state.call number role = some next) : next.LocksPages := by
  unfold CacheState.call at taken
  split at taken
  · obtain rfl := Option.some.inj taken
    exact locks.ofThread { role := role } rfl rfl (.none rfl rfl nofun) fun _ _ _ held => held
  · cases taken

theorem read {pages : List Nat} (locks : state.LocksPages)
    (taken : state.read number pages = some next) : next.LocksPages := by
  have mine := locks.threads number
  unfold CacheState.read at taken
  dsimp only at taken
  split at taken
  · rename_i ready
    obtain rfl := Option.some.inj taken
    refine locks.setThread ⟨mine.held, fun _ => ?_, mine.distinct, fun put => ?_⟩
    · rcases ready.2.2 with stage | stage
      · exact mine.locking (by simp [stage])
      · exact stage.2
    · dsimp only at put
      split at put <;> cases put
  · cases taken

theorem lookup (locks : state.LocksPages) (taken : state.lookup number = some next) :
    next.LocksPages := by
  unfold CacheState.lookup at taken
  dsimp only at taken
  split at taken
  · cases taken
  · split at taken
    · obtain rfl := Option.some.inj taken
      exact locks.unmoved _ rfl rfl rfl ⟨rfl, rfl, rfl, rfl⟩ (.inl rfl)
    · obtain rfl := Option.some.inj taken
      exact locks.unmoved _ rfl rfl rfl ⟨rfl, rfl, rfl, rfl⟩ (.inl rfl)

theorem complete {place : Nat} (locks : state.LocksPages)
    (taken : state.complete number place = some next) : next.LocksPages := by
  unfold CacheState.complete at taken
  dsimp only at taken
  split at taken
  · obtain rfl := Option.some.inj taken
    exact locks.unmoved _ rfl rfl rfl ⟨rfl, rfl, rfl, rfl⟩ (.inl rfl)
  · cases taken

theorem put (locks : state.LocksPages) (taken : state.put number = some next) :
    next.LocksPages := by
  obtain ⟨_, _, rfl⟩ := Option.map_eq_some_iff.mp taken
  exact locks.unmoved _ rfl rfl rfl ⟨rfl, rfl, rfl, rfl⟩ (.inl rfl)

theorem gather (locks : state.LocksPages) (taken : state.gather number = some next) :
    next.LocksPages := by
  unfold CacheState.gather at taken
  dsimp only at taken
  split at taken
  · obtain rfl := Option.some.inj taken
    exact locks.unmoved _ rfl rfl rfl ⟨rfl, rfl, rfl, rfl⟩ (.inl rfl)
  · cases taken

theorem lockPages {pages : List Nat} (locks : state.LocksPages)
    (taken : state.lockPages number pages = some next) : next.LocksPages := by
  unfold CacheState.lockPages at taken
  dsimp only at taken
  split at taken
  · obtain rfl := Option.some.inj taken
    refine locks.setThread ⟨fun page member free => absurd member free,
      fun elsewhere => absurd rfl elsewhere, ?_, nofun⟩
    exact (sortUnique_pairwise pages).imp Nat.ne_of_lt
  · cases taken

theorem lock (locks : state.LocksPages) (taken : state.lock number = some next) :
    next.LocksPages := by
  have mine := locks.threads number
  unfold CacheState.lock at taken
  dsimp only at taken
  split at taken
  · cases taken
  · rename_i page rest pending
    split at taken
    · rename_i free
      obtain rfl := Option.some.inj taken
      refine locks.ofThread _ rfl rfl ⟨fun other member later => ?_,
        fun elsewhere => absurd free.1 elsewhere, mine.distinct,
        fun put => nomatch free.1.symm.trans put⟩ fun other owner _ held => ?_
      · dsimp only
        by_cases same : other = page
        · rw [same, Function.update_self]
        · rw [Function.update_of_ne same]
          refine mine.held other member fun listed => ?_
          rw [pending] at listed
          exact later ((List.mem_cons.mp listed).resolve_left same)
      · dsimp only
        rw [Function.update_of_ne fun same => ?_]
        · exact held
        · rw [same, free.2] at held
          cases held
    · cases taken

theorem edit {image : Nat → Image} (locks : state.LocksPages) (accounted : state.Accounted)
    (taken : state.edit number image = some next) : next.LocksPages := by
  have mine := locks.threads number
  unfold CacheState.edit at taken
  dsimp only at taken
  split at taken
  · rename_i ready
    obtain rfl := Option.some.inj taken
    refine locks.setThread ⟨mine.held, fun _ => mine.locking (by simp [ready.1]), mine.distinct,
      fun _ => ?_⟩
    have unwritten := (accounted.threads number).putting (by simp [ready.1])
    simp only [unwritten, List.map_nil, List.nil_append, List.map_map, Function.comp_def,
      List.map_id']
  · cases taken

theorem write (locks : state.LocksPages) (taken : state.write number = some next) :
    next.LocksPages := by
  have mine := locks.threads number
  unfold CacheState.write at taken
  dsimp only at taken
  split at taken
  · cases taken
  · rename_i page image rest pending
    split at taken
    · obtain rfl := Option.some.inj taken
      refine locks.ofThread _ rfl rfl ⟨mine.held, mine.locking, mine.distinct, fun put => ?_⟩
        fun _ _ _ held => held
      have before := mine.putting put
      rw [pending] at before
      simpa only [List.map_append, List.map_cons, List.map_nil, List.append_assoc,
        List.singleton_append] using before
    · cases taken

theorem handOff (locks : state.LocksPages) (taken : state.handOff number = some next) :
    next.LocksPages := by
  have mine := locks.threads number
  unfold CacheState.handOff at taken
  dsimp only at taken
  split at taken
  · rename_i ready
    obtain rfl := Option.some.inj taken
    have unlocked := mine.locking (by simp [ready.1])
    have putting := mine.putting ready.1
    split
    · exact locks.ofThread _ rfl rfl
        ⟨mine.held, fun _ => unlocked, mine.distinct, (fun equal => by cases equal)⟩
        fun _ _ _ held => held
    · have held : ∀ page ∈ (state.threads number).pagesLocked,
          state.pageLocks page = some (.caller number) := fun page member => mine.put ready.1 member
      refine ⟨fun other => ?_, ?_, fun page pending => ?_, ?_⟩
      · by_cases same : other = number
        · subst same
          simp only [CacheState.setThread, Function.update_self]
          exact .none rfl unlocked (fun equal => by cases equal)
        · simp only [CacheState.setThread, Function.update_of_ne same]
          refine (locks.threads other).frame fun page mine => ?_
          rw [handOver, mine, if_neg (by simpa using same)]
      · show (BgOp.unlocks (state.bgTasks ++ bgTask _)).Nodup
        rw [BgOp.unlocks_append, BgOp.unlocks_task]
        refine List.nodup_append.mpr ⟨locks.distinct, mine.distinct, fun first queued second
          locked same => ?_⟩
        have both := (locks.held first queued).symm.trans (same ▸ held second locked)
        cases both
      · have listed : page ∈ BgOp.unlocks (state.bgTasks ++ bgTask _) := pending
        rw [BgOp.unlocks_append, BgOp.unlocks_task] at listed
        show handOver number (state.pageLocks page) = _
        rcases List.mem_append.mp listed with queued | locked
        · rw [locks.held page queued]
          rfl
        · rw [held page locked, handOver, if_pos rfl]
      · refine locks.followed.append (BgOp.followed_task _ fun entry member => ?_)
        refine List.mem_append_left _ (List.mem_map_of_mem ?_)
        rw [← putting]
        exact List.mem_append_left _ (List.mem_map_of_mem member)
  · cases taken

theorem unlock (locks : state.LocksPages) (taken : state.unlock number = some next) :
    next.LocksPages := by
  have mine := locks.threads number
  unfold CacheState.unlock at taken
  dsimp only at taken
  split at taken
  · rename_i stage
    split at taken
    · obtain rfl := Option.some.inj taken
      exact locks.unmoved _ rfl rfl rfl ⟨rfl, rfl, rfl, rfl⟩ (.inr ⟨nofun, by simp [stage]⟩)
    · rename_i page rest pending
      obtain rfl := Option.some.inj taken
      have unlocked := mine.locking (by simp [stage])
      have distinct := mine.distinct
      rw [pending] at distinct
      have held : state.pageLocks page = some (.caller number) := by
        refine mine.held page (pending ▸ List.mem_cons_self) ?_
        rw [unlocked]
        exact List.not_mem_nil
      refine locks.ofThread _ rfl rfl ⟨fun other member free => ?_, fun _ => unlocked,
        (List.nodup_cons.mp distinct).2, fun put => nomatch stage.symm.trans put⟩
        fun other owner different kept => ?_
      · dsimp only
        have other_page : other ≠ page := by
          rintro rfl
          exact (List.nodup_cons.mp distinct).1 member
        rw [Function.update_of_ne other_page]
        exact mine.held other (pending ▸ List.mem_cons_of_mem _ member) free
      · dsimp only
        rw [Function.update_of_ne fun same => ?_]
        · exact kept
        · rw [same, held] at kept
          exact different (Option.some.inj kept).symm
  · cases taken

theorem finish (locks : state.LocksPages) (taken : state.finish number = some next) :
    next.LocksPages := by
  unfold CacheState.finish at taken
  dsimp only at taken
  split at taken
  · rename_i ready
    obtain rfl := Option.some.inj taken
    exact locks.unmoved _ rfl rfl rfl ⟨rfl, rfl, rfl, rfl⟩ (.inr ⟨nofun, by simp [ready.2.2.1]⟩)
  · cases taken

theorem deref (locks : state.LocksPages) (taken : state.deref number = some next) :
    next.LocksPages := by
  unfold CacheState.deref at taken
  dsimp only at taken
  split at taken
  · cases taken
  · split at taken
    · obtain rfl := Option.some.inj taken
      exact locks.unmoved _ rfl rfl rfl ⟨rfl, rfl, rfl, rfl⟩ (.inl rfl)
    · cases taken

theorem leave (locks : state.LocksPages) (taken : state.leave number = some next) :
    next.LocksPages := by
  unfold CacheState.leave at taken
  dsimp only at taken
  split at taken
  · obtain rfl := Option.some.inj taken
    exact locks.ofThread {} rfl rfl (.none rfl rfl nofun) fun _ _ _ held => held
  · cases taken

/-- A step of a call. -/
theorem goOn {move : CacheStep Image} (locks : state.LocksPages) (accounted : state.Accounted)
    (taken : state.goOn number move = some next) : next.LocksPages := by
  cases move with
  | call role => exact locks.call taken
  | read pages => exact locks.read taken
  | lookup => exact locks.lookup taken
  | complete place => exact locks.complete taken
  | put => exact locks.put taken
  | gather => exact locks.gather taken
  | lockPages pages => exact locks.lockPages taken
  | lock => exact locks.lock taken
  | edit image => exact locks.edit accounted taken
  | write => exact locks.write taken
  | handOff => exact locks.handOff taken
  | unlock => exact locks.unlock taken
  | finish => exact locks.finish taken
  | deref => exact locks.deref taken
  | leave => exact locks.leave taken

theorem bgIo (locks : state.LocksPages) (taken : state.bgIo = some next) : next.LocksPages := by
  have distinct := locks.distinct
  have held := locks.held
  have followed := locks.followed
  unfold CacheState.bgIo at taken
  split at taken
  · cases taken
  · rename_i page copy rest pending
    obtain rfl := Option.some.inj taken
    rw [pending] at distinct held followed
    exact ⟨locks.threads, distinct, held, followed.2⟩
  · rename_i page rest pending
    obtain rfl := Option.some.inj taken
    rw [pending] at distinct held followed
    have gone : page ∉ BgOp.unlocks rest := (List.nodup_cons.mp distinct).1
    have owned : state.pageLocks page = some .bgIoThread := held page List.mem_cons_self
    refine ⟨fun number => (locks.threads number).frame fun other mine => ?_,
      (List.nodup_cons.mp distinct).2, fun other left => ?_, followed⟩
    · dsimp only
      rw [Function.update_of_ne fun same => ?_]
      · exact mine
      · rw [same, owned] at mine
        cases mine
    · dsimp only
      have other_page : other ≠ page := by
        rintro rfl
        exact gone left
      rw [Function.update_of_ne other_page]
      exact held other (List.mem_cons_of_mem _ left)
  · rename_i page rest pending
    obtain rfl := Option.some.inj taken
    rw [pending] at distinct held followed
    exact ⟨locks.threads, distinct, held, followed⟩

theorem init (disk : Nat → Image) : (CacheState.init disk).LocksPages where
  threads _ := .none rfl rfl nofun
  distinct := List.nodup_nil
  held _ pending := nomatch pending
  followed := trivial

end LocksPages

end CacheState

end OdinVector
