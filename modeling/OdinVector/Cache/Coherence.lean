/-
This file proves that the page cache is coherent in every run in which
`read_alloc` puts no image that is older than the newest one of its page.

A cached page has the bytes of its latest `wbc_write`. The disk may have an
older image only while the newest one is on its way there: then the page has a
reference, so it is cached, and no lookup of it misses. A read that has missed
therefore finds on disk what was newest when it began, or something newer. An
insert that holds the lock of a page reads its newest image, since every other
writer needs the lock.

The lookup, the disk read and the put of a miss are three steps, and searches
take no page lock. A `wbc_write` between the last two is overwritten by the
image that the search has read before.
-/

import OdinVector.Cache.WriteLocks

namespace OdinVector

variable {Image : Type}

/-! ### Images -/

namespace Copy

/-- The bytes are those of the image with this number. -/
def Genuine (copy : Copy Image) (images : List Image) : Prop :=
  images[copy.version]? = some copy.image

/-- The bytes are those of the last image. -/
def Latest (copy : Copy Image) (images : List Image) : Prop :=
  copy.Genuine images ∧ copy.version + 1 = images.length

variable {copy : Copy Image} {images : List Image}

theorem Genuine.lt (genuine : copy.Genuine images) : copy.version + 1 ≤ images.length :=
  (List.getElem?_eq_some_iff.mp genuine).1

theorem Genuine.add (genuine : copy.Genuine images) (image : Image) :
    copy.Genuine (images ++ [image]) := by
  rw [Genuine, List.getElem?_append_left genuine.lt]
  exact genuine

/-- The last image of a page is still the last after a put on another page. -/
theorem Latest.other {images : Nat → List Image} {other page : Nat}
    (latest : copy.Latest (images other)) (different : page ≠ other) (after : List Image) :
    copy.Latest (Function.update images page after other) := by
  rw [Function.update_of_ne (Ne.symm different)]
  exact latest

/-- An image of a page stays one when another is put. -/
theorem Genuine.update {images : Nat → List Image} {other : Nat}
    (genuine : copy.Genuine (images other)) (page : Nat) (image : Image) :
    copy.Genuine (Function.update images page (images page ++ [image]) other) := by
  by_cases same : other = page
  · subst same
    rw [Function.update_self]
    exact genuine.add image
  · rw [Function.update_of_ne same]
    exact genuine

theorem latest_add (images : List Image) (image : Image) :
    Latest ⟨image, images.length⟩ (images ++ [image]) :=
  ⟨List.getElem?_concat_length, by rw [List.length_append]; rfl⟩

end Copy

/-! ### Reads -/

/-- What a call reads is no older than what was newest when its call of the reader began, and
newest when the page is one that the call has locked. -/
structure CacheThread.Fresh (thread : CacheThread Image) (images : Nat → List Image)
    (disk : Nat → Copy Image) : Prop where
  lookups : ∀ request ∈ thread.lookups, request.since ≤ (images request.page).length
  pending : ∀ read ∈ thread.diskReads, read.copy = none →
    read.request.since ≤ (disk read.request.page).version + 1
  found : ∀ read ∈ thread.diskReads, ∀ copy, read.copy = some copy →
    copy.Genuine (images read.request.page)
  results : ∀ entry ∈ thread.results, entry.2.Genuine (images entry.1.page) ∧
    entry.1.since ≤ entry.2.version + 1
  rereads : thread.stage = .edit → ∀ read ∈ thread.diskReads, read.copy = none →
    read.request.page ∈ thread.pagesLocked →
      (disk read.request.page).Latest (images read.request.page)
  reread : thread.stage = .edit → ∀ entry ∈ thread.results,
    entry.1.page ∈ thread.pagesLocked → entry.2.Latest (images entry.1.page)

namespace CacheThread.Fresh

variable {thread other : CacheThread Image} {images : Nat → List Image}
  {disk : Nat → Copy Image}

/-- A call that reads nothing new. -/
theorem keep (fresh : thread.Fresh images disk)
    (lookups : ∀ request ∈ other.lookups, request ∈ thread.lookups)
    (diskReads : ∀ read ∈ other.diskReads, read ∈ thread.diskReads)
    (results : ∀ entry ∈ other.results, entry ∈ thread.results)
    (stage : other.stage = .edit → thread.stage = .edit ∧
      other.pagesLocked = thread.pagesLocked) : other.Fresh images disk where
  lookups request member := fresh.lookups request (lookups request member)
  pending read member := fresh.pending read (diskReads read member)
  found read member := fresh.found read (diskReads read member)
  results entry member := fresh.results entry (results entry member)
  rereads edit read member missing locked :=
    fresh.rereads (stage edit).1 read (diskReads read member) missing ((stage edit).2 ▸ locked)
  reread edit entry member locked :=
    fresh.reread (stage edit).1 entry (results entry member) ((stage edit).2 ▸ locked)

/-- An image is put on a page that the call has not locked for its edits. -/
theorem addImage (fresh : thread.Fresh images disk) (page : Nat) (image : Image)
    (unlocked : thread.stage = .edit → page ∉ thread.pagesLocked) :
    thread.Fresh (Function.update images page (images page ++ [image])) disk := by
  refine ⟨fun request member => ?_, fresh.pending,
    fun read member copy found => (fresh.found read member copy found).update page image,
    fun entry member => ⟨(fresh.results entry member).1.update page image,
      (fresh.results entry member).2⟩, fun edit read member missing locked => ?_,
    fun edit entry member locked => ?_⟩
  · have before := fresh.lookups request member
    by_cases same : request.page = page
    · rw [same] at before ⊢
      rw [Function.update_self, List.length_append]
      omega
    · rw [Function.update_of_ne same]
      exact before
  · refine (fresh.rereads edit read member missing locked).other ?_ _
    rintro rfl
    exact unlocked edit locked
  · refine (fresh.reread edit entry member locked).other ?_ _
    rintro rfl
    exact unlocked edit locked

/-- The newest image of a page reaches the disk. -/
theorem writeDisk (fresh : thread.Fresh images disk) {page : Nat} {copy : Copy Image}
    (genuine : (disk page).Genuine (images page)) (latest : copy.Latest (images page)) :
    thread.Fresh images (Function.update disk page copy) where
  lookups := fresh.lookups
  pending read member missing := by
    have before := fresh.pending read member missing
    by_cases same : read.request.page = page
    · rw [same] at before ⊢
      rw [Function.update_self, latest.2]
      exact before.trans genuine.lt
    · rw [Function.update_of_ne same]
      exact before
  found := fresh.found
  results := fresh.results
  rereads edit read member missing locked := by
    by_cases same : read.request.page = page
    · rw [same, Function.update_self]
      exact latest
    · rw [Function.update_of_ne same]
      exact fresh.rereads edit read member missing locked
  reread := fresh.reread

/-- A call that has read nothing. -/
theorem none (lookups : thread.lookups = []) (diskReads : thread.diskReads = [])
    (results : thread.results = []) : thread.Fresh images disk := by
  constructor <;> simp [lookups, diskReads, results]

end CacheThread.Fresh

/-! ### The invariant -/

namespace CacheState

/-- The cache and every copy on its way to the disk are the newest; the disk has an older
image only of a page that is still to be written. -/
structure Coherent (state : CacheState Image) : Prop where
  cached : ∀ page item, state.pages.cache page = some item →
    item.buf.Latest (state.images page)
  disk : ∀ page, (state.disk page).Genuine (state.images page)
  dirty : ∀ page, ¬(state.disk page).Latest (state.images page) → state.Unwritten page
  written : ∀ number, ∀ entry ∈ (state.threads number).written,
    entry.2.Latest (state.images entry.1)
  queued : ∀ page copy, .writeDisk page copy ∈ state.bgTasks → copy.Latest (state.images page)
  threads : ∀ number, (state.threads number).Fresh state.images state.disk

variable {state next : CacheState Image} {number : Nat}

/-- A page that is not cached is up to date on disk. -/
theorem Coherent.missed (coherent : state.Coherent) (accounted : state.Accounted) {page : Nat}
    (absent : state.pages.cache page = none) :
    (state.disk page).Latest (state.images page) := by
  by_contra stale
  obtain ⟨item, cached⟩ := accounted.keepsReferences.2 page (coherent.dirty page stale)
  rw [absent] at cached
  cases cached

namespace Coherent

/-- A step of a call that puts no new image of a page and hands nothing over. -/
theorem ofThread (coherent : state.Coherent) (thread : CacheThread Image)
    (threads : next.threads = Function.update state.threads number thread)
    (bgTasks : next.bgTasks = state.bgTasks) (images : next.images = state.images)
    (disk : next.disk = state.disk)
    (cached : ∀ page item, next.pages.cache page = some item →
      item.buf.Latest (state.images page))
    (nobody : ∀ page, ⟨.nobody, page⟩ ∈ state.refs → ⟨.nobody, page⟩ ∈ next.refs)
    (written : thread.written = (state.threads number).written)
    (fresh : thread.Fresh state.images state.disk) : next.Coherent where
  cached := images ▸ cached
  disk := by
    rw [images, disk]
    exact coherent.disk
  dirty page stale := by
    rw [images, disk] at stale
    rcases coherent.dirty page stale with ⟨writer, put⟩ | ⟨copy, pending⟩ | lost
    · refine .inl ⟨writer, ?_⟩
      rw [threads]
      by_cases same : writer = number
      · subst same
        rw [Function.update_self, written]
        exact put
      · rw [Function.update_of_ne same]
        exact put
    · exact .inr (.inl ⟨copy, bgTasks ▸ pending⟩)
    · exact .inr (.inr (nobody page lost))
  written writer := by
    rw [threads, images]
    by_cases same : writer = number
    · subst same
      rw [Function.update_self, written]
      exact coherent.written writer
    · rw [Function.update_of_ne same]
      exact coherent.written writer
  queued := by
    rw [bgTasks, images]
    exact coherent.queued
  threads reader := by
    rw [threads, images, disk]
    by_cases same : reader = number
    · subst same
      rw [Function.update_self]
      exact fresh
    · rw [Function.update_of_ne same]
      exact coherent.threads reader

theorem setThread (coherent : state.Coherent) {thread : CacheThread Image}
    (written : thread.written = (state.threads number).written)
    (fresh : thread.Fresh state.images state.disk) : (state.setThread number thread).Coherent :=
  coherent.ofThread thread rfl rfl rfl rfl coherent.cached (fun _ lost => lost) written fresh

theorem call {role : Role} (coherent : state.Coherent) (accounted : state.Accounted)
    (taken : state.call number role = some next) : next.Coherent := by
  unfold CacheState.call at taken
  split at taken
  · rename_i starts
    obtain rfl := Option.some.inj taken
    refine coherent.ofThread { role := role } rfl rfl rfl rfl coherent.cached
      (fun _ lost => lost) ?_ (.none rfl rfl rfl)
    rw [(accounted.threads number).idle starts.1]
  · cases taken

theorem read {pages : List Nat} (coherent : state.Coherent)
    (taken : state.read number pages = some next) : next.Coherent := by
  have fresh := coherent.threads number
  unfold CacheState.read at taken
  dsimp only at taken
  split at taken
  · rename_i ready
    obtain rfl := Option.some.inj taken
    have idle : ∀ read, read ∉ (state.threads number).diskReads := by
      rw [ready.2.1.2.1]
      exact fun _ => List.not_mem_nil
    refine coherent.setThread rfl ⟨fun request member => ?_,
      fun read member => absurd member (idle read), fun read member => absurd member (idle read),
      fun _ member => (nomatch member), fun _ read member => absurd member (idle read),
      fun _ _ member => (nomatch member)⟩
    obtain ⟨page, _, rfl⟩ := List.mem_map.mp member
    exact le_rfl
  · cases taken

theorem lookup (coherent : state.Coherent) (accounted : state.Accounted)
    (taken : state.lookup number = some next) : next.Coherent := by
  have fresh := coherent.threads number
  unfold CacheState.lookup at taken
  dsimp only at taken
  split at taken
  · cases taken
  · rename_i request rest pending
    have known := fresh.lookups request (pending ▸ List.mem_cons_self)
    have others : ∀ other ∈ rest, other ∈ (state.threads number).lookups :=
      fun other member => pending ▸ List.mem_cons_of_mem _ member
    split at taken
    · rename_i pages copy hit
      obtain rfl := Option.some.inj taken
      obtain ⟨keeps, item, cached, rfl⟩ := PageCache.get_keepsBytes hit
      have latest := coherent.cached request.page item cached
      refine coherent.ofThread _ rfl rfl rfl rfl (fun page entry present => ?_)
        (fun page lost => ?_) rfl ⟨fun other member => fresh.lookups other (others other member),
          fresh.pending, fresh.found, fun entry member => ?_, fresh.rereads,
          fun edit entry member locked => ?_⟩
      · obtain ⟨before, found, same⟩ := keeps page entry present
        exact same ▸ coherent.cached page before found
      · dsimp only
        split
        · exact List.mem_cons_of_mem _ lost
        · exact lost
      · rcases List.mem_cons.mp member with rfl | earlier
        · exact ⟨latest.1, latest.2 ▸ known⟩
        · exact fresh.results entry earlier
      · rcases List.mem_cons.mp member with rfl | earlier
        · exact latest
        · exact fresh.reread edit entry earlier locked
    · rename_i missed
      obtain rfl := Option.some.inj taken
      have latest := coherent.missed accounted (PageCache.get_eq_none.mp missed)
      refine coherent.setThread rfl ⟨fun other member => fresh.lookups other (others other member),
        fun read member missing => ?_, fun read member copy found => ?_, fresh.results,
        fun edit read member missing locked => ?_, fresh.reread⟩
      · rcases List.mem_append.mp member with earlier | new
        · exact fresh.pending read earlier missing
        · obtain rfl := List.mem_singleton.mp new
          exact latest.2 ▸ known
      · rcases List.mem_append.mp member with earlier | new
        · exact fresh.found read earlier copy found
        · obtain rfl := List.mem_singleton.mp new
          cases found
      · rcases List.mem_append.mp member with earlier | new
        · exact fresh.rereads edit read earlier missing locked
        · obtain rfl := List.mem_singleton.mp new
          exact latest

theorem complete {place : Nat} (coherent : state.Coherent)
    (taken : state.complete number place = some next) : next.Coherent := by
  have fresh := coherent.threads number
  unfold CacheState.complete at taken
  dsimp only at taken
  split at taken
  · rename_i request looked found
    obtain rfl := Option.some.inj taken
    have here := List.mem_of_getElem? found
    have left : ∀ read ∈ (if (state.threads number).role.allocates then
        (state.threads number).diskReads.set place ⟨request, some (state.disk request.page)⟩
        else (state.threads number).diskReads.eraseIdx place),
        read ∈ (state.threads number).diskReads ∨
          read = ⟨request, some (state.disk request.page)⟩ := by
      intro read member
      split at member
      · exact List.mem_or_eq_of_mem_set member
      · exact .inl (List.mem_of_mem_eraseIdx member)
    refine coherent.setThread rfl ⟨fresh.lookups, fun read member missing => ?_,
      fun read member copy known => ?_, fun entry member => ?_,
      fun edit read member missing locked => ?_, fun edit entry member locked => ?_⟩
    · rcases left read member with earlier | rfl
      · exact fresh.pending read earlier missing
      · cases missing
    · rcases left read member with earlier | rfl
      · exact fresh.found read earlier copy known
      · obtain rfl := Option.some.inj known
        exact coherent.disk request.page
    · rcases List.mem_cons.mp member with rfl | earlier
      · exact ⟨coherent.disk request.page, fresh.pending _ here rfl⟩
      · exact fresh.results entry earlier
    · rcases left read member with earlier | rfl
      · exact fresh.rereads edit read earlier missing locked
      · cases missing
    · rcases List.mem_cons.mp member with rfl | earlier
      · exact fresh.rereads edit _ here rfl locked
      · exact fresh.reread edit entry earlier locked
  · cases taken

theorem put (coherent : state.Coherent)
    (newest : ∀ request copy, (state.threads number).nextPut = some (request, copy) →
      copy.version + 1 = (state.images request.page).length)
    (taken : state.put number = some next) : next.Coherent := by
  have fresh := coherent.threads number
  obtain ⟨⟨request, copy⟩, ready, rfl⟩ := Option.map_eq_some_iff.mp taken
  obtain ⟨_, _, rest, reads⟩ := CacheThread.nextPut_cases ready
  have genuine : copy.Genuine (state.images request.page) :=
    fresh.found _ (reads ▸ List.mem_cons_self) copy rfl
  refine coherent.ofThread _ rfl rfl rfl rfl (fun page item present => ?_)
    (fun _ lost => List.mem_cons_of_mem _ lost) rfl
    (fresh.keep (fun _ member => member) (fun _ member => List.mem_of_mem_tail member)
      (fun _ member => member) fun edit => ⟨edit, rfl⟩)
  rcases PageCache.put_cases present with ⟨rfl, same⟩ | ⟨_, before⟩
  · exact same ▸ ⟨genuine, newest request copy ready⟩
  · exact coherent.cached page item before

/-- The steps of a call that only move on. -/
theorem gather (coherent : state.Coherent) (taken : state.gather number = some next) :
    next.Coherent := by
  unfold CacheState.gather at taken
  dsimp only at taken
  split at taken
  · obtain rfl := Option.some.inj taken
    exact coherent.setThread rfl <| (coherent.threads number).keep (fun _ member => member)
      (fun _ member => member) (fun _ member => member) fun edit => ⟨edit, rfl⟩
  · cases taken

theorem lockPages {pages : List Nat} (coherent : state.Coherent)
    (taken : state.lockPages number pages = some next) : next.Coherent := by
  unfold CacheState.lockPages at taken
  dsimp only at taken
  split at taken
  · obtain rfl := Option.some.inj taken
    exact coherent.setThread rfl <| (coherent.threads number).keep (fun _ member => member)
      (fun _ member => member) (fun _ member => member) nofun
  · cases taken

theorem lock (coherent : state.Coherent) (taken : state.lock number = some next) :
    next.Coherent := by
  unfold CacheState.lock at taken
  dsimp only at taken
  split at taken
  · cases taken
  · split at taken
    · obtain rfl := Option.some.inj taken
      exact coherent.ofThread _ rfl rfl rfl rfl coherent.cached (fun _ lost => lost) rfl <|
        (coherent.threads number).keep (fun _ member => member) (fun _ member => member)
          (fun _ member => member) fun edit => ⟨edit, rfl⟩
    · cases taken

theorem edit {image : Nat → Image} (coherent : state.Coherent)
    (taken : state.edit number image = some next) : next.Coherent := by
  unfold CacheState.edit at taken
  dsimp only at taken
  split at taken
  · obtain rfl := Option.some.inj taken
    exact coherent.setThread rfl <| (coherent.threads number).keep (fun _ member => member)
      (fun _ member => member) (fun _ member => member) nofun
  · cases taken

theorem unlock (coherent : state.Coherent) (taken : state.unlock number = some next) :
    next.Coherent := by
  unfold CacheState.unlock at taken
  dsimp only at taken
  split at taken
  · rename_i stage
    split at taken
    · obtain rfl := Option.some.inj taken
      exact coherent.setThread rfl <| (coherent.threads number).keep (fun _ member => member)
        (fun _ member => member) (fun _ member => member) nofun
    · obtain rfl := Option.some.inj taken
      exact coherent.ofThread _ rfl rfl rfl rfl coherent.cached (fun _ lost => lost) rfl <|
        (coherent.threads number).keep (fun _ member => member) (fun _ member => member)
          (fun _ member => member) fun edit => nomatch stage.symm.trans edit
  · cases taken

theorem finish (coherent : state.Coherent) (taken : state.finish number = some next) :
    next.Coherent := by
  unfold CacheState.finish at taken
  dsimp only at taken
  split at taken
  · obtain rfl := Option.some.inj taken
    exact coherent.setThread rfl <| (coherent.threads number).keep (fun _ member => member)
      (fun _ member => member) (fun _ member => member) nofun
  · cases taken

theorem deref (coherent : state.Coherent) (taken : state.deref number = some next) :
    next.Coherent := by
  unfold CacheState.deref at taken
  dsimp only at taken
  split at taken
  · cases taken
  · rename_i page rest pending
    split at taken
    · obtain rfl := Option.some.inj taken
      refine coherent.ofThread _ rfl rfl rfl rfl (fun other item present => ?_)
        (fun other lost => ?_) rfl <|
        (coherent.threads number).keep (fun _ member => member) (fun _ member => member)
          (fun _ member => member) fun edit => ⟨edit, rfl⟩
      · obtain ⟨before, found, same⟩ := PageCache.deref_keepsBytes _ _ other item present
        exact same ▸ coherent.cached other before found
      · exact (List.mem_erase_of_ne (by simp)).mpr lost
    · cases taken

theorem leave (coherent : state.Coherent) (accounted : state.Accounted)
    (taken : state.leave number = some next) : next.Coherent := by
  unfold CacheState.leave at taken
  dsimp only at taken
  split at taken
  · rename_i ready
    obtain rfl := Option.some.inj taken
    refine coherent.ofThread {} rfl rfl rfl rfl coherent.cached (fun _ lost => lost) ?_
      (.none rfl rfl rfl)
    exact ((accounted.threads number).putting (by simp [ready.1])).symm
  · cases taken

/-- `wbc_write` puts a page whose lock its insert holds, so no other image of the page is on
its way to the disk and no other insert has read it for its edits. -/
theorem write (coherent : state.Coherent) (accounted : state.Accounted)
    (locks : state.LocksPages) (taken : state.write number = some next) : next.Coherent := by
  have mine := locks.threads number
  unfold CacheState.write at taken
  dsimp only at taken
  split at taken
  · cases taken
  · rename_i page image rest pending
    split at taken
    · rename_i stage
      obtain rfl := Option.some.inj taken
      have putting := mine.putting stage
      have locked : page ∈ (state.threads number).pagesLocked := by
        rw [← putting, pending]
        exact List.mem_append_right _ List.mem_cons_self
      have held := mine.put stage locked
      have once : page ∉ (state.threads number).written.map Prod.fst := by
        have distinct := mine.distinct
        rw [← putting, pending] at distinct
        exact fun put => (List.nodup_append.mp distinct).2.2 page put page List.mem_cons_self rfl
      -- Another writer of the page would hold its lock.
      have excluded : ∀ other, other ≠ number → (state.threads other).stage = .put ∨
          (state.threads other).stage = .edit → page ∉ (state.threads other).pagesLocked := by
        intro other different stage locked
        have unlocked := (locks.threads other).locking (by rcases stage with h | h <;> simp [h])
        have also := (locks.threads other).held page locked (unlocked ▸ List.not_mem_nil)
        exact different (by simpa using also.symm.trans held)
      refine ⟨fun other item present => ?_, fun other => (coherent.disk other).update page image,
        fun other stale => ?_, fun writer entry member => ?_, fun other copy queued => ?_,
        fun reader => ?_⟩
      · rcases PageCache.put_cases present with ⟨rfl, same⟩ | ⟨different, before⟩
        · rw [same]
          dsimp only
          rw [Function.update_self]
          exact Copy.latest_add _ _
        · exact (coherent.cached other item before).other (Ne.symm different) _
      · by_cases same : other = page
        · subst same
          refine .inl ⟨number, ?_⟩
          simp only [CacheState.setThread, Function.update_self, List.map_append]
          exact List.mem_append_right _ List.mem_cons_self
        · have before : ¬(state.disk other).Latest (state.images other) := fun latest =>
            stale (latest.other (Ne.symm same) _)
          rcases coherent.dirty other before with ⟨writer, put⟩ | ⟨copy, queued⟩ | lost
          · refine .inl ⟨writer, ?_⟩
            by_cases mine : writer = number
            · subst mine
              simp only [CacheState.setThread, Function.update_self, List.map_append]
              exact List.mem_append_left _ put
            · simp only [CacheState.setThread, Function.update_of_ne mine]
              exact put
          · exact .inr (.inl ⟨copy, queued⟩)
          · exact .inr (.inr (List.mem_cons_of_mem _ lost))
      · by_cases same : writer = number
        · subst same
          simp only [CacheState.setThread, Function.update_self] at member
          rcases List.mem_append.mp member with earlier | new
          · refine (coherent.written writer entry earlier).other ?_ _
            rintro rfl
            exact once (List.mem_map_of_mem earlier)
          · obtain rfl := List.mem_singleton.mp new
            dsimp only
            rw [Function.update_self]
            exact Copy.latest_add _ _
        · simp only [CacheState.setThread, Function.update_of_ne same] at member
          have put : (state.threads writer).stage = .put := by
            by_contra elsewhere
            rw [(accounted.threads writer).putting elsewhere] at member
            cases member
          refine (coherent.written writer entry member).other ?_ _
          rintro rfl
          refine excluded writer same (.inl put) ?_
          rw [← (locks.threads writer).putting put]
          exact List.mem_append_left _ (List.mem_map_of_mem member)
      · have unlocking := locks.held other (BgOp.mem_unlocks (locks.followed.mem queued))
        refine (coherent.queued other copy queued).other ?_ _
        rintro rfl
        cases held.symm.trans unlocking
      · have fresh := (coherent.threads reader).addImage page image
        by_cases same : reader = number
        · subst same
          simp only [CacheState.setThread, Function.update_self]
          refine (fresh fun edit => by cases stage.symm.trans edit).keep (fun _ member => member)
            (fun _ member => member) (fun _ member => member) fun edit => ⟨edit, rfl⟩
        · simp only [CacheState.setThread, Function.update_of_ne same]
          exact fresh fun edit => excluded reader same (.inr edit)
    · cases taken

/-- An insert hands its images over, or keeps them in the cache. -/
theorem ofHandOff (coherent : state.Coherent) (thread : CacheThread Image)
    (threads : next.threads = Function.update state.threads number thread)
    (images : next.images = state.images) (disk : next.disk = state.disk)
    (pages : next.pages = state.pages) (written : thread.written = [])
    (fresh : thread.Fresh state.images state.disk)
    (queued : ∀ page copy, .writeDisk page copy ∈ next.bgTasks →
      .writeDisk page copy ∈ state.bgTasks ∨ (page, copy) ∈ (state.threads number).written)
    (kept : ∀ page, state.Unwritten page → next.Unwritten page) : next.Coherent where
  cached := by
    rw [pages, images]
    exact coherent.cached
  disk := by
    rw [disk, images]
    exact coherent.disk
  dirty page stale := by
    rw [disk, images] at stale
    exact kept page (coherent.dirty page stale)
  written writer := by
    rw [threads, images]
    by_cases same : writer = number
    · subst same
      rw [Function.update_self, written]
      exact fun entry member => nomatch member
    · rw [Function.update_of_ne same]
      exact coherent.written writer
  queued page copy pending := by
    rw [images]
    rcases queued page copy pending with before | mine
    · exact coherent.queued page copy before
    · exact coherent.written number (page, copy) mine
  threads reader := by
    rw [threads, images, disk]
    by_cases same : reader = number
    · subst same
      rw [Function.update_self]
      exact fresh
    · rw [Function.update_of_ne same]
      exact coherent.threads reader

theorem handOff (coherent : state.Coherent) (accounted : state.Accounted)
    (taken : state.handOff number = some next) : next.Coherent := by
  have fresh := coherent.threads number
  unfold CacheState.handOff at taken
  dsimp only at taken
  split at taken
  · rename_i ready
    obtain rfl := Option.some.inj taken
    -- The references that nobody gives back are not those of the insert.
    have kept : ∀ holder page, ⟨.nobody, page⟩ ∈ state.refs →
        ⟨.nobody, page⟩ ∈ state.refs.map (pass number holder) := fun holder page lost =>
      List.mem_map.mpr ⟨_, lost, by simp [pass]⟩
    split
    · refine coherent.ofHandOff _ rfl rfl rfl rfl rfl
        (fresh.keep (fun _ member => member) (fun _ member => member) (fun _ member => member)
          (fun equal => by cases equal)) (fun _ _ pending => .inl pending) fun page unwritten => ?_
      rcases unwritten with ⟨writer, put⟩ | queued | lost
      · by_cases same : writer = number
        · subst same
          refine .inr (.inr (List.mem_map.mpr ⟨_, (accounted.threads writer).written put, ?_⟩))
          simp [pass]
        · refine .inl ⟨writer, ?_⟩
          simp only [CacheState.setThread, Function.update_of_ne same]
          exact put
      · exact .inr (.inl queued)
      · exact .inr (.inr (kept _ page lost))
    · refine coherent.ofHandOff _ rfl rfl rfl rfl rfl
        (fresh.keep (fun _ member => member) (fun _ member => member) (fun _ member => member)
          (fun equal => by cases equal)) (fun page copy pending => ?_) fun page unwritten => ?_
      · refine (List.mem_append.mp pending).imp_right fun mine => ?_
        simpa [bgTask] using mine
      · rcases unwritten with ⟨writer, put⟩ | ⟨copy, queued⟩ | lost
        · by_cases same : writer = number
          · subst same
            obtain ⟨entry, member, rfl⟩ := List.mem_map.mp put
            refine .inr (.inl ⟨entry.2, List.mem_append_right _ ?_⟩)
            simp [bgTask, member]
          · refine .inl ⟨writer, ?_⟩
            simp only [CacheState.setThread, Function.update_of_ne same]
            exact put
        · exact .inr (.inl ⟨copy, List.mem_append_left _ queued⟩)
        · exact .inr (.inr (kept _ page lost))
  · cases taken

theorem goOn {move : CacheStep Image} (coherent : state.Coherent) (accounted : state.Accounted)
    (locks : state.LocksPages) (newest : ∀ request copy, move = .put →
      (state.threads number).nextPut = some (request, copy) →
        copy.version + 1 = (state.images request.page).length)
    (taken : state.goOn number move = some next) : next.Coherent := by
  cases move with
  | call role => exact coherent.call accounted taken
  | read pages => exact coherent.read taken
  | lookup => exact coherent.lookup accounted taken
  | complete place => exact coherent.complete taken
  | put => exact coherent.put (fun request copy => newest request copy rfl) taken
  | gather => exact coherent.gather taken
  | lockPages pages => exact coherent.lockPages taken
  | lock => exact coherent.lock taken
  | edit image => exact coherent.edit taken
  | write => exact coherent.write accounted locks taken
  | handOff => exact coherent.handOff accounted taken
  | unlock => exact coherent.unlock taken
  | finish => exact coherent.finish taken
  | deref => exact coherent.deref taken
  | leave => exact coherent.leave accounted taken

theorem bgIo (coherent : state.Coherent) (taken : state.bgIo = some next) : next.Coherent := by
  have queued := coherent.queued
  have dirty := coherent.dirty
  unfold CacheState.bgIo at taken
  split at taken
  · cases taken
  · rename_i page copy rest pending
    obtain rfl := Option.some.inj taken
    rw [pending] at queued
    have latest := queued page copy List.mem_cons_self
    refine ⟨coherent.cached, fun other => ?_, fun other stale => ?_, coherent.written,
      fun other later member => queued other later (List.mem_cons_of_mem _ member),
      fun reader => (coherent.threads reader).writeDisk (coherent.disk page) latest⟩
    · by_cases same : other = page
      · subst same
        simp only [Function.update_self]
        exact latest.1
      · simp only [Function.update_of_ne same]
        exact coherent.disk other
    · by_cases same : other = page
      · subst same
        simp only [Function.update_self] at stale
        exact absurd latest stale
      · simp only [Function.update_of_ne same] at stale
        rcases dirty other stale with put | ⟨later, waiting⟩ | lost
        · exact .inl put
        · rw [pending] at waiting
          refine .inr (.inl ⟨later, (List.mem_cons.mp waiting).resolve_left ?_⟩)
          intro first
          cases first
          exact same rfl
        · exact .inr (.inr lost)
  · rename_i page rest pending
    obtain rfl := Option.some.inj taken
    rw [pending] at queued
    refine ⟨coherent.cached, coherent.disk, fun other stale => ?_, coherent.written,
      fun other later member => queued other later (List.mem_cons_of_mem _ member),
      coherent.threads⟩
    rcases dirty other stale with put | ⟨later, waiting⟩ | lost
    · exact .inl put
    · rw [pending] at waiting
      exact .inr (.inl ⟨later, (List.mem_cons.mp waiting).resolve_left nofun⟩)
    · exact .inr (.inr lost)
  · rename_i page rest pending
    obtain rfl := Option.some.inj taken
    rw [pending] at queued
    refine ⟨fun other item present => ?_, coherent.disk, fun other stale => ?_,
      coherent.written, fun other later member => queued other later (List.mem_cons_of_mem _ member),
      coherent.threads⟩
    · obtain ⟨before, found, same⟩ := PageCache.deref_keepsBytes _ _ other item present
      exact same ▸ coherent.cached other before found
    · rcases dirty other stale with put | ⟨later, waiting⟩ | lost
      · exact .inl put
      · rw [pending] at waiting
        exact .inr (.inl ⟨later, (List.mem_cons.mp waiting).resolve_left nofun⟩)
      · exact .inr (.inr ((List.mem_erase_of_ne (by simp)).mpr lost))

theorem init (disk : Nat → Image) : (CacheState.init disk).Coherent where
  cached _ _ present := nomatch present
  disk _ := rfl
  dirty _ stale := absurd ⟨rfl, rfl⟩ stale
  written _ _ member := nomatch member
  queued _ _ pending := nomatch pending
  threads _ := .none rfl rfl rfl

end Coherent

/-! ### Runs -/

/-- What the reads and writes of pages may rely on: a cached page has its latest bytes, a
call of the reader returns an image that is no older than the newest one at its start, and
an insert edits the newest images of the pages that it has locked. -/
structure KeepsCoherence (state : CacheState Image) : Prop where
  cached : ∀ page item, state.pages.cache page = some item →
    item.buf.Latest (state.images page)
  reads : ∀ number, ∀ entry ∈ (state.threads number).results,
    entry.2.Genuine (state.images entry.1.page) ∧ entry.1.since ≤ entry.2.version + 1
  rereads : ∀ number, (state.threads number).stage = .edit →
    ∀ entry ∈ (state.threads number).results,
      entry.1.page ∈ (state.threads number).pagesLocked →
        entry.2.Latest (state.images entry.1.page)

theorem Coherent.keepsCoherence (coherent : state.Coherent) : state.KeepsCoherence where
  cached := coherent.cached
  reads number := (coherent.threads number).results
  rereads number := (coherent.threads number).reread

/-- `read_alloc` puts the newest image of the page. -/
def PutsNewest (state : CacheState Image) : CacheAction Image → Prop
  | .step number .put => ∀ request copy, (state.threads number).nextPut = some (request, copy) →
      copy.version + 1 = (state.images request.page).length
  | _ => True

/-- A step of the calls and of the background thread, without a merge. -/
def callStep (state : CacheState Image) : CacheAction Image → Option (CacheState Image)
  | .step number move => state.goOn number move
  | .bgIo => state.bgIo
  | .flush | .clear => none

/-- What holds along the runs of calls. -/
structure Sound (state : CacheState Image) : Prop where
  accounted : state.Accounted
  locks : state.LocksPages
  coherent : state.Coherent

theorem Sound.step {action : CacheAction Image} (sound : state.Sound)
    (admitted : PutsNewest state action) (taken : state.callStep action = some next) :
    next.Sound := by
  cases action with
  | step number move =>
    refine ⟨sound.accounted.goOn taken, sound.locks.goOn sound.accounted taken,
      sound.coherent.goOn sound.accounted sound.locks ?_ taken⟩
    rintro request copy rfl
    exact admitted request copy
  | bgIo =>
    exact ⟨sound.accounted.bgIoStep taken, sound.locks.bgIo taken, sound.coherent.bgIo taken⟩
  | flush => cases taken
  | clear => cases taken

theorem Sound.init (disk : Nat → Image) : (CacheState.init disk).Sound :=
  ⟨.init disk, .init disk, .init disk⟩

/-- A put after which the cache is coherent is one of the newest image. -/
theorem newest_of_put (taken : state.put number = some next) (coherent : next.KeepsCoherence)
    {request : ReadRequest} {copy : Copy Image}
    (ready : (state.threads number).nextPut = some (request, copy)) :
    copy.version + 1 = (state.images request.page).length := by
  unfold CacheState.put at taken
  dsimp only at taken
  rw [ready] at taken
  obtain rfl := Option.some.inj taken
  obtain ⟨item, cached, rfl⟩ := PageCache.put_self state.pages request.page copy true
  exact (coherent.cached request.page item cached).2

end CacheState

/-- The system of the calls and the background thread. -/
def callSystem (Image : Type) : Transition.System (CacheState Image) (CacheAction Image) where
  initial state := ∃ disk, state = CacheState.init disk
  step := CacheState.callStep

namespace CacheState

/-- In every run the page cache is coherent after each step if and only if `read_alloc` puts
newest images only. -/
theorem page_cache_is_coherent (disk : Nat → Image) (actions : List (CacheAction Image)) :
    (callSystem Image).Along
        (fun state action => ∀ next, state.callStep action = some next → next.KeepsCoherence)
        (CacheState.init disk) actions ↔
      (callSystem Image).Along PutsNewest (CacheState.init disk) actions := by
  constructor
  · refine Transition.System.Along.imply (fun _ => True) (fun _ _ _ _ _ _ => trivial)
      (fun state action _ keeps => ?_) trivial
    unfold PutsNewest
    split
    · rename_i number
      intro request copy ready
      have taken : state.put number = some _ := Option.map_eq_some_iff.mpr ⟨_, ready, rfl⟩
      exact newest_of_put taken (keeps _ taken) ready
    · trivial
  · exact Transition.System.Along.imply Sound
      (fun _ _ _ before admitted taken => before.step admitted taken)
      (fun _ _ before admitted _ taken => (before.step admitted taken).coherent.keepsCoherence)
      (Sound.init disk)

/-- A search has read a page from disk when an insert writes it, and puts it afterwards;
another search reads the page then. -/
def stalePut : List (CacheAction Nat) :=
  [.step 0 (.call .beamSearch), .step 0 (.read [7]), .step 0 .lookup, .step 0 (.complete 0),
    .step 1 (.call .insertInPlace), .step 1 (.read [3]), .step 1 .lookup, .step 1 (.complete 0),
    .step 1 .put, .step 1 .gather, .step 1 (.lockPages [7]), .step 1 .lock, .step 1 (.read [7]),
    .step 1 .lookup, .step 1 (.complete 0), .step 1 .put, .step 1 .gather,
    .step 1 (.edit fun _ => 1), .step 1 .write, .step 0 .put, .step 2 (.call .beamSearch),
    .step 2 (.read [7]), .step 2 .lookup]

/-- The second search returns the bytes from before the write. -/
theorem search_reads_overwritten_page :
    ∃ state, (callSystem Nat).Reachable Transition.anyStep state ∧
      state.images 7 = [0, 1] ∧ (state.threads 2).results = [(⟨7, 2⟩, ⟨0, 0⟩)] ∧
      ¬state.KeepsCoherence := by
  have results : (((callSystem Nat).after (CacheState.init fun _ => 0) stalePut).threads 2).results
      = [(⟨7, 2⟩, ⟨0, 0⟩)] := by decide +kernel
  refine ⟨(callSystem Nat).after (CacheState.init fun _ => 0) stalePut,
    Transition.System.Reachable.after (.initial ⟨_, rfl⟩) Transition.System.along_anyStep,
    by decide +kernel, results, fun keeps => ?_⟩
  have fresh := (keeps.reads 2 _ (results ▸ List.mem_cons_self)).2
  exact absurd fresh (by decide)

end CacheState

end OdinVector
