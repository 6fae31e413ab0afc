/-
This file models `v2::PageCache`: a table of page buffers with reference
counts. A `get` or a `put` may take a reference, `deref` gives one back and
frees the buffer with the last of them, and `clear` drops the table.

The state keeps what the operations leave outside the table: the buffers that
are allocated for a page and not freed, and the lines that `deref` logs for a
page that is absent.

The abstract view of the cache is a list of references with their holders. The
cache is balanced with such a list when every count is the number of references
to its page; each operation is proved to keep the balance when the list changes
by the reference it takes or gives back.
-/

import Mathlib.Data.List.Basic
import Mathlib.Logic.Function.Basic

namespace OdinVector

/-- `PageCacheItem`. -/
structure PageCacheItem (Buf : Type) where
  buf : Buf
  refCnt : Nat
  deriving DecidableEq

namespace PageCacheItem

variable {Buf : Type}

/-- `ref`. -/
def ref (item : PageCacheItem Buf) : PageCacheItem Buf := { item with refCnt := item.refCnt + 1 }

/-- `deref`. -/
def deref (item : PageCacheItem Buf) : PageCacheItem Buf := { item with refCnt := item.refCnt - 1 }

end PageCacheItem

/-- `PageCache`, with the buffers it has allocated and the errors it has logged. -/
structure PageCache (Buf : Type) where
  cache : Nat → Option (PageCacheItem Buf)
  /-- How many buffers of a page are allocated and not freed. -/
  allocated : Nat → Nat
  /-- The pages of the lines "deref a non-exist block_no". -/
  errors : List Nat

namespace PageCache

variable {Buf Holder : Type}

/-- A table without entries. -/
def empty : PageCache Buf := ⟨fun _ => none, fun _ => 0, []⟩

/-- `get`: the buffer when the page is cached. -/
def get (pages : PageCache Buf) (blockNo : Nat) (ref : Bool) : Option (PageCache Buf × Buf) :=
  (pages.cache blockNo).map fun item =>
    ({ pages with
        cache := Function.update pages.cache blockNo (some (if ref then item.ref else item)) },
      item.buf)

/-- `put`: the page is cached, with a new buffer if it was not, and its buffer overwritten. -/
def put (pages : PageCache Buf) (blockNo : Nat) (value : Buf) (ref : Bool) : PageCache Buf :=
  match pages.cache blockNo with
  | some item =>
    { pages with
      cache := Function.update pages.cache blockNo
        (some { (if ref then item.ref else item) with buf := value }) }
  | none =>
    { pages with
      cache := Function.update pages.cache blockNo
        (some ⟨value, if ref then 1 else 0⟩)
      allocated := Function.update pages.allocated blockNo (pages.allocated blockNo + 1) }

/-- `deref`: the buffer is freed and the entry erased with the last reference. A page that is
absent is inserted, logged and erased again. -/
def deref (pages : PageCache Buf) (blockNo : Nat) : PageCache Buf :=
  match pages.cache blockNo with
  | some item =>
    if item.deref.refCnt = 0 then
      { pages with
        cache := Function.update pages.cache blockNo none
        allocated := Function.update pages.allocated blockNo (pages.allocated blockNo - 1) }
    else
      { pages with cache := Function.update pages.cache blockNo (some item.deref) }
  | none => { pages with errors := blockNo :: pages.errors }

/-- `clear`: the entries go, and their buffers are not freed. -/
def clear (pages : PageCache Buf) : PageCache Buf := { pages with cache := fun _ => none }

/-- A `get` without a reference changes nothing. -/
theorem get_unreferenced {pages next : PageCache Buf} {page : Nat} {buf : Buf}
    (hit : pages.get page false = some (next, buf)) : next = pages := by
  obtain ⟨item, cached, same⟩ := Option.map_eq_some_iff.mp hit
  obtain rfl : _ = next := congrArg Prod.fst same
  have unchanged : Function.update pages.cache page (some item) = pages.cache := by
    rw [← cached, Function.update_eq_self]
  simp only [Bool.false_eq_true, if_false, unchanged]

/-! ### Buffers -/

/-- Every entry of a table has the bytes that it had in another. -/
def KeepsBytes (next pages : PageCache Buf) : Prop :=
  ∀ page item, next.cache page = some item →
    ∃ before, pages.cache page = some before ∧ before.buf = item.buf

theorem get_keepsBytes {pages next : PageCache Buf} {page : Nat} {buf : Buf} {ref : Bool}
    (hit : pages.get page ref = some (next, buf)) :
    KeepsBytes next pages ∧ ∃ item, pages.cache page = some item ∧ item.buf = buf := by
  obtain ⟨item, cached, same⟩ := Option.map_eq_some_iff.mp hit
  obtain ⟨rfl, rfl⟩ := Prod.mk.inj same
  refine ⟨fun other found present => ?_, item, cached, rfl⟩
  by_cases here : other = page
  · subst here
    simp only [Function.update_self, Option.some.injEq] at present
    refine ⟨item, cached, ?_⟩
    rw [← present]
    split <;> rfl
  · simp only [Function.update_of_ne here] at present
    exact ⟨found, present, rfl⟩

/-- A page that is missed is not in the table. -/
theorem get_eq_none {pages : PageCache Buf} {page : Nat} {ref : Bool} :
    pages.get page ref = none ↔ pages.cache page = none := Option.map_eq_none_iff

theorem deref_keepsBytes (pages : PageCache Buf) (page : Nat) :
    KeepsBytes (pages.deref page) pages := by
  intro other found present
  unfold PageCache.deref at present
  split at present
  · rename_i item cached
    by_cases here : other = page
    · subst here
      split at present
      · simp only [Function.update_self, reduceCtorEq] at present
      · simp only [Function.update_self, Option.some.injEq] at present
        exact ⟨item, cached, present ▸ rfl⟩
    · refine ⟨found, ?_, rfl⟩
      split at present <;> simpa only [Function.update_of_ne here] using present
  · exact ⟨found, present, rfl⟩

/-- After a `put` the page has the bytes that were put, and the others have theirs. -/
theorem put_cases {pages : PageCache Buf} {page other : Nat} {value : Buf} {ref : Bool}
    {item : PageCacheItem Buf} (present : (pages.put page value ref).cache other = some item) :
    other = page ∧ item.buf = value ∨ other ≠ page ∧ pages.cache other = some item := by
  unfold PageCache.put at present
  by_cases here : other = page
  · subst here
    refine .inl ⟨rfl, ?_⟩
    split at present <;> simp only [Function.update_self, Option.some.injEq] at present <;>
      rw [← present]
  · refine .inr ⟨here, ?_⟩
    split at present <;> simpa only [Function.update_of_ne here] using present

theorem put_self (pages : PageCache Buf) (page : Nat) (value : Buf) (ref : Bool) :
    ∃ item, (pages.put page value ref).cache page = some item ∧ item.buf = value := by
  unfold PageCache.put
  split <;> exact ⟨_, Function.update_self _ _ _, rfl⟩

/-! ### References -/

/-- A reference that has been taken and not given back, with who is to give it back. -/
structure Reference (Holder : Type) where
  holder : Holder
  page : Nat
  deriving DecidableEq

/-- The number of references to a page. -/
def outstanding (refs : List (Reference Holder)) (page : Nat) : Nat :=
  (refs.map Reference.page).count page

@[simp] theorem outstanding_cons (ref : Reference Holder) (refs : List (Reference Holder))
    (page : Nat) : outstanding (ref :: refs) page =
      outstanding refs page + if ref.page = page then 1 else 0 := by
  simp [outstanding, List.count_cons]

theorem outstanding_pos {refs : List (Reference Holder)} {ref : Reference Holder}
    (member : ref ∈ refs) : 0 < outstanding refs ref.page :=
  List.count_pos_iff.mpr (List.mem_map_of_mem member)

/-- Giving back a reference takes one off the count of its page. -/
theorem outstanding_erase [DecidableEq Holder] {refs : List (Reference Holder)}
    {ref : Reference Holder} (member : ref ∈ refs) (page : Nat) :
    outstanding (refs.erase ref) page + (if ref.page = page then 1 else 0) =
      outstanding refs page := by
  rw [← outstanding_cons]
  exact ((List.perm_cons_erase member).map Reference.page).count_eq page |>.symm

/-- References that pass to other holders are still references to the same pages. -/
theorem outstanding_map (refs : List (Reference Holder)) (pass : Holder → Holder) (page : Nat) :
    outstanding (refs.map fun ref => { ref with holder := pass ref.holder }) page =
      outstanding refs page := by
  rw [outstanding, outstanding, List.map_map]
  rfl

/-! ### The balance -/

/-- The count of an entry is the number of references to its page. An entry has a reference
and the only buffer of its page; without an entry there is neither. -/
def EntryBalanced (refs allocated : Nat) : Option (PageCacheItem Buf) → Prop
  | some item => item.refCnt = refs ∧ 0 < refs ∧ allocated = 1
  | none => refs = 0 ∧ allocated = 0

/-- Every entry is balanced and no reference was given back twice. -/
structure Balanced (pages : PageCache Buf) (refs : List (Reference Holder)) : Prop where
  entries : ∀ page, EntryBalanced (outstanding refs page) (pages.allocated page)
    (pages.cache page)
  noErrors : pages.errors = []

namespace Balanced

variable {pages next : PageCache Buf} {refs left : List (Reference Holder)}

theorem empty : Balanced (PageCache.empty : PageCache Buf) ([] : List (Reference Holder)) where
  entries _ := ⟨rfl, rfl⟩
  noErrors := rfl

/-- A page to which there is a reference is cached. -/
theorem cached (balanced : pages.Balanced refs) {ref : Reference Holder} (member : ref ∈ refs) :
    ∃ item, pages.cache ref.page = some item := by
  have entry := balanced.entries ref.page
  cases found : pages.cache ref.page with
  | none =>
    rw [found] at entry
    exact absurd entry.1 (Nat.ne_of_gt (outstanding_pos member))
  | some item => exact ⟨item, rfl⟩

/-- The balance depends on the number of references to each page only. -/
theorem congr (balanced : pages.Balanced refs)
    (same : ∀ page, outstanding left page = outstanding refs page) : pages.Balanced left where
  entries page := by
    rw [same]
    exact balanced.entries page
  noErrors := balanced.noErrors

/-- An operation on one page keeps the balance when it keeps that of its page. -/
theorem edit (balanced : pages.Balanced refs) (page : Nat)
    (here : EntryBalanced (outstanding left page) (next.allocated page) (next.cache page))
    (elsewhere : ∀ other, other ≠ page → next.cache other = pages.cache other ∧
      next.allocated other = pages.allocated other ∧
      outstanding left other = outstanding refs other)
    (errors : next.errors = pages.errors) : next.Balanced left where
  entries other := by
    by_cases same : other = page
    · subst same
      exact here
    · obtain ⟨cache, allocated, count⟩ := elsewhere other same
      rw [cache, allocated, count]
      exact balanced.entries other
  noErrors := errors.trans balanced.noErrors

theorem get {page : Nat} {buf : Buf} (balanced : pages.Balanced refs)
    (holder : Holder) (hit : pages.get page true = some (next, buf)) :
    next.Balanced (⟨holder, page⟩ :: refs) := by
  obtain ⟨item, cached, same⟩ := Option.map_eq_some_iff.mp hit
  obtain rfl : _ = next := congrArg Prod.fst same
  have before := balanced.entries page
  rw [cached] at before
  refine balanced.edit page ?_ (fun other different => ?_) rfl
  · simp only [Function.update_self, outstanding_cons, if_true]
    exact ⟨congrArg (· + 1) before.1, Nat.succ_pos _, before.2.2⟩
  · simp only [Function.update_of_ne different, outstanding_cons, if_neg (Ne.symm different)]
    exact ⟨trivial, trivial, rfl⟩

theorem put (balanced : pages.Balanced refs) (holder : Holder) (page : Nat) (value : Buf) :
    (pages.put page value true).Balanced (⟨holder, page⟩ :: refs) := by
  have before := balanced.entries page
  unfold PageCache.put
  split
  · rename_i item cached
    rw [cached] at before
    refine balanced.edit page ?_ (fun other different => ?_) rfl
    · simp only [Function.update_self, outstanding_cons, if_true]
      exact ⟨congrArg (· + 1) before.1, Nat.succ_pos _, before.2.2⟩
    · simp only [Function.update_of_ne different, outstanding_cons, if_neg (Ne.symm different)]
      exact ⟨trivial, trivial, rfl⟩
  · rename_i missing
    rw [missing] at before
    refine balanced.edit page ?_ (fun other different => ?_) rfl
    · simp only [Function.update_self, outstanding_cons, if_true, before.1, before.2]
      exact ⟨rfl, Nat.one_pos, rfl⟩
    · simp only [Function.update_of_ne different, outstanding_cons, if_neg (Ne.symm different)]
      exact ⟨trivial, trivial, rfl⟩

theorem deref [DecidableEq Holder] (balanced : pages.Balanced refs) {holder : Holder}
    {page : Nat} (member : ⟨holder, page⟩ ∈ refs) :
    (pages.deref page).Balanced (refs.erase ⟨holder, page⟩) := by
  obtain ⟨item, cached⟩ := balanced.cached member
  have before := balanced.entries page
  rw [cached] at before
  have erased := fun other => outstanding_erase member other
  have unchanged : ∀ other, other ≠ page →
      outstanding (refs.erase ⟨holder, page⟩) other = outstanding refs other := by
    intro other different
    simpa only [if_neg (Ne.symm different), Nat.add_zero] using erased other
  have less := erased page
  simp only [if_true] at less
  have count : item.deref.refCnt = outstanding (refs.erase ⟨holder, page⟩) page := by
    have counted := before.1
    show item.refCnt - 1 = _
    omega
  unfold PageCache.deref
  rw [cached]
  dsimp only
  split
  · rename_i last
    refine balanced.edit page ?_ (fun other different => ?_) rfl
    · simp only [Function.update_self, before.2.2]
      exact ⟨count ▸ last, rfl⟩
    · simp only [Function.update_of_ne different]
      exact ⟨trivial, trivial, unchanged other different⟩
  · rename_i more
    refine balanced.edit page ?_ (fun other different => ?_) rfl
    · simp only [Function.update_self]
      exact ⟨count, Nat.pos_of_ne_zero (count ▸ more), before.2.2⟩
    · simp only [Function.update_of_ne different]
      exact ⟨trivial, trivial, unchanged other different⟩

/-- Clearing is harmless when nobody has a reference: there is nothing to clear. -/
theorem clear (balanced : pages.Balanced refs) (unreferenced : refs = []) :
    pages.clear.Balanced refs where
  entries page := by
    have entry := balanced.entries page
    subst unreferenced
    cases cached : pages.cache page with
    | none =>
      rw [cached] at entry
      exact entry
    | some item =>
      rw [cached] at entry
      exact absurd entry.2.1 (Nat.lt_irrefl 0)
  noErrors := balanced.noErrors

end Balanced

end PageCache

end OdinVector
