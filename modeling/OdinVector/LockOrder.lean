/-
This file is a small library about the order in which threads take locks. Locks
are placed on levels of a linear order. When every thread of a set waits for a
lock above all it holds, the set has no circular wait: the thread that waits for
the highest lock waits for a holder that waits higher still.

The rules are checked on programs. A program is a list of instructions that take
a lock, give one back, or mark a point where nothing from a given level up is in
hand; `Disciplined` says that a program started with some locks in hand takes
every lock above all it holds at that point and gives back only what it holds.
-/

import Mathlib.Data.Finset.Max
import Mathlib.Data.List.Perm.Basic

namespace LockOrder

/-! ### Circular waits -/

section CircularWait

variable {Thread Lock Level : Type} [LinearOrder Level]

/-- A non-empty set of threads, each of which waits for a lock that another one of the set
holds. -/
def CircularWait (waits : Thread → Lock → Prop) (holds : Thread → Lock → Prop)
    (threads : Finset Thread) : Prop :=
  threads.Nonempty ∧ ∀ thread ∈ threads, ∃ lock, waits thread lock ∧
    ∃ holder ∈ threads, holder ≠ thread ∧ holds holder lock

/-- No set of threads waits in a circle when each waits only for locks above all it holds. -/
theorem not_circularWait {waits holds : Thread → Lock → Prop} (level : Lock → Level)
    {threads : Finset Thread}
    (ascending : ∀ thread ∈ threads, ∀ lock, waits thread lock →
      ∀ held, holds thread held → level held < level lock) :
    ¬ CircularWait waits holds threads := by
  rintro ⟨nonempty, circular⟩
  obtain ⟨first, firstMember⟩ := nonempty
  obtain ⟨lock, _⟩ := circular first firstMember
  have : Nonempty Lock := ⟨lock⟩
  choose! wanted waiting holder member _ held using circular
  obtain ⟨top, topMember, highest⟩ :=
    threads.exists_max_image (fun thread => level (wanted thread)) ⟨first, firstMember⟩
  have above : level (wanted top) < level (wanted (holder top)) :=
    ascending (holder top) (member top topMember) _
      (waiting (holder top) (member top topMember)) _ (held top topMember)
  exact absurd (highest (holder top) (member top topMember)) (not_le.mpr above)

end CircularWait

/-! ### Disciplined programs -/

/-- What one step of a program does to the locks in hand. -/
inductive Instruction (Lock Level : Type)
  /-- Wait for a lock and take it. -/
  | acquire (lock : Lock)
  /-- Give a lock back. -/
  | release (lock : Lock)
  /-- Nothing at or above a level is in hand here. -/
  | fence (bound : Level)
  /-- Nothing that concerns locks. -/
  | skip

/-- The rules that a program is held to. -/
structure Rules (Lock Level : Type) where
  /-- Where the locks stand in the order. -/
  level : Lock → Level
  /-- Locks are taken in ascending order. -/
  ordered : Prop
  /-- The locks that are given back only when they are in hand. -/
  owned : Lock → Prop

variable {Lock Level : Type} [DecidableEq Lock] [LinearOrder Level]

namespace Instruction

/-- The locks in hand after an instruction. -/
def after : Instruction Lock Level → List Lock → List Lock
  | .acquire lock, held => lock :: held
  | .release lock, held => held.erase lock
  | .fence _, held => held
  | .skip, held => held

/-- What an instruction asks of the locks in hand. -/
def Admits (rules : Rules Lock Level) : Instruction Lock Level → List Lock → Prop
  | .acquire lock, held => rules.ordered → ∀ other ∈ held, rules.level other < rules.level lock
  | .release lock, held => rules.owned lock → lock ∈ held
  | .fence bound, held => rules.ordered → ∀ other ∈ held, rules.level other < bound
  | .skip, _ => True

omit [LinearOrder Level] in
theorem after_perm (instruction : Instruction Lock Level) {held others : List Lock}
    (same : held.Perm others) : (instruction.after held).Perm (instruction.after others) := by
  cases instruction with
  | acquire lock => exact same.cons lock
  | release lock => exact same.erase lock
  | fence bound => exact same
  | skip => exact same

omit [DecidableEq Lock] in
theorem admits_perm (instruction : Instruction Lock Level) {rules : Rules Lock Level}
    {held others : List Lock} (same : held.Perm others)
    (admits : instruction.Admits rules held) : instruction.Admits rules others := by
  cases instruction with
  | acquire lock => exact fun ordered other member => admits ordered other (same.mem_iff.mpr member)
  | release lock => exact fun owned => same.mem_iff.mp (admits owned)
  | fence bound => exact fun ordered other member => admits ordered other (same.mem_iff.mpr member)
  | skip => trivial

end Instruction

/-- A program started with some locks in hand keeps to the rules at every step. -/
def Disciplined (rules : Rules Lock Level) : List Lock → List (Instruction Lock Level) → Prop
  | _, [] => True
  | held, instruction :: rest =>
      instruction.Admits rules held ∧ Disciplined rules (instruction.after held) rest

namespace Disciplined

variable {rules : Rules Lock Level} {held base : List Lock}
  {rest : List (Instruction Lock Level)}

/-- The order of the locks in hand does not matter. -/
theorem perm {program : List (Instruction Lock Level)} :
    ∀ {held others : List Lock}, held.Perm others → Disciplined rules held program →
      Disciplined rules others program := by
  induction program with
  | nil => intros; trivial
  | cons instruction rest inductionHypothesis =>
    intro held others same disciplined
    exact ⟨instruction.admits_perm same disciplined.1,
      inductionHypothesis (instruction.after_perm same) disciplined.2⟩

/-- The first part of a program. -/
theorem left {program : List (Instruction Lock Level)}
    (disciplined : Disciplined rules held (program ++ rest)) : Disciplined rules held program := by
  induction program generalizing held with
  | nil => trivial
  | cons _ _ inductionHypothesis => exact ⟨disciplined.1, inductionHypothesis disciplined.2⟩

/-- Steps that do not concern locks. -/
theorem skips {Item : Type} (items : List Item) (disciplined : Disciplined rules held rest) :
    Disciplined rules held (items.map (fun _ => .skip) ++ rest) := by
  induction items with
  | nil => exact disciplined
  | cons _ _ inductionHypothesis => exact ⟨trivial, inductionHypothesis⟩

/-- Taking an ascending list of locks, all above those in hand, and going on with all of them
in hand. -/
theorem acquires {locks : List Lock}
    (above : rules.ordered → ∀ other ∈ held, ∀ lock ∈ locks, rules.level other < rules.level lock)
    (sorted : locks.Pairwise fun first second => rules.level first < rules.level second)
    (disciplined : Disciplined rules (locks ++ held) rest) :
    Disciplined rules held (locks.map .acquire ++ rest) := by
  induction locks generalizing held with
  | nil => exact disciplined
  | cons lock others inductionHypothesis =>
    rw [List.pairwise_cons] at sorted
    refine ⟨fun ordered other member => above ordered other member lock List.mem_cons_self, ?_⟩
    refine inductionHypothesis ?_ sorted.2 (disciplined.perm List.perm_middle.symm)
    intro ordered other member later laterMember
    rcases List.mem_cons.mp member with rfl | old
    · exact sorted.1 later laterMember
    · exact above ordered other old later (List.mem_cons_of_mem _ laterMember)

/-- Giving back locks that are in hand, and going on with the others. -/
theorem releases {locks : List Lock} (inHand : held.Perm (locks ++ base))
    (disciplined : Disciplined rules base rest) :
    Disciplined rules held (locks.map .release ++ rest) := by
  induction locks generalizing held with
  | nil => exact disciplined.perm inHand.symm
  | cons lock others inductionHypothesis =>
    refine ⟨fun _ => inHand.mem_iff.mpr List.mem_cons_self, inductionHypothesis ?_⟩
    have := inHand.erase lock
    rwa [List.cons_append, List.erase_cons_head] at this

/-- A lock that a program gives back is in hand, or the program takes it first. -/
theorem inHand {program : List (Instruction Lock Level)} {lock : Lock} (owned : rules.owned lock)
    (disciplined : Disciplined rules held (program ++ .release lock :: rest)) :
    lock ∈ held ∨ .acquire lock ∈ program := by
  induction program generalizing held with
  | nil => exact .inl (disciplined.1 owned)
  | cons instruction others inductionHypothesis =>
    rcases inductionHypothesis disciplined.2 with inHand | later
    · cases instruction with
      | acquire other =>
        rcases List.mem_cons.mp inHand with rfl | before
        · exact .inr List.mem_cons_self
        · exact .inl before
      | release other => exact .inl (List.mem_of_mem_erase inHand)
      | fence bound => exact .inl inHand
      | skip => exact .inl inHand
    · exact .inr (List.mem_cons_of_mem _ later)

/-- What a program that gives back owned locks says about the locks in hand. -/
theorem of_releases {locks : List Lock} (owned : ∀ lock ∈ locks, rules.owned lock)
    (disciplined : Disciplined rules held (locks.map .release ++ rest)) :
    ∃ base, held.Perm (locks ++ base) ∧ Disciplined rules base rest := by
  induction locks generalizing held with
  | nil => exact ⟨held, .refl _, disciplined⟩
  | cons lock others inductionHypothesis =>
    obtain ⟨admits, later⟩ := disciplined
    obtain ⟨base, same, remaining⟩ :=
      inductionHypothesis (fun other member => owned other (List.mem_cons_of_mem _ member)) later
    have inHand : lock ∈ held := admits (owned lock List.mem_cons_self)
    exact ⟨base, (List.perm_cons_erase inHand).trans (same.cons lock), remaining⟩

/-- Giving back locks that need not be in hand leaves the others in hand. -/
theorem unowned {locks kept : List Lock} (free : ∀ lock ∈ locks, ¬ rules.owned lock)
    (different : ∀ lock ∈ locks, lock ∉ kept)
    (disciplined : ∀ base, Disciplined rules (kept ++ base) rest) :
    Disciplined rules (kept ++ base) (locks.map .release ++ rest) := by
  induction locks generalizing base with
  | nil => exact disciplined base
  | cons lock others inductionHypothesis =>
    refine ⟨fun owned => absurd owned (free lock List.mem_cons_self), ?_⟩
    rw [Instruction.after, List.erase_append_right _ (different lock List.mem_cons_self)]
    exact inductionHypothesis (fun other member => free other (List.mem_cons_of_mem _ member))
      (fun other member => different other (List.mem_cons_of_mem _ member))

/-- A program that only gives locks back goes on when more locks come into hand, and can give
them back in the end. -/
theorem append_releases {program : List (Instruction Lock Level)}
    (onlyReleases : ∀ instruction ∈ program, instruction = .skip ∨
      ∃ lock, rules.owned lock ∧ instruction = .release lock) {extra : List Lock}
    (later : ∀ base, Disciplined rules (extra ++ base) rest)
    (disciplined : Disciplined rules held program) :
    Disciplined rules (extra ++ held) (program ++ rest) := by
  induction program generalizing held with
  | nil => exact later held
  | cons instruction others inductionHypothesis =>
    have remaining := fun other member => onlyReleases other (List.mem_cons_of_mem _ member)
    rcases onlyReleases instruction List.mem_cons_self with rfl | ⟨lock, owned, rfl⟩
    · exact ⟨trivial, inductionHypothesis remaining disciplined.2⟩
    · have inHand : lock ∈ held := disciplined.1 owned
      refine ⟨fun _ => List.mem_append_right _ inHand, ?_⟩
      refine (inductionHypothesis remaining disciplined.2).perm ?_
      exact (List.perm_cons lock).mp <| List.perm_middle.symm.trans <|
        ((List.perm_cons_erase inHand).symm.append_left extra).trans <|
          List.perm_cons_erase (List.mem_append_right _ inHand)

end Disciplined

end LockOrder
