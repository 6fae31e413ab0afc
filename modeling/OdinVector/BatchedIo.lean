/-
This file models `execute_io`: the requests of a batch are submitted to a ring and their
completions are waited for, and the batch is submitted again if one of them has failed.

A completion that has failed is not marked as seen, so it stays at the head of the queue and
is the first one that the next attempt waits for. The number of requests is not compared with
the size of the ring, nor the result of a completion with the length of its request.
-/

import Mathlib.Data.List.Nodup
import Mathlib.Data.List.Perm.Basic

namespace OdinVector

/-- `MAX_EVENTS`. -/
def maxEvents : Nat := 256

/-- A completion: the request it is for, and `cqe->res`, which is an error or a number of bytes.
The code does not see the request. -/
structure Completion where
  request : Nat
  res : Int
  deriving DecidableEq

/-- How waiting for the completions of an attempt ends, with the completions that are left in
the queue. -/
inductive WaitResult
  | finished (queue seen : List Completion)
  | failed (queue : List Completion)
  /-- The queue is empty and nothing more arrives. -/
  | blocked

/-- The second loop of `execute_io`, for the requests that are left. -/
def waitCompletions : Nat → List Completion → List Completion → WaitResult
  | 0, queue, seen => .finished queue seen
  | _ + 1, [], _ => .blocked
  | left + 1, cqe :: queue, seen =>
    if cqe.res < 0 then .failed (cqe :: queue) else waitCompletions left queue (seen ++ [cqe])

/-- What comes of a call. -/
inductive IoResult
  /-- `io_uring_get_sqe` has returned null. -/
  | crashed
  | returned (queue seen : List Completion)
  /-- The call has not returned. -/
  | running

/-- `execute_io` for at most `fuel` attempts. `arrivals` are the completions that the queue gets
during an attempt, in the order in which they arrive. -/
def executeIo (requests : Nat) (arrivals : Nat → List Completion) :
    Nat → Nat → List Completion → IoResult
  | 0, _, _ => .running
  | fuel + 1, attempt, queue =>
    if maxEvents < requests then .crashed
    else
      match waitCompletions requests (queue ++ arrivals attempt) [] with
      | .finished queue seen => .returned queue seen
      | .failed queue => executeIo requests arrivals fuel (attempt + 1) queue
      | .blocked => .running

/-- Each request of the first attempt gets one completion. What arrives in later attempts is left
open. -/
def EachCompletes (lengths : List Nat) (arrivals : Nat → List Completion) : Prop :=
  ((arrivals 0).map Completion.request).Perm (List.range lengths.length)

/-- The call returns, has transferred all requests completely in one attempt and leaves no
completion. -/
def Transfers (lengths : List Nat) (arrivals : Nat → List Completion) : Prop :=
  ∃ fuel seen, executeIo lengths.length arrivals fuel 0 [] = .returned [] seen ∧
    ∀ (request : Nat) (length : Nat), lengths[request]? = some length →
      ∃ cqe ∈ seen, cqe.request = request ∧ cqe.res = length

/-! ### One attempt -/

/-- An attempt sees all completions, unless one of them is an error. -/
theorem waitCompletions_finished : ∀ (queue seen : List Completion),
    (∀ cqe ∈ queue, 0 ≤ cqe.res) →
      waitCompletions queue.length queue seen = .finished [] (seen ++ queue)
  | [], seen, _ => by
    rw [List.append_nil]
    rfl
  | cqe :: queue, seen, transferred => by
    show (if cqe.res < 0 then _ else waitCompletions queue.length queue (seen ++ [cqe])) = _
    rw [if_neg (Int.not_lt.mpr (transferred cqe List.mem_cons_self)),
      waitCompletions_finished queue _ fun other member =>
        transferred other (List.mem_cons_of_mem _ member), List.append_assoc, List.singleton_append]

/-- After an error the attempt leaves it at the head of the queue. -/
theorem waitCompletions_failed : ∀ (queue seen : List Completion),
    (∃ cqe ∈ queue, cqe.res < 0) →
      ∃ cqe rest, waitCompletions queue.length queue seen = .failed (cqe :: rest) ∧ cqe.res < 0
  | [], _, error => error.elim fun _ both => absurd both.1 List.not_mem_nil
  | cqe :: queue, seen, error => by
    show ∃ _ _, (if cqe.res < 0 then _ else waitCompletions queue.length queue (seen ++ [cqe])) = _ ∧ _
    by_cases negative : cqe.res < 0
    · rw [if_pos negative]
      exact ⟨cqe, queue, rfl, negative⟩
    · rw [if_neg negative]
      obtain ⟨other, member, isError⟩ := error
      rcases List.mem_cons.mp member with rfl | later
      · exact absurd isError negative
      · exact waitCompletions_failed queue _ ⟨other, later, isError⟩

/-- With an error at the head of the queue no attempt ends well, whatever arrives. -/
theorem executeIo_stuck {requests : Nat} (nonempty : 0 < requests) (arrivals : Nat → List Completion)
    {cqe : Completion} (negative : cqe.res < 0) :
    ∀ (fuel attempt : Nat) (rest queue seen : List Completion),
      executeIo requests arrivals fuel attempt (cqe :: rest) ≠ .returned queue seen := by
  obtain ⟨left, rfl⟩ := Nat.exists_eq_succ_of_ne_zero (Nat.ne_of_gt nonempty)
  intro fuel
  induction fuel with
  | zero => exact fun attempt rest queue seen => IoResult.noConfusion
  | succ fuel inductionHypothesis =>
    intro attempt rest queue seen
    unfold executeIo
    split
    · exact IoResult.noConfusion
    · have head : waitCompletions (left + 1) (cqe :: rest ++ arrivals attempt) [] =
          .failed (cqe :: (rest ++ arrivals attempt)) := if_pos negative
      rw [head]
      exact inductionHypothesis (attempt + 1) _ queue seen

/-! ### When a batch is transferred -/

theorem EachCompletes.length {lengths : List Nat} {arrivals : Nat → List Completion}
    (each : EachCompletes lengths arrivals) : (arrivals 0).length = lengths.length := by
  have same := each.length_eq
  rwa [List.length_map, List.length_range] at same

/-- A call that starts with an empty queue, after its first attempt. -/
theorem executeIo_first {lengths : List Nat} {arrivals : Nat → List Completion}
    (each : EachCompletes lengths arrivals) (fits : lengths.length ≤ maxEvents)
    (transferred : ∀ cqe ∈ arrivals 0, 0 ≤ cqe.res) (fuel : Nat) :
    executeIo lengths.length arrivals (fuel + 1) 0 [] = .returned [] (arrivals 0) := by
  unfold executeIo
  rw [if_neg (Nat.not_lt.mpr fits), List.nil_append, ← each.length,
    waitCompletions_finished _ _ transferred]
  rfl

/-- A batch is transferred when it fits into the ring and its first attempt transfers every
request completely. -/
theorem transfers_iff {lengths : List Nat} {arrivals : Nat → List Completion}
    (each : EachCompletes lengths arrivals) :
    Transfers lengths arrivals ↔ lengths.length ≤ maxEvents ∧
      ∀ cqe ∈ arrivals 0, ∀ length, lengths[cqe.request]? = some length → cqe.res = length := by
  have known : ∀ cqe ∈ arrivals 0, ∃ length, lengths[cqe.request]? = some length := by
    intro cqe member
    have inside := each.mem_iff.mp (List.mem_map_of_mem member)
    exact ⟨_, List.getElem?_eq_getElem (List.mem_range.mp inside)⟩
  have once : ((arrivals 0).map Completion.request).Nodup := each.nodup_iff.mpr List.nodup_range
  constructor
  · rintro ⟨fuel, seen, returns, complete⟩
    cases fuel with
    | zero => cases returns
    | succ fuel =>
      have fits : lengths.length ≤ maxEvents := by
        by_contra above
        unfold executeIo at returns
        rw [if_pos (Nat.not_le.mp above)] at returns
        cases returns
      refine ⟨fits, fun cqe member length found => ?_⟩
      by_cases error : ∃ cqe ∈ arrivals 0, cqe.res < 0
      · obtain ⟨head, rest, waits, negative⟩ := waitCompletions_failed (arrivals 0) [] error
        have nonempty : 0 < lengths.length := each.length ▸ List.length_pos_of_mem member
        unfold executeIo at returns
        rw [if_neg (Nat.not_lt.mpr fits), List.nil_append, ← each.length, waits,
          each.length] at returns
        exact absurd returns (executeIo_stuck nonempty arrivals negative fuel 1 rest [] seen)
      · have transferred : ∀ cqe ∈ arrivals 0, 0 ≤ cqe.res :=
          fun cqe member => Int.not_lt.mp fun negative => error ⟨cqe, member, negative⟩
        rw [executeIo_first each fits transferred, IoResult.returned.injEq] at returns
        obtain ⟨other, there, same, whole⟩ := complete cqe.request length found
        rw [← returns.2] at there
        rw [← List.inj_on_of_nodup_map once there member same]
        exact whole
  · rintro ⟨fits, complete⟩
    refine ⟨1, arrivals 0, executeIo_first each fits (fun cqe member => ?_) 0,
      fun request length found => ?_⟩
    · obtain ⟨length, found⟩ := known cqe member
      rw [complete cqe member length found]
      exact Int.natCast_nonneg length
    · have inside : request ∈ (arrivals 0).map Completion.request :=
        each.mem_iff.mpr (List.mem_range.mpr (List.getElem?_eq_some_iff.mp found).1)
      obtain ⟨cqe, member, rfl⟩ := List.mem_map.mp inside
      exact ⟨cqe, member, rfl, complete cqe member length found⟩

/-- Three requests whose completions come in another order. -/
theorem transfers_outOfOrder :
    Transfers [4096, 8192, 512] fun _ => [⟨2, 512⟩, ⟨0, 4096⟩, ⟨1, 8192⟩] := by
  have each : EachCompletes [4096, 8192, 512] fun _ => [⟨2, 512⟩, ⟨0, 4096⟩, ⟨1, 8192⟩] := by
    show [2, 0, 1].Perm [0, 1, 2]
    decide
  refine (transfers_iff each).mpr ⟨by decide, ?_⟩
  have complete : ∀ cqe ∈ [(⟨2, 512⟩ : Completion), ⟨0, 4096⟩, ⟨1, 8192⟩],
      ([4096, 8192, 512][cqe.request]?).map Int.ofNat = some cqe.res := by decide
  intro cqe member length found
  have same := complete cqe member
  rw [found] at same
  exact (Option.some.inj same).symm

/-- One failed attempt is enough for the call not to return, with attempts after it that would
succeed. -/
theorem not_transfers_retried : ¬ ∀ (lengths : List Nat) (arrivals : Nat → List Completion),
    EachCompletes lengths arrivals →
      (∃ failures, ∀ attempt ≥ failures,
        ((arrivals attempt).map Completion.request).Perm (List.range lengths.length) ∧
          ∀ cqe ∈ arrivals attempt, ∀ length, lengths[cqe.request]? = some length →
            cqe.res = length) →
        Transfers lengths arrivals := by
  intro always
  obtain ⟨fuel, seen, returns, _⟩ := always [4096]
    (fun attempt => if attempt = 0 then [⟨0, -5⟩] else [⟨0, 4096⟩]) (.refl _)
    ⟨1, fun attempt later => by
      rw [if_neg (Nat.one_le_iff_ne_zero.mp later)]
      refine ⟨.refl _, fun cqe member length found => ?_⟩
      rw [List.mem_singleton.mp member] at found ⊢
      exact congrArg Int.ofNat (Option.some.inj found)⟩
  cases fuel with
  | zero => cases returns
  | succ fuel =>
    have negative : (⟨0, -5⟩ : Completion).res < 0 := by decide
    exact executeIo_stuck Nat.one_pos _ negative fuel 1 [] [] seen returns

end OdinVector
