/-
This file models the loop that makes the writes of an insert from its requests of one
page each: the requests with the sentinel behind them, the start of the run, and the
offset of the request before. Offsets have 64 bits. The writes are what `coalesce`
makes of the pages and their buffers, so `wbc_write` puts the same pages with the same
bytes, and there is a gap between one write and the next.
-/

import OdinVector.Merge.Files
import OdinVector.Update.State

namespace OdinVector

/-! ### The requests -/

/-- `IORequest`; `buf` is the offset in `update_buf`. -/
structure IORequest where
  offset : Nat
  len : Nat
  buf : Nat
  deriving DecidableEq

namespace IORequest

/-- `writes_4k` for the ascending pages of `pages_to_rmw`, with the buffers from `first` on;
`size_per_io` is `SECTOR_LEN`. -/
def writes4k (pages : List Nat) (first : Nat) : List IORequest :=
  (pages.zipIdx first).map fun entry =>
    ⟨entry.1 * sectorLen % 2 ^ 64, sectorLen, entry.2 * sectorLen⟩

/-- The dummy request at the largest offset. -/
def sentinel : IORequest := ⟨2 ^ 64 - 1, 0, 0⟩

/-- The variables of the loop. -/
structure Loop where
  writes : List IORequest
  startIdx : Nat
  curOff : Nat

/-- A round of the loop: a request that does not follow the one before ends the run. -/
def round (requests : List IORequest) (loop : Loop) (i : Nat) : Loop :=
  let request := requests.getD i sentinel
  let start := requests.getD loop.startIdx sentinel
  if request.offset ≠ (loop.curOff + sectorLen) % 2 ^ 64 then
    { writes := loop.writes ++ [⟨start.offset, sectorLen * (i - loop.startIdx), start.buf⟩]
      startIdx := i
      curOff := request.offset }
  else { loop with curOff := request.offset }

/-- `writes` from `writes_4k`. -/
def coalesced (requests : List IORequest) : List IORequest :=
  let padded := requests ++ [sentinel]
  ((List.range' 1 requests.length).foldl (round padded)
    ⟨[], 0, (padded.getD 0 sentinel).offset⟩).writes

/-- The pages that `wbc_write` puts, each with the place of its bytes in `update_buf`. -/
def puts (requests : List IORequest) : List (Nat × Nat) :=
  requests.flatMap fun request =>
    (List.range ((request.len + sectorLen - 1) / sectorLen)).map fun i =>
      ((request.offset + i * sectorLen) / sectorLen, request.buf + i * sectorLen)

/-- The pages of the cache after `wbc_write`. -/
def wbcWrite (updateBuf : Nat → UInt8) (cache : Nat → Nat → UInt8) (requests : List IORequest) :
    Nat → Nat → UInt8 :=
  (puts requests).foldl
    (fun cache put => Function.update cache put.1 fun i =>
      if i < sectorLen then updateBuf (put.2 + i) else cache put.1 i) cache

/-- The request of a run of pages. -/
def ofRun (run : WriteReq) : IORequest :=
  ⟨run.page * sectorLen, sectorLen * run.count, run.buf * sectorLen⟩

/-! ### The loop makes the runs -/

section Runs

variable {pages : List Nat} {first : Nat}

theorem length_writes4k (pages : List Nat) (first : Nat) :
    (writes4k pages first).length = pages.length := by
  rw [writes4k, List.length_map, List.length_zipIdx]

/-- A page whose bytes are within the range of the offsets. -/
def Addressed (page : Nat) : Prop := page * sectorLen < 2 ^ 64

theorem getD_writes4k (addressed : ∀ page ∈ pages, Addressed page) {i : Nat}
    (inside : i < pages.length) :
    (writes4k pages first ++ [sentinel]).getD i sentinel =
      ofRun ⟨pages[i], 1, first + i⟩ := by
  have bound : i < (writes4k pages first).length := by rwa [length_writes4k]
  rw [List.getD_eq_getElem?_getD, List.getElem?_append_left bound, List.getElem?_eq_getElem bound,
    Option.getD_some]
  simp only [writes4k, List.getElem_map, List.getElem_zipIdx, ofRun, Nat.mul_one]
  rw [Nat.mod_eq_of_lt (addressed _ (List.getElem_mem inside))]

theorem getD_sentinel (pages : List Nat) (first : Nat) :
    (writes4k pages first ++ [sentinel]).getD pages.length sentinel = sentinel := by
  rw [List.getD_eq_getElem?_getD, List.getElem?_append_right (length_writes4k pages first).le,
    length_writes4k, Nat.sub_self]
  rfl

/-- The sentinel follows no page: its offset is odd. -/
theorem sentinel_follows_none (page : Nat) :
    sentinel.offset ≠ (page * sectorLen + sectorLen) % 2 ^ 64 := by
  unfold sentinel sectorLen
  dsimp only
  omega

/-- The next request follows a page if and only if its page does. -/
theorem follows_iff {page next : Nat} (addressed : Addressed next) (before : page < next) :
    next * sectorLen = (page * sectorLen + sectorLen) % 2 ^ 64 ↔ next = page + 1 := by
  unfold Addressed sectorLen at *
  omega

/-- A round at a page: it extends the run, or the run before it is written. -/
theorem round_page (addressed : ∀ page ∈ pages, Addressed page) {i start : Nat} {page : Nat}
    (here : i < pages.length) (started : start < pages.length) (before : page < pages[i])
    (writes : List IORequest) :
    round (writes4k pages first ++ [sentinel]) ⟨writes, start, page * sectorLen⟩ i =
      if pages[i] = page + 1 then ⟨writes, start, pages[i] * sectorLen⟩
      else ⟨writes ++ [ofRun ⟨pages[start], i - start, first + start⟩], i,
        pages[i] * sectorLen⟩ := by
  have follows := follows_iff (addressed _ (List.getElem_mem here)) before
  unfold round
  rw [getD_writes4k addressed here, getD_writes4k addressed started]
  dsimp only [ofRun]
  by_cases adjacent : pages[i] = page + 1
  · rw [if_neg (not_not.mpr (follows.mpr adjacent)), if_pos adjacent]
  · rw [if_pos (fun same => adjacent (follows.mp same)), if_neg adjacent]

/-- The rest of the loop from a request on, when the run before it starts at `start`. -/
theorem foldl_round (first : Nat) (addressed : ∀ page ∈ pages, Addressed page)
    (ascending : pages.Pairwise (· < ·)) {rest : List Nat} {i start : Nat}
    (split : pages.drop i = rest) (started : start < i) (inside : i ≤ pages.length)
    (startPage : pages[start] + (i - start) = pages[i - 1] + 1) (writes : List IORequest) :
    ((List.range' i (rest.length + 1)).foldl (round (writes4k pages first ++ [sentinel]))
        ⟨writes, start, pages[i - 1] * sectorLen⟩).writes =
      writes ++ (coalesceFrom ⟨pages[start], i - start, first + start⟩
        (rest.zipIdx (first + i))).map ofRun := by
  have beforeStart : start < pages.length := started.trans_le inside
  induction rest generalizing i start writes with
  | nil =>
    have atEnd : i = pages.length := Nat.le_antisymm inside (List.drop_eq_nil_iff.mp split)
    subst atEnd
    rw [List.length_nil, List.range'_one, List.foldl_cons, List.foldl_nil]
    unfold round
    rw [getD_sentinel, getD_writes4k addressed beforeStart]
    dsimp only
    rw [if_pos (sentinel_follows_none _)]
    rfl
  | cons page rest inductionHypothesis =>
    have here : i < pages.length := by
      by_contra past
      rw [List.drop_of_length_le (by omega)] at split
      cases split
    obtain ⟨rfl, later⟩ := List.cons.inj ((List.drop_eq_getElem_cons here).symm.trans split)
    have before : pages[i - 1] < pages[i] :=
      List.pairwise_iff_getElem.mp ascending (i - 1) i (by omega) here (by omega)
    rw [List.length_cons, List.range'_succ, List.foldl_cons, List.zipIdx_cons, coalesceFrom,
      round_page addressed here beforeStart before]
    dsimp only
    rw [startPage]
    by_cases adjacent : pages[i] = pages[i - 1] + 1
    · rw [if_pos adjacent, if_pos adjacent]
      have extended := inductionHypothesis later (by omega) here
        (by simp only [Nat.add_sub_cancel]; omega) writes beforeStart
      simp only [Nat.add_sub_cancel] at extended
      rw [extended, show i + 1 - start = i - start + 1 by omega, Nat.add_assoc]
    · rw [if_neg adjacent, if_neg adjacent]
      have restarted := inductionHypothesis later (Nat.lt_succ_self i) here
        (by simp) (writes ++ [ofRun ⟨pages[start], i - start, first + start⟩]) here
      simp only [Nat.add_sub_cancel, Nat.add_sub_cancel_left] at restarted
      rw [restarted, List.map_cons, List.append_assoc, List.singleton_append, Nat.add_assoc]

/-- The loop makes the writes of the runs. -/
theorem coalesced_eq (nonempty : pages ≠ []) (addressed : ∀ page ∈ pages, Addressed page)
    (ascending : pages.Pairwise (· < ·)) :
    coalesced (writes4k pages first) = (coalesce (pages.zipIdx first)).map ofRun := by
  obtain ⟨page, rest, rfl⟩ := List.exists_cons_of_ne_nil nonempty
  have some : 0 < (page :: rest).length := Nat.zero_lt_succ _
  have loop := foldl_round first addressed ascending (List.drop_one (l := page :: rest))
    Nat.zero_lt_one some rfl []
  unfold coalesced
  dsimp only
  rw [getD_writes4k addressed some, length_writes4k]
  exact loop

/-! ### What the writes cover -/

theorem puts_ofRun (runs : List WriteReq) :
    puts (runs.map ofRun) =
      (pagesOf runs).map fun entry => (entry.1, entry.2 * sectorLen) := by
  unfold puts pagesOf
  rw [List.flatMap_map, List.map_flatMap]
  congr 1
  funext run
  have count : (sectorLen * run.count + sectorLen - 1) / sectorLen = run.count := by
    unfold sectorLen
    omega
  unfold ofRun
  dsimp only
  rw [count, List.map_map]
  refine List.map_congr_left fun i _ => Prod.ext ?_ ?_
  · show (run.page * sectorLen + i * sectorLen) / sectorLen = run.page + i
    rw [← Nat.add_mul]
    exact Nat.mul_div_cancel _ (by decide)
  · exact (Nat.add_mul _ _ _).symm

theorem puts_writes4k (addressed : ∀ page ∈ pages, Addressed page) :
    puts (writes4k pages first) =
      (pages.zipIdx first).map fun entry => (entry.1, entry.2 * sectorLen) := by
  have single : writes4k pages first =
      ((pages.zipIdx first).map fun entry => (⟨entry.1, 1, entry.2⟩ : WriteReq)).map ofRun := by
    unfold writes4k
    rw [List.map_map]
    refine List.map_congr_left fun entry member => ?_
    have inPages : entry.1 ∈ pages := List.fst_mem_of_mem_zipIdx member
    rw [Nat.mod_eq_of_lt (addressed _ inPages)]
    rfl
  rw [single, puts_ofRun, pagesOf, List.flatMap_map]
  congr 1
  exact List.flatMap_singleton' _

/-- The runs made of later pages start there. -/
theorem page_le_of_mem {run made : WriteReq} {entries : List (Nat × Nat)}
    (behind : ∀ entry ∈ entries, run.page ≤ entry.1)
    (ascending : (entries.map Prod.fst).Pairwise (· < ·))
    (member : made ∈ coalesceFrom run entries) : run.page ≤ made.page := by
  induction entries generalizing run with
  | nil =>
    rw [coalesceFrom, List.mem_singleton] at member
    rw [member]
  | cons entry rest inductionHypothesis =>
    obtain ⟨above, later⟩ := List.pairwise_cons.mp ascending
    have low : run.page ≤ entry.1 := behind entry List.mem_cons_self
    unfold coalesceFrom at member
    split at member
    · exact @inductionHypothesis { run with count := run.count + 1 }
        (fun other inRest => behind other (List.mem_cons_of_mem _ inRest)) later member
    · obtain rfl | inRest := List.mem_cons.mp member
      · exact le_rfl
      · exact low.trans (@inductionHypothesis ⟨entry.1, 1, entry.2⟩
          (fun other inRest => (above _ (List.mem_map_of_mem inRest)).le) later inRest)

/-- Between two runs there is a page that is not written. -/
theorem gaps_coalesceFrom {run : WriteReq} {entries : List (Nat × Nat)}
    (behind : ∀ entry ∈ entries, run.page + run.count ≤ entry.1)
    (ascending : (entries.map Prod.fst).Pairwise (· < ·)) :
    (coalesceFrom run entries).Pairwise fun made next => made.page + made.count < next.page := by
  induction entries generalizing run with
  | nil => exact List.pairwise_singleton _ _
  | cons entry rest inductionHypothesis =>
    obtain ⟨above, later⟩ := List.pairwise_cons.mp ascending
    have past : ∀ other ∈ rest, entry.1 + 1 ≤ other.1 := fun other inRest =>
      above _ (List.mem_map_of_mem inRest)
    have low := behind entry List.mem_cons_self
    unfold coalesceFrom
    split
    · rename_i adjacent
      refine @inductionHypothesis { run with count := run.count + 1 }
        (fun other inRest => ?_) later
      have next := past other inRest
      dsimp only
      omega
    · rename_i apart
      refine List.pairwise_cons.mpr ⟨fun made member => ?_,
        @inductionHypothesis ⟨entry.1, 1, entry.2⟩ past later⟩
      have start : entry.1 ≤ made.page := @page_le_of_mem ⟨entry.1, 1, entry.2⟩ made rest
        (fun other inRest => Nat.le_of_succ_le (past other inRest)) later member
      omega

theorem gaps_coalesce (ascending : pages.Pairwise (· < ·)) :
    (coalesce (pages.zipIdx first)).Pairwise fun made next =>
      made.page + made.count < next.page := by
  cases pages with
  | nil => exact List.Pairwise.nil
  | cons page rest =>
    obtain ⟨above, later⟩ := List.pairwise_cons.mp ascending
    rw [List.zipIdx_cons, coalesce]
    refine gaps_coalesceFrom (fun entry member => ?_) ?_
    · exact above _ (List.fst_mem_of_mem_zipIdx member)
    · rwa [List.zipIdx_map_fst]

/-- The writes put the pages of the requests in their order, each of them once and with the
bytes of its request, and what is between two writes is not written. -/
theorem coalescing_preserves_writes (nonempty : pages ≠ []) (ascending : pages.Pairwise (· < ·))
    (addressed : ∀ page ∈ pages, Addressed page) :
    (puts (coalesced (writes4k pages first))).map Prod.fst = pages ∧
      puts (coalesced (writes4k pages first)) = puts (writes4k pages first) ∧
      (∀ updateBuf cache, wbcWrite updateBuf cache (coalesced (writes4k pages first)) =
        wbcWrite updateBuf cache (writes4k pages first)) ∧
      (coalesced (writes4k pages first)).Pairwise fun write next =>
        write.offset + write.len < next.offset := by
  have same : puts (coalesced (writes4k pages first)) = puts (writes4k pages first) := by
    rw [coalesced_eq nonempty addressed ascending, puts_ofRun, pagesOf_coalesce,
      puts_writes4k addressed]
  refine ⟨?_, same, fun updateBuf cache => ?_, ?_⟩
  · rw [same, puts_writes4k addressed, List.map_map]
    exact List.zipIdx_map_fst _ _
  · unfold wbcWrite
    rw [same]
  · rw [coalesced_eq nonempty addressed ascending, List.pairwise_map]
    refine (gaps_coalesce ascending).imp fun {made next} gap => ?_
    unfold ofRun sectorLen
    dsimp only
    omega

/-- Two pages that follow each other, and one behind a gap. -/
theorem coalescing_preserves_writes_three :
    (puts (coalesced (writes4k [3, 4, 7] 2))).map Prod.fst = [3, 4, 7] ∧
      puts (coalesced (writes4k [3, 4, 7] 2)) = puts (writes4k [3, 4, 7] 2) ∧
      (∀ updateBuf cache, wbcWrite updateBuf cache (coalesced (writes4k [3, 4, 7] 2)) =
        wbcWrite updateBuf cache (writes4k [3, 4, 7] 2)) ∧
      (coalesced (writes4k [3, 4, 7] 2)).Pairwise fun write next =>
        write.offset + write.len < next.offset :=
  coalescing_preserves_writes (List.cons_ne_nil _ _) (by decide) (by unfold Addressed; decide)

end Runs

end IORequest

end OdinVector
