/-
This file models the array of PQ codes: what `load` and `merge_deletes` leave of it, the
growth loop of `insert_in_place` and the write of the new code. It proves when a run of
inserts leaves the codes that were there and finds room for the new ones.

`resize` takes `1.5 * size` in exact arithmetic, as for every size that memory can hold.
Counters of 64 bits do not wrap here; an id is stored in 32.
-/

import OdinVector.Narrow.NarrowLayout
import Mathlib.Data.List.Basic

namespace OdinVector

/-! ### The array -/

/-- `data` and `cur_id`. -/
structure PqArray where
  data : List UInt8
  curId : Nat

/-- `std::vector::resize`. -/
def resizeBytes (data : List UInt8) (size : Nat) : List UInt8 :=
  data.take size ++ List.replicate (size - data.length) 0

/-- `memcpy` of some bytes to an offset. -/
def writeBytes (data : List UInt8) (offset : Nat) (bytes : List UInt8) : List UInt8 :=
  data.take offset ++ bytes ++ data.drop (offset + bytes.length)

/-- The loop that grows the array. -/
def growLoop (required : Nat) : Nat → List UInt8 → Option (List UInt8)
  | 0, _ => none
  | fuel + 1, data =>
    if data.length < required then growLoop required fuel (resizeBytes data (3 * data.length / 2))
    else some data

/-- The code of an id. -/
def codeOf (nChunks : Nat) (data : List UInt8) (id : Nat) : List UInt8 :=
  (data.drop (id * nChunks)).take nChunks

namespace PqArray

variable (nChunks : Nat)

/-- The number of points that `load` makes room for. -/
def reservePts (nPts : Nat) (expected extra : Option Nat) : Nat :=
  let reserve := match expected with
    | some points => max nPts points
    | none => nPts
  match extra with
  | some points => max reserve (nPts + points)
  | none => reserve

/-- `load`, with the codes of the file. -/
def load (codes : List UInt8) (nPts : Nat) (expected extra : Option Nat) : PqArray :=
  ⟨writeBytes (resizeBytes [] (reservePts nPts expected extra * nChunks)) 0 codes, nPts⟩

/-- `merge_deletes` and `reload`, for the ids that are left in their new order. -/
def merge (array : PqArray) (live : List Nat) : PqArray :=
  let pqCoords := List.replicate (live.length * nChunks) 0
  ⟨live.zipIdx.foldl (fun written entry =>
      writeBytes written (entry.2 * nChunks) (codeOf nChunks array.data entry.1)) pqCoords,
    live.length⟩

/-- `insert_in_place`, as far as it writes the code. -/
def insert (fuel : Nat) (array : PqArray) (code : List UInt8) : Option PqArray :=
  let targetId := low32 array.curId
  let pqOffset := targetId * nChunks
  (growLoop (pqOffset + nChunks) fuel array.data).map fun data =>
    ⟨writeBytes data pqOffset code, array.curId + 1⟩

/-- In a run of inserts the growth loop ends every time, the new code fits and is read back, and
the codes of the earlier ids stay. -/
def Keeps : PqArray → List (List UInt8) → Prop
  | _, [] => True
  | array, code :: rest => ∃ fuel next, array.insert nChunks fuel code = some next ∧
      low32 array.curId * nChunks + nChunks ≤ next.data.length ∧
      codeOf nChunks next.data (low32 array.curId) = code ∧
      (∀ earlier < array.curId, codeOf nChunks next.data (low32 earlier) =
        codeOf nChunks array.data (low32 earlier)) ∧
      Keeps next rest

end PqArray

/-! ### Bytes -/

theorem length_resizeBytes (data : List UInt8) (size : Nat) :
    (resizeBytes data size).length = size := by
  rw [resizeBytes, List.length_append, List.length_take, List.length_replicate]
  omega

theorem take_resizeBytes {data : List UInt8} {size : Nat} (grows : data.length ≤ size) :
    (resizeBytes data size).take data.length = data := by
  rw [resizeBytes, List.take_of_length_le grows, List.take_left]

theorem length_writeBytes {data bytes : List UInt8} {offset : Nat}
    (room : offset + bytes.length ≤ data.length) :
    (writeBytes data offset bytes).length = data.length := by
  rw [writeBytes, List.length_append, List.length_append, List.length_take, List.length_drop]
  omega

/-- What lies before the bytes that are written stays. -/
theorem take_writeBytes {data bytes : List UInt8} {offset : Nat}
    (room : offset + bytes.length ≤ data.length) :
    (writeBytes data offset bytes).take offset = data.take offset := by
  rw [writeBytes, List.append_assoc]
  exact List.take_left' (List.length_take_of_le (by omega))

theorem codeOf_writeBytes {nChunks : Nat} {data code : List UInt8} {id : Nat}
    (length : code.length = nChunks) (room : id * nChunks + nChunks ≤ data.length) :
    codeOf nChunks (writeBytes data (id * nChunks) code) id = code := by
  rw [codeOf, writeBytes, List.append_assoc,
    List.drop_left' (List.length_take_of_le (by omega)), List.take_left' length]

/-- A code is read from the bytes before its end. -/
theorem codeOf_congr {nChunks id : Nat} {data other : List UInt8} {bound : Nat}
    (inside : id * nChunks + nChunks ≤ bound) (same : data.take bound = other.take bound) :
    codeOf nChunks data id = codeOf nChunks other id := by
  have prefixOf (bytes : List UInt8) :
      codeOf nChunks bytes id = ((bytes.take bound).drop (id * nChunks)).take nChunks := by
    rw [codeOf, List.drop_take, List.take_take, Nat.min_eq_left (by omega)]
  rw [prefixOf data, prefixOf other, same]

/-! ### The growth loop -/

/-- From two bytes on the array grows to every size, and what it held stays. -/
theorem exists_growLoop {required : Nat} {data : List UInt8}
    (progress : required ≤ data.length ∨ 2 ≤ data.length) :
    ∃ fuel grown, growLoop required fuel data = some grown ∧ required ≤ grown.length ∧
      data.length ≤ grown.length ∧ grown.take data.length = data := by
  generalize missing : required - data.length = distance
  induction distance using Nat.strong_induction_on generalizing data with
  | h distance inductionHypothesis =>
    obtain short | enough := Nat.lt_or_ge data.length required
    · obtain two : 2 ≤ data.length := progress.resolve_left (by omega)
      have size := length_resizeBytes data (3 * data.length / 2)
      obtain ⟨fuel, grown, loops, room, longer, held⟩ := inductionHypothesis _ (by omega)
        (Or.inr (by omega) : required ≤ (resizeBytes data (3 * data.length / 2)).length ∨ _) rfl
      refine ⟨fuel + 1, grown, ?_, room, by omega, ?_⟩
      · rw [growLoop, if_pos short, loops]
      · rw [← take_resizeBytes (by omega : data.length ≤ 3 * data.length / 2), ← held,
          List.take_take, List.length_take, size]
        congr 1
        omega
    · exact ⟨1, data, by rw [growLoop, if_neg enough.not_gt], enough, le_rfl, List.take_length⟩

/-- With fewer than two bytes the loop makes no progress. -/
theorem growLoop_stuck {required : Nat} {data : List UInt8} (short : data.length < required)
    (few : data.length < 2) (fuel : Nat) : growLoop required fuel data = none := by
  induction fuel generalizing data with
  | zero => rfl
  | succ fuel inductionHypothesis =>
    have size := length_resizeBytes data (3 * data.length / 2)
    rw [growLoop, if_pos short]
    exact inductionHypothesis (by omega) (by omega)

namespace PqArray

variable {nChunks : Nat} {array : PqArray}

/-! ### What load and merge leave -/

theorem le_reservePts (nPts : Nat) (expected extra : Option Nat) :
    nPts ≤ reservePts nPts expected extra := by
  have first : nPts ≤ (match expected with
    | some points => max nPts points
    | none => nPts) := by
    cases expected with
    | none => exact le_rfl
    | some points => exact le_max_left _ _
  cases extra with
  | none => exact first
  | some points => exact first.trans (le_max_left _ _)

/-- An array with room for the codes of all points, and of `extra` more. -/
def HasRoom (nChunks extra : Nat) (array : PqArray) : Prop :=
  array.data.length = (array.curId + extra) * nChunks

/-- An array that a load has left, with room for `extra` more points than the file has, or a
merge. -/
def LeftBy (nChunks extra : Nat) (array : PqArray) : Prop :=
  (∃ codes expected more, codes.length = array.curId * nChunks ∧
    array = load nChunks codes array.curId expected more ∧
    extra = reservePts array.curId expected more - array.curId) ∨
  ∃ before live, (∀ id ∈ live, id * nChunks + nChunks ≤ before.data.length) ∧
    array = merge nChunks before live ∧ extra = 0

theorem load_hasRoom {codes : List UInt8} {nPts : Nat} (whole : codes.length = nPts * nChunks)
    (expected more : Option Nat) :
    HasRoom nChunks (reservePts nPts expected more - nPts)
      (load nChunks codes nPts expected more) := by
  have enough := le_reservePts nPts expected more
  have size := length_resizeBytes [] (reservePts nPts expected more * nChunks)
  have fits : 0 + codes.length ≤
      (resizeBytes [] (reservePts nPts expected more * nChunks)).length := by
    rw [size, whole, Nat.zero_add]
    exact Nat.mul_le_mul_right _ enough
  show (writeBytes _ 0 codes).length = (nPts + _) * nChunks
  rw [length_writeBytes fits, size, Nat.add_sub_cancel' enough]

/-- A merge leaves no room. -/
theorem merge_hasRoom {live : List Nat}
    (there : ∀ id ∈ live, id * nChunks + nChunks ≤ array.data.length) :
    HasRoom nChunks 0 (array.merge nChunks live) := by
  have sizes : ∀ (entries : List (Nat × Nat)) (written : List UInt8),
      (∀ entry ∈ entries, entry.2 * nChunks + nChunks ≤ written.length ∧
        (codeOf nChunks array.data entry.1).length = nChunks) →
      (entries.foldl (fun written entry => writeBytes written (entry.2 * nChunks)
        (codeOf nChunks array.data entry.1)) written).length = written.length := by
    intro entries
    induction entries with
    | nil => exact fun _ _ => rfl
    | cons first rest inductionHypothesis =>
      intro written inside
      obtain ⟨room, length⟩ := inside first List.mem_cons_self
      have fits : first.2 * nChunks + (codeOf nChunks array.data first.1).length ≤
          written.length := by
        rw [length]
        exact room
      have same := length_writeBytes fits
      rw [List.foldl_cons, inductionHypothesis _ fun entry member => ?_, same]
      rw [same]
      exact inside entry (List.mem_cons_of_mem _ member)
  show (live.zipIdx.foldl _ (List.replicate (live.length * nChunks) 0)).length =
    (live.length + 0) * nChunks
  rw [sizes, List.length_replicate, Nat.add_zero]
  rintro ⟨id, place⟩ member
  obtain ⟨_, below, found⟩ := List.mem_zipIdx member
  refine ⟨?_, ?_⟩
  · rw [List.length_replicate, ← Nat.succ_mul]
    exact Nat.mul_le_mul_right _ (by omega)
  · have inside := there id (found ▸ List.getElem_mem _)
    rw [codeOf, List.length_take, List.length_drop]
    exact Nat.min_eq_left (by dsimp only; omega)

theorem LeftBy.hasRoom {extra : Nat} (left : LeftBy nChunks extra array) :
    HasRoom nChunks extra array := by
  obtain ⟨codes, expected, more, whole, loaded, rfl⟩ | ⟨before, live, there, rfl, rfl⟩ := left
  · have room := load_hasRoom whole expected more
    rwa [← loaded] at room
  · exact merge_hasRoom there

/-! ### One insert -/

/-- An insert below the end of the ids writes behind the codes that are there. -/
theorem insert_spec {code : List UInt8} (length : code.length = nChunks)
    (small : array.curId < 2 ^ 32)
    (progress : array.curId * nChunks + nChunks ≤ array.data.length ∨ 2 ≤ array.data.length)
    (covered : array.curId * nChunks ≤ array.data.length) :
    ∃ fuel next, array.insert nChunks fuel code = some next ∧ next.curId = array.curId + 1 ∧
      array.curId * nChunks + nChunks ≤ next.data.length ∧
      array.data.length ≤ next.data.length ∧
      codeOf nChunks next.data array.curId = code ∧
      ∀ earlier < array.curId, codeOf nChunks next.data earlier =
        codeOf nChunks array.data earlier := by
  obtain ⟨fuel, grown, loops, room, longer, held⟩ := exists_growLoop progress
  have fits : array.curId * nChunks + code.length ≤ grown.length := by
    rw [length]
    exact room
  have size := length_writeBytes fits
  refine ⟨fuel, ⟨writeBytes grown (array.curId * nChunks) code, array.curId + 1⟩, ?_, rfl,
    room.trans size.ge, longer.trans size.ge, codeOf_writeBytes length room,
    fun earlier below => ?_⟩
  · rw [insert, low32_of_lt small, loops, Option.map_some]
  · have inside : earlier * nChunks + nChunks ≤ array.curId * nChunks := by
      rw [← Nat.succ_mul]
      exact Nat.mul_le_mul_right _ below
    refine codeOf_congr inside ?_
    rw [take_writeBytes fits, ← held, List.take_take, Nat.min_eq_left covered]

/-- Ids that are not stored twice and an array that grows. -/
theorem keeps_of_progress {codes : List (List UInt8)}
    (lengths : ∀ code ∈ codes, code.length = nChunks)
    (small : array.curId + codes.length ≤ 2 ^ 32)
    (progress : (array.curId + codes.length) * nChunks ≤ array.data.length ∨
      2 ≤ array.data.length)
    (covered : array.curId * nChunks ≤ array.data.length) : array.Keeps nChunks codes := by
  induction codes generalizing array with
  | nil => trivial
  | cons code rest inductionHypothesis =>
    rw [List.length_cons] at small progress
    have below : array.curId < 2 ^ 32 := by omega
    have first : (array.curId + 1) * nChunks ≤ (array.curId + (rest.length + 1)) * nChunks :=
      Nat.mul_le_mul_right _ (by omega)
    rw [Nat.succ_mul] at first
    obtain ⟨fuel, next, inserts, counted, room, longer, new, old⟩ :=
      insert_spec (lengths code List.mem_cons_self) below (progress.imp_left first.trans) covered
    refine ⟨fuel, next, inserts, ?_, ?_, fun earlier before => ?_,
      inductionHypothesis (fun other member => lengths other (List.mem_cons_of_mem _ member))
        (by omega) ?_ ?_⟩
    · rw [low32_of_lt below]
      exact room
    · rw [low32_of_lt below]
      exact new
    · rw [low32_of_lt (before.trans below)]
      exact old earlier before
    · rw [counted, Nat.add_assoc, Nat.add_comm 1]
      omega
    · rw [counted, Nat.succ_mul]
      exact room

/-- Without chunks there is nothing to store. -/
theorem keeps_without_chunks {codes : List (List UInt8)}
    (lengths : ∀ code ∈ codes, code.length = 0) :
    array.Keeps 0 codes := by
  induction codes generalizing array with
  | nil => trivial
  | cons code rest inductionHypothesis =>
    obtain rfl := List.length_eq_zero_iff.mp (lengths code List.mem_cons_self)
    refine ⟨1, _, rfl, Nat.zero_le _, List.take_zero, fun _ _ => ?_,
      inductionHypothesis fun other member => lengths other (List.mem_cons_of_mem _ member)⟩
    rw [codeOf, codeOf, List.take_zero, List.take_zero]

/-! ### When a run fails -/

/-- With fewer than two bytes the insert behind the room never ends. -/
theorem not_keeps_of_stuck {extra : Nat} {codes : List (List UInt8)} (positive : 0 < nChunks)
    (room : HasRoom nChunks extra array) (few : array.data.length < 2)
    (lengths : ∀ code ∈ codes, code.length = nChunks) (more : extra < codes.length) :
    ¬ array.Keeps nChunks codes := by
  induction extra generalizing array codes with
  | zero =>
    cases codes with
    | nil => exact absurd more (Nat.not_lt_zero _)
    | cons code rest =>
      rintro ⟨fuel, next, inserts, -⟩
      have ids := Nat.le_mul_of_pos_right (array.curId + 0) positive
      unfold HasRoom at room
      rw [insert, low32_of_lt (by omega), growLoop_stuck (by rw [room, Nat.add_zero]; omega) few]
        at inserts
      cases inserts
  | succ extra inductionHypothesis =>
    cases codes with
    | nil => exact absurd more (Nat.not_lt_zero _)
    | cons code rest =>
      rintro ⟨fuel, next, inserts, -, -, -, later⟩
      have length := lengths code List.mem_cons_self
      have ids := Nat.le_mul_of_pos_right (array.curId + (extra + 1)) positive
      unfold HasRoom at room
      have fits : array.curId * nChunks + nChunks ≤ array.data.length := by
        rw [room, ← Nat.succ_mul]
        exact Nat.mul_le_mul_right _ (by omega)
      rw [insert, low32_of_lt (by omega)] at inserts
      cases fuel with
      | zero => cases inserts
      | succ fuel =>
        rw [growLoop, if_neg fits.not_gt, Option.map_some] at inserts
        obtain rfl := Option.some.inj inserts
        have size := length_writeBytes (by rwa [length] :
          array.curId * nChunks + code.length ≤ array.data.length)
        refine inductionHypothesis ?_ (size.trans_lt few)
          (fun other member => lengths other (List.mem_cons_of_mem _ member))
          (Nat.lt_of_succ_lt_succ more) later
        show (writeBytes _ _ _).length = (array.curId + 1 + extra) * nChunks
        rw [size, room, Nat.add_assoc, Nat.add_comm 1]

/-- An insert whose id was assigned before overwrites a code. -/
theorem not_keeps_of_wrap {distance victim : Nat} {rest : List (List UInt8)}
    (positive : 0 < nChunks) (same : low32 (array.curId + distance) = low32 victim)
    (earlier : victim < array.curId + distance)
    (zeros : victim < array.curId →
      codeOf nChunks array.data (low32 victim) = List.replicate nChunks 0) :
    ¬ array.Keeps nChunks (List.replicate distance (List.replicate nChunks 0) ++
      List.replicate nChunks 1 :: rest) := by
  induction distance generalizing array with
  | zero =>
    rintro ⟨fuel, next, -, -, new, old, -⟩
    have stays := (old victim earlier).trans (zeros earlier)
    rw [← same, Nat.add_zero, new] at stays
    have bytes := (List.replicate_right_inj positive.ne').mp stays
    exact absurd bytes (by decide)
  | succ distance inductionHypothesis =>
    rintro ⟨fuel, next, inserts, -, new, old, later⟩
    obtain ⟨data, -, rfl⟩ := Option.map_eq_some_iff.mp inserts
    refine @inductionHypothesis ⟨_, array.curId + 1⟩ ?_ ?_ (fun before => ?_) later
    · rw [Nat.add_assoc, Nat.add_comm 1]
      exact same
    · show victim < array.curId + 1 + distance
      omega
    · obtain below | last := Nat.lt_succ_iff_lt_or_eq.mp before
      · exact (old victim below).trans (zeros below)
      · rw [last]
        exact new

/-- A file of zeros, loaded with room for `extra` more points. -/
def loadZeros (nChunks nPts extra : Nat) : PqArray :=
  load nChunks (List.replicate (nPts * nChunks) 0) nPts none (some extra)

theorem loadZeros_leftBy (nPts extra : Nat) :
    LeftBy nChunks extra (loadZeros nChunks nPts extra) := by
  refine Or.inl ⟨_, none, some extra, List.length_replicate, rfl, ?_⟩
  show extra = max nPts (nPts + extra) - nPts
  omega

theorem loadZeros_data (nPts extra : Nat) :
    (loadZeros nChunks nPts extra).data = List.replicate ((nPts + extra) * nChunks) 0 := by
  have size : reservePts nPts none (some extra) = nPts + extra :=
    max_eq_right (Nat.le_add_right nPts extra)
  have covered := Nat.mul_le_mul_right nChunks (Nat.le_add_right nPts extra)
  rw [loadZeros, load, size, writeBytes, resizeBytes, List.take_nil, List.nil_append,
    List.length_nil, Nat.sub_zero, List.take_zero, List.nil_append, List.length_replicate,
    Nat.zero_add, List.drop_replicate, List.replicate_append_replicate]
  exact congrArg (List.replicate · 0) (Nat.add_sub_cancel' covered)

theorem codeOf_replicate {size id : Nat} (inside : id * nChunks + nChunks ≤ size) :
    codeOf nChunks (List.replicate size 0) id = List.replicate nChunks 0 := by
  rw [codeOf, List.drop_replicate, List.take_replicate]
  congr 1
  omega

/-- For every number of points, room and length of a code, a run of inserts keeps all codes
whatever they are, exactly if no id is assigned twice and the array has two bytes to start from or
room for all new points. -/
theorem keeps_iff (nPts extra nChunks inserts : Nat) :
    (∀ array codes, LeftBy nChunks extra array → array.curId = nPts → codes.length = inserts →
      (∀ code ∈ codes, code.length = nChunks) → array.Keeps nChunks codes) ↔
    inserts = 0 ∨ nChunks = 0 ∨ nPts + inserts ≤ 2 ^ 32 ∧
      (2 ≤ (nPts + extra) * nChunks ∨ inserts ≤ extra) := by
  refine ⟨fun keeps => ?_, fun holds array codes left points count lengths => ?_⟩
  · by_contra fails
    rw [not_or, not_or, not_and_or] at fails
    obtain ⟨some, chunks, fails⟩ := fails
    have positive := Nat.pos_of_ne_zero chunks
    have room := (@loadZeros_leftBy nChunks nPts extra).hasRoom
    have data := @loadZeros_data nChunks nPts extra
    obtain wraps | stuck := fails
    · -- The first counter whose id was assigned before is `2 ^ 32`, or that of the load.
      have reached : 2 ^ 32 - nPts < inserts := by omega
      have first : (loadZeros nChunks nPts extra).curId + (2 ^ 32 - nPts) = max nPts (2 ^ 32) := by
        show nPts + (2 ^ 32 - nPts) = _
        omega
      refine @not_keeps_of_wrap nChunks _ (2 ^ 32 - nPts) (nPts - 2 ^ 32)
        (List.replicate (inserts - (2 ^ 32 - nPts) - 1) (List.replicate nChunks 0)) positive
        ?_ ?_ (fun before => ?_)
        (keeps _ _ (loadZeros_leftBy nPts extra) rfl ?_ fun code member => ?_)
      · rw [first]
        unfold low32
        omega
      · rw [first]
        omega
      · have below : low32 (nPts - 2 ^ 32) < nPts := (Nat.mod_le _ _).trans_lt before
        rw [data]
        refine codeOf_replicate ?_
        rw [← Nat.succ_mul]
        exact Nat.mul_le_mul_right _ (by omega)
      · rw [List.length_append, List.length_cons, List.length_replicate, List.length_replicate]
        omega
      · rw [List.mem_append, List.mem_cons] at member
        obtain before | rfl | behind := member
        · rw [List.eq_of_mem_replicate before, List.length_replicate]
        · exact List.length_replicate
        · rw [List.eq_of_mem_replicate behind, List.length_replicate]
    · rw [not_or, not_le, not_le] at stuck
      refine not_keeps_of_stuck positive room ?_ (fun code member => ?_) ?_
        (keeps _ (List.replicate inserts (List.replicate nChunks 0)) (loadZeros_leftBy nPts extra)
          rfl List.length_replicate fun code member => ?_)
      · rw [data, List.length_replicate]
        exact stuck.1
      · rw [List.eq_of_mem_replicate member, List.length_replicate]
      · rw [List.length_replicate]
        exact stuck.2
      · rw [List.eq_of_mem_replicate member, List.length_replicate]
  · have room : array.data.length = (nPts + extra) * nChunks := points ▸ left.hasRoom
    obtain none | rfl | ⟨ids, progress⟩ := holds
    · obtain rfl := List.length_eq_zero_iff.mp (count.trans none)
      trivial
    · exact keeps_without_chunks lengths
    · refine keeps_of_progress lengths (by omega) ?_ ?_
      · obtain two | inside := progress
        · exact Or.inr (room ▸ two)
        · refine Or.inl ?_
          rw [points, count, room]
          exact Nat.mul_le_mul_right _ (Nat.add_le_add_left inside _)
      · rw [points, room]
        exact Nat.mul_le_mul_right _ (Nat.le_add_right _ _)

/-- An index of one point whose code is one byte: the array is to have two bytes, and three halves
of one are one. -/
theorem not_keeps_one : LeftBy 1 0 (load 1 [7] 1 none none) ∧
    ¬ (load 1 [7] 1 none none).Keeps 1 [[5]] := by
  refine ⟨Or.inl ⟨[7], none, none, rfl, rfl, rfl⟩,
    not_keeps_of_stuck Nat.one_pos (load_hasRoom rfl none none) Nat.one_lt_two ?_ Nat.one_pos⟩
  intro code member
  rw [List.mem_singleton.mp member]
  rfl

end PqArray

end OdinVector
