/-
This file models `gt_update`, which makes the truth of the update benchmark from the one of the
whole data: for each window of identifiers and each query the first nearest points that are in the
window. A window is written when all queries have enough of them.
-/

import OdinVector.Evaluation.GroundTruth
import OdinVector.Evaluation.Truthset
import OdinVector.Registers

namespace OdinVector

open Binary Finset NearestList

/-! ### Rows in one array -/

section Rows

variable {Item : Type}

/-- A row of an array. -/
def rowAtOf (data : List Item) (dim i : Nat) : List Item := (data.drop (i * dim)).take dim

/-- Rows of the same length that were written behind each other. -/
theorem rowAtOf_flatten {rows : List (List Item)} {dim : Nat}
    (length : ∀ row ∈ rows, row.length = dim) {i : Nat} {row : List Item}
    (there : rows[i]? = some row) :
    rowAtOf rows.flatten dim i = row := by
  induction rows generalizing i with
  | nil => exact absurd there nofun
  | cons first rest inductionHypothesis =>
    have size := length first List.mem_cons_self
    rw [rowAtOf, List.flatten_cons]
    cases i with
    | zero =>
      obtain rfl : first = row := Option.some.inj there
      rw [Nat.zero_mul, List.drop_zero, List.take_left' size]
    | succ i =>
      have split : (i + 1) * dim = first.length + i * dim := by
        rw [size]
        ring
      rw [split, ← List.drop_drop, List.drop_left]
      exact inductionHypothesis (fun row member => length row (List.mem_cons_of_mem _ member)) there

theorem length_flatten_rows {rows : List (List Item)} {dim : Nat}
    (length : ∀ row ∈ rows, row.length = dim) : rows.flatten.length = rows.length * dim := by
  rw [List.length_flatten, List.map_eq_map_iff.mpr fun row member => length row member,
    List.map_const', List.sum_replicate_nat]

end Rows

/-! ### The windows -/

/-- The loop over a row: what is added to `cur_gt`, and `cnt`. -/
def scanRow (realSt ed targetTopk : Nat) : List Nat → Nat → List Nat × Nat
  | [], cnt => ([], cnt)
  | id :: rest, cnt =>
    let pushed := if realSt ≤ id ∧ id < ed then [id] else []
    let cnt := if realSt ≤ id ∧ id < ed then cnt + 1 else cnt
    if targetTopk ≤ cnt then (pushed, cnt)
    else
      let others := scanRow realSt ed targetTopk rest cnt
      (pushed ++ others.1, others.2)

/-- What `check_and_gen` is given. With more points in a batch than there are, their difference
would wrap around. -/
structure WindowInput where
  data : List Nat
  nq : Nat
  dim : Nat
  totNpts : Nat
  batchNpts : Nat
  batch_le : batchNpts ≤ totNpts
  targetTopk : Nat
  insertOnly : Bool

namespace WindowInput

/-- `step`: `0.01 * batch_npts` as a `double`, without its fraction. -/
def step (batchNpts : Nat) : Nat :=
  ⌊binary64.nearest (binary64.nearest (1 / 100) * binary64.nearest batchNpts)⌋₊

/-- The truth is one that `load_bin` reads. -/
def ofFile (file : Bytes) {totNpts batchNpts : Nat} (batch : batchNpts ≤ totNpts)
    (targetTopk : Nat) (insertOnly : Bool) : Option WindowInput :=
  (loadBinIds file).map fun (sizes, data) =>
    ⟨data, sizes.1, sizes.2, totNpts, batchNpts, batch, targetTopk, insertOnly⟩

variable (input : WindowInput)

/-- `real_st`. -/
def realSt (st : Nat) : Nat := if input.insertOnly then 0 else st

/-- The loop over a query. -/
def scanQuery (st i : Nat) : List Nat × Nat :=
  scanRow (input.realSt st) (st + input.batchNpts) input.targetTopk
    (rowAtOf input.data input.dim i) 0

/-- What is saved for a window. -/
def windowFile (st : Nat) : Option (List Nat) :=
  if ∀ i < input.nq, input.targetTopk ≤ (input.scanQuery st i).2 then
    some ((List.range input.nq).map fun i => (input.scanQuery st i).1).flatten
  else none

/-- `check_and_gen`: the starts of the windows that are saved, with their files. -/
def checkAndGen : List (Nat × List Nat) :=
  whileBelow (input.totNpts - input.batchNpts) (step input.batchNpts)
    (fun files st => files ++ ((input.windowFile st).map fun file => (st, file)).toList) 0 []

end WindowInput

/-! ### The step -/

theorem double_hundredth : binary64.nearest (1 / 100) = 5764607523034235 / 2 ^ 59 := by
  have value := @FloatFormat.nearest_eq binary64 (1 / 100) (-7) 5764607523034235 (by norm_num)
    (by norm_num) (by norm_num [binary64]) (by norm_num [binary64, abs_lt])
  rw [value]
  norm_num [binary64]

/-- The loop goes on when a batch has at least 100 points. -/
theorem WindowInput.step_pos {batchNpts : Nat} (hundred : 100 ≤ batchNpts) :
    0 < step batchNpts := by
  refine Nat.floor_pos.mpr ?_
  rw [double_hundredth]
  obtain rfl | more := hundred.eq_or_lt
  · -- 0.01 lies above 1 / 100, by less than the last digit of 1
    have integer : binary64.nearest ((100 : Nat) : ℚ) = (100 : ℤ) :=
      @FloatFormat.nearest_intCast binary64 100 (by decide) (by decide)
    have one := @FloatFormat.nearest_eq binary64 (5764607523034235 / 2 ^ 59 * (100 : ℤ)) 0
      4503599627370496 (by norm_num) (by norm_num) (by norm_num [binary64])
      (by norm_num [binary64, abs_lt])
    rw [integer, one]
    norm_num [binary64]
  · have points : (101 : ℚ) ≤ batchNpts := by exact_mod_cast more
    have error := abs_le.mp (@abs_binary64_sub_le batchNpts (by linarith))
    generalize binary64.nearest batchNpts = rounded at error ⊢
    have product :=
      abs_le.mp (@abs_binary64_sub_le (5764607523034235 / 2 ^ 59 * rounded) (by linarith))
    linarith

/-! ### A row -/

/-- The loop takes the first ones of a row that are in the window, and counts them. -/
theorem scanRow_eq {realSt ed targetTopk : Nat} (row : List Nat) {cnt : Nat}
    (less : cnt < targetTopk) :
    scanRow realSt ed targetTopk row cnt =
      ((row.filter fun id => realSt ≤ id ∧ id < ed).take (targetTopk - cnt),
        cnt + ((row.filter fun id => realSt ≤ id ∧ id < ed).take (targetTopk - cnt)).length) := by
  induction row generalizing cnt with
  | nil => rw [scanRow, List.filter_nil, List.take_nil, List.length_nil, Nat.add_zero]
  | cons id rest inductionHypothesis =>
    rw [scanRow]
    dsimp only
    by_cases inside : realSt ≤ id ∧ id < ed
    · rw [if_pos inside, if_pos inside, List.filter_cons, if_pos (decide_eq_true inside)]
      obtain ⟨left, isLeft⟩ : ∃ left, targetTopk - cnt = left + 1 :=
        ⟨targetTopk - cnt - 1, by omega⟩
      rw [isLeft, List.take_succ_cons, List.length_cons]
      by_cases full : targetTopk ≤ cnt + 1
      · have none : left = 0 := by omega
        rw [if_pos full, none, List.take_zero, List.length_nil, Nat.zero_add]
      · have next : targetTopk - (cnt + 1) = left := by omega
        rw [if_neg full, inductionHypothesis (by omega), next, List.singleton_append]
        dsimp only
        rw [Nat.add_assoc, Nat.add_comm 1]
    · rw [if_neg inside, if_neg inside, if_neg less.not_ge, inductionHypothesis less,
        List.nil_append, List.filter_cons, if_neg (by rwa [decide_eq_true_eq])]

namespace WindowInput

variable {input : WindowInput}

/-- The windows that are saved are those from the multiples of `step` on. -/
theorem mem_checkAndGen (positive : 0 < step input.batchNpts) {st : Nat} {file : List Nat} :
    (st, file) ∈ input.checkAndGen ↔
      (∃ round, st = round * step input.batchNpts) ∧ st < input.totNpts - input.batchNpts ∧
        input.windowFile st = some file := by
  have flat : ∀ starts : List Nat, ∀ files, starts.foldl (fun files st =>
      files ++ ((input.windowFile st).map fun file => (st, file)).toList) files =
        files ++ starts.flatMap fun st =>
          ((input.windowFile st).map fun file => (st, file)).toList := by
    intro starts
    induction starts with
    | nil => exact fun files => (List.append_nil files).symm
    | cons st rest inductionHypothesis =>
      intro files
      rw [List.foldl_cons, inductionHypothesis, List.flatMap_cons, List.append_assoc]
  rw [checkAndGen, whileBelow, flat, List.nil_append, List.mem_flatMap]
  have before : ∀ round, round < (input.totNpts - input.batchNpts - 0 +
      (step input.batchNpts - 1)) / step input.batchNpts ↔
        round * step input.batchNpts < input.totNpts - input.batchNpts := by
    intro round
    rw [← Nat.succ_le_iff, Nat.le_div_iff_mul_le positive, Nat.succ_mul]
    omega
  constructor
  · rintro ⟨_, inside, member⟩
    obtain ⟨round, less, rfl⟩ := List.mem_range'.mp inside
    obtain ⟨found, isFile, same⟩ := Option.map_eq_some_iff.mp (Option.mem_toList.mp member)
    obtain ⟨rfl, rfl⟩ := Prod.mk.inj same
    rw [Nat.zero_add, Nat.mul_comm] at isFile ⊢
    exact ⟨⟨round, rfl⟩, (before round).mp less, isFile⟩
  · rintro ⟨⟨round, rfl⟩, less, isFile⟩
    refine ⟨round * step input.batchNpts,
      List.mem_range'.mpr ⟨round, (before round).mpr less, ?_⟩, ?_⟩
    · rw [Nat.zero_add, Nat.mul_comm]
    · exact Option.mem_toList.mpr (Option.map_eq_some_iff.mpr ⟨file, isFile, rfl⟩)

/-- The loop over a query, in terms of what its row has in the window. -/
theorem scanQuery_eq (some : 0 < input.targetTopk) (st i : Nat) :
    input.scanQuery st i =
      (((rowAtOf input.data input.dim i).filter fun id =>
          input.realSt st ≤ id ∧ id < st + input.batchNpts).take input.targetTopk,
        (((rowAtOf input.data input.dim i).filter fun id =>
          input.realSt st ≤ id ∧ id < st + input.batchNpts).take input.targetTopk).length) := by
  rw [scanQuery, scanRow_eq _ some, Nat.zero_add, Nat.sub_zero]

/-- What is saved has a row of `target_topk` for every query. -/
theorem exists_windowFile {st : Nat} {file : List Nat} (isFile : input.windowFile st = some file) :
    (∀ i < input.nq, input.targetTopk ≤ (input.scanQuery st i).2) ∧
      file = ((List.range input.nq).map fun i => (input.scanQuery st i).1).flatten := by
  rw [windowFile] at isFile
  split at isFile
  · rename_i enough
    exact ⟨enough, (Option.some.inj isFile).symm⟩
  · exact absurd isFile nofun

theorem scanQuery_length (top : 0 < input.targetTopk) {st : Nat}
    (enough : ∀ i < input.nq, input.targetTopk ≤ (input.scanQuery st i).2) :
    ∀ row ∈ (List.range input.nq).map fun i => (input.scanQuery st i).1,
      row.length = input.targetTopk := by
  intro row member
  obtain ⟨i, isQuery, rfl⟩ := List.mem_map.mp member
  have full := enough i (List.mem_range.mp isQuery)
  rw [scanQuery_eq top] at full ⊢
  exact Nat.le_antisymm (List.length_take_le _ _) full

/-- What is saved can be read again. -/
theorem windowFile_rows (words : Rows input.data input.nq input.dim) (queries : 0 < input.nq)
    (top : 0 < input.targetTopk) {st : Nat} {file : List Nat}
    (isFile : input.windowFile st = some file) : Rows file input.nq input.targetTopk := by
  obtain ⟨enough, rfl⟩ := exists_windowFile isFile
  have inRow : ∀ i, ∀ id ∈ (input.scanQuery st i).1, id ∈ rowAtOf input.data input.dim i := by
    intro i id member
    rw [scanQuery_eq top] at member
    exact List.mem_of_mem_filter (List.mem_of_mem_take member)
  refine ⟨words.npts_lt, lt_of_le_of_lt ?_ words.ndims_lt, ?_, fun id member => ?_⟩
  · have first := enough 0 queries
    rw [scanQuery_eq top] at first
    calc input.targetTopk ≤ _ := first
      _ ≤ (rowAtOf input.data input.dim 0).length :=
        ((List.take_sublist _ _).trans List.filter_sublist).length_le
      _ ≤ input.dim := List.length_take_le _ _
  · rw [length_flatten_rows (scanQuery_length top enough), List.length_map, List.length_range]
  · obtain ⟨row, isRow, inside⟩ := List.mem_flatten.mp member
    obtain ⟨i, _, rfl⟩ := List.mem_map.mp isRow
    exact words.fit id (List.mem_of_mem_drop (List.mem_of_mem_take (inRow i id inside)))

end WindowInput

/-! ### The truth of the whole data -/

section Truth

variable {Scalar : Type} [CommRing Scalar] [LinearOrder Scalar]

namespace TruthInput

/-- The file of `compute_groundtruth`, with the distances as they are stored. -/
def truthFile {Stored : Type} (input : TruthInput Scalar) (format : Format Stored)
    (stored : Scalar → Stored) (rows : List (List (Nat × Scalar))) (tags : Option (List Nat)) :
    Bytes :=
  saveGroundtruthAsOneFile format (rows.flatten.map Prod.fst)
    (rows.flatten.map fun pair => stored pair.2) input.nqueries input.k tags

variable {input : TruthInput Scalar}

/-- The truth has a row for every query. -/
theorem exists_row {rows : List (List (Nat × Scalar))}
    (all : List.Forall₂ input.IsTruth (List.range input.nqueries) rows) {q : Nat}
    (isQuery : q < input.nqueries) : ∃ row, rows[q]? = some row ∧ input.IsTruth q row :=
  forall₂_getElem? all (by rw [List.getElem?_range isQuery])

/-- Every row is the one of a query. -/
theorem exists_query {rows : List (List (Nat × Scalar))}
    (all : List.Forall₂ input.IsTruth (List.range input.nqueries) rows)
    {row : List (Nat × Scalar)} (member : row ∈ rows) :
    ∃ q < input.nqueries, rows[q]? = some row ∧ input.IsTruth q row := by
  obtain ⟨q, inside, rfl⟩ := List.mem_iff_getElem.mp member
  have isQuery : q < input.nqueries := by
    have length := all.length_eq
    rw [List.length_range] at length
    exact length ▸ inside
  have there := List.getElem?_eq_getElem inside
  obtain ⟨row, same, isTruth⟩ := exists_row all isQuery
  exact ⟨q, isQuery, there, Option.some.inj (there.symm.trans same) ▸ isTruth⟩

theorem row_length {rows : List (List (Nat × Scalar))}
    (all : List.Forall₂ input.IsTruth (List.range input.nqueries) rows) :
    ∀ row ∈ rows, row.length = input.k := by
  intro row member
  obtain ⟨q, _, _, isTruth⟩ := exists_query all member
  exact isTruth.length

/-- The identifiers or the distances of a query in their array. -/
theorem rowAtOf_truth {Part : Type} {rows : List (List (Nat × Scalar))}
    (all : List.Forall₂ input.IsTruth (List.range input.nqueries) rows) {q : Nat}
    {row : List (Nat × Scalar)} (there : rows[q]? = some row) (part : Nat × Scalar → Part) :
    rowAtOf (rows.flatten.map part) input.k q = row.map part := by
  rw [rowAtOf, ← List.map_drop, ← List.map_take, ← rowAtOf,
    rowAtOf_flatten (row_length all) there]

/-- The counts and the identifiers of the truth are words. -/
theorem rows_truth {rows : List (List (Nat × Scalar))}
    (all : List.Forall₂ input.IsTruth (List.range input.nqueries) rows)
    (queries : input.nqueries < 2 ^ 32) (neighbours : input.k < 2 ^ 32)
    (points : input.npts ≤ 2 ^ 32) :
    Rows (rows.flatten.map Prod.fst) input.nqueries input.k where
  npts_lt := queries
  ndims_lt := neighbours
  length := by
    rw [List.length_map, length_flatten_rows (row_length all), ← all.length_eq, List.length_range]
  fit id member := by
    obtain ⟨pair, inside, rfl⟩ := List.mem_map.mp member
    obtain ⟨row, isRow, inRow⟩ := List.mem_flatten.mp inside
    obtain ⟨q, _, _, isTruth⟩ := exists_query all isRow
    have known := isTruth.nearest.subset _ (List.mem_map_of_mem inRow)
    exact (mem_range.mp known).trans_le points

/-- The file of a window has the nearest ones of its points, for every query. -/
structure IsWindowTruth (input : TruthInput Scalar) (update : WindowInput) (st : Nat)
    (file : List Nat) : Prop where
  length : file.length = input.nqueries * update.targetTopk
  nearest : ∀ q < input.nqueries, Nearest (input.distance q) update.targetTopk
    ((range input.npts).filter fun id => update.realSt st ≤ id ∧ id < st + update.batchNpts)
    (rowAtOf file update.targetTopk q)

/-- What is saved of a truth, and when. -/
theorem windowFile_truth {rows : List (List (Nat × Scalar))}
    (all : List.Forall₂ input.IsTruth (List.range input.nqueries) rows) {update : WindowInput}
    (data : update.data = rows.flatten.map Prod.fst) (nq : update.nq = input.nqueries)
    (dim : update.dim = input.k) (top : 0 < update.targetTopk) (st : Nat) :
    (∀ file, update.windowFile st = some file → input.IsWindowTruth update st file) ∧
      ((∃ file, update.windowFile st = some file) ↔ ∀ row ∈ rows, update.targetTopk ≤
        row.countP fun pair => update.realSt st ≤ pair.1 ∧ pair.1 < st + update.batchNpts) := by
  have scanned : ∀ {q row}, rows[q]? = some row → update.scanQuery st q =
      (((row.map Prod.fst).filter fun id =>
          update.realSt st ≤ id ∧ id < st + update.batchNpts).take update.targetTopk,
        (((row.map Prod.fst).filter fun id =>
          update.realSt st ≤ id ∧ id < st + update.batchNpts).take update.targetTopk).length) := by
    intro q row there
    rw [WindowInput.scanQuery_eq top, data, dim, rowAtOf_truth all there Prod.fst]
  have counted : ∀ {q row}, rows[q]? = some row →
      (update.targetTopk ≤ (update.scanQuery st q).2 ↔ update.targetTopk ≤
        row.countP fun pair => update.realSt st ≤ pair.1 ∧ pair.1 < st + update.batchNpts) := by
    intro q row there
    rw [scanned there, List.length_take, ← List.countP_eq_length_filter, List.countP_map,
      le_inf_iff, and_iff_right (le_refl _)]
    rfl
  refine ⟨fun file isFile => ?_, fun ⟨file, isFile⟩ row member => ?_, fun enough => ?_⟩
  · obtain ⟨enough, rfl⟩ := WindowInput.exists_windowFile isFile
    have size := WindowInput.scanQuery_length top enough
    rw [nq] at enough size ⊢
    refine ⟨?_, fun q isQuery => ?_⟩
    · rw [length_flatten_rows size, List.length_map, List.length_range]
    · obtain ⟨row, there, isTruth⟩ := exists_row all isQuery
      have some := enough q isQuery
      rw [scanned there, List.length_take, le_inf_iff] at some
      rw [rowAtOf_flatten size (by
        rw [List.getElem?_map, List.getElem?_range isQuery, Option.map_some]), scanned there]
      exact (isTruth.nearest.filter _).take some.2
  · obtain ⟨q, isQuery, there, _⟩ := exists_query all member
    exact (counted there).mp ((WindowInput.exists_windowFile isFile).1 q (nq ▸ isQuery))
  · refine ⟨_, if_pos fun q isQuery => ?_⟩
    obtain ⟨row, there, _⟩ := exists_row all (nq ▸ isQuery)
    exact (counted there).mpr (enough row (List.mem_of_getElem? there))

omit [CommRing Scalar] in
/-- What `gt_update` reads of the file. -/
theorem ofFile_truthFile {Stored : Type} {rows : List (List (Nat × Scalar))}
    (words : Rows (rows.flatten.map Prod.fst) input.nqueries input.k) (format : Format Stored)
    (stored : Scalar → Stored) (tags : Option (List Nat)) {totNpts batchNpts : Nat}
    (batch : batchNpts ≤ totNpts) (targetTopk : Nat) (insertOnly : Bool) :
    WindowInput.ofFile (input.truthFile format stored rows tags) batch targetTopk insertOnly =
      some ⟨rows.flatten.map Prod.fst, input.nqueries, input.k, totNpts, batchNpts, batch,
        targetTopk, insertOnly⟩ := by
  rw [WindowInput.ofFile, truthFile, saveGroundtruthAsOneFile, List.append_assoc,
    loadBinIds_append words]
  rfl

end TruthInput

/-- `gt_update` writes for a window exactly the nearest points of every query that are in it, and
`load_truthset` reads them if and only if no longer file of the window was there. It writes the
windows from the multiples of its step on in which every query has enough of its neighbours. -/
theorem update_truth_is_exact {Stored : Type} {input : TruthInput Scalar} (some : 0 < input.k)
    (full : input.PartsFull) (someQueries : 0 < input.nqueries) (queries : input.nqueries < 2 ^ 32)
    (neighbours : input.k < 2 ^ 32) (points : input.npts ≤ 2 ^ 32) (format : Format Stored)
    (stored : Scalar → Stored) (tags : Option (List Nat)) {totNpts batchNpts targetTopk : Nat}
    (hundred : 100 ≤ batchNpts) (batch : batchNpts ≤ totNpts) (top : 0 < targetTopk)
    (insertOnly : Bool) :
    ∃ rows update, input.truth = .some rows ∧
      WindowInput.ofFile (input.truthFile format stored rows tags) batch targetTopk insertOnly =
        .some update ∧
      (∀ st, (∃ file, (st, file) ∈ update.checkAndGen) ↔
        (∃ round, st = round * WindowInput.step batchNpts) ∧ st < totNpts - batchNpts ∧
          ∀ row ∈ rows, targetTopk ≤
            row.countP fun pair => update.realSt st ≤ pair.1 ∧ pair.1 < st + batchNpts) ∧
      ∀ st file, (st, file) ∈ update.checkAndGen → input.IsWindowTruth update st file ∧
        ∀ withTags (before : Bytes),
          loadTruthset format withTags (saveBinIds before file input.nqueries targetTopk) =
              .some ⟨input.nqueries, targetTopk, file, none, none⟩ ↔
            before.length ≤ input.nqueries * targetTopk * 4 + 2 * 4 := by
  obtain ⟨rows, isRows, all⟩ := mapM_some fun q isQuery =>
    TruthInput.truthRow_spec some full (List.mem_range.mp isQuery)
  have words := TruthInput.rows_truth all queries neighbours points
  have positive := WindowInput.step_pos hundred
  have read := TruthInput.ofFile_truthFile words format stored tags batch targetTopk insertOnly
  generalize isUpdate : (⟨rows.flatten.map Prod.fst, input.nqueries, input.k, totNpts, batchNpts,
    batch, targetTopk, insertOnly⟩ : WindowInput) = update at read
  have window := fun st => @TruthInput.windowFile_truth _ _ _ _ _ all update
    (isUpdate ▸ rfl) (isUpdate ▸ rfl) (isUpdate ▸ rfl) (isUpdate ▸ top) st
  have files := fun st file => @WindowInput.mem_checkAndGen update (isUpdate ▸ positive) st file
  have saved := fun st file => @WindowInput.windowFile_rows update (isUpdate ▸ words)
    (isUpdate ▸ someQueries) (isUpdate ▸ top) st file
  refine ⟨rows, update, isRows, read, fun st => ?_, fun st file member => ?_⟩
  · subst isUpdate
    rw [← (window st).2]
    constructor
    · rintro ⟨file, member⟩
      obtain ⟨round, less, isFile⟩ := (files st file).mp member
      exact ⟨round, less, file, isFile⟩
    · rintro ⟨round, less, file, isFile⟩
      exact ⟨file, (files st file).mpr ⟨round, less, isFile⟩⟩
  · have isFile := ((files st file).mp member).2.2
    refine ⟨(window st).1 file isFile, fun withTags before => ?_⟩
    have rowsOfFile := saved st file isFile
    subst isUpdate
    exact loadTruthset_saveBinIds_iff rowsOfFile (Nat.mul_pos someQueries top) withTags before

end Truth

/-- The nearest one of two neighbours, in windows of 100 points. -/
theorem update_truth_is_exact_fiveNumbers : ∃ rows update, fiveNumbers.truth = some rows ∧
    WindowInput.ofFile (fiveNumbers.truthFile (Format.bits 4) (BitVec.ofInt 32) rows none)
      (by decide : 100 ≤ 300) 1 false = some update ∧
    ∀ st file, (st, file) ∈ update.checkAndGen → fiveNumbers.IsWindowTruth update st file := by
  obtain ⟨rows, update, isRows, isUpdate, _, nearest⟩ := @update_truth_is_exact _ _ _ _
    fiveNumbers (by decide) ⟨by decide, by decide⟩ (by decide) (by decide) (by decide) (by decide)
    (Format.bits 4) (BitVec.ofInt 32) none 300 100 1 (by decide) (by decide) (by decide) false
  exact ⟨rows, update, isRows, isUpdate, fun st file member => (nearest st file member).1⟩

end OdinVector
