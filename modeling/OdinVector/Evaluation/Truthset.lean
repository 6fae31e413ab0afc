/-
This file models the files of a ground truth: what `compute_groundtruth` and `save_bin` write, and
how `load_truthset` and `load_bin` read it. `load_truthset` tells the kinds of files by their
sizes alone. `save_bin` writes over the file that is there and does not cut it, so what is behind
counts too.

A read past the end of a file gives nothing, and neither does a crash.
-/

import OdinVector.InMemory.Sections

namespace OdinVector

open Binary

section Files

variable {Scalar : Type} (format : Format Scalar)

/-- `save_groundtruth_as_one_file`. -/
def saveGroundtruthAsOneFile (data : List Nat) (distances : List Scalar) (npts ndims : Nat)
    (tags : Option (List Nat)) : Bytes :=
  binBytes npts ndims
    (wordsOf 4 data ++ distances.flatMap format.encode ++ wordsOf 4 (tags.getD data))

/-- `save_bin` of identifiers, over the file that is there. -/
def saveBinIds (file : Bytes) (data : List Nat) (npts ndims : Nat) : Bytes :=
  writeAt file 0 (binBytes npts ndims (wordsOf 4 data))

/-- `load_bin` of identifiers. -/
def loadBinIds (file : Bytes) : Option ((Nat × Nat) × List Nat) :=
  (Index.readBin file 0).bind fun (sizes, rest) =>
    (readAll (readWord 4) (sizes.1 * sizes.2) rest).map fun (data, _) => (sizes, data)

/-- What `load_truthset` leaves. -/
structure Truthset (Scalar : Type) where
  npts : Nat
  dim : Nat
  ids : List Nat
  dists : Option (List Scalar)
  tags : Option (List Nat)
  deriving DecidableEq

/-- `truthset_type`, where the last size that fits counts. -/
def truthsetType (actualFileSize npts dim : Nat) : Option Nat :=
  let found := if actualFileSize = 2 * npts * dim * 4 + 2 * 4 then some 1 else none
  let found := if actualFileSize = npts * dim * 4 + 2 * 4 then some 2 else found
  if actualFileSize = 3 * npts * dim * 4 + 2 * 4 then some 3 else found

/-- The next values of a stream. -/
def readValues (count : Nat) (stream : Bytes) : Option (List Scalar × Bytes) :=
  readAll (fun stream => (readBytes format.width stream).map fun (bytes, rest) =>
    (format.decode bytes, rest)) count stream

/-- `load_truthset`, with or without a place for the tags. -/
def loadTruthset (withTags : Bool) (file : Bytes) : Option (Truthset Scalar) :=
  (Index.readBin file 0).bind fun ((npts, dim), rest) =>
    (truthsetType file.length npts dim).bind fun truthsetType =>
      (readAll (readWord 4) (npts * dim) rest).bind fun (ids, rest) =>
        if truthsetType = 2 then some ⟨npts, dim, ids, none, none⟩
        else
          (readValues format (npts * dim) rest).bind fun (dists, rest) =>
            if truthsetType = 1 then some ⟨npts, dim, ids, some dists, none⟩
            else if withTags then
              (readAll (readWord 4) (npts * dim) rest).map fun (tags, _) =>
                ⟨npts, dim, ids, some dists, some tags⟩
            else none

/-! ### Sizes -/

/-- What may be written: the counts and the identifiers are words, and there are as many of
everything as the counts say. -/
structure Rows (data : List Nat) (npts ndims : Nat) : Prop where
  npts_lt : npts < 2 ^ 32
  ndims_lt : ndims < 2 ^ 32
  length : data.length = npts * ndims
  fit : ∀ id ∈ data, id < 2 ^ 32

theorem truthsetType_ids {npts dim : Nat} (some : 0 < npts * dim) :
    truthsetType (npts * dim * 4 + 2 * 4) npts dim = .some 2 := by
  have double : ¬ npts * dim * 4 + 2 * 4 = 3 * npts * dim * 4 + 2 * 4 := by
    rw [Nat.mul_assoc 3]
    omega
  rw [truthsetType, if_pos rfl, if_neg double]

theorem truthsetType_dists {npts dim : Nat} (some : 0 < npts * dim) :
    truthsetType (2 * (npts * dim) * 4 + 2 * 4) npts dim = .some 1 := by
  have ids : ¬ 2 * (npts * dim) * 4 + 2 * 4 = npts * dim * 4 + 2 * 4 := by omega
  have all : ¬ 2 * (npts * dim) * 4 + 2 * 4 = 3 * npts * dim * 4 + 2 * 4 := by
    rw [Nat.mul_assoc 3]
    omega
  rw [truthsetType, if_neg ids, if_neg all, if_pos (by rw [Nat.mul_assoc 2 npts dim])]

theorem truthsetType_tags (npts dim : Nat) :
    truthsetType (3 * (npts * dim) * 4 + 2 * 4) npts dim = .some 3 :=
  if_pos (by rw [Nat.mul_assoc 3 npts dim])

theorem length_binBytes (npts ndims : Nat) (body : Bytes) :
    (binBytes npts ndims body).length = 2 * 4 + body.length := by
  rw [binBytes, List.length_append, List.length_append, length_bytesOf, length_bytesOf]

/-- The identifiers, and what of the file is behind them. -/
theorem saveBinIds_eq (file : Bytes) {data : List Nat} {npts ndims : Nat}
    (rows : Rows data npts ndims) : saveBinIds file data npts ndims =
      binBytes npts ndims (wordsOf 4 data ++ file.drop (npts * ndims * 4 + 2 * 4)) := by
  rw [saveBinIds, writeAt_zero, length_binBytes, length_wordsOf, rows.length,
    Nat.add_comm (2 * 4), binBytes, binBytes, List.append_assoc]

/-- The size of a file with nothing behind its identifiers. -/
theorem truthsetType_eq_ids {size npts dim : Nat} (ids : truthsetType size npts dim = some 2) :
    size = npts * dim * 4 + 2 * 4 := by
  unfold truthsetType at ids
  dsimp only at ids
  split at ids
  · exact absurd (Option.some.inj ids) (by decide)
  · split at ids
    · assumption
    · split at ids
      · exact absurd (Option.some.inj ids) (by decide)
      · exact absurd ids nofun

/-! ### Reading -/

variable {format}

/-- Values that were written are read. -/
theorem readValues_append (values : List Scalar) (rest : Bytes) :
    readValues format values.length (values.flatMap format.encode ++ rest) = some (values, rest) :=
  readAll_append (fun value _ rest => by
    rw [readBytes_append (format.length_encode value), Option.map_some]
    dsimp only
    rw [format.decode_encode]) rest

theorem Rows.readBin_eq {data : List Nat} {npts ndims : Nat} (rows : Rows data npts ndims)
    (body : Bytes) : Index.readBin (binBytes npts ndims body) 0 = some ((npts, ndims), body) := by
  have counts : Index.readBin (binBytes npts ndims body) 0 = some ((npts, ndims), body ++ []) :=
    Index.readBin_section rows.npts_lt rows.ndims_lt (List.append_nil _).symm
  rwa [List.append_nil] at counts

theorem Rows.readWords_eq {data : List Nat} {npts ndims : Nat} (rows : Rows data npts ndims)
    (rest : Bytes) :
    readAll (readWord 4) (npts * ndims) (wordsOf 4 data ++ rest) = some (data, rest) :=
  rows.length ▸ readWords_append rows.fit rest

/-- What `load_truthset` makes of a file with its counts and identifiers. -/
theorem loadTruthset_ids {data : List Nat} {npts ndims : Nat} (rows : Rows data npts ndims)
    (withTags : Bool) (rest : Bytes) :
    loadTruthset format withTags (binBytes npts ndims (wordsOf 4 data ++ rest)) =
      (truthsetType (npts * ndims * 4 + 2 * 4 + rest.length) npts ndims).bind fun truthsetType =>
        if truthsetType = 2 then some ⟨npts, ndims, data, none, none⟩
        else
          (readValues format (npts * ndims) rest).bind fun (dists, rest) =>
            if truthsetType = 1 then some ⟨npts, ndims, data, some dists, none⟩
            else if withTags then
              (readAll (readWord 4) (npts * ndims) rest).map fun (tags, _) =>
                ⟨npts, ndims, data, some dists, some tags⟩
            else none := by
  have size : (binBytes npts ndims (wordsOf 4 data ++ rest)).length =
      npts * ndims * 4 + 2 * 4 + rest.length := by
    rw [binBytes, List.length_append, List.length_append, List.length_append, length_bytesOf,
      length_bytesOf, length_wordsOf, rows.length]
    ring
  rw [loadTruthset, rows.readBin_eq, Option.bind_some]
  dsimp only
  rw [size]
  refine congrArg (Option.bind _) (funext fun truthsetType => ?_)
  rw [rows.readWords_eq, Option.bind_some]

/-- The identifiers are read alone if and only if no longer file was there. -/
theorem loadTruthset_saveBinIds_iff {data : List Nat} {npts ndims : Nat}
    (rows : Rows data npts ndims) (some : 0 < npts * ndims) (withTags : Bool) (file : Bytes) :
    loadTruthset format withTags (saveBinIds file data npts ndims) =
        .some ⟨npts, ndims, data, none, none⟩ ↔
      file.length ≤ npts * ndims * 4 + 2 * 4 := by
  rw [saveBinIds_eq file rows, loadTruthset_ids rows, List.length_drop]
  constructor
  · intro alone
    obtain ⟨kind, isKind, read⟩ := Option.bind_eq_some_iff.mp alone
    split at read
    · rename_i ids
      have size := truthsetType_eq_ids (isKind.trans (congrArg Option.some ids))
      omega
    · -- The other kinds have distances.
      obtain ⟨⟨dists, rest⟩, _, read⟩ := Option.bind_eq_some_iff.mp read
      have distances : ∃ tags, (⟨npts, ndims, data, .some dists, tags⟩ : Truthset Scalar) =
          ⟨npts, ndims, data, none, none⟩ := by
        dsimp only at read
        split at read
        · exact ⟨none, Option.some.inj read⟩
        · split at read
          · obtain ⟨⟨tags, _⟩, _, same⟩ := Option.map_eq_some_iff.mp read
            exact ⟨.some tags, same⟩
          · exact absurd read nofun
      obtain ⟨tags, same⟩ := distances
      exact absurd (congrArg Truthset.dists same) nofun
  · intro short
    rw [Nat.sub_eq_zero_of_le short, Nat.add_zero, truthsetType_ids some, Option.bind_some,
      if_pos rfl]

theorem loadBinIds_append {data : List Nat} {npts ndims : Nat} (rows : Rows data npts ndims)
    (rest : Bytes) :
    loadBinIds (binBytes npts ndims (wordsOf 4 data ++ rest)) = some ((npts, ndims), data) := by
  rw [loadBinIds, rows.readBin_eq, Option.bind_some]
  dsimp only
  rw [rows.readWords_eq, Option.map_some]

/-! ### Files that were cut off -/

theorem truthsetType_none {size npts dim : Nat} (ids : size ≠ npts * dim * 4 + 2 * 4)
    (dists : size ≠ 2 * (npts * dim) * 4 + 2 * 4) (tags : size ≠ 3 * (npts * dim) * 4 + 2 * 4) :
    truthsetType size npts dim = none := by
  rw [truthsetType, Nat.mul_assoc 2, Nat.mul_assoc 3, if_neg dists, if_neg ids, if_neg tags]

theorem take_binBytes (npts ndims : Nat) (body : Bytes) (count : Nat) :
    (binBytes npts ndims body).take (2 * 4 + count) = binBytes npts ndims (body.take count) := by
  have counts : (bytesOf 4 npts ++ bytesOf 4 ndims).length = 2 * 4 := by
    rw [List.length_append, length_bytesOf, length_bytesOf]
  rw [binBytes, ← counts, List.take_length_add_append]
  rfl

/-- A file without its counts. -/
theorem readBin_short {file : Bytes} (short : file.length < 2 * 4) :
    Index.readBin file 0 = none := by
  rw [Index.readBin, List.drop_zero, readWord, readBytes]
  split
  · rw [Option.map_some, Option.bind_some]
    dsimp only
    rw [readWord, readBytes, if_neg (by rw [List.length_drop]; omega)]
    rfl
  · rfl

/-- A file that ends before its identifiers do. -/
theorem loadTruthset_short {data : List Nat} {npts ndims : Nat} (rows : Rows data npts ndims)
    (withTags : Bool) (body : Bytes) {size : Nat} (short : size < npts * ndims * 4 + 2 * 4) :
    loadTruthset format withTags ((binBytes npts ndims body).take size) = none := by
  rcases Nat.lt_or_ge size (2 * 4) with noCounts | counts
  · have none := readBin_short ((List.length_take_le size (binBytes npts ndims body)).trans_lt
      noCounts)
    rw [loadTruthset, none]
    rfl
  · obtain ⟨count, rfl⟩ := Nat.exists_eq_add_of_le counts
    rw [loadTruthset, take_binBytes, rows.readBin_eq, Option.bind_some]
    dsimp only
    have length := List.length_take_le count body
    rw [length_binBytes, truthsetType_none (by omega) (by omega) (by omega)]
    rfl

/-- A file that ends behind its identifiers. -/
theorem loadTruthset_cut {data : List Nat} {npts ndims : Nat} (rows : Rows data npts ndims)
    (some : 0 < npts * ndims) (withTags : Bool) {distances : List Scalar} (width : format.width = 4)
    (length : distances.length = npts * ndims) {tags : Bytes}
    (tagsLength : tags.length = npts * ndims * 4) {count : Nat}
    (short : count < 2 * (npts * ndims) * 4) :
    loadTruthset format withTags (binBytes npts ndims (wordsOf 4 data ++
        (distances.flatMap format.encode ++ tags).take count)) =
      if count = 0 then .some ⟨npts, ndims, data, none, none⟩
      else if count = npts * ndims * 4 then .some ⟨npts, ndims, data, .some distances, none⟩
      else none := by
  have values : (distances.flatMap format.encode).length = npts * ndims * 4 := by
    rw [length_flatMap_const fun value _ => format.length_encode value, length, width]
  have cut : ((distances.flatMap format.encode ++ tags).take count).length = count := by
    rw [List.length_take, List.length_append, values, tagsLength]
    omega
  rw [loadTruthset_ids rows, cut]
  by_cases ids : count = 0
  · rw [if_pos ids, ids, Nat.add_zero, truthsetType_ids some, Option.bind_some, if_pos rfl]
  rw [if_neg ids]
  by_cases dists : count = npts * ndims * 4
  · have size : npts * ndims * 4 + 2 * 4 + count = 2 * (npts * ndims) * 4 + 2 * 4 := by omega
    have read : readValues format (npts * ndims) (distances.flatMap format.encode ++ []) =
        .some (distances, []) := length ▸ readValues_append distances []
    rw [List.append_nil] at read
    rw [if_pos dists, size, truthsetType_dists some, Option.bind_some, if_neg (by decide), dists,
      ← values, List.take_left, read, Option.bind_some]
    exact if_pos rfl
  · rw [if_neg dists, truthsetType_none (by omega) (by omega) (by omega)]
    rfl

/-- `load_truthset` reads back the identifiers, the distances and the tags of a file of
`compute_groundtruth`, but crashes without a place for the tags; `load_bin` reads its identifiers.
Of a file of `save_bin` it has the identifiers alone if and only if no longer file was there. A file
that was cut off is refused, except where exactly the tags, or the tags and the distances, are
missing. -/
theorem truthset_files_are_read {data : List Nat} {npts ndims : Nat} (rows : Rows data npts ndims)
    (some : 0 < npts * ndims) {distances : List Scalar} (width : format.width = 4)
    (length : distances.length = npts * ndims) {tags : Option (List Nat)}
    (tagRows : Rows (tags.getD data) npts ndims) :
    loadTruthset format true (saveGroundtruthAsOneFile format data distances npts ndims tags) =
        .some ⟨npts, ndims, data, .some distances, .some (tags.getD data)⟩ ∧
      loadTruthset format false (saveGroundtruthAsOneFile format data distances npts ndims tags) =
        none ∧
      loadBinIds (saveGroundtruthAsOneFile format data distances npts ndims tags) =
        .some ((npts, ndims), data) ∧
      ∀ withTags,
        (∀ file : Bytes, loadTruthset format withTags (saveBinIds file data npts ndims) =
            .some ⟨npts, ndims, data, none, none⟩ ↔ file.length ≤ npts * ndims * 4 + 2 * 4) ∧
        ∀ size < (saveGroundtruthAsOneFile format data distances npts ndims tags).length,
          loadTruthset format withTags
              ((saveGroundtruthAsOneFile format data distances npts ndims tags).take size) =
            if size = npts * ndims * 4 + 2 * 4 then .some ⟨npts, ndims, data, none, none⟩
            else if size = 2 * (npts * ndims) * 4 + 2 * 4 then
              .some ⟨npts, ndims, data, .some distances, none⟩
            else none := by
  have tagWords : (wordsOf 4 (tags.getD data)).length = npts * ndims * 4 := by
    rw [length_wordsOf, tagRows.length]
  have values : (distances.flatMap format.encode).length = npts * ndims * 4 := by
    rw [length_flatMap_const fun value _ => format.length_encode value, length, width]
  have whole : npts * ndims * 4 + 2 * 4 +
      (distances.flatMap format.encode ++ wordsOf 4 (tags.getD data)).length =
        3 * (npts * ndims) * 4 + 2 * 4 := by
    rw [List.length_append, values, tagWords]
    ring
  have read : readValues format (npts * ndims)
      (distances.flatMap format.encode ++ wordsOf 4 (tags.getD data)) =
        .some (distances, wordsOf 4 (tags.getD data)) := length ▸ readValues_append distances _
  have readTags : readAll (readWord 4) (npts * ndims) (wordsOf 4 (tags.getD data)) =
      .some (tags.getD data, []) := by
    have read := tagRows.readWords_eq []
    rwa [List.append_nil] at read
  rw [saveGroundtruthAsOneFile, List.append_assoc]
  refine ⟨?_, ?_, loadBinIds_append rows _, fun withTags =>
    ⟨loadTruthset_saveBinIds_iff rows some withTags, fun size inside => ?_⟩⟩
  · rw [loadTruthset_ids rows, whole, truthsetType_tags, Option.bind_some, if_neg (by decide), read,
      Option.bind_some]
    dsimp only
    rw [if_neg (by decide), if_pos rfl, readTags]
    rfl
  · rw [loadTruthset_ids rows, whole, truthsetType_tags, Option.bind_some, if_neg (by decide), read,
      Option.bind_some]
    dsimp only
    rw [if_neg (by decide), if_neg Bool.false_ne_true]
  · rcases Nat.lt_or_ge size (npts * ndims * 4 + 2 * 4) with short | long
    · rw [loadTruthset_short rows withTags _ short, if_neg (by omega), if_neg (by omega)]
    · obtain ⟨count, rfl⟩ := Nat.exists_eq_add_of_le long
      have dataWords : (wordsOf 4 data).length = npts * ndims * 4 := by
        rw [length_wordsOf, rows.length]
      have split : npts * ndims * 4 + 2 * 4 + count =
          2 * 4 + ((wordsOf 4 data).length + count) := by
        rw [dataWords]
        ring
      rw [length_binBytes, List.length_append, dataWords, List.length_append, values, tagWords]
        at inside
      rw [split, take_binBytes, List.take_length_add_append,
        loadTruthset_cut rows some withTags width length tagWords (by omega), dataWords]
      exact if_congr (by omega) rfl (if_congr (by omega) rfl rfl)

end Files

/-- The truth of a query with two neighbours, with tags. -/
theorem truthset_files_are_read_pair :
    loadTruthset (Format.bits 4) true
        (saveGroundtruthAsOneFile (Format.bits 4) [3, 1] [7, 9] 1 2 (some [5, 4])) =
      some ⟨1, 2, [3, 1], some [7, 9], some [5, 4]⟩ :=
  (@truthset_files_are_read _ (Format.bits 4) _ _ _ ⟨by decide, by decide, rfl, by decide⟩
    (by decide) _ rfl rfl (some [5, 4]) ⟨by decide, by decide, rfl, by decide⟩).1

end OdinVector
