/-
This file models `shard_data_into_clusters`, which copies every vector of a file into the
shards of its closest centres: the blocks that are read, the buffer of each shard with the
flushes in the loop and behind it, and the headers that are written last.

A division by 0 ends the program. `std::ofstream` truncates its file.
-/

import OdinVector.Build.Shards
import OdinVector.SectorDivision

namespace OdinVector

open Binary DiskHeader

/-! ### Files and centres -/

/-- A file of vectors: the number of them, their dimension, `sizeof(T)` and the elements. -/
structure VectorFile where
  npts : Nat
  dim : Nat
  sizeofT : Nat
  elements : Bytes
  nptsFits : npts < 2 ^ 32
  dimFits : dim < 2 ^ 32
  complete : elements.length = npts * (dim * sizeofT)

namespace VectorFile

variable (file : VectorFile)

/-- The bytes of the file. -/
def bytes : Bytes := bytesOf 4 file.npts ++ bytesOf 4 file.dim ++ file.elements

/-- The bytes of a vector. -/
def vector (id : Nat) : Bytes :=
  (file.elements.drop (id * (file.dim * file.sizeofT))).take (file.dim * file.sizeofT)

end VectorFile

/-- What `compute_closest_centers` writes for the points: so many different centres for each. -/
structure ClosestCenters (numCenters kBase : Nat) where
  centers : Nat → List Nat
  length : ∀ id, (centers id).length = kBase
  distinct : ∀ id, (centers id).Nodup
  inside : ∀ id, ∀ center ∈ centers id, center < numCenters

/-- The centres that a heap gives which has each of them once. -/
def ClosestCenters.ofHeap {numCenters kBase : Nat} (fits : kBase ≤ numCenters)
    (popped : Nat → List Nat) (each : ∀ id, (popped id).Perm (List.range numCenters)) :
    ClosestCenters numCenters kBase where
  centers id := (popped id).take kBase
  length id := by
    rw [List.length_take, (each id).length_eq, List.length_range, Nat.min_eq_left fits]
  distinct id := ((each id).nodup_iff.mpr List.nodup_range).sublist (List.take_sublist _ _)
  inside id center member :=
    List.mem_range.mp ((each id).mem_iff.mp (List.mem_of_mem_take member))

/-! ### The files of a shard -/

/-- The two writers of a shard with their buffers, and `shard_counts`. -/
structure ShardWriter where
  data : Bytes
  idmap : Bytes
  dataBuffer : Bytes
  idmapBuffer : List Nat
  count : Nat

/-- The data file and the id map of a shard. -/
structure ShardData where
  data : Bytes
  idmap : Bytes

namespace ShardWriter

/-- New files with headers of no rows. -/
def openFiles (dim : Nat) : ShardWriter :=
  ⟨bytesOf 4 0 ++ bytesOf 4 dim, bytesOf 4 0 ++ bytesOf 4 1, [], [], 0⟩

/-- The buffers are written and cleared. -/
def flush (writer : ShardWriter) : ShardWriter :=
  { writer with
    data := writer.data ++ writer.dataBuffer
    idmap := writer.idmap ++ wordsOf 4 writer.idmapBuffer
    dataBuffer := []
    idmapBuffer := [] }

/-- A vector goes to the buffers. -/
def put (pointsPerBuffer : Nat) (vector : Bytes) (id : Nat) (writer : ShardWriter) :
    ShardWriter :=
  let buffered := { writer with
    dataBuffer := writer.dataBuffer ++ vector
    idmapBuffer := writer.idmapBuffer ++ [id]
    count := writer.count + 1 }
  if pointsPerBuffer ≤ buffered.idmapBuffer.length then buffered.flush else buffered

/-- The last flush, and the headers. -/
def close (writer : ShardWriter) : ShardData :=
  let flushed := if writer.idmapBuffer.isEmpty then writer else writer.flush
  ⟨writeAt flushed.data 0 (bytesOf 4 flushed.count),
    writeAt flushed.idmap 0 (bytesOf 4 flushed.count)⟩

end ShardWriter

/-! ### The loop -/

namespace ShardWriter

variable (centers : Nat → List Nat) (pointsPerBuffer rowSize : Nat)

/-- A point goes to the shards of its centres. -/
def putPoint (vector : Bytes) (id : Nat) (writers : Nat → ShardWriter) : Nat → ShardWriter :=
  (centers id).foldl (fun writers shard =>
    Function.update writers shard ((writers shard).put pointsPerBuffer vector id)) writers

/-- The points of a block. -/
def putBlock (startId curBlkSize : Nat) (block : Bytes) (writers : Nat → ShardWriter) :
    Nat → ShardWriter :=
  (List.range curBlkSize).foldl (fun writers p =>
    putPoint centers pointsPerBuffer ((block.drop (p * rowSize)).take rowSize) (startId + p)
      writers) writers

end ShardWriter

/-- `MAX_BLOCK_SIZE`. -/
def shardBlockSize : Nat := 16384

/-- A block is read and copied. -/
def shardBlock (centers : Nat → List Nat) (pointsPerBuffer rowSize numPoints blockSize : Nat)
    (state : CachedIfstream × (Nat → ShardWriter)) (block : Nat) :
    Except Fault (CachedIfstream × (Nat → ShardWriter)) := do
  let startId := block * blockSize
  let curBlkSize := min ((block + 1) * blockSize) numPoints - startId
  let (elements, reader) ← orCrash (state.1.read (curBlkSize * rowSize))
  return (reader, ShardWriter.putBlock centers pointsPerBuffer rowSize startId curBlkSize elements
    state.2)

/-- `shard_data_into_clusters`; `none` is the return of -1. -/
def shardDataIntoClusters (dataFile : Bytes) (dim sizeofT : Nat) (centers : Nat → List Nat) :
    Except Fault (Option (Nat → ShardData)) := do
  let (npts, reader) ← orCrash
    ((CachedIfstream.openFile dataFile (64 * 1024 * 1024)).readWord 4)
  let (baseDim, reader) ← orCrash (reader.readWord 4)
  if baseDim ≠ dim then return none
  let bufferPoints ← divide (1024 * 1024) (dim * sizeofT)
  let pointsPerBuffer := if 0 < bufferPoints then bufferPoints else 1024
  let blockSize := if npts ≤ min shardBlockSize npts then npts else min shardBlockSize npts
  let quotient ← divide npts blockSize
  let rest ← remainder npts blockSize
  let numBlocks := quotient + if rest = 0 then 0 else 1
  let (_, writers) ← (List.range numBlocks).foldlM
    (shardBlock centers pointsPerBuffer (dim * sizeofT) npts blockSize)
    (reader, fun _ => ShardWriter.openFiles baseDim)
  return some fun shard => (writers shard).close

/-! ### What a writer holds -/

namespace ShardWriter

/-- The files and the buffers of a writer together have the vectors of some ids. -/
structure Holds (dim : Nat) (vector : Nat → Bytes) (ids : List Nat) (writer : ShardWriter) :
    Prop where
  data : writer.data ++ writer.dataBuffer =
    bytesOf 4 0 ++ bytesOf 4 dim ++ ids.flatMap vector
  idmap : writer.idmap ++ wordsOf 4 writer.idmapBuffer =
    bytesOf 4 0 ++ bytesOf 4 1 ++ wordsOf 4 ids
  count : writer.count = ids.length
  together : writer.idmapBuffer = [] → writer.dataBuffer = []

variable {dim : Nat} {vector : Nat → Bytes} {ids : List Nat} {writer : ShardWriter}

theorem openFiles_holds (dim : Nat) (vector : Nat → Bytes) : Holds dim vector [] (openFiles dim) :=
  ⟨rfl, rfl, rfl, fun _ => rfl⟩

/-- A flush changes nothing of what a writer holds. -/
theorem Holds.flush (holds : Holds dim vector ids writer) : Holds dim vector ids writer.flush :=
  ⟨(List.append_nil _).trans holds.data, (List.append_nil _).trans holds.idmap, holds.count,
    fun _ => rfl⟩

theorem wordsOf_append (values more : List Nat) :
    wordsOf 4 (values ++ more) = wordsOf 4 values ++ wordsOf 4 more :=
  List.flatMap_append

theorem Holds.put (holds : Holds dim vector ids writer) (pointsPerBuffer id : Nat) :
    Holds dim vector (ids ++ [id]) (writer.put pointsPerBuffer (vector id) id) := by
  have buffered : Holds dim vector (ids ++ [id]) { writer with
      dataBuffer := writer.dataBuffer ++ vector id
      idmapBuffer := writer.idmapBuffer ++ [id]
      count := writer.count + 1 } := by
    refine ⟨?_, ?_, ?_, fun empty => absurd empty (List.append_ne_nil_of_right_ne_nil _ ?_)⟩
    · rw [List.flatMap_append, List.flatMap_singleton, ← List.append_assoc, holds.data,
        List.append_assoc]
    · rw [wordsOf_append, wordsOf_append, ← List.append_assoc, holds.idmap, List.append_assoc]
    · rw [List.length_append, List.length_singleton, holds.count]
    · exact List.cons_ne_nil id []
  unfold ShardWriter.put
  dsimp only
  split
  · exact buffered.flush
  · exact buffered

/-- The files in the end. -/
theorem Holds.close (holds : Holds dim vector ids writer) :
    writer.close = ⟨bytesOf 4 ids.length ++ bytesOf 4 dim ++ ids.flatMap vector,
      bytesOf 4 ids.length ++ bytesOf 4 1 ++ wordsOf 4 ids⟩ := by
  have flushed : ∃ last : ShardWriter,
      (if writer.idmapBuffer.isEmpty then writer else writer.flush) = last ∧
      last.data = bytesOf 4 0 ++ bytesOf 4 dim ++ ids.flatMap vector ∧
      last.idmap = bytesOf 4 0 ++ bytesOf 4 1 ++ wordsOf 4 ids ∧ last.count = ids.length := by
    refine ⟨_, rfl, ?_⟩
    by_cases empty : writer.idmapBuffer = []
    · have data := holds.data
      have idmap := holds.idmap
      rw [holds.together empty, List.append_nil] at data
      rw [empty, show wordsOf 4 [] = [] from rfl, List.append_nil] at idmap
      rw [if_pos (List.isEmpty_iff.mpr empty)]
      exact ⟨data, idmap, holds.count⟩
    · rw [if_neg fun none => empty (List.isEmpty_iff.mp none)]
      exact ⟨holds.data, holds.idmap, holds.count⟩
  obtain ⟨last, same, data, idmap, count⟩ := flushed
  unfold ShardWriter.close
  rw [same]
  dsimp only
  rw [data, idmap, count, writeAt_zero, writeAt_zero, length_bytesOf, List.append_assoc,
    List.append_assoc (bytesOf 4 0), List.drop_left' (length_bytesOf 4 0),
    List.drop_left' (length_bytesOf 4 0), List.append_assoc, List.append_assoc]

/-! ### Points and blocks -/

/-- The ids of a shard among the first ones. -/
def members (centers : Nat → List Nat) (count shard : Nat) : List Nat :=
  (List.range count).filter fun id => shard ∈ centers id

/-- After so many points every shard holds its ids. -/
def AllHold (dim : Nat) (vector : Nat → Bytes) (centers : Nat → List Nat) (count : Nat)
    (writers : Nat → ShardWriter) : Prop :=
  ∀ shard, Holds dim vector (members centers count shard) (writers shard)

variable {centers : Nat → List Nat} {writers : Nat → ShardWriter} {pointsPerBuffer : Nat}

theorem putPoint_apply {id : Nat} (distinct : (centers id).Nodup) (bytes : Bytes) (shard : Nat) :
    putPoint centers pointsPerBuffer bytes id writers shard =
      if shard ∈ centers id then (writers shard).put pointsPerBuffer bytes id
      else writers shard := by
  unfold putPoint
  generalize centers id = shards at distinct
  induction shards generalizing writers with
  | nil => rfl
  | cons first rest inductionHypothesis =>
    rw [List.nodup_cons] at distinct
    rw [List.foldl_cons, inductionHypothesis distinct.2]
    by_cases same : shard = first
    · rw [same, if_neg distinct.1, if_pos List.mem_cons_self, Function.update_self]
    · rw [Function.update_of_ne same]
      refine if_congr ?_ rfl rfl
      rw [List.mem_cons, or_iff_right same]

theorem AllHold.putPoint {count : Nat} (hold : AllHold dim vector centers count writers)
    (distinct : (centers count).Nodup) :
    AllHold dim vector centers (count + 1)
      (putPoint centers pointsPerBuffer (vector count) count writers) := by
  intro shard
  rw [putPoint_apply distinct, members, List.range_succ, List.filter_append]
  split
  · rename_i member
    rw [List.filter_cons_of_pos (by simpa using member), List.filter_nil]
    exact (hold shard).put pointsPerBuffer count
  · rename_i outside
    rw [List.filter_cons_of_neg (by simpa using outside), List.filter_nil, List.append_nil]
    exact hold shard

/-- The points of a block go to their shards. -/
theorem AllHold.putBlock {startId curBlkSize rowSize : Nat} {block : Bytes}
    (hold : AllHold dim vector centers startId writers) (distinct : ∀ id, (centers id).Nodup)
    (rows : ∀ p < curBlkSize, (block.drop (p * rowSize)).take rowSize = vector (startId + p)) :
    AllHold dim vector centers (startId + curBlkSize)
      (putBlock centers pointsPerBuffer rowSize startId curBlkSize block writers) := by
  induction curBlkSize with
  | zero => exact hold
  | succ count inductionHypothesis =>
    have before := inductionHypothesis fun p below => rows p (below.trans (Nat.lt_succ_self count))
    unfold ShardWriter.putBlock at before ⊢
    rw [List.range_succ, List.foldl_append, List.foldl_cons, List.foldl_nil,
      rows count (Nat.lt_succ_self count)]
    exact before.putPoint (distinct _)

end ShardWriter

/-! ### The loop over the blocks -/

namespace VectorFile

variable {file : VectorFile} {centers : Nat → List Nat} {pointsPerBuffer blockSize : Nat}

/-- The bytes of some vectors behind each other. -/
def rows (file : VectorFile) (startId count : Nat) : Bytes :=
  (file.elements.drop (startId * (file.dim * file.sizeofT))).take
    (count * (file.dim * file.sizeofT))

theorem length_rows {startId count : Nat} (inside : startId + count ≤ file.npts) :
    (file.rows startId count).length = count * (file.dim * file.sizeofT) := by
  have covered := Nat.mul_le_mul_right (file.dim * file.sizeofT) inside
  rw [← file.complete, Nat.add_mul] at covered
  rw [rows, List.length_take, List.length_drop]
  omega

theorem rows_append (startId count : Nat) :
    file.elements.drop (startId * (file.dim * file.sizeofT)) = file.rows startId count ++
      file.elements.drop ((startId + count) * (file.dim * file.sizeofT)) := by
  rw [rows, Nat.add_mul, ← List.drop_drop, List.take_append_drop]

theorem vector_rows {startId count p : Nat} (inside : p < count) :
    ((file.rows startId count).drop (p * (file.dim * file.sizeofT))).take
      (file.dim * file.sizeofT) = file.vector (startId + p) := by
  have covered := Nat.mul_le_mul_right (file.dim * file.sizeofT) (Nat.succ_le_of_lt inside)
  rw [Nat.succ_mul] at covered
  rw [rows, List.drop_take, List.take_take, Nat.min_eq_left (by omega), List.drop_drop,
    ← Nat.add_mul]
  rfl

/-- Before a point: what is left to read, and what the shards hold. -/
def Reached (file : VectorFile) (centers : Nat → List Nat) (count : Nat)
    (state : CachedIfstream × (Nat → ShardWriter)) : Prop :=
  state.1.remaining = file.elements.drop (count * (file.dim * file.sizeofT)) ∧
    ShardWriter.AllHold file.dim file.vector centers count state.2

theorem Reached.block {block : Nat} {state : CachedIfstream × (Nat → ShardWriter)}
    (reached : file.Reached centers (block * blockSize) state)
    (distinct : ∀ id, (centers id).Nodup) (inside : block * blockSize ≤ file.npts) :
    ∃ next, shardBlock centers pointsPerBuffer (file.dim * file.sizeofT) file.npts blockSize state
        block = .ok next ∧
      file.Reached centers (min ((block + 1) * blockSize) file.npts) next := by
  obtain ⟨remaining, hold⟩ := reached
  have grows : block * blockSize ≤ (block + 1) * blockSize :=
    Nat.mul_le_mul_right _ (Nat.le_succ block)
  obtain ⟨count, ends⟩ : ∃ count, min ((block + 1) * blockSize) file.npts =
      block * blockSize + count := Nat.exists_eq_add_of_le (by omega)
  have size := @length_rows file (block * blockSize) count (by omega)
  obtain ⟨next, read, rest⟩ := CachedIfstream.read_append
    (remaining.trans (rows_append (block * blockSize) count))
  rw [size] at read
  refine ⟨(next, ShardWriter.putBlock centers pointsPerBuffer (file.dim * file.sizeofT)
    (block * blockSize) count (file.rows (block * blockSize) count) state.2), ?_, ?_, ?_⟩
  · unfold shardBlock
    dsimp only
    rw [ends, Nat.add_sub_cancel_left, read]
    rfl
  · rw [ends]
    exact rest
  · rw [ends]
    exact hold.putBlock distinct fun p below => vector_rows below

/-- All blocks. -/
theorem reached_blocks {state : CachedIfstream × (Nat → ShardWriter)}
    (reached : file.Reached centers 0 state) (distinct : ∀ id, (centers id).Nodup)
    {blocks : Nat} (inside : blocks * blockSize < file.npts + blockSize) :
    ∃ last, (List.range blocks).foldlM (shardBlock centers pointsPerBuffer
        (file.dim * file.sizeofT) file.npts blockSize) state = .ok last ∧
      file.Reached centers (min (blocks * blockSize) file.npts) last := by
  induction blocks with
  | zero =>
    refine ⟨state, rfl, ?_⟩
    rw [Nat.zero_mul, Nat.zero_min]
    exact reached
  | succ blocks inductionHypothesis =>
    rw [Nat.succ_mul] at inside
    have before : blocks * blockSize ≤ file.npts := by omega
    obtain ⟨last, done, held⟩ := inductionHypothesis (by omega)
    rw [Nat.min_eq_left before] at held
    obtain ⟨next, step, after⟩ := @Reached.block file centers pointsPerBuffer _ _ _ held distinct
      before
    refine ⟨next, ?_, after⟩
    rw [List.range_succ, List.foldlM_append, done]
    show (([blocks].foldlM _ last : Except Fault _)) = _
    rw [List.foldlM_cons, step]
    rfl

theorem openFile_bytes (file : VectorFile) :
    ∃ first second, (CachedIfstream.openFile file.bytes (64 * 1024 * 1024)).readWord 4 =
        some (file.npts, first) ∧
      first.readWord 4 = some (file.dim, second) ∧ second.remaining = file.elements := by
  have start := CachedIfstream.remaining_openFile file.bytes (64 * 1024 * 1024)
  have bytes : file.bytes = bytesOf 4 file.npts ++ (bytesOf 4 file.dim ++ file.elements) :=
    List.append_assoc _ _ _
  obtain ⟨first, npts, rest⟩ := CachedIfstream.readWord_append (by exact file.nptsFits)
    (start.trans bytes)
  obtain ⟨second, dim, elements⟩ := CachedIfstream.readWord_append (by exact file.dimFits) rest
  exact ⟨first, second, npts, dim, elements⟩

/-- With points and elements, all points are written. -/
theorem shardDataIntoClusters_eq (some : 0 < file.npts) (row : 0 < file.dim * file.sizeofT)
    (distinct : ∀ id, (centers id).Nodup) :
    ∃ writers, shardDataIntoClusters file.bytes file.dim file.sizeofT centers =
        .ok (.some fun shard => (writers shard).close) ∧
      ShardWriter.AllHold file.dim file.vector centers file.npts writers := by
  obtain ⟨first, second, npts, dim, elements⟩ := file.openFile_bytes
  have positive : 0 < (if file.npts ≤ min shardBlockSize file.npts then file.npts
      else min shardBlockSize file.npts) := by
    unfold shardBlockSize
    split <;> omega
  have reached : file.Reached centers 0
      (second, fun _ => ShardWriter.openFiles file.dim) := by
    refine ⟨?_, fun shard => ShardWriter.openFiles_holds file.dim file.vector⟩
    rw [Nat.zero_mul, List.drop_zero]
    exact elements
  unfold shardDataIntoClusters
  rw [npts]
  dsimp only [orCrash, Option.elim, bind, Except.bind]
  rw [dim]
  dsimp only
  rw [if_neg (not_not.mpr rfl)]
  unfold divide remainder
  rw [if_neg row.ne']
  dsimp only
  generalize (if file.npts ≤ min shardBlockSize file.npts then file.npts
    else min shardBlockSize file.npts) = blockSize at positive ⊢
  rw [if_neg positive.ne', if_neg positive.ne']
  dsimp only
  generalize (if 0 < 1024 * 1024 / (file.dim * file.sizeofT) then
    1024 * 1024 / (file.dim * file.sizeofT) else 1024) = pointsPerBuffer
  obtain ⟨last, done, -, hold⟩ := @reached_blocks file centers pointsPerBuffer blockSize _ reached
    distinct _ (divRoundUp_mul_lt file.npts positive)
  rw [Nat.min_eq_right (le_divRoundUp_mul file.npts positive)] at hold
  refine ⟨last.2, ?_, hold⟩
  unfold divRoundUp at done
  rw [done]
  rfl

/-- Without points, or without elements in them, the program divides by 0. -/
theorem shardDataIntoClusters_division
    (none : file.npts = 0 ∨ file.dim * file.sizeofT = 0) :
    shardDataIntoClusters file.bytes file.dim file.sizeofT centers = .error .division := by
  obtain ⟨first, second, npts, dim, -⟩ := file.openFile_bytes
  unfold shardDataIntoClusters
  rw [npts]
  dsimp only [orCrash, Option.elim, bind, Except.bind]
  rw [dim]
  dsimp only
  rw [if_neg (not_not.mpr rfl)]
  unfold divide
  by_cases row : file.dim * file.sizeofT = 0
  · rw [if_pos row]
  · obtain empty := none.resolve_right row
    rw [if_neg row, empty, Nat.min_zero, if_pos (Nat.le_refl 0)]
    rfl

/-! ### What the shards have to be -/

variable {ids : Nat → List Nat} {files : Nat → ShardData} {numCenters kBase : Nat}

/-- The files are shards with some ids, of the points of a file: what a merge relies on. -/
structure Conserved (file : VectorFile) (numCenters kBase : Nat) (files : Nat → ShardData)
    (ids : Nat → List Nat) : Prop where
  copies : ∀ id < file.npts,
    ((List.range numCenters).filter fun shard => id ∈ ids shard).length = kBase
  data : ∀ shard < numCenters, (files shard).data.take 8 =
    bytesOf 4 (ids shard).length ++ bytesOf 4 file.dim
  idmap : ∀ shard < numCenters, (files shard).idmap =
    bytesOf 4 (ids shard).length ++ bytesOf 4 1 ++ wordsOf 4 (ids shard)
  rows : ∀ shard < numCenters, ∀ (row id : Nat), (ids shard)[row]? = some id →
    (((files shard).data.drop 8).drop (row * (file.dim * file.sizeofT))).take
      (file.dim * file.sizeofT) = file.vector id
  length : ∀ shard < numCenters,
    (files shard).data.length = 8 + (ids shard).length * (file.dim * file.sizeofT)
  ascending : ∀ shard < numCenters, (ids shard).Pairwise (· < ·)
  readBack : ∀ shard < numCenters, readIdmap (files shard).idmap = some (ids shard)
  covers : ∀ id, id < file.npts ↔ ∃ shard < numCenters, id ∈ ids shard

theorem length_vector {id : Nat} (inside : id < file.npts) :
    (file.vector id).length = file.dim * file.sizeofT := by
  have covered := Nat.mul_le_mul_right (file.dim * file.sizeofT) (Nat.succ_le_of_lt inside)
  rw [← file.complete, Nat.succ_mul] at covered
  rw [vector, List.length_take, List.length_drop]
  omega

theorem mem_members {count shard id : Nat} :
    id ∈ ShardWriter.members centers count shard ↔ id < count ∧ shard ∈ centers id := by
  unfold ShardWriter.members
  rw [List.mem_filter, List.mem_range, decide_eq_true_iff]

theorem members_ascending (count shard : Nat) :
    (ShardWriter.members centers count shard).Pairwise (· < ·) :=
  List.pairwise_lt_range.filter _

theorem length_members_le (count shard : Nat) :
    (ShardWriter.members centers count shard).length ≤ count :=
  (List.length_filter_le _ _).trans_eq List.length_range

/-- A point is in as many shards as it has centres. -/
theorem copies_eq {closest : ClosestCenters numCenters kBase} {count id : Nat}
    (inside : id < count) :
    ((List.range numCenters).filter fun shard =>
      id ∈ ShardWriter.members closest.centers count shard).length = kBase := by
  have same : ((List.range numCenters).filter fun shard =>
      id ∈ ShardWriter.members closest.centers count shard).Perm (closest.centers id) := by
    refine (List.perm_ext_iff_of_nodup (List.nodup_range.filter _) (closest.distinct id)).mpr
      fun shard => ?_
    rw [List.mem_filter, List.mem_range, decide_eq_true_iff, mem_members]
    exact ⟨fun member => member.2.2, fun member =>
      ⟨closest.inside id shard member, inside, member⟩⟩
  rw [same.length_eq, closest.length]

/-- The data of a shard have the rows of its ids. -/
theorem data_rows {members : List Nat} (inside : ∀ id ∈ members, id < file.npts) {row id : Nat}
    (there : members[row]? = some id) :
    ((members.flatMap file.vector).drop (row * (file.dim * file.sizeofT))).take
      (file.dim * file.sizeofT) = file.vector id := by
  have rest := drop_flatMap_const (fun id member => length_vector (inside id member)) [] there
  rw [List.append_nil] at rest
  rw [rest, List.take_left' (length_vector (inside id (List.mem_of_getElem? there)))]

theorem data_length {members : List Nat} (inside : ∀ id ∈ members, id < file.npts) :
    (members.flatMap file.vector).length = members.length * (file.dim * file.sizeofT) := by
  induction members with
  | nil => rw [List.flatMap_nil, List.length_nil, List.length_nil, Nat.zero_mul]
  | cons id rest inductionHypothesis =>
    rw [List.flatMap_cons, List.length_append, length_vector (inside id List.mem_cons_self),
      inductionHypothesis fun other member => inside other (List.mem_cons_of_mem _ member),
      List.length_cons, Nat.succ_mul, Nat.add_comm]

theorem conserved_of_allHold {closest : ClosestCenters numCenters kBase}
    {writers : Nat → ShardWriter} (replicated : 0 < kBase)
    (hold : ShardWriter.AllHold file.dim file.vector closest.centers file.npts writers) :
    file.Conserved numCenters kBase (fun shard => (writers shard).close)
      (ShardWriter.members closest.centers file.npts) := by
  have inside : ∀ shard, ∀ id ∈ ShardWriter.members closest.centers file.npts shard,
      id < file.npts := fun shard id member => (mem_members.mp member).1
  have header : ∀ count : Nat, (bytesOf 4 count ++ bytesOf 4 file.dim).length = 8 := by
    intro count
    rw [List.length_append, length_bytesOf, length_bytesOf]
  refine ⟨fun id below => copies_eq below, fun shard _ => ?_, fun shard _ => ?_,
    fun shard _ row id there => ?_, fun shard _ => ?_, fun shard _ => members_ascending _ shard,
    fun shard _ => ?_, fun id => ⟨fun below => ?_, fun ⟨shard, _, member⟩ =>
      inside shard id member⟩⟩
  · rw [(hold shard).close]
    exact List.take_left' (header _)
  · rw [(hold shard).close]
  · rw [(hold shard).close]
    dsimp only
    rw [List.drop_left' (header _)]
    exact data_rows (inside shard) there
  · rw [(hold shard).close]
    dsimp only
    rw [List.length_append, header, data_length (inside shard)]
  · rw [(hold shard).close]
    exact readIdmap_words ((length_members_le _ shard).trans_lt file.nptsFits)
      fun id member => (inside shard id member).trans file.nptsFits
  · obtain ⟨center, member⟩ := List.exists_mem_of_length_pos
      (replicated.trans_eq (closest.length id).symm)
    exact ⟨center, closest.inside id center member, mem_members.mpr ⟨below, member⟩⟩

/-- The shards conserve the points exactly when there are points, elements and centres. -/
theorem shardDataIntoClusters_conserves_iff (file : VectorFile)
    (closest : ClosestCenters numCenters kBase) :
    (∃ files ids, shardDataIntoClusters file.bytes file.dim file.sizeofT closest.centers =
        .ok (some files) ∧ file.Conserved numCenters kBase files ids) ↔
      0 < file.npts ∧ 0 < file.dim * file.sizeofT ∧ 0 < kBase := by
  constructor
  · rintro ⟨files, ids, done, conserved⟩
    by_cases none : file.npts = 0 ∨ file.dim * file.sizeofT = 0
    · rw [shardDataIntoClusters_division none] at done
      cases done
    · rw [not_or] at none
      have some := Nat.pos_of_ne_zero none.1
      refine ⟨some, Nat.pos_of_ne_zero none.2, ?_⟩
      obtain ⟨shard, below, member⟩ := (conserved.covers 0).mp some
      rw [← conserved.copies 0 some]
      exact List.length_pos_of_mem (List.mem_filter.mpr
        ⟨List.mem_range.mpr below, decide_eq_true member⟩)
  · rintro ⟨some, row, replicated⟩
    obtain ⟨writers, done, hold⟩ := shardDataIntoClusters_eq some row closest.distinct
    exact ⟨_, _, done, conserved_of_allHold replicated hold⟩

/-- A file of no vectors. -/
def noVectors : VectorFile := ⟨0, 1, 4, [], zero_lt_word, one_lt_word, (Nat.zero_mul _).symm⟩

/-- One centre, to which all points go. -/
def oneCenter : ClosestCenters 1 1 := .ofHeap (Nat.le_refl 1) (fun _ => [0]) fun _ => .refl _

/-- A data file of no vectors is not sharded: the program ends at a division by 0. -/
theorem shardDataIntoClusters_noVectors :
    shardDataIntoClusters noVectors.bytes 1 4 oneCenter.centers = .error .division ∧
      ¬ ∃ files ids, shardDataIntoClusters noVectors.bytes 1 4 oneCenter.centers =
        .ok (some files) ∧ noVectors.Conserved 1 1 files ids := by
  have division : shardDataIntoClusters noVectors.bytes 1 4 oneCenter.centers =
      .error .division := @shardDataIntoClusters_division noVectors _ (.inl rfl)
  refine ⟨division, ?_⟩
  rintro ⟨files, ids, done, -⟩
  rw [division] at done
  cases done

end VectorFile

end OdinVector
