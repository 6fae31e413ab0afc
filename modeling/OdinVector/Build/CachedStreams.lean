/-
This file proves that nobody can tell the cached streams from the files: the reads of a
`cached_ifstream` are the reads of the file one behind the other, from any offset and
with any cache, and a `cached_ofstream` leaves the file that the same writes and resets
leave without a cache.
-/

import OdinVector.Build.CachedIo

namespace OdinVector

open Binary

/-! ### Reading -/

namespace CachedIfstream

/-- `open` at an offset of the file. -/
def openAt (file : Bytes) (cacheSize initialOffset : Nat) : CachedIfstream where
  file := file
  position := initialOffset + min cacheSize (file.length - initialOffset)
  cacheBuf := (file.drop initialOffset).take (min cacheSize (file.length - initialOffset))
  curOff := 0
  inside := Nat.zero_le _

/-- Reads of these sizes. -/
def reads : CachedIfstream → List Nat → Option (List Bytes)
  | _, [] => some []
  | reader, nBytes :: sizes =>
    (reader.read nBytes).bind fun (bytes, next) => (next.reads sizes).map (bytes :: ·)

/-- Reads of these sizes without a cache. -/
def fileReads : Bytes → List Nat → List Bytes
  | _, [] => []
  | bytes, nBytes :: sizes => bytes.take nBytes :: fileReads (bytes.drop nBytes) sizes

theorem remaining_openAt (file : Bytes) (cacheSize initialOffset : Nat) :
    (openAt file cacheSize initialOffset).remaining = file.drop initialOffset := by
  unfold openAt remaining
  dsimp only
  rw [List.drop_zero, ← List.drop_drop, List.take_append_drop]

theorem reads_eq {reader : CachedIfstream} {sizes : List Nat}
    (within : sizes.sum ≤ reader.remaining.length) :
    reader.reads sizes = some (fileReads reader.remaining sizes) := by
  induction sizes generalizing reader with
  | nil => rfl
  | cons nBytes sizes inductionHypothesis =>
    rw [List.sum_cons] at within
    have length : (reader.remaining.take nBytes).length = nBytes := by
      rw [List.length_take]
      omega
    obtain ⟨next, read, after⟩ := read_append (List.take_append_drop nBytes reader.remaining).symm
    rw [length] at read
    have enough : sizes.sum ≤ next.remaining.length := by
      rw [after, List.length_drop]
      omega
    have later := inductionHypothesis enough
    rw [reads, read, Option.bind_some]
    dsimp only
    rw [later, Option.map_some, after, fileReads]

end CachedIfstream

/-! ### Writing -/

/-- A write or a reset of an output stream. -/
inductive WriterOp
  | write (bytes : Bytes)
  | reset

/-- An `ofstream` with nothing before it: the file and `tellp()`. -/
structure PlainWriter where
  file : Bytes
  position : Nat

namespace PlainWriter

/-- The write goes to the file; `reset` is `seekp(0)`. -/
def apply (writer : PlainWriter) : WriterOp → PlainWriter
  | .write bytes => ⟨CachedOfstream.store writer.file writer.position bytes,
      writer.position + bytes.length⟩
  | .reset => { writer with position := 0 }

/-- The file after `open` at an offset, the operations, and `close`. -/
def written (previous : Option Bytes) (initialOffset : Nat) (ops : List WriterOp) : Bytes :=
  (ops.foldl apply ⟨previous.getD [], initialOffset⟩).file

end PlainWriter

namespace CachedOfstream

/-- `open` at an offset of the file. The size is that of the constructor: `open` does not set
it, and it is zero for a stream that was made without arguments. -/
def openAt (previous : Option Bytes) (cacheSize initialOffset : Nat) : CachedOfstream where
  file := previous.getD []
  position := initialOffset
  cacheBuf := []
  cacheSize := cacheSize

/-- `write` and `reset`. -/
def apply (writer : CachedOfstream) : WriterOp → CachedOfstream
  | .write bytes => writer.write bytes
  | .reset => writer.reset

/-- The file after `open` at an offset, the operations, and `close`. -/
def written (previous : Option Bytes) (cacheSize initialOffset : Nat) (ops : List WriterOp) :
    Bytes :=
  (ops.foldl apply (openAt previous cacheSize initialOffset)).close

/-- The stream that has written what is in the cache. -/
def plain (writer : CachedOfstream) : PlainWriter :=
  ⟨store writer.file writer.position writer.cacheBuf, writer.position + writer.cacheBuf.length⟩

/-- Bytes written behind others are written with them. -/
theorem store_store (file first second : Bytes) (position : Nat) :
    store (store file position first) (position + first.length) second =
      store file position (first ++ second) := by
  by_cases noFirst : first = []
  · subst noFirst
    rw [store_nil, List.length_nil, Nat.add_zero, List.nil_append]
  have both : first ++ second ≠ [] := fun none => noFirst (List.append_eq_nil_iff.mp none).1
  have head : ((file ++ List.replicate (position - file.length) 0).take position ++ first).length =
      position + first.length := by
    rw [List.length_append, List.length_take, List.length_append, List.length_replicate]
    omega
  have one : store file position first =
      (file ++ List.replicate (position - file.length) 0).take position ++ first ++
        file.drop (position + first.length) := if_neg noFirst
  have two : store file position (first ++ second) =
      (file ++ List.replicate (position - file.length) 0).take position ++ (first ++ second) ++
        file.drop (position + (first ++ second).length) := if_neg both
  rw [one, two, ← head, store_append, List.drop_drop, head, List.length_append, ← Nat.add_assoc,
    List.append_assoc _ first second]

theorem plain_flushCache (writer : CachedOfstream) : writer.flushCache.plain = writer.plain := by
  unfold flushCache plain put
  dsimp only
  rw [store_nil, List.length_nil, Nat.add_zero]

theorem plain_put {writer : CachedOfstream} (empty : writer.cacheBuf = []) (bytes : Bytes) :
    (writer.put bytes).plain = writer.plain.apply (.write bytes) := by
  unfold put plain PlainWriter.apply
  dsimp only
  rw [empty, store_nil, store_nil, List.length_nil, Nat.add_zero, Nat.add_zero]

/-- An operation does the same to the stream without a cache. -/
theorem plain_apply (writer : CachedOfstream) (op : WriterOp) :
    (writer.apply op).plain = writer.plain.apply op := by
  cases op with
  | write bytes =>
    show (writer.write bytes).plain = _
    unfold write
    split
    · unfold plain PlainWriter.apply
      dsimp only
      rw [store_store, List.length_append, Nat.add_assoc]
    · rw [plain_put rfl, plain_flushCache]
  | reset =>
    have flushed := plain_flushCache writer
    unfold plain at flushed
    have file := (PlainWriter.mk.inj flushed).1
    show writer.reset.plain = { writer.plain with position := 0 }
    unfold reset plain
    dsimp only
    have empty : writer.flushCache.cacheBuf = [] := rfl
    rw [empty, store_nil] at file ⊢
    rw [file]
    rfl

theorem plain_foldl (writer : CachedOfstream) (ops : List WriterOp) :
    (ops.foldl apply writer).plain = ops.foldl PlainWriter.apply writer.plain := by
  induction ops generalizing writer with
  | nil => rfl
  | cons op ops inductionHypothesis =>
    rw [List.foldl_cons, List.foldl_cons, inductionHypothesis, plain_apply]

/-- `close` leaves the file with what was in the cache. -/
theorem close_eq (writer : CachedOfstream) : writer.close = writer.plain.file := by
  unfold close
  split
  · rfl
  · rename_i none
    have empty : writer.cacheBuf = [] := List.eq_nil_of_length_eq_zero (by omega)
    unfold plain
    rw [empty, store_nil]

theorem written_eq (previous : Option Bytes) (cacheSize initialOffset : Nat)
    (ops : List WriterOp) :
    written previous cacheSize initialOffset ops =
      PlainWriter.written previous initialOffset ops := by
  have opened : (openAt previous cacheSize initialOffset).plain =
      ⟨previous.getD [], initialOffset⟩ := by
    unfold openAt plain
    dsimp only
    rw [store_nil, List.length_nil, Nat.add_zero]
  unfold written PlainWriter.written
  rw [close_eq, plain_foldl, opened]

end CachedOfstream

/-- The cached streams give the bytes and leave the files of the streams without a cache. -/
theorem cached_streams_transparent :
    (∀ (file : Bytes) (initialOffset cacheSize : Nat) (sizes : List Nat),
      initialOffset + sizes.sum ≤ file.length →
        (CachedIfstream.openAt file cacheSize initialOffset).reads sizes =
          some (CachedIfstream.fileReads (file.drop initialOffset) sizes)) ∧
      ∀ (previous : Option Bytes) (cacheSize initialOffset : Nat) (ops : List WriterOp),
        CachedOfstream.written previous cacheSize initialOffset ops =
          PlainWriter.written previous initialOffset ops := by
  refine ⟨fun file initialOffset cacheSize sizes within => ?_, CachedOfstream.written_eq⟩
  have remaining := CachedIfstream.remaining_openAt file cacheSize initialOffset
  have enough : sizes.sum ≤ (file.drop initialOffset).length := by
    rw [List.length_drop]
    omega
  rw [← remaining] at enough ⊢
  exact CachedIfstream.reads_eq enough

/-- A read in the cache and one past it. -/
theorem cached_streams_transparent_three :
    (CachedIfstream.openAt [1, 2, 3, 4, 5] 2 1).reads [1, 3] = some [[2], [3, 4, 5]] :=
  cached_streams_transparent.1 [1, 2, 3, 4, 5] 1 2 [1, 3] (by decide)

end OdinVector
