/-
This file models `cached_ifstream` and `cached_ofstream` and proves that they are
streams: a read gives the next bytes of the file, and the writes are in the file in
their order once the cache is flushed.

An output file that exists is opened without `trunc`, so what was behind the bytes
that are written stays.
-/

import OdinVector.Binary

namespace OdinVector

open Binary

/-! ### Reading -/

/-- `cached_ifstream`; `cacheBuf` has `cache_size` bytes. -/
structure CachedIfstream where
  file : Bytes
  /-- `reader.tellg()`. -/
  position : Nat
  cacheBuf : Bytes
  curOff : Nat
  inside : curOff ≤ cacheBuf.length

namespace CachedIfstream

/-- `open`. -/
def openFile (file : Bytes) (cacheSize : Nat) : CachedIfstream where
  file := file
  position := min cacheSize file.length
  cacheBuf := file.take (min cacheSize file.length)
  curOff := 0
  inside := Nat.zero_le _

/-- What the stream has not read. -/
def remaining (reader : CachedIfstream) : Bytes :=
  reader.cacheBuf.drop reader.curOff ++ reader.file.drop reader.position

/-- The cache after a read from the file that ends at `position`. -/
def refill (reader : CachedIfstream) (position : Nat) : CachedIfstream :=
  if reader.cacheBuf.length ≤ reader.file.length - position then
    { reader with
      position := position + reader.cacheBuf.length
      cacheBuf := (reader.file.drop position).take reader.cacheBuf.length
      curOff := 0
      inside := Nat.zero_le _ }
  else
    { reader with
      position := position
      curOff := reader.cacheBuf.length
      inside := Nat.le_refl _ }

/-- `read`; a read beyond the end of the file crashes. -/
def read (reader : CachedIfstream) (nBytes : Nat) : Option (Bytes × CachedIfstream) :=
  let cachedBytes := reader.cacheBuf.length - reader.curOff
  if cached : nBytes ≤ reader.cacheBuf.length - reader.curOff then
    some ((reader.cacheBuf.drop reader.curOff).take nBytes,
      { reader with
        curOff := reader.curOff + nBytes
        inside := by
          have inside := reader.inside
          omega })
  else if reader.file.length - reader.position < nBytes - cachedBytes then none
  else
    some (reader.cacheBuf.drop reader.curOff ++
        (reader.file.drop reader.position).take (nBytes - cachedBytes),
      reader.refill (reader.position + (nBytes - cachedBytes)))

theorem remaining_openFile (file : Bytes) (cacheSize : Nat) :
    (openFile file cacheSize).remaining = file := by
  show (file.take (min cacheSize file.length)).drop 0 ++ file.drop (min cacheSize file.length) = _
  rw [List.drop_zero, List.take_append_drop]

theorem remaining_refill (reader : CachedIfstream) (position : Nat) :
    (reader.refill position).remaining = reader.file.drop position := by
  unfold refill
  split
  · show ((reader.file.drop position).take reader.cacheBuf.length).drop 0 ++
      reader.file.drop (position + reader.cacheBuf.length) = _
    rw [List.drop_zero, ← List.drop_drop, List.take_append_drop]
  · show reader.cacheBuf.drop reader.cacheBuf.length ++ reader.file.drop position = _
    rw [List.drop_length, List.nil_append]

/-- A read gives the next bytes of the file. -/
theorem read_append {reader : CachedIfstream} {bytes rest : Bytes}
    (remaining : reader.remaining = bytes ++ rest) :
    ∃ next, reader.read bytes.length = some (bytes, next) ∧ next.remaining = rest := by
  have cachedLength : (reader.cacheBuf.drop reader.curOff).length =
      reader.cacheBuf.length - reader.curOff := List.length_drop
  unfold CachedIfstream.remaining at remaining
  unfold read
  dsimp only
  split
  · rename_i cached
    have front : (reader.cacheBuf.drop reader.curOff).take bytes.length = bytes := by
      have both := congrArg (List.take bytes.length) remaining
      rw [List.take_left, List.take_append_of_le_length (by omega)] at both
      exact both
    have back : (reader.cacheBuf.drop reader.curOff).drop bytes.length ++
        reader.file.drop reader.position = rest := by
      have both := congrArg (List.drop bytes.length) remaining
      rw [List.drop_left, List.drop_append_of_le_length (by omega)] at both
      exact both
    refine ⟨_, by rw [front], ?_⟩
    rw [List.drop_drop] at back
    exact back
  · rename_i beyond
    have length := congrArg List.length remaining
    rw [List.length_append, List.length_append, cachedLength, List.length_drop] at length
    rw [if_neg (by omega)]
    have front : reader.cacheBuf.drop reader.curOff ++ (reader.file.drop reader.position).take
        (bytes.length - (reader.cacheBuf.length - reader.curOff)) = bytes := by
      have both := congrArg (List.take bytes.length) remaining
      rw [List.take_left, List.take_append, cachedLength,
        List.take_of_length_le (by omega)] at both
      exact both
    have back : reader.file.drop (reader.position +
        (bytes.length - (reader.cacheBuf.length - reader.curOff))) = rest := by
      have both := congrArg (List.drop bytes.length) remaining
      rw [List.drop_left, List.drop_append, cachedLength,
        List.drop_of_length_le (by omega : _ ≤ bytes.length), List.nil_append,
        List.drop_drop] at both
      exact both
    exact ⟨_, by rw [front], (remaining_refill _ _).trans back⟩

/-- A number read through the cache. -/
def readWord (width : Nat) (reader : CachedIfstream) : Option (Nat × CachedIfstream) :=
  (reader.read width).map fun (bytes, next) => (valueOf bytes, next)

/-- An array of numbers read through the cache at once. -/
def readWords (width count : Nat) (reader : CachedIfstream) :
    Option (List Nat × CachedIfstream) :=
  (reader.read (count * width)).bind fun (bytes, next) =>
    (readAll (Binary.readWord width) count bytes).map fun (values, _) => (values, next)

theorem readWord_append {reader : CachedIfstream} {width value : Nat} {rest : Bytes}
    (fits : value < 256 ^ width) (remaining : reader.remaining = bytesOf width value ++ rest) :
    ∃ next, reader.readWord width = some (value, next) ∧ next.remaining = rest := by
  obtain ⟨next, read, after⟩ := read_append remaining
  rw [length_bytesOf] at read
  refine ⟨next, ?_, after⟩
  unfold readWord
  rw [read, Option.map_some]
  dsimp only
  rw [valueOf_bytesOf fits]

theorem readWords_append {reader : CachedIfstream} {width : Nat} {values : List Nat}
    {rest : Bytes} (fit : ∀ value ∈ values, value < 256 ^ width)
    (remaining : reader.remaining = wordsOf width values ++ rest) :
    ∃ next, reader.readWords width values.length = some (values, next) ∧
      next.remaining = rest := by
  obtain ⟨next, read, after⟩ := read_append remaining
  rw [length_wordsOf] at read
  refine ⟨next, ?_, after⟩
  have all := Binary.readWords_append fit []
  rw [List.append_nil] at all
  unfold readWords
  rw [read, Option.bind_some]
  dsimp only
  rw [all, Option.map_some]

end CachedIfstream

/-! ### Writing -/

/-- `cached_ofstream`; `cacheBuf` has the first `cur_off` bytes of the cache. -/
structure CachedOfstream where
  file : Bytes
  /-- `writer.tellp()`. -/
  position : Nat
  cacheBuf : Bytes
  cacheSize : Nat

namespace CachedOfstream

/-- The constructor that opens a file, with what the file has when it exists. -/
def openFile (previous : Option Bytes) (cacheSize : Nat) : CachedOfstream where
  file := previous.getD []
  position := 0
  cacheBuf := []
  cacheSize := cacheSize

/-- `open` of a stream without a file: its argument is not the member `cache_size`, which stays 0,
so nothing is cached. -/
def openLater (previous : Option Bytes) : CachedOfstream := openFile previous 0

/-- What a write leaves in a file. No bytes leave it as it is, also behind its end. -/
def store (file : Bytes) (position : Nat) (bytes : Bytes) : Bytes :=
  if bytes = [] then file else writeAt file position bytes

/-- `writer.write`. -/
def put (writer : CachedOfstream) (bytes : Bytes) : CachedOfstream :=
  { writer with
    file := store writer.file writer.position bytes
    position := writer.position + bytes.length }

/-- `flush_cache`. -/
def flushCache (writer : CachedOfstream) : CachedOfstream :=
  { writer.put writer.cacheBuf with cacheBuf := [] }

/-- `write`. -/
def write (writer : CachedOfstream) (bytes : Bytes) : CachedOfstream :=
  if bytes.length ≤ writer.cacheSize - writer.cacheBuf.length then
    { writer with cacheBuf := writer.cacheBuf ++ bytes }
  else writer.flushCache.put bytes

/-- `reset`. -/
def reset (writer : CachedOfstream) : CachedOfstream :=
  { writer.flushCache with position := 0 }

/-- `close`: the file. -/
def close (writer : CachedOfstream) : Bytes :=
  if 0 < writer.cacheBuf.length then writer.flushCache.file else writer.file

theorem store_nil (file : Bytes) (position : Nat) : store file position [] = file :=
  if_pos rfl

theorem store_append (head tail bytes : Bytes) :
    store (head ++ tail) head.length bytes = head ++ bytes ++ tail.drop bytes.length := by
  by_cases none : bytes = []
  · subst none
    rw [store_nil, List.append_nil, List.length_nil, List.drop_zero]
  · exact (if_neg none).trans (writeAt_append head tail bytes)

theorem store_zero (file bytes : Bytes) : store file 0 bytes = bytes ++ file.drop bytes.length :=
  store_append [] file bytes

/-- The writes so far are `content`, over a file that had `previous`. -/
def Wrote (previous content : Bytes) (writer : CachedOfstream) : Prop :=
  ∃ flushed, writer.position = flushed.length ∧
    writer.file = flushed ++ previous.drop flushed.length ∧ content = flushed ++ writer.cacheBuf

theorem wrote_openFile (previous : Option Bytes) (cacheSize : Nat) :
    Wrote (previous.getD []) [] (openFile previous cacheSize) :=
  ⟨[], rfl, rfl, rfl⟩

theorem wrote_openLater (previous : Option Bytes) :
    Wrote (previous.getD []) [] (openLater previous) :=
  wrote_openFile previous 0

theorem Wrote.flushCache {previous content : Bytes} {writer : CachedOfstream}
    (wrote : Wrote previous content writer) :
    writer.flushCache.position = content.length ∧
      writer.flushCache.file = content ++ previous.drop content.length := by
  obtain ⟨flushed, position, file, rfl⟩ := wrote
  constructor
  · show writer.position + writer.cacheBuf.length = _
    rw [position, List.length_append]
  · show store writer.file writer.position writer.cacheBuf = _
    rw [position, file, store_append, List.drop_drop, List.length_append]

theorem Wrote.write {previous content : Bytes} {writer : CachedOfstream}
    (wrote : Wrote previous content writer) (bytes : Bytes) :
    Wrote previous (content ++ bytes) (writer.write bytes) := by
  unfold CachedOfstream.write
  split
  · obtain ⟨flushed, position, file, rfl⟩ := wrote
    exact ⟨flushed, position, file, List.append_assoc _ _ _⟩
  · obtain ⟨position, file⟩ := wrote.flushCache
    refine ⟨content ++ bytes, ?_, ?_, (List.append_nil _).symm⟩
    · show writer.flushCache.position + bytes.length = _
      rw [position, List.length_append]
    · show store writer.flushCache.file writer.flushCache.position bytes = _
      rw [position, file, store_append, List.drop_drop, List.length_append]

/-- The file has what was written, and then what is left of a longer file. -/
theorem Wrote.close {previous content : Bytes} {writer : CachedOfstream}
    (wrote : Wrote previous content writer) :
    writer.close = content ++ previous.drop content.length := by
  unfold CachedOfstream.close
  split
  · exact wrote.flushCache.2
  · rename_i empty
    obtain ⟨flushed, -, file, rfl⟩ := wrote
    have none : writer.cacheBuf = [] := List.eq_nil_of_length_eq_zero (by omega)
    rw [file, none, List.append_nil]

/-- The first bytes written again after `reset`. -/
theorem Wrote.reset_write_close {previous content : Bytes} {writer : CachedOfstream}
    (wrote : Wrote previous content writer) {bytes : Bytes} (some : 0 < bytes.length)
    (shorter : bytes.length ≤ content.length) :
    (writer.reset.write bytes).close =
      bytes ++ content.drop bytes.length ++ previous.drop content.length := by
  obtain ⟨-, file⟩ := wrote.flushCache
  have written : store writer.flushCache.file 0 bytes =
      bytes ++ content.drop bytes.length ++ previous.drop content.length := by
    rw [file, store_zero, List.drop_append_of_le_length shorter, List.append_assoc]
  unfold CachedOfstream.write
  split
  · have cached : (writer.reset.cacheBuf ++ bytes) = bytes := List.nil_append _
    unfold CachedOfstream.close
    dsimp only
    rw [cached, if_pos some]
    exact written
  · have empty : writer.reset.flushCache.file = writer.flushCache.file :=
      store_nil writer.flushCache.file 0
    show store writer.reset.flushCache.file 0 bytes = _
    rw [empty]
    exact written

end CachedOfstream

end OdinVector
