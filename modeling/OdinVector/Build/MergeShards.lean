/-
This file models `merge_shards`. Every shard has an id map and a graph over the
positions in it. The pairs of an id and a shard are sorted; the readers of the shards
advance as their pairs come, and the neighbours of an id are collected, renamed, until
the next id comes.

The readers belong to different files, so the header of a shard is read in one go
here. `std::shuffle` is a parameter. A position outside an id map or an id outside
`nhood_set` gives nothing.
-/

import OdinVector.Build.CachedIo
import OdinVector.InMemory.GraphFile
import Mathlib.Data.List.Sort

namespace OdinVector

open Binary

/-- The files of a shard. -/
structure ShardFiles where
  idmap : Bytes
  graph : Bytes

/-- `read_idmap`. -/
def readIdmap (file : Bytes) : Option (List Nat) :=
  (readWord 4 file).bind fun (npts, rest) =>
    (readWord 4 rest).bind fun (dim, rest) =>
      if dim ≠ 1 ∨ file.length ≠ npts * 4 + 2 * 4 then none
      else (readAll (readWord 4) npts rest).map Prod.fst

/-- The size of the caches. -/
def mergeCacheSize : Nat := 64 * 1024 * 1024

/-- The reader of a shard behind the header, with the renamed medoid. -/
def openShard (idmap : List Nat) (graph : Bytes) : Option (Nat × CachedIfstream) :=
  ((CachedIfstream.openFile graph mergeCacheSize).readWord 8).bind fun (_, reader) =>
    (reader.readWord 4).bind fun (_, reader) =>
      (reader.readWord 4).bind fun (medoid, reader) =>
        (reader.readWord 8).bind fun (_, reader) =>
          idmap[medoid]?.map fun medoid => (medoid, reader)

/-- An id before the same id in a later shard, and before every greater id. -/
def PairOrder (left right : Nat × Nat) : Prop :=
  left.1 < right.1 ∨ left.1 = right.1 ∧ left.2 ≤ right.2

instance : DecidableRel PairOrder :=
  fun _ _ => inferInstanceAs (Decidable (_ ∨ _))

/-- `node_shard` before the sort; a shard is counted in 32 bits. -/
def nodeShardPairs (idmaps : List (List Nat)) : List (Nat × Nat) :=
  idmaps.zipIdx.flatMap fun (idmap, shard) => idmap.map fun id => (id, shard % 2 ^ 32)

/-- `node_shard`. -/
def nodeShard (idmaps : List (List Nat)) : List (Nat × Nat) :=
  (nodeShardPairs idmaps).insertionSort PairOrder

/-- The state of the merge. -/
structure ShardMerge where
  readers : Nat → CachedIfstream
  writer : CachedOfstream
  nhoodSet : Nat → Bool
  finalNhood : List Nat
  curId : Nat
  mergedIndexSize : Nat

namespace ShardMerge

variable (idmaps : List (List Nat)) (nnodes : Nat) (shuffle : Nat → List Nat → List Nat)
  (maxDegree : Nat)

/-- The record of `cur_id`, and a new start. -/
def writeNhood (merge : ShardMerge) : ShardMerge :=
  let shuffled := shuffle merge.curId merge.finalNhood
  let nnbrs := min shuffled.length maxDegree
  { merge with
    writer := (merge.writer.write (bytesOf 4 nnbrs)).write (wordsOf 4 (shuffled.take nnbrs))
    mergedIndexSize := merge.mergedIndexSize + (4 + nnbrs * 4)
    nhoodSet := fun id => if id ∈ shuffled then false else merge.nhoodSet id
    finalNhood := [] }

/-- A neighbour, renamed, when it is new. -/
def addNeighbour (idmap : List Nat) (merge : ShardMerge) (nbr : Nat) : Option ShardMerge :=
  idmap[nbr]?.bind fun id =>
    if id < nnodes then
      if merge.nhoodSet id then some merge
      else
        some { merge with
          nhoodSet := Function.update merge.nhoodSet id true
          finalNhood := merge.finalNhood ++ [id] }
    else none

/-- One round of the loop over `node_shard`. -/
def step (merge : ShardMerge) (idShard : Nat × Nat) : Option ShardMerge :=
  let (nodeId, shardId) := idShard
  let merge :=
    if merge.curId < nodeId then { merge.writeNhood shuffle maxDegree with curId := nodeId }
    else merge
  idmaps[shardId]?.bind fun idmap =>
    ((merge.readers shardId).readWord 4).bind fun (shardNnbrs, reader) =>
      (reader.readWords 4 shardNnbrs).bind fun (shardNhood, reader) =>
        shardNhood.foldlM (addNeighbour nnodes idmap)
          { merge with readers := Function.update merge.readers shardId reader }

end ShardMerge

/-- The files that `merge_shards` writes. -/
structure MergedFiles where
  vamana : Bytes
  medoids : Bytes

/-- `merge_shards`, with what is under the name of the merged file before. -/
def mergeShards (shuffle : Nat → List Nat → List Nat) (shards : List ShardFiles)
    (maxDegree : Nat) (previous : Option Bytes) : Option MergedFiles :=
  (shards.mapM fun shard => readIdmap shard.idmap).bind fun idmaps =>
    ((idmaps.zip shards).mapM fun (entry : List Nat × ShardFiles) =>
        openShard entry.1 entry.2.graph).bind fun opened =>
      let nnodes := idmaps.flatten.foldl max 0 + 1
      let medoids := opened.map Prod.fst
      let writer := (CachedOfstream.openFile previous mergeCacheSize).write (bytesOf 8 24)
      let writer := writer.write (bytesOf 4 maxDegree)
      let writer := medoids.getLast?.elim writer fun medoid => writer.write (bytesOf 4 medoid)
      let writer := writer.write (bytesOf 8 0)
      let start : ShardMerge :=
        { readers := fun shard =>
            (opened[shard]?).elim (CachedIfstream.openFile [] mergeCacheSize) Prod.snd
          writer := writer
          nhoodSet := fun _ => false
          finalNhood := []
          curId := 0
          mergedIndexSize := 24 }
      ((nodeShard idmaps).foldlM (ShardMerge.step idmaps nnodes shuffle maxDegree) start).map
        fun (merge : ShardMerge) =>
          let merge := merge.writeNhood shuffle maxDegree
          { vamana := (merge.writer.reset.write (bytesOf 8 merge.mergedIndexSize)).close
            medoids := bytesOf 4 shards.length ++ bytesOf 4 1 ++ wordsOf 4 medoids }

end OdinVector
