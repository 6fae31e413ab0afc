import OdinVector.Transition
import OdinVector.LockOrder
import OdinVector.Geometry
import OdinVector.PageLayout
import OdinVector.Allocation
import OdinVector.Loading
import OdinVector.Reservations
import OdinVector.LockTable
import OdinVector.Prune
import OdinVector.Update.State
import OdinVector.Update.Step
import OdinVector.Update.Phases
import OdinVector.Update.Discipline
import OdinVector.Update.Shapes
import OdinVector.Update.Exclusion
import OdinVector.Update.Mapping
import OdinVector.Update.Agreement
import OdinVector.Update.Waiting
import OdinVector.Update.Buffers
import OdinVector.Update.Records
import OdinVector.Update.Recycling
import OdinVector.Update.VecLocks
import OdinVector.Update.Neighbors
import OdinVector.Update.Links
import OdinVector.Update.Persistence
import OdinVector.Cache.PageCache
import OdinVector.Cache.Requests
import OdinVector.Cache.References
import OdinVector.Cache.WriteLocks
import OdinVector.Cache.Coherence
import OdinVector.Dynamic.DeletionSets
import OdinVector.Dynamic.Retirement
import OdinVector.Dynamic.Visibility
import OdinVector.Dynamic.TagService
import OdinVector.Merge.Wait
import OdinVector.Update.Release
import OdinVector.PointGraph
import OdinVector.Update.Alone
import OdinVector.Update.Returns
import OdinVector.Merge.Files
import OdinVector.Merge.Deletes
import OdinVector.Merge.WriteWindow
import OdinVector.Inverted.Labels
import OdinVector.Inverted.Wal
import OdinVector.Inverted.Restart
import OdinVector.Inverted.IndexFormat
import OdinVector.Inverted.Builder
import OdinVector.InMemory.Tables
import OdinVector.InMemory.Calls
import OdinVector.InMemory.Growth
import OdinVector.InMemory.Confinement
import OdinVector.BoundedHeap
import OdinVector.Search.FilterBeam
import OdinVector.Search.Frontier
import OdinVector.Search.FilterAnswers
import OdinVector.Binary
import OdinVector.InMemory.GraphFile
import OdinVector.Build.CachedIo
import OdinVector.Build.MergeShards
import OdinVector.Build.Shards
import OdinVector.Build.ShardUnion
import OdinVector.Build.DiskLayout
import OdinVector.Build.DiskSectors
import OdinVector.Build.DiskRoundTrip
import OdinVector.InMemory.Index
import OdinVector.InMemory.SaveLoad
import OdinVector.InMemory.Sections
import OdinVector.InMemory.SavedIndex
import OdinVector.InMemory.RoundTrip
import OdinVector.InMemory.Consolidation
import OdinVector.InMemory.Compaction
import OdinVector.InMemory.Settled
import OdinVector.InMemory.Consolidated
import OdinVector.InMemory.InsertPoint
import OdinVector.InMemory.TagMap
import OdinVector.NearestList
import OdinVector.Search.Retset
import OdinVector.Search.Beam
import OdinVector.Search.LiveResults
import OdinVector.Search.Pipe
import OdinVector.SlotRing
import OdinVector.Search.PipeReads
import OdinVector.Search.PipeList
import OdinVector.Search.PipeFixedPoint
import OdinVector.Search.PipeRing
import OdinVector.Search.PipeBuffers
import OdinVector.Search.PipeOverrun
import OdinVector.Search.PageCoverage
import OdinVector.Search.Scratch
import OdinVector.Search.ScratchBounds
import OdinVector.AlphaRng
import OdinVector.BatchedIo
import OdinVector.Merge.Medoid
import OdinVector.QueryBuffers
import OdinVector.InMemory.LinkRounds
import OdinVector.InMemory.BuiltLists
import OdinVector.InMemory.EmptyPools
import OdinVector.InMemory.ReverseEdges
import OdinVector.Build.Partition
import OdinVector.InMemory.SearchLoop
import OdinVector.InMemory.Answers
import OdinVector.InMemory.DiskImport
import OdinVector.InMemory.DiskImported
import OdinVector.SectorDivision
import OdinVector.Narrow.NarrowAllocation
import OdinVector.Narrow.NarrowRuns
import OdinVector.Pq.PqArray
import OdinVector.Pq.PqChunks
import OdinVector.Pq.PqDistances
import OdinVector.Pq.PqEncoders
import OdinVector.Build.ShardData
import OdinVector.Pq.Sampling
import OdinVector.Update.Cosine
import OdinVector.Build.CachedStreams
import OdinVector.InMemory.GraphStream
import OdinVector.Inverted.ExpressionParser
import OdinVector.Inverted.Expressions
import OdinVector.LockHeap
import OdinVector.Narrow.NarrowPool
import OdinVector.Update.Coalescing
import OdinVector.Update.DirectReads
import OdinVector.Search.Coro
import OdinVector.Dynamic.GraphMerges
import OdinVector.Merge.StreamMerge
import OdinVector.Update.DeltaPrune
import OdinVector.Pq.Lloyds
import OdinVector.Distances
import OdinVector.Evaluation.Recall
