/-
This file proves that `merge_shards` builds the union of its shards. Every reader is as
far as the pairs of its shard that are done, and the pairs come in the order of the ids,
so that the neighbours of an id are complete when the next id comes.

The merged file is opened without `trunc`. When a longer file is under its name, the
bytes behind the records stay, and the size in the header is not the size of the file.
-/

import OdinVector.Build.Shards
import Mathlib.Algebra.BigOperators.Group.Finset.Basic
import Mathlib.Data.Finset.Card

namespace OdinVector

open Binary

/-! ### The union -/

/-- The list of an id in a merged graph. -/
structure IsRecord (shards : List Shard) (maxDegree id : Nat) (nbrs : List Nat) : Prop where
  nodup : nbrs.Nodup
  inside : ∀ nbr ∈ nbrs, nbr ∈ shardUnion shards id
  count : nbrs.length = min (shardUnion shards id).card maxDegree
  all : (shardUnion shards id).card ≤ maxDegree → ∀ nbr ∈ shardUnion shards id, nbr ∈ nbrs

/-- The size of a merged graph. -/
def mergedSize (shards : List Shard) (n maxDegree : Nat) : Nat :=
  24 + ((List.range n).map fun id => 4 * (min (shardUnion shards id).card maxDegree + 1)).sum

/-- A file with the union of the shards, which `load_graph` reads into a static index. -/
structure IsUnionGraph (shards : List Shard) (n maxDegree : Nat) (file : Bytes)
    (lists : List (List Nat)) : Prop where
  size : valueOf (file.take 8) = file.length
  content : ∃ medoid, file = graphHeader file.length maxDegree medoid 0 ++ graphRecords lists
  complete : lists.length = n
  records : ∀ id nbrs, lists[id]? = some nbrs → IsRecord shards maxDegree id nbrs
  readBack : ∀ graph : IndexGraph, graph.numFrozenPts = 0 →
    ∃ loaded count, graph.loadGraph file n 0 = some (loaded, count) ∧
      ∀ id nbrs, lists[id]? = some nbrs → loaded.finalGraph id = nbrs

/-- The first of the shuffled neighbours are a record. -/
theorem isRecord_take {shards : List Shard} {maxDegree id : Nat} {nbrs shuffled : List Nat}
    (nodup : nbrs.Nodup) (members : ∀ nbr, nbr ∈ nbrs ↔ nbr ∈ shardUnion shards id)
    (perm : shuffled.Perm nbrs) :
    IsRecord shards maxDegree id (shuffled.take (min shuffled.length maxDegree)) := by
  have same : nbrs.toFinset = shardUnion shards id := by
    ext nbr
    rw [List.mem_toFinset]
    exact members nbr
  have card : (shardUnion shards id).card = shuffled.length := by
    rw [← same, List.toFinset_card_of_nodup nodup, perm.length_eq]
  refine ⟨(perm.nodup_iff.mpr nodup).take, fun nbr member => ?_, ?_, fun few nbr member => ?_⟩
  · exact (members nbr).mp (perm.subset (List.mem_of_mem_take member))
  · rw [List.length_take, card]
    omega
  · rw [card] at few
    rw [Nat.min_eq_left few, List.take_length]
    exact perm.symm.subset ((members nbr).mpr member)

theorem length_graphRecords_of_isRecord {shards : List Shard} {maxDegree : Nat}
    {lists : List (List Nat)}
    (records : ∀ id nbrs, lists[id]? = some nbrs → IsRecord shards maxDegree id nbrs) :
    24 + (graphRecords lists).length = mergedSize shards lists.length maxDegree := by
  unfold mergedSize graphRecords
  rw [List.length_flatMap]
  congr 2
  apply List.ext_getElem
  · rw [List.length_map, List.length_map, List.length_range]
  · intro id first second
    rw [List.length_map] at first
    rw [List.getElem_map, List.getElem_map, List.getElem_range, length_graphRecord,
      (records id lists[id] (List.getElem?_eq_getElem first)).count]

/-! ### What is done -/

/-- The records that are read of a shard. -/
def consumed (done : List (Nat × Nat)) (shard : Nat) : Nat :=
  (done.filter fun pair => pair.2 = shard).length

/-- A record that is read has a neighbour of an id. -/
def Collected (shards : List Shard) (done : List (Nat × Nat)) (id other : Nat) : Prop :=
  ∃ (place : Nat) (shard : Shard) (k : Nat) (nbrs : List Nat), shards[place]? = some shard ∧
    k < consumed done place ∧ shard.idmap[k]? = some id ∧ shard.lists[k]? = some nbrs ∧
      ∃ nbr ∈ nbrs, shard.idmap[nbr]? = some other

/-- `node_shard` of shards. -/
def pairsOf (shards : List Shard) : List (Nat × Nat) :=
  nodeShard (shards.map Shard.idmap)

section Pairs

variable {shards : List Shard} {done rest : List (Nat × Nat)}

/-- The id map of a shard, divided as the pairs are. -/
theorem idmap_eq (few : shards.length ≤ 2 ^ 32) (split : pairsOf shards = done ++ rest)
    {place : Nat} {shard : Shard} (there : shards[place]? = some shard) :
    shard.idmap = (done.filter fun pair => pair.2 = place).map Prod.fst ++
      (rest.filter fun pair => pair.2 = place).map Prod.fst := by
  have few' : (shards.map Shard.idmap).length ≤ 2 ^ 32 := by
    rw [List.length_map]
    exact few
  have there' : (shards.map Shard.idmap)[place]? = some shard.idmap := by
    rw [List.getElem?_map, there]
    rfl
  have order := nodeShard_filter few' there' shard.ascending
  have split' : nodeShard (shards.map Shard.idmap) = done ++ rest := split
  rw [split', List.filter_append, List.map_append] at order
  exact order.symm

/-- The next pair of a shard is at the place of its next record. -/
theorem idmap_consumed (few : shards.length ≤ 2 ^ 32) {id place : Nat}
    (split : pairsOf shards = done ++ (id, place) :: rest) {shard : Shard}
    (there : shards[place]? = some shard) : shard.idmap[consumed done place]? = some id := by
  have order := idmap_eq few split there
  have length : ((done.filter fun pair => pair.2 = place).map Prod.fst).length =
      consumed done place := List.length_map _
  have head : ((id, place) :: rest).filter (fun pair => pair.2 = place) =
      (id, place) :: rest.filter (fun pair => pair.2 = place) :=
    List.filter_cons_of_pos (decide_eq_true rfl)
  rw [head, List.map_cons] at order
  rw [order, List.getElem?_append_right length.le, length, Nat.sub_self]
  rfl

/-- When the pairs of an id are done, its neighbours are complete. -/
theorem collected_iff (few : shards.length ≤ 2 ^ 32) (split : pairsOf shards = done ++ rest) {id : Nat}
    (later : ∀ pair ∈ rest, id < pair.1) (other : Nat) :
    Collected shards done id other ↔ other ∈ shardUnion shards id := by
  rw [mem_shardUnion]
  constructor
  · rintro ⟨place, shard, k, nbrs, there, -, owner, record, named⟩
    exact ⟨shard, List.mem_of_getElem? there, Shard.mem_renamed.mpr ⟨k, nbrs, owner, record, named⟩⟩
  · rintro ⟨shard, member, renamed⟩
    obtain ⟨k, nbrs, owner, record, named⟩ := Shard.mem_renamed.mp renamed
    obtain ⟨place, there⟩ := List.mem_iff_getElem?.mp member
    refine ⟨place, shard, k, nbrs, there, ?_, owner, record, named⟩
    by_contra beyond
    have length : ((done.filter fun pair => pair.2 = place).map Prod.fst).length =
        consumed done place := List.length_map _
    rw [idmap_eq few split there, List.getElem?_append_right (by omega)] at owner
    obtain ⟨pair, inside, rfl⟩ := List.mem_map.mp (List.mem_of_getElem? owner)
    exact absurd (later pair (List.mem_of_mem_filter inside)) (Nat.lt_irrefl _)

theorem consumed_append (done : List (Nat × Nat)) (id place other : Nat) :
    consumed (done ++ [(id, place)]) other =
      consumed done other + if place = other then 1 else 0 := by
  unfold consumed
  rw [List.filter_append, List.length_append]
  congr 1
  show (List.filter _ [(id, place)]).length = _
  rw [List.filter_singleton]
  by_cases same : place = other
  · have flag : decide ((id, place).2 = other) = true := decide_eq_true same
    rw [flag, if_pos same]
    rfl
  · have flag : decide ((id, place).2 = other) = false := decide_eq_false same
    rw [flag, if_neg same]
    rfl

/-- The neighbours that another record adds. -/
theorem collected_append {id place : Nat} {shard : Shard} {nbrs : List Nat}
    (there : shards[place]? = some shard) (owner : shard.idmap[consumed done place]? = some id)
    (record : shard.lists[consumed done place]? = some nbrs) (other : Nat) :
    Collected shards (done ++ [(id, place)]) id other ↔
      Collected shards done id other ∨ ∃ nbr ∈ nbrs, shard.idmap[nbr]? = some other := by
  constructor
  · rintro ⟨place', shard', k, nbrs', there', read, owner', record', named⟩
    rw [consumed_append] at read
    by_cases before : k < consumed done place'
    · exact Or.inl ⟨place', shard', k, nbrs', there', before, owner', record', named⟩
    · have same : place = place' := by
        by_contra differ
        rw [if_neg differ] at read
        omega
      subst same
      rw [if_pos rfl] at read
      obtain rfl : k = consumed done place := by omega
      obtain rfl := Option.some.inj (there.symm.trans there')
      obtain rfl := Option.some.inj (record.symm.trans record')
      exact Or.inr named
  · rintro (⟨place', shard', k, nbrs', there', read, rest⟩ | named)
    · refine ⟨place', shard', k, nbrs', there', ?_, rest⟩
      rw [consumed_append]
      omega
    · refine ⟨place, shard, _, nbrs, there, ?_, owner, record, named⟩
      rw [consumed_append, if_pos rfl]
      omega

end Pairs

/-! ### The loop -/

/-- The ids of the map are inside `nhood_set`. -/
theorem le_foldl_max {ids : List Nat} {id init : Nat} (member : id ∈ ids ∨ id ≤ init) :
    id ≤ ids.foldl max init := by
  induction ids generalizing init with
  | nil => exact member.resolve_left List.not_mem_nil
  | cons first rest inductionHypothesis =>
    apply inductionHypothesis
    obtain inside | small := member
    · obtain rfl | later := List.mem_cons.mp inside
      · exact Or.inr (Nat.le_max_right _ _)
      · exact Or.inl later
    · exact Or.inr (small.trans (Nat.le_max_left _ _))

section Loop

variable (shards : List Shard) (n nnodes : Nat) (shuffle : Nat → List Nat → List Nat)
  (maxDegree : Nat) (previous header : Bytes)

/-- The first `count` records are written. -/
def Written (count : Nat) (writer : CachedOfstream) (size : Nat) : Prop :=
  ∃ lists : List (List Nat), lists.length = count ∧
    writer.Wrote previous (header ++ graphRecords lists) ∧
      size = 24 + (graphRecords lists).length ∧
        ∀ id nbrs, lists[id]? = some nbrs → IsRecord shards maxDegree id nbrs

/-- How far the loop is when `rest` is left of the pairs. -/
structure Progress (done rest : List (Nat × Nat)) (merge : ShardMerge) : Prop where
  readers : ∀ place shard, shards[place]? = some shard →
    (merge.readers place).remaining = graphRecords (shard.lists.drop (consumed done place))
  before : ∀ pair ∈ done, pair.1 ≤ merge.curId
  later : ∀ pair ∈ rest, merge.curId ≤ pair.1
  inside : merge.curId < n
  nhoodSet : ∀ id, merge.nhoodSet id = true ↔ id ∈ merge.finalNhood
  nodup : merge.finalNhood.Nodup
  members : ∀ id, id ∈ merge.finalNhood ↔ Collected shards done merge.curId id
  written : Written shards maxDegree previous header merge.curId merge.writer
    merge.mergedIndexSize

variable {shards n nnodes shuffle maxDegree previous header}

/-- The record of an id whose pairs are done. -/
theorem Progress.writeNhood (few : shards.length ≤ 2 ^ 32)
    (perm : ∀ id nbrs, (shuffle id nbrs).Perm nbrs) {done rest : List (Nat × Nat)}
    {merge : ShardMerge} (split : pairsOf shards = done ++ rest)
    (progress : Progress shards n maxDegree previous header done rest merge)
    (next : ∀ pair ∈ rest, merge.curId < pair.1) :
    let after := merge.writeNhood shuffle maxDegree
    Written shards maxDegree previous header (merge.curId + 1) after.writer
      after.mergedIndexSize ∧ ∀ id, after.nhoodSet id = false := by
  have shuffled := perm merge.curId merge.finalNhood
  have members : ∀ nbr, nbr ∈ merge.finalNhood ↔ nbr ∈ shardUnion shards merge.curId :=
    fun nbr => (progress.members nbr).trans (collected_iff few split next nbr)
  let record := (shuffle merge.curId merge.finalNhood).take
    (min (shuffle merge.curId merge.finalNhood).length maxDegree)
  have isRecord : IsRecord shards maxDegree merge.curId record :=
    isRecord_take progress.nodup members shuffled
  have length : record.length =
      min (shuffle merge.curId merge.finalNhood).length maxDegree := by
    rw [List.length_take]
    omega
  constructor
  · obtain ⟨lists, count, wrote, size, records⟩ := progress.written
    refine ⟨lists ++ [record], ?_, ?_, ?_, fun id nbrs there => ?_⟩
    · rw [List.length_append, List.length_singleton, count]
    · have both := (wrote.write (bytesOf 4 record.length)).write (wordsOf 4 record)
      rw [length] at both
      rw [graphRecords_append, graphRecords_cons, graphRecords_nil, List.append_nil]
      unfold graphRecord
      rw [length]
      rw [List.append_assoc, List.append_assoc] at both
      exact both
    · rw [graphRecords_append, graphRecords_cons, graphRecords_nil, List.append_nil,
        List.length_append, length_graphRecord, length]
      show merge.mergedIndexSize + _ = _
      omega
    · obtain before | here := Nat.lt_or_ge id lists.length
      · rw [List.getElem?_append_left before] at there
        exact records id nbrs there
      · rw [List.getElem?_append_right here] at there
        obtain ⟨place, same⟩ := List.getElem?_eq_some_iff.mp there
        rw [List.length_singleton] at place
        obtain rfl : id = merge.curId := by omega
        rw [List.getElem_singleton] at same
        exact same ▸ isRecord
  · intro id
    show (if id ∈ shuffle merge.curId merge.finalNhood then false else merge.nhoodSet id) = false
    split
    · rfl
    · rename_i outside
      rw [← Bool.not_eq_true, progress.nhoodSet, ← shuffled.mem_iff]
      exact outside

/-- The loop comes to the id of the next pair. -/
theorem Progress.advance (few : shards.length ≤ 2 ^ 32) (covers : Covers shards n)
    (perm : ∀ id nbrs, (shuffle id nbrs).Perm nbrs) {done rest : List (Nat × Nat)}
    {merge : ShardMerge} {id place : Nat} (split : pairsOf shards = done ++ (id, place) :: rest)
    (progress : Progress shards n maxDegree previous header done ((id, place) :: rest) merge) :
    let after :=
      if merge.curId < id then { merge.writeNhood shuffle maxDegree with curId := id } else merge
    Progress shards n maxDegree previous header done ((id, place) :: rest) after ∧
      after.curId = id := by
  have sorted : (pairsOf shards).Pairwise PairOrder := nodeShard_pairwise _
  rw [split] at sorted
  have least : ∀ pair ∈ (id, place) :: rest, id ≤ pair.1 := by
    intro pair member
    obtain rfl | later := List.mem_cons.mp member
    · exact Nat.le_refl _
    · obtain less | same := (List.pairwise_cons.mp (List.pairwise_append.mp sorted).2.1).1 pair later
      · exact less.le
      · exact same.1.le
  have few' : (shards.map Shard.idmap).length ≤ 2 ^ 32 := by
    rw [List.length_map]
    exact few
  have known : ∀ other, other < n →
      ∃ owner, (other, owner) ∈ done ++ (id, place) :: rest := by
    intro other below
    obtain ⟨shard, member, owns⟩ := (covers other).mp below
    obtain ⟨owner, there⟩ := List.mem_iff_getElem?.mp member
    have there' : (shards.map Shard.idmap)[owner]? = some shard.idmap := by
      rw [List.getElem?_map, there]
      rfl
    rw [← split]
    exact ⟨owner, (mem_nodeShard few').mpr ⟨shard.idmap, there', owns⟩⟩
  have below : id < n := by
    have member : (id, place) ∈ pairsOf shards := by
      rw [split]
      exact List.mem_append_right _ List.mem_cons_self
    obtain ⟨idmap, there, owns⟩ := (mem_nodeShard few').mp member
    obtain ⟨shard, member', rfl⟩ := List.mem_map.mp (List.mem_of_getElem? there)
    exact (covers id).mpr ⟨shard, member', owns⟩
  dsimp only
  split
  · rename_i next
    have following : id = merge.curId + 1 := by
      by_contra gap
      obtain ⟨place', member⟩ := known (merge.curId + 1) (by omega)
      obtain old | new := List.mem_append.mp member
      · have bound := progress.before _ old
        dsimp only at bound
        omega
      · have bound := least _ new
        dsimp only at bound
        omega
    obtain ⟨written, clear⟩ := progress.writeNhood few perm split fun pair member =>
      Nat.lt_of_lt_of_le next (least pair member)
    refine ⟨⟨progress.readers, fun pair member => (progress.before pair member).trans next.le,
      least, below, fun other => ?_, List.nodup_nil, fun other => ?_, ?_⟩, rfl⟩
    · rw [clear other]
      exact ⟨nofun, fun member => absurd member List.not_mem_nil⟩
    · refine ⟨fun member => absurd member List.not_mem_nil, ?_⟩
      rintro ⟨place', shard, k, nbrs, there, read, owner, -⟩
      have order := idmap_eq few split there
      have length : ((done.filter fun pair => pair.2 = place').map Prod.fst).length =
          consumed done place' := List.length_map _
      rw [order, List.getElem?_append_left (by omega)] at owner
      obtain ⟨pair, inside, same⟩ := List.mem_map.mp (List.mem_of_getElem? owner)
      have bound := progress.before pair (List.mem_of_mem_filter inside)
      dsimp only at same
      omega
    · rw [← following] at written
      exact written
  · rename_i reached
    have same : merge.curId = id :=
      Nat.le_antisymm (progress.later _ List.mem_cons_self) (Nat.not_lt.mp reached)
    exact ⟨progress, same⟩

/-- The neighbours of a record, renamed, join those that are collected. -/
theorem addNeighbours {idmap nbrs : List Nat} {merge : ShardMerge}
    (closed : ∀ nbr ∈ nbrs, ∃ id, idmap[nbr]? = some id ∧ id < nnodes)
    (nhoodSet : ∀ id, merge.nhoodSet id = true ↔ id ∈ merge.finalNhood)
    (nodup : merge.finalNhood.Nodup) :
    ∃ set nhood, nbrs.foldlM (ShardMerge.addNeighbour nnodes idmap) merge =
        some { merge with nhoodSet := set, finalNhood := nhood } ∧
      (∀ id, set id = true ↔ id ∈ nhood) ∧ nhood.Nodup ∧
        ∀ id, id ∈ nhood ↔ id ∈ merge.finalNhood ∨ ∃ nbr ∈ nbrs, idmap[nbr]? = some id := by
  induction nbrs generalizing merge with
  | nil =>
    refine ⟨_, _, rfl, nhoodSet, nodup, fun id => ⟨Or.inl, ?_⟩⟩
    rintro (old | ⟨nbr, member, -⟩)
    · exact old
    · exact absurd member List.not_mem_nil
  | cons nbr rest inductionHypothesis =>
    obtain ⟨id, named, bound⟩ := closed nbr List.mem_cons_self
    have closed' : ∀ nbr ∈ rest, ∃ id, idmap[nbr]? = some id ∧ id < nnodes :=
      fun other member => closed other (List.mem_cons_of_mem _ member)
    have first : ∀ other, (∃ nbr' ∈ nbr :: rest, idmap[nbr']? = some other) ↔
        other = id ∨ ∃ nbr' ∈ rest, idmap[nbr']? = some other := by
      intro other
      rw [List.exists_mem_cons_iff, named, Option.some.injEq]
      exact or_congr_left eq_comm
    rw [List.foldlM_cons]
    unfold ShardMerge.addNeighbour
    rw [named, Option.bind_some, if_pos bound]
    by_cases old : merge.nhoodSet id = true
    · rw [if_pos old]
      obtain ⟨set, nhood, run, same, nodup', members⟩ :=
        inductionHypothesis closed' nhoodSet nodup
      refine ⟨set, nhood, run, same, nodup', fun other => ?_⟩
      rw [members, first]
      constructor
      · exact Or.imp_right Or.inr
      · rintro (inside | rfl | more)
        · exact Or.inl inside
        · exact Or.inl ((nhoodSet other).mp old)
        · exact Or.inr more
    · rw [if_neg old]
      have outside : id ∉ merge.finalNhood := fun member => old ((nhoodSet id).mpr member)
      have nhoodSet' : ∀ other, Function.update merge.nhoodSet id true other = true ↔
          other ∈ merge.finalNhood ++ [id] := by
        intro other
        rw [List.mem_append, List.mem_singleton]
        by_cases same : other = id
        · subst same
          rw [Function.update_self]
          exact ⟨fun _ => Or.inr rfl, fun _ => rfl⟩
        · rw [Function.update_of_ne same, nhoodSet]
          exact ⟨Or.inl, fun member => member.resolve_right same⟩
      have nodup'' : (merge.finalNhood ++ [id]).Nodup := by
        refine List.nodup_append.mpr ⟨nodup, List.nodup_singleton _, ?_⟩
        intro before member last member' same
        rw [List.mem_singleton.mp member'] at same
        exact outside (same ▸ member)
      obtain ⟨set, nhood, run, same, nodup', members⟩ := @inductionHypothesis
        { merge with
          nhoodSet := Function.update merge.nhoodSet id true
          finalNhood := merge.finalNhood ++ [id] } closed' nhoodSet' nodup''
      refine ⟨set, nhood, run, same, nodup', fun other => ?_⟩
      rw [members, first, List.mem_append, List.mem_singleton, or_assoc]

/-- One pair of the loop. -/
theorem Progress.step (few : shards.length ≤ 2 ^ 32) (covers : Covers shards n)
    (inside : ∀ id, id < n → id < nnodes) (perm : ∀ id nbrs, (shuffle id nbrs).Perm nbrs)
    {done rest : List (Nat × Nat)} {merge : ShardMerge} {pair : Nat × Nat}
    (split : pairsOf shards = done ++ pair :: rest)
    (progress : Progress shards n maxDegree previous header done (pair :: rest) merge) :
    ∃ next, merge.step (shards.map Shard.idmap) nnodes shuffle maxDegree pair = some next ∧
      Progress shards n maxDegree previous header (done ++ [pair]) rest next := by
  obtain ⟨id, place⟩ := pair
  obtain ⟨advanced, current⟩ := progress.advance few covers perm split
  have few' : (shards.map Shard.idmap).length ≤ 2 ^ 32 := by
    rw [List.length_map]
    exact few
  have member : (id, place) ∈ pairsOf shards := by
    rw [split]
    exact List.mem_append_right _ List.mem_cons_self
  obtain ⟨shard, there⟩ : ∃ shard, shards[place]? = some shard := by
    obtain ⟨idmap, there, -⟩ := (mem_nodeShard few').mp member
    rw [List.getElem?_map] at there
    obtain ⟨shard, there', -⟩ := Option.map_eq_some_iff.mp there
    exact ⟨shard, there'⟩
  have owner := idmap_consumed few split there
  have bound : consumed done place < shard.lists.length := by
    rw [shard.complete]
    exact (List.getElem?_eq_some_iff.mp owner).1
  let nbrs := shard.lists[consumed done place]
  have record : shard.lists[consumed done place]? = some nbrs := List.getElem?_eq_getElem bound
  have inList : nbrs ∈ shard.lists := List.getElem_mem bound
  have idmap : (shards.map Shard.idmap)[place]? = some shard.idmap := by
    rw [List.getElem?_map, there]
    rfl
  unfold ShardMerge.step
  dsimp only
  generalize
    (if merge.curId < id then { merge.writeNhood shuffle maxDegree with curId := id } else merge) =
      merge at advanced current ⊢
  subst current
  have stream := advanced.readers place shard there
  rw [List.drop_eq_getElem_cons bound, graphRecords_cons] at stream
  unfold graphRecord at stream
  rw [List.append_assoc] at stream
  have storable := shard.storable nbrs inList
  obtain ⟨first, read, rest'⟩ :=
    CachedIfstream.readWord_append (by exact storable.length) stream
  obtain ⟨second, read', rest''⟩ :=
    CachedIfstream.readWords_append (fun nbr member => storable.ids nbr member) rest'
  have closed : ∀ nbr ∈ nbrs, ∃ other, shard.idmap[nbr]? = some other ∧ other < nnodes := by
    intro nbr inside'
    have within := shard.closed nbrs inList nbr inside'
    refine ⟨shard.idmap[nbr], List.getElem?_eq_getElem within, inside _ ?_⟩
    exact (covers _).mpr ⟨shard, List.mem_of_getElem? there, List.getElem_mem within⟩
  rw [idmap, Option.bind_some, read, Option.bind_some]
  dsimp only
  rw [read', Option.bind_some]
  dsimp only
  obtain ⟨set, nhood, run, nhoodSet, nodup, members⟩ := @addNeighbours nnodes shard.idmap nbrs
    { merge with readers := Function.update merge.readers place second } closed advanced.nhoodSet
    advanced.nodup
  refine ⟨_, run, ⟨fun other shard' there' => ?_, fun pair member => ?_, fun pair member => ?_,
    advanced.inside, nhoodSet, nodup, fun other => ?_, advanced.written⟩⟩
  · show (Function.update merge.readers place second other).remaining = _
    rw [consumed_append]
    by_cases same : other = place
    · subst same
      obtain rfl := Option.some.inj (there.symm.trans there')
      rw [Function.update_self, if_pos rfl]
      exact rest''
    · rw [Function.update_of_ne same, if_neg (Ne.symm same), Nat.add_zero]
      exact advanced.readers other shard' there'
  · obtain old | new := List.mem_append.mp member
    · exact advanced.before pair old
    · rw [List.mem_singleton.mp new]
  · exact advanced.later pair (List.mem_cons_of_mem _ member)
  · rw [members other, collected_append there owner record]
    exact or_congr_left (advanced.members other)

/-- The loop. -/
theorem Progress.run (few : shards.length ≤ 2 ^ 32) (covers : Covers shards n)
    (inside : ∀ id, id < n → id < nnodes) (perm : ∀ id nbrs, (shuffle id nbrs).Perm nbrs)
    {done rest : List (Nat × Nat)} {merge : ShardMerge} (split : pairsOf shards = done ++ rest)
    (progress : Progress shards n maxDegree previous header done rest merge) :
    ∃ last, rest.foldlM (ShardMerge.step (shards.map Shard.idmap) nnodes shuffle maxDegree) merge =
        some last ∧ Progress shards n maxDegree previous header (pairsOf shards) [] last := by
  induction rest generalizing done merge with
  | nil =>
    rw [List.append_nil] at split
    exact ⟨merge, rfl, split ▸ progress⟩
  | cons pair rest inductionHypothesis =>
    obtain ⟨next, step, progress'⟩ := progress.step few covers inside perm split
    have split' : pairsOf shards = done ++ [pair] ++ rest := by
      rw [split, List.append_assoc]
      rfl
    obtain ⟨last, run, final⟩ := inductionHypothesis split' progress'
    refine ⟨last, ?_, final⟩
    rw [List.foldlM_cons, step]
    exact run

end Loop

/-! ### The merge -/

theorem forall₂_getElem? {First Second : Type} {Fits : First → Second → Prop}
    {items : List First} {results : List Second} (all : List.Forall₂ Fits items results)
    {place : Nat} {item : First} (there : items[place]? = some item) :
    ∃ result, results[place]? = some result ∧ Fits item result := by
  induction all generalizing place with
  | nil => exact absurd there nofun
  | @cons item' result rest results fits _ inductionHypothesis =>
    cases place with
    | zero =>
      obtain rfl : item' = item := Option.some.inj there
      exact ⟨result, rfl, fits⟩
    | succ place => exact inductionHypothesis there

theorem map_idmap_of_forall₂ {shards : List Shard} {idmaps : List (List Nat)}
    (all : List.Forall₂ (fun (shard : Shard) idmap => idmap = shard.idmap) shards idmaps) :
    idmaps = shards.map Shard.idmap := by
  induction all with
  | nil => rfl
  | cons fits _ inductionHypothesis => rw [List.map_cons, fits, inductionHypothesis]

/-- What is read of the shards before the loop. -/
theorem open_shards (shards : List Shard) :
    ((shards.map Shard.files).mapM fun shard => readIdmap shard.idmap) =
        some (shards.map Shard.idmap) ∧
      ∃ opened, (((shards.map Shard.idmap).zip (shards.map Shard.files)).mapM
          fun (entry : List Nat × ShardFiles) => openShard entry.1 entry.2.graph) = some opened ∧
        List.Forall₂ (fun (shard : Shard) (result : Nat × CachedIfstream) =>
          result.1 ∈ shard.idmap ∧ result.2.remaining = graphRecords shard.lists)
          shards opened := by
  constructor
  · rw [List.mapM_map, Function.comp_def]
    have each : ∀ shard ∈ shards, ∃ idmap,
        readIdmap shard.files.idmap = some idmap ∧ idmap = shard.idmap :=
      fun shard _ => ⟨shard.idmap, shard.readIdmap_files, rfl⟩
    obtain ⟨idmaps, run, all⟩ := mapM_some each
    rw [run, map_idmap_of_forall₂ all]
  · rw [List.zip_map', List.mapM_map, Function.comp_def]
    refine mapM_some fun shard _ => ?_
    dsimp only
    obtain ⟨medoid, reader, read, member, remaining⟩ := shard.openShard_files
    exact ⟨(medoid, reader), read, member, remaining⟩

/-- The merged file has the records of the union, and then what is left of a longer file. -/
theorem mergeShards_file {shards : List Shard} {n maxDegree : Nat}
    {shuffle : Nat → List Nat → List Nat} (previous : Option Bytes)
    (few : shards.length ≤ 2 ^ 32) (some : shards ≠ []) (covers : Covers shards n)
    (perm : ∀ id nbrs, (shuffle id nbrs).Perm nbrs) :
    ∃ merged medoid lists,
      mergeShards shuffle (shards.map Shard.files) maxDegree previous = Option.some merged ∧
      merged.vamana = graphHeader (24 + (graphRecords lists).length) maxDegree medoid 0 ++
        graphRecords lists ++ (previous.getD []).drop (24 + (graphRecords lists).length) ∧
      medoid < 2 ^ 32 ∧ lists.length = n ∧
        ∀ id nbrs, lists[id]? = Option.some nbrs → IsRecord shards maxDegree id nbrs := by
  obtain ⟨idmaps, opened, open_, all⟩ := open_shards shards
  obtain ⟨medoid, last, fits⟩ : ∃ medoid, (opened.map Prod.fst).getLast? = Option.some medoid ∧
      medoid < 2 ^ 32 := by
    have length := all.length_eq
    have positive := List.length_pos_iff.mpr some
    have place : shards[shards.length - 1]? = Option.some shards[shards.length - 1] :=
      List.getElem?_eq_getElem (by omega)
    obtain ⟨result, there, inside, -⟩ := forall₂_getElem? all place
    refine ⟨result.1, ?_, Shard.ids _ _ inside⟩
    rw [List.getLast?_eq_getElem?, List.length_map, List.getElem?_map, ← length, there]
    rfl
  have positive : 0 < n := by
    obtain ⟨shard, member⟩ := List.exists_mem_of_ne_nil shards some
    have medoidInside := shard.medoidInside
    have owns : shard.idmap[shard.medoid] ∈ shard.idmap := List.getElem_mem _
    exact Nat.zero_lt_of_lt ((covers _).mpr ⟨shard, member, owns⟩)
  have inside : ∀ id, id < n → id < (shards.map Shard.idmap).flatten.foldl max 0 + 1 := by
    intro id below
    obtain ⟨shard, member, owns⟩ := (covers id).mp below
    exact Nat.lt_succ_of_le (le_foldl_max (Or.inl (List.mem_flatten.mpr
      ⟨shard.idmap, List.mem_map.mpr ⟨shard, member, rfl⟩, owns⟩)))
  have header := (((CachedOfstream.wrote_openFile previous mergeCacheSize).write
    (bytesOf 8 24)).write (bytesOf 4 maxDegree)).write (bytesOf 4 medoid) |>.write (bytesOf 8 0)
  unfold mergeShards
  rw [idmaps, Option.bind_some, open_, Option.bind_some]
  dsimp only
  rw [last, Option.elim_some]
  generalize writerEq : ((((CachedOfstream.openFile previous mergeCacheSize).write
    (bytesOf 8 24)).write (bytesOf 4 maxDegree)).write (bytesOf 4 medoid)).write
      (bytesOf 8 0) = writer at header ⊢
  have start : Progress shards n maxDegree (previous.getD []) (graphHeader 24 maxDegree medoid 0)
      [] (pairsOf shards)
      { readers := fun shard =>
          (opened[shard]?).elim (CachedIfstream.openFile [] mergeCacheSize) Prod.snd
        writer := writer
        nhoodSet := fun _ => false
        finalNhood := []
        curId := 0
        mergedIndexSize := 24 } := by
    refine ⟨fun place shard there => ?_, fun pair member => absurd member List.not_mem_nil,
      fun _ _ => Nat.zero_le _, positive, fun id => ⟨nofun, fun member => ?_⟩, List.nodup_nil,
      fun id => ⟨fun member => absurd member List.not_mem_nil, ?_⟩, ?_⟩
    · obtain ⟨result, there', -, remaining⟩ := forall₂_getElem? all there
      show ((opened[place]?).elim _ Prod.snd).remaining = _
      rw [there']
      exact remaining
    · exact absurd member List.not_mem_nil
    · rintro ⟨place, shard, k, nbrs, -, none, -⟩
      exact absurd none (Nat.not_lt_zero k)
    · refine ⟨[], rfl, ?_, rfl, nofun⟩
      rw [graphRecords_nil, List.append_nil]
      exact header
  obtain ⟨final, run, progress⟩ := start.run few covers inside perm rfl
  have whole : final.curId + 1 = n := by
    have bound := progress.inside
    obtain ⟨shard, member, owns⟩ := (covers (n - 1)).mp (by omega)
    obtain ⟨place, there⟩ := List.mem_iff_getElem?.mp member
    have pair : (n - 1, place) ∈ pairsOf shards := by
      refine (mem_nodeShard (by rw [List.length_map]; exact few)).mpr ⟨shard.idmap, ?_, owns⟩
      rw [List.getElem?_map, there]
      rfl
    have reached := progress.before _ pair
    dsimp only at reached
    omega
  obtain ⟨⟨lists, count, wrote, size, records⟩, -⟩ := progress.writeNhood few perm
    (List.append_nil _).symm (fun pair member => absurd member List.not_mem_nil)
  have run' := run
  unfold pairsOf at run'
  rw [run', Option.map_some]
  refine ⟨_, medoid, lists, rfl, ?_, fits, count.trans whole, records⟩
  let bytes := bytesOf 8 (final.writeNhood shuffle maxDegree).mergedIndexSize
  have length : bytes.length = 8 := length_bytesOf 8 _
  have closed := wrote.reset_write_close (by omega : 0 < bytes.length) (by
    rw [length, List.length_append, length_graphHeader]
    omega)
  dsimp only
  rw [closed, length, List.length_append, length_graphHeader]
  unfold bytes
  rw [size]
  rfl

/-- A merge of no shards writes a header without a medoid. -/
theorem mergeShards_nil (shuffle : Nat → List Nat → List Nat)
    (perm : ∀ id nbrs, (shuffle id nbrs).Perm nbrs) (maxDegree : Nat) (previous : Option Bytes) :
    ∃ merged, mergeShards shuffle [] maxDegree previous = some merged ∧
      merged.vamana.take 8 = bytesOf 8 28 := by
  have empty : shuffle 0 [] = [] := (perm 0 []).eq_nil
  have header := (((CachedOfstream.wrote_openFile previous mergeCacheSize).write
    (bytesOf 8 24)).write (bytesOf 4 maxDegree)).write (bytesOf 8 0)
  have written := (header.write (bytesOf 4 0)).write (wordsOf 4 [])
  have closed := written.reset_write_close (by decide : 0 < (bytesOf 8 28).length) (by
    simp only [List.length_append, length_bytesOf]
    omega)
  unfold mergeShards
  rw [List.mapM_nil]
  dsimp only [pure, Option.bind_some, List.zip_nil_left, List.mapM_nil]
  unfold nodeShard nodeShardPairs
  dsimp only [List.zipIdx_nil, List.flatMap_nil, List.insertionSort_nil, List.foldlM_nil, pure,
    Option.map_some, List.map_nil, List.getLast?_nil, Option.elim_none]
  refine ⟨_, rfl, ?_⟩
  unfold ShardMerge.writeNhood
  dsimp only
  rw [empty, List.length_nil, Nat.zero_min, List.take_nil]
  refine (congrArg (List.take 8) closed).trans ?_
  rw [List.append_assoc]
  exact List.take_left' (length_bytesOf 8 28)

/-- The records of a union can be stored. -/
theorem IsRecord.storable {shards : List Shard} {maxDegree id : Nat} {nbrs : List Nat}
    (record : IsRecord shards maxDegree id nbrs) (degreeFits : maxDegree < 2 ^ 32) :
    Storable nbrs := by
  refine ⟨?_, fun nbr member => ?_⟩
  · have count := record.count
    omega
  · obtain ⟨shard, -, renamed⟩ := mem_shardUnion.mp (record.inside nbr member)
    obtain ⟨-, -, -, -, place, -, named⟩ := Shard.mem_renamed.mp renamed
    exact shard.ids nbr (List.mem_of_getElem? named)

/-- The merged file is the union of the shards exactly when there are shards and no longer file
is under its name, and the size fits the header. -/
theorem mergeShards_union_iff (shards : List Shard) (n maxDegree : Nat)
    (shuffle : Nat → List Nat → List Nat) (previous : Option Bytes)
    (few : shards.length ≤ 2 ^ 32) (covers : Covers shards n)
    (perm : ∀ id nbrs, (shuffle id nbrs).Perm nbrs) (degreeFits : maxDegree < 2 ^ 32) :
    (∃ merged lists,
        mergeShards shuffle (shards.map Shard.files) maxDegree previous = some merged ∧
        IsUnionGraph shards n maxDegree merged.vamana lists) ↔
      shards ≠ [] ∧ (previous.getD []).length ≤ mergedSize shards n maxDegree ∧
        mergedSize shards n maxDegree < 2 ^ 64 := by
  obtain rfl | nonempty := eq_or_ne shards []
  · refine ⟨?_, fun conditions => absurd rfl conditions.1⟩
    rintro ⟨merged, lists, run, graph⟩
    obtain ⟨merged', run', size⟩ := mergeShards_nil shuffle perm maxDegree previous
    obtain rfl := Option.some.inj (run.symm.trans run')
    have none : n = 0 := by
      by_contra positive
      obtain ⟨shard, member, -⟩ := (covers 0).mp (Nat.pos_of_ne_zero positive)
      exact absurd member List.not_mem_nil
    obtain rfl : lists = [] := List.eq_nil_of_length_eq_zero (graph.complete.trans none)
    obtain ⟨medoid, content⟩ := graph.content
    have length := congrArg List.length content
    rw [graphRecords_nil, List.append_nil, length_graphHeader] at length
    have wrong := graph.size
    rw [size, length, valueOf_bytesOf (by decide : 28 < 256 ^ 8)] at wrong
    omega
  · obtain ⟨merged, medoid, lists, run, file, medoidFits, count, records⟩ :=
      mergeShards_file previous few nonempty covers perm
    have total := length_graphRecords_of_isRecord records
    rw [count] at total
    have length : merged.vamana.length =
        max (mergedSize shards n maxDegree) (previous.getD []).length := by
      rw [file, List.length_append, List.length_append, length_graphHeader, List.length_drop,
        total, Nat.add_comm, Nat.sub_add_eq_max, Nat.max_comm]
    have first : merged.vamana.take 8 = bytesOf 8 (mergedSize shards n maxDegree) := by
      rw [file, total]
      unfold graphHeader
      rw [List.append_assoc, List.append_assoc, List.append_assoc, List.append_assoc]
      exact List.take_left' (length_bytesOf 8 _)
    constructor
    · rintro ⟨merged', lists', run', graph⟩
      obtain rfl := Option.some.inj (run.symm.trans run')
      have size := graph.size
      rw [first, valueOf_bytesOf_mod, length] at size
      have bound : mergedSize shards n maxDegree % 256 ^ 8 < 2 ^ 64 :=
        Nat.mod_lt _ (by norm_num)
      have least : mergedSize shards n maxDegree % 256 ^ 8 ≤ mergedSize shards n maxDegree :=
        Nat.mod_le _ _
      exact ⟨nonempty, by omega, by omega⟩
    · rintro ⟨-, shorter, fits⟩
      have whole : merged.vamana.length = mergedSize shards n maxDegree := by
        rw [length]
        omega
      have nothing : (previous.getD []).drop (24 + (graphRecords lists).length) = [] :=
        List.drop_of_length_le (by omega)
      rw [nothing, List.append_nil] at file
      refine ⟨merged, lists, run, ⟨?_, ⟨medoid, ?_⟩, count, records, fun graph static => ?_⟩⟩
      · rw [first, whole]
        exact valueOf_bytesOf fits
      · rw [whole, ← total]
        exact file
      · have storable : ∀ nbrs ∈ lists, Storable nbrs := by
          intro nbrs member
          obtain ⟨id, there⟩ := List.mem_iff_getElem?.mp member
          exact (records id nbrs there).storable degreeFits
        have room : lists.length ≤
            max graph.maxPoints (n - graph.numFrozenPts) + graph.numFrozenPts := by
          omega
        have place : merged.vamana.drop 0 =
            graphHeader (24 + (graphRecords lists).length) maxDegree medoid graph.numFrozenPts ++
              graphRecords lists ++ [] := by
          rw [static, List.append_nil]
          exact file
        have read := IndexGraph.loadGraph_section (by omega) degreeFits medoidFits (by omega)
          storable (by omega) room place
        refine ⟨_, _, read, fun id nbrs there => ?_⟩
        show placed lists 0 graph.finalGraph id = nbrs
        unfold placed
        rw [if_neg (Nat.not_lt_zero id), Nat.sub_zero, there]
        rfl

/-- One shard of two points. -/
def shardOfTwo : Shard where
  idmap := [0, 1]
  width := 1
  medoid := 0
  lists := [[1], [0]]
  ascending := by decide
  ids := by decide
  few := by decide
  widthFits := by decide
  medoidInside := by decide
  complete := rfl
  lengths := by decide
  closed := by decide

theorem covers_shardOfTwo : Covers [shardOfTwo] 2 := by
  intro id
  show id < 2 ↔ ∃ shard ∈ [shardOfTwo], id ∈ shard.idmap
  rw [List.exists_mem_cons_iff]
  show id < 2 ↔ id ∈ [0, 1] ∨ _
  rw [List.mem_cons, List.mem_singleton]
  constructor
  · omega
  · rintro (below | ⟨shard, member, -⟩)
    · omega
    · exact absurd member List.not_mem_nil

/-- A second shard, which has the id 1, too. -/
def shardOfLast : Shard where
  idmap := [1, 2]
  width := 1
  medoid := 1
  lists := [[1], [0]]
  ascending := by decide
  ids := by decide
  few := by decide
  widthFits := by decide
  medoidInside := by decide
  complete := rfl
  lengths := by decide
  closed := by decide

theorem covers_twoShards : Covers [shardOfTwo, shardOfLast] 3 := by
  intro id
  constructor
  · intro below
    obtain rfl | rfl | rfl : id = 0 ∨ id = 1 ∨ id = 2 := by omega
    · exact ⟨shardOfTwo, List.mem_cons_self, by decide⟩
    · exact ⟨shardOfTwo, List.mem_cons_self, by decide⟩
    · exact ⟨shardOfLast, List.mem_cons_of_mem _ List.mem_cons_self, by decide⟩
  · rintro ⟨shard, member, owns⟩
    obtain rfl | last := List.mem_cons.mp member
    · exact Nat.lt_succ_of_lt ((covers_shardOfTwo id).mpr ⟨_, List.mem_cons_self, owns⟩)
    · obtain rfl := List.mem_singleton.mp last
      have below : ∀ id ∈ shardOfLast.idmap, id < 3 := by decide
      exact below id owns

/-- Two shards become the union of their graphs where no file is, with the neighbours of the
shared id in the other order. -/
theorem mergeShards_twoShards :
    ∃ merged lists, mergeShards (fun _ nbrs => nbrs.reverse)
        ([shardOfTwo, shardOfLast].map Shard.files) 2 none = some merged ∧
      IsUnionGraph [shardOfTwo, shardOfLast] 3 2 merged.vamana lists :=
  (mergeShards_union_iff [shardOfTwo, shardOfLast] 3 2 (fun _ nbrs => nbrs.reverse) none
    (by decide) covers_twoShards (fun _ nbrs => nbrs.reverse_perm) (by decide)).mpr
      ⟨by decide, by decide +kernel, by decide +kernel⟩

/-- A byte more than the merged graph is under its name, and stays behind it. -/
theorem not_mergeShards_union :
    ¬ ∀ (shards : List Shard) (n maxDegree : Nat) (shuffle : Nat → List Nat → List Nat)
      (previous : Option Bytes), shards.length ≤ 2 ^ 32 → Covers shards n →
        (∀ id nbrs, (shuffle id nbrs).Perm nbrs) → maxDegree < 2 ^ 32 →
          ∃ merged lists,
            mergeShards shuffle (shards.map Shard.files) maxDegree previous = some merged ∧
              IsUnionGraph shards n maxDegree merged.vamana lists := by
  intro always
  obtain ⟨merged, lists, run, graph⟩ := always [shardOfTwo] 2 1 (fun _ nbrs => nbrs)
    (some (List.replicate 41 0)) (by decide) covers_shardOfTwo (fun _ nbrs => List.Perm.refl nbrs)
    (by decide)
  have sizes : (mergeShards (fun _ nbrs => nbrs) ([shardOfTwo].map Shard.files) 1
      (some (List.replicate 41 0))).map (fun merged =>
        (valueOf (merged.vamana.take 8), merged.vamana.length)) = some (40, 41) := by
    decide +kernel
  rw [run, Option.map_some, graph.size] at sizes
  obtain ⟨first, second⟩ := Prod.mk.inj (Option.some.inj sizes)
  omega

end OdinVector
