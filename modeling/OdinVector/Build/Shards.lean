/-
This file says what the shards of an index are and proves what a merge reads of their
files: the id maps, the medoids, and for every shard the pairs of `node_shard` in the
order of its records.
-/

import OdinVector.Build.MergeShards
import Mathlib.Data.Finset.Basic
import Mathlib.Data.List.GetD

namespace OdinVector

open Binary

/-- An id map is read back. -/
theorem readIdmap_words {ids : List Nat} (few : ids.length < 2 ^ 32)
    (fit : ∀ id ∈ ids, id < 2 ^ 32) :
    readIdmap (bytesOf 4 ids.length ++ bytesOf 4 1 ++ wordsOf 4 ids) = some ids := by
  have words : readAll (readWord 4) ids.length (wordsOf 4 ids ++ []) = some (ids, []) :=
    readWords_append (fun id member => fit id member) []
  rw [List.append_nil] at words
  have length : (bytesOf 4 ids.length ++ bytesOf 4 1 ++ wordsOf 4 ids).length =
      ids.length * 4 + 2 * 4 := by
    rw [List.length_append, List.length_append, length_bytesOf, length_bytesOf, length_wordsOf]
    omega
  unfold readIdmap
  rw [length, List.append_assoc, readWord_append (by exact few), Option.bind_some]
  dsimp only
  rw [readWord_append (by norm_num), Option.bind_some]
  dsimp only
  rw [if_neg (by simp), words, Option.map_some]

/-! ### Shards -/

/-- A shard: an id map in ascending order, and a graph over the positions in it. -/
structure Shard where
  idmap : List Nat
  width : Nat
  medoid : Nat
  lists : List (List Nat)
  ascending : idmap.Pairwise (· ≤ ·)
  ids : ∀ id ∈ idmap, id < 2 ^ 32
  few : idmap.length < 2 ^ 32
  widthFits : width < 2 ^ 32
  medoidInside : medoid < idmap.length
  complete : lists.length = idmap.length
  lengths : ∀ nbrs ∈ lists, nbrs.length < 2 ^ 32
  closed : ∀ nbrs ∈ lists, ∀ nbr ∈ nbrs, nbr < idmap.length

namespace Shard

/-- The files of a shard. -/
def files (shard : Shard) : ShardFiles where
  idmap := bytesOf 4 shard.idmap.length ++ bytesOf 4 1 ++ wordsOf 4 shard.idmap
  graph :=
    graphHeader (24 + (graphRecords shard.lists).length) shard.width shard.medoid 0 ++
      graphRecords shard.lists

/-- The neighbours that a shard has for an id, renamed. -/
def renamed (shard : Shard) (id : Nat) : List Nat :=
  (shard.idmap.zip shard.lists).flatMap fun (owner, nbrs) =>
    if owner = id then nbrs.map fun nbr => shard.idmap.getD nbr 0 else []

theorem storable (shard : Shard) : ∀ nbrs ∈ shard.lists, Storable nbrs := fun nbrs member =>
  ⟨shard.lengths nbrs member, fun nbr inside =>
    (shard.closed nbrs member nbr inside).trans shard.few⟩

theorem mem_renamed {shard : Shard} {id other : Nat} :
    other ∈ shard.renamed id ↔ ∃ (k : Nat) (nbrs : List Nat), shard.idmap[k]? = some id ∧
      shard.lists[k]? = some nbrs ∧ ∃ nbr ∈ nbrs, shard.idmap[nbr]? = some other := by
  have rename : ∀ nbrs ∈ shard.lists, ∀ nbr ∈ nbrs,
      shard.idmap[nbr]? = some (shard.idmap.getD nbr 0) := by
    intro nbrs member nbr inside
    have bound := shard.closed nbrs member nbr inside
    rw [List.getD_eq_getElem _ _ bound]
    exact List.getElem?_eq_getElem bound
  unfold renamed
  rw [List.mem_flatMap]
  constructor
  · rintro ⟨⟨owner, nbrs⟩, pair, inside⟩
    dsimp only at inside
    split at inside
    · rename_i same
      subst same
      obtain ⟨k, place⟩ := List.mem_iff_getElem?.mp pair
      obtain ⟨first, second⟩ := List.getElem?_zip_eq_some.mp place
      obtain ⟨nbr, there, same⟩ := List.mem_map.mp inside
      refine ⟨k, nbrs, first, second, nbr, there, ?_⟩
      rw [rename nbrs (List.mem_of_getElem? second) nbr there, same]
    · exact absurd inside List.not_mem_nil
  · rintro ⟨k, nbrs, first, second, nbr, there, same⟩
    refine ⟨(id, nbrs), List.mem_of_getElem? (List.getElem?_zip_eq_some.mpr ⟨first, second⟩), ?_⟩
    dsimp only
    rw [if_pos rfl]
    refine List.mem_map.mpr ⟨nbr, there, ?_⟩
    exact Option.some.inj ((rename nbrs (List.mem_of_getElem? second) nbr there).symm.trans same)

theorem readIdmap_files (shard : Shard) : readIdmap shard.files.idmap = some shard.idmap :=
  readIdmap_words shard.few shard.ids

theorem openShard_files (shard : Shard) :
    ∃ medoid reader, openShard shard.idmap shard.files.graph = some (medoid, reader) ∧
      medoid ∈ shard.idmap ∧ reader.remaining = graphRecords shard.lists := by
  have start := CachedIfstream.remaining_openFile shard.files.graph mergeCacheSize
  have file : shard.files.graph =
      bytesOf 8 (24 + (graphRecords shard.lists).length) ++ (bytesOf 4 shard.width ++
        (bytesOf 4 shard.medoid ++ (bytesOf 8 0 ++ graphRecords shard.lists))) := by
    show _ ++ _ ++ _ ++ _ ++ _ = _
    rw [List.append_assoc, List.append_assoc, List.append_assoc]
  obtain ⟨first, read, rest⟩ := CachedIfstream.read_append (start.trans file)
  obtain ⟨second, read', rest'⟩ := CachedIfstream.readWord_append (by exact shard.widthFits) rest
  obtain ⟨third, readThird, restThird⟩ := CachedIfstream.readWord_append
    (by exact shard.medoidInside.trans shard.few) rest'
  obtain ⟨last, readFourth, restFourth⟩ := CachedIfstream.readWord_append (by norm_num) restThird
  have medoidInside := shard.medoidInside
  refine ⟨shard.idmap[shard.medoid], last, ?_, List.getElem_mem _, restFourth⟩
  rw [length_bytesOf] at read
  unfold openShard
  unfold CachedIfstream.readWord at read' readThird readFourth ⊢
  rw [read, Option.map_some, Option.bind_some]
  dsimp only
  rw [read', Option.bind_some]
  dsimp only
  rw [readThird, Option.bind_some]
  dsimp only
  rw [readFourth, Option.bind_some, List.getElem?_eq_getElem medoidInside]
  rfl

end Shard

/-- The neighbours that shards have for an id. -/
def shardUnion (shards : List Shard) (id : Nat) : Finset Nat :=
  (shards.flatMap fun shard => shard.renamed id).toFinset

/-- The shards together have exactly the ids below `n`. -/
def Covers (shards : List Shard) (n : Nat) : Prop :=
  ∀ id, id < n ↔ ∃ shard ∈ shards, id ∈ shard.idmap

theorem mem_shardUnion {shards : List Shard} {id other : Nat} :
    other ∈ shardUnion shards id ↔ ∃ shard ∈ shards, other ∈ shard.renamed id := by
  unfold shardUnion
  rw [List.mem_toFinset, List.mem_flatMap]

/-! ### Shards in turn -/

theorem mapM_some {First Second : Type} {read : First → Option Second}
    {Fits : First → Second → Prop} {items : List First}
    (reads : ∀ item ∈ items, ∃ result, read item = some result ∧ Fits item result) :
    ∃ results, items.mapM read = some results ∧ List.Forall₂ Fits items results := by
  induction items with
  | nil => exact ⟨[], rfl, List.Forall₂.nil⟩
  | cons item rest inductionHypothesis =>
    obtain ⟨result, first, fits⟩ := reads item List.mem_cons_self
    obtain ⟨results, others, all⟩ := inductionHypothesis fun other member =>
      reads other (List.mem_cons_of_mem _ member)
    refine ⟨result :: results, ?_, List.Forall₂.cons fits all⟩
    rw [List.mapM_cons, first, others]
    rfl

/-! ### The pairs of `node_shard` -/

instance : Std.Total PairOrder where
  total left right := by
    unfold PairOrder
    omega

instance : IsTrans (Nat × Nat) PairOrder where
  trans first second third := by
    unfold PairOrder
    omega

variable (idmaps : List (List Nat))

theorem nodeShard_pairwise : (nodeShard idmaps).Pairwise PairOrder :=
  List.pairwise_insertionSort PairOrder _

theorem nodeShard_perm : (nodeShard idmaps).Perm (nodeShardPairs idmaps) :=
  List.perm_insertionSort PairOrder _

/-- The pairs of a shard among those of shards from `start` on. -/
theorem filter_pairs (start shard : Nat) :
    ((idmaps.zipIdx start).flatMap fun (entry : List Nat × Nat) =>
        entry.1.map fun id => (id, entry.2)).filter (fun pair => pair.2 = shard) =
      if start ≤ shard then ((idmaps[shard - start]?).getD []).map fun id => (id, shard)
      else [] := by
  induction idmaps generalizing start with
  | nil =>
    rw [List.zipIdx_nil, List.getElem?_nil, Option.getD_none, List.map_nil, ite_self]
    rfl
  | cons idmap rest inductionHypothesis =>
    rw [List.zipIdx_cons, List.flatMap_cons, List.filter_append, inductionHypothesis (start + 1)]
    dsimp only
    obtain before | rfl | after := Nat.lt_trichotomy shard start
    · rw [if_neg (by omega), if_neg (by omega), List.append_nil]
      refine List.filter_eq_nil_iff.mpr fun pair member => ?_
      obtain ⟨id, -, rfl⟩ := List.mem_map.mp member
      simpa using before.ne'
    · rw [if_neg (by omega), if_pos (Nat.le_refl _), List.append_nil, Nat.sub_self]
      refine List.filter_eq_self.mpr fun pair member => ?_
      obtain ⟨id, -, rfl⟩ := List.mem_map.mp member
      exact decide_eq_true rfl
    · have none : (idmap.map fun id => (id, start)).filter (fun pair => pair.2 = shard) = [] := by
        refine List.filter_eq_nil_iff.mpr fun pair member => ?_
        obtain ⟨id, -, rfl⟩ := List.mem_map.mp member
        simpa using after.ne
      obtain ⟨distance, rfl⟩ := Nat.exists_eq_add_of_lt after
      rw [none, List.nil_append, if_pos (by omega), if_pos (by omega),
        (by omega : start + distance + 1 - start = distance + 1),
        (by omega : start + distance + 1 - (start + 1) = distance), List.getElem?_cons_succ]

variable {idmaps}

theorem nodeShardPairs_eq (few : idmaps.length ≤ 2 ^ 32) :
    nodeShardPairs idmaps = idmaps.zipIdx.flatMap fun (entry : List Nat × Nat) =>
      entry.1.map fun id => (id, entry.2) := by
  unfold nodeShardPairs
  refine List.flatMap_congr fun entry member => ?_
  have bound := (List.mem_zipIdx member).2.1
  dsimp only
  rw [Nat.mod_eq_of_lt (by omega)]

/-- The pairs of a shard come in the order of its id map. -/
theorem nodeShard_filter (few : idmaps.length ≤ 2 ^ 32) {shard : Nat} {idmap : List Nat}
    (there : idmaps[shard]? = some idmap) (ascending : idmap.Pairwise (· ≤ ·)) :
    ((nodeShard idmaps).filter fun pair => pair.2 = shard).map Prod.fst = idmap := by
  have pairs : (nodeShardPairs idmaps).filter (fun pair => pair.2 = shard) =
      idmap.map fun id => (id, shard) := by
    rw [nodeShardPairs_eq few, filter_pairs, if_pos (Nat.zero_le _), Nat.sub_zero, there]
    rfl
  have perm := ((nodeShard_perm idmaps).filter fun pair => pair.2 = shard).map Prod.fst
  rw [pairs, List.map_map] at perm
  have same : idmap.map (Prod.fst ∘ fun id => (id, shard)) = idmap := List.map_id idmap
  rw [same] at perm
  refine perm.eq_of_pairwise (fun first second _ _ => Nat.le_antisymm) ?_ ascending
  rw [List.pairwise_map]
  refine ((nodeShard_pairwise idmaps).filter _).imp fun {left right} order => ?_
  obtain less | same := order
  · exact less.le
  · exact same.1.le

theorem mem_nodeShard (few : idmaps.length ≤ 2 ^ 32) {id shard : Nat} :
    (id, shard) ∈ nodeShard idmaps ↔ ∃ idmap, idmaps[shard]? = some idmap ∧ id ∈ idmap := by
  rw [(nodeShard_perm idmaps).mem_iff, nodeShardPairs_eq few, List.mem_flatMap]
  constructor
  · rintro ⟨⟨idmap, place⟩, entry, member⟩
    obtain ⟨other, inside, same⟩ := List.mem_map.mp member
    injection same with first second
    subst first second
    exact ⟨idmap, List.mem_zipIdx_iff_getElem?.mp entry, inside⟩
  · rintro ⟨idmap, there, inside⟩
    exact ⟨(idmap, shard), List.mem_zipIdx_iff_getElem?.mpr there,
      List.mem_map.mpr ⟨id, inside, rfl⟩⟩

end OdinVector
