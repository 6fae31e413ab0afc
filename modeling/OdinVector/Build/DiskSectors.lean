/-
This file proves what `create_disk_layout` writes for the nodes: a node is a record with
zeros behind it, a sector is as many records as it holds with zeros behind them, and a
longer node has whole sectors.
-/

import OdinVector.Build.DiskLayout

namespace OdinVector

open Binary

namespace DiskShape

variable (shape : DiskShape)

/-- The record of a node: its vector, and the neighbours that the width allows. -/
def record (node : Bytes × List Nat) : Bytes :=
  node.1 ++ bytesOf 4 (min node.2.length shape.width) ++ wordsOf 4 (node.2.take shape.width)

/-- A record with zeros behind it. -/
def slot (size : Nat) (node : Bytes × List Nat) : Bytes :=
  shape.record node ++ List.replicate (size - (shape.record node).length) 0

/-- The records of a sector with zeros behind them. -/
def packed (nodes : List (Bytes × List Nat)) : Bytes :=
  nodes.flatMap (shape.slot shape.maxNodeLen) ++
    List.replicate (sectorLen - nodes.length * shape.maxNodeLen) 0

/-- The sectors of nodes. -/
def sectorsOf : Nat → List (Bytes × List Nat) → Bytes
  | 0, _ => []
  | left + 1, nodes =>
    shape.packed (nodes.take shape.nnodesPerSector) ++
      sectorsOf left (nodes.drop shape.nnodesPerSector)

/-- A node whose vector has the dimension, and whose list can be stored. -/
structure Suits (node : Bytes × List Nat) : Prop where
  coords : node.1.length = shape.coordsLen
  storable : Storable node.2
  linked : node.2 ≠ []

/-- The streams that nodes are read from. -/
structure Streams (nodes : List (Bytes × List Nat)) (source : Source) : Prop where
  vamana : source.vamana = nodes.flatMap fun node => graphRecord node.2
  base : source.base.remaining = nodes.flatMap Prod.fst

variable {shape}

theorem length_record {node : Bytes × List Nat} (suits : shape.Suits node) :
    (shape.record node).length = shape.coordsLen + 4 + min node.2.length shape.width * 4 := by
  unfold record
  rw [List.length_append, List.length_append, length_bytesOf, length_wordsOf, List.length_take,
    suits.coords, Nat.min_comm]

theorem length_record_le {node : Bytes × List Nat} (suits : shape.Suits node) :
    (shape.record node).length ≤ shape.maxNodeLen := by
  rw [length_record suits]
  unfold maxNodeLen
  omega

theorem length_slot {size : Nat} {node : Bytes × List Nat} (suits : shape.Suits node)
    (room : shape.maxNodeLen ≤ size) : (shape.slot size node).length = size := by
  have length := length_record_le suits
  unfold slot
  rw [List.length_append, List.length_replicate]
  omega

theorem length_packed {nodes : List (Bytes × List Nat)} (suit : ∀ node ∈ nodes, shape.Suits node)
    (room : nodes.length * shape.maxNodeLen ≤ sectorLen) :
    (shape.packed nodes).length = sectorLen := by
  unfold packed
  rw [List.length_append, List.length_replicate,
    length_flatMap_const fun node member => length_slot (suit node member) (Nat.le_refl _)]
  omega

/-! ### A node -/

/-- A node put into zeros is its record. -/
theorem putNode_eq {node : Bytes × List Nat} (suits : shape.Suits node) (size : Nat) :
    shape.putNode (List.replicate size 0)
        ⟨node.2.length, node.1, node.2.take shape.width⟩ = shape.slot size node := by
  unfold putNode slot record
  dsimp only
  have first : writeAt (List.replicate size 0) 0 node.1 =
      node.1 ++ List.replicate (size - node.1.length) 0 := by
    rw [writeAt_zero, List.drop_replicate]
  have place : (node.1 ++ bytesOf 4 (min node.2.length shape.width)).length =
      shape.coordsLen + 4 := by
    rw [List.length_append, length_bytesOf, suits.coords]
  rw [first, writeAt_zeros suits.coords, writeAt_zeros place, List.length_append,
    List.length_append, Nat.sub_sub, Nat.sub_sub, Nat.add_assoc]

/-- The next node is read. -/
theorem readNode_cons {node : Bytes × List Nat} {rest : List (Bytes × List Nat)} {source : Source}
    (suits : shape.Suits node) (streams : Streams (node :: rest) source) :
    ∃ next, shape.readNode source =
        some (⟨node.2.length, node.1, node.2.take shape.width⟩, next) ∧ Streams rest next := by
  obtain ⟨vamana, base⟩ := source
  have list : vamana = bytesOf 4 node.2.length ++ (wordsOf 4 (node.2.take shape.width) ++
      (wordsOf 4 (node.2.drop shape.width) ++ rest.flatMap fun node => graphRecord node.2)) := by
    have whole : wordsOf 4 node.2 =
        wordsOf 4 (node.2.take shape.width) ++ wordsOf 4 (node.2.drop shape.width) := by
      unfold wordsOf
      rw [← List.flatMap_append, List.take_append_drop]
    have stream : vamana = graphRecord node.2 ++ rest.flatMap fun node => graphRecord node.2 :=
      streams.vamana
    rw [stream]
    unfold graphRecord
    rw [whole, List.append_assoc, List.append_assoc]
  obtain ⟨next, read, after⟩ := CachedIfstream.read_append
    (streams.base.trans List.flatMap_cons)
  rw [suits.coords] at read
  have count : min node.2.length shape.width = (node.2.take shape.width).length := by
    rw [List.length_take, Nat.min_comm]
  have fit : ∀ nbr ∈ node.2.take shape.width, nbr < 256 ^ 4 := fun nbr member =>
    suits.storable.ids nbr (List.mem_of_mem_take member)
  have kept := readWords_append fit
    (wordsOf 4 (node.2.drop shape.width) ++ rest.flatMap fun node => graphRecord node.2)
  have skipped : (if shape.width < node.2.length then
      (wordsOf 4 (node.2.drop shape.width) ++ rest.flatMap fun node => graphRecord node.2).drop
        ((node.2.length - shape.width) * 4)
      else wordsOf 4 (node.2.drop shape.width) ++ rest.flatMap fun node => graphRecord node.2) =
      rest.flatMap fun node => graphRecord node.2 := by
    have length : (wordsOf 4 (node.2.drop shape.width)).length =
        (node.2.length - shape.width) * 4 := by
      rw [length_wordsOf, List.length_drop]
    split
    · exact List.drop_left' length
    · rename_i short
      rw [List.drop_of_length_le (Nat.not_lt.mp short)]
      rfl
  refine ⟨⟨_, next⟩, ?_, rfl, after⟩
  unfold readNode
  dsimp only
  rw [list, readWord_append (by exact suits.storable.length), Option.bind_some]
  dsimp only
  rw [count, kept, Option.bind_some]
  dsimp only
  rw [skipped, read, Option.map_some]
  rfl

/-! ### The loops -/

theorem writeAt_packed {done : List (Bytes × List Nat)} {node : Bytes × List Nat}
    (suit : ∀ node ∈ done, shape.Suits node) (suits : shape.Suits node) :
    writeAt (shape.packed done) (done.length * shape.maxNodeLen)
      (shape.slot shape.maxNodeLen node) = shape.packed (done ++ [node]) := by
  unfold packed
  have length := length_slot suits (Nat.le_refl shape.maxNodeLen)
  rw [writeAt_zeros
    (length_flatMap_const fun node member => length_slot (suit node member) (Nat.le_refl _)),
    length, List.flatMap_append, List.length_append, List.length_singleton, Nat.add_mul,
    Nat.one_mul, Nat.sub_sub]
  rw [List.flatMap_singleton]

/-- A sector takes as many nodes as there are, and at most `left` more. -/
theorem fillSector_eq {left curNodeId : Nat} {done nodes : List (Bytes × List Nat)}
    {source : Source} (suitDone : ∀ node ∈ done, shape.Suits node)
    (suit : ∀ node ∈ nodes, shape.Suits node) (streams : Streams nodes source)
    (count : curNodeId + nodes.length = shape.npts) :
    ∃ next curNodeId', shape.fillSector left done.length curNodeId (shape.packed done) source =
        some (shape.packed (done ++ nodes.take left), curNodeId', next) ∧
      Streams (nodes.drop left) next ∧
        curNodeId' + (nodes.drop left).length = shape.npts := by
  induction left generalizing curNodeId done nodes source with
  | zero =>
    refine ⟨source, curNodeId, ?_, streams, count⟩
    rw [List.take_zero, List.append_nil]
    rfl
  | succ left inductionHypothesis =>
    unfold fillSector
    cases nodes with
    | nil =>
      have last : ¬ curNodeId < shape.npts := by
        rw [List.length_nil] at count
        omega
      refine ⟨source, curNodeId, ?_, streams, count⟩
      rw [if_neg last, List.take_nil, List.append_nil]
    | cons node rest =>
      rw [List.length_cons] at count
      have suits := suit node List.mem_cons_self
      obtain ⟨next, read, streams'⟩ := readNode_cons suits streams
      have linked : node.2.length ≠ 0 := fun none =>
        suits.linked (List.eq_nil_of_length_eq_zero none)
      have length : done.length + 1 = (done ++ [node]).length := by
        rw [List.length_append, List.length_singleton]
      rw [if_pos (by omega), read, Option.bind_some]
      dsimp only
      rw [if_neg linked, putNode_eq suits, writeAt_packed suitDone suits, length]
      have suitDone' : ∀ other ∈ done ++ [node], shape.Suits other := by
        intro other member
        obtain old | new := List.mem_append.mp member
        · exact suitDone other old
        · rw [List.mem_singleton.mp new]
          exact suits
      obtain ⟨last, cur, run, streams'', count'⟩ := inductionHypothesis suitDone'
        (fun other member => suit other (List.mem_cons_of_mem _ member)) streams'
        (by omega : curNodeId + 1 + rest.length = shape.npts)
      refine ⟨last, cur, ?_, streams'', count'⟩
      rw [run, List.take_succ_cons, List.append_assoc]
      rfl

/-- The sectors of several nodes. -/
theorem writeSectors_eq {left curNodeId : Nat} {nodes : List (Bytes × List Nat)} {source : Source}
    {writer : CachedOfstream} {previous content : Bytes}
    (suit : ∀ node ∈ nodes, shape.Suits node) (streams : Streams nodes source)
    (count : curNodeId + nodes.length = shape.npts) (wrote : writer.Wrote previous content) :
    ∃ final, shape.writeSectors left curNodeId source writer = some final ∧
      final.Wrote previous (content ++ shape.sectorsOf left nodes) := by
  induction left generalizing curNodeId nodes source writer content with
  | zero =>
    refine ⟨writer, rfl, ?_⟩
    unfold sectorsOf
    rw [List.append_nil]
    exact wrote
  | succ left inductionHypothesis =>
    have empty : shape.packed [] = List.replicate sectorLen 0 := by
      unfold packed
      rw [List.length_nil, Nat.zero_mul, Nat.sub_zero]
      rfl
    have none : ∀ node ∈ ([] : List (Bytes × List Nat)), shape.Suits node := nofun
    obtain ⟨next, cur, run, streams', count'⟩ :=
      @fillSector_eq shape shape.nnodesPerSector curNodeId [] nodes source none suit streams count
    rw [empty, List.nil_append, List.length_nil] at run
    obtain ⟨final, rest, wrote'⟩ := inductionHypothesis
      (fun node member => suit node (List.mem_of_mem_drop member)) streams' count'
      (wrote.write (shape.packed (nodes.take shape.nnodesPerSector)))
    refine ⟨final, ?_, ?_⟩
    · unfold writeSectors
      rw [run, Option.bind_some]
      exact rest
    · unfold sectorsOf
      rw [← List.append_assoc]
      exact wrote'

/-- The nodes of several sectors. -/
theorem writeNodes_eq {nodes : List (Bytes × List Nat)} {source : Source}
    {writer : CachedOfstream} {previous content : Bytes}
    (suit : ∀ node ∈ nodes, shape.Suits node) (streams : Streams nodes source)
    (wrote : writer.Wrote previous content) :
    ∃ final, shape.writeNodes nodes.length source writer = some final ∧
      final.Wrote previous
        (content ++ nodes.flatMap (shape.slot (shape.nsectorsPerNode * sectorLen))) := by
  induction nodes generalizing source writer content with
  | nil =>
    refine ⟨writer, rfl, ?_⟩
    rw [List.flatMap_nil, List.append_nil]
    exact wrote
  | cons node rest inductionHypothesis =>
    have suits := suit node List.mem_cons_self
    obtain ⟨next, read, streams'⟩ := readNode_cons suits streams
    obtain ⟨final, run, wrote'⟩ := inductionHypothesis
      (fun other member => suit other (List.mem_cons_of_mem _ member)) streams'
      (wrote.write (shape.slot (shape.nsectorsPerNode * sectorLen) node))
    refine ⟨final, ?_, ?_⟩
    · rw [List.length_cons]
      unfold writeNodes
      rw [read, Option.bind_some]
      dsimp only
      rw [putNode_eq suits]
      exact run
    · rw [List.flatMap_cons, ← List.append_assoc]
      exact wrote'

end DiskShape

end OdinVector
