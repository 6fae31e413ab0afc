/-
This file models the graph section of a saved `Index`: a header of 24 bytes with the
size of the section, and the list of every location after the number of its entries.
`load_graph` reads lists until it has read as many bytes as the header says.

A read past the end of the file, and a list behind the end of `_final_graph`, give
nothing.
-/

import OdinVector.Binary
import Mathlib.Logic.Function.Basic

namespace OdinVector

open Binary

/-! ### The format -/

/-- A list with the number of its entries. -/
def graphRecord (nbrs : List Nat) : Bytes :=
  bytesOf 4 nbrs.length ++ wordsOf 4 nbrs

/-- The header of the section. -/
def graphHeader (size width ep frozenPts : Nat) : Bytes :=
  bytesOf 8 size ++ bytesOf 4 width ++ bytesOf 4 ep ++ bytesOf 8 frozenPts

/-- The records of lists in turn. -/
def graphRecords (lists : List (List Nat)) : Bytes :=
  lists.flatMap graphRecord

/-- A list that the format can hold. -/
structure Storable (nbrs : List Nat) : Prop where
  length : nbrs.length < 2 ^ 32
  ids : ∀ nbr ∈ nbrs, nbr < 2 ^ 32

@[simp] theorem length_graphRecord (nbrs : List Nat) :
    (graphRecord nbrs).length = 4 * (nbrs.length + 1) := by
  unfold graphRecord
  rw [List.length_append, length_bytesOf, length_wordsOf]
  omega

@[simp] theorem length_graphHeader (size width ep frozenPts : Nat) :
    (graphHeader size width ep frozenPts).length = 24 :=
  rfl

@[simp] theorem graphRecords_nil : graphRecords [] = [] :=
  rfl

@[simp] theorem graphRecords_cons (nbrs : List Nat) (lists : List (List Nat)) :
    graphRecords (nbrs :: lists) = graphRecord nbrs ++ graphRecords lists :=
  List.flatMap_cons

theorem graphRecords_append (first second : List (List Nat)) :
    graphRecords (first ++ second) = graphRecords first ++ graphRecords second :=
  List.flatMap_append

theorem length_le_graphRecords (lists : List (List Nat)) :
    lists.length ≤ (graphRecords lists).length := by
  induction lists with
  | nil => exact Nat.le_refl 0
  | cons nbrs rest inductionHypothesis =>
    rw [graphRecords_cons, List.length_append, length_graphRecord, List.length_cons]
    omega

/-! ### Reading -/

/-- The next list of a stream. -/
def readRecord (stream : Bytes) : Option (List Nat × Bytes) :=
  (readWord 4 stream).bind fun (k, rest) => readAll (readWord 4) k rest

theorem readRecord_append {nbrs : List Nat} (storable : Storable nbrs) (rest : Bytes) :
    readRecord (graphRecord nbrs ++ rest) = some (nbrs, rest) := by
  unfold readRecord graphRecord
  rw [List.append_assoc, readWord_append (by exact storable.length), Option.bind_some]
  exact readWords_append (fun nbr member => storable.ids nbr member) rest

/-- The entries of the header of a graph section. -/
structure GraphHeader where
  size : Nat
  width : Nat
  ep : Nat
  frozenPts : Nat

/-- The header of a stream. -/
def readHeader (stream : Bytes) : Option (GraphHeader × Bytes) :=
  (readWord 8 stream).bind fun (size, rest) =>
    (readWord 4 rest).bind fun (width, rest) =>
      (readWord 4 rest).bind fun (ep, rest) =>
        (readWord 8 rest).map fun (frozenPts, rest) => (⟨size, width, ep, frozenPts⟩, rest)

theorem readHeader_append {size width ep frozenPts : Nat} (sizeFits : size < 2 ^ 64)
    (widthFits : width < 2 ^ 32) (epFits : ep < 2 ^ 32) (frozenFits : frozenPts < 2 ^ 64)
    (rest : Bytes) :
    readHeader (graphHeader size width ep frozenPts ++ rest) =
      some (⟨size, width, ep, frozenPts⟩, rest) := by
  unfold readHeader graphHeader
  rw [List.append_assoc, List.append_assoc, List.append_assoc,
    readWord_append (by exact sizeFits), Option.bind_some]
  dsimp only
  rw [readWord_append (by exact widthFits), Option.bind_some]
  dsimp only
  rw [readWord_append (by exact epFits), Option.bind_some]
  dsimp only
  rw [readWord_append (by exact frozenFits), Option.map_some]

/-! ### `load_graph` -/

/-- What an `Index` has of its graph. -/
structure IndexGraph where
  maxPoints : Nat
  numFrozenPts : Nat
  width : Nat
  ep : Nat
  /-- `_final_graph`, which has a list for each point and each frozen point. -/
  finalGraph : Nat → List Nat

/-- The loop of `load_graph` over a `_final_graph` of `size` lists. -/
def loadLists (size expected : Nat) : Nat → Nat → Nat → Bytes → (Nat → List Nat) →
    Option ((Nat → List Nat) × Nat)
  | 0, _, _, _, _ => none
  | fuel + 1, bytesRead, nodes, stream, finalGraph =>
    if bytesRead = expected then some (finalGraph, nodes)
    else
      (readRecord stream).bind fun (nbrs, rest) =>
        if nodes < size then
          loadLists size expected fuel (bytesRead + 4 * (nbrs.length + 1)) (nodes + 1) rest
            (Function.update finalGraph nodes nbrs)
        else none

/-- Lists over those from a location on. -/
def placed (lists : List (List Nat)) (start : Nat) (finalGraph : Nat → List Nat)
    (location : Nat) : List Nat :=
  if location < start then finalGraph location
  else (lists[location - start]?).getD (finalGraph location)

/-- The loop puts the lists of the section in their places. -/
theorem loadLists_records {lists : List (List Nat)} (storable : ∀ nbrs ∈ lists, Storable nbrs)
    {size expected fuel bytesRead nodes : Nat} (stream : Bytes) (finalGraph : Nat → List Nat)
    (bytes : bytesRead + (graphRecords lists).length = expected) (enough : lists.length < fuel)
    (room : nodes + lists.length ≤ size) :
    loadLists size expected fuel bytesRead nodes (graphRecords lists ++ stream) finalGraph =
      some (placed lists nodes finalGraph, nodes + lists.length) := by
  induction lists generalizing fuel bytesRead nodes finalGraph with
  | nil =>
    obtain ⟨fuel, rfl⟩ : ∃ more, fuel = more + 1 := ⟨fuel - 1, by
      rw [List.length_nil] at enough
      omega⟩
    have none : placed [] nodes finalGraph = finalGraph := by
      funext location
      unfold placed
      rw [List.getElem?_nil, Option.getD_none, ite_self]
    have done : bytesRead = expected := bytes
    unfold loadLists
    rw [if_pos done, none]
    rfl
  | cons nbrs rest inductionHypothesis =>
    rw [List.length_cons] at enough room
    obtain ⟨fuel, rfl⟩ : ∃ more, fuel = more + 1 := ⟨fuel - 1, by omega⟩
    rw [graphRecords_cons, List.length_append, length_graphRecord] at bytes
    have others := inductionHypothesis
      (fun other member => storable other (List.mem_cons_of_mem _ member))
      (Function.update finalGraph nodes nbrs)
      (by omega : bytesRead + 4 * (nbrs.length + 1) + (graphRecords rest).length = expected)
      (by omega : rest.length < fuel) (by omega : nodes + 1 + rest.length ≤ size)
    unfold loadLists
    rw [if_neg (by omega), graphRecords_cons, List.append_assoc,
      readRecord_append (storable nbrs List.mem_cons_self), Option.bind_some]
    dsimp only
    rw [if_pos (by omega), others, List.length_cons]
    have same : placed rest (nodes + 1) (Function.update finalGraph nodes nbrs) =
        placed (nbrs :: rest) nodes finalGraph := by
      funext location
      unfold placed
      obtain before | here | after := Nat.lt_trichotomy location nodes
      · rw [if_pos (by omega), if_pos before, Function.update_of_ne before.ne]
      · rw [if_pos (by omega), if_neg (by omega), here, Function.update_self, Nat.sub_self]
        rfl
      · obtain ⟨distance, rfl⟩ := Nat.exists_eq_add_of_lt after
        rw [if_neg (by omega), if_neg (by omega), Function.update_of_ne (by omega),
          (by omega : nodes + distance + 1 - nodes = distance + 1),
          (by omega : nodes + distance + 1 - (nodes + 1) = distance), List.getElem?_cons_succ]
    rw [same, Nat.add_right_comm, Nat.add_assoc]

/-- `load_graph`: the graph and the number of its lists, which is counted in 32 bits. The data file
has a vector for each frozen point. -/
def IndexGraph.loadGraph (graph : IndexGraph) (file : Bytes) (expectedNumPoints offset : Nat) :
    Option (IndexGraph × Nat) :=
  (readHeader (file.drop offset)).bind fun (header, stream) =>
    if header.frozenPts ≠ graph.numFrozenPts ∨ expectedNumPoints < graph.numFrozenPts then none
    else
      let maxPoints := max graph.maxPoints (expectedNumPoints - graph.numFrozenPts)
      (loadLists (maxPoints + graph.numFrozenPts) header.size (stream.length + 1) 24 0 stream
          graph.finalGraph).map fun (finalGraph, nodes) =>
        ({ graph with
            maxPoints := maxPoints
            width := header.width
            ep := header.ep
            finalGraph := finalGraph }, nodes % 2 ^ 32)

/-- A section of storable lists is read back. -/
theorem IndexGraph.loadGraph_section {graph : IndexGraph} {file tail : Bytes}
    {offset width ep expectedNumPoints : Nat} {lists : List (List Nat)}
    (fits : 24 + (graphRecords lists).length < 2 ^ 64) (widthFits : width < 2 ^ 32)
    (epFits : ep < 2 ^ 32) (frozenFits : graph.numFrozenPts < 2 ^ 64)
    (storable : ∀ nbrs ∈ lists, Storable nbrs) (frozen : graph.numFrozenPts ≤ expectedNumPoints)
    (room : lists.length ≤ max graph.maxPoints (expectedNumPoints - graph.numFrozenPts) +
      graph.numFrozenPts)
    (place : file.drop offset = graphHeader (24 + (graphRecords lists).length) width ep
      graph.numFrozenPts ++ graphRecords lists ++ tail) :
    graph.loadGraph file expectedNumPoints offset =
      some ({ graph with
        maxPoints := max graph.maxPoints (expectedNumPoints - graph.numFrozenPts)
        width := width
        ep := ep
        finalGraph := placed lists 0 graph.finalGraph }, lists.length % 2 ^ 32) := by
  unfold loadGraph
  rw [place, List.append_assoc, readHeader_append fits widthFits epFits frozenFits,
    Option.bind_some]
  dsimp only
  rw [if_neg (not_or.mpr ⟨not_not.mpr rfl, Nat.not_lt.mpr frozen⟩)]
  have enough : lists.length < (graphRecords lists ++ tail).length + 1 := by
    have length := length_le_graphRecords lists
    rw [List.length_append]
    omega
  rw [loadLists_records storable tail graph.finalGraph rfl enough
    (by rw [Nat.zero_add]; exact room), Option.map_some]
  dsimp only
  rw [Nat.zero_add]

end OdinVector
