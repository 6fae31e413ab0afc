/-
This file models `load_graph` on files that need not be graphs: the stream that goes on
after a read past the end of the file, the variables that such a read leaves as they
were, and the list of `_final_graph` that a count past its end names.

The header is safe when it asks for another number of frozen points: then the process
crashes. Otherwise the loop is safe exactly on the files that are a header and the
records of its size, as long as `_final_graph` has a list for each of them. On any other
file it leaves the loop by chance, or writes past the end, or goes on for ever. Memory
for the lists is there when the loop asks for it.
-/

import OdinVector.InMemory.GraphFile
import Mathlib.Data.List.TakeDrop

namespace OdinVector

open Binary

/-! ### Streams that may be past their end -/

/-- A `std::ifstream`: what it has still to read, and `fail()`. -/
structure FileStream where
  bytes : Bytes
  failed : Bool

namespace FileStream

/-- `read` into memory that holds `before`. A read that finds fewer bytes takes them and
fails; later reads do nothing. -/
def readInto (stream : FileStream) (before : Bytes) : Bytes × FileStream :=
  if stream.failed then (before, stream)
  else
    (stream.bytes.take before.length ++ before.drop stream.bytes.length,
      ⟨stream.bytes.drop before.length, stream.bytes.length < before.length⟩)

/-- `read` into a number of so many bytes. -/
def readOver (width before : Nat) (stream : FileStream) : Nat × FileStream :=
  let (bytes, rest) := stream.readInto (bytesOf width before)
  (valueOf bytes, rest)

theorem readInto_append {before bytes : Bytes} (length : bytes.length = before.length)
    (rest : Bytes) : readInto ⟨bytes ++ rest, false⟩ before = (bytes, ⟨rest, false⟩) := by
  have long : before.length ≤ (bytes ++ rest).length := by
    rw [List.length_append]
    omega
  unfold readInto
  dsimp only
  rw [if_neg Bool.false_ne_true, List.take_left' length, List.drop_left' length,
    List.drop_of_length_le long, List.append_nil, decide_eq_false (Nat.not_lt.mpr long)]

theorem readOver_append {width value : Nat} (fits : value < 256 ^ width) (before : Nat)
    (rest : Bytes) :
    readOver width before ⟨bytesOf width value ++ rest, false⟩ = (value, ⟨rest, false⟩) := by
  unfold readOver
  rw [readInto_append (by rw [length_bytesOf, length_bytesOf])]
  dsimp only
  rw [valueOf_bytesOf fits]

end FileStream

/-! ### `load_graph` -/

/-- What the variables of `load_graph` hold before they are read: the size, the number of
frozen points, and `k` in every round. -/
structure Uninitialized where
  expectedFileSize : Nat
  fileFrozenPts : Nat
  k : Nat → Nat

/-- What an `Index` has of its graph, with the lists of `_final_graph`. -/
structure GraphTable where
  maxPoints : Nat
  numFrozenPts : Nat
  width : Nat
  ep : Nat
  finalGraph : List (List Nat)

/-- How a call ends: the process crashes, `_final_graph` is indexed past its end, or the
number of lists is returned. -/
inductive LoadOutcome
  | crash
  | pastEnd
  | loaded (graph : GraphTable) (nodes : Nat)

namespace GraphTable

/-- The variables of the loop. -/
structure Loop where
  bytesRead : Nat
  nodes : Nat
  stream : FileStream
  finalGraph : List (List Nat)

/-- The round `i` of the loop; `none` is an index past the end of `_final_graph`. `nodes` has
32 bits and `bytes_read` has 64. -/
def round (before : Nat → Nat) (i : Nat) (loop : Loop) : Option Loop :=
  let (k, stream) := loop.stream.readOver 4 (before i)
  let nodes := (loop.nodes + 1) % 2 ^ 32
  let (tmp, stream) := stream.readInto (List.replicate (k * 4) 0)
  let place := if nodes = 0 then 2 ^ 32 - 1 else nodes - 1
  if place < loop.finalGraph.length then
    some
      { bytesRead := (loop.bytesRead + 4 * (k + 1)) % 2 ^ 64
        nodes := nodes
        stream := stream
        finalGraph := loop.finalGraph.set place (arrayAt valueOf 4 k tmp) }
  else none

/-- `while (bytes_read != expected_file_size)`, with what the rounds do in turn. -/
def rounds (next : Nat → Loop → Option Loop) (expectedFileSize : Nat) (graph : GraphTable) :
    Nat → Nat → Loop → Option LoadOutcome
  | 0, _, _ => none
  | fuel + 1, i, loop =>
    if loop.bytesRead = expectedFileSize then
      some (.loaded { graph with finalGraph := loop.finalGraph } loop.nodes)
    else
      match next i loop with
      | none => some .pastEnd
      | some later => rounds next expectedFileSize graph fuel (i + 1) later

/-- The header as the reads leave it, and the rest of the stream. -/
def readHeader (graph : GraphTable) (before : Uninitialized) (file : Bytes) :
    GraphHeader × FileStream :=
  let (size, stream) := FileStream.readOver 8 before.expectedFileSize ⟨file, false⟩
  let (width, stream) := stream.readOver 4 graph.width
  let (ep, stream) := stream.readOver 4 graph.ep
  let (frozenPts, stream) := stream.readOver 8 before.fileFrozenPts
  (⟨size, width, ep, frozenPts⟩, stream)

/-- `expected_num_points - _num_frozen_pts` in 64 bits. -/
def expectedPoints (graph : GraphTable) (expectedNumPoints : Nat) : Nat :=
  (expectedNumPoints + (2 ^ 64 - graph.numFrozenPts)) % 2 ^ 64

/-- `_final_graph` is resized for more points than the index was made for. -/
def makeRoom (graph : GraphTable) (expectedNumPoints : Nat) : GraphTable :=
  if graph.maxPoints < graph.expectedPoints expectedNumPoints then
    { graph with
      maxPoints := graph.expectedPoints expectedNumPoints
      finalGraph := graph.finalGraph.takeD expectedNumPoints [] }
  else graph

/-- `load_graph` of a file, with so many rounds of the loop at most. -/
def loadGraph (graph : GraphTable) (before : Uninitialized) (fuel : Nat) (file : Bytes)
    (expectedNumPoints : Nat) : Option LoadOutcome :=
  let (header, stream) := graph.readHeader before file
  if header.frozenPts ≠ graph.numFrozenPts then some .crash
  else
    let graph := ({ graph with width := header.width, ep := header.ep } : GraphTable).makeRoom
      expectedNumPoints
    graph.rounds (round before.k) header.size fuel 0 ⟨24, 0, stream, graph.finalGraph⟩

/-! ### When a call is safe -/

/-- The file is a header and the records of lists, and the header has its size. -/
def IsGraph (file : Bytes) (lists : List (List Nat)) : Prop :=
  (∀ nbrs ∈ lists, Storable nbrs) ∧ 24 + (graphRecords lists).length < 2 ^ 64 ∧
    ∃ width ep frozenPts, width < 2 ^ 32 ∧ ep < 2 ^ 32 ∧ frozenPts < 2 ^ 64 ∧
      file = graphHeader (24 + (graphRecords lists).length) width ep frozenPts ++
        graphRecords lists

/-- The call ends, does not index past the end of `_final_graph`, and returns only for a
graph. -/
def LoadsSafely (graph : GraphTable) (before : Uninitialized) (file : Bytes)
    (expectedNumPoints : Nat) : Prop :=
  ∃ fuel outcome, graph.loadGraph before fuel file expectedNumPoints = some outcome ∧
    outcome ≠ .pastEnd ∧
      ((∃ loaded nodes, outcome = .loaded loaded nodes) → ∃ lists, IsGraph file lists)

/-- The lists of `_final_graph` when the loop starts. -/
def rows (graph : GraphTable) (expectedNumPoints : Nat) : Nat :=
  if graph.maxPoints < graph.expectedPoints expectedNumPoints then expectedNumPoints
  else graph.finalGraph.length

variable {graph : GraphTable} {before : Uninitialized} {expectedNumPoints : Nat}

theorem length_makeRoom (graph : GraphTable) (expectedNumPoints : Nat) :
    (graph.makeRoom expectedNumPoints).finalGraph.length = graph.rows expectedNumPoints := by
  unfold makeRoom rows
  split
  · exact List.takeD_length _ _ _
  · rfl

/-- The header of a graph is read as it was written. -/
theorem readHeader_graph {size width ep frozenPts : Nat} (sizeFits : size < 2 ^ 64)
    (widthFits : width < 2 ^ 32) (epFits : ep < 2 ^ 32) (frozenFits : frozenPts < 2 ^ 64)
    (rest : Bytes) :
    graph.readHeader before (graphHeader size width ep frozenPts ++ rest) =
      (⟨size, width, ep, frozenPts⟩, ⟨rest, false⟩) := by
  unfold readHeader graphHeader
  rw [List.append_assoc, List.append_assoc, List.append_assoc,
    FileStream.readOver_append (by exact sizeFits)]
  dsimp only
  rw [FileStream.readOver_append (by exact widthFits)]
  dsimp only
  rw [FileStream.readOver_append (by exact epFits)]
  dsimp only
  rw [FileStream.readOver_append (by exact frozenFits)]

/-- A round at a record. -/
theorem round_record {nbrs : List Nat} (storable : Storable nbrs) (k : Nat → Nat)
    (i bytesRead nodes : Nat) (counted : nodes < 2 ^ 32) (rest : Bytes)
    (finalGraph : List (List Nat)) :
    round k i ⟨bytesRead, nodes, ⟨graphRecord nbrs ++ rest, false⟩, finalGraph⟩ =
      if nodes < finalGraph.length then
        some ⟨(bytesRead + (graphRecord nbrs).length) % 2 ^ 64, (nodes + 1) % 2 ^ 32,
          ⟨rest, false⟩, finalGraph.set nodes nbrs⟩
      else none := by
  have place : (if (nodes + 1) % 2 ^ 32 = 0 then 2 ^ 32 - 1 else (nodes + 1) % 2 ^ 32 - 1) =
      nodes := by
    split <;> omega
  have list : arrayAt valueOf 4 nbrs.length (wordsOf 4 nbrs) = nbrs := by
    have whole : arrayAt valueOf 4 nbrs.length (wordsOf 4 nbrs ++ []) = nbrs :=
      arrayAt_flatMap (fun nbr _ => length_bytesOf 4 nbr)
        (fun nbr member => valueOf_bytesOf (by exact storable.ids nbr member)) []
    rwa [List.append_nil] at whole
  unfold round
  dsimp only
  rw [graphRecord, List.append_assoc, FileStream.readOver_append (by exact storable.length)]
  dsimp only
  rw [FileStream.readInto_append (by rw [length_wordsOf, List.length_replicate])]
  dsimp only
  rw [place, list, List.length_append, length_bytesOf, length_wordsOf,
    (by omega : 4 * (nbrs.length + 1) = 4 + nbrs.length * 4)]

section Rounds

variable {next : Nat → Loop → Option Loop} {expected i : Nat} {loop later : Loop}

theorem rounds_done (fuel : Nat) (done : loop.bytesRead = expected) :
    graph.rounds next expected (fuel + 1) i loop =
      some (.loaded { graph with finalGraph := loop.finalGraph } loop.nodes) := by
  unfold rounds
  rw [if_pos done]

theorem rounds_next (fuel : Nat) (more : loop.bytesRead ≠ expected)
    (ran : next i loop = some later) :
    graph.rounds next expected (fuel + 1) i loop =
      graph.rounds next expected fuel (i + 1) later := by
  rw [rounds, if_neg more, ran]

theorem rounds_pastEnd (fuel : Nat) (more : loop.bytesRead ≠ expected)
    (past : next i loop = none) :
    graph.rounds next expected (fuel + 1) i loop = some .pastEnd := by
  rw [rounds, if_neg more, past]

/-- The loop does not crash. -/
theorem rounds_ne_crash (fuel : Nat) :
    graph.rounds next expected fuel i loop ≠ some .crash := by
  induction fuel generalizing i loop with
  | zero =>
    intro ended
    cases ended
  | succ fuel inductionHypothesis =>
    by_cases done : loop.bytesRead = expected
    · rw [rounds_done fuel done]
      intro same
      cases same
    · cases ran : next i loop with
      | none =>
        rw [rounds_pastEnd fuel done ran]
        intro same
        cases same
      | some later =>
        rw [rounds_next fuel done ran]
        exact inductionHypothesis

end Rounds

/-- The loop over the records of a graph ends when there is a list for each of them. -/
theorem rounds_records (graph : GraphTable) {lists : List (List Nat)}
    (storable : ∀ nbrs ∈ lists, Storable nbrs) (k : Nat → Nat) {expected bytesRead nodes : Nat} (i : Nat) (finalGraph : List (List Nat))
    (bytes : bytesRead + (graphRecords lists).length = expected) (fits : expected < 2 ^ 64)
    (counted : nodes < 2 ^ 32)
    (room : ∀ j < lists.length, (nodes + j) % 2 ^ 32 < finalGraph.length) :
    ∃ loaded count, graph.rounds (round k) expected (lists.length + 1) i
      ⟨bytesRead, nodes, ⟨graphRecords lists, false⟩, finalGraph⟩ =
        some (.loaded loaded count) := by
  induction lists generalizing i bytesRead nodes finalGraph with
  | nil =>
    have done : bytesRead = expected := bytes
    exact ⟨_, _, rounds_done 0 done⟩
  | cons nbrs rest inductionHypothesis =>
    rw [graphRecords_cons, List.length_append] at bytes
    have size := length_graphRecord nbrs
    have here : nodes < finalGraph.length := by
      have first := room 0 (Nat.zero_lt_succ _)
      rwa [Nat.add_zero, Nat.mod_eq_of_lt counted] at first
    have others := inductionHypothesis
      (fun other member => storable other (List.mem_cons_of_mem _ member)) (i + 1)
      (finalGraph.set nodes nbrs)
      (by omega : (bytesRead + (graphRecord nbrs).length) % 2 ^ 64 + (graphRecords rest).length =
        expected) (Nat.mod_lt (nodes + 1) (by decide)) (fun j inside => by
          have later := room (j + 1) (Nat.succ_lt_succ inside)
          rw [List.length_set]
          omega)
    have ran := round_record (storable nbrs List.mem_cons_self) k i bytesRead nodes counted
      (graphRecords rest) finalGraph
    rw [if_pos here] at ran
    have more : bytesRead ≠ expected := by omega
    rw [List.length_cons, graphRecords_cons, rounds_next _ more ran]
    exact others

/-- A loop over the records of a graph that does not index past the end has had a list for
each of them. -/
theorem room_of_rounds {lists : List (List Nat)} (storable : ∀ nbrs ∈ lists, Storable nbrs)
    (k : Nat → Nat) {expected bytesRead nodes fuel : Nat} (i : Nat) (finalGraph : List (List Nat))
    (bytes : bytesRead + (graphRecords lists).length = expected) (fits : expected < 2 ^ 64)
    (counted : nodes < 2 ^ 32) {outcome : LoadOutcome}
    (ended : graph.rounds (round k) expected fuel i
      ⟨bytesRead, nodes, ⟨graphRecords lists, false⟩, finalGraph⟩ = some outcome)
    (within : outcome ≠ .pastEnd) :
    ∀ j < lists.length, (nodes + j) % 2 ^ 32 < finalGraph.length := by
  induction lists generalizing fuel i bytesRead nodes finalGraph with
  | nil => exact fun j inside => absurd inside (Nat.not_lt_zero j)
  | cons nbrs rest inductionHypothesis =>
    rw [graphRecords_cons, List.length_append] at bytes
    have size := length_graphRecord nbrs
    cases fuel with
    | zero => cases ended
    | succ fuel =>
      have ran := round_record (storable nbrs List.mem_cons_self) k i bytesRead nodes counted
        (graphRecords rest) finalGraph
      have more : bytesRead ≠ expected := by omega
      rw [graphRecords_cons] at ended
      by_cases here : nodes < finalGraph.length
      · rw [if_pos here] at ran
        rw [rounds_next _ more ran] at ended
        have others := inductionHypothesis
          (fun other member => storable other (List.mem_cons_of_mem _ member)) (i + 1)
          (finalGraph.set nodes nbrs)
          (by omega : (bytesRead + (graphRecord nbrs).length) % 2 ^ 64 +
            (graphRecords rest).length = expected) (Nat.mod_lt (nodes + 1) (by decide)) ended
        intro j inside
        cases j with
        | zero => rwa [Nat.add_zero, Nat.mod_eq_of_lt counted]
        | succ j =>
          have later := others j (Nat.lt_of_succ_lt_succ inside)
          rw [List.length_set] at later
          omega
      · rw [if_neg here] at ran
        rw [rounds_pastEnd _ more ran] at ended
        exact absurd (Option.some.inj ended).symm within

/-- The lists that the records of a graph need. -/
theorem room_iff {count rows : Nat} :
    (∀ j < count, (0 + j) % 2 ^ 32 < rows) ↔ min count (2 ^ 32) ≤ rows := by
  constructor
  · intro room
    by_contra short
    have last := room (min count (2 ^ 32) - 1) (by omega)
    omega
  · intro enough j inside
    omega

/-- `load_graph` on a graph for this index is the loop over its records. -/
theorem loadGraph_graph (graph : GraphTable) (before : Uninitialized)
    (expectedNumPoints fuel : Nat) {lists : List (List Nat)} {width ep : Nat}
    (fits : 24 + (graphRecords lists).length < 2 ^ 64) (widthFits : width < 2 ^ 32)
    (epFits : ep < 2 ^ 32) (frozenFits : graph.numFrozenPts < 2 ^ 64) :
    ∃ roomy : GraphTable, roomy.finalGraph.length = graph.rows expectedNumPoints ∧
      graph.loadGraph before fuel (graphHeader (24 + (graphRecords lists).length) width ep
        graph.numFrozenPts ++ graphRecords lists) expectedNumPoints =
          roomy.rounds (round before.k) (24 + (graphRecords lists).length) fuel 0
            ⟨24, 0, ⟨graphRecords lists, false⟩, roomy.finalGraph⟩ := by
  refine ⟨_, length_makeRoom ({ graph with width := width, ep := ep } : GraphTable)
    expectedNumPoints, ?_⟩
  unfold loadGraph
  rw [readHeader_graph fits widthFits epFits frozenFits]
  dsimp only
  rw [if_neg (not_not.mpr rfl)]

theorem loadGraph_ne_crash {fuel : Nat} {file : Bytes}
    (frozen : (graph.readHeader before file).1.frozenPts = graph.numFrozenPts) :
    graph.loadGraph before fuel file expectedNumPoints ≠ some .crash := by
  unfold loadGraph
  dsimp only
  rw [if_neg (not_not.mpr frozen)]
  exact rounds_ne_crash fuel

/-- A graph that is read has the number of frozen points of the index. -/
theorem IsGraph.spelled {lists : List (List Nat)} {file : Bytes} (isGraph : IsGraph file lists)
    (frozen : (graph.readHeader before file).1.frozenPts = graph.numFrozenPts) :
    ∃ width ep, width < 2 ^ 32 ∧ ep < 2 ^ 32 ∧ graph.numFrozenPts < 2 ^ 64 ∧
      file = graphHeader (24 + (graphRecords lists).length) width ep graph.numFrozenPts ++
        graphRecords lists := by
  obtain ⟨-, fits, width, ep, frozenPts, widthFits, epFits, frozenFits, rfl⟩ := isGraph
  rw [readHeader_graph fits widthFits epFits frozenFits] at frozen
  obtain rfl : frozenPts = graph.numFrozenPts := frozen
  exact ⟨width, ep, widthFits, epFits, frozenFits, rfl⟩

/-- `load_graph` is safe if and only if the header asks for another number of frozen points, or
the file is a graph and `_final_graph` has a list for each of its records. -/
theorem loadsSafely_iff (graph : GraphTable) (before : Uninitialized) (file : Bytes)
    (expectedNumPoints : Nat) :
    graph.LoadsSafely before file expectedNumPoints ↔
      (graph.readHeader before file).1.frozenPts ≠ graph.numFrozenPts ∨
        ∃ lists, IsGraph file lists ∧
          min lists.length (2 ^ 32) ≤ graph.rows expectedNumPoints := by
  by_cases other : (graph.readHeader before file).1.frozenPts ≠ graph.numFrozenPts
  · have crashes : graph.loadGraph before 0 file expectedNumPoints = some .crash := if_pos other
    refine iff_of_true ⟨0, .crash, crashes, ?_, ?_⟩ (Or.inl other)
    · intro same
      cases same
    · rintro ⟨loaded, nodes, same⟩
      cases same
  have frozen := not_not.mp other
  rw [or_iff_right other]
  constructor
  · rintro ⟨fuel, outcome, ended, within, graphs⟩
    have returned : ∃ loaded nodes, outcome = .loaded loaded nodes := by
      cases outcome with
      | loaded loaded nodes => exact ⟨loaded, nodes, rfl⟩
      | pastEnd => exact absurd rfl within
      | crash => exact absurd ended (loadGraph_ne_crash frozen)
    obtain ⟨lists, isGraph⟩ := graphs returned
    refine ⟨lists, isGraph, ?_⟩
    obtain ⟨width, ep, widthFits, epFits, frozenFits, rfl⟩ := isGraph.spelled frozen
    obtain ⟨roomy, rows, run⟩ := loadGraph_graph graph before expectedNumPoints fuel isGraph.2.1
      widthFits epFits frozenFits
    rw [run] at ended
    rw [← rows]
    exact room_iff.mp (room_of_rounds isGraph.1 before.k 0 roomy.finalGraph rfl isGraph.2.1
      (by decide) ended within)
  · rintro ⟨lists, isGraph, enough⟩
    obtain ⟨width, ep, widthFits, epFits, frozenFits, spelledOut⟩ := isGraph.spelled frozen
    obtain ⟨roomy, rows, run⟩ := loadGraph_graph graph before expectedNumPoints
      (lists.length + 1) isGraph.2.1 widthFits epFits frozenFits
    rw [← rows] at enough
    obtain ⟨loaded, count, ended⟩ := roomy.rounds_records isGraph.1 before.k 0
      roomy.finalGraph rfl isGraph.2.1 (by decide : 0 < 2 ^ 32) (room_iff.mpr enough)
    refine ⟨lists.length + 1, _, by rw [spelledOut, run, ended], ?_, fun _ => ⟨lists, isGraph⟩⟩
    intro same
    cases same

/-- A graph begins with its size. -/
theorem IsGraph.size {file : Bytes} {lists : List (List Nat)} (isGraph : IsGraph file lists) :
    valueOf (file.take 8) = file.length := by
  obtain ⟨-, fits, width, ep, frozenPts, -, -, -, rfl⟩ := isGraph
  rw [List.length_append, length_graphHeader]
  unfold graphHeader
  rw [List.append_assoc, List.append_assoc, List.append_assoc, List.take_left' (length_bytesOf 8 _)]
  exact valueOf_bytesOf fits

/-- An index for four points. -/
def fourPoints : GraphTable := ⟨4, 0, 0, 0, [[], [], [], []]⟩

/-- Variables that are zero before they are read. -/
def zeroed : Uninitialized := ⟨0, 0, fun _ => 0⟩

/-- A header for two empty lists, and one of them. -/
def truncatedGraph : Bytes := graphHeader 32 0 0 0 ++ graphRecord []

/-- The count of the second list is not in the file, and the loop takes it for zero: the call
returns two lists. -/
theorem not_loadsSafely_truncated : ¬ fourPoints.LoadsSafely zeroed truncatedGraph 4 := by
  rintro ⟨fuel, outcome, ended, -, graphs⟩
  have loads : ∀ more, fourPoints.loadGraph zeroed (more + 3) truncatedGraph 4 =
      some (.loaded fourPoints 2) := fun _ => rfl
  have returned : outcome = .loaded fourPoints 2 := by
    match fuel with
    | 0 => cases ended
    | 1 => cases ended
    | 2 => cases ended
    | more + 3 => exact (Option.some.inj ((loads more).symm.trans ended)).symm
  obtain ⟨lists, isGraph⟩ := graphs ⟨_, _, returned⟩
  exact absurd isGraph.size (by decide)

end GraphTable

end OdinVector
