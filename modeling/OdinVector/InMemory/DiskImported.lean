/-
This file proves when `load_from_disk_index` reproduces a disk index: when the dimension
is its own aligned dimension, the capacity fits 32 bits and, for a dynamic index, the last
node of the file is the frozen point of an index that was dynamic too.
-/

import OdinVector.InMemory.DiskImport
import OdinVector.InMemory.FrozenPoint
import Mathlib.Logic.Nontrivial.Basic

namespace OdinVector

open Binary

variable {Component Tag : Type} {format : Format Component} {tagFormat : Format Tag}

/-! ### The sectors of a read -/

namespace DiskInput

variable {input : DiskInput format tagFormat}

/-- The bytes of the disk index. -/
def diskIndex (input : DiskInput format tagFormat) : Bytes :=
  input.metaBytes ++ List.replicate (sectorLen - 80) 0 ++ input.body

theorem length_sectorsOf (left : Nat) {nodes : List (Bytes × List Nat)}
    (suit : ∀ node ∈ nodes, input.shape.Suits node) :
    (input.shape.sectorsOf left nodes).length = left * sectorLen := by
  induction left generalizing nodes with
  | zero => exact (Nat.zero_mul _).symm
  | succ left inductionHypothesis =>
    have fits : (nodes.take input.shape.nnodesPerSector).length * input.shape.maxNodeLen ≤
        sectorLen := by
      rw [List.length_take]
      exact (Nat.mul_le_mul_right _ (Nat.min_le_left _ _)).trans (Nat.div_mul_le_self _ _)
    have first := DiskShape.length_packed
      (fun node member => suit node (List.mem_of_mem_take member)) fits
    show (_ ++ input.shape.sectorsOf left (nodes.drop input.shape.nnodesPerSector)).length = _
    rw [List.length_append, first,
      inductionHypothesis fun node member => suit node (List.mem_of_mem_drop member)]
    ring

theorem length_head (input : DiskInput format tagFormat) :
    (input.metaBytes ++ List.replicate (sectorLen - 80) 0).length = sectorLen := by
  rw [List.length_append, length_metaBytes, List.length_replicate]
  rfl

theorem loadHeader_diskIndex (input : DiskInput format tagFormat) :
    loadHeader format.width input.diskIndex =
      some (input.header, decide (input.header.nnodesPerSector ≤ kMaxElemInAPage)) := by
  unfold diskIndex
  rw [List.append_assoc]
  exact input.loadHeader_metaBytes _

section Several

variable (several : 0 < input.shape.nnodesPerSector)
include several

theorem header_nSectors : input.header.nSectors = input.shape.nSectors := by
  unfold DiskShape.nSectors
  rw [if_pos several]
  rfl

theorem length_diskIndex : input.diskIndex.length = (1 + input.header.nSectors) * sectorLen := by
  have body : input.body.length = input.shape.nSectors * sectorLen := by
    unfold body
    rw [if_pos several]
    exact length_sectorsOf _ input.stored_suits
  unfold diskIndex
  rw [List.length_append, length_head, body, header_nSectors several]
  ring

/-- A node is found in a read that has its sector. -/
theorem diskNode_of_read {loc stSector count : Nat} {node : List Component × List Nat}
    (there : input.nodes[loc]? = some node) (from' : stSector ≤ loc / input.header.nnodesPerSector)
    (before : loc / input.header.nnodesPerSector < stSector + count) :
    input.header.diskNode format
      (((input.diskIndex.drop ((1 + stSector) * sectorLen)).take (count * sectorLen)).drop
        ((loc / input.header.nnodesPerSector - stSector) * sectorLen)) loc =
      ⟨node.1, node.2.take input.width⟩ := by
  obtain ⟨rest, place⟩ := input.readSectors_body there (length_head input)
  have long : 0 < ((input.header.readSectors input.diskIndex loc).drop
      (input.header.offsetToLoc loc)).length := by
    unfold diskIndex
    rw [place, List.length_append]
    unfold DiskShape.record
    rw [List.length_append, List.length_append, length_bytesOf]
    omega
  rw [List.length_drop] at long
  have positive : 0 < input.header.nnodesPerSector := several
  have page : ∃ more, ((input.diskIndex.drop ((1 + stSector) * sectorLen)).take
      (count * sectorLen)).drop ((loc / input.header.nnodesPerSector - stSector) * sectorLen) =
        input.header.readSectors input.diskIndex loc ++ more := by
    have start : (1 + stSector) * sectorLen +
        (loc / input.header.nnodesPerSector - stSector) * sectorLen =
          (1 + loc / input.header.nnodesPerSector) * sectorLen := by
      rw [← Nat.add_mul, Nat.add_assoc, Nat.add_sub_cancel' from']
    have left : count * sectorLen - (loc / input.header.nnodesPerSector - stSector) * sectorLen =
        sectorLen + (count - (loc / input.header.nnodesPerSector - stSector) - 1) * sectorLen := by
      have other : count - (loc / input.header.nnodesPerSector - stSector) =
          1 + (count - (loc / input.header.nnodesPerSector - stSector) - 1) := by
        omega
      rw [← Nat.sub_mul, other, Nat.add_mul, Nat.one_mul, Nat.add_sub_cancel_left]
    unfold DiskHeader.readSectors DiskHeader.locSectorNo DiskHeader.sizePerIo
    rw [if_pos positive, if_pos positive, Nat.mul_one, List.drop_take, List.drop_drop, start, left,
      List.take_add]
    exact ⟨_, rfl⟩
  obtain ⟨more, page⟩ := page
  have record : (input.header.readSectors input.diskIndex loc ++ more).drop
      (input.header.offsetToLoc loc) =
        input.shape.record (node.1.flatMap format.encode, node.2) ++ (rest ++ more) := by
    rw [List.drop_append_of_le_length (by omega)]
    unfold diskIndex
    rw [place, List.append_assoc]
  rw [page]
  exact input.decode_record (List.mem_of_getElem? there) record

end Several

/-! ### The loop over the nodes -/

/-- What is there when the nodes before a location are loaded. -/
structure LoadedTo (input : DiskInput format tagFormat) (memory : Nat → Component)
    (state : Imported Component) (bound : Nat) : Prop where
  nodes : ∀ loc node, input.nodes[loc]? = some node → loc < bound →
    state.finalGraph loc = node.2.take input.width ∧
      state.locationToTag loc = some loc ∧ state.tagToLocation loc = some loc
  coords : ∀ loc node, input.nodes[loc]? = some node → loc < bound →
    ∀ place value, node.1[place]? = some value →
      state.data (loc * input.ndims + place) = value
  rest : ∀ position, bound * input.ndims ≤ position → state.data position = memory position

variable {memory : Nat → Component} {state : Imported Component} {bound : Nat}

/-- What one node adds. -/
theorem LoadedTo.importNode (loaded : input.LoadedTo memory state bound)
    {node : List Component × List Nat} (there : input.nodes[bound]? = some node)
    {stSector : Nat} {buf : Bytes}
    (read : input.header.diskNode format
      (buf.drop ((bound / input.header.nnodesPerSector - stSector) * sectorLen)) bound =
        ⟨node.1, node.2.take input.width⟩) :
    input.LoadedTo memory (input.header.importNode format stSector buf state bound)
      (bound + 1) := by
  have dimension := input.coords node (List.mem_of_getElem? there)
  unfold DiskHeader.importNode
  dsimp only
  rw [read]
  show input.LoadedTo memory ⟨copyTo state.data (bound * input.ndims) node.1, _, _, _⟩ _
  constructor
  · intro loc other found inside
    dsimp only
    obtain rfl | before := Nat.eq_or_lt_of_le (Nat.lt_succ_iff.mp inside)
    · rw [there] at found
      obtain rfl := Option.some.inj found
      rw [Function.update_self, Function.update_self, Function.update_self]
      exact ⟨rfl, rfl, rfl⟩
    · rw [Function.update_of_ne before.ne, Function.update_of_ne before.ne,
        Function.update_of_ne before.ne]
      exact loaded.nodes loc other found before
  · intro loc other found inside place value component
    have length := input.coords other (List.mem_of_getElem? found)
    have within : place < input.ndims := by
      have := (List.getElem?_eq_some_iff.mp component).1
      omega
    dsimp only
    obtain rfl | before := Nat.eq_or_lt_of_le (Nat.lt_succ_iff.mp inside)
    · rw [there] at found
      obtain rfl := Option.some.inj found
      exact copyTo_inside component
    · have row : (loc + 1) * input.ndims ≤ bound * input.ndims :=
        Nat.mul_le_mul_right _ before
      rw [Nat.succ_mul] at row
      rw [copyTo_outside (Or.inl (by omega))]
      exact loaded.coords loc other found before place value component
  · intro position behind
    rw [Nat.succ_mul] at behind
    dsimp only
    rw [copyTo_outside (Or.inr (by omega))]
    exact loaded.rest position (by omega)

/-- What the nodes of a read add. -/
theorem LoadedTo.foldl (loaded : input.LoadedTo memory state bound) {stSector count : Nat}
    {buf : Bytes} (inside : bound + count ≤ input.nodes.length)
    (reads : ∀ loc node, input.nodes[loc]? = some node → bound ≤ loc → loc < bound + count →
      input.header.diskNode format
        (buf.drop ((loc / input.header.nnodesPerSector - stSector) * sectorLen)) loc =
          ⟨node.1, node.2.take input.width⟩) :
    input.LoadedTo memory
      ((List.range' bound count).foldl (input.header.importNode format stSector buf) state)
      (bound + count) := by
  induction count generalizing bound state with
  | zero => exact loaded
  | succ count inductionHypothesis =>
    have there : input.nodes[bound]? = some input.nodes[bound] :=
      List.getElem?_eq_getElem (by omega)
    have next := loaded.importNode there
      (reads bound _ there (Nat.le_refl _) (Nat.lt_add_of_pos_right (Nat.succ_pos _)))
    have later := inductionHypothesis next (by omega) fun loc node found from' below =>
      reads loc node found (by omega) (by omega)
    rw [List.range'_succ, List.foldl_cons]
    rwa [Nat.add_right_comm, Nat.add_assoc] at later

theorem importSectors_done {header : DiskHeader} {left stSector : Nat}
    (done : header.nSectors ≤ stSector) (stream : Bytes) :
    header.importSectors format left stSector stream state = some state := by
  cases left with
  | zero => rfl
  | succ left => exact if_neg (by omega)

/-- The loop over the sectors loads all nodes. -/
theorem importSectors_loads (several : 0 < input.shape.nnodesPerSector) {left stSector : Nat}
    (enough : input.header.nSectors ≤ stSector + left)
    (loaded : input.LoadedTo memory state
      (min input.nodes.length (stSector * input.header.nnodesPerSector))) :
    ∃ state', input.header.importSectors format left stSector
        (input.diskIndex.drop ((1 + stSector) * sectorLen)) state = some state' ∧
      input.LoadedTo memory state' input.nodes.length := by
  have positive : 0 < input.header.nnodesPerSector := several
  have all : input.nodes.length ≤ input.header.nSectors * input.header.nnodesPerSector := by
    unfold DiskHeader.nSectors roundUp
    rw [Nat.mul_div_cancel _ positive]
    exact le_divRoundUp_mul input.nodes.length positive
  have finished {sector : Nat} (behind : input.header.nSectors ≤ sector) :
      min input.nodes.length (sector * input.header.nnodesPerSector) = input.nodes.length :=
    min_eq_left (all.trans (Nat.mul_le_mul_right _ behind))
  induction left generalizing stSector state with
  | zero =>
    rw [finished (by omega)] at loaded
    exact ⟨state, rfl, loaded⟩
  | succ left inductionHypothesis =>
    unfold DiskHeader.importSectors
    split
    · rename_i more
      obtain ⟨count, edSector⟩ : ∃ count,
          min (stSector + kSectorsPerRead) input.header.nSectors = stSector + count := ⟨_,
        (Nat.add_sub_cancel' (le_min (Nat.le_add_right _ _) more.le)).symm⟩
      have within : stSector + count ≤ input.header.nSectors :=
        edSector ▸ Nat.min_le_right _ _
      have read : readBytes (count * sectorLen)
          (input.diskIndex.drop ((1 + stSector) * sectorLen)) =
            some ((input.diskIndex.drop ((1 + stSector) * sectorLen)).take (count * sectorLen),
              (input.diskIndex.drop ((1 + stSector) * sectorLen)).drop (count * sectorLen)) := by
        have room : (1 + stSector) * sectorLen + count * sectorLen ≤
            (1 + input.header.nSectors) * sectorLen := by
          rw [← Nat.add_mul]
          exact Nat.mul_le_mul_right _ (by omega)
        unfold readBytes
        rw [List.length_drop, length_diskIndex several, if_pos (by omega)]
      have start : (1 + stSector) * sectorLen + count * sectorLen =
          (1 + (stSector + count)) * sectorLen := by
        rw [← Nat.add_mul, Nat.add_assoc]
      dsimp only
      rw [edSector, Nat.add_sub_cancel_left, read, Option.bind_some]
      dsimp only
      have first : stSector * input.header.nnodesPerSector ≤
          (stSector + count) * input.header.nnodesPerSector :=
        Nat.mul_le_mul_right _ (Nat.le_add_right _ _)
      have begun : stSector * input.header.nnodesPerSector ≤ input.nodes.length := by
        have below : stSector ≤ input.nodes.length / input.header.nnodesPerSector := by
          unfold DiskHeader.nSectors roundUp at more
          rw [Nat.mul_div_cancel _ positive] at more
          unfold divRoundUp at more
          change stSector < input.nodes.length / _ + _ at more
          split at more <;> omega
        exact (Nat.mul_le_mul_right _ below).trans (Nat.div_mul_le_self _ _)
      rw [min_eq_right begun] at loaded
      have here := loaded.foldl
        (Nat.add_sub_cancel' (le_min begun first) ▸ Nat.min_le_left _ _)
        (fun loc node found from' below => diskNode_of_read several found
          ((Nat.le_div_iff_mul_le positive).mpr from') (by
            rw [Nat.add_sub_cancel' (le_min begun first)] at below
            exact (Nat.div_lt_iff_lt_mul positive).mpr (below.trans_le (Nat.min_le_right _ _))))
      rw [Nat.add_sub_cancel' (le_min begun first)] at here
      rw [List.drop_drop, start]
      obtain whole | last := Nat.le_total (stSector + kSectorsPerRead) input.header.nSectors
      · rw [min_eq_left whole] at edSector
        have further : 1 ≤ kSectorsPerRead := by decide
        rw [← edSector] at here ⊢
        exact inductionHypothesis (by omega) here
      · rw [min_eq_right last] at edSector
        have whole : min input.nodes.length ((stSector + count) * input.header.nnodesPerSector) =
            input.nodes.length := finished edSector.le
        rw [importSectors_done last]
        exact ⟨_, rfl, Eq.mp (congrArg (input.LoadedTo memory _) whole) here⟩
    · rename_i done
      rw [finished (by omega)] at loaded
      exact ⟨state, rfl, loaded⟩

/-- What `load_from_disk_index` leaves before the frozen point moves. -/
theorem loadFromDiskIndex_eq (several : 0 < input.shape.nnodesPerSector)
    (index : Index Component Nat) (memory : Nat → Component) :
    ∃ state, input.LoadedTo memory state input.nodes.length ∧
      index.loadFromDiskIndex format memory input.diskIndex =
        if input.nodes.length - index.numFrozenPts < index.maxPoints ∧ 2 ^ 32 ≤ index.maxPoints then
          none
        else some ((index.install input.header state).repositionFrozenPointToEnd format) := by
  have fresh : input.LoadedTo memory
      ⟨memory, index.finalGraph, index.locationToTag, index.tagToLocation⟩
      (min input.nodes.length (0 * input.header.nnodesPerSector)) := by
    rw [Nat.zero_mul, Nat.min_zero]
    exact ⟨fun _ _ _ none => absurd none (Nat.not_lt_zero _),
      fun _ _ _ none => absurd none (Nat.not_lt_zero _), fun _ _ => rfl⟩
  obtain ⟨state, imported, loaded⟩ :=
    importSectors_loads several (Nat.le_add_left _ 0) fresh
  refine ⟨state, loaded, ?_⟩
  unfold Index.loadFromDiskIndex
  rw [input.loadHeader_diskIndex, Option.bind_some]
  dsimp only
  rw [Nat.add_zero, Nat.one_mul] at imported
  rw [imported, Option.bind_some]
  rfl

/-! ### What the index should have -/

/-- The location of a node in an index: a frozen point stays one. -/
def locationOf (input : DiskInput format tagFormat) (index : Index Component Nat) (id : Nat) :
    Nat :=
  if 0 < index.numFrozenPts ∧ input.frozenPts = 1 ∧ id = input.medoid then index.maxPoints else id

/-- An index that has the points of a disk index. -/
structure ReproducedBy (input : DiskInput format tagFormat) (index : Index Component Nat) :
    Prop where
  vectors : ∀ id node, input.nodes[id]? = some node →
    index.data (input.locationOf index id) =
      node.1 ++ List.replicate (index.alignedDim - input.ndims) (zeroComponent format)
  lists : ∀ id node, input.nodes[id]? = some node →
    index.finalGraph (input.locationOf index id) =
      (node.2.take input.width).map (input.locationOf index)
  tags : ∀ id < input.nodes.length, input.locationOf index id = id →
    index.locationToTag id = some id ∧ index.tagToLocation id = some id
  byTag : ∀ id node, input.nodes[id]? = some node → input.locationOf index id = id →
    index.getVectorByTag id =
      some (node.1 ++ List.replicate (index.alignedDim - input.ndims) (zeroComponent format))
  entry : index.ep = if 0 < index.numFrozenPts then index.maxPoints else input.medoid
  emptySlots : ∀ location, location ∈ index.emptySlots ↔
    location < index.maxPoints ∧ ∀ id < input.nodes.length, input.locationOf index id ≠ location
  nd : index.nd + index.emptySlots.card = index.maxPoints

/-- A file whose frozen point is the last node and not its own neighbour. -/
structure FrozenLast (input : DiskInput format tagFormat) : Prop where
  frozen : input.frozenPts = 1
  last : input.medoid + 1 = input.nodes.length
  loopless : ∀ node, input.nodes[input.medoid]? = some node →
    input.medoid ∉ node.2.take input.width

/-! ### Rows -/

theorem dvd_iff_roundUp (dim : Nat) : 8 ∣ dim ↔ roundUp dim 8 = dim := by
  unfold roundUp divRoundUp
  have whole := Nat.div_add_mod dim 8
  rw [Nat.dvd_iff_mod_eq_zero]
  constructor
  · intro exact
    rw [if_pos exact]
    omega
  · intro same
    by_contra rest
    rw [if_neg rest] at same
    omega

/-- A vector is found in its row when the rows follow each other. -/
theorem LoadedTo.row (loaded : input.LoadedTo memory state input.nodes.length) {id : Nat}
    {node : List Component × List Nat} (there : input.nodes[id]? = some node) :
    rowAt state.data input.ndims id = node.1 := by
  have length := input.coords node (List.mem_of_getElem? there)
  refine List.ext_getElem? fun place => ?_
  obtain inside | behind := Nat.lt_or_ge place input.ndims
  · rw [getElem?_rowAt inside]
    have component : node.1[place]? = some node.1[place] := List.getElem?_eq_getElem (by omega)
    rw [component, loaded.coords id node there (List.getElem?_eq_some_iff.mp there).1 place _
      component]
  · rw [List.getElem?_eq_none (by rw [length_rowAt]; exact behind),
      List.getElem?_eq_none (by omega)]

/-- Behind the last vector the memory is what it was. -/
theorem LoadedTo.behind (loaded : input.LoadedTo memory state input.nodes.length)
    {alignedDim : Nat} (larger : input.ndims < alignedDim) :
    (rowAt state.data alignedDim (input.nodes.length - 1))[input.ndims]? =
      some (memory ((input.nodes.length - 1) * alignedDim + input.ndims)) := by
  have nonempty := input.nonempty
  rw [getElem?_rowAt larger, loaded.rest]
  have rows : (input.nodes.length - 1) * input.ndims ≤ (input.nodes.length - 1) * alignedDim :=
    Nat.mul_le_mul_left _ larger.le
  obtain ⟨before, count⟩ : ∃ before, input.nodes.length = before + 1 :=
    ⟨input.nodes.length - 1, by omega⟩
  rw [count, Nat.add_sub_cancel] at rows ⊢
  rw [Nat.succ_mul]
  omega

/-! ### The index that is loaded -/

section Loaded

variable {index : Index Component Nat} (dims : index.dim = input.ndims)
  (room : input.nodes.length ≤ index.maxPoints)

theorem card_Ico_nd (few : index.numFrozenPts ≤ 1) (room : input.nodes.length ≤ index.maxPoints) :
    input.nodes.length - index.numFrozenPts +
      (Finset.Ico (input.nodes.length - index.numFrozenPts) index.maxPoints).card =
        index.maxPoints := by
  rw [Nat.card_Ico]
  omega

include dims room

/-- A static index has all nodes where the file has them. -/
theorem reproducedBy_static (loaded : input.LoadedTo memory state input.nodes.length)
    (whole : 8 ∣ input.ndims) (static : index.numFrozenPts = 0) :
    input.ReproducedBy (index.install input.header state) := by
  have aligned : index.alignedDim = input.ndims := by
    unfold Index.alignedDim
    rw [dims]
    exact (dvd_iff_roundUp _).mp whole
  have stays : input.locationOf (index.install input.header state) = id := by
    funext id
    exact if_neg fun frozen => absurd static frozen.1.ne'
  have vectors (id : Nat) (node : List Component × List Nat)
      (there : input.nodes[id]? = some node) :
      (index.install input.header state).data id =
        node.1 ++ List.replicate ((index.install input.header state).alignedDim - input.ndims)
          (zeroComponent format) := by
    show rowAt state.data index.alignedDim id = _ ++ List.replicate (index.alignedDim - _) _
    rw [aligned, loaded.row there, Nat.sub_self, List.replicate_zero, List.append_nil]
  constructor
  · rw [stays]
    exact vectors
  · intro id node there
    rw [stays, List.map_id]
    exact (loaded.nodes id node there (List.getElem?_eq_some_iff.mp there).1).1
  · intro id inside _
    exact (loaded.nodes id _ (List.getElem?_eq_getElem inside) inside).2
  · intro id node there _
    unfold Index.getVectorByTag
    have tag := (loaded.nodes id node there (List.getElem?_eq_some_iff.mp there).1).2.2
    show (state.tagToLocation id).map _ = _
    rw [tag, Option.map_some, vectors id node there]
  · have notFrozen : ¬ 0 < (index.install input.header state).numFrozenPts :=
      fun frozen => absurd static frozen.ne'
    exact (if_neg notFrozen).symm
  · intro location
    rw [stays]
    show location ∈ Finset.Ico (input.nodes.length - index.numFrozenPts) index.maxPoints ↔ _
    rw [Finset.mem_Ico, static, Nat.sub_zero]
    constructor
    · rintro ⟨behind, below⟩
      exact ⟨below, fun id inside same => by
        have here : id = location := same
        omega⟩
    · rintro ⟨below, none⟩
      exact ⟨Nat.le_of_not_lt fun inside => none location inside rfl, below⟩
  · exact card_Ico_nd (static.trans_le (Nat.zero_le _)) room

/-- A dynamic index has its frozen point, the last node of the file, at the end. -/
theorem reproducedBy_dynamic (loaded : input.LoadedTo memory state input.nodes.length)
    (whole : 8 ∣ input.ndims) (dynamic : index.numFrozenPts = 1) (frozenLast : input.FrozenLast) :
    input.ReproducedBy
      ((index.install input.header state).repositionFrozenPointToEnd format) := by
  have nonempty := input.nonempty
  have aligned : index.alignedDim = input.ndims := by
    unfold Index.alignedDim
    rw [dims]
    exact (dvd_iff_roundUp _).mp whole
  have last := frozenLast.last
  have ndIs : (index.install input.header state).nd = input.medoid := by
    show input.nodes.length - index.numFrozenPts = _
    omega
  have below : input.medoid < index.maxPoints := by omega
  have kept := @Index.repositionFrozenPointToEnd_tables _ _ format
    (index.install input.header state)
  have moved := @Index.repositionFrozenPointToEnd_frozen _ _ format
    (index.install input.header state) (ndIs.le.trans below.le) (dynamic.symm ▸ Nat.one_pos)
    ndIs.symm
  rw [ndIs] at moved
  generalize (index.install input.header state).repositionFrozenPointToEnd format = after
    at kept moved ⊢
  obtain ⟨tables, frozenSame, -, dimSame, -⟩ := kept
  obtain ⟨entry, lists, lastList, rows, lastRow⟩ := moved
  have capacity : after.maxPoints = index.maxPoints :=
    (congrArg IndexTables.maxPoints tables).trans rfl
  have one : after.numFrozenPts = 1 := frozenSame.trans dynamic
  have alignedAfter : after.alignedDim = input.ndims := by
    unfold Index.alignedDim at aligned ⊢
    rw [dimSame]
    exact aligned
  have locations (id : Nat) :
      input.locationOf after id = if id = input.medoid then index.maxPoints else id := by
    unfold locationOf
    rw [capacity]
    simp only [one, Nat.one_pos, frozenLast.frozen, true_and]
  have other {id : Nat} (inside : id < input.nodes.length) (point : id ≠ input.medoid) :
      id < input.medoid := by omega
  have vectors (id : Nat) (node : List Component × List Nat)
      (there : input.nodes[id]? = some node) : after.data (input.locationOf after id) =
        node.1 ++ List.replicate (after.alignedDim - input.ndims) (zeroComponent format) := by
    have row : rowAt state.data index.alignedDim id = node.1 := by
      rw [aligned]
      exact loaded.row there
    rw [alignedAfter, Nat.sub_self, List.replicate_zero, List.append_nil, locations]
    split
    · rename_i frozen
      rw [← row, frozen]
      exact lastRow
    · rename_i point
      rw [← row]
      exact rows id (other (List.getElem?_eq_some_iff.mp there).1 point)
  have isPoint {id : Nat} (stays : input.locationOf after id = id) : id ≠ input.medoid := by
    rintro rfl
    rw [locations, if_pos rfl] at stays
    omega
  have tagged (id : Nat) (inside : id < input.nodes.length) :
      after.locationToTag id = some id ∧ after.tagToLocation id = some id := by
    have byLocation : after.locationToTag = state.locationToTag :=
      congrArg IndexTables.locationToTag tables
    have byTag : after.tagToLocation = state.tagToLocation :=
      congrArg IndexTables.tagToLocation tables
    rw [byLocation, byTag]
    exact (loaded.nodes id _ (List.getElem?_eq_getElem inside) inside).2
  have slots : after.emptySlots = Finset.Ico (input.nodes.length - index.numFrozenPts)
      index.maxPoints := congrArg IndexTables.emptySlots tables
  constructor
  · exact vectors
  · intro id node there
    have inside := (List.getElem?_eq_some_iff.mp there).1
    have list := (loaded.nodes id node there inside).1
    rw [locations]
    split
    · rename_i frozen
      subst frozen
      have noLoop : (node.2.take input.width).map (input.locationOf after) =
          node.2.take input.width := by
        refine (List.map_congr_left fun nbr member => ?_).trans (List.map_id _)
        rw [locations, if_neg]
        · rfl
        · rintro rfl
          exact frozenLast.loopless node there member
      rw [noLoop, ← list]
      exact lastList
    · rename_i point
      rw [← list]
      exact (lists id (other inside point)).trans
        (List.map_congr_left fun nbr _ => (locations nbr).symm)
  · exact fun id inside _ => tagged id inside
  · intro id node there stays
    have row := vectors id node there
    rw [stays] at row
    unfold Index.getVectorByTag
    rw [(tagged id (List.getElem?_eq_some_iff.mp there).1).2, Option.map_some, row]
  · rw [if_pos (one.symm ▸ Nat.one_pos), capacity]
    exact entry
  · intro location
    rw [slots, Finset.mem_Ico, capacity]
    constructor
    · rintro ⟨behind, inside⟩
      refine ⟨inside, fun id node => ?_⟩
      rw [locations]
      split <;> omega
    · rintro ⟨inside, none⟩
      refine ⟨Nat.le_of_not_lt fun point => none location (by omega) ?_, inside⟩
      rw [locations, if_neg (by omega)]
  · have count : after.nd = input.nodes.length - index.numFrozenPts :=
      congrArg IndexTables.nd tables
    rw [count, slots, capacity]
    exact card_Ico_nd dynamic.le room

omit dims in
/-- A dynamic index takes the last node for the frozen point. -/
theorem frozenLast_of_reproducedBy (loaded : input.LoadedTo memory state input.nodes.length)
    (dynamic : index.numFrozenPts = 1)
    (reproduced : input.ReproducedBy
      ((index.install input.header state).repositionFrozenPointToEnd format)) :
    input.FrozenLast := by
  have nonempty := input.nonempty
  have slots := reproduced.emptySlots (input.nodes.length - 1)
  have lists := reproduced.lists
  have kept := @Index.repositionFrozenPointToEnd_tables _ _ format
    (index.install input.header state)
  have ndIs : (index.install input.header state).nd = input.nodes.length - 1 := by
    show input.nodes.length - index.numFrozenPts = _
    rw [dynamic]
  have below : input.nodes.length - 1 < index.maxPoints := by omega
  have moved := @Index.repositionFrozenPointToEnd_frozen _ _ format
    (index.install input.header state) (ndIs.le.trans below.le) (dynamic.symm ▸ Nat.one_pos)
  rw [ndIs] at moved
  generalize (index.install input.header state).repositionFrozenPointToEnd format = after
    at kept moved slots lists
  obtain ⟨tables, frozenSame, -, -⟩ := kept
  have capacity : after.maxPoints = index.maxPoints :=
    (congrArg IndexTables.maxPoints tables).trans rfl
  have empty : after.emptySlots = Finset.Ico (input.nodes.length - index.numFrozenPts)
      index.maxPoints := congrArg IndexTables.emptySlots tables
  have isEmpty : input.nodes.length - 1 ∈ after.emptySlots := by
    rw [empty, Finset.mem_Ico, dynamic]
    exact ⟨Nat.le_refl _, below⟩
  have gone := (slots.mp isEmpty).2 (input.nodes.length - 1) (by omega)
  have frozen : input.frozenPts = 1 ∧ input.nodes.length - 1 = input.medoid := by
    by_contra point
    unfold locationOf at gone
    rw [if_neg fun all => point all.2] at gone
    exact gone rfl
  refine ⟨frozen.1, by omega, fun node there loop => ?_⟩
  have list := lists _ node there
  have here : input.locationOf after input.medoid = index.maxPoints := by
    unfold locationOf
    rw [capacity]
    exact if_pos ⟨(frozenSame.trans dynamic).symm ▸ Nat.one_pos, frozen.1, rfl⟩
  obtain ⟨-, -, lastList, -⟩ := moved frozen.2.symm
  have stored := (loaded.nodes _ node there (List.getElem?_eq_some_iff.mp there).1).1
  rw [here, show after.finalGraph index.maxPoints = state.finalGraph (input.nodes.length - 1) from
    lastList, frozen.2, stored] at list
  rw [list] at loop
  obtain ⟨nbr, -, same⟩ := List.mem_map.mp loop
  by_cases self : nbr = input.medoid
  · rw [self, here] at same
    omega
  · unfold locationOf at same
    rw [if_neg fun all => self all.2.2] at same
    exact self same

omit room in
/-- Whatever `_data` held, the last vector is followed by zeros only if nothing follows it. -/
theorem dvd_of_vectors {value : Component} (nonzero : value ≠ zeroComponent format)
    (loaded : input.LoadedTo (fun _ => value) state input.nodes.length) {row : List Component}
    (same : row = rowAt state.data index.alignedDim (input.nodes.length - 1))
    {node : List Component × List Nat}
    (there : input.nodes[input.nodes.length - 1]? = some node)
    (padded : row = node.1 ++
      List.replicate (index.alignedDim - input.ndims) (zeroComponent format)) :
    8 ∣ input.ndims := by
  by_contra partial'
  have larger : input.ndims < index.alignedDim := by
    unfold Index.alignedDim
    rw [dims]
    refine Nat.lt_of_le_of_ne (le_divRoundUp_mul _ (by decide)) fun whole => ?_
    exact partial' ((dvd_iff_roundUp _).mpr whole.symm)
  have behind := loaded.behind larger
  have length := input.coords node (List.mem_of_getElem? there)
  rw [← same, padded, List.getElem?_append_right length.le, length, Nat.sub_self,
    List.getElem?_replicate_of_lt (by omega)] at behind
  exact nonzero (Option.some.inj behind).symm

/-- A disk index is reproduced. -/
theorem exists_reproducedBy (several : 0 < input.shape.nnodesPerSector)
    (few : index.numFrozenPts ≤ 1) (whole : 8 ∣ input.ndims) (small : index.maxPoints < 2 ^ 32)
    (frozenLast : 0 < index.numFrozenPts → input.FrozenLast) (memory : Nat → Component) :
    ∃ after, index.loadFromDiskIndex format memory input.diskIndex = some after ∧
      input.ReproducedBy after := by
  obtain ⟨state, loaded, result⟩ := loadFromDiskIndex_eq several index memory
  rw [if_neg (by omega)] at result
  refine ⟨_, result, ?_⟩
  obtain static | dynamic := Nat.eq_zero_or_pos index.numFrozenPts
  · have stays : (index.install input.header state).repositionFrozenPointToEnd format =
        index.install input.header state := if_pos static
    rw [stays]
    exact reproducedBy_static dims room loaded whole static
  · exact reproducedBy_dynamic dims room loaded whole (by omega) (frozenLast dynamic)

/-- What must hold when a disk index is reproduced over any memory. -/
theorem of_reproducedBy [Nontrivial Component] (several : 0 < input.shape.nnodesPerSector)
    (few : index.numFrozenPts ≤ 1)
    (reproduced : ∀ memory, ∃ after, index.loadFromDiskIndex format memory input.diskIndex =
      some after ∧ input.ReproducedBy after) :
    8 ∣ input.ndims ∧ index.maxPoints < 2 ^ 32 ∧
      (0 < index.numFrozenPts → input.FrozenLast) := by
  have nonempty := input.nonempty
  have fewNodes := input.few
  obtain ⟨value, nonzero⟩ := exists_ne (zeroComponent format)
  obtain ⟨after, result, good⟩ := reproduced fun _ => value
  obtain ⟨state, loaded, expected⟩ := loadFromDiskIndex_eq several index fun _ => value
  rw [result] at expected
  split at expected
  · exact absurd expected.symm (Option.some_ne_none _).symm
  · rename_i small
    obtain rfl := Option.some.inj expected
    have there : input.nodes[input.nodes.length - 1]? = some input.nodes[input.nodes.length - 1] :=
      List.getElem?_eq_getElem (by omega)
    have padded := good.vectors _ _ there
    obtain static | dynamic := Nat.eq_zero_or_pos index.numFrozenPts
    · have stays : (index.install input.header state).repositionFrozenPointToEnd format =
          index.install input.header state := if_pos static
      have location : input.locationOf (index.install input.header state)
          (input.nodes.length - 1) = input.nodes.length - 1 :=
        if_neg fun frozen => absurd static frozen.1.ne'
      rw [stays, location] at padded
      refine ⟨dvd_of_vectors dims nonzero loaded rfl there padded, by omega, fun frozen => ?_⟩
      omega
    · have one : index.numFrozenPts = 1 := by omega
      have frozenLast := frozenLast_of_reproducedBy room loaded one good
      refine ⟨?_, by omega, fun _ => frozenLast⟩
      have last := frozenLast.last
      have ndIs : (index.install input.header state).nd = input.medoid := by
        show input.nodes.length - index.numFrozenPts = _
        omega
      have below : input.medoid < index.maxPoints := by omega
      have kept := @Index.repositionFrozenPointToEnd_tables _ _ format
        (index.install input.header state)
      have moved := @Index.repositionFrozenPointToEnd_frozen _ _ format
        (index.install input.header state) (ndIs.le.trans below.le) dynamic ndIs.symm
      rw [ndIs] at moved
      generalize (index.install input.header state).repositionFrozenPointToEnd format = after
        at kept moved padded
      obtain ⟨tables, frozenSame, -, dimSame, -⟩ := kept
      have capacity : after.maxPoints = index.maxPoints :=
        (congrArg IndexTables.maxPoints tables).trans rfl
      have here : input.locationOf after (input.nodes.length - 1) = index.maxPoints := by
        unfold locationOf
        rw [capacity]
        exact if_pos ⟨frozenSame.symm ▸ dynamic, frozenLast.frozen, by omega⟩
      have aligned : after.alignedDim = index.alignedDim := by
        unfold Index.alignedDim
        rw [dimSame]
        rfl
      rw [here, aligned] at padded
      have lastRow : after.data index.maxPoints =
          rowAt state.data index.alignedDim (input.nodes.length - 1) := by
        rw [show input.nodes.length - 1 = input.medoid by omega]
        exact moved.2.2.2.2
      exact dvd_of_vectors dims nonzero loaded lastRow there padded

end Loaded

/-! ### A new index -/

/-- `load_from_disk_index` reproduces what `create_disk_layout` has written, whatever `_data`
held, exactly when no row is padded, the capacity fits 32 bits and the last node of the file is
the frozen point of a dynamic index. -/
theorem loadFromDiskIndex_reproduces_iff [Nontrivial Component]
    (input : DiskInput format tagFormat) (several : 0 < input.shape.nnodesPerSector)
    (previousTags : Option Bytes) {maxPoints : Nat} (room : input.nodes.length ≤ maxPoints)
    (dynamicIndex saveIndexInOneFile enableTags : Bool) :
    (∀ memory, ∃ files after,
      createDiskLayout format.width tagFormat.width input.memIndexFile input.baseFile
        input.tagFile previousTags = some files ∧
      (Index.create input.ndims maxPoints dynamicIndex saveIndexInOneFile enableTags
        memory).loadFromDiskIndex format memory files.index = some after ∧
      input.ReproducedBy after) ↔
    8 ∣ input.ndims ∧ maxPoints < 2 ^ 32 ∧ (dynamicIndex = true → input.FrozenLast) := by
  have nonempty := input.nonempty
  obtain ⟨tags, created⟩ := input.createDiskLayout_index previousTags
  -- What the constructor leaves in `_data` is not read.
  have fresh (memory : Nat → Component) : (Index.create input.ndims maxPoints dynamicIndex
      saveIndexInOneFile enableTags memory).loadFromDiskIndex format memory input.diskIndex =
        (Index.create input.ndims maxPoints dynamicIndex saveIndexInOneFile enableTags
          fun _ => zeroComponent format).loadFromDiskIndex format memory input.diskIndex := rfl
  have capacity : (Index.create input.ndims maxPoints dynamicIndex saveIndexInOneFile enableTags
      fun _ => zeroComponent format : Index Component Nat).maxPoints = maxPoints :=
    if_neg (by omega)
  have frozen : (Index.create input.ndims maxPoints dynamicIndex saveIndexInOneFile enableTags
      fun _ => zeroComponent format : Index Component Nat).numFrozenPts =
        if dynamicIndex then 1 else 0 := rfl
  have dims : (Index.create input.ndims maxPoints dynamicIndex saveIndexInOneFile enableTags
      fun _ => zeroComponent format : Index Component Nat).dim = input.ndims := rfl
  have few : (if dynamicIndex then 1 else 0) ≤ 1 := by split <;> omega
  have isDynamic : 0 < (if dynamicIndex then 1 else 0) ↔ dynamicIndex = true := by
    cases dynamicIndex <;> simp
  rw [← frozen] at few isDynamic
  rw [← isDynamic]
  rw [← capacity] at room
  constructor
  · intro reproduced
    have all := of_reproducedBy dims room several few fun memory => by
      obtain ⟨files, after, written, result, good⟩ := reproduced memory
      rw [created] at written
      obtain rfl := Option.some.inj written
      exact ⟨after, (fresh memory).symm.trans result, good⟩
    rwa [capacity] at all
  · rintro ⟨whole, small, frozenLast⟩ memory
    obtain ⟨after, result, good⟩ := exists_reproducedBy dims room several few whole
      (capacity.symm ▸ small) frozenLast memory
    exact ⟨_, after, created, (fresh memory).trans result, good⟩

theorem two_lt_word : 2 < 2 ^ 32 := by decide

theorem zero_lt_long : 0 < 2 ^ 64 := Nat.two_pow_pos 64

theorem forty_lt_long : 40 < 2 ^ 64 := by decide

theorem one_lt_int : 1 < 2 ^ 31 := Nat.one_lt_two_pow (Nat.succ_ne_zero 30)

/-- Two points of so many bytes that are neighbours of each other. -/
def pairOf (ndims : Nat) (few : ndims < 2 ^ 32) (first second : BitVec (8 * 1)) :
    DiskInput (Format.bits 1) (Format.bits 4) where
  ndims := ndims
  width := 1
  medoid := 0
  frozenPts := 0
  indexSize := 40
  nodes := [(List.replicate ndims first, [1]), (List.replicate ndims second, [0])]
  tags := none
  nonempty := Nat.two_pos
  few := two_lt_word
  ndimsFits := few
  widthFits := one_lt_word
  medoidFits := zero_lt_word
  frozenFits := zero_lt_long
  sizeFits := forty_lt_long
  componentLen := one_lt_int
  coords node member := by
    obtain rfl | last := List.mem_cons.mp member
    · exact List.length_replicate
    · obtain rfl := List.mem_singleton.mp last
      exact List.length_replicate
  linked node member := by
    obtain rfl | last := List.mem_cons.mp member
    · exact List.cons_ne_nil _ _
    · obtain rfl := List.mem_singleton.mp last
      exact List.cons_ne_nil _ _
  storable node member := by
    have one (nbr : Nat) (small : nbr < 2) : Storable [nbr] :=
      ⟨one_lt_word, fun other here => by
        obtain rfl := List.mem_singleton.mp here
        omega⟩
    obtain rfl | last := List.mem_cons.mp member
    · exact one 1 Nat.one_lt_two
    · obtain rfl := List.mem_singleton.mp last
      exact one 0 Nat.two_pos
  tagged tags member := absurd member (Option.not_mem_none _)
  dynamic frozen := absurd frozen (Nat.lt_irrefl 0)

/-- Vectors of eight bytes are reproduced in a static index. -/
theorem pairOf_reproduces : ∃ files after,
    createDiskLayout 1 4 (pairOf 8 (by decide) 5 7).memIndexFile
      (pairOf 8 (by decide) 5 7).baseFile (pairOf 8 (by decide) 5 7).tagFile none = some files ∧
    (Index.create 8 2 false false false fun _ => 9).loadFromDiskIndex (Format.bits 1)
      (fun _ => 9) files.index = some after ∧
    (pairOf 8 (by decide) 5 7).ReproducedBy after := by
  have nontrivial : Nontrivial (BitVec (8 * 1)) := ⟨0, 1, by decide⟩
  have room : (pairOf 8 (by decide) 5 7).nodes.length ≤ 2 := Nat.le_refl 2
  exact (loadFromDiskIndex_reproduces_iff (pairOf 8 (by decide) 5 7) (by decide) none room
    false false false).mpr ⟨by decide, by decide, fun dynamic => absurd dynamic (by decide)⟩
      fun _ => 9

/-- Vectors of one byte are not: the second one is read eight bytes behind the first, where
`_data` is not written. -/
theorem pairOf_misplaced : ∃ files after,
    createDiskLayout 1 4 (pairOf 1 (by decide) 5 7).memIndexFile
      (pairOf 1 (by decide) 5 7).baseFile (pairOf 1 (by decide) 5 7).tagFile none = some files ∧
    (Index.create 1 2 false false false fun _ => 9).loadFromDiskIndex (Format.bits 1)
      (fun _ => 9) files.index = some after ∧
    after.getVectorByTag 1 = some (List.replicate 8 9) ∧
    ¬ (pairOf 1 (by decide) 5 7).ReproducedBy after := by
  obtain ⟨tags, created⟩ := (pairOf 1 (by decide) 5 7).createDiskLayout_index none
  obtain ⟨state, loaded, result⟩ := @loadFromDiskIndex_eq _ _ (Format.bits 1) (Format.bits 4)
    (pairOf 1 (by decide) 5 7) (by decide) (Index.create 1 2 false false false fun _ => 9)
    fun _ => 9
  have there : (pairOf 1 (by decide) 5 7).nodes[1]? = some ([7], [0]) := rfl
  have row : rowAt state.data 8 1 = List.replicate 8 9 := by
    refine List.eq_replicate_iff.mpr ⟨length_rowAt _ _ _, fun value member => ?_⟩
    obtain ⟨place, -, rfl⟩ := List.mem_map.mp member
    exact loaded.rest _ (show 2 * 1 ≤ 1 * 8 + place by omega)
  have byTag : ((Index.create 1 2 false false false fun _ => 9).install
      (pairOf 1 (by decide) 5 7).header state).getVectorByTag 1 = some (List.replicate 8 9) := by
    unfold Index.getVectorByTag
    show (state.tagToLocation 1).map (rowAt state.data 8) = _
    rw [(loaded.nodes 1 _ there Nat.one_lt_two).2.2, Option.map_some, row]
  have small : ¬ ((pairOf 1 (by decide) 5 7).nodes.length -
      (Index.create 1 2 false false false fun _ => 9 : Index (BitVec (8 * 1)) Nat).numFrozenPts <
        (Index.create 1 2 false false false fun _ => 9 : Index (BitVec (8 * 1)) Nat).maxPoints ∧
      2 ^ 32 ≤ (Index.create 1 2 false false false fun _ => 9 :
        Index (BitVec (8 * 1)) Nat).maxPoints) :=
    fun full => absurd full.1 (Nat.lt_irrefl 2)
  rw [if_neg small] at result
  refine ⟨_, _, created, result, byTag, fun good => ?_⟩
  have expected := good.byTag 1 _ there rfl
  have same := Option.some.inj (byTag.symm.trans expected)
  have first : (9 : BitVec (8 * 1)) = 7 := Option.some.inj (congrArg List.head? same)
  exact absurd first (by decide)

end DiskInput

end OdinVector
