/-
This file proves that a disk index decodes to what it was made of. The sectors of a
location and the place in them, as the reader computes them, are where the writer has
put the record; the records of different locations lie apart.
-/

import OdinVector.Build.DiskSectors

namespace OdinVector

open Binary

/-! ### The sectors of a location -/

namespace DiskShape

variable {shape : DiskShape}

/-- The nodes of a sector. -/
theorem drop_sectorsOf {left place : Nat} {nodes : List (Bytes × List Nat)}
    (suit : ∀ node ∈ nodes, shape.Suits node) (inside : place < left) :
    ∃ rest, (shape.sectorsOf left nodes).drop (place * sectorLen) =
      shape.packed ((nodes.drop (place * shape.nnodesPerSector)).take shape.nnodesPerSector) ++
        rest := by
  induction place generalizing left nodes with
  | zero =>
    obtain ⟨left, rfl⟩ : ∃ more, left = more + 1 := ⟨left - 1, by omega⟩
    refine ⟨shape.sectorsOf left (nodes.drop shape.nnodesPerSector), ?_⟩
    rw [Nat.zero_mul, Nat.zero_mul, List.drop_zero, List.drop_zero]
    rfl
  | succ place inductionHypothesis =>
    obtain ⟨left, rfl⟩ : ∃ more, left = more + 1 := ⟨left - 1, by omega⟩
    have fits : (nodes.take shape.nnodesPerSector).length * shape.maxNodeLen ≤ sectorLen := by
      rw [List.length_take]
      exact (Nat.mul_le_mul_right _ (Nat.min_le_left _ _)).trans (Nat.div_mul_le_self _ _)
    have length := length_packed (fun node member => suit node (List.mem_of_mem_take member)) fits
    obtain ⟨rest, same⟩ := @inductionHypothesis left (nodes.drop shape.nnodesPerSector)
      (fun node member => suit node (List.mem_of_mem_drop member)) (by omega)
    refine ⟨rest, ?_⟩
    unfold sectorsOf
    have split : (place + 1) * sectorLen =
        (shape.packed (nodes.take shape.nnodesPerSector)).length + place * sectorLen := by
      rw [length]
      ring
    rw [split, ← List.drop_drop, List.drop_left, same, List.drop_drop, Nat.add_comm,
      ← Nat.succ_mul]

theorem div_lt_nSectors (positive : 0 < shape.nnodesPerSector) {loc : Nat}
    (inside : loc < shape.npts) : loc / shape.nnodesPerSector < shape.nSectors := by
  unfold nSectors roundUp divRoundUp
  rw [if_pos positive, Nat.mul_div_cancel _ positive]
  have whole := Nat.div_add_mod shape.npts shape.nnodesPerSector
  split
  · rename_i exact
    rw [exact, Nat.add_zero] at whole
    rw [Nat.add_zero, Nat.div_lt_iff_lt_mul positive, Nat.mul_comm]
    omega
  · have below : loc / shape.nnodesPerSector ≤ shape.npts / shape.nnodesPerSector :=
      Nat.div_le_div_right inside.le
    omega

end DiskShape

/-! ### Records lie apart -/

namespace DiskHeader

variable {header : DiskHeader}

/-- The record of a location ends before the record of the next. -/
theorem recordStart_add_le (fits : header.nnodesPerSector * header.maxNodeLen ≤ sectorLen)
    {first second : Nat} (before : first < second) :
    header.recordStart first + header.maxNodeLen ≤ header.recordStart second := by
  unfold recordStart locSectorNo offsetToLoc
  obtain none | positive := Nat.eq_zero_or_pos header.nnodesPerSector
  · have long : ¬ 0 < header.nnodesPerSector := by omega
    rw [if_pos none, if_pos none, if_neg long, if_neg long, Nat.add_zero, Nat.add_zero]
    have long : header.maxNodeLen ≤ divRoundUp header.maxNodeLen sectorLen * sectorLen :=
      le_divRoundUp_mul _ (by decide)
    have sectors : (1 + first * divRoundUp header.maxNodeLen sectorLen) * sectorLen +
        divRoundUp header.maxNodeLen sectorLen * sectorLen =
        (1 + (first + 1) * divRoundUp header.maxNodeLen sectorLen) * sectorLen := by
      ring
    have next : (1 + (first + 1) * divRoundUp header.maxNodeLen sectorLen) * sectorLen ≤
        (1 + second * divRoundUp header.maxNodeLen sectorLen) * sectorLen :=
      Nat.mul_le_mul_right _ (Nat.add_le_add_left (Nat.mul_le_mul_right _ before) 1)
    omega
  · rw [if_neg positive.ne', if_neg positive.ne', if_pos positive, if_pos positive]
    have slot := Nat.mod_lt first positive
    have slot' := Nat.mod_lt second positive
    obtain same | lower := (Nat.div_le_div_right before.le :
      first / header.nnodesPerSector ≤ second / header.nnodesPerSector).eq_or_lt
    · have whole := Nat.div_add_mod first header.nnodesPerSector
      have whole' := Nat.div_add_mod second header.nnodesPerSector
      rw [same] at whole ⊢
      have later : first % header.nnodesPerSector + 1 ≤ second % header.nnodesPerSector := by
        omega
      have scaled := Nat.mul_le_mul_right header.maxNodeLen later
      rw [Nat.succ_mul] at scaled
      omega
    · have scaled := Nat.mul_le_mul_right header.maxNodeLen (Nat.succ_le_of_lt slot)
      rw [Nat.succ_mul] at scaled
      have next : (1 + first / header.nnodesPerSector + 1) * sectorLen ≤
          (1 + second / header.nnodesPerSector) * sectorLen :=
        Nat.mul_le_mul_right _ (by omega)
      rw [Nat.succ_mul] at next
      omega

end DiskHeader

/-! ### The round trip -/

variable {Component Tag : Type} {format : Format Component} {tagFormat : Format Tag}

/-- What a disk index is made of. -/
structure DiskInput (format : Format Component) (tagFormat : Format Tag) where
  ndims : Nat
  width : Nat
  medoid : Nat
  frozenPts : Nat
  indexSize : Nat
  nodes : List (List Component × List Nat)
  /-- The tags, when a tag file is named. -/
  tags : Option (List Tag)
  nonempty : 0 < nodes.length
  few : nodes.length < 2 ^ 32
  ndimsFits : ndims < 2 ^ 32
  widthFits : width < 2 ^ 32
  medoidFits : medoid < 2 ^ 32
  frozenFits : frozenPts < 2 ^ 64
  sizeFits : indexSize < 2 ^ 64
  /-- `sizeof(T)`. -/
  componentLen : format.width < 2 ^ 31
  coords : ∀ node ∈ nodes, node.1.length = ndims
  linked : ∀ node ∈ nodes, node.2 ≠ []
  storable : ∀ node ∈ nodes, Storable node.2
  tagged : ∀ tags' ∈ tags, tags'.length = nodes.length
  dynamic : 0 < frozenPts → tags ≠ none

namespace DiskInput

variable (input : DiskInput format tagFormat)

/-- The file of the vectors. -/
def baseFile : Bytes :=
  bytesOf 4 input.nodes.length ++ bytesOf 4 input.ndims ++
    input.nodes.flatMap fun node => node.1.flatMap format.encode

/-- The file of the index in memory. -/
def memIndexFile : Bytes :=
  graphHeader input.indexSize input.width input.medoid input.frozenPts ++
    graphRecords (input.nodes.map Prod.snd)

/-- The file of the tags. -/
def tagFile : Option Bytes :=
  input.tags.map fun tags =>
    bytesOf 4 tags.length ++ bytesOf 4 1 ++ tags.flatMap tagFormat.encode

/-- The sizes of the disk index. -/
def shape : DiskShape := ⟨input.nodes.length, input.ndims * format.width, input.width⟩

/-- The nodes with the bytes of their vectors. -/
def stored : List (Bytes × List Nat) :=
  input.nodes.map fun node => (node.1.flatMap format.encode, node.2)

theorem stored_suits : ∀ node ∈ input.stored, input.shape.Suits node := by
  intro node member
  obtain ⟨original, there, rfl⟩ := List.mem_map.mp member
  refine ⟨?_, input.storable original there, input.linked original there⟩
  show (original.1.flatMap format.encode).length = input.ndims * format.width
  rw [length_flatMap_const fun value _ => format.length_encode value, input.coords original there]

/-- What `load` finds in the header. -/
def header : DiskHeader where
  diskNnodes := input.nodes.length
  dataDim := input.ndims
  medoid := input.medoid
  maxNodeLen := input.shape.maxNodeLen
  nnodesPerSector := input.shape.nnodesPerSector
  maxDegree := input.width

/-- The bytes of the nodes in the file. -/
def body : Bytes :=
  if 0 < input.shape.nnodesPerSector then
    input.shape.sectorsOf input.shape.nSectors input.stored
  else input.stored.flatMap (input.shape.slot (input.shape.nsectorsPerNode * sectorLen))

/-- The sectors of a location have its record at its place. -/
theorem readSectors_body {loc : Nat} {node : List Component × List Nat}
    (there : input.nodes[loc]? = some node) {first : Bytes} (length : first.length = sectorLen) :
    ∃ rest, (input.header.readSectors (first ++ input.body) loc).drop
      (input.header.offsetToLoc loc) =
        input.shape.record (node.1.flatMap format.encode, node.2) ++ rest := by
  have suit := input.stored_suits
  have inside : loc < input.nodes.length := (List.getElem?_eq_some_iff.mp there).1
  have there' : input.stored[loc]? = some (node.1.flatMap format.encode, node.2) := by
    unfold stored
    rw [List.getElem?_map, there]
    rfl
  have split (sectors : Nat) : (first ++ input.body).drop ((1 + sectors) * sectorLen) =
      input.body.drop (sectors * sectorLen) := by
    rw [Nat.add_mul, Nat.one_mul, ← List.drop_drop, List.drop_left' length]
  unfold DiskHeader.readSectors DiskHeader.locSectorNo DiskHeader.offsetToLoc DiskHeader.sizePerIo
  show ∃ rest, (((first ++ input.body).drop ((1 + if 0 < input.shape.nnodesPerSector then
    loc / input.shape.nnodesPerSector
    else loc * divRoundUp input.shape.maxNodeLen sectorLen) * sectorLen)).take
      (sectorLen * if 0 < input.shape.nnodesPerSector then 1
        else divRoundUp input.shape.maxNodeLen sectorLen)).drop
          (if input.shape.nnodesPerSector = 0 then 0
            else loc % input.shape.nnodesPerSector * input.shape.maxNodeLen) = _ ++ rest
  rw [split]
  obtain none | positive := Nat.eq_zero_or_pos input.shape.nnodesPerSector
  · have long : ¬ 0 < input.shape.nnodesPerSector := by omega
    have body : input.body =
        input.stored.flatMap (input.shape.slot (input.shape.nsectorsPerNode * sectorLen)) ++ [] := by
      unfold DiskInput.body
      rw [if_neg long, List.append_nil]
    have room : input.shape.maxNodeLen ≤ input.shape.nsectorsPerNode * sectorLen :=
      le_divRoundUp_mul _ (by decide)
    have place := drop_flatMap_const
      (fun other member => DiskShape.length_slot (suit other member) room) [] there'
    have count : loc * divRoundUp input.shape.maxNodeLen sectorLen * sectorLen =
        loc * (input.shape.nsectorsPerNode * sectorLen) := Nat.mul_assoc _ _ _
    rw [if_neg long, if_neg long, if_pos none, List.drop_zero, body, count, place]
    have size : sectorLen * divRoundUp input.shape.maxNodeLen sectorLen =
        (input.shape.slot (input.shape.nsectorsPerNode * sectorLen)
          (node.1.flatMap format.encode, node.2)).length := by
      rw [DiskShape.length_slot (suit _ (List.mem_of_getElem? there')) room, Nat.mul_comm]
      rfl
    rw [size, List.take_left]
    exact ⟨_, rfl⟩
  · have body : input.body = input.shape.sectorsOf input.shape.nSectors input.stored :=
      if_pos positive
    obtain ⟨rest, sector⟩ := DiskShape.drop_sectorsOf suit
      (DiskShape.div_lt_nSectors positive inside)
    have few : ((input.stored.drop (loc / input.shape.nnodesPerSector *
        input.shape.nnodesPerSector)).take input.shape.nnodesPerSector).length *
          input.shape.maxNodeLen ≤ sectorLen := by
      rw [List.length_take]
      exact (Nat.mul_le_mul_right _ (Nat.min_le_left _ _)).trans (Nat.div_mul_le_self _ _)
    have suit' : ∀ other ∈ (input.stored.drop (loc / input.shape.nnodesPerSector *
        input.shape.nnodesPerSector)).take input.shape.nnodesPerSector,
          input.shape.Suits other := fun other member =>
      suit other (List.mem_of_mem_drop (List.mem_of_mem_take member))
    have place : ((input.stored.drop (loc / input.shape.nnodesPerSector *
        input.shape.nnodesPerSector)).take
          input.shape.nnodesPerSector)[loc % input.shape.nnodesPerSector]? =
            some (node.1.flatMap format.encode, node.2) := by
      rw [List.getElem?_take_of_lt (Nat.mod_lt _ positive), List.getElem?_drop, Nat.mul_comm,
        Nat.div_add_mod]
      exact there'
    have record := drop_flatMap_const
      (fun other member => DiskShape.length_slot (suit' other member) (Nat.le_refl _))
      (List.replicate (sectorLen - ((input.stored.drop (loc / input.shape.nnodesPerSector *
        input.shape.nnodesPerSector)).take input.shape.nnodesPerSector).length *
          input.shape.maxNodeLen) 0) place
    rw [if_pos positive, if_pos positive, if_neg positive.ne', body, sector, Nat.mul_one,
      List.take_left' (DiskShape.length_packed suit' few)]
    unfold DiskShape.packed
    rw [record]
    unfold DiskShape.slot
    exact ⟨_, List.append_assoc _ _ _⟩

/-- A record is decoded to its vector and its list. -/
theorem decode_record {node : List Component × List Nat} (member : node ∈ input.nodes)
    {sectorBuf rest : Bytes} {loc : Nat}
    (place : sectorBuf.drop (input.header.offsetToLoc loc) =
      input.shape.record (node.1.flatMap format.encode, node.2) ++ rest) :
    input.header.diskNode format sectorBuf loc = ⟨node.1, node.2.take input.width⟩ := by
  have dimension := input.coords node member
  have storable := input.storable node member
  have few : min node.2.length input.width < 256 ^ 4 :=
    Nat.lt_of_le_of_lt (Nat.min_le_left _ _) storable.length
  have coordsLen : (node.1.flatMap format.encode).length = input.ndims * format.width := by
    rw [length_flatMap_const fun value _ => format.length_encode value, dimension]
  have record : input.shape.record (node.1.flatMap format.encode, node.2) ++ rest =
      node.1.flatMap format.encode ++ (bytesOf 4 (min node.2.length input.width) ++
        (wordsOf 4 (node.2.take input.width) ++ rest)) := by
    show _ ++ _ ++ _ ++ _ = _
    rw [List.append_assoc, List.append_assoc]
    rfl
  have coords : input.header.nodeCoords format
      (input.shape.record (node.1.flatMap format.encode, node.2) ++ rest) = node.1 := by
    unfold DiskHeader.nodeCoords
    show arrayAt format.decode format.width input.ndims _ = _
    rw [record, ← dimension]
    exact arrayAt_flatMap (fun value _ => format.length_encode value)
      (fun value _ => format.decode_encode value) _
  have nhood : input.header.nodeNhood format
      (input.shape.record (node.1.flatMap format.encode, node.2) ++ rest) =
      bytesOf 4 (min node.2.length input.width) ++
        (wordsOf 4 (node.2.take input.width) ++ rest) := by
    unfold DiskHeader.nodeNhood
    rw [record]
    exact List.drop_left' coordsLen
  have count : min node.2.length input.width = (node.2.take input.width).length := by
    rw [List.length_take, Nat.min_comm]
  unfold DiskHeader.diskNode
  dsimp only
  rw [place, coords, nhood, List.take_left' (length_bytesOf 4 _),
    List.drop_left' (length_bytesOf 4 _), valueOf_bytesOf few, count]
  unfold wordsOf
  rw [arrayAt_flatMap (fun value _ => length_bytesOf 4 value) (fun nbr inside =>
    valueOf_bytesOf (by exact storable.ids nbr (List.mem_of_mem_take inside)))]

/-! ### The files -/

/-- The bytes that `save_bin` writes over the first sector. -/
def metaBytes : Bytes :=
  let size := (input.shape.nSectors + 1) * sectorLen
  let frozenLoc := if input.frozenPts = 1 then input.medoid else 0
  bytesOf 4 9 ++ bytesOf 4 1 ++ wordsOf 8 [input.nodes.length, input.ndims, input.medoid,
    input.shape.maxNodeLen, input.shape.nnodesPerSector, input.frozenPts, frozenLoc, size, size]

theorem length_metaBytes : input.metaBytes.length = 80 := by
  unfold metaBytes
  dsimp only
  rw [List.length_append, List.length_append, length_bytesOf, length_bytesOf, length_wordsOf]
  rfl

theorem copyTags_tagFile {tags : List Tag} (named : input.tags = some tags)
    (previous : Option Bytes) :
    ∃ copied, copyTags tagFormat.width input.nodes.length
      (bytesOf 4 tags.length ++ bytesOf 4 1 ++ tags.flatMap tagFormat.encode) previous =
        some copied := by
  have length := input.tagged tags named
  have few : tags.length < 256 ^ 4 := by
    rw [length]
    exact input.few
  have all : (tags.flatMap tagFormat.encode).length = tags.length * 1 * tagFormat.width := by
    rw [length_flatMap_const fun tag _ => tagFormat.length_encode tag, Nat.mul_one]
  have read := readBytes_append all []
  rw [List.append_nil] at read
  unfold copyTags
  rw [List.append_assoc, readWord_append few, Option.bind_some]
  dsimp only
  rw [readWord_append (by decide), Option.bind_some]
  dsimp only
  rw [read, Option.bind_some]
  dsimp only
  rw [if_neg (fun wrong => wrong.1 length)]
  exact ⟨_, rfl⟩

/-- The disk index is the header in a sector of its own, and the nodes. -/
theorem createDiskLayout_index (previousTags : Option Bytes) :
    ∃ tags, createDiskLayout format.width tagFormat.width input.memIndexFile input.baseFile
      input.tagFile previousTags =
        some ⟨input.metaBytes ++ List.replicate (sectorLen - 80) 0 ++ input.body, tags⟩ := by
  have start := CachedIfstream.remaining_openFile input.baseFile diskBlkSize
  have file : input.baseFile = bytesOf 4 input.nodes.length ++ (bytesOf 4 input.ndims ++
      input.nodes.flatMap fun node => node.1.flatMap format.encode) := List.append_assoc _ _ _
  obtain ⟨first, read, rest⟩ :=
    CachedIfstream.readWord_append (by exact input.few) (start.trans file)
  obtain ⟨second, read', rest'⟩ :=
    CachedIfstream.readWord_append (by exact input.ndimsFits) rest
  have header := readHeader_append input.sizeFits input.widthFits input.medoidFits
    input.frozenFits (graphRecords (input.nodes.map Prod.snd))
  have streams : DiskShape.Streams input.stored
      ⟨graphRecords (input.nodes.map Prod.snd), second⟩ := by
    constructor
    · show (input.nodes.map Prod.snd).flatMap graphRecord = _
      unfold stored
      rw [List.flatMap_map, List.flatMap_map]
    · show second.remaining = _
      unfold stored
      rw [rest', List.flatMap_map]
  have blank := (CachedOfstream.wrote_openLater none).write
    (List.replicate sectorLen 0)
  rw [List.nil_append] at blank
  have count : 0 + input.stored.length = input.shape.npts := by
    rw [Nat.zero_add]
    exact List.length_map _
  obtain ⟨writer, written, wrote⟩ : ∃ writer,
      (if 0 < input.shape.nnodesPerSector then
        input.shape.writeSectors input.shape.nSectors 0
          ⟨graphRecords (input.nodes.map Prod.snd), second⟩
          ((CachedOfstream.openLater none).write (List.replicate sectorLen 0))
      else input.shape.writeNodes input.nodes.length
          ⟨graphRecords (input.nodes.map Prod.snd), second⟩
          ((CachedOfstream.openLater none).write (List.replicate sectorLen 0))) =
        some writer ∧ writer.Wrote [] (List.replicate sectorLen 0 ++ input.body) := by
    unfold body
    split
    · exact DiskShape.writeSectors_eq input.stored_suits streams count blank
    · have nodes := DiskShape.writeNodes_eq input.stored_suits streams blank
      have length : input.stored.length = input.nodes.length := List.length_map _
      rw [length] at nodes
      exact nodes
  have zeros : (List.replicate sectorLen (0 : UInt8)).length = sectorLen := List.length_replicate
  have rewritten : writeAt writer.close 0 input.metaBytes =
      input.metaBytes ++ List.replicate (sectorLen - 80) 0 ++ input.body := by
    have inside : 80 ≤ (List.replicate sectorLen (0 : UInt8)).length := by
      rw [zeros]
      decide
    rw [wrote.close, List.drop_nil, List.append_nil, writeAt_zero, length_metaBytes,
      List.drop_append_of_le_length inside, List.drop_replicate, List.append_assoc]
  unfold createDiskLayout
  rw [read, Option.bind_some]
  dsimp only
  rw [read', Option.bind_some]
  dsimp only
  unfold memIndexFile
  rw [header, Option.bind_some]
  dsimp only
  unfold shape at written
  rw [written, Option.bind_some]
  unfold tagFile
  cases named : input.tags with
  | none =>
    have static : ¬ 0 < input.frozenPts := fun frozen => input.dynamic frozen named
    rw [Option.map_none, if_neg (by simpa using static)]
    refine ⟨none, ?_⟩
    show some (DiskLayoutFiles.mk (writeAt writer.close 0 input.metaBytes) none) = _
    rw [rewritten]
  | some tags =>
    obtain ⟨copied, copy⟩ := input.copyTags_tagFile named previousTags
    rw [Option.map_some, if_pos (Or.inr nofun), Option.bind_some, copy, Option.map_some]
    refine ⟨some copied, ?_⟩
    show some (DiskLayoutFiles.mk (writeAt writer.close 0 input.metaBytes) _) = _
    rw [rewritten]

/-- The header is read back. -/
theorem loadHeader_metaBytes (rest : Bytes) :
    loadHeader format.width (input.metaBytes ++ rest) =
      some (input.header, decide (input.header.nnodesPerSector ≤ kMaxElemInAPage)) := by
  have nodes : input.nodes.length < 256 ^ 8 := input.few.trans (by decide)
  have ndims : input.ndims < 256 ^ 8 := input.ndimsFits.trans (by decide)
  have medoid : input.medoid < 256 ^ 8 := input.medoidFits.trans (by decide)
  have maxNodeLen : input.shape.maxNodeLen < 256 ^ 8 := by
    have component := input.componentLen
    have width := input.widthFits
    have product : input.ndims * format.width ≤ 2 ^ 32 * 2 ^ 31 :=
      Nat.mul_le_mul input.ndimsFits.le component.le
    show (input.width + 1) * 4 + input.ndims * format.width < _
    omega
  have perSector : input.shape.nnodesPerSector < 256 ^ 8 :=
    Nat.lt_of_le_of_lt (Nat.div_le_self _ _) (by decide)
  have degree : (input.shape.maxNodeLen - input.ndims * format.width) / 4 - 1 = input.width := by
    show ((input.width + 1) * 4 + input.ndims * format.width - input.ndims * format.width) / 4 - 1 =
      input.width
    rw [Nat.add_sub_cancel, Nat.mul_div_cancel _ (by decide), Nat.add_sub_cancel]
  unfold loadHeader metaBytes wordsOf
  simp only [List.flatMap_cons, List.append_assoc]
  rw [readWord_append (by decide), Option.bind_some]
  dsimp only
  rw [readWord_append (by decide), Option.bind_some]
  dsimp only
  rw [readWord_append nodes, Option.bind_some]
  dsimp only
  rw [readWord_append ndims, Option.bind_some]
  dsimp only
  rw [readWord_append medoid, Option.bind_some]
  dsimp only
  rw [readWord_append maxNodeLen, Option.bind_some]
  dsimp only
  rw [readWord_append perSector, Option.map_some]
  dsimp only
  rw [degree]
  rfl

/-- A file in which every node is found with its list cut to the width, by a header with this
width, and the records of different nodes lie apart. -/
structure DecodedBy (file : Bytes) (header : DiskHeader) : Prop where
  nodes : ∀ loc node, input.nodes[loc]? = some node →
    header.diskNode format (header.readSectors file loc) loc = ⟨node.1, node.2.take input.width⟩
  apart : ∀ first second, first ≠ second →
    header.recordStart first + header.maxNodeLen ≤ header.recordStart second ∨
      header.recordStart second + header.maxNodeLen ≤ header.recordStart first
  diskNnodes : header.diskNnodes = input.nodes.length
  maxDegree : header.maxDegree = input.width

/-- The disk layout decodes to what was encoded. -/
theorem createDiskLayout_decodes (previousTags : Option Bytes) :
    ∃ files header, createDiskLayout format.width tagFormat.width input.memIndexFile
        input.baseFile input.tagFile previousTags = some files ∧
      loadHeader format.width files.index =
        some (header, decide (header.nnodesPerSector ≤ kMaxElemInAPage)) ∧
      input.DecodedBy files.index header := by
  obtain ⟨tags, created⟩ := input.createDiskLayout_index previousTags
  refine ⟨_, input.header, created, ?_, fun loc node there => ?_, fun first second differ => ?_,
    rfl, rfl⟩
  · dsimp only
    rw [List.append_assoc]
    exact input.loadHeader_metaBytes _
  · have length : (input.metaBytes ++ List.replicate (sectorLen - 80) 0).length = sectorLen := by
      rw [List.length_append, length_metaBytes, List.length_replicate]
      rfl
    obtain ⟨rest, place⟩ := input.readSectors_body there length
    exact input.decode_record (List.mem_of_getElem? there) place
  · have fits : input.header.nnodesPerSector * input.header.maxNodeLen ≤ sectorLen :=
      Nat.div_mul_le_self _ _
    obtain before | after := Nat.lt_or_gt_of_ne differ
    · exact Or.inl (DiskHeader.recordStart_add_le fits before)
    · exact Or.inr (DiskHeader.recordStart_add_le fits after)

end DiskInput

end OdinVector
