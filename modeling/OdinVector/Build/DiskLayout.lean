/-
This file models `create_disk_layout` and the functions that find a record in the file
that it writes. Nodes that are shorter than a sector share one; a longer node starts at
a sector of its own. A list that is longer than the width is cut, and the reader skips
the rest of it.

The index and the vectors are one stream each. A tag file that is named exists.
-/

import OdinVector.Build.CachedIo
import OdinVector.InMemory.GraphFile
import OdinVector.Merge.Files

namespace OdinVector

open Binary

/-- `read_blk_size`. -/
def diskBlkSize : Nat := 64 * 1024 * 1024

/-! ### Writing -/

/-- The sizes that `create_disk_layout` works with. -/
structure DiskShape where
  npts : Nat
  /-- `ndims_64 * sizeof(T)`. -/
  coordsLen : Nat
  width : Nat

namespace DiskShape

variable (shape : DiskShape)

/-- `max_node_len`. -/
def maxNodeLen : Nat := (shape.width + 1) * 4 + shape.coordsLen

/-- `nnodes_per_sector`, 0 when a node is longer than a sector. -/
def nnodesPerSector : Nat := sectorLen / shape.maxNodeLen

/-- `nsectors_per_node`. -/
def nsectorsPerNode : Nat := divRoundUp shape.maxNodeLen sectorLen

/-- `n_sectors`, without the first. -/
def nSectors : Nat :=
  if 0 < shape.nnodesPerSector then
    roundUp shape.npts shape.nnodesPerSector / shape.nnodesPerSector
  else shape.npts * shape.nsectorsPerNode

/-- The list and the vector that come next. -/
structure Source where
  vamana : Bytes
  base : CachedIfstream

/-- What is read of a node: the length of its list, its vector, and as much of its list as the
width allows. -/
structure ReadNode where
  nnbrs : Nat
  coords : Bytes
  nhood : List Nat

/-- The next node. -/
def readNode (source : Source) : Option (ReadNode × Source) :=
  (readWord 4 source.vamana).bind fun (nnbrs, vamana) =>
    (readAll (readWord 4) (min nnbrs shape.width) vamana).bind fun (nhood, vamana) =>
      let vamana :=
        if shape.width < nnbrs then vamana.drop ((nnbrs - shape.width) * 4) else vamana
      (source.base.read shape.coordsLen).map fun (coords, base) =>
        (⟨nnbrs, coords, nhood⟩, ⟨vamana, base⟩)

/-- A node in a buffer: its vector, the length of its list, its list. -/
def putNode (buf : Bytes) (node : ReadNode) : Bytes :=
  let buf := writeAt buf 0 node.coords
  let buf := writeAt buf shape.coordsLen (bytesOf 4 (min node.nnbrs shape.width))
  writeAt buf (shape.coordsLen + 4) (wordsOf 4 node.nhood)

/-- The loop that fills a sector; a node without neighbours ends the program. -/
def fillSector : Nat → Nat → Nat → Bytes → Source → Option (Bytes × Nat × Source)
  | 0, _, curNodeId, sectorBuf, source => some (sectorBuf, curNodeId, source)
  | left + 1, sectorNodeId, curNodeId, sectorBuf, source =>
    if curNodeId < shape.npts then
      (shape.readNode source).bind fun (node, source) =>
        if node.nnbrs = 0 then none
        else
          let nodeBuf := shape.putNode (List.replicate shape.maxNodeLen 0) node
          fillSector left (sectorNodeId + 1) (curNodeId + 1)
            (writeAt sectorBuf (sectorNodeId * shape.maxNodeLen) nodeBuf) source
    else some (sectorBuf, curNodeId, source)

/-- The loop over sectors of several nodes. -/
def writeSectors : Nat → Nat → Source → CachedOfstream → Option CachedOfstream
  | 0, _, _, writer => some writer
  | left + 1, curNodeId, source, writer =>
    (shape.fillSector shape.nnodesPerSector 0 curNodeId (List.replicate sectorLen 0) source).bind
      fun (sectorBuf, curNodeId, source) =>
        writeSectors left curNodeId source (writer.write sectorBuf)

/-- The loop over nodes of several sectors. -/
def writeNodes : Nat → Source → CachedOfstream → Option CachedOfstream
  | 0, _, writer => some writer
  | left + 1, source, writer =>
    (shape.readNode source).bind fun (node, source) =>
      let multisectorBuf :=
        shape.putNode (List.replicate (shape.nsectorsPerNode * sectorLen) 0) node
      writeNodes left source (writer.write multisectorBuf)

end DiskShape

/-- `load_bin` and `save_bin` of tags of `tagLen` bytes, over what the file has. -/
def copyTags (tagLen npts : Nat) (tagFile : Bytes) (previous : Option Bytes) : Option Bytes :=
  (readWord 4 tagFile).bind fun (nr, rest) =>
    (readWord 4 rest).bind fun (nc, rest) =>
      (readBytes (nr * nc * tagLen) rest).bind fun (tags, _) =>
        if nr ≠ npts ∧ nc ≠ 1 then none
        else some (writeAt (previous.getD []) 0 (bytesOf 4 nr ++ bytesOf 4 nc ++ tags))

/-- The files that `create_disk_layout` writes. -/
structure DiskLayoutFiles where
  index : Bytes
  tags : Option Bytes

/-- `create_disk_layout` for components of `componentLen` bytes; the output file is removed first,
the file of the tags is not. -/
def createDiskLayout (componentLen tagLen : Nat) (memIndexFile baseFile : Bytes)
    (tagFile previousTags : Option Bytes) : Option DiskLayoutFiles :=
  ((CachedIfstream.openFile baseFile diskBlkSize).readWord 4).bind fun (npts, base) =>
    (base.readWord 4).bind fun (ndims, base) =>
      (readHeader memIndexFile).bind fun (header, vamana) =>
        let shape : DiskShape := ⟨npts, ndims * componentLen, header.width⟩
        let writer := (CachedOfstream.openLater none).write (List.replicate sectorLen 0)
        let written :=
          if 0 < shape.nnodesPerSector then
            shape.writeSectors shape.nSectors 0 ⟨vamana, base⟩ writer
          else shape.writeNodes npts ⟨vamana, base⟩ writer
        written.bind fun (writer : CachedOfstream) =>
          let size := (shape.nSectors + 1) * sectorLen
          let frozenLoc := if header.frozenPts = 1 then header.ep else 0
          let outputFileMeta := [npts, ndims, header.ep, shape.maxNodeLen, shape.nnodesPerSector,
            header.frozenPts, frozenLoc, size, size]
          let index := writeAt writer.close 0
            (bytesOf 4 outputFileMeta.length ++ bytesOf 4 1 ++ wordsOf 8 outputFileMeta)
          if 0 < header.frozenPts ∨ tagFile ≠ none then
            tagFile.bind fun tagFile =>
              (copyTags tagLen npts tagFile previousTags).map fun tags => ⟨index, some tags⟩
          else some ⟨index, none⟩

/-! ### Reading -/

/-- `kMaxElemInAPage`. -/
def kMaxElemInAPage : Nat := 16

/-- The fields that `load` reads from the header of the disk index. -/
structure DiskHeader where
  diskNnodes : Nat
  dataDim : Nat
  medoid : Nat
  maxNodeLen : Nat
  nnodesPerSector : Nat
  maxDegree : Nat

/-- The header in `load`. It goes on when the nodes of a sector fit `PageArr`. -/
def loadHeader (componentLen : Nat) (file : Bytes) : Option (DiskHeader × Bool) :=
  (readWord 4 file).bind fun (_, rest) =>
    (readWord 4 rest).bind fun (_, rest) =>
      (readWord 8 rest).bind fun (diskNnodes, rest) =>
        (readWord 8 rest).bind fun (diskNdims, rest) =>
          (readWord 8 rest).bind fun (medoid, rest) =>
            (readWord 8 rest).bind fun (maxNodeLen, rest) =>
              (readWord 8 rest).map fun (nnodesPerSector, _) =>
                ({ diskNnodes := diskNnodes
                   dataDim := diskNdims
                   medoid := medoid
                   maxNodeLen := maxNodeLen
                   nnodesPerSector := nnodesPerSector
                   maxDegree := (maxNodeLen - diskNdims * componentLen) / 4 - 1 },
                  nnodesPerSector ≤ kMaxElemInAPage)

namespace DiskHeader

variable (header : DiskHeader)

/-- `loc_sector_no`. -/
def locSectorNo (loc : Nat) : Nat :=
  1 + if 0 < header.nnodesPerSector then loc / header.nnodesPerSector
    else loc * divRoundUp header.maxNodeLen sectorLen

/-- `offset_to_loc`, from the start of the sectors of the location. -/
def offsetToLoc (loc : Nat) : Nat :=
  if header.nnodesPerSector = 0 then 0
  else loc % header.nnodesPerSector * header.maxNodeLen

/-- `size_per_io`. -/
def sizePerIo : Nat :=
  sectorLen * if 0 < header.nnodesPerSector then 1 else divRoundUp header.maxNodeLen sectorLen

/-- Where the record of a location starts in the file. -/
def recordStart (loc : Nat) : Nat :=
  header.locSectorNo loc * sectorLen + header.offsetToLoc loc

/-- The sectors of a location. -/
def readSectors (file : Bytes) (loc : Nat) : Bytes :=
  (file.drop (header.locSectorNo loc * sectorLen)).take header.sizePerIo

variable {Component : Type} (format : Format Component)

/-- `offset_to_node_coords`. -/
def nodeCoords (nodeBuf : Bytes) : List Component :=
  arrayAt format.decode format.width header.dataDim nodeBuf

/-- `offset_to_node_nhood`. -/
def nodeNhood (nodeBuf : Bytes) : Bytes :=
  nodeBuf.drop (header.dataDim * format.width)

/-- `DiskNode` of a location in its sectors. -/
def diskNode (sectorBuf : Bytes) (loc : Nat) : DiskNode (List Component) :=
  let nodeBuf := sectorBuf.drop (header.offsetToLoc loc)
  let nhood := header.nodeNhood format nodeBuf
  { coords := header.nodeCoords format nodeBuf
    nbrs := arrayAt valueOf 4 (valueOf (nhood.take 4)) (nhood.drop 4) }

end DiskHeader

end OdinVector
