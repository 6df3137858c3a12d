import BtrfsForensic.Core.OpenedDisk
import BtrfsForensic.Core.Opening

namespace BtrfsForensic

/-! A volume of any geometry: a superblock, and one chunk that holds the tree nodes and,
behind them, the data of the files. Each tree is one sealed leaf. -/

/-! ## Sealed leaves -/

namespace Writer

section Sealed

variable {crates : Crates} {fields : NodeFields} {nodesize : Nat}
  {items : List (DiskKey × Bytes)}

theorem decode_header_tree {nritems : Nat} {level : UInt8} {rest : Bytes} :
    (Header.decode (header fields nritems level ++ rest)).generation = fields.generation ∧
      (Header.decode (header fields nritems level ++ rest)).owner = fields.owner := by
  have fsidLength := fields.fsid.property
  have whole := holds_front (header fields nritems level) rest
  generalize header fields nritems level ++ rest = block at *
  simp only [header, holds_append_iff, List.length_append, List.length_replicate,
    length_encodeLE, fsidLength, Nat.reduceAdd] at whole
  rcases whole with ⟨⟨⟨⟨_, generation⟩, owner⟩, _⟩, _⟩
  exact ⟨leU64_of_holds generation, leU64_of_holds owner⟩

theorem length_sealed {block : Bytes} (long : btrfsCsumSize < block.length) :
    (sealed crates block).length = block.length :=
  length_withChecksum long

theorem leafItems_sealed_leaf (small : nodesize < 2 ^ 32)
    (fits : btrfsHeaderSize + itemsSize items ≤ nodesize) :
    (Node.ofBlock crates (sealed crates (leaf nodesize fields items))).leafItems = items ∧
      (Node.ofBlock crates (sealed crates (leaf nodesize fields items))).crcValid =
        some true := by
  have headerSize : btrfsHeaderSize = 101 := rfl
  have csumSize : btrfsCsumSize = 32 := rfl
  have size : (leaf nodesize fields items).length = nodesize := length_leaf fits
  have long : btrfsCsumSize < (leaf nodesize fields items).length := by omega
  constructor
  · rcases header_eq fields items.length 0 with ⟨lead, place, front⟩
    have layout : leaf nodesize fields items = lead ++ (encodeLE 4 items.length ++ ([0] ++
        (itemHeaders (nodesize - btrfsHeaderSize) items ++
          (List.replicate (nodesize - (header fields items.length 0 ++
            itemHeaders (nodesize - btrfsHeaderSize) items).length -
            (itemData items).length) 0 ++ itemData items)))) := by
      rw [leaf, front]
      simp only [List.append_assoc]
    have sealedSize : (sealed crates (leaf nodesize fields items)).length = nodesize := by
      rw [length_sealed long, size]
    have moved : sealed crates (leaf nodesize fields items) =
        (leBytes32 (crates.crc32c ((leaf nodesize fields items).drop btrfsCsumSize)) ++
          lead.drop 4) ++ (encodeLE 4 items.length ++ ([0] ++
            (itemHeaders ((sealed crates (leaf nodesize fields items)).length -
              btrfsHeaderSize) items ++ (List.replicate (nodesize -
                (header fields items.length 0 ++
                  itemHeaders (nodesize - btrfsHeaderSize) items).length -
                (itemData items).length) 0 ++ itemData items)))) := by
      rw [sealedSize, ← withChecksum_append _ (by rw [place]; decide), ← layout]
      rfl
    have sealedPlace : (leBytes32 (crates.crc32c
        ((leaf nodesize fields items).drop btrfsCsumSize)) ++ lead.drop 4).length =
          Hdr.nritems := by
      rw [List.length_append, List.length_drop, place, leBytes32, length_encodeLE]
      rfl
    exact (leafItems_of_layout (by rwa [sealedSize]) sealedPlace moved).1
  · rw [Node.ofBlock_crcValid]
    exact congrArg some (verify_sealed long)

theorem decode_sealed_leaf (fits : btrfsHeaderSize + itemsSize items ≤ nodesize)
    (few : items.length < 2 ^ 32) :
    (Header.decode (sealed crates (leaf nodesize fields items))).fsid = fields.fsid ∧
      (Header.decode (sealed crates (leaf nodesize fields items))).bytenr = fields.bytenr ∧
      (Header.decode (sealed crates (leaf nodesize fields items))).owner = fields.owner ∧
      (Header.decode (sealed crates (leaf nodesize fields items))).generation =
        fields.generation ∧
      (Header.decode (sealed crates (leaf nodesize fields items))).level = 0 := by
  have long : btrfsHeaderSize ≤ (leaf nodesize fields items).length := by
    rw [length_leaf fits]
    omega
  have front : ∃ rest, leaf nodesize fields items = header fields items.length 0 ++ rest :=
    ⟨_, (List.append_assoc _ _ _).trans (List.append_assoc _ _ _)⟩
  rcases front with ⟨rest, front⟩
  rw [sealed, decode_withChecksum _ long, front]
  dsimp only
  rcases decode_header few with ⟨fsid, bytenr, _, level⟩
  rcases decode_header_tree with ⟨generation, owner⟩
  exact ⟨fsid, bytenr, owner, generation, level⟩

end Sealed

/-! ## The chunk -/

def plainEntry (logical length physical : UInt64) : ArrayEntry :=
  ⟨⟨⟨256, chunkItemKey, logical⟩, length, 0, 0, 0, 1, 1,
      [⟨1, physical, List.Vector.replicate 16 0⟩]⟩,
    List.Vector.replicate 12 0, rfl⟩

theorem chunk_eq (logical length physical : UInt64) :
    chunk length physical = chunkRecord (plainEntry logical length physical) := by
  have zeros : List.replicate 36 0 = encodeLE 8 0 ++ (encodeLE 8 0 ++
      (encodeLE 8 0 ++ List.replicate 12 0)) := by
    decide
  rw [chunk, zeros]
  simp only [List.append_assoc]
  rfl

end Writer

/-! ## Layout -/

/-- A leaf, apart from where it lies. -/
structure TreeNode where
  owner : UInt64
  generation : UInt64
  items : List (DiskKey × Bytes)

/-- A leaf of an `FS_TREE`, as the transaction of its generation left it. -/
structure LeafVersion where
  generation : UInt64
  items : List (DiskKey × Bytes)

def LeafVersion.treeNode (leaf : LeafVersion) : TreeNode where
  owner := fsTreeObjectid
  generation := leaf.generation
  items := leaf.items

/-- The chunk tree, the root tree and the current `FS_TREE` are followed by older
`FS_TREE` leaves, by the root trees that lead to them, and by `data`. -/
structure Formatted where
  logical : UInt64
  physical : UInt64
  span : UInt64
  nodesize : UInt32
  fsid : List.Vector UInt8 16
  generation : UInt64
  backups : Bytes
  current : List (DiskKey × Bytes)
  older : List LeafVersion
  data : Bytes
  length : Nat
  behind : 69632 ≤ physical.toNat
  bounded : logical.toNat + span.toNat < 2 ^ 64
  roomy : 365 ≤ nodesize.toNat
  currentFits : btrfsHeaderSize + Writer.itemsSize current ≤ nodesize.toNat
  olderFits : ∀ leaf ∈ older, btrfsHeaderSize + Writer.itemsSize leaf.items ≤ nodesize.toNat
  covered : nodesize.toNat * (2 * older.length + 3) + data.length ≤ span.toNat
  fits : physical.toNat + (nodesize.toNat * (2 * older.length + 3) + data.length) ≤ length
  short : length < usizeMax

namespace Formatted

variable (disk : Formatted)

def place (position : Nat) : UInt64 := UInt64.ofNat (disk.logical.toNat + position)

def address (index : Nat) : UInt64 := disk.place (disk.nodesize.toNat * index)

def chunkNode : TreeNode where
  owner := 3
  generation := disk.generation
  items := [(⟨256, chunkItemKey, disk.logical⟩, Writer.chunk disk.span disk.physical)]

def rootNode (generation target : UInt64) : TreeNode where
  owner := 1
  generation := generation
  items := [Disk.fsRootItem target]

def currentLeaf : LeafVersion := ⟨disk.generation, disk.current⟩

def olderRoot (entry : LeafVersion × Nat) : TreeNode :=
  rootNode entry.1.generation (disk.address (entry.2 + 3))

def nodes : List TreeNode :=
  disk.chunkNode :: rootNode disk.generation (disk.address 2) ::
    ((disk.currentLeaf :: disk.older).map LeafVersion.treeNode ++
      disk.older.zipIdx.map disk.olderRoot)

def block (crates : Crates) (node : TreeNode) (index : Nat) : Bytes :=
  Writer.sealed crates <| Writer.leaf disk.nodesize.toNat
    ⟨disk.fsid, disk.address index, node.generation, node.owner⟩ node.items

def blocks (crates : Crates) : List Bytes :=
  disk.nodes.zipIdx.map fun entry => disk.block crates entry.1 entry.2

def fields : Writer.SuperblockFields where
  fsid := disk.fsid
  generation := disk.generation
  root := disk.address 1
  chunkRoot := disk.address 0
  nodesize := disk.nodesize
  csumType := 0
  sysChunks := [(disk.logical, Writer.chunk disk.span disk.physical)]
  backups := disk.backups

def superblock (crates : Crates) : Bytes := Writer.superblock crates disk.fields

def image (crates : Crates) : Bytes :=
  Writer.image disk.length (disk.superblock crates)
    [(disk.physical.toNat, (disk.blocks crates).flatten ++ disk.data)]

def sb (crates : Crates) : Superblock := Superblock.decode crates (disk.superblock crates)

def map : ChunkMap := ⟨[⟨disk.logical, disk.span, [(1, disk.physical)]⟩]⟩

/-! ## The superblock -/

section Superblock

theorem sysChunkArray_eq :
    Writer.sysChunkArray disk.fields.sysChunks =
      [Writer.plainEntry disk.logical disk.span disk.physical].flatMap Writer.arrayEntry := by
  rw [fields, Writer.sysChunkArray, Writer.chunk_eq disk.logical]
  rfl

theorem length_sysChunkArray : (Writer.sysChunkArray disk.fields.sysChunks).length = 97 := by
  rw [sysChunkArray_eq, List.flatMap_singleton, Writer.length_arrayEntry]
  rfl

theorem sysChunkArray_fits : (Writer.sysChunkArray disk.fields.sysChunks).length ≤ 0x800 := by
  rw [length_sysChunkArray]
  decide

variable (crates : Crates)

theorem length_superblock : (disk.superblock crates).length = btrfsSuperInfoSize :=
  Writer.length_superblock _ _

theorem length_image : (disk.image crates).length = disk.length :=
  length_overlay _ _ _

theorem parse_superblock :
    Superblock.parse crates (disk.superblock crates) = .ok (disk.sb crates) := by
  have magic : u8Array (disk.superblock crates) magicOffset 8 = btrfsMagic :=
    Writer.magic_superblock disk.sysChunkArray_fits
  apply Superblock.parse_eq_ok magic
  rw [length_superblock]
  decide

theorem describes_sb :
    (disk.sb crates).fsid = disk.fsid ∧ (disk.sb crates).root = disk.address 1 ∧
      (disk.sb crates).chunkRoot = disk.address 0 ∧ (disk.sb crates).sectorsize = 4096 ∧
      (disk.sb crates).nodesize = disk.nodesize ∧
      (disk.sb crates).sysChunkArraySize.toNat = 97 ∧
      (disk.sb crates).sysChunks =
        [(Writer.plainEntry disk.logical disk.span disk.physical).chunk] := by
  have decoded := Writer.decode_superblock (rfl : disk.sb crates = _) disk.sysChunkArray_fits
    disk.sysChunkArray_eq
  rwa [length_sysChunkArray] at decoded

theorem confined_sb : (disk.sb crates).Confined := by
  rcases disk.describes_sb crates with ⟨_, _, _, sectorsize, _, arraySize, _⟩
  constructor
  · rw [sectorsize]
    decide
  · rw [arraySize]
    decide

theorem generation_sb : (disk.sb crates).generation = disk.generation := by
  have held : Holds (disk.superblock crates) 0x48 (encodeLE 8 disk.generation.toNat) :=
    Writer.holds_superblock disk.sysChunkArray_fits (List.mem_of_getElem? (i := 2) rfl)
      (by decide) (by rw [length_encodeLE]; decide)
  have read : leU64 (disk.superblock crates) 0x48 = disk.generation := leU64_of_holds held
  rw [sb, Superblock.decode]
  dsimp only
  rw [read]

theorem csumType_sb : (disk.sb crates).csumType = .crc32c := by
  have held : Holds (disk.superblock crates) 0xc4 (encodeLE 2 (0 : UInt16).toNat) :=
    Writer.holds_superblock disk.sysChunkArray_fits (List.mem_of_getElem? (i := 8) rfl)
      (by decide) (by rw [length_encodeLE]; decide)
  have code : leU16 (disk.superblock crates) 0xc4 = 0 := leU16_of_holds held
  rw [sb, Superblock.decode]
  dsimp only
  rw [code]
  rfl

theorem crcValid_sb : (disk.sb crates).crcValid = some true := by
  rcases disk.describes_sb crates with ⟨_, _, _, sectorsize, _⟩
  rw [sb, Superblock.decode] at sectorsize
  dsimp only at sectorsize
  have covered : Superblock.covered (disk.superblock crates) =
      (disk.superblock crates).length := by
    rw [Superblock.covered, sectorsize, length_superblock]
    decide
  rw [Superblock.crcValid_of_parse (disk.parse_superblock crates), csumType_sb, covered]
  exact congrArg some (Writer.verify_sealed (by rw [length_overlay]; decide))

theorem superblockBlock_image :
    getRange (disk.image crates) 65536 (65536 + btrfsSuperInfoSize) =
      some (disk.superblock crates) := by
  have superblockSize := disk.length_superblock crates
  have size : btrfsSuperInfoSize = 4096 := rfl
  have offset : btrfsSuperInfoOffset.toNat = 65536 := by decide
  have behind := disk.behind
  have fits := disk.fits
  rw [← superblockSize]
  exact getRange_overlay_patch [] [(disk.physical.toNat, (disk.blocks crates).flatten ++ disk.data)]
    (fun _ member => absurd member List.not_mem_nil) (by omega)

end Superblock

end Formatted

end BtrfsForensic
