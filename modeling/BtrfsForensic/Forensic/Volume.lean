import BtrfsForensic.Core.SuperblockRoundTrip
import BtrfsForensic.Forensic.Sweep

namespace BtrfsForensic

/-! Reading back a written volume: a superblock, and blocks of one size laid
end to end in a single chunk, the first of them its chunk tree. -/

theorem superblockBlock_image {length : Nat} {superblock : Bytes}
    {blocks : List (Nat × Bytes)} (whole : superblock.length = btrfsSuperInfoSize)
    (inside : 69632 ≤ length) :
    superblockBlock (Writer.image length superblock blocks) = some superblock := by
  have offset : btrfsSuperInfoOffset.toNat = 65536 := by decide
  have size : superblock.length = 4096 := whole
  have fits : saturatingAdd btrfsSuperInfoOffset.toNat btrfsSuperInfoSize =
      btrfsSuperInfoOffset.toNat + superblock.length := by
    rw [saturatingAdd_eq (by decide), whole]
  rw [superblockBlock, fits]
  exact getRange_overlay_patch [] blocks
    (fun _ member => absurd member List.not_mem_nil) (by omega)

/-! ## The backup slots of a written superblock -/

def Writer.backupBytes (backups : Bytes) : Bytes :=
  (backups ++ List.replicate (btrfsSuperInfoSize - backupRootsOffset) 0).take
    (btrfsSuperInfoSize - backupRootsOffset)

section Backups

variable {crates : Crates} {fields : Writer.SuperblockFields}

theorem Writer.drop_superblock
    (array : (sysChunkArray fields.sysChunks).length ≤ 0x800) :
    (superblock crates fields).drop backupRootsOffset = backupBytes fields.backups := by
  have size : btrfsSuperInfoSize = 4096 := rfl
  have offset : backupRootsOffset = 0xb2b := rfl
  have arrayOffset : sysChunkArrayOffset = 0x32b := rfl
  have magic : magicOffset = 0x40 := rfl
  have fsid : fields.fsid.val.length = 16 := fields.fsid.property
  have magicLength : btrfsMagic.val.length = 8 := rfl
  apply List.ext_getElem?
  intro index
  rw [List.getElem?_drop, superblock, getElem?_sealed (by omega), backupBytes]
  by_cases inside : backupRootsOffset + index < btrfsSuperInfoSize
  · rw [getElem?_overlay inside, List.getElem?_take_of_lt (by omega)]
    -- Every field in front of the slots ends before them.
    iterate 2 rw [overlayAt_cons_of_outside (by right; omega)]
    iterate 7 rw [overlayAt_cons_of_outside (by right; rw [length_encodeLE]; omega)]
    rw [overlayAt_cons_of_outside (by right; omega), overlayAt,
      if_pos (Nat.le_add_right _ _), Nat.add_sub_cancel_left]
    by_cases stored : index < fields.backups.length
    · rw [List.getElem?_append_left stored, List.getElem?_eq_getElem stored]
    · rw [List.getElem?_append_right (Nat.le_of_not_lt stored),
        List.getElem?_eq_none (Nat.le_of_not_lt stored),
        List.getElem?_replicate_of_lt (by omega), overlayAt]
  · rw [List.getElem?_eq_none (by rw [length_overlay]; omega),
      List.getElem?_eq_none (by rw [List.length_take]; omega)]

/-- The slots of a written superblock are read from the backup bytes alone. -/
theorem parseBackupRoots_written
    (array : (Writer.sysChunkArray fields.sysChunks).length ≤ 0x800) :
    parseBackupRoots (Writer.superblock crates fields) =
      (List.range numBackupRoots).map fun slot =>
        RootBackup.parse (((Writer.backupBytes fields.backups).drop
          (slot * rootBackupSize)).take rootBackupSize) := by
  apply parseBackupRoots_eq_map
  intro slot small
  have offset : backupRootsOffset = 2859 := rfl
  have place : slot * rootBackupSize = slot * 168 := rfl
  have width : rootBackupSize = 168 := rfl
  have size : btrfsSuperInfoSize = 4096 := rfl
  have limit : usizeMax = 18446744073709551615 := rfl
  replace small : slot < 4 := small
  rw [saturatingAdd_eq (by omega), getRange_eq_some_iff, Writer.length_superblock]
  refine ⟨Nat.le_add_right _ _, by omega, ?_⟩
  rw [← Writer.drop_superblock array, List.drop_drop, Nat.add_sub_cancel_left]

end Backups

namespace Volume

abbrev nodesize : Nat := 512

/-- The chunk's logical start and the byte it starts at. -/
abbrev logical : UInt64 := 0x100000
abbrev physical : Nat := 0x12000

def fsid : List.Vector UInt8 16 := ⟨List.replicate 16 7, rfl⟩

def map : ChunkMap := ⟨[⟨logical, 0x2000, [(1, 0x12000)]⟩]⟩

/-! ## Blocks -/

def unsealedLeaf (bytenr owner generation : UInt64)
    (items : List (DiskKey × Bytes)) : Bytes :=
  Writer.leaf nodesize ⟨fsid, bytenr, generation, owner⟩ items

def leaf (bytenr owner generation : UInt64) (items : List (DiskKey × Bytes)) :
    Bytes :=
  Writer.sealed Crates.withoutCodecs (unsealedLeaf bytenr owner generation items)

def interior (bytenr owner generation : UInt64) (children : List UInt64) : Bytes :=
  Writer.sealed Crates.withoutCodecs <|
    Writer.interior nodesize ⟨fsid, bytenr, generation, owner⟩ 1 children

def chunkLeaf : Bytes :=
  leaf logical 3 9 [(⟨256, chunkItemKey, logical⟩, Writer.chunk 0x2000 0x12000)]

def rootLeaf : Bytes :=
  leaf 0x100200 1 9 [(⟨fsTreeObjectid, rootItemKey, 0⟩,
    overlay 239 0 [(RootOff.bytenr, encodeLE 8 0x100400)])]

def writeSuperblock (csumType : UInt16) (backups : Bytes) : Bytes :=
  Writer.superblock Crates.withoutCodecs
    { fsid := fsid
      generation := 9
      root := 0x100200
      chunkRoot := logical
      nodesize := 512
      csumType := csumType
      sysChunks := [(logical, Writer.chunk 0x2000 0x12000)]
      backups := backups }

def readSuperblock (csumType : UInt16) (backups : Bytes) : Superblock :=
  Superblock.decode Crates.withoutCodecs (writeSuperblock csumType backups)

/-- What the reader needs to know about the superblock of a volume. -/
def Describes (sb : Superblock) : Prop :=
  sb.root = 0x100200 ∧ sb.chunkRoot = logical ∧ sb.nodesize = 512 ∧
    sb.fsid = fsid ∧
    sb.sysChunks.map MapEntry.ofSysChunk = [⟨logical, 0x2000, [(1, 0x12000)]⟩]

instance (sb : Superblock) : Decidable (Describes sb) :=
  inferInstanceAs (Decidable (_ ∧ _))

def sysEntry : ArrayEntry :=
  ⟨⟨⟨256, chunkItemKey, logical⟩, 0x2000, 0, 0, 0, 1, 1,
      [⟨1, 0x12000, List.Vector.replicate 16 0⟩]⟩,
    List.Vector.replicate 12 0, rfl⟩

theorem sysChunkArray_eq :
    Writer.sysChunkArray [(logical, Writer.chunk 0x2000 0x12000)] =
      [sysEntry].flatMap Writer.arrayEntry := by
  decide +kernel

theorem sysChunkArray_fits :
    (Writer.sysChunkArray [(logical, Writer.chunk 0x2000 0x12000)]).length ≤ 0x800 := by
  rw [sysChunkArray_eq, List.flatMap_singleton, Writer.length_arrayEntry]
  decide

theorem magic_writeSuperblock (csumType : UInt16) (backups : Bytes) :
    u8Array (writeSuperblock csumType backups) magicOffset 8 = btrfsMagic :=
  Writer.magic_superblock sysChunkArray_fits

theorem describes_writeSuperblock (csumType : UInt16) (backups : Bytes) :
    Describes (readSuperblock csumType backups) := by
  rcases Writer.decode_superblock (rfl : readSuperblock csumType backups = _)
    sysChunkArray_fits sysChunkArray_eq with ⟨fsid, root, chunkRoot, _, nodesize, _, chunks⟩
  refine ⟨root, chunkRoot, nodesize, fsid, ?_⟩
  rw [chunks]
  rfl

end Volume

structure Volume where
  csumType : UInt16
  backups : Bytes
  roots : List RootBackup
  blocks : List Bytes
  magic : u8Array (Volume.writeSuperblock csumType backups) magicOffset 8 =
    btrfsMagic
  describes : Volume.Describes (Volume.readSuperblock csumType backups)
  roots_eq : parseBackupRoots (Volume.writeSuperblock csumType backups) = roots
  sized : ∀ block ∈ Volume.chunkLeaf :: blocks, block.length = Volume.nodesize
  few : blocks.length ≤ 15

namespace Volume

variable (volume : Volume)

def superblock : Bytes := writeSuperblock volume.csumType volume.backups

def sb : Superblock := readSuperblock volume.csumType volume.backups

def image : Bytes :=
  Writer.image 0x14000 volume.superblock
    [(physical, (chunkLeaf :: volume.blocks).flatten)]

/-! ## Reading back -/

theorem length_superblock : volume.superblock.length = btrfsSuperInfoSize :=
  Writer.length_superblock _ _

theorem length_image : volume.image.length = 0x14000 :=
  length_overlay _ _ _

theorem parsesSuperblock :
    ParsesSuperblock Crates.withoutCodecs volume.image volume.superblock
      volume.sb where
  block := BtrfsForensic.superblockBlock_image volume.length_superblock (by decide)
  parsed := by
    refine Superblock.parse_eq_ok volume.magic ?_
    rw [length_superblock]
    decide

theorem nodesize_sb : volume.sb.nodesize.toNat = nodesize := by
  rw [sb, volume.describes.2.2.1]
  decide

theorem parseBackupRoots_superblock :
    parseBackupRoots volume.superblock = volume.roots :=
  volume.roots_eq

theorem crcValid_sb (csumType : volume.sb.csumType = .crc32c)
    (covered : Superblock.covered volume.superblock = btrfsSuperInfoSize) :
    volume.sb.crcValid = some true := by
  rw [Superblock.crcValid_of_parse volume.parsesSuperblock.parsed, csumType, covered,
    ← length_superblock]
  exact congrArg some (Writer.verify_sealed (by rw [length_overlay]; decide))

variable {volume} {block : Bytes} {index : Nat}

theorem getElem?_image_congr {other : Volume}
    (sameSuperblock : volume.superblock = other.superblock)
    (same : physical ≤ index →
      (chunkLeaf :: volume.blocks).flatten[index - physical]? =
        (chunkLeaf :: other.blocks).flatten[index - physical]?) :
    volume.image[index]? = other.image[index]? := by
  by_cases inside : index < 0x14000
  · rw [image, image, Writer.image, Writer.image, getElem?_overlay inside,
      getElem?_overlay inside, Option.some.injEq]
    exact overlayAt_cons_congr (fun _ => by rw [sameSuperblock])
      (overlayAt_cons_congr same rfl)
  · rw [List.getElem?_eq_none (by rw [length_image]; omega),
      List.getElem?_eq_none (by rw [length_image]; omega)]

theorem getRange_image (found : (chunkLeaf :: volume.blocks)[index]? = some block) :
    getRange volume.image (physical + nodesize * index)
      (physical + (nodesize * index + nodesize)) = some block := by
  refine Writer.getRange_image_block volume.length_superblock volume.sized found
    (by decide) ?_
  have few := volume.few
  rw [List.length_cons]
  change 0x12000 + 512 * (volume.blocks.length + 1) ≤ 0x14000
  omega

theorem getRange_image_node {phys : UInt64}
    (found : (chunkLeaf :: volume.blocks)[index]? = some block)
    (place : phys.toNat = physical + nodesize * index) :
    getRange volume.image phys.toNat
      (saturatingAdd phys.toNat volume.sb.nodesize.toNat) = some block := by
  have read := getRange_image found
  have inside := stop_le_of_getRange read
  rw [length_image, ← Nat.add_assoc] at inside
  rw [nodesize_sb, place, saturatingAdd_eq (Nat.le_trans inside (by decide)),
    Nat.add_assoc]
  exact read

theorem header_fits (found : (chunkLeaf :: volume.blocks)[index]? = some block) :
    btrfsHeaderSize ≤ block.length := by
  rw [volume.sized block (List.mem_of_getElem? found)]
  decide

theorem readNode_image (index : Nat) {address : UInt64} (phys : UInt64)
    (found : (chunkLeaf :: volume.blocks)[index]? = some block)
    (target : map.logicalToPhysical address = some (1, phys))
    (place : phys.toNat = physical + nodesize * index) :
    readNode Crates.withoutCodecs volume.image volume.sb map address =
      .ok (Node.ofBlock Crates.withoutCodecs block) :=
  readNode_eq_ok_iff.mpr ⟨1, phys, block, by rw [nodePhysical, target, Option.some_or],
    getRange_image_node found place, header_fits found, rfl⟩

theorem chunkLeaf_chunkItems :
    (Node.ofBlock Crates.withoutCodecs chunkLeaf).isLeaf = true ∧
      ChunkMap.new.addFromNode (Node.ofBlock Crates.withoutCodecs chunkLeaf) =
        map := by
  decide +kernel

variable (volume)

theorem boot_chunkRoot :
    (ChunkMap.boot volume.sb).logicalToPhysical volume.sb.chunkRoot =
      some (1, 0x12000) := by
  rw [ChunkMap.boot, sb, volume.describes.2.2.2.2, volume.describes.2.1]
  decide

theorem auditMap_image :
    auditMap Crates.withoutCodecs volume.image volume.sb = map := by
  have first : (chunkLeaf :: volume.blocks)[0]? = some chunkLeaf := rfl
  have walked : ChunkMap.walk Crates.withoutCodecs volume.image volume.sb =
      .ok map := by
    rw [ChunkMap.walk_eq_of_leaf volume.boot_chunkRoot (getRange_image_node first rfl)
      (header_fits first) chunkLeaf_chunkItems.1, chunkLeaf_chunkItems.2]
  rw [auditMap, walked]

theorem rootLeaf_leafItems :
    (Node.ofBlock Crates.withoutCodecs rootLeaf).isLeaf = true ∧
      ((Node.ofBlock Crates.withoutCodecs rootLeaf).leafItems.find? fun item =>
        item.1.objectid = fsTreeObjectid ∧ item.1.keyType = rootItemKey).map
          (fun item => (FsTreeRoot.parse item.2).bytenr) = some 0x100400 := by
  decide +kernel

theorem fsTreeRoot_image {rest : List Bytes} (first : volume.blocks = rootLeaf :: rest) :
    ∃ root, fsTreeRoot Crates.withoutCodecs volume.image volume.sb map = .ok root ∧
      root.bytenr = 0x100400 := by
  have tree : volume.sb.root = 0x100200 := volume.describes.1
  rcases Option.map_eq_some_iff.mp rootLeaf_leafItems.2 with ⟨item, found, bytenr⟩
  refine ⟨FsTreeRoot.parse item.2, ?_, bytenr⟩
  rw [fsTreeRoot, tree, readNode_image 1 0x12200 (by rw [first]; rfl) (by decide)
    (by decide)]
  simp only [bind, Except.bind, found]

theorem sweepSeeds_image :
    sweepSeeds volume.image volume.sb =
      ((volume.roots.flatMap fun backup =>
        [backup.treeRoot, backup.fsRoot]).filter (· ≠ 0)).reverse ++
          [0x100000, 0x100200] := by
  have root : volume.sb.root = 0x100200 := volume.describes.1
  have chunkRoot : volume.sb.chunkRoot = 0x100000 := volume.describes.2.1
  rw [sweepSeeds, volume.parsesSuperblock.block, root, chunkRoot]
  simp only [parseBackupRoots_superblock, List.filter_append, List.reverse_append]
  rfl

/-- With blank backup slots and a leaf for a root tree, the sweep examines the
two roots of the superblock. -/
theorem sweepVisits_image {root : Bytes} {rest : List Bytes}
    (blank : volume.roots = List.replicate 4 ⟨0, 0, 0, 0⟩)
    (first : volume.blocks = root :: rest)
    (leaf : (Node.ofBlock Crates.withoutCodecs root).isLeaf = true) :
    sweepVisits Crates.withoutCodecs volume.image volume.sb map =
      [0x100000, 0x100200] := by
  have seeds : sweepSeeds volume.image volume.sb = [0x100000, 0x100200] := by
    rw [sweepSeeds_image, blank]
    rfl
  have chunkRoot : sweepChildren Crates.withoutCodecs volume.image volume.sb map
      0x100000 = [] :=
    sweepChildren_of_isLeaf (readNode_image 0 0x12000 rfl (by decide) (by decide))
      chunkLeaf_chunkItems.1
  have rootTree : sweepChildren Crates.withoutCodecs volume.image volume.sb map
      0x100200 = [] :=
    sweepChildren_of_isLeaf
      (readNode_image 1 0x12200 (by rw [first]; rfl) (by decide) (by decide)) leaf
  rw [sweepVisits, seeds, Worklist.visit, if_neg (by decide), chunkRoot,
    List.reverse_nil, List.nil_append, Worklist.visit, if_neg (by decide), rootTree,
    List.reverse_nil, List.nil_append, Worklist.visit]

/-- A crc32c volume whose backup slots are blank. -/
def plain (blocks : List Bytes)
    (sized : ∀ block ∈ chunkLeaf :: blocks, block.length = nodesize)
    (few : blocks.length ≤ 15) : Volume where
  csumType := 0
  backups := []
  roots := List.replicate 4 ⟨0, 0, 0, 0⟩
  blocks := blocks
  magic := magic_writeSuperblock _ _
  describes := describes_writeSuperblock _ _
  roots_eq := by
    rw [writeSuperblock, parseBackupRoots_written (by decide)]
    decide +kernel
  sized := sized
  few := few

/-- A crc32c volume whose first backup slot names its root tree and an older
`FS_TREE` root. -/
def backedUp (blocks : List Bytes)
    (sized : ∀ block ∈ chunkLeaf :: blocks, block.length = nodesize)
    (few : blocks.length ≤ 15) : Volume where
  csumType := 0
  backups := overlay rootBackupSize 0
    [(BackupOff.treeRoot, encodeLE 8 0x100200), (BackupOff.treeRootGen, encodeLE 8 8),
      (BackupOff.fsRoot, encodeLE 8 0x100600), (BackupOff.fsRootGen, encodeLE 8 8)]
  roots := ⟨0x100200, 8, 0x100600, 8⟩ :: List.replicate 3 ⟨0, 0, 0, 0⟩
  blocks := blocks
  magic := magic_writeSuperblock _ _
  describes := describes_writeSuperblock _ _
  roots_eq := by
    rw [writeSuperblock, parseBackupRoots_written (by decide)]
    decide +kernel
  sized := sized
  few := few

end Volume

end BtrfsForensic
