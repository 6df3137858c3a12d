import BtrfsForensic.Core.ChunkMap
import BtrfsForensic.Core.SuperblockRoundTrip

namespace BtrfsForensic

/-! A written disk: a superblock whose `sys_chunk_array` maps one chunk, and
blocks of one size laid end to end at the start of that chunk, the first of them
the root of the chunk tree. -/

namespace Disk

/-- The chunk's logical start, and the byte and the length it has on disk. -/
abbrev logical : UInt64 := 0x100000
abbrev physical : Nat := 0x12000
abbrev span : UInt64 := 0x200000

def fsid : List.Vector UInt8 16 := List.Vector.replicate 16 7

def sysChunk : SysChunk where
  key := ⟨256, chunkItemKey, logical⟩
  length := span
  owner := 0
  stripeLen := 0
  chunkType := 0
  numStripes := 1
  subStripes := 1
  stripes := [⟨1, 0x12000, List.Vector.replicate 16 0⟩]

def writeSuperblock (root : UInt64) (nodesize : UInt32) : Bytes :=
  Writer.superblock Crates.withoutCodecs
    { fsid := fsid
      generation := 9
      root := root
      chunkRoot := logical
      nodesize := nodesize
      csumType := 0
      sysChunks := [(logical, Writer.chunk span 0x12000)]
      backups := [] }

def readSuperblock (root : UInt64) (nodesize : UInt32) : Superblock :=
  Superblock.decode Crates.withoutCodecs (writeSuperblock root nodesize)

def chunkNode (bytenr : UInt64) : Writer.NodeFields := ⟨fsid, bytenr, 9, 3⟩

def chunkItem : DiskKey × Bytes :=
  (⟨256, chunkItemKey, logical⟩, Writer.chunk span 0x12000)

/-- What the reader needs to know about the superblock of a disk. -/
def Describes (root : UInt64) (nodesize : UInt32) (sb : Superblock) : Prop :=
  sb.root = root ∧ sb.chunkRoot = logical ∧ sb.nodesize = nodesize ∧
    sb.fsid = fsid ∧ sb.sysChunks = [sysChunk]

instance (root : UInt64) (nodesize : UInt32) (sb : Superblock) :
    Decidable (Describes root nodesize sb) :=
  inferInstanceAs (Decidable (_ ∧ _))

/-! ## The written superblock -/

def sysEntry : ArrayEntry := ⟨sysChunk, List.Vector.replicate 12 0, rfl⟩

theorem sysChunkArray_eq :
    Writer.sysChunkArray [(logical, Writer.chunk span 0x12000)] =
      [sysEntry].flatMap Writer.arrayEntry := by
  decide +kernel

theorem length_sysChunkArray :
    (Writer.sysChunkArray [(logical, Writer.chunk span 0x12000)]).length = 97 := by
  rw [sysChunkArray_eq, List.flatMap_singleton, Writer.length_arrayEntry]
  rfl

theorem sysChunkArray_fits :
    (Writer.sysChunkArray [(logical, Writer.chunk span 0x12000)]).length ≤ 0x800 := by
  rw [length_sysChunkArray]
  decide

section Written

variable (root : UInt64) (nodesize : UInt32)

theorem magic_writeSuperblock :
    u8Array (writeSuperblock root nodesize) magicOffset 8 = btrfsMagic :=
  Writer.magic_superblock sysChunkArray_fits

theorem describes_writeSuperblock :
    Describes root nodesize (readSuperblock root nodesize) := by
  rcases Writer.decode_superblock (rfl : readSuperblock root nodesize = _) sysChunkArray_fits
    sysChunkArray_eq with
    ⟨fsid, tree, chunkTree, _, size, _, chunks⟩
  exact ⟨tree, chunkTree, size, fsid, chunks⟩

theorem sizes_writeSuperblock :
    leU32 (writeSuperblock root nodesize) 0x90 = 4096 ∧
      (leU32 (writeSuperblock root nodesize) 0xa0).toNat = 97 := by
  rcases Writer.decode_superblock (rfl : readSuperblock root nodesize = _) sysChunkArray_fits
    sysChunkArray_eq with
    ⟨_, _, _, sectorsize, _, arraySize, _⟩
  simp only [readSuperblock, Superblock.decode] at sectorsize arraySize
  exact ⟨sectorsize, arraySize.trans length_sysChunkArray⟩

end Written

end Disk

structure Disk where
  length : Nat
  root : UInt64
  nodesize : UInt32
  blocks : List Bytes
  magic : u8Array (Disk.writeSuperblock root nodesize) magicOffset 8 = btrfsMagic
  describes : Disk.Describes root nodesize (Disk.readSuperblock root nodesize)
  sized : ∀ block ∈ blocks, block.length = nodesize.toNat
  fits : Disk.physical + nodesize.toNat * blocks.length ≤ length
  short : length < usizeMax

namespace Disk

theorem small_short : 0x14000 < usizeMax := by decide

variable (disk : Disk)

def superblock : Bytes := writeSuperblock disk.root disk.nodesize

def sb : Superblock := readSuperblock disk.root disk.nodesize

def image : Bytes :=
  Writer.image disk.length disk.superblock [(physical, disk.blocks.flatten)]

theorem length_superblock : disk.superblock.length = btrfsSuperInfoSize :=
  Writer.length_superblock _ _

theorem length_image : disk.image.length = disk.length :=
  length_overlay _ _ _

theorem parse_superblock :
    Superblock.parse Crates.withoutCodecs disk.superblock = .ok disk.sb := by
  refine Superblock.parse_eq_ok disk.magic ?_
  rw [length_superblock]
  decide

theorem boot_sb :
    ChunkMap.boot disk.sb = ⟨[⟨logical, span, [(1, 0x12000)]⟩]⟩ := by
  rw [ChunkMap.boot, sb, disk.describes.2.2.2.2]
  rfl

variable {disk} {block : Bytes} {index : Nat}

theorem getRange_image (found : disk.blocks[index]? = some block) {start : Nat}
    (place : start = physical + disk.nodesize.toNat * index) :
    getRange disk.image start (saturatingAdd start disk.sb.nodesize.toNat) =
      some block := by
  have fits := disk.fits
  have short := disk.short
  have size : disk.sb.nodesize = disk.nodesize := disk.describes.2.2.1
  have inside : index < disk.blocks.length := (List.getElem?_eq_some_iff.mp found).1
  have part : disk.nodesize.toNat * (index + 1) ≤
      disk.nodesize.toNat * disk.blocks.length :=
    Nat.mul_le_mul_left _ inside
  rw [Nat.mul_succ] at part
  rw [size, place, saturatingAdd_eq (by omega), Nat.add_assoc]
  exact Writer.getRange_image_block disk.length_superblock disk.sized found
    (by decide) fits

end Disk

end BtrfsForensic
