import BtrfsForensic.Core.Node
import BtrfsForensic.Core.Superblock
import BtrfsForensic.Foundation.Crc32c
import BtrfsForensic.Foundation.Overlay

namespace BtrfsForensic

/-! How a writer lays out the blocks that the reader parses: the inverse of the
decoders, for building images. -/

namespace Writer

def key (key : DiskKey) : Bytes :=
  encodeLE 8 key.objectid.toNat ++ key.keyType :: encodeLE 8 key.offset.toNat

/-- The header fields a caller chooses; the checksum is sealed afterwards. -/
structure NodeFields where
  fsid : List.Vector UInt8 16
  bytenr : UInt64
  generation : UInt64
  owner : UInt64
  deriving DecidableEq

def header (fields : NodeFields) (nritems : Nat) (level : UInt8) : Bytes :=
  List.replicate 32 0 ++ fields.fsid.val ++ encodeLE 8 fields.bytenr.toNat ++
    List.replicate 24 0 ++ encodeLE 8 fields.generation.toNat ++
    encodeLE 8 fields.owner.toNat ++ encodeLE 4 nritems ++ [level]

/-- The item headers, forward; `room` is where the data of the item before
starts, relative to the end of the node header. -/
def itemHeaders : (room : Nat) → List (DiskKey × Bytes) → Bytes
  | _, [] => []
  | room, (itemKey, data) :: rest =>
      let start := room - data.length
      key itemKey ++ encodeLE 4 start ++ encodeLE 4 data.length ++
        itemHeaders start rest

/-- The item data, backward from the end of the block. -/
def itemData (items : List (DiskKey × Bytes)) : Bytes :=
  (items.map Prod.snd).reverse.flatten

/-- A leaf of at most `nodesize` bytes of content, padded to `nodesize`. -/
def leaf (nodesize : Nat) (fields : NodeFields) (items : List (DiskKey × Bytes)) :
    Bytes :=
  let front := header fields items.length 0 ++
    itemHeaders (nodesize - btrfsHeaderSize) items
  let data := itemData items
  front ++ List.replicate (nodesize - front.length - data.length) 0 ++ data

def interior (nodesize : Nat) (fields : NodeFields) (level : UInt8)
    (children : List UInt64) : Bytes :=
  let front := header fields children.length level ++ children.flatMap fun child =>
    key ⟨0, 0, 0⟩ ++ encodeLE 8 child.toNat ++ encodeLE 8 0
  front ++ List.replicate (nodesize - front.length) 0

def withChecksum (sum : UInt32) (block : Bytes) : Bytes :=
  leBytes32 sum ++ block.drop 4

/-- Writes the checksum of everything after the checksum field. -/
def sealed (crates : Crates) (block : Bytes) : Bytes :=
  withChecksum (crates.crc32c (block.drop btrfsCsumSize)) block

/-- Writes a checksum that is off by one. -/
def missealed (crates : Crates) (block : Bytes) : Bytes :=
  withChecksum (crates.crc32c (block.drop btrfsCsumSize) + 1) block

section Checksum

variable {crates : Crates} {block : Bytes} {sum : UInt32}

theorem length_withChecksum (long : btrfsCsumSize < block.length) :
    (withChecksum sum block).length = block.length := by
  replace long : 32 < block.length := long
  simp only [withChecksum, leBytes32, List.length_append, length_encodeLE,
    List.length_drop]
  omega

theorem verify_withChecksum (long : btrfsCsumSize < block.length) :
    verifySuperblockCrc32c crates (withChecksum sum block)
        (withChecksum sum block).length =
      decide (crates.crc32c (block.drop btrfsCsumSize) = sum) := by
  have sameLength : (withChecksum sum block).length = block.length :=
    length_withChecksum long
  replace long : 32 < block.length := long
  have stored : getRange (withChecksum sum block) 0 4 = some (leBytes32 sum) := by
    rw [getRange_eq_some_iff]
    refine ⟨Nat.zero_le _, by omega, ?_⟩
    rw [List.drop_zero, Nat.sub_zero, withChecksum]
    exact List.take_left' (by simp [leBytes32])
  have covered : getRange (withChecksum sum block) 32 block.length =
      some (block.drop 32) := by
    rw [getRange_eq_some_iff]
    refine ⟨by omega, by omega, ?_⟩
    rw [withChecksum, List.drop_append, List.drop_eq_nil_of_le (by simp [leBytes32]),
      List.nil_append, List.drop_drop, leBytes32, length_encodeLE]
    exact List.take_of_length_le (by rw [List.length_drop])
  rw [verifySuperblockCrc32c, stored]
  simp only [sameLength, if_neg (Nat.not_le_of_lt long), covered]
  rw [Bool.beq_eq_decide_eq]
  simp only [leBytes32_inj]

theorem verify_sealed (long : btrfsCsumSize < block.length) :
    verifySuperblockCrc32c crates (sealed crates block) (sealed crates block).length =
      true := by
  rw [sealed, verify_withChecksum long, decide_eq_true rfl]

theorem verify_missealed (long : btrfsCsumSize < block.length) :
    verifySuperblockCrc32c crates (missealed crates block)
      (missealed crates block).length = false := by
  rw [missealed, verify_withChecksum long]
  apply decide_eq_false
  intro equal
  have numbers := congrArg UInt32.toNat equal
  have bound := (crates.crc32c (block.drop btrfsCsumSize)).toNat_lt
  rw [UInt32.toNat_add, UInt32.toNat_one] at numbers
  omega

theorem verify_sealed_set (real : crates.crc32c = Crc32c.checksum)
    (long : btrfsCsumSize < block.length) {position : Nat} {byte value : UInt8}
    (covered : btrfsCsumSize ≤ position) (found : block[position]? = some byte)
    (changed : byte ≠ value) :
    verifySuperblockCrc32c crates ((sealed crates block).set position value)
      ((sealed crates block).set position value).length = false := by
  replace covered : 32 ≤ position := covered
  have moved : (sealed crates block).set position value =
      withChecksum (crates.crc32c (block.drop btrfsCsumSize))
        (block.set position value) := by
    rw [sealed, withChecksum, withChecksum, List.drop_set, if_neg (by omega),
      List.set_append, if_neg (by simp only [leBytes32, length_encodeLE]; omega)]
    simp only [leBytes32, length_encodeLE]
  have digested : (block.drop btrfsCsumSize)[position - 32]? = some byte := by
    rw [List.getElem?_drop, ← found]
    congr 1
    change 32 + (position - 32) = position
    omega
  rw [moved, verify_withChecksum (by rwa [List.length_set]), real, List.drop_set,
    if_neg (Nat.not_lt_of_le covered)]
  exact decide_eq_false (Crc32c.checksum_set_ne digested changed)

theorem getElem?_sealed {position : Nat} (covered : 4 ≤ position) :
    (sealed crates block)[position]? = block[position]? := by
  rw [sealed, withChecksum, List.getElem?_append_right (by simpa [leBytes32] using covered),
    List.getElem?_drop, leBytes32, length_encodeLE, Nat.add_sub_of_le covered]

end Checksum

def chunk (length physical : UInt64) : Bytes :=
  encodeLE 8 length.toNat ++ List.replicate 36 0 ++ encodeLE 2 1 ++
    encodeLE 2 1 ++ encodeLE 8 1 ++ encodeLE 8 physical.toNat ++
    List.replicate 16 0

/-- The superblock fields a caller chooses. `sysChunks` are the entries of the
`sys_chunk_array`, by logical start; `backups` are the bytes of the
`btrfs_root_backup` array. -/
structure SuperblockFields where
  fsid : List.Vector UInt8 16
  generation : UInt64
  root : UInt64
  chunkRoot : UInt64
  nodesize : UInt32
  csumType : UInt16
  sysChunks : List (UInt64 × Bytes)
  backups : Bytes

def sysChunkArray (chunks : List (UInt64 × Bytes)) : Bytes :=
  chunks.flatMap fun chunk => key ⟨256, chunkItemKey, chunk.1⟩ ++ chunk.2

def superblock (crates : Crates) (fields : SuperblockFields) : Bytes :=
  let sysChunks := sysChunkArray fields.sysChunks
  sealed crates <| overlay btrfsSuperInfoSize 0
    [(0x20, fields.fsid.val), (magicOffset, btrfsMagic.val),
      (0x48, encodeLE 8 fields.generation.toNat),
      (0x50, encodeLE 8 fields.root.toNat),
      (0x58, encodeLE 8 fields.chunkRoot.toNat), (0x90, encodeLE 4 4096),
      (0x94, encodeLE 4 fields.nodesize.toNat),
      (0xa0, encodeLE 4 sysChunks.length),
      (0xc4, encodeLE 2 fields.csumType.toNat),
      (sysChunkArrayOffset, sysChunks), (0xb2b, fields.backups)]

@[simp] theorem length_superblock (crates : Crates) (fields : SuperblockFields) :
    (superblock crates fields).length = btrfsSuperInfoSize := by
  simp [superblock, sealed, withChecksum, leBytes32, btrfsSuperInfoSize]

theorem verify_superblock_set {crates : Crates} (real : crates.crc32c = Crc32c.checksum)
    (fields : SuperblockFields) {position : Nat} {byte value : UInt8}
    (covered : btrfsCsumSize ≤ position)
    (found : (superblock crates fields)[position]? = some byte)
    (changed : byte ≠ value) :
    verifySuperblockCrc32c crates ((superblock crates fields).set position value)
      btrfsSuperInfoSize = false := by
  have size : ((superblock crates fields).set position value).length =
      btrfsSuperInfoSize := by
    rw [List.length_set, length_superblock]
  replace covered : 32 ≤ position := covered
  rw [superblock, getElem?_sealed (by omega)] at found
  rw [← size, superblock]
  apply verify_sealed_set real ?_ covered found changed
  rw [length_overlay]
  decide

def image (length : Nat) (superblock : Bytes) (blocks : List (Nat × Bytes)) :
    Bytes :=
  overlay length 0 ((btrfsSuperInfoOffset.toNat, superblock) :: blocks)

theorem getRange_image_block {length start size index : Nat}
    {superblock block : Bytes} {blocks : List Bytes}
    (whole : superblock.length = btrfsSuperInfoSize)
    (sized : ∀ block ∈ blocks, block.length = size)
    (found : blocks[index]? = some block)
    (behind : btrfsSuperInfoOffset.toNat + btrfsSuperInfoSize ≤ start)
    (fits : start + size * blocks.length ≤ length) :
    getRange (image length superblock [(start, blocks.flatten)])
      (start + size * index) (start + (size * index + size)) = some block := by
  have total : blocks.flatten.length = size * blocks.length := by
    rw [List.length_flatten, List.map_congr_left sized, List.map_const',
      List.sum_replicate_nat, Nat.mul_comm]
  have laid : getRange (image length superblock [(start, blocks.flatten)]) start
      (start + blocks.flatten.length) = some blocks.flatten := by
    refine getRange_overlay_patch [(btrfsSuperInfoOffset.toNat, superblock)] [] ?_
      (by omega)
    intro patch member
    rw [List.mem_singleton.mp member, whole]
    exact .inr behind
  have part := getRange_flatten sized found
  rw [getRange_of_getRange laid (Nat.le_add_right _ _) (stop_le_of_getRange part)]
  exact part

end Writer

/-- The real checksum, and decoders that reject everything: enough wherever no
compressed extent is read. -/
def Crates.withoutCodecs : Crates where
  crc32c := Crc32c.checksum
  zlib _ _ := .error []
  zstdHeader _ := false
  zstd _ _ := .error []
  lzo _ _ := none

end BtrfsForensic
