import BtrfsForensic.Core.Chunk
import BtrfsForensic.Core.Crc

namespace BtrfsForensic

/-! The superblock at physical byte 65536. -/

abbrev btrfsSuperInfoOffset : UInt64 := 65536
abbrev btrfsSuperInfoSize : Nat := 4096
abbrev magicOffset : Nat := 0x40
abbrev btrfsFsidSize : Nat := 16
abbrev btrfsLabelSize : Nat := 256
abbrev sbMinLen : Nat := 0xc9

/-- `_BHRfS_M`. -/
def btrfsMagic : List.Vector UInt8 8 :=
  ⟨[0x5f, 0x42, 0x48, 0x52, 0x66, 0x53, 0x5f, 0x4d], rfl⟩

structure Superblock where
  magic : List.Vector UInt8 8
  csum : List.Vector UInt8 4
  fsid : List.Vector UInt8 16
  bytenr : UInt64
  flags : UInt64
  generation : UInt64
  root : UInt64
  chunkRoot : UInt64
  logRoot : UInt64
  totalBytes : UInt64
  bytesUsed : UInt64
  rootDirObjectid : UInt64
  numDevices : UInt64
  sectorsize : UInt32
  nodesize : UInt32
  stripesize : UInt32
  sysChunkArraySize : UInt32
  chunkRootGeneration : UInt64
  compatFlags : UInt64
  compatRoFlags : UInt64
  incompatFlags : UInt64
  csumType : CsumType
  rootLevel : UInt8
  chunkRootLevel : UInt8
  logRootLevel : UInt8
  label : String
  sysChunks : List SysChunk
  crcValid : Option Bool

/-- The label up to its first NUL, from at most 256 bytes. -/
def decodeLabel (block : Bytes) (off : Nat) : String :=
  let stop := min (saturatingAdd off btrfsLabelSize) block.length
  let raw := (getRange block off stop).getD []
  fromUtf8Lossy (raw.takeWhile (· ≠ 0))

namespace Superblock

/-- The bytes the checksum is computed over end here: at the sector size,
clamped to the block. -/
def covered (block : Bytes) : Nat :=
  max (min (leU32 block 0x90).toNat block.length) btrfsCsumSize

def decode (crates : Crates) (block : Bytes) : Superblock :=
  let csumType := CsumType.fromCode (leU16 block 0xc4)
  let sysChunkArraySize := leU32 block 0xa0
  { magic := u8Array block magicOffset 8
    csum := u8Array block 0 4
    fsid := u8Array block 0x20 btrfsFsidSize
    bytenr := leU64 block 0x30
    flags := leU64 block 0x38
    generation := leU64 block 0x48
    root := leU64 block 0x50
    chunkRoot := leU64 block 0x58
    logRoot := leU64 block 0x60
    totalBytes := leU64 block 0x70
    bytesUsed := leU64 block 0x78
    rootDirObjectid := leU64 block 0x80
    numDevices := leU64 block 0x88
    sectorsize := leU32 block 0x90
    nodesize := leU32 block 0x94
    stripesize := leU32 block 0x9c
    sysChunkArraySize := sysChunkArraySize
    chunkRootGeneration := leU64 block 0xa4
    compatFlags := leU64 block 0xac
    compatRoFlags := leU64 block 0xb4
    incompatFlags := leU64 block 0xbc
    csumType := csumType
    rootLevel := u8At block 0xc6
    chunkRootLevel := u8At block 0xc7
    logRootLevel := u8At block 0xc8
    label := decodeLabel block 0x12b
    sysChunks := SysChunk.parseArray block sysChunkArrayOffset sysChunkArraySize
    crcValid := superblockCrcStatus crates csumType block (covered block) }

def parse (crates : Crates) (block : Bytes) : Except BtrfsError Superblock :=
  let magic := u8Array block magicOffset 8
  if magic ≠ btrfsMagic then
    .error (.badMagic magic)
  else if block.length < sbMinLen then
    .error (.truncated "superblock" sbMinLen block.length)
  else
    .ok (decode crates block)

theorem parse_eq_ok {crates : Crates} {block : Bytes}
    (magic : u8Array block magicOffset 8 = btrfsMagic)
    (long : sbMinLen ≤ block.length) :
    parse crates block = .ok (decode crates block) := by
  rw [parse, if_neg (not_not_intro magic), if_neg (Nat.not_lt_of_le long)]

theorem magic_of_parse {crates : Crates} {block : Bytes} {sb : Superblock}
    (parsed : parse crates block = .ok sb) : u8Array block magicOffset 8 = btrfsMagic := by
  by_contra foreign
  simp only [parse, if_pos foreign] at parsed
  cases parsed

theorem eq_decode_of_parse {crates : Crates} {block : Bytes} {sb : Superblock}
    (parsed : parse crates block = .ok sb) : sb = decode crates block := by
  simp only [parse] at parsed
  split at parsed
  · cases parsed
  · split at parsed
    · cases parsed
    · cases parsed
      rfl

theorem crcValid_of_parse {crates : Crates} {block : Bytes} {sb : Superblock}
    (parsed : parse crates block = .ok sb) :
    sb.crcValid = superblockCrcStatus crates sb.csumType block (covered block) := by
  rw [eq_decode_of_parse parsed]
  rfl

end Superblock

end BtrfsForensic
