import BtrfsForensic.Core.SuperblockPrefix
import BtrfsForensic.Core.Node
import BtrfsForensic.Foundation.Checked

namespace BtrfsForensic

/-! The parsers of superblocks, chunk arrays and nodes with every unchecked addition,
multiplication and index of the source checked, and that none of them faults on a block
that memory can hold. What saturates, clamps or slices by `get` cannot fault and is
taken over. -/

namespace Checked

/-! ## Readers -/

/-- `data.get(off..off + width)`, copied into an array, or zero. -/
def readLE (width : Nat) (data : Bytes) (off : Nat) : Checked Nat := do
  let stop ← add off width
  match getRange data off stop with
  | some bytes => return decodeLE (← copied width bytes)
  | none => return 0

def leU16 (data : Bytes) (off : Nat) : Checked UInt16 :=
  return UInt16.ofNat (← readLE 2 data off)

def leU32 (data : Bytes) (off : Nat) : Checked UInt32 :=
  return UInt32.ofNat (← readLE 4 data off)

def leU64 (data : Bytes) (off : Nat) : Checked UInt64 :=
  return UInt64.ofNat (← readLE 8 data off)

/-- A `[u8; N]` field filled index by index from `off + i`. -/
def u8Array (data : Bytes) (off : Nat) : (width : Nat) → Checked (List.Vector UInt8 width)
  | 0 => return List.Vector.nil
  | width + 1 => do
      let front ← u8Array data off width
      let position ← add off width
      return ⟨front.val ++ [u8At data position], by simp [front.property]⟩

section Readers

variable {data : Bytes} {off : Nat}

theorem readLE_eq {width : Nat} (fits : off + width ≤ usizeMax) :
    readLE width data off = .ok (decodeLE ((getRange data off (off + width)).getD [])) := by
  rw [readLE, add_eq fits, bind_ok]
  cases found : getRange data off (off + width) with
  | none => rfl
  | some bytes =>
      have size := length_of_getRange found
      have sized : copied width bytes = .ok bytes := copied_eq (by omega)
      simp only [sized, bind_ok]
      rfl

theorem leU16_eq (fits : off + 2 ≤ usizeMax) :
    leU16 data off = .ok (BtrfsForensic.leU16 data off) := by
  rw [leU16, readLE_eq fits, BtrfsForensic.leU16]
  cases getRange data off (off + 2) <;> rfl

theorem leU32_eq (fits : off + 4 ≤ usizeMax) :
    leU32 data off = .ok (BtrfsForensic.leU32 data off) := by
  rw [leU32, readLE_eq fits, BtrfsForensic.leU32]
  cases getRange data off (off + 4) <;> rfl

theorem leU64_eq (fits : off + 8 ≤ usizeMax) :
    leU64 data off = .ok (BtrfsForensic.leU64 data off) := by
  rw [leU64, readLE_eq fits, BtrfsForensic.leU64]
  cases getRange data off (off + 8) <;> rfl

/-- A reader leaves it to its caller to keep the offset off the end of `usize`. -/
example : leU64 [] (2 ^ 64 - 8) = .error .overflow := by decide

theorem u8Array_eq {width : Nat} (fits : off + width ≤ usizeMax) :
    u8Array data off width = .ok (BtrfsForensic.u8Array data off width) := by
  induction width with
  | zero => rfl
  | succ width induction =>
      rw [u8Array, induction (by omega), bind_ok, add_eq (by omega), bind_ok]
      apply congrArg Except.ok
      apply Subtype.ext
      simp only [BtrfsForensic.u8Array, tabulate, List.range_succ, List.map_append,
        List.map_cons, List.map_nil]

end Readers

/-! ## Keys, stripes and the `sys_chunk_array` -/

def DiskKey.parse (data : Bytes) (off : Nat) : Checked DiskKey := do
  let objectid ← leU64 data off
  let keyType := u8At data (← add off 8)
  let offset ← leU64 data (← add off 9)
  return { objectid, keyType, offset }

def Stripe.parse (data : Bytes) (off : Nat) : Checked Stripe := do
  let devid ← leU64 data off
  let offset ← leU64 data (← add off 8)
  let devUuid ← u8Array data (← add off 16) 16
  return { devid, offset, devUuid }

/-- The stripes one after another, the position moved on with saturation. -/
def stripes (data : Bytes) : (count position : Nat) → Checked (List Stripe)
  | 0, _ => return []
  | count + 1, position => do
      let stripe ← Stripe.parse data position
      let rest ← stripes data count (saturatingAdd position stripeSize)
      return stripe :: rest

/-- The entries of a `sys_chunk_array`. -/
def parseArrayLoop (block : Bytes) (stop : Nat) :
    (fuel p : Nat) → Checked (List SysChunk)
  | 0, _ => .error .unfinished
  | fuel + 1, p =>
      let keyEnd := saturatingAdd p diskKeySize
      let hdrEnd := saturatingAdd keyEnd chunkHeaderSize
      if stop < hdrEnd then
        .ok []
      else do
        let key ← DiskKey.parse block p
        let length ← leU64 block keyEnd
        let owner ← leU64 block (← add keyEnd 8)
        let stripeLen ← leU64 block (← add keyEnd 16)
        let chunkType ← leU64 block (← add keyEnd 24)
        let numStripes ← leU16 block (← add keyEnd 44)
        let subStripes ← leU16 block (← add keyEnd 46)
        let stripesStart := saturatingAdd keyEnd chunkHeaderSize
        let stripesEnd := saturatingAdd stripesStart
          (saturatingMul numStripes.toNat stripeSize)
        if stop < stripesEnd then
          .ok []
        else do
          let stripes ← stripes block numStripes.toNat stripesStart
          let rest ← parseArrayLoop block stop fuel stripesEnd
          return ⟨key, length, owner, stripeLen, chunkType, numStripes, subStripes,
            stripes⟩ :: rest

def parseArray (block : Bytes) (arrayOff : Nat) (arraySize : UInt32) :
    Checked (List SysChunk) :=
  let declaredEnd := saturatingAdd arrayOff arraySize.toNat
  let stop := min declaredEnd block.length
  parseArrayLoop block stop (stop + 1) arrayOff

section Array

variable {data block : Bytes} {off : Nat}

theorem diskKey_eq (fits : off + 17 ≤ usizeMax) :
    DiskKey.parse data off = .ok (BtrfsForensic.DiskKey.parse data off) := by
  simp (disch := omega) only [DiskKey.parse, leU64_eq, add_eq, bind_ok]
  rfl

theorem stripe_eq (fits : off + 32 ≤ usizeMax) :
    Stripe.parse data off = .ok (BtrfsForensic.Stripe.parse data off) := by
  simp (disch := omega) only [Stripe.parse, leU64_eq, u8Array_eq, add_eq, bind_ok]
  rfl

theorem stripes_eq {count position : Nat} (fits : position + count * 32 ≤ usizeMax) :
    stripes data count position =
      .ok ((List.range count).map fun index =>
        BtrfsForensic.Stripe.parse data (position + index * stripeSize)) := by
  have size : stripeSize = 32 := rfl
  rw [size]
  induction count generalizing position with
  | zero => rfl
  | succ count induction =>
      have next : saturatingAdd position stripeSize = position + 32 :=
        saturatingAdd_eq (by omega)
      rw [stripes, stripe_eq (by omega), bind_ok, next, induction (by omega), bind_ok,
        List.range_succ_eq_map, List.map_cons, List.map_map, Nat.zero_mul, Nat.add_zero]
      apply congrArg (fun rest => Except.ok (_ :: rest))
      apply List.map_congr_left
      intro index _
      have moved : position + 32 + index * 32 = position + index.succ * 32 := by omega
      rw [moved]
      rfl

/-- An entry whose header fits is read within the block, and the next begins behind it:
the loop ends before its steps do. -/
theorem parseArrayLoop_eq {stop fuel p : Nat} (small : stop < 2 ^ 63)
    (enough : stop < p + fuel) (started : 0 < fuel) :
    parseArrayLoop block stop fuel p =
      .ok (SysChunk.parseArrayLoop block stop fuel p) := by
  have limit : usizeMax = 2 ^ 64 - 1 := rfl
  have keySize : diskKeySize = 17 := rfl
  have headerSize : chunkHeaderSize = 48 := rfl
  have size : stripeSize = 32 := rfl
  induction fuel generalizing p with
  | zero => exact absurd started (Nat.lt_irrefl 0)
  | succ fuel induction =>
      rw [parseArrayLoop, SysChunk.parseArrayLoop, keySize, headerSize, size]
      by_cases short : stop < saturatingAdd (saturatingAdd p 17) 48
      · simp only [if_pos short]
      · have key : saturatingAdd p 17 = p + 17 := by
          simp only [saturatingAdd] at short ⊢
          omega
        have header : saturatingAdd (p + 17) 48 = p + 65 := by
          rw [key] at short
          simp only [saturatingAdd] at short ⊢
          omega
        rw [key, header] at short
        simp only [key, header, if_neg short]
        simp (disch := omega) only [diskKey_eq, leU64_eq, leU16_eq, add_eq, bind_ok]
        generalize (BtrfsForensic.leU16 block (p + 17 + 44)) = count
        by_cases past : stop < saturatingAdd (p + 65) (saturatingMul count.toNat 32)
        · simp only [if_pos past]
        · have after : saturatingAdd (p + 65) (saturatingMul count.toNat 32) =
              p + 65 + count.toNat * 32 := by
            simp only [saturatingAdd, saturatingMul] at past ⊢
            omega
          rw [after] at past
          simp only [after, if_neg past]
          rw [stripes_eq (by omega), bind_ok, induction (by omega) (by omega), bind_ok]
          rfl

/-- Whatever the offset and the size: an offset behind the block yields no entry. -/
theorem parseArray_eq (small : block.length < 2 ^ 63) (arrayOff : Nat)
    (arraySize : UInt32) :
    parseArray block arrayOff arraySize =
      .ok (SysChunk.parseArray block arrayOff arraySize) := by
  rw [parseArray, SysChunk.parseArray]
  generalize saturatingAdd arrayOff arraySize.toNat = declared
  exact parseArrayLoop_eq (by omega) (by omega) (by omega)

end Array

/-! ## The checksum and the superblock -/

/-- The four bytes of the stored digest are taken by index. -/
def verifySuperblockCrc32c (crates : Crates) (block : Bytes) (coveredLen : Nat) :
    Checked Bool :=
  match getRange block 0 4 with
  | none => .ok false
  | some storedBytes => do
      let first ← get storedBytes 0
      let second ← get storedBytes 1
      let third ← get storedBytes 2
      let fourth ← get storedBytes 3
      let stored := [first, second, third, fourth]
      if coveredLen ≤ btrfsCsumSize then
        return false
      else
        match getRange block btrfsCsumSize coveredLen with
        | none => return false
        | some covered => return leBytes32 (crates.crc32c covered) == stored

def superblockCrcStatus (crates : Crates) (csumType : CsumType) (block : Bytes)
    (coveredLen : Nat) : Checked (Option Bool) :=
  match csumType with
  | .crc32c => return some (← verifySuperblockCrc32c crates block coveredLen)
  | _ => return none

def Superblock.parse (crates : Crates) (block : Bytes) :
    Checked (Except BtrfsError Superblock) := do
  let magic ← u8Array block magicOffset 8
  if magic ≠ btrfsMagic then
    return .error (.badMagic magic)
  else if block.length < sbMinLen then
    return .error (.truncated "superblock" sbMinLen block.length)
  else
    let csum ← u8Array block 0 4
    let fsid ← u8Array block 0x20 btrfsFsidSize
    let sectorsize ← leU32 block 0x90
    let csumType := CsumType.fromCode (← leU16 block 0xc4)
    let covered := max (min sectorsize.toNat block.length) btrfsCsumSize
    let crcValid ← superblockCrcStatus crates csumType block covered
    let sysChunkArraySize ← leU32 block 0xa0
    let sysChunks ← parseArray block sysChunkArrayOffset sysChunkArraySize
    return .ok {
      magic := magic
      csum := csum
      fsid := fsid
      bytenr := ← leU64 block 0x30
      flags := ← leU64 block 0x38
      generation := ← leU64 block 0x48
      root := ← leU64 block 0x50
      chunkRoot := ← leU64 block 0x58
      logRoot := ← leU64 block 0x60
      totalBytes := ← leU64 block 0x70
      bytesUsed := ← leU64 block 0x78
      rootDirObjectid := ← leU64 block 0x80
      numDevices := ← leU64 block 0x88
      sectorsize := sectorsize
      nodesize := ← leU32 block 0x94
      stripesize := ← leU32 block 0x9c
      sysChunkArraySize := sysChunkArraySize
      chunkRootGeneration := ← leU64 block 0xa4
      compatFlags := ← leU64 block 0xac
      compatRoFlags := ← leU64 block 0xb4
      incompatFlags := ← leU64 block 0xbc
      csumType := csumType
      rootLevel := u8At block 0xc6
      chunkRootLevel := u8At block 0xc7
      logRootLevel := u8At block 0xc8
      label := decodeLabel block 0x12b
      sysChunks := sysChunks
      crcValid := crcValid }

section Superblock

variable {crates : Crates} {block : Bytes}

theorem verifySuperblockCrc32c_eq (coveredLen : Nat) :
    verifySuperblockCrc32c crates block coveredLen =
      .ok (BtrfsForensic.verifySuperblockCrc32c crates block coveredLen) := by
  rw [verifySuperblockCrc32c, BtrfsForensic.verifySuperblockCrc32c]
  cases found : getRange block 0 4 with
  | none => rfl
  | some storedBytes =>
      have size : storedBytes.length = 3 + 1 := length_of_getRange found
      rcases List.exists_of_length_succ storedBytes size with ⟨first, rest, rfl⟩
      rcases List.length_eq_three.mp (Nat.succ.inj size) with ⟨second, third, fourth, rfl⟩
      dsimp only [get, bind_ok, List.getElem?_cons_zero, List.getElem?_cons_succ]
      split
      case isTrue => rfl
      case isFalse => cases getRange block btrfsCsumSize coveredLen <;> rfl

theorem superblockCrcStatus_eq (csumType : CsumType) (coveredLen : Nat) :
    superblockCrcStatus crates csumType block coveredLen =
      .ok (BtrfsForensic.superblockCrcStatus crates csumType block coveredLen) := by
  cases csumType with
  | crc32c =>
      rw [superblockCrcStatus, verifySuperblockCrc32c_eq]
      rfl
  | xxhash64 => rfl
  | sha256 => rfl
  | blake2 => rfl
  | unknown => rfl

theorem superblock_eq (small : block.length < 2 ^ 63) :
    Superblock.parse crates block = .ok (BtrfsForensic.Superblock.parse crates block) := by
  have limit : usizeMax = 2 ^ 64 - 1 := rfl
  have fsidSize : btrfsFsidSize = 16 := rfl
  have magicStart : magicOffset = 0x40 := rfl
  rw [Superblock.parse, BtrfsForensic.Superblock.parse, u8Array_eq (by omega), bind_ok]
  by_cases foreign : BtrfsForensic.u8Array block magicOffset 8 ≠ btrfsMagic
  · simp only [if_pos foreign]
    rfl
  · simp only [if_neg foreign]
    split
    case isTrue => rfl
    case isFalse =>
      simp (disch := omega) only [u8Array_eq, leU16_eq, leU32_eq, leU64_eq, bind_ok,
        superblockCrcStatus_eq, parseArray_eq]
      rfl

end Superblock

/-! ## Nodes -/

def Header.parse (block : Bytes) : Checked (Option Header) :=
  if block.length < btrfsHeaderSize then
    return none
  else do
    let csum ← u8Array block 0 4
    let fsid ← u8Array block Hdr.fsid 16
    let chunkTreeUuid ← u8Array block Hdr.chunkTreeUuid 16
    return some {
      csum := csum
      fsid := fsid
      bytenr := ← leU64 block Hdr.bytenr
      flags := ← leU64 block Hdr.flags
      chunkTreeUuid := chunkTreeUuid
      generation := ← leU64 block Hdr.generation
      owner := ← leU64 block Hdr.owner
      nritems := ← leU32 block Hdr.nritems
      level := u8At block Hdr.level }

def parseItems (block : Bytes) (nritems : Nat) : Checked (List ItemHeader) :=
  table block btrfsHeaderSize btrfsItemSize nritems fun io =>
    return {
      key := ← DiskKey.parse block io
      dataOffset := ← leU32 block (← add io diskKeySize)
      dataSize := ← leU32 block (← add (← add io diskKeySize) 4) }

def parseKeyPtrs (block : Bytes) (nritems : Nat) : Checked (List KeyPtr) :=
  table block btrfsHeaderSize btrfsKeyPtrSize nritems fun po =>
    return {
      key := ← DiskKey.parse block po
      blockptr := ← leU64 block (← add po diskKeySize)
      generation := ← leU64 block (← add (← add po diskKeySize) 8) }

def Node.parse (crates : Crates) (block : Bytes) : Checked (Except BtrfsError Node) := do
  match ← Header.parse block with
  | none => return .error (.truncated "btrfs_header" btrfsHeaderSize block.length)
  | some header =>
      let crcValid ← superblockCrcStatus crates .crc32c block block.length
      let nritems := header.nritems.toNat
      let body ← if header.level = 0 then Body.leaf <$> parseItems block nritems
        else Body.interior <$> parseKeyPtrs block nritems
      return .ok { header := header, crcValid := crcValid, body := body, block := block }

section Node

variable {crates : Crates} {block : Bytes}

theorem header_eq :
    Header.parse block = .ok (BtrfsForensic.Header.parse block) := by
  have limit : usizeMax = 2 ^ 64 - 1 := rfl
  rw [Header.parse, BtrfsForensic.Header.parse]
  split
  case isTrue => rfl
  case isFalse =>
    simp (disch := (rw [limit]; decide)) only [u8Array_eq, leU32_eq, leU64_eq, bind_ok]
    rfl

theorem parseItems_eq (small : block.length < 2 ^ 63) (nritems : Nat) :
    parseItems block nritems = .ok (BtrfsForensic.parseItems block nritems) := by
  have limit : usizeMax = 2 ^ 64 - 1 := rfl
  have size : btrfsItemSize = 25 := rfl
  have keySize : diskKeySize = 17 := rfl
  rw [parseItems, BtrfsForensic.parseItems, keySize]
  apply table_eq (by omega)
  intro index inside
  simp (disch := omega) only [add_eq, diskKey_eq, leU32_eq, bind_ok]
  rfl

theorem parseKeyPtrs_eq (small : block.length < 2 ^ 63) (nritems : Nat) :
    parseKeyPtrs block nritems = .ok (BtrfsForensic.parseKeyPtrs block nritems) := by
  have limit : usizeMax = 2 ^ 64 - 1 := rfl
  have size : btrfsKeyPtrSize = 33 := rfl
  have keySize : diskKeySize = 17 := rfl
  rw [parseKeyPtrs, BtrfsForensic.parseKeyPtrs, keySize]
  apply table_eq (by omega)
  intro index inside
  simp (disch := omega) only [add_eq, diskKey_eq, leU64_eq, bind_ok]
  rfl

theorem node_eq (small : block.length < 2 ^ 63) :
    Node.parse crates block = .ok (BtrfsForensic.Node.parse crates block) := by
  rw [Node.parse, BtrfsForensic.Node.parse, header_eq, bind_ok]
  cases BtrfsForensic.Header.parse block with
  | none => rfl
  | some header =>
      dsimp only
      rw [superblockCrcStatus_eq, bind_ok, parseItems_eq small, parseKeyPtrs_eq small,
        BtrfsForensic.Node.ofHeader]
      split <;> rfl

end Node

end Checked

end BtrfsForensic
