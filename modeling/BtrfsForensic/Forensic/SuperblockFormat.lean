import BtrfsForensic.Core.Draft
import BtrfsForensic.Forensic.Audit

namespace BtrfsForensic

/-! A superblock as it lies on disk: what the reader and the auditor decode, among bytes
that neither of them looks at. -/

/-! ## Backup slots -/

/-- A backup slot and the trees that the auditor does not follow. -/
structure BackupRecord where
  backup : RootBackup
  otherTrees : List.Vector UInt8 32
  rest : List.Vector UInt8 104

namespace BackupRecord

def bytes (slot : BackupRecord) : Bytes :=
  encodeLE 8 slot.backup.treeRoot.toNat ++ (encodeLE 8 slot.backup.treeRootGen.toNat ++
    (slot.otherTrees.val ++ (encodeLE 8 slot.backup.fsRoot.toNat ++
      (encodeLE 8 slot.backup.fsRootGen.toNat ++ slot.rest.val))))

@[simp] theorem length_bytes (slot : BackupRecord) : slot.bytes.length = rootBackupSize := by
  have otherTrees := slot.otherTrees.property
  have rest := slot.rest.property
  simp only [bytes, List.length_append, length_encodeLE, otherTrees, rest]

theorem parse_of_holds (slot : BackupRecord) {entry : Bytes} (holds : Holds entry 0 slot.bytes) :
    RootBackup.parse entry = slot.backup := by
  have otherTrees := slot.otherTrees.property
  simp only [bytes, holds_append_iff, length_encodeLE, otherTrees, Nat.zero_add,
    Nat.reduceAdd] at holds
  rcases holds with ⟨treeRoot, treeRootGen, _, fsRoot, fsRootGen, _⟩
  rw [RootBackup.parse, leU64_of_holds treeRoot, leU64_of_holds treeRootGen,
    leU64_of_holds fsRoot, leU64_of_holds fsRootGen]

theorem parse_bytes (slot : BackupRecord) : RootBackup.parse slot.bytes = slot.backup :=
  slot.parse_of_holds (holds_of_eq rfl)

end BackupRecord

/-! ## The block -/

/-- A superblock, the code of its checksum type, the entries of its `sys_chunk_array`, its
backup slots, and everything else that its block holds. -/
structure SuperblockRecord where
  sb : Superblock
  csumCode : UInt16
  entries : List ArrayEntry
  slots : List.Vector BackupRecord numBackupRoots
  csumRest : List.Vector UInt8 28
  logRootTransid : List.Vector UInt8 8
  leafsize : List.Vector UInt8 4
  devItem : List.Vector UInt8 98
  labelRest : Bytes
  reserved : List.Vector UInt8 256
  arrayRest : Bytes
  rest : List.Vector UInt8 565
  magic : sb.magic = btrfsMagic
  csumType : sb.csumType = CsumType.fromCode csumCode
  chunks : sb.sysChunks = entries.map ArrayEntry.chunk
  declared : sb.sysChunkArraySize.toNat = (entries.flatMap Writer.arrayEntry).length
  arrayFits : (entries.flatMap Writer.arrayEntry).length + arrayRest.length = 0x800
  labelFits : (nameBytes sb.label).length + labelRest.length = btrfsLabelSize
  labelPlain : ∀ byte ∈ nameBytes sb.label, byte ≠ 0
  labelEnds : ∀ byte ∈ labelRest.head?, byte = 0

namespace SuperblockRecord

section Layout

variable (record : SuperblockRecord)

def labelField : Bytes := nameBytes record.sb.label ++ record.labelRest

def arrayField : Bytes := record.entries.flatMap Writer.arrayEntry ++ record.arrayRest

def slotBytes : List Bytes := record.slots.val.map BackupRecord.bytes

def scalars : Bytes :=
  record.sb.csum.val ++ (record.csumRest.val ++ (record.sb.fsid.val ++
    (encodeLE 8 record.sb.bytenr.toNat ++ (encodeLE 8 record.sb.flags.toNat ++
    (record.sb.magic.val ++ (encodeLE 8 record.sb.generation.toNat ++
    (encodeLE 8 record.sb.root.toNat ++ (encodeLE 8 record.sb.chunkRoot.toNat ++
    (encodeLE 8 record.sb.logRoot.toNat ++ (record.logRootTransid.val ++
    (encodeLE 8 record.sb.totalBytes.toNat ++ (encodeLE 8 record.sb.bytesUsed.toNat ++
    (encodeLE 8 record.sb.rootDirObjectid.toNat ++ (encodeLE 8 record.sb.numDevices.toNat ++
    (encodeLE 4 record.sb.sectorsize.toNat ++ (encodeLE 4 record.sb.nodesize.toNat ++
    (record.leafsize.val ++ (encodeLE 4 record.sb.stripesize.toNat ++
    (encodeLE 4 record.sb.sysChunkArraySize.toNat ++
    (encodeLE 8 record.sb.chunkRootGeneration.toNat ++
    (encodeLE 8 record.sb.compatFlags.toNat ++ (encodeLE 8 record.sb.compatRoFlags.toNat ++
    (encodeLE 8 record.sb.incompatFlags.toNat ++ (encodeLE 2 record.csumCode.toNat ++
    ([record.sb.rootLevel] ++ ([record.sb.chunkRootLevel] ++
      [record.sb.logRootLevel]))))))))))))))))))))))))))

def bytes : Bytes :=
  record.scalars ++ (record.devItem.val ++ (record.labelField ++ (record.reserved.val ++
    (record.arrayField ++ (record.slotBytes.flatten ++ record.rest.val)))))

/-- What is read of a superblock whose block is followed by more of the image: the checksum
is verified over what the sector size covers. -/
def read (crates : Crates) (block : Bytes) : Superblock :=
  { record.sb with
    crcValid := superblockCrcStatus crates record.sb.csumType block
      (max (min record.sb.sectorsize.toNat block.length) btrfsCsumSize) }

theorem length_scalars : record.scalars.length = sbMinLen := by
  have csum := record.sb.csum.property
  have csumRest := record.csumRest.property
  have fsid := record.sb.fsid.property
  have magic := record.sb.magic.property
  have logRootTransid := record.logRootTransid.property
  have leafsize := record.leafsize.property
  simp only [scalars, List.length_append, length_encodeLE, csum, csumRest, fsid, magic,
    logRootTransid, leafsize, List.length_singleton, Nat.reduceAdd]

theorem length_labelField : record.labelField.length = btrfsLabelSize := by
  rw [labelField, List.length_append, record.labelFits]

theorem length_arrayField : record.arrayField.length = 0x800 := by
  rw [arrayField, List.length_append, record.arrayFits]

theorem sized_slotBytes : ∀ slot ∈ record.slotBytes, slot.length = rootBackupSize := by
  intro slot member
  rcases List.mem_map.mp member with ⟨backup, _, rfl⟩
  exact backup.length_bytes

theorem length_slotBytes : record.slotBytes.flatten.length = 672 := by
  have count : record.slotBytes.length = numBackupRoots := by
    rw [slotBytes, List.length_map, record.slots.property]
  rw [List.length_flatten, List.map_congr_left record.sized_slotBytes, List.map_const',
    List.sum_replicate_nat, count]
  rfl

theorem length_bytes : record.bytes.length = btrfsSuperInfoSize := by
  have devItem := record.devItem.property
  have reserved := record.reserved.property
  have rest := record.rest.property
  simp only [bytes, List.length_append, length_scalars, devItem, length_labelField, reserved,
    length_arrayField, length_slotBytes, rest]
  rfl

end Layout

/-! ## Reading it back -/

section Reading

variable (record : SuperblockRecord) {block : Bytes}

theorem parts_of_holds (holds : Holds block 0 record.bytes) :
    Holds block 0 record.scalars ∧ Holds block 0x12b record.labelField ∧
      Holds block sysChunkArrayOffset record.arrayField ∧
      Holds block backupRootsOffset record.slotBytes.flatten := by
  have devItem := record.devItem.property
  have reserved := record.reserved.property
  simp only [bytes, holds_append_iff, length_scalars, devItem, length_labelField, reserved,
    length_arrayField, length_slotBytes, Nat.zero_add] at holds
  rcases holds with ⟨scalars, _, label, _, array, slots, _⟩
  exact ⟨scalars, label, array, slots⟩

theorem decodeLabel_of_holds (holds : Holds block 0x12b record.labelField) :
    decodeLabel block 0x12b = record.sb.label := by
  have inside := holds.le
  have size : btrfsLabelSize = 256 := rfl
  have stop : saturatingAdd 0x12b btrfsLabelSize = 0x12b + 256 := by decide
  have raw : record.labelField.takeWhile (· ≠ 0) = nameBytes record.sb.label := by
    have plain : ∀ byte ∈ nameBytes record.sb.label, decide (byte ≠ 0) = true :=
      fun byte member => decide_eq_true (record.labelPlain byte member)
    have ends := record.labelEnds
    rw [labelField, List.takeWhile_append_of_pos plain]
    cases behind : record.labelRest with
    | nil => rw [List.takeWhile_nil, List.append_nil]
    | cons byte others =>
        rw [behind] at ends
        have zero : byte = 0 := ends byte rfl
        rw [List.takeWhile_cons_of_neg (by simp [zero]), List.append_nil]
  rw [record.length_labelField, size] at inside
  rw [Holds, record.length_labelField, size] at holds
  rw [decodeLabel, stop, Nat.min_eq_left inside, holds]
  simp only [Option.getD_some, raw]
  exact fromUtf8Lossy_nameBytes _

theorem parseBackupRoots_of_holds (holds : Holds block backupRootsOffset record.slotBytes.flatten) :
    parseBackupRoots block = record.slots.val.map BackupRecord.backup := by
  have count : record.slots.val.length = numBackupRoots := record.slots.property
  have size : rootBackupSize = 168 := rfl
  have slots : numBackupRoots = 4 := rfl
  have stored : ∀ slot < numBackupRoots,
      getRange block (backupRootsOffset + slot * rootBackupSize)
        (saturatingAdd (backupRootsOffset + slot * rootBackupSize) rootBackupSize) =
          some (record.slotBytes[slot]?.getD []) := by
    intro slot inside
    have found : record.slotBytes[slot]? = some (record.slots.val[slot].bytes) := by
      rw [slotBytes, List.getElem?_map, List.getElem?_eq_getElem (by rwa [count]),
        Option.map_some]
    have offset : backupRootsOffset = 2859 := rfl
    have limit : usizeMax = 2 ^ 64 - 1 := rfl
    have small : slot * rootBackupSize ≤ 504 := by
      rw [size]
      omega
    rw [found, Option.getD_some, saturatingAdd_eq (by omega), Nat.add_assoc,
      Nat.mul_comm slot]
    exact holds.getRange_block record.sized_slotBytes found
  rw [parseBackupRoots_eq_map stored]
  apply List.ext_getElem?
  intro slot
  rw [List.getElem?_map, List.getElem?_map]
  by_cases inside : slot < numBackupRoots
  · have listed : slot < record.slots.val.length := by rwa [count]
    rw [List.getElem?_range inside, Option.map_some, slotBytes, List.getElem?_map,
      List.getElem?_eq_getElem listed, Option.map_some, Option.map_some, Option.getD_some,
      BackupRecord.parse_bytes]
  · rw [List.getElem?_eq_none (by rw [List.length_range]; omega),
      List.getElem?_eq_none (by omega)]
    rfl

theorem parse_of_holds {crates : Crates} (bounded : block.length < usizeMax)
    (holds : Holds block 0 record.bytes) :
    Superblock.parse crates block = .ok (record.read crates block) := by
  have csum := record.sb.csum.property
  have csumRest := record.csumRest.property
  have fsid := record.sb.fsid.property
  have magic := record.sb.magic.property
  have logRootTransid := record.logRootTransid.property
  have leafsize := record.leafsize.property
  rcases record.parts_of_holds holds with ⟨scalars, label, array, _⟩
  have chunks := SysChunk.parseArray_of_holds bounded (holds_append_iff.mp array).1
    record.declared
  rw [← record.chunks] at chunks
  simp only [SuperblockRecord.scalars, holds_append_iff, holds_singleton_iff, length_encodeLE,
    csum, csumRest, fsid, magic, logRootTransid, leafsize, List.length_singleton, Nat.zero_add,
    Nat.reduceAdd] at scalars
  rcases scalars with ⟨csumAt, _, fsidAt, bytenr, flags, magicAt, generation, root, chunkRoot,
    logRoot, _, totalBytes, bytesUsed, rootDirObjectid, numDevices, sectorsize, nodesize, _,
    stripesize, arraySize, chunkRootGeneration, compatFlags, compatRoFlags, incompatFlags,
    csumCode, rootLevel, chunkRootLevel, logRootLevel⟩
  have size := leU32_of_holds_toNat sectorsize
  have code := leU16_of_holds csumCode
  have covered : Superblock.covered block =
      max (min record.sb.sectorsize.toNat block.length) btrfsCsumSize := by
    rw [Superblock.covered, size]
  have accepted : u8Array block magicOffset 8 = btrfsMagic := by
    rw [← record.magic]
    exact u8Array_of_holds magicAt
  have long : sbMinLen ≤ block.length := by
    have inside := holds.le
    rw [record.length_bytes, Nat.zero_add] at inside
    exact Nat.le_trans (by decide) inside
  rw [Superblock.parse_eq_ok accepted long, read]
  simp only [Superblock.decode, covered, size, code, ← record.csumType,
    u8Array_of_holds csumAt, u8Array_of_holds fsidAt, u8Array_of_holds magicAt,
    leU64_of_holds bytenr, leU64_of_holds flags, leU64_of_holds generation,
    leU64_of_holds root, leU64_of_holds chunkRoot, leU64_of_holds logRoot,
    leU64_of_holds totalBytes, leU64_of_holds bytesUsed, leU64_of_holds rootDirObjectid,
    leU64_of_holds numDevices, leU32_of_holds_toNat nodesize,
    leU32_of_holds_toNat stripesize, leU32_of_holds_toNat arraySize,
    leU64_of_holds chunkRootGeneration, leU64_of_holds compatFlags,
    leU64_of_holds compatRoFlags, leU64_of_holds incompatFlags,
    u8At_of_getElem? rootLevel, u8At_of_getElem? chunkRootLevel,
    u8At_of_getElem? logRootLevel, record.decodeLabel_of_holds label, chunks]

theorem crcValid_read_iff {crates : Crates} (crc32c : record.sb.csumType = .crc32c) :
    (record.read crates record.bytes).crcValid = some true ↔
      btrfsCsumSize < record.sb.sectorsize.toNat ∧ record.sb.csum.val =
        leBytes32 (crates.crc32c
          ((record.bytes.take record.sb.sectorsize.toNat).drop btrfsCsumSize)) := by
  have csumSize : btrfsCsumSize = 32 := rfl
  have size := record.length_bytes
  have blockSize : btrfsSuperInfoSize = 4096 := rfl
  have whole : Holds record.bytes 0 record.scalars :=
    (record.parts_of_holds (holds_of_eq rfl)).1
  have stored : record.bytes.take 4 = record.sb.csum.val := by
    have csum := (holds_append_iff.mp whole).1
    rw [holds_iff, record.sb.csum.property, List.drop_zero] at csum
    exact csum.2
  rw [read]
  dsimp only
  rw [crc32c, superblockCrcStatus, Option.some.injEq]
  by_cases covers : btrfsCsumSize < record.sb.sectorsize.toNat
  · have front : record.bytes.take (min record.sb.sectorsize.toNat record.bytes.length) =
        record.bytes.take record.sb.sectorsize.toNat := by
      rcases Nat.le_total record.sb.sectorsize.toNat record.bytes.length with within | beyond
      · rw [Nat.min_eq_left within]
      · rw [Nat.min_eq_right beyond, List.take_length, List.take_of_length_le beyond]
    rw [Nat.max_eq_left (by omega), verifySuperblockCrc32c_iff (by omega)
      (Nat.min_le_right _ _), DigestMatches, stored, front, eq_comm]
    simp only [covers, true_and]
  · rw [verifySuperblockCrc32c_of_le (by omega)]
    simp [covers]

/-- A checksum that covers no more than the block does not depend on what follows. -/
theorem read_append {crates : Crates} (within : record.sb.sectorsize.toNat ≤ btrfsSuperInfoSize)
    (following : Bytes) :
    record.read crates (record.bytes ++ following) = record.read crates record.bytes := by
  have csumSize : btrfsCsumSize = 32 := rfl
  have size := record.length_bytes
  have blockSize : btrfsSuperInfoSize = 4096 := rfl
  have front : (record.bytes ++ following).take record.bytes.length = record.bytes :=
    List.take_left' rfl
  have covered : max (min record.sb.sectorsize.toNat (record.bytes ++ following).length)
      btrfsCsumSize = max (min record.sb.sectorsize.toNat record.bytes.length) btrfsCsumSize := by
    rw [List.length_append]
    omega
  have verified : verifySuperblockCrc32c crates (record.bytes ++ following)
      (max (min record.sb.sectorsize.toNat record.bytes.length) btrfsCsumSize) =
        verifySuperblockCrc32c crates record.bytes
          (max (min record.sb.sectorsize.toNat record.bytes.length) btrfsCsumSize) := by
    have long : 4 ≤ record.bytes.length := by omega
    have inside : max (min record.sb.sectorsize.toNat record.bytes.length) btrfsCsumSize ≤
        record.bytes.length := by
      omega
    rw [← verifySuperblockCrc32c_take long inside, front]
  rw [read, read, covered]
  cases type : record.sb.csumType with
  | crc32c => rw [superblockCrcStatus, superblockCrcStatus, verified]
  | _ => rfl

end Reading

end SuperblockRecord

/-! ## In an image -/

/-- A superblock that lies in an image is read back whole, by the mount with whatever follows
its block and by the audit from its block alone, and the two agree as long as the sector size
does not lead past the block. -/
theorem superblock_roundTrip (record : SuperblockRecord) (crates : Crates) {image : Bytes}
    (short : image.length < usizeMax)
    (holds : Holds image btrfsSuperInfoOffset.toNat record.bytes) :
    ∃ slice, openSlice image = some slice ∧ superblockBlock image = some record.bytes ∧
      Superblock.parse crates slice = .ok (record.read crates slice) ∧
      Superblock.parse crates record.bytes = .ok (record.read crates record.bytes) ∧
      (record.sb.sectorsize.toNat ≤ btrfsSuperInfoSize →
        record.read crates slice = record.read crates record.bytes) ∧
      parseBackupRoots record.bytes = record.slots.val.map BackupRecord.backup ∧
      (record.sb.csumType = .crc32c →
        ((record.read crates record.bytes).crcValid = some true ↔
          btrfsCsumSize < record.sb.sectorsize.toNat ∧ record.sb.csum.val =
            leBytes32 (crates.crc32c
              ((record.bytes.take record.sb.sectorsize.toNat).drop btrfsCsumSize)))) := by
  have offset : btrfsSuperInfoOffset.toNat = 65536 := by decide
  have blockSize : btrfsSuperInfoSize = 4096 := rfl
  have stop : saturatingAdd 65536 btrfsSuperInfoSize = 65536 + btrfsSuperInfoSize := by decide
  have size := record.length_bytes
  have inside := holds.le
  have block : superblockBlock image = some record.bytes := by
    rw [superblockBlock, offset, stop, ← size, ← offset]
    exact holds
  have front := (holds_iff.mp holds).2
  rw [offset] at inside front
  have split : image.drop 65536 =
      record.bytes ++ (image.drop 65536).drop record.bytes.length := by
    conv => lhs; rw [← List.take_append_drop record.bytes.length (image.drop 65536), front]
  have bounded : (image.drop 65536).length < usizeMax := by
    rw [List.length_drop]
    omega
  have found : openSlice image = some (image.drop 65536) := by
    rw [openSlice, offset, getRange_to_end, if_pos (by omega)]
  have slots : Holds record.bytes backupRootsOffset record.slotBytes.flatten :=
    (record.parts_of_holds (holds_of_eq rfl)).2.2.2
  refine ⟨image.drop 65536, found, block, record.parse_of_holds bounded ?_,
    record.parse_of_holds (by rw [size]; decide) (holds_of_eq rfl), fun within => ?_,
    record.parseBackupRoots_of_holds slots, record.crcValid_read_iff⟩
  · exact holds_of_append (split.trans (List.nil_append _).symm) rfl
  · rw [split]
    exact record.read_append within _

/-! A superblock with a label, a chunk and a backup slot; the other slots and all that is not
read are filled with other bytes. -/

namespace Sample

def slot : BackupRecord :=
  ⟨⟨0x101000, 8, 0x102000, 8⟩, List.Vector.replicate 32 5, List.Vector.replicate 104 6⟩

def emptySlot : BackupRecord :=
  ⟨RootBackup.parse [], List.Vector.replicate 32 5, List.Vector.replicate 104 6⟩

def recordEntry : ArrayEntry := Writer.plainEntry 0x100000 0x200000 0x12000

def archive : Superblock where
  magic := btrfsMagic
  csum := List.Vector.replicate 4 1
  fsid := List.Vector.replicate 16 7
  bytenr := 65536
  flags := 1
  generation := 9
  root := 0x101000
  chunkRoot := 0x100000
  logRoot := 0
  totalBytes := 0x8000000
  bytesUsed := 0x24000
  rootDirObjectid := 6
  numDevices := 1
  sectorsize := 4096
  nodesize := 4096
  stripesize := 4096
  sysChunkArraySize := 97
  chunkRootGeneration := 9
  compatFlags := 0
  compatRoFlags := 3
  incompatFlags := 0x361
  csumType := .crc32c
  rootLevel := 0
  chunkRootLevel := 0
  logRootLevel := 0
  label := "archive"
  sysChunks := [recordEntry.chunk]
  crcValid := none

/-- A label ends with its first NUL; what is behind it does not show. -/
def labelBehind : Bytes := 0 :: List.replicate 248 9

def arrayBehind : Bytes := List.replicate 1951 3

theorem label_plain : ∀ byte ∈ nameBytes archive.label, byte ≠ 0 := by decide +kernel

theorem label_fits : (nameBytes archive.label).length + labelBehind.length = btrfsLabelSize := by
  decide +kernel

theorem label_ends : ∀ byte ∈ labelBehind.head?, byte = 0 := by
  intro byte member
  rw [labelBehind, List.head?_cons] at member
  exact (Option.some.inj member).symm

theorem entry_declared : archive.sysChunkArraySize.toNat =
    ([recordEntry].flatMap Writer.arrayEntry).length := by
  rw [List.flatMap_singleton, Writer.length_arrayEntry]
  rfl

theorem entry_fits : ([recordEntry].flatMap Writer.arrayEntry).length + arrayBehind.length =
    0x800 := by
  rw [← entry_declared, arrayBehind, List.length_replicate]
  rfl

def record : SuperblockRecord where
  sb := archive
  csumCode := 0
  entries := [recordEntry]
  slots := ⟨[slot, emptySlot, emptySlot, emptySlot], rfl⟩
  csumRest := List.Vector.replicate 28 2
  logRootTransid := List.Vector.replicate 8 2
  leafsize := List.Vector.replicate 4 2
  devItem := List.Vector.replicate 98 2
  labelRest := labelBehind
  reserved := List.Vector.replicate 256 2
  arrayRest := arrayBehind
  rest := List.Vector.replicate 565 2
  magic := rfl
  csumType := rfl
  chunks := rfl
  declared := entry_declared
  arrayFits := entry_fits
  labelFits := label_fits
  labelPlain := label_plain
  labelEnds := label_ends

def recordImage : Bytes := overlay 0x20000 0 [(65536, record.bytes)]

theorem holds_recordImage : Holds recordImage btrfsSuperInfoOffset.toNat record.bytes := by
  have offset : btrfsSuperInfoOffset.toNat = 65536 := by decide
  rw [offset]
  refine getRange_overlay_patch [] [] (fun _ member => absurd member List.not_mem_nil) ?_
  rw [record.length_bytes]
  decide

theorem short_recordImage : recordImage.length < usizeMax := by
  rw [recordImage, length_overlay]
  decide

end Sample

theorem superblock_roundTrip_in_sample :
    ∃ slice, openSlice Sample.recordImage = some slice ∧
      superblockBlock Sample.recordImage = some Sample.record.bytes ∧
      Superblock.parse Crates.withoutCodecs slice =
        .ok (Sample.record.read Crates.withoutCodecs slice) ∧
      Superblock.parse Crates.withoutCodecs Sample.record.bytes =
        .ok (Sample.record.read Crates.withoutCodecs Sample.record.bytes) ∧
      Sample.record.read Crates.withoutCodecs slice =
        Sample.record.read Crates.withoutCodecs Sample.record.bytes ∧
      parseBackupRoots Sample.record.bytes =
        Sample.record.slots.val.map BackupRecord.backup := by
  rcases superblock_roundTrip Sample.record Crates.withoutCodecs Sample.short_recordImage
    Sample.holds_recordImage with ⟨slice, found, block, mounted, audited, same, slots, _⟩
  exact ⟨slice, found, block, mounted, audited, same (by decide), slots⟩

end BtrfsForensic
