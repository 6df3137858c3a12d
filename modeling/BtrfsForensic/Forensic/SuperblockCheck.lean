import BtrfsForensic.Core.SuperblockPrefix
import BtrfsForensic.Core.Vfs
import BtrfsForensic.Forensic.Volume

namespace BtrfsForensic

/-! The superblock as the VFS and as the auditor read it, and which edits of it
the audit reports. -/

/-! ## Two views of the superblock -/

section Views

variable {crates : Crates} {image : Bytes}

theorem openSlice_eq (long : btrfsSuperInfoOffset.toNat ≤ image.length) :
    openSlice image = some (image.drop btrfsSuperInfoOffset.toNat) := by
  rw [openSlice, getRange_eq_some_iff]
  exact ⟨long, Nat.le_refl _, List.take_of_length_le (by rw [List.length_drop])⟩

theorem superblockBlock_eq (long : 65536 + 4096 ≤ image.length) :
    superblockBlock image =
      some ((image.drop btrfsSuperInfoOffset.toNat).take btrfsSuperInfoSize) := by
  have offset : btrfsSuperInfoOffset.toNat = 65536 := by decide
  have stop : saturatingAdd 65536 btrfsSuperInfoSize = 65536 + 4096 := by decide
  rw [superblockBlock, offset, stop, getRange_eq_some_iff]
  exact ⟨by omega, long, by rw [Nat.add_sub_cancel_left]⟩

/-- The VFS and the auditor see the same superblock exactly when neither sees one,
or its checksum comes out alike over both coverages and every entry of its
`sys_chunk_array` ends within the first 4096 bytes. -/
theorem superblock_views_agree_iff (long : 65536 + 4096 ≤ image.length)
    (bounded : image.length < usizeMax) :
    (openSlice image).map (Superblock.parse crates) =
        (superblockBlock image).map (Superblock.parse crates) ↔
      u8Array (image.drop btrfsSuperInfoOffset.toNat) magicOffset 8 ≠ btrfsMagic ∨
        ChecksumAgrees crates (image.drop btrfsSuperInfoOffset.toNat)
            btrfsSuperInfoSize ∧
          ∀ last ∈ SysChunk.arrayEnds (image.drop btrfsSuperInfoOffset.toNat)
              sysChunkArrayOffset
              (leU32 (image.drop btrfsSuperInfoOffset.toNat) 0xa0),
            last ≤ btrfsSuperInfoSize := by
  have offset : btrfsSuperInfoOffset.toNat = 65536 := by decide
  have rest : (image.drop btrfsSuperInfoOffset.toNat).length = image.length - 65536 := by
    rw [List.length_drop, offset]
  have whole : btrfsSuperInfoSize ≤ (image.drop btrfsSuperInfoOffset.toNat).length := by
    rw [rest, btrfsSuperInfoSize]
    omega
  rw [openSlice_eq (by omega), superblockBlock_eq long, Option.map_some, Option.map_some,
    Option.some.injEq,
    ← Superblock.parse_take_iff (by decide) whole (by rw [rest]; omega)]

end Views

/-! An image whose superblock declares an array of 8000 bytes, the first entry of
which has 200 stripes. -/

def widePage : Bytes :=
  overlay 8192 0
    [(magicOffset, btrfsMagic.val), (0xa0, encodeLE 4 8000),
      (sysChunkArrayOffset + diskKeySize + 44, encodeLE 2 200)]

def wideImage : Bytes := Writer.image 73728 widePage []

theorem length_wideImage : wideImage.length = 73728 := length_overlay _ _ _

theorem drop_wideImage : wideImage.drop btrfsSuperInfoOffset.toNat = widePage := by
  have offset : btrfsSuperInfoOffset.toNat = 65536 := by decide
  have size : widePage.length = 8192 := length_overlay _ _ _
  have read : getRange wideImage btrfsSuperInfoOffset.toNat
      (btrfsSuperInfoOffset.toNat + widePage.length) = some widePage :=
    getRange_overlay_patch [] [] (fun _ member => absurd member List.not_mem_nil)
      (by omega)
  rw [← (getRange_eq_some_iff.mp read).2.2, List.take_of_length_le]
  rw [List.length_drop, length_wideImage]
  omega

theorem superblock_views_agree_iff_in_wideImage :
    (openSlice wideImage).map (Superblock.parse Crates.withoutCodecs) =
        (superblockBlock wideImage).map (Superblock.parse Crates.withoutCodecs) ↔
      u8Array (wideImage.drop btrfsSuperInfoOffset.toNat) magicOffset 8 ≠ btrfsMagic ∨
        ChecksumAgrees Crates.withoutCodecs
            (wideImage.drop btrfsSuperInfoOffset.toNat) btrfsSuperInfoSize ∧
          ∀ last ∈ SysChunk.arrayEnds (wideImage.drop btrfsSuperInfoOffset.toNat)
              sysChunkArrayOffset
              (leU32 (wideImage.drop btrfsSuperInfoOffset.toNat) 0xa0),
            last ≤ btrfsSuperInfoSize :=
  superblock_views_agree_iff (by rw [length_wideImage]; decide)
    (by rw [length_wideImage]; decide)

theorem arrayEnds_widePage :
    7276 ∈ SysChunk.arrayEnds widePage sysChunkArrayOffset (leU32 widePage 0xa0) := by
  have fields : leU32 widePage 0xa0 = 8000 ∧
      SysChunk.entryEnd widePage sysChunkArrayOffset = 7276 := by
    decide +kernel
  have size : widePage.length = 8192 := length_overlay _ _ _
  have stop : min (saturatingAdd sysChunkArrayOffset (8000 : UInt32).toNat) 8192 =
      8192 := by decide
  rw [SysChunk.arrayEnds, fields.1, size, stop, SysChunk.entryEnds, fields.2,
    if_neg (by decide)]
  exact List.mem_cons_self

/-- The VFS reads an entry that the auditor does not. -/
theorem superblock_views_differ :
    65536 + 4096 ≤ wideImage.length ∧
      (openSlice wideImage).map (Superblock.parse Crates.withoutCodecs) ≠
        (superblockBlock wideImage).map (Superblock.parse Crates.withoutCodecs) := by
  have long : 65536 + 4096 ≤ wideImage.length := by
    rw [length_wideImage]
    decide
  have size : widePage.length = 8192 := length_overlay _ _ _
  have magic : u8Array widePage magicOffset 8 = btrfsMagic := by decide +kernel
  refine ⟨long, fun equal => ?_⟩
  rw [openSlice_eq (by rw [length_wideImage]; decide), superblockBlock_eq long,
    drop_wideImage, Option.map_some, Option.map_some, Option.some.injEq,
    Superblock.parse_take_iff (by decide) (by rw [size]; decide) (by rw [size]; decide)]
    at equal
  rcases equal with foreign | both
  · exact foreign magic
  · exact absurd (both.2 7276 arrayEnds_widePage) (by decide)

/-! ## Edits of the superblock -/

/-- Two images of one length differ behind the checksum field of the superblock
only, not in its magic. The superblock of the first is crc32c and verifies, and
the stored checksum is not that of the other's whole block. -/
structure TampersSuperblock (crates : Crates) (image other sbBlock edited : Bytes)
    (sb : Superblock) : Prop where
  parses : ParsesSuperblock crates image sbBlock sb
  csumType : sb.csumType = .crc32c
  verifies : sb.crcValid = some true
  sameLength : image.length = other.length
  before : AgreeOn image other 0 (btrfsSuperInfoOffset.toNat + btrfsCsumSize)
  magic : AgreeOn image other (btrfsSuperInfoOffset.toNat + magicOffset)
    (btrfsSuperInfoOffset.toNat + magicOffset + 8)
  after : AgreeOn image other
    (btrfsSuperInfoOffset.toNat + btrfsSuperInfoSize) image.length
  block : superblockBlock other = some edited
  broken : ¬DigestMatches crates edited btrfsSuperInfoSize

/-- The checksum type is still crc32c, and the bytes up to the sector size are
none or do not have the stored checksum; the sector size is clamped to the
block. -/
def FailsOwnCheck (crates : Crates) (block : Bytes) : Prop :=
  CsumType.fromCode (leU16 block 0xc4) = .crc32c ∧
    ((leU32 block 0x90).toNat ≤ btrfsCsumSize ∨
      btrfsSuperInfoSize ≤ (leU32 block 0x90).toNat ∨
      ¬DigestMatches crates block (leU32 block 0x90).toNat)

section Tampering

variable {crates : Crates} {image other sbBlock edited : Bytes} {sb : Superblock}

theorem length_of_superblockBlock {block : Bytes}
    (found : superblockBlock image = some block) : block.length = btrfsSuperInfoSize := by
  rw [length_of_getRange found]
  decide

theorem TampersSuperblock.parsesOther
    (tampers : TampersSuperblock crates image other sbBlock edited sb) :
    ParsesSuperblock crates other edited (Superblock.decode crates edited) where
  block := tampers.block
  parsed := by
    have size := length_of_superblockBlock tampers.parses.block
    have editedSize := length_of_superblockBlock tampers.block
    have length : btrfsSuperInfoSize = 4096 := rfl
    have field : magicOffset = 0x40 := rfl
    have same : u8Array sbBlock magicOffset 8 = u8Array edited magicOffset 8 := by
      rw [u8Array_eq_iff (by omega) (by omega),
        agreeOn_getRange_iff tampers.parses.block tampers.block (by decide),
        ← Nat.add_assoc]
      exact tampers.magic
    apply Superblock.parse_eq_ok
    · rw [← same]
      exact (Superblock.magic_of_parse tampers.parses.parsed)
    · rw [editedSize]
      decide

theorem crcValid_eq_false_iff (size : edited.length = btrfsSuperInfoSize)
    (broken : ¬DigestMatches crates edited btrfsSuperInfoSize) :
    (Superblock.decode crates edited).crcValid = some false ↔
      FailsOwnCheck crates edited := by
  have length : btrfsSuperInfoSize = 4096 := rfl
  have csumSize : btrfsCsumSize = 32 := rfl
  simp only [Superblock.decode, Superblock.covered, FailsOwnCheck]
  generalize (leU32 edited 0x90).toNat = sectorsize
  by_cases crc32c : CsumType.fromCode (leU16 edited 0xc4) = .crc32c
  · rw [crc32c, superblockCrcStatus, Option.some.injEq, size]
    simp only [true_and]
    by_cases small : sectorsize ≤ btrfsCsumSize
    · rw [Nat.max_eq_right (by omega), verifySuperblockCrc32c_of_le (Nat.le_refl _)]
      simp [small]
    · by_cases large : btrfsSuperInfoSize ≤ sectorsize
      · rw [Nat.min_eq_right large, Nat.max_eq_left (by omega), ← Bool.not_eq_true,
          verifySuperblockCrc32c_iff (by omega) (by omega)]
        simp [large, broken]
      · rw [Nat.min_eq_left (by omega), Nat.max_eq_left (by omega),
          ← Bool.not_eq_true, verifySuperblockCrc32c_iff (by omega) (by omega)]
        simp [small, large]
  · rw [superblockCrcStatus_of_ne crc32c]
    simp [crc32c]

/-- An edit of the superblock that breaks its checksum is reported exactly when
the checksum type it declares is still crc32c and the coverage it declares does
not verify. -/
theorem tampered_superblock_reported_iff
    (tampers : TampersSuperblock crates image other sbBlock edited sb) :
    (∃ offset, Anomaly.new (.superblockCrcMismatch offset) ∈
        auditImage crates other) ↔
      FailsOwnCheck crates edited := by
  rw [← crcValid_eq_false_iff (length_of_superblockBlock tampers.block) tampers.broken]
  simp only [superblockCrcMismatch_mem_auditImage_iff tampers.parsesOther]
  simp

end Tampering

/-! A crc32c superblock whose checksum type is edited to xxhash64. -/

def genuineSuperblock : Bytes := Volume.writeSuperblock 0 []

def relabelledSuperblock : Bytes := genuineSuperblock.set 0xc4 1

def genuineImage : Bytes := Writer.image 69632 genuineSuperblock []

def relabelledImage : Bytes := Writer.image 69632 relabelledSuperblock []

theorem genuineSuperblock_fields :
    u8Array genuineSuperblock magicOffset 8 = btrfsMagic ∧
      (Superblock.decode Crates.withoutCodecs genuineSuperblock).csumType = .crc32c ∧
      Superblock.covered genuineSuperblock = btrfsSuperInfoSize := by
  decide +kernel

theorem length_genuineSuperblock : genuineSuperblock.length = btrfsSuperInfoSize :=
  Writer.length_superblock _ _

theorem length_relabelledSuperblock :
    relabelledSuperblock.length = btrfsSuperInfoSize := by
  rw [relabelledSuperblock, List.length_set, length_genuineSuperblock]

theorem parsesSuperblock_genuine :
    ParsesSuperblock Crates.withoutCodecs genuineImage genuineSuperblock
      (Superblock.decode Crates.withoutCodecs genuineSuperblock) where
  block := superblockBlock_image length_genuineSuperblock (Nat.le_refl _)
  parsed := by
    apply Superblock.parse_eq_ok genuineSuperblock_fields.1
    rw [length_genuineSuperblock]
    decide

theorem getElem?_relabelled {index : Nat} (elsewhere : index ≠ 0x100c4) :
    genuineImage[index]? = relabelledImage[index]? := by
  by_cases inside : index < 69632
  · rw [genuineImage, relabelledImage, Writer.image, Writer.image,
      getElem?_overlay inside, getElem?_overlay inside, Option.some.injEq]
    apply overlayAt_cons_congr
    · intro reached
      replace reached : 65536 ≤ index := reached
      rw [relabelledSuperblock, List.getElem?_set_ne]
      change 0xc4 ≠ index - 65536
      omega
    · rfl
  · rw [List.getElem?_eq_none, List.getElem?_eq_none]
    · rw [relabelledImage, Writer.image, length_overlay]
      omega
    · rw [genuineImage, Writer.image, length_overlay]
      omega

/-- The edit is one byte, so the real checksum notices it. -/
theorem digest_relabelled :
    ¬DigestMatches Crates.withoutCodecs relabelledSuperblock btrfsSuperInfoSize := by
  have original : genuineSuperblock[0xc4]? = some 0 := by decide +kernel
  rw [← verifySuperblockCrc32c_iff (by decide)
    (Nat.le_of_eq length_relabelledSuperblock.symm), Bool.not_eq_true]
  apply Writer.verify_superblock_set rfl _ (by decide) original
  decide

theorem tampersSuperblock_relabelled :
    TampersSuperblock Crates.withoutCodecs genuineImage relabelledImage
      genuineSuperblock relabelledSuperblock
      (Superblock.decode Crates.withoutCodecs genuineSuperblock) where
  parses := parsesSuperblock_genuine
  csumType := genuineSuperblock_fields.2.1
  verifies := by
    rw [Superblock.crcValid_of_parse parsesSuperblock_genuine.parsed,
      genuineSuperblock_fields.2.1, genuineSuperblock_fields.2.2,
      ← length_genuineSuperblock]
    exact congrArg some (Writer.verify_sealed (by rw [length_overlay]; decide))
  sameLength := by
    rw [genuineImage, relabelledImage, Writer.image, Writer.image, length_overlay,
      length_overlay]
  before := fun index _ upper => getElem?_relabelled (by
    replace upper : index < 0x10000 + 0x20 := upper
    omega)
  magic := fun index _ upper => getElem?_relabelled (by
    replace upper : index < 0x10000 + 0x40 + 8 := upper
    omega)
  after := fun index lower _ => getElem?_relabelled (by
    replace lower : 0x10000 + 4096 ≤ index := lower
    omega)
  block := superblockBlock_image length_relabelledSuperblock (Nat.le_refl _)
  broken := digest_relabelled

theorem tampered_superblock_reported_iff_in_relabelled :
    (∃ offset, Anomaly.new (.superblockCrcMismatch offset) ∈
        auditImage Crates.withoutCodecs relabelledImage) ↔
      FailsOwnCheck Crates.withoutCodecs relabelledSuperblock :=
  tampered_superblock_reported_iff tampersSuperblock_relabelled

/-- A checksum of another type is not checked, so the edit goes unreported. -/
theorem tampered_superblock_unreported :
    TampersSuperblock Crates.withoutCodecs genuineImage relabelledImage
        genuineSuperblock relabelledSuperblock
        (Superblock.decode Crates.withoutCodecs genuineSuperblock) ∧
      ∀ offset, Anomaly.new (.superblockCrcMismatch offset) ∉
        auditImage Crates.withoutCodecs relabelledImage := by
  refine ⟨tampersSuperblock_relabelled, fun offset reported => ?_⟩
  have invalid := ((superblockCrcMismatch_mem_auditImage_iff
    tampersSuperblock_relabelled.parsesOther).mp reported).1
  rw [crcValid_eq_false_iff length_relabelledSuperblock digest_relabelled] at invalid
  have csumType : leU16 relabelledSuperblock 0xc4 = 1 := by decide +kernel
  rw [FailsOwnCheck, csumType] at invalid
  exact absurd invalid.1 (by decide)

end BtrfsForensic
