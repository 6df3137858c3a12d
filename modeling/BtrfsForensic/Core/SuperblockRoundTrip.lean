import BtrfsForensic.Core.ChunkRoundTrip

namespace BtrfsForensic

/-! The fields of a written superblock, as the reader finds them. -/

theorem SysChunk.parseArray_of_holds {block : Bytes} {arrayOff : Nat} {entries : List ArrayEntry}
    (bounded : block.length < usizeMax) {arraySize : UInt32}
    (holds : Holds block arrayOff (entries.flatMap Writer.arrayEntry))
    (declared : arraySize.toNat = (entries.flatMap Writer.arrayEntry).length) :
    SysChunk.parseArray block arrayOff arraySize = entries.map ArrayEntry.chunk := by
  have inside := holds.le
  have stop : min (saturatingAdd arrayOff arraySize.toNat) block.length =
      arrayOff + arraySize.toNat := by
    rw [saturatingAdd_eq (by omega), Nat.min_eq_left (by omega)]
  have enough : arrayOff + arraySize.toNat <
      arrayOff + (arrayOff + arraySize.toNat + 1) := by
    omega
  rcases parseArrayLoop_written bounded holds (Nat.le_add_right _ arraySize.toNat) (by omega)
    enough with ⟨count, few, parsed, _, next⟩
  have all : entries.length ≤ count := by
    by_contra missed
    have more : count + 1 ≤ entries.length := Nat.lt_of_not_le missed
    have past := next more
    have short := length_flatMap_take_mono entries more
    rw [List.take_length] at short
    omega
  simp only [SysChunk.parseArray, stop, parsed, List.take_of_length_le all]

namespace Writer

def SuperblockFields.patches (fields : SuperblockFields) : List (Nat × Bytes) :=
  [(0x20, fields.fsid.val), (magicOffset, btrfsMagic.val),
    (0x48, encodeLE 8 fields.generation.toNat), (0x50, encodeLE 8 fields.root.toNat),
    (0x58, encodeLE 8 fields.chunkRoot.toNat), (0x90, encodeLE 4 4096),
    (0x94, encodeLE 4 fields.nodesize.toNat),
    (0xa0, encodeLE 4 (sysChunkArray fields.sysChunks).length),
    (0xc4, encodeLE 2 fields.csumType.toNat),
    (sysChunkArrayOffset, sysChunkArray fields.sysChunks), (0xb2b, fields.backups)]

section Superblock

variable {crates : Crates} {fields : SuperblockFields}

theorem holds_superblock (array : (sysChunkArray fields.sysChunks).length ≤ 0x800) {off : Nat}
    {part : Bytes} (member : (off, part) ∈ fields.patches) (behind : 4 ≤ off)
    (inside : off + part.length ≤ btrfsSuperInfoSize) :
    Holds (superblock crates fields) off part := by
  have fsid : fields.fsid.val.length = 16 := fields.fsid.property
  have magic : btrfsMagic.val.length = 8 := btrfsMagic.property
  have ordered : fields.patches.IsChain EndsBefore := by
    simp only [SuperblockFields.patches, List.isChain_cons_cons, List.IsChain.singleton, and_true,
      EndsBefore, length_encodeLE, fsid, magic, magicOffset, sysChunkArrayOffset]
    omega
  have written : superblock crates fields =
      sealed crates (overlay btrfsSuperInfoSize 0 fields.patches) :=
    rfl
  have long : btrfsCsumSize < (overlay btrfsSuperInfoSize 0 fields.patches).length := by
    rw [length_overlay]
    decide
  rw [written, holds_sealed_iff long behind]
  exact holds_overlay member ordered inside

theorem magic_superblock (array : (sysChunkArray fields.sysChunks).length ≤ 0x800) :
    u8Array (superblock crates fields) magicOffset 8 = btrfsMagic := by
  have held : Holds (superblock crates fields) magicOffset btrfsMagic.val :=
    holds_superblock array (List.mem_of_getElem? (i := 1) rfl) (by decide) (by decide)
  exact u8Array_of_holds held

theorem decode_superblock {sb : Superblock} {entries : List ArrayEntry}
    (decoded : sb = Superblock.decode crates (superblock crates fields))
    (array : (sysChunkArray fields.sysChunks).length ≤ 0x800)
    (written : sysChunkArray fields.sysChunks = entries.flatMap arrayEntry) :
    sb.fsid = fields.fsid ∧ sb.root = fields.root ∧ sb.chunkRoot = fields.chunkRoot ∧
      sb.sectorsize = 4096 ∧ sb.nodesize = fields.nodesize ∧
      sb.sysChunkArraySize.toNat = (sysChunkArray fields.sysChunks).length ∧
      sb.sysChunks = entries.map ArrayEntry.chunk := by
  have word {off : Nat} {value : UInt64} (member : (off, encodeLE 8 value.toNat) ∈ fields.patches)
      (behind : 4 ≤ off) (inside : off + 8 ≤ btrfsSuperInfoSize) :
      leU64 (superblock crates fields) off = value :=
    leU64_of_holds (holds_superblock array member behind (by rwa [length_encodeLE]))
  have half {off value : Nat} (member : (off, encodeLE 4 value) ∈ fields.patches)
      (behind : 4 ≤ off) (inside : off + 4 ≤ btrfsSuperInfoSize) :
      leU32 (superblock crates fields) off = UInt32.ofNat value :=
    leU32_of_holds (holds_superblock array member behind (by rwa [length_encodeLE]))
  have fsid : Holds (superblock crates fields) 0x20 fields.fsid.val := by
    apply holds_superblock array (.head _) (by decide)
    rw [fields.fsid.property]
    decide
  have chunks : Holds (superblock crates fields) sysChunkArrayOffset
      (entries.flatMap arrayEntry) := by
    rw [← written]
    apply holds_superblock array (List.mem_of_getElem? (i := 9) rfl) (by decide)
    exact Nat.le_trans (Nat.add_le_add_left array _) (by decide)
  have root : leU64 (superblock crates fields) 0x50 = fields.root :=
    word (List.mem_of_getElem? (i := 3) rfl) (by decide) (by decide)
  have chunkRoot : leU64 (superblock crates fields) 0x58 = fields.chunkRoot :=
    word (List.mem_of_getElem? (i := 4) rfl) (by decide) (by decide)
  have sectorsize : leU32 (superblock crates fields) 0x90 = UInt32.ofNat 4096 :=
    half (List.mem_of_getElem? (i := 5) rfl) (by decide) (by decide)
  have nodesize : leU32 (superblock crates fields) 0x94 = UInt32.ofNat fields.nodesize.toNat :=
    half (List.mem_of_getElem? (i := 6) rfl) (by decide) (by decide)
  have arraySize : leU32 (superblock crates fields) 0xa0 =
      UInt32.ofNat (sysChunkArray fields.sysChunks).length :=
    half (List.mem_of_getElem? (i := 7) rfl) (by decide) (by decide)
  have small : (sysChunkArray fields.sysChunks).length < 2 ^ 32 := by omega
  have declared : (leU32 (superblock crates fields) 0xa0).toNat =
      (sysChunkArray fields.sysChunks).length := by
    rw [arraySize, UInt32.toNat_ofNat_of_lt' small]
  have bounded : (superblock crates fields).length < usizeMax := by
    rw [length_superblock]
    decide
  have parsed := SysChunk.parseArray_of_holds bounded chunks (declared.trans (by rw [written]))
  rw [UInt32.ofNat_toNat] at nodesize
  simp only [decoded, Superblock.decode]
  exact ⟨u8Array_of_holds fsid, root, chunkRoot, sectorsize, nodesize, declared, parsed⟩

end Superblock

end Writer

end BtrfsForensic
