import BtrfsForensic.Core.Extent
import BtrfsForensic.Core.Translation
import BtrfsForensic.Foundation.First

namespace BtrfsForensic

/-! Only the first byte of a node or of an uncompressed extent is translated;
the rest is read from the bytes that follow it physically. Inside the chunk
that translated the first byte this is the translation of every byte. -/

/-! ## The translating chunk -/

theorem MapEntry.target_step {entry : MapEntry} {first later : UInt64}
    (firstCovers : entry.Covers first) (laterCovers : entry.Covers later)
    {devid phys laterDev laterPhys : UInt64}
    (firstTarget : entry.target first = some (devid, phys))
    (laterTarget : entry.target later = some (laterDev, laterPhys))
    {step : Nat} (apart : later.toNat = first.toNat + step) :
    laterPhys.toNat = phys.toNat + step := by
  rcases (target_eq_some_iff firstCovers).mp firstTarget with
    ⟨physStart, stripe, sum⟩
  rcases (target_eq_some_iff laterCovers).mp laterTarget with
    ⟨laterStart, laterStripe, laterSum⟩
  have sameStripe := stripe.symm.trans laterStripe
  simp only [Option.some.injEq, Prod.mk.injEq] at sameStripe
  rw [laterSum, sum, ← sameStripe.2]
  have lower := firstCovers.1
  omega

theorem SysChunk.logicalToPhysical_eq_some {chunk : SysChunk}
    {logical phys : UInt64}
    (found : chunk.logicalToPhysical logical = some phys) :
    (MapEntry.ofSysChunk chunk).Covers logical ∧
      ∃ devid, (MapEntry.ofSysChunk chunk).target logical = some (devid, phys) := by
  rw [SysChunk.logicalToPhysical] at found
  simp only [Option.bind_eq_bind, Option.bind_eq_some_iff] at found
  rcases found with ⟨stop, sum, inside⟩
  have stopSum := checkedAdd_eq_some_iff.mp sum
  split at inside
  · cases inside
  · rename_i within
    rcases Option.bind_eq_some_iff.mp inside with ⟨stripe, first, added⟩
    have bounds : chunk.key.offset ≤ logical ∧ logical < stop := by
      simpa only [not_or, UInt64.not_lt, UInt64.not_le] using within
    rw [UInt64.le_iff_toNat_le, UInt64.lt_iff_toNat_lt] at bounds
    refine ⟨⟨bounds.1, ?_⟩, stripe.devid, ?_⟩
    · change logical.toNat - chunk.key.offset.toNat < chunk.length.toNat
      omega
    · simp [MapEntry.target, MapEntry.ofSysChunk, first, added]

namespace ChunkMap

def chunkOf (map : ChunkMap) (logical : UInt64) : Option MapEntry :=
  if (map.logicalToPhysical logical).isSome then
    map.entries.find? fun entry => entry.Covers logical
  else
    none

theorem chunkOf_eq_some {map : ChunkMap} {logical : UInt64} {entry : MapEntry}
    (found : map.chunkOf logical = some entry) :
    entry.Covers logical ∧
      ∃ devid phys, map.logicalToPhysical logical = some (devid, phys) ∧
        entry.target logical = some (devid, phys) := by
  rw [chunkOf] at found
  split at found
  case isFalse => cases found
  case isTrue mapped =>
    have covers : entry.Covers logical := by simpa using List.find?_some found
    refine ⟨covers, ?_⟩
    rcases Option.isSome_iff_exists.mp mapped with ⟨⟨devid, phys⟩, target⟩
    refine ⟨devid, phys, target, ?_⟩
    rw [logicalToPhysical, lookup_eq_translate] at target
    split at target
    · cases target
    · rwa [translate, found, Option.bind_some] at target

theorem exists_chunkOf {map : ChunkMap} {logical : UInt64}
    {target : UInt64 × UInt64}
    (mapped : map.logicalToPhysical logical = some target) :
    ∃ entry, map.chunkOf logical = some entry := by
  rw [chunkOf, mapped, Option.isSome_some, if_pos rfl]
  rw [logicalToPhysical, lookup_eq_translate] at mapped
  split at mapped
  · cases mapped
  · rw [translate, Option.bind_eq_some_iff] at mapped
    rcases mapped with ⟨entry, found, _⟩
    exact ⟨entry, found⟩

end ChunkMap

/-- The chunk `readNode` translates an address through, of the map or of the
`sys_chunk_array`. -/
def nodeChunk (sb : Superblock) (map : ChunkMap) (logical : UInt64) :
    Option MapEntry :=
  (map.chunkOf logical).or <|
    (sb.sysChunks.find? fun chunk => (chunk.logicalToPhysical logical).isSome).map
      MapEntry.ofSysChunk

theorem nodeChunk_eq_some {sb : Superblock} {map : ChunkMap} {logical : UInt64}
    {entry : MapEntry} (found : nodeChunk sb map logical = some entry) :
    entry.Covers logical ∧
      ∃ devid targetDev phys, nodePhysical sb map logical = some (devid, phys) ∧
        entry.target logical = some (targetDev, phys) := by
  rw [nodeChunk] at found
  cases direct : map.chunkOf logical with
  | some known =>
      rw [direct, Option.some_or] at found
      cases found
      rcases ChunkMap.chunkOf_eq_some direct with
        ⟨covers, devid, phys, mapped, target⟩
      exact ⟨covers, devid, devid, phys,
        by rw [nodePhysical, mapped, Option.some_or], target⟩
  | none =>
      have unmapped : map.logicalToPhysical logical = none := by
        cases mapped : map.logicalToPhysical logical with
        | none => rfl
        | some target =>
            rcases ChunkMap.exists_chunkOf mapped with ⟨other, known⟩
            rw [direct] at known
            cases known
      rw [direct, Option.none_or, Option.map_eq_some_iff] at found
      rcases found with ⟨chunk, first, rfl⟩
      have answers := List.find?_some first
      rcases Option.isSome_iff_exists.mp answers with ⟨phys, known⟩
      rcases SysChunk.logicalToPhysical_eq_some known with ⟨covers, devid, target⟩
      refine ⟨covers, 0, devid, phys, ?_, target⟩
      rw [nodePhysical, unmapped, Option.none_or, findSome?_eq_bind]
      simp only [Option.isSome_map, first, Option.bind_some, known,
        Option.map_some]

/-! ## Reading linearly -/

/-- Every byte is the image byte its own address translates to. -/
def ReadsTranslated (translate : UInt64 → Option (UInt64 × UInt64))
    (image : Bytes) (first : Nat) (bytes : Bytes) : Prop :=
  ∀ index < bytes.length, ∀ address : UInt64, address.toNat = first + index →
    ∃ devid phys, translate address = some (devid, phys) ∧
      bytes[index]? = image[phys.toNat]?

/-- The same for the bytes whose address is translated through `chunk`. -/
def ReadsTranslatedWithin (chunkOf : UInt64 → Option MapEntry) (chunk : MapEntry)
    (translate : UInt64 → Option (UInt64 × UInt64)) (image : Bytes)
    (first : Nat) (bytes : Bytes) : Prop :=
  ∀ index < bytes.length, ∀ address : UInt64, address.toNat = first + index →
    chunkOf address = some chunk →
    ∃ devid phys, translate address = some (devid, phys) ∧
      bytes[index]? = image[phys.toNat]?

section Reading

variable {crates : Crates} {image : Bytes} {sb : Superblock} {map : ChunkMap}

theorem readNode_linear {logical : UInt64} {node : Node}
    (read : readNode crates image sb map logical = .ok node) :
    ∃ devid phys chunk, nodePhysical sb map logical = some (devid, phys) ∧
      nodeChunk sb map logical = some chunk ∧
      ∀ index < node.block.length,
        node.block[index]? = image[phys.toNat + index]? := by
  rcases readNode_eq_ok_iff.mp read with
    ⟨devid, phys, block, physical, found, _, rfl⟩
  have chunkFound : ∃ chunk, nodeChunk sb map logical = some chunk := by
    rw [nodeChunk]
    cases mapped : map.logicalToPhysical logical with
    | some target =>
        rcases ChunkMap.exists_chunkOf mapped with ⟨chunk, known⟩
        exact ⟨chunk, by rw [known, Option.some_or]⟩
    | none =>
        have noChunk : map.chunkOf logical = none := by
          rw [ChunkMap.chunkOf, mapped]
          rfl
        rw [nodePhysical, mapped, Option.none_or, findSome?_eq_bind,
          Option.bind_eq_some_iff] at physical
        rcases physical with ⟨chunk, first, _⟩
        simp only [Option.isSome_map] at first
        exact ⟨_, by rw [noChunk, Option.none_or, first, Option.map_some]⟩
  rcases chunkFound with ⟨chunk, known⟩
  exact ⟨devid, phys, chunk, physical, known,
    fun index bound => getElem?_of_getRange found index bound⟩

theorem readNode_within {logical : UInt64} {node : Node} {chunk : MapEntry}
    (read : readNode crates image sb map logical = .ok node)
    (known : nodeChunk sb map logical = some chunk) :
    ReadsTranslatedWithin (nodeChunk sb map) chunk (nodePhysical sb map) image
      logical.toNat node.block := by
  intro index bound address apart sameChunk
  rcases readNode_linear read with ⟨devid, phys, _, physical, _, linear⟩
  rcases nodeChunk_eq_some known with ⟨covers, _, _, _, again, target⟩
  rw [physical] at again
  cases again
  rcases nodeChunk_eq_some sameChunk with
    ⟨laterCovers, laterDev, _, laterPhys, laterPhysical, laterTarget⟩
  refine ⟨laterDev, laterPhys, laterPhysical, ?_⟩
  rw [linear index bound,
    MapEntry.target_step covers laterCovers target laterTarget apart]

theorem readRegularExtent_within {sectorsize : UInt32}
    {diskBytenr extOffset numBytes ramBytes : UInt64} {bytes : Bytes}
    {chunk : MapEntry}
    (read : readRegularExtent crates image map sectorsize .none diskBytenr
      extOffset numBytes ramBytes = .ok bytes)
    (known : map.chunkOf diskBytenr = some chunk) :
    ReadsTranslatedWithin map.chunkOf chunk map.logicalToPhysical image
      (diskBytenr.toNat + extOffset.toNat) bytes := by
  intro index bound address apart sameChunk
  rcases readRegularExtent_none_eq_ok_iff.mp read with ⟨_, devid, phys, mapped, found⟩
  rcases ChunkMap.chunkOf_eq_some known with ⟨covers, _, _, again, target⟩
  rw [mapped] at again
  cases again
  rcases ChunkMap.chunkOf_eq_some sameChunk with
    ⟨laterCovers, laterDev, laterPhys, laterMapped, laterTarget⟩
  refine ⟨laterDev, laterPhys, laterMapped, ?_⟩
  have sum : laterPhys.toNat = phys.toNat + (extOffset.toNat + index) :=
    MapEntry.target_step covers laterCovers target laterTarget (by omega)
  have physBound := laterPhys.toNat_lt
  rw [getElem?_of_getRange found index bound,
    saturatingAdd_eq (by rw [usizeMax]; omega), sum, Nat.add_assoc]

/-- What a read yields: byte `i` of a node, or of an uncompressed extent, is
the image byte `i` places after the one its first byte translates to, and that
is where byte `i`'s own address translates to whenever the chunk that
translated the first byte (of the extent: `disk_bytenr`) translates it too. -/
theorem reads_follow_the_first_chunk :
    (∀ logical node, readNode crates image sb map logical = .ok node →
      ∃ devid phys chunk, nodePhysical sb map logical = some (devid, phys) ∧
        nodeChunk sb map logical = some chunk ∧
        (∀ index < node.block.length,
          node.block[index]? = image[phys.toNat + index]?) ∧
        ReadsTranslatedWithin (nodeChunk sb map) chunk (nodePhysical sb map)
          image logical.toNat node.block) ∧
    (∀ sectorsize diskBytenr extOffset numBytes ramBytes bytes,
      readRegularExtent crates image map sectorsize .none diskBytenr extOffset
        numBytes ramBytes = .ok bytes →
      ∃ devid phys chunk, map.logicalToPhysical diskBytenr = some (devid, phys) ∧
        map.chunkOf diskBytenr = some chunk ∧
        (∀ index < bytes.length, bytes[index]? =
          image[saturatingAdd phys.toNat extOffset.toNat + index]?) ∧
        ReadsTranslatedWithin map.chunkOf chunk map.logicalToPhysical image
          (diskBytenr.toNat + extOffset.toNat) bytes) := by
  constructor
  · intro logical node read
    rcases readNode_linear read with ⟨devid, phys, chunk, physical, known, linear⟩
    exact ⟨devid, phys, chunk, physical, known, linear, readNode_within read known⟩
  · intro sectorsize diskBytenr extOffset numBytes ramBytes bytes read
    rcases readRegularExtent_none_eq_ok_iff.mp read with ⟨_, devid, phys, mapped, found⟩
    rcases ChunkMap.exists_chunkOf mapped with ⟨chunk, known⟩
    exact ⟨devid, phys, chunk, mapped, known,
      fun index bound => getElem?_of_getRange found index bound,
      readRegularExtent_within read known⟩

end Reading

/-! Two chunks that are neighbours logically and far apart physically. -/

/-- `[4096, 4160)` at physical 0, then `[4160, 8192)` at physical 1024. -/
def splitMap : ChunkMap :=
  ⟨[⟨4096, 64, [(1, 0)]⟩, ⟨4160, 4032, [(1, 1024)]⟩]⟩

def smallNodeSuperblock : Superblock :=
  Superblock.decode Crates.withoutCodecs
    (overlay 256 0 [(0x94, encodeLE 4 128)])

/-- Zeros, but for the byte behind the first chunk. -/
def splitImage : Bytes := overlay 2048 0 [(64, [7])]

def splitNode : Node :=
  Node.ofBlock Crates.withoutCodecs (overlay 128 0 [(64, [7])])

theorem readNode_splitImage :
    readNode Crates.withoutCodecs splitImage smallNodeSuperblock splitMap 4096 =
      .ok splitNode :=
  readNode_eq_ok_iff.mpr ⟨1, 0, overlay 128 0 [(64, [7])], by decide +kernel,
    by decide +kernel, by decide +kernel, rfl⟩

theorem readRegularExtent_splitImage :
    readRegularExtent Crates.withoutCodecs splitImage splitMap 4096 .none
      4096 0 128 0 = .ok (overlay 128 0 [(64, [7])]) := by
  decide +kernel

/-- A node and an extent that cross the end of their chunk are read from what
lies physically behind it. -/
theorem reads_cross_the_chunk_end :
    readNode Crates.withoutCodecs splitImage smallNodeSuperblock splitMap 4096 =
        .ok splitNode ∧
      ¬ReadsTranslated (nodePhysical smallNodeSuperblock splitMap) splitImage
        4096 splitNode.block ∧
      readRegularExtent Crates.withoutCodecs splitImage splitMap 4096 .none
        4096 0 128 0 = .ok splitNode.block ∧
      ¬ReadsTranslated splitMap.logicalToPhysical splitImage 4096
        splitNode.block := by
  have tail : splitNode.block[64]? = some 7 := by decide +kernel
  have behind : splitImage[1024]? = some 0 := by decide +kernel
  refine ⟨readNode_splitImage, fun translated => ?_,
    readRegularExtent_splitImage, fun translated => ?_⟩
  · rcases translated 64 (by decide +kernel) 4160 (by decide) with
      ⟨devid, phys, physical, same⟩
    have target : nodePhysical smallNodeSuperblock splitMap 4160 =
        some (1, 1024) := by decide +kernel
    rw [target] at physical
    cases physical
    rw [tail, show (1024 : UInt64).toNat = 1024 by decide, behind] at same
    exact absurd same (by decide)
  · rcases translated 64 (by decide +kernel) 4160 (by decide) with
      ⟨devid, phys, physical, same⟩
    have target : splitMap.logicalToPhysical 4160 = some (1, 1024) := by
      decide +kernel
    rw [target] at physical
    cases physical
    rw [tail, show (1024 : UInt64).toNat = 1024 by decide, behind] at same
    exact absurd same (by decide)

theorem reads_follow_the_first_chunk_in_splitImage :
    (∃ devid phys chunk,
      nodePhysical smallNodeSuperblock splitMap 4096 = some (devid, phys) ∧
        nodeChunk smallNodeSuperblock splitMap 4096 = some chunk ∧
        (∀ index < splitNode.block.length,
          splitNode.block[index]? = splitImage[phys.toNat + index]?) ∧
        ReadsTranslatedWithin (nodeChunk smallNodeSuperblock splitMap) chunk
          (nodePhysical smallNodeSuperblock splitMap) splitImage
          (4096 : UInt64).toNat splitNode.block) ∧
    (∃ devid phys chunk,
      splitMap.logicalToPhysical 4096 = some (devid, phys) ∧
        splitMap.chunkOf 4096 = some chunk ∧
        (∀ index < splitNode.block.length, splitNode.block[index]? =
          splitImage[saturatingAdd phys.toNat (0 : UInt64).toNat + index]?) ∧
        ReadsTranslatedWithin splitMap.chunkOf chunk splitMap.logicalToPhysical
          splitImage ((4096 : UInt64).toNat + (0 : UInt64).toNat)
          splitNode.block) :=
  ⟨(@reads_follow_the_first_chunk Crates.withoutCodecs splitImage
      smallNodeSuperblock splitMap).1 4096 splitNode readNode_splitImage,
    (@reads_follow_the_first_chunk Crates.withoutCodecs splitImage
      smallNodeSuperblock splitMap).2 4096 4096 0 128 0 _
      readRegularExtent_splitImage⟩

end BtrfsForensic
