import BtrfsForensic.Core.Streams
import BtrfsForensic.Core.SuperblockPrefix

namespace BtrfsForensic

/-! What an opened image was opened from. -/

/-- What a superblock declares to be checked and decoded lies in its own block. -/
structure Superblock.Confined (sb : Superblock) : Prop where
  sectorsize : sb.sectorsize.toNat ≤ btrfsSuperInfoSize
  array : sysChunkArrayOffset + sb.sysChunkArraySize.toNat ≤ btrfsSuperInfoSize

section Opening

variable {crates : Crates} {image sbBlock : Bytes} {sb : Superblock} {fs : BtrfsFs}

theorem parse_openSlice_of_confined (short : image.length < usizeMax)
    (block : getRange image btrfsSuperInfoOffset.toNat
      (saturatingAdd btrfsSuperInfoOffset.toNat btrfsSuperInfoSize) = some sbBlock)
    (parsed : Superblock.parse crates sbBlock = .ok sb) (confined : sb.Confined) :
    ∃ slice, openSlice image = some slice ∧ Superblock.parse crates slice = .ok sb := by
  have offset : btrfsSuperInfoOffset.toNat = 65536 := by decide
  have size : btrfsSuperInfoSize = 4096 := rfl
  have stop : saturatingAdd btrfsSuperInfoOffset.toNat btrfsSuperInfoSize = 69632 := by decide
  rw [stop, offset] at block
  rcases getRange_eq_some_iff.mp block with ⟨_, long, front⟩
  rw [show 69632 - 65536 = btrfsSuperInfoSize from rfl] at front
  have rest : (image.drop 65536).length = image.length - 65536 := List.length_drop
  have fields : 0x22b ≤ btrfsSuperInfoSize := by decide
  have whole : btrfsSuperInfoSize ≤ (image.drop 65536).length := by omega
  have bounded : (image.drop 65536).length < usizeMax := by omega
  have decoded := Superblock.eq_decode_of_parse parsed
  have sectorsize : sb.sectorsize = leU32 (image.drop 65536) 0x90 := by
    rw [decoded, ← front]
    exact leU32_take (by omega)
  have arraySize : sb.sysChunkArraySize = leU32 (image.drop 65536) 0xa0 := by
    rw [decoded, ← front]
    exact leU32_take (by omega)
  have covered := confined.sectorsize
  have array := confined.array
  rw [sectorsize] at covered
  rw [arraySize] at array
  refine ⟨image.drop 65536, ?_, ?_⟩
  · rw [openSlice, offset, getRange_eq_some_iff]
    exact ⟨by omega, Nat.le_refl _, List.take_of_length_le (by rw [List.length_drop])⟩
  · rw [Superblock.parse_take fields whole bounded covered array, front]
    exact parsed

namespace BtrfsFs

theorem exists_of_ofImage (opened : ofImage crates image = .ok fs) :
    fs.image = image ∧ ∃ slice root, openSlice image = some slice ∧
      Superblock.parse crates slice = .ok fs.sb ∧
      ChunkMap.walk crates image fs.sb = .ok fs.map ∧
      fsTreeRoot crates image fs.sb fs.map = .ok root ∧
      readNode crates image fs.sb fs.map root.bytenr = .ok fs.leaf ∧
      fs.rootDirid = root.rootDirid := by
  rw [ofImage] at opened
  split at opened
  case h_1 => cases opened
  case h_2 slice found =>
    simp only [bind_eq_ok_iff, mapError_eq_ok_iff] at opened
    rcases opened with ⟨sb, parsed, map, walked, root, located, leaf, read, same⟩
    cases same
    exact ⟨rfl, slice, root, found, parsed, walked, located, read, rfl⟩

/-- The mount of another image with the same trees. -/
def onImage (fs : BtrfsFs) (image : Bytes) : BtrfsFs := { fs with image := image }

end BtrfsFs

end Opening

end BtrfsForensic
