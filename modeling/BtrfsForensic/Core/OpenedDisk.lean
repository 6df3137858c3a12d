import BtrfsForensic.Core.Disk
import BtrfsForensic.Core.SuperblockPrefix
import BtrfsForensic.Core.Vfs

namespace BtrfsForensic

/-! Written disks open: whatever items fit a leaf are the `FS_TREE` leaf of some
image that the adapter opens. -/

namespace Disk

variable {disk : Disk}

variable (disk) in
theorem parse_openSlice :
    ∃ slice, openSlice disk.image = some slice ∧
      Superblock.parse Crates.withoutCodecs slice = .ok disk.sb := by
  have offset : btrfsSuperInfoOffset.toNat = 65536 := by decide
  have size : btrfsSuperInfoSize = 4096 := rfl
  have superblockSize := disk.length_superblock
  have long : 69632 ≤ disk.image.length := by
    have fits := disk.fits
    rw [length_image]
    rw [physical] at fits
    omega
  have stored : getRange disk.image 65536 (65536 + disk.superblock.length) =
      some disk.superblock := by
    refine getRange_overlay_patch [] [(physical, disk.blocks.flatten)]
      (fun _ member => absurd member List.not_mem_nil) ?_
    rw [← disk.length_image]
    omega
  rcases getRange_eq_some_iff.mp stored with ⟨_, _, front⟩
  rw [Nat.add_sub_cancel_left, superblockSize] at front
  refine ⟨disk.image.drop 65536, ?_, ?_⟩
  · rw [openSlice, offset, getRange_eq_some_iff]
    exact ⟨by omega, Nat.le_refl _, List.take_of_length_le (by rw [List.length_drop])⟩
  · have short := disk.short
    have length := disk.length_image
    have sizes : leU32 disk.superblock 0x90 = 4096 ∧ (leU32 disk.superblock 0xa0).toNat = 97 :=
      sizes_writeSuperblock disk.root disk.nodesize
    have fields : 0x22b ≤ btrfsSuperInfoSize := by decide
    have sectorsize : leU32 (disk.image.drop 65536) 0x90 = leU32 disk.superblock 0x90 := by
      rw [← front, leU32_take (by omega)]
    have arraySize : leU32 (disk.image.drop 65536) 0xa0 = leU32 disk.superblock 0xa0 := by
      rw [← front, leU32_take (by omega)]
    have whole : btrfsSuperInfoSize ≤ (disk.image.drop 65536).length := by
      rw [List.length_drop]
      omega
    have bounded : (disk.image.drop 65536).length < usizeMax := by
      rw [List.length_drop]
      omega
    have covered : (leU32 (disk.image.drop 65536) 0x90).toNat ≤ btrfsSuperInfoSize := by
      rw [sectorsize, sizes.1]
      decide
    have array : sysChunkArrayOffset + (leU32 (disk.image.drop 65536) 0xa0).toNat ≤
        btrfsSuperInfoSize := by
      rw [arraySize]
      exact Nat.le_trans (Nat.add_le_add_left (Nat.le_of_eq sizes.2) _) (by decide)
    rw [Superblock.parse_take fields whole bounded covered array, front]
    exact disk.parse_superblock

/-! ## Disks of three leaves -/

def map : ChunkMap := ⟨[⟨logical, span, [(1, 0x12000)]⟩]⟩

def address (nodesize : UInt32) (index : Nat) : UInt64 :=
  UInt64.ofNat (logical.toNat + nodesize.toNat * index)

def fsRootItem (bytenr : UInt64) : DiskKey × Bytes :=
  (⟨fsTreeObjectid, rootItemKey, 0⟩, overlay 239 0
    [(RootOff.rootDirid, encodeLE 8 256), (RootOff.bytenr, encodeLE 8 bytenr.toNat)])

theorem parse_fsRootItem (bytenr : UInt64) :
    (FsTreeRoot.parse (fsRootItem bytenr).2).bytenr = bytenr ∧
      (FsTreeRoot.parse (fsRootItem bytenr).2).rootDirid = 256 := by
  have rootDirid : Holds (fsRootItem bytenr).2 168 (encodeLE 8 (256 : UInt64).toNat) := by
    rw [Holds, fsRootItem]
    refine getRange_overlay_patch [] [(176, encodeLE 8 bytenr.toNat)]
      (fun _ member => absurd member List.not_mem_nil) ?_
    rw [length_encodeLE]
    decide
  have own : Holds (fsRootItem bytenr).2 176 (encodeLE 8 bytenr.toNat) := by
    rw [Holds, fsRootItem]
    refine getRange_overlay_patch [(168, encodeLE 8 256)] [] ?_ ?_
    · intro patch member
      rw [List.mem_singleton.mp member, length_encodeLE, length_encodeLE]
      exact .inr (by decide)
    · rw [length_encodeLE]
      decide
  have ownRead := leU64_of_holds own
  have rootDiridRead := leU64_of_holds rootDirid
  rw [FsTreeRoot.parse]
  exact ⟨ownRead, rootDiridRead⟩

section Leaves

variable {nodesize : UInt32} {index : Nat} {block chunks roots leaf : Bytes}

theorem logicalToPhysical_address (covered : nodesize.toNat * index < span.toNat) :
    map.logicalToPhysical (address nodesize index) =
      some (1, UInt64.ofNat (physical + nodesize.toNat * index)) := by
  have start : logical.toNat = 0x100000 := by decide
  have width : span.toNat = 0x200000 := by decide
  rw [width] at covered
  have place : (address nodesize index).toNat = 0x100000 + nodesize.toNat * index := by
    rw [address, start, UInt64.toNat_ofNat_of_lt' (show _ < 2 ^ 64 by omega)]
  have stop : checkedAdd logical span = some 0x300000 := by decide
  have inside : logical ≤ address nodesize index ∧ address nodesize index < 0x300000 := by
    rw [UInt64.le_iff_toNat_le, UInt64.lt_iff_toNat_lt, place, start]
    exact ⟨by omega, show _ < 0x300000 by omega⟩
  have offset : (address nodesize index - logical).toNat = nodesize.toNat * index := by
    rw [UInt64.toNat_sub_of_le _ _ inside.1, place, start, Nat.add_sub_cancel_left]
  have sum : checkedAdd 0x12000 (address nodesize index - logical) =
      some (UInt64.ofNat (physical + nodesize.toNat * index)) := by
    have bound : 0x12000 + nodesize.toNat * index < 2 ^ 64 := by omega
    rw [checkedAdd_eq_some_iff, offset, UInt64.toNat_ofNat_of_lt' bound]
    rfl
  rw [ChunkMap.logicalToPhysical, map, ChunkMap.lookup, stop]
  simp only [Option.bind_eq_bind, Option.bind_some, if_pos inside, List.head?_cons, sum]

theorem readNode_block (found : disk.blocks[index]? = some block)
    (covered : disk.nodesize.toNat * index < span.toNat)
    (long : btrfsHeaderSize ≤ disk.nodesize.toNat) :
    readNode Crates.withoutCodecs disk.image disk.sb map (address disk.nodesize index) =
      .ok (Node.ofBlock Crates.withoutCodecs block) := by
  have width : span.toNat = 0x200000 := by decide
  rw [width] at covered
  have place : (UInt64.ofNat (physical + disk.nodesize.toNat * index)).toNat =
      physical + disk.nodesize.toNat * index :=
    UInt64.toNat_ofNat_of_lt' (show 0x12000 + disk.nodesize.toNat * index < 2 ^ 64 by omega)
  refine readNode_eq_ok_iff.mpr ⟨1, _, block, ?_, getRange_image found place, ?_, rfl⟩
  · rw [nodePhysical, logicalToPhysical_address (by rwa [width]), Option.some_or]
  · rwa [disk.sized block (List.mem_of_getElem? found)]

theorem walk_leaf (found : disk.blocks[0]? = some chunks)
    (long : btrfsHeaderSize ≤ disk.nodesize.toNat)
    (items : (Node.ofBlock Crates.withoutCodecs chunks).leafItems = [chunkItem]) :
    ChunkMap.walk Crates.withoutCodecs disk.image disk.sb = .ok map := by
  have target : (ChunkMap.boot disk.sb).logicalToPhysical disk.sb.chunkRoot =
      some (1, 0x12000) := by
    rw [boot_sb, show disk.sb.chunkRoot = logical from disk.describes.2.1]
    decide
  have isLeaf : (Node.ofBlock Crates.withoutCodecs chunks).isLeaf = true := by
    by_contra interior
    rw [Node.leafItems_of_not_isLeaf interior] at items
    cases items
  have mapped : ChunkMap.new.addFromNode (Node.ofBlock Crates.withoutCodecs chunks) = map := by
    rw [ChunkMap.addFromNode, Node.chunkItems, items]
    decide
  rw [ChunkMap.walk_eq_of_leaf target (getRange_image found rfl)
    (by rwa [disk.sized chunks (List.mem_of_getElem? found)]) isLeaf, mapped]

theorem ofImage_leaves (laid : disk.blocks = [chunks, roots, leaf])
    (rooted : disk.root = address disk.nodesize 1)
    (covered : disk.nodesize.toNat * 2 < span.toNat)
    (long : btrfsHeaderSize ≤ disk.nodesize.toNat)
    (chunkItems : (Node.ofBlock Crates.withoutCodecs chunks).leafItems = [chunkItem])
    (rootItems : (Node.ofBlock Crates.withoutCodecs roots).leafItems =
      [fsRootItem (address disk.nodesize 2)]) :
    ∃ fs, BtrfsFs.ofImage Crates.withoutCodecs disk.image = .ok fs ∧
      fs.root = .objectid 256 ∧ fs.leaf = Node.ofBlock Crates.withoutCodecs leaf := by
  rcases disk.parse_openSlice with ⟨slice, opened, parsed⟩
  rcases parse_fsRootItem (address disk.nodesize 2) with ⟨bytenr, rootDirid⟩
  have walked := walk_leaf (by rw [laid]; rfl) long chunkItems
  have tree : fsTreeRoot Crates.withoutCodecs disk.image disk.sb map =
      .ok (FsTreeRoot.parse (fsRootItem (address disk.nodesize 2)).2) := by
    rw [fsTreeRoot, show disk.sb.root = disk.root from disk.describes.1, rooted,
      readNode_block (by rw [laid]; rfl) (by omega) long]
    simp only [bind, Except.bind, rootItems]
    rfl
  have read : readNode Crates.withoutCodecs disk.image disk.sb map
      (FsTreeRoot.parse (fsRootItem (address disk.nodesize 2)).2).bytenr =
        .ok (Node.ofBlock Crates.withoutCodecs leaf) := by
    rw [bytenr]
    exact readNode_block (by rw [laid]; rfl) covered long
  exact ⟨_, BtrfsFs.ofImage_eq_ok opened parsed walked tree read,
    congrArg FileId.objectid rootDirid, rfl⟩

end Leaves

/-! ## A disk around an `FS_TREE` leaf -/

def chunkLeaf : Bytes := Writer.leaf 1024 (chunkNode logical) [chunkItem]

def rootLeaf : Bytes :=
  Writer.leaf 1024 ⟨fsid, 0x100400, 9, 1⟩ [(⟨fsTreeObjectid, rootItemKey, 0⟩,
    overlay 239 0 [(RootOff.rootDirid, encodeLE 8 256), (RootOff.bytenr, encodeLE 8 0x100800)])]

def fsLeaf (items : List (DiskKey × Bytes)) : Bytes :=
  Writer.leaf 1024 ⟨fsid, 0x100800, 9, fsTreeObjectid⟩ items

section FsTree

variable {items : List (DiskKey × Bytes)}

def ItemsFit (items : List (DiskKey × Bytes)) : Prop :=
  btrfsHeaderSize + Writer.itemsSize items ≤ 1024

theorem length_chunkLeaf : chunkLeaf.length = 1024 := Writer.length_leaf (by decide +kernel)

theorem length_rootLeaf : rootLeaf.length = 1024 := Writer.length_leaf (by decide +kernel)

def ofItems (items : List (DiskKey × Bytes)) (fits : ItemsFit items) : Disk where
  length := 0x14000
  root := 0x100400
  nodesize := 1024
  blocks := [chunkLeaf, rootLeaf, fsLeaf items]
  magic := magic_writeSuperblock _ _
  describes := describes_writeSuperblock _ _
  sized := by
    intro block member
    simp only [List.mem_cons, List.not_mem_nil, or_false] at member
    rcases member with rfl | rfl | rfl
    · exact length_chunkLeaf
    · exact length_rootLeaf
    · exact Writer.length_leaf fits
  fits := show physical + 1024 * 3 ≤ 0x14000 by decide
  short := small_short

theorem ofImage_ofItems (fits : ItemsFit items) :
    ∃ fs, BtrfsFs.ofImage Crates.withoutCodecs (ofItems items fits).image = .ok fs ∧
      fs.root = .objectid 256 ∧ fs.leaf.leafItems = items := by
  have chunkItems : (Node.ofBlock Crates.withoutCodecs chunkLeaf).leafItems = [chunkItem] :=
    Writer.leafItems_leaf (by decide) (by decide +kernel)
  have rootItems : (Node.ofBlock Crates.withoutCodecs rootLeaf).leafItems =
      [fsRootItem (address 1024 2)] := by
    rw [← show (0x100800 : UInt64) = address 1024 2 by decide]
    exact Writer.leafItems_leaf (by decide) (by decide +kernel)
  have rooted : (ofItems items fits).root = address 1024 1 :=
    show (0x100400 : UInt64) = address 1024 1 by decide
  have covered : (1024 : UInt32).toNat * 2 < span.toNat := by decide
  have long : btrfsHeaderSize ≤ (1024 : UInt32).toNat := by decide
  rcases ofImage_leaves rfl rooted covered long chunkItems rootItems with
    ⟨fs, opened, root, leaf⟩
  refine ⟨fs, opened, root, ?_⟩
  rw [leaf]
  exact Writer.leafItems_leaf (by decide) fits

end FsTree

end Disk

end BtrfsForensic
