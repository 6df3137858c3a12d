import BtrfsForensic.Core.Bootstrap
import BtrfsForensic.Core.Disk
import BtrfsForensic.Core.NodeRoundTrip
import BtrfsForensic.Forensic.Volume

namespace BtrfsForensic.Disk

/-! A disk whose chunk tree lists no chunk: the auditor's map is empty, and every
node is read through the `sys_chunk_array`. -/

def bareLeaf (nodesize : Nat) : Bytes := Writer.leaf nodesize (chunkNode logical) []

/-- The node size holds a header, and the chunk tree is the bare leaf. -/
structure Bare (disk : Disk) (rest : List Bytes) : Prop where
  blocks : disk.blocks = bareLeaf disk.nodesize.toNat :: rest
  header : btrfsHeaderSize ≤ disk.nodesize.toNat
  blank : parseBackupRoots disk.superblock = List.replicate 4 ⟨0, 0, 0, 0⟩
  root : disk.root ≠ 0 ∧ disk.root ≠ logical

section Reading

variable {disk : Disk}

theorem parsesSuperblock :
    ParsesSuperblock Crates.withoutCodecs disk.image disk.superblock disk.sb where
  block := by
    have fits := disk.fits
    have place : physical = 0x12000 := rfl
    exact superblockBlock_image disk.length_superblock (by omega)
  parsed := disk.parse_superblock

variable {rest : List Bytes}

theorem header_le_bareLeaf (bare : Bare disk rest) :
    btrfsHeaderSize ≤ (bareLeaf disk.nodesize.toNat).length := by
  rw [bareLeaf, Writer.length_leaf_nil bare.header]
  exact bare.header

theorem auditMap_bare (bare : Bare disk rest) :
    auditMap Crates.withoutCodecs disk.image disk.sb = ChunkMap.new := by
  have chunkRoot : disk.sb.chunkRoot = logical := disk.describes.2.1
  have first : disk.blocks[0]? = some (bareLeaf disk.nodesize.toNat) := by
    rw [bare.blocks]
    rfl
  have target : (ChunkMap.boot disk.sb).logicalToPhysical disk.sb.chunkRoot =
      some (1, 0x12000) := by
    rw [boot_sb, chunkRoot]
    rfl
  have items {crates : Crates} :
      (Node.ofBlock crates (bareLeaf disk.nodesize.toNat)).isLeaf = true ∧
        (Node.ofBlock crates (bareLeaf disk.nodesize.toNat)).leafItems = [] :=
    Writer.leafItems_leaf_nil
  have unchanged {crates : Crates} : ChunkMap.new.addFromNode
      (Node.ofBlock crates (bareLeaf disk.nodesize.toNat)) = ChunkMap.new := by
    rw [ChunkMap.addFromNode, Node.chunkItems, items.2]
    rfl
  rw [auditMap, ChunkMap.walk_eq_of_leaf target (getRange_image first rfl)
    (header_le_bareLeaf bare) items.1, unchanged]

theorem readNode_bare {block : Bytes} (index : Nat) {address : UInt64} (phys : UInt64)
    (found : disk.blocks[index]? = some block) (long : btrfsHeaderSize ≤ block.length)
    (target : fallbackPhysical [sysChunk] address = some (0, phys))
    (place : phys.toNat = physical + disk.nodesize.toNat * index) :
    readNode Crates.withoutCodecs disk.image disk.sb ChunkMap.new address =
      .ok (Node.ofBlock Crates.withoutCodecs block) := by
  have chunks : disk.sb.sysChunks = [sysChunk] := disk.describes.2.2.2.2
  have unmapped : ChunkMap.new.logicalToPhysical address = none := rfl
  rw [readNode_eq_ok_iff, nodePhysical_eq, chunks, unmapped, Option.none_or]
  exact ⟨0, phys, block, target, getRange_image found place, long, rfl⟩

theorem sweepSeeds_bare (bare : Bare disk rest) :
    sweepSeeds disk.image disk.sb = [logical, disk.root] := by
  have root : disk.sb.root = disk.root := disk.describes.1
  have chunkRoot : disk.sb.chunkRoot = logical := disk.describes.2.1
  have live : [disk.root, logical].filter (· ≠ 0) = [disk.root, logical] := by
    rw [List.filter_cons_of_pos (by simpa using bare.root.1)]
    rfl
  rw [sweepSeeds, parsesSuperblock.block, root, chunkRoot]
  simp only [bare.blank]
  rw [List.filter_append, live]
  rfl

theorem sweepChildren_chunkTree (bare : Bare disk rest) :
    sweepChildren Crates.withoutCodecs disk.image disk.sb ChunkMap.new logical = [] := by
  have first : disk.blocks[0]? = some (bareLeaf disk.nodesize.toNat) := by
    rw [bare.blocks]
    rfl
  exact sweepChildren_of_isLeaf
    (readNode_bare 0 0x12000 first (header_le_bareLeaf bare) rfl rfl)
    Writer.leafItems_leaf_nil.1

/-- The sweep examines the chunk tree, then the root tree, then what the root tree
leads to. -/
theorem sweepVisits_bare (bare : Bare disk rest) :
    sweepVisits Crates.withoutCodecs disk.image disk.sb ChunkMap.new =
      logical :: disk.root ::
        Worklist.visit
          (sweepChildren Crates.withoutCodecs disk.image disk.sb ChunkMap.new) 8190
          (sweepChildren Crates.withoutCodecs disk.image disk.sb ChunkMap.new
            disk.root).reverse [disk.root, logical] := by
  have rootFresh : disk.root ∉ [logical] := by
    simpa using bare.root.2
  rw [sweepVisits, sweepSeeds_bare bare, Worklist.visit, if_neg List.not_mem_nil,
    sweepChildren_chunkTree bare, List.reverse_nil, List.nil_append, Worklist.visit,
    if_neg rootFresh, List.append_nil]

end Reading

end BtrfsForensic.Disk
