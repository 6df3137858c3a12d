import BtrfsForensic.Core.Formatted

namespace BtrfsForensic

/-! Reading a formatted volume back: its addresses, its nodes, its chunk map, and the
mount. -/

namespace Formatted

/-! ## Addresses -/

section Addresses

variable (disk : Formatted) {position : Nat}

theorem toNat_place (inside : position ≤ disk.span.toNat) :
    (disk.place position).toNat = disk.logical.toNat + position := by
  have bounded := disk.bounded
  exact UInt64.toNat_ofNat_of_lt' (show disk.logical.toNat + position < 2 ^ 64 by omega)

theorem logicalToPhysical_place
    (inside : position < disk.nodesize.toNat * (2 * disk.older.length + 3) + disk.data.length) :
    ∃ phys, disk.map.logicalToPhysical (disk.place position) = some (1, phys) ∧
      phys.toNat = disk.physical.toNat + position := by
  have limit : usizeMax = 2 ^ 64 - 1 := rfl
  have covered := disk.covered
  have bounded := disk.bounded
  have fits := disk.fits
  have short := disk.short
  have start : (disk.place position).toNat = disk.logical.toNat + position :=
    disk.toNat_place (by omega)
  have stop : checkedAdd disk.logical disk.span = some (disk.logical + disk.span) := by
    rw [checkedAdd_eq_some_iff, UInt64.toNat_add, Nat.mod_eq_of_lt bounded]
  have within : disk.logical ≤ disk.place position ∧
      disk.place position < disk.logical + disk.span := by
    rw [UInt64.le_iff_toNat_le, UInt64.lt_iff_toNat_lt, UInt64.toNat_add,
      Nat.mod_eq_of_lt bounded, start]
    omega
  have offset : (disk.place position - disk.logical).toNat = position := by
    rw [UInt64.toNat_sub_of_le _ _ within.1, start, Nat.add_sub_cancel_left]
  have small : disk.physical.toNat + position < 2 ^ 64 := by omega
  have target : (UInt64.ofNat (disk.physical.toNat + position)).toNat =
      disk.physical.toNat + position :=
    UInt64.toNat_ofNat_of_lt' small
  have sum : checkedAdd disk.physical (disk.place position - disk.logical) =
      some (UInt64.ofNat (disk.physical.toNat + position)) := by
    rw [checkedAdd_eq_some_iff, offset, target]
  refine ⟨UInt64.ofNat (disk.physical.toNat + position), ?_, target⟩
  rw [ChunkMap.logicalToPhysical, map, ChunkMap.lookup, stop]
  simp only [Option.bind_eq_bind, Option.bind_some, if_pos within, List.head?_cons, sum]

end Addresses

/-! ## Nodes -/

section Nodes

variable (disk : Formatted) (crates : Crates) {index : Nat} {node : TreeNode}

def written (node : TreeNode) (index : Nat) : Node :=
  Node.ofBlock crates (disk.block crates node index)

theorem length_nodes : disk.nodes.length = 2 * disk.older.length + 3 := by
  simp only [nodes, List.length_cons, List.length_append, List.length_map, List.length_zipIdx]
  omega

theorem nodes_current : disk.nodes[2]? = some disk.currentLeaf.treeNode := rfl

theorem nodes_older {slot : Nat} {leaf : LeafVersion} (found : disk.older[slot]? = some leaf) :
    disk.nodes[slot + 3]? = some leaf.treeNode := by
  have inside : slot < disk.older.length := (List.getElem?_eq_some_iff.mp found).1
  rw [nodes, List.getElem?_cons_succ, List.getElem?_cons_succ, List.getElem?_append_left,
    List.getElem?_map, List.getElem?_cons_succ, found, Option.map_some]
  rw [List.length_map, List.length_cons]
  omega

theorem nodes_olderRoot {slot : Nat} {leaf : LeafVersion}
    (found : disk.older[slot]? = some leaf) :
    disk.nodes[slot + (disk.older.length + 3)]? = some (disk.olderRoot (leaf, slot)) := by
  have place : slot + (disk.older.length + 1) -
      ((disk.currentLeaf :: disk.older).map LeafVersion.treeNode).length = slot := by
    rw [List.length_map, List.length_cons]
    omega
  rw [nodes, ← Nat.add_assoc, List.getElem?_cons_succ, List.getElem?_cons_succ,
    Nat.add_assoc, List.getElem?_append_right, place, List.getElem?_map, List.getElem?_zipIdx,
    found]
  · simp
  · rw [List.length_map, List.length_cons]
    omega

theorem root_fits (generation target : UInt64) :
    btrfsHeaderSize + Writer.itemsSize (rootNode generation target).items ≤
      disk.nodesize.toNat := by
  have roomy := disk.roomy
  have size : btrfsHeaderSize + Writer.itemsSize (rootNode generation target).items = 365 := by
    rw [rootNode, Writer.itemsSize, List.map_singleton, List.sum_singleton,
      Disk.fsRootItem, length_overlay]
    rfl
  omega

theorem node_fits (member : node ∈ disk.nodes) :
    btrfsHeaderSize + Writer.itemsSize node.items ≤ disk.nodesize.toNat := by
  have roomy := disk.roomy
  rcases List.mem_cons.mp member with rfl | member
  · have size : btrfsHeaderSize + Writer.itemsSize disk.chunkNode.items = 206 := by
      rw [chunkNode, Writer.itemsSize, Writer.chunk_eq disk.logical, List.map_singleton,
        List.sum_singleton, Writer.length_chunkRecord]
      rfl
    omega
  · rcases List.mem_cons.mp member with rfl | member
    · exact disk.root_fits _ _
    · rcases List.mem_append.mp member with member | member
      · rcases List.mem_map.mp member with ⟨leaf, among, rfl⟩
        rcases List.mem_cons.mp among with rfl | among
        · exact disk.currentFits
        · exact disk.olderFits leaf among
      · rcases List.mem_map.mp member with ⟨entry, _, rfl⟩
        exact disk.root_fits _ _

theorem length_block (member : node ∈ disk.nodes) :
    (disk.block crates node index).length = disk.nodesize.toNat := by
  have headerSize : btrfsHeaderSize = 101 := rfl
  have csumSize : btrfsCsumSize = 32 := rfl
  have fits := disk.node_fits member
  have size : (Writer.leaf disk.nodesize.toNat ⟨disk.fsid, disk.address index, node.generation,
      node.owner⟩ node.items).length = disk.nodesize.toNat := Writer.length_leaf fits
  rw [block, Writer.length_sealed (by omega), size]

theorem length_blocks : (disk.blocks crates).length = 2 * disk.older.length + 3 := by
  rw [blocks, List.length_map, List.length_zipIdx, length_nodes]

theorem sized_blocks : ∀ block ∈ disk.blocks crates, block.length = disk.nodesize.toNat := by
  intro block member
  rcases List.mem_map.mp member with ⟨entry, among, rfl⟩
  exact disk.length_block crates (List.fst_mem_of_mem_zipIdx among)

theorem blocks_getElem? (found : disk.nodes[index]? = some node) :
    (disk.blocks crates)[index]? = some (disk.block crates node index) := by
  rw [blocks, List.getElem?_map, List.getElem?_zipIdx, found]
  simp

theorem leafItems_written (member : node ∈ disk.nodes) (index : Nat) :
    (disk.written crates node index).leafItems = node.items ∧
      (disk.written crates node index).crcValid = some true :=
  Writer.leafItems_sealed_leaf disk.nodesize.toNat_lt (disk.node_fits member)

theorem header_written (member : node ∈ disk.nodes) (index : Nat) :
    (disk.written crates node index).header.fsid = disk.fsid ∧
      (disk.written crates node index).header.bytenr = disk.address index ∧
      (disk.written crates node index).header.owner = node.owner ∧
      (disk.written crates node index).header.generation = node.generation ∧
      (disk.written crates node index).header.level = 0 := by
  have fits := disk.node_fits member
  have few : node.items.length < 2 ^ 32 := by
    have bound := disk.nodesize.toNat_lt
    have itemSize : btrfsItemSize = 25 := rfl
    rw [Writer.itemsSize_eq, itemSize] at fits
    omega
  exact Writer.decode_sealed_leaf fits few

theorem isLeaf_written (member : node ∈ disk.nodes) (index : Nat) :
    (disk.written crates node index).isLeaf = true := by
  have level : (disk.written crates node index).header.level = 0 :=
    (disk.header_written crates member index).2.2.2.2
  rw [written, Node.ofBlock_header] at level
  rw [written, Node.isLeaf, Node.ofBlock, Node.ofHeader]
  simp only [level, if_true]

/-! ## The chunk -/

theorem holds_chunk :
    Holds (disk.image crates) disk.physical.toNat ((disk.blocks crates).flatten) ∧
      Holds (disk.image crates)
        (disk.physical.toNat + disk.nodesize.toNat * (2 * disk.older.length + 3)) disk.data := by
  have total : (disk.blocks crates).flatten.length =
      disk.nodesize.toNat * (2 * disk.older.length + 3) := by
    rw [List.length_flatten, List.map_congr_left (disk.sized_blocks crates), List.map_const',
      List.sum_replicate_nat, length_blocks, Nat.mul_comm]
  have whole : Holds (disk.image crates) disk.physical.toNat
      ((disk.blocks crates).flatten ++ disk.data) := by
    have behind := disk.behind
    have fits := disk.fits
    have size := disk.length_superblock crates
    refine getRange_overlay_patch [(btrfsSuperInfoOffset.toNat, disk.superblock crates)] [] ?_ ?_
    · intro patch member
      rw [List.mem_singleton.mp member, size]
      exact .inr behind
    · rwa [List.length_append, total]
  rw [holds_append_iff, total] at whole
  exact whole

theorem getRange_image (found : disk.nodes[index]? = some node) :
    getRange (disk.image crates) (disk.physical.toNat + disk.nodesize.toNat * index)
      (disk.physical.toNat + (disk.nodesize.toNat * index + disk.nodesize.toNat)) =
        some (disk.block crates node index) :=
  (disk.holds_chunk crates).1.getRange_block (disk.sized_blocks crates)
    (disk.blocks_getElem? crates found)

theorem node_inside (found : disk.nodes[index]? = some node) :
    disk.nodesize.toNat * index + disk.nodesize.toNat ≤
      disk.nodesize.toNat * (2 * disk.older.length + 3) := by
  have inside : index < disk.nodes.length := (List.getElem?_eq_some_iff.mp found).1
  rw [length_nodes] at inside
  rw [← Nat.mul_succ]
  exact Nat.mul_le_mul_left _ inside

end Nodes

/-! ## Images with the nodes of a volume -/

/-- An image with the superblock and the nodes of a volume, whatever is left of the rest. -/
structure Carries (disk : Formatted) (crates : Crates) (image : Bytes) : Prop where
  short : image.length < usizeMax
  superblock : getRange image 65536 (65536 + btrfsSuperInfoSize) = some (disk.superblock crates)
  node : ∀ index node, disk.nodes[index]? = some node →
    getRange image (disk.physical.toNat + disk.nodesize.toNat * index)
      (disk.physical.toNat + (disk.nodesize.toNat * index + disk.nodesize.toNat)) =
        some (disk.block crates node index)

theorem carries_image (disk : Formatted) (crates : Crates) :
    disk.Carries crates (disk.image crates) where
  short := by
    rw [length_image]
    exact disk.short
  superblock := disk.superblockBlock_image crates
  node := fun _ _ found => disk.getRange_image crates found

namespace Carries

variable {disk : Formatted} {crates : Crates} {image : Bytes} {index : Nat} {node : TreeNode}
  (carries : disk.Carries crates image)
include carries

theorem parse_openSlice : ∃ slice, openSlice image = some slice ∧
    Superblock.parse crates slice = .ok (disk.sb crates) := by
  have offset : btrfsSuperInfoOffset.toNat = 65536 := by decide
  have stop : saturatingAdd 65536 btrfsSuperInfoSize = 65536 + btrfsSuperInfoSize := by decide
  refine parse_openSlice_of_confined carries.short ?_ (disk.parse_superblock crates)
    (disk.confined_sb crates)
  rw [offset, stop]
  exact carries.superblock

theorem exists_block (found : disk.nodes[index]? = some node) :
    ∃ phys, disk.map.logicalToPhysical (disk.address index) = some (1, phys) ∧
      phys.toNat = disk.physical.toNat + disk.nodesize.toNat * index ∧
      getRange image phys.toNat (saturatingAdd phys.toNat (disk.sb crates).nodesize.toNat) =
        some (disk.block crates node index) ∧
      btrfsHeaderSize ≤ (disk.block crates node index).length := by
  have headerSize : btrfsHeaderSize = 101 := rfl
  have limit : usizeMax = 2 ^ 64 - 1 := rfl
  have roomy := disk.roomy
  have fits := disk.fits
  have short := disk.short
  have inside := disk.node_inside found
  rcases disk.logicalToPhysical_place (show disk.nodesize.toNat * index < _ by omega) with
    ⟨phys, target, position⟩
  rcases disk.describes_sb crates with ⟨_, _, _, _, size, _⟩
  refine ⟨phys, target, position, ?_, ?_⟩
  · rw [position, size, saturatingAdd_eq (by omega), Nat.add_assoc]
    exact carries.node index node found
  · rw [disk.length_block crates (List.mem_of_getElem? found)]
    omega

theorem readNode (found : disk.nodes[index]? = some node) :
    BtrfsForensic.readNode crates image (disk.sb crates) disk.map (disk.address index) =
      .ok (disk.written crates node index) := by
  rcases carries.exists_block found with ⟨phys, target, _, read, long⟩
  refine readNode_eq_ok_iff.mpr ⟨1, phys, disk.block crates node index, ?_, read, long, rfl⟩
  rw [nodePhysical, target, Option.some_or]

theorem exists_chunkNode : ∃ phys, phys.toNat = disk.physical.toNat ∧
    (ChunkMap.boot (disk.sb crates)).logicalToPhysical (disk.sb crates).chunkRoot =
      some (1, phys) ∧
    getRange image phys.toNat (saturatingAdd phys.toNat (disk.sb crates).nodesize.toNat) =
      some (disk.block crates disk.chunkNode 0) ∧
    btrfsHeaderSize ≤ (disk.block crates disk.chunkNode 0).length := by
  have first : disk.nodes[0]? = some disk.chunkNode := rfl
  rcases carries.exists_block first with ⟨phys, target, position, read, long⟩
  rcases disk.describes_sb crates with ⟨_, _, chunkRoot, _, _, _, chunks⟩
  refine ⟨phys, position, ?_, read, long⟩
  rw [ChunkMap.boot, chunks, chunkRoot]
  exact target

end Carries

section Chunk

variable (disk : Formatted) (crates : Crates)

theorem entries_chunkNode :
    (Node.ofBlock crates (disk.block crates disk.chunkNode 0)).chunkItems.map
      (fun item => MapEntry.ofChunk item.1 item.2) = disk.map.entries := by
  have first : disk.nodes[0]? = some disk.chunkNode := rfl
  have items : (Node.ofBlock crates (disk.block crates disk.chunkNode 0)).leafItems =
      disk.chunkNode.items :=
    (disk.leafItems_written crates (List.mem_of_getElem? first) 0).1
  have record : Chunk.parse (Writer.chunk disk.span disk.physical) =
      (Writer.plainEntry disk.logical disk.span disk.physical).chunk.toChunk := by
    apply Chunk.parse_of_holds
    rw [Writer.chunk_eq disk.logical]
    exact holds_of_eq rfl
  have chunkItems : (Node.ofBlock crates (disk.block crates disk.chunkNode 0)).chunkItems =
      [(disk.logical,
        (Writer.plainEntry disk.logical disk.span disk.physical).chunk.toChunk)] := by
    rw [Node.chunkItems, items, chunkNode, ← record]
    simp
  rw [chunkItems]
  rfl

theorem isLeaf_chunkNode :
    (Node.ofBlock crates (disk.block crates disk.chunkNode 0)).isLeaf = true := by
  have first : disk.nodes[0]? = some disk.chunkNode := rfl
  exact disk.isLeaf_written crates (List.mem_of_getElem? first) 0

end Chunk

namespace Carries

variable {disk : Formatted} {crates : Crates} {image : Bytes}
  (carries : disk.Carries crates image)
include carries

theorem walk : ChunkMap.walk crates image (disk.sb crates) = .ok disk.map := by
  rcases carries.exists_chunkNode with ⟨phys, _, known, read, long⟩
  have mapped : ChunkMap.new.addFromNode
      (Node.ofBlock crates (disk.block crates disk.chunkNode 0)) = disk.map := by
    rw [ChunkMap.addFromNode, entries_chunkNode]
    rfl
  rw [ChunkMap.walk_eq_of_leaf known read long (disk.isLeaf_chunkNode crates), mapped]

theorem fsTreeRoot : BtrfsForensic.fsTreeRoot crates image (disk.sb crates) disk.map =
    .ok (FsTreeRoot.parse (Disk.fsRootItem (disk.address 2)).2) := by
  have second : disk.nodes[1]? = some (rootNode disk.generation (disk.address 2)) := rfl
  have items := (disk.leafItems_written crates (List.mem_of_getElem? second) 1).1
  rw [BtrfsForensic.fsTreeRoot, (disk.describes_sb crates).2.1, carries.readNode second]
  simp only [bind, Except.bind, items]
  rfl

end Carries

/-! ## The mount -/

section Mount

variable (disk : Formatted) (crates : Crates)

theorem readNode_address {index : Nat} {node : TreeNode}
    (found : disk.nodes[index]? = some node) :
    readNode crates (disk.image crates) (disk.sb crates) disk.map (disk.address index) =
      .ok (disk.written crates node index) :=
  (disk.carries_image crates).readNode found

theorem walk_image : ChunkMap.walk crates (disk.image crates) (disk.sb crates) =
    .ok disk.map :=
  (disk.carries_image crates).walk

theorem fsTreeRoot_image :
    fsTreeRoot crates (disk.image crates) (disk.sb crates) disk.map =
      .ok (FsTreeRoot.parse (Disk.fsRootItem (disk.address 2)).2) :=
  (disk.carries_image crates).fsTreeRoot

def mount : BtrfsFs where
  image := disk.image crates
  sb := disk.sb crates
  map := disk.map
  leaf := disk.written crates disk.currentLeaf.treeNode 2
  rootDirid := 256

theorem Carries.ofImage {disk : Formatted} {crates : Crates} {image : Bytes}
    (carries : disk.Carries crates image) :
    BtrfsFs.ofImage crates image = .ok ((disk.mount crates).onImage image) := by
  rcases carries.parse_openSlice with ⟨slice, opened, parsed⟩
  rcases Disk.parse_fsRootItem (disk.address 2) with ⟨bytenr, rootDirid⟩
  have read : BtrfsForensic.readNode crates image (disk.sb crates) disk.map
      (FsTreeRoot.parse (Disk.fsRootItem (disk.address 2)).2).bytenr =
        .ok (disk.written crates disk.currentLeaf.treeNode 2) := by
    rw [bytenr]
    exact carries.readNode disk.nodes_current
  rw [BtrfsFs.ofImage_eq_ok opened parsed carries.walk carries.fsTreeRoot read, rootDirid]
  rfl

theorem ofImage_image :
    BtrfsFs.ofImage crates (disk.image crates) = .ok (disk.mount crates) :=
  (disk.carries_image crates).ofImage

theorem leafItems_mount : (disk.mount crates).leaf.leafItems = disk.current :=
  (disk.leafItems_written crates (List.mem_of_getElem? disk.nodes_current) 2).1

end Mount

end Formatted

end BtrfsForensic
