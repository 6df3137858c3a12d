import BtrfsForensic.Forensic.Provenance

namespace BtrfsForensic

/-! Which inodes the recovery reports: of two leaves, those that the old one holds
and the current one does not, whatever the current node is; over an image, those that
some slot's node reports, each once. -/

/-! ## Two nodes -/

def FsTreeLeaf (node : Node) : Prop :=
  node.header.owner = fsTreeObjectid ∧ node.header.level = 0

instance (node : Node) : Decidable (FsTreeLeaf node) :=
  inferInstanceAs (Decidable (_ ∧ _))

def HoldsItem (node : Node) (objectid : UInt64) (keyType : UInt8) : Prop :=
  ∃ item ∈ node.leafItems, item.1.objectid = objectid ∧ item.1.keyType = keyType

def recoveredInodes (records : List RecoveredFile) : List UInt64 :=
  records.map RecoveredFile.inode

section Leaves

variable {crates : Crates} {block : Bytes} {node old current : Node} {image : Bytes}
  {map : ChunkMap} {sectorsize : UInt32} {ino : UInt64}

/-- A parsed node holds items on level zero only. -/
theorem level_eq_zero_of_mem_leafItems (parsed : Node.parse crates block = .ok node)
    {item : DiskKey × Bytes} (member : item ∈ node.leafItems) : node.header.level = 0 := by
  rcases Node.parse_eq_ok_iff.mp parsed with ⟨_, rfl⟩
  by_contra above
  have interior : ¬(Node.ofBlock crates block).isLeaf = true := by
    rw [Node.ofBlock_header] at above
    simp [Node.isLeaf, Node.ofBlock, Node.ofHeader, above]
  rw [Node.leafItems_of_not_isLeaf interior] at member
  cases member

theorem mem_recoveredInodes_iff :
    ino ∈ recoveredInodes
        (recoverDeletedFromLeaves crates old current image map sectorsize) ↔
      Reports current old ino := by
  rw [recoveredInodes, List.mem_map]
  constructor
  · intro found
    rcases found with ⟨record, member, rfl⟩
    rcases mem_recoverDeletedFromLeaves_iff.mp member with ⟨item, _, _, reports, rfl⟩
    exact reports
  · intro reports
    rcases exists_inodeItem reports.1 with ⟨item, _, member, rfl, inode⟩
    exact ⟨_, mem_recoverDeletedFromLeaves_iff.mpr ⟨item, member, inode, reports, rfl⟩, rfl⟩

theorem carries_iff (parsed : Node.parse crates block = .ok old) :
    Carries old ino ↔
      FsTreeLeaf old ∧ 257 ≤ ino ∧ HoldsItem old ino inodeItemKey ∧
        HoldsItem old ino extentDataKey := by
  constructor
  · intro carries
    rcases carries with ⟨owned, user, inode, extent⟩
    rcases mem_inodeSet_iff.mp inode with ⟨item, member, key⟩
    exact ⟨⟨owned, level_eq_zero_of_mem_leafItems parsed member⟩, user,
      ⟨item, member, key⟩, extent⟩
  · intro parts
    rcases parts with ⟨leaf, user, inode, extent⟩
    exact ⟨leaf.1, user, mem_inodeSet_iff.mpr inode, extent⟩

end Leaves

/-- The deleted inodes of a pair are those of two `FS_TREE` leaves exactly when the
current node is such a leaf, or holds every inode that the old one carries: a current
node of another tree or level is diffed like an `FS_TREE` leaf with its items, and an
interior one like an empty leaf. -/
theorem leaves_diffed_iff {crates : Crates} {oldBlock : Bytes} {old : Node}
    (parsed : Node.parse crates oldBlock = .ok old) (current : Node) (image : Bytes)
    (map : ChunkMap) (sectorsize : UInt32) :
    (∀ ino, ino ∈ recoveredInodes
        (recoverDeletedFromLeaves crates old current image map sectorsize) ↔
      FsTreeLeaf old ∧ FsTreeLeaf current ∧ 257 ≤ ino ∧
        HoldsItem old ino inodeItemKey ∧ HoldsItem old ino extentDataKey ∧
        ¬HoldsItem current ino inodeItemKey) ↔
      FsTreeLeaf current ∨
        ∀ ino, Carries old ino → HoldsItem current ino inodeItemKey := by
  have reported (ino : UInt64) : Reports current old ino ↔
      (FsTreeLeaf old ∧ 257 ≤ ino ∧ HoldsItem old ino inodeItemKey ∧
        HoldsItem old ino extentDataKey) ∧ ¬HoldsItem current ino inodeItemKey := by
    rw [Reports, carries_iff parsed, mem_inodeSet_iff]
    rfl
  simp only [mem_recoveredInodes_iff]
  constructor
  · intro exact
    by_cases leaf : FsTreeLeaf current
    · exact .inl leaf
    · right
      intro ino carries
      by_contra absent
      have reports := (reported ino).mpr ⟨(carries_iff parsed).mp carries, absent⟩
      exact leaf ((exact ino).mp reports).2.1
  · intro condition ino
    rw [reported]
    rcases condition with leaf | kept
    · tauto
    · constructor
      · intro parts
        rcases parts with ⟨carries, absent⟩
        exact absurd (kept ino ((carries_iff parsed).mpr carries)) absent
      · intro parts
        rcases parts with ⟨leaf, _, user, inode, extent, absent⟩
        exact absurd (kept ino ((carries_iff parsed).mpr ⟨leaf, user, inode, extent⟩))
          absent

/-! The old leaf of a file, diffed against the root tree's leaf. -/

theorem parse_leaf {block : Bytes} (sized : block.length = Volume.nodesize) :
    Node.parse Crates.withoutCodecs block = .ok (Node.ofBlock Crates.withoutCodecs block) := by
  refine Node.parse_eq_ok_iff.mpr ⟨?_, rfl⟩
  rw [sized]
  decide

/-- Against a node of another tree every file is deleted. -/
theorem foreign_current_diffed :
    Node.parse Crates.withoutCodecs oldFileLeaf =
        .ok (Node.ofBlock Crates.withoutCodecs oldFileLeaf) ∧
      Node.parse Crates.withoutCodecs Volume.rootLeaf =
        .ok (Node.ofBlock Crates.withoutCodecs Volume.rootLeaf) ∧
      (Node.ofBlock Crates.withoutCodecs Volume.rootLeaf).header.owner ≠ fsTreeObjectid ∧
      257 ∈ recoveredInodes (recoverDeletedFromLeaves Crates.withoutCodecs
        (Node.ofBlock Crates.withoutCodecs oldFileLeaf)
        (Node.ofBlock Crates.withoutCodecs Volume.rootLeaf) [] ChunkMap.new 4096) := by
  have reports : Reports (Node.ofBlock Crates.withoutCodecs Volume.rootLeaf)
      (Node.ofBlock Crates.withoutCodecs oldFileLeaf) 257 := by
    decide +kernel
  refine ⟨parse_leaf ?_, parse_leaf ?_, ?_, mem_recoveredInodes_iff.mpr reports⟩
  · decide +kernel
  · decide +kernel
  · decide +kernel

theorem leaves_diffed_iff_in_oldFileLeaf :
    257 ∈ recoveredInodes (recoverDeletedFromLeaves Crates.withoutCodecs
        (Node.ofBlock Crates.withoutCodecs oldFileLeaf)
        (Node.ofBlock Crates.withoutCodecs emptyLeaf) [] ChunkMap.new 4096) ↔
      FsTreeLeaf (Node.ofBlock Crates.withoutCodecs oldFileLeaf) ∧
        FsTreeLeaf (Node.ofBlock Crates.withoutCodecs emptyLeaf) ∧ (257 : UInt64) ≤ 257 ∧
        HoldsItem (Node.ofBlock Crates.withoutCodecs oldFileLeaf) 257 inodeItemKey ∧
        HoldsItem (Node.ofBlock Crates.withoutCodecs oldFileLeaf) 257 extentDataKey ∧
        ¬HoldsItem (Node.ofBlock Crates.withoutCodecs emptyLeaf) 257 inodeItemKey :=
  (leaves_diffed_iff (parse_leaf (by decide +kernel)) _ _ _ _).mpr
    (.inl (by decide +kernel)) 257

/-! ## Every slot -/

/-- The recovered inodes are distinct, and they are those that the node of some slot
reports: a slot that is not blank, does not name the live root and can be read. -/
theorem recovered_inodes_union {crates : Crates} {image sbBlock : Bytes}
    {sb : Superblock} {currentRoot : FsTreeRoot} {current : Node}
    (setup : RecoverySetup crates image sbBlock sb currentRoot current) :
    (recoveredInodes (recoverDeleted crates image)).Nodup ∧
      ∀ ino, ino ∈ recoveredInodes (recoverDeleted crates image) ↔
        ∃ slot ∈ parseBackupRoots sbBlock, slot.fsRoot ≠ 0 ∧
          slot.fsRoot ≠ currentRoot.bytenr ∧
          ∃ old, readNode crates image sb (auditMap crates image sb) slot.fsRoot =
              .ok old ∧
            ino ∈ recoveredInodes (recoverDeletedFromLeaves crates old current image
              (auditMap crates image sb) sb.sectorsize) := by
  have kept := recoverDeleted_eq setup
  constructor
  · rw [recoveredInodes, kept]
    exact KeepFirst.nodup_map List.nodup_nil
  · intro ino
    rw [recoveredInodes, List.mem_map, kept, KeepFirst.exists_mem_iff]
    simp only [List.mem_flatMap, backupNodes, oldNodes_eq_filterMap, List.mem_filterMap]
    constructor
    · intro found
      rcases found with ⟨record, ⟨old, ⟨slot, listed, leads⟩, member⟩, names⟩
      rcases slotNode_eq_some_iff.mp leads with ⟨present, notLive, read⟩
      exact ⟨slot, listed, present, notLive, old, read,
        List.mem_map.mpr ⟨record, member, names⟩⟩
    · intro found
      rcases found with ⟨slot, listed, present, notLive, old, read, reported⟩
      rcases List.mem_map.mp reported with ⟨record, member, names⟩
      exact ⟨record, ⟨old, ⟨slot, listed, slotNode_eq_some_iff.mpr
        ⟨present, notLive, read⟩⟩, member⟩, names⟩

/-! A volume with two slots that name one leaf, and in the leaf an inode item that is
stored twice. -/

def repeatedLeaf : Bytes :=
  Volume.leaf 0x100600 fsTreeObjectid 8
    [fileInode, (⟨257, inodeItemKey, 0⟩, []), inlineExtent]

def repeatedVolume : Volume where
  csumType := 0
  backups := overlay (2 * rootBackupSize) 0
    [(BackupOff.fsRoot, encodeLE 8 0x100600), (BackupOff.fsRootGen, encodeLE 8 8),
      (rootBackupSize + BackupOff.fsRoot, encodeLE 8 0x100600),
      (rootBackupSize + BackupOff.fsRootGen, encodeLE 8 7)]
  roots := [⟨0, 0, 0x100600, 8⟩, ⟨0, 0, 0x100600, 7⟩, ⟨0, 0, 0, 0⟩, ⟨0, 0, 0, 0⟩]
  blocks := [Volume.rootLeaf, emptyLeaf, repeatedLeaf]
  magic := Volume.magic_writeSuperblock _ _
  describes := Volume.describes_writeSuperblock _ _
  roots_eq := by
    rw [Volume.writeSuperblock, parseBackupRoots_written (by decide)]
    decide +kernel
  sized := by decide +kernel
  few := by decide

theorem repeatedLeaf_items :
    inodeSet (Node.ofBlock Crates.withoutCodecs repeatedLeaf) = [257, 257] ∧
      Reports (Node.ofBlock Crates.withoutCodecs emptyLeaf)
        (Node.ofBlock Crates.withoutCodecs repeatedLeaf) 257 := by
  decide +kernel

/-- The file is recovered once. -/
theorem recovered_inodes_union_in_repeatedVolume :
    (recoveredInodes (recoverDeleted Crates.withoutCodecs repeatedVolume.image)).Nodup ∧
      257 ∈ recoveredInodes (recoverDeleted Crates.withoutCodecs repeatedVolume.image) := by
  rcases repeatedVolume.recoverySetup_image rfl with ⟨root, bytenr, setup⟩
  have union := recovered_inodes_union setup
  have read : readNode Crates.withoutCodecs repeatedVolume.image repeatedVolume.sb
      Volume.map 0x100600 = .ok (Node.ofBlock Crates.withoutCodecs repeatedLeaf) :=
    Volume.readNode_image 3 0x12600 rfl (by decide) (by decide)
  refine ⟨union.1, (union.2 257).mpr ⟨⟨0, 0, 0x100600, 8⟩, ?_, by decide, ?_,
    Node.ofBlock Crates.withoutCodecs repeatedLeaf, ?_, ?_⟩⟩
  · rw [Volume.parseBackupRoots_superblock]
    exact List.mem_cons_self
  · rw [bytenr]
    decide
  · rw [Volume.auditMap_image]
    exact read
  · exact mem_recoveredInodes_iff.mpr repeatedLeaf_items.2

end BtrfsForensic
