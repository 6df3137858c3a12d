import BtrfsForensic.Core.ExtentLocality
import BtrfsForensic.Forensic.PermutedSlots

namespace BtrfsForensic

/-! Recovery from an image and from a copy of it with the backup slots in another
order: the same inodes come back, each from the slot that reports it first. -/

/-! ## What a slot yields -/

/-- No extent of an inode that an old node reports lies in the slots' bytes. -/
def ExtentsClear (crates : Crates) (image sbBlock : Bytes) (sb : Superblock) : Prop :=
  ∀ currentRoot current, RecoverySetup crates image sbBlock sb currentRoot current →
    ∀ old ∈ backupNodes crates image sbBlock sb currentRoot, ∀ ino,
      Reports current old ino → ∀ extent ∈ extentItems old ino, ∀ window,
        extentWindow (auditMap crates image sb) image.length extent.2 = some window →
        ClearOfSlots window.1 window.2

/-- The record a slot yields of an inode. -/
def slotRecord (crates : Crates) (image : Bytes) (sb : Superblock) (map : ChunkMap)
    (currentRoot : UInt64) (current : Node) (ino : UInt64) (slot : RootBackup) :
    Option RecoveredFile :=
  (slotNode crates image sb map currentRoot slot).bind fun old =>
    (recoverDeletedFromLeaves crates old current image map sb.sectorsize).find?
      fun record => record.inode = ino

/-- What the first of some slots to report an inode yields of it. -/
def firstRecord (crates : Crates) (image : Bytes) (sb : Superblock)
    (currentRoot : FsTreeRoot) (current : Node) (slots : List RootBackup)
    (ino : UInt64) : Option RecoveredFile :=
  slots.findSome? (slotRecord crates image sb (auditMap crates image sb)
    currentRoot.bytenr current ino)

section Runs

variable {crates : Crates} {image other sbBlock otherBlock : Bytes} {sb : Superblock}
  {order : Equiv.Perm (Fin numBackupRoots)} {status : Option Bool}
  {currentRoot : FsTreeRoot} {current : Node} {record : RecoveredFile}

theorem inode_of_slotRecord {map : ChunkMap} {root ino : UInt64} {slot : RootBackup}
    (yields : slotRecord crates image sb map root current ino slot = some record) :
    record.inode = ino := by
  rcases Option.bind_eq_some_iff.mp yields with ⟨old, _, found⟩
  simpa using List.find?_some found

theorem carve_congr {old : Node} {map : ChunkMap} {sectorsize : UInt32}
    {item : DiskKey × Bytes} (sameLength : image.length = other.length)
    (agree : AgreeOnExtents image other map (extentItems old item.1.objectid)) :
    carve crates old image map sectorsize item =
      carve crates old other map sectorsize item := by
  have content : carvedContent crates old image map sectorsize item.1.objectid =
      carvedContent crates old other map sectorsize item.1.objectid := by
    rw [carvedContent, carvedContent, readFileFromLeaf, readFileFromLeaf]
    cases inodeSize old item.1.objectid with
    | none => rfl
    | some size => simp only [sameLength, appendExtents_congr sameLength agree.sorted]
  rw [carve, carve, content]

theorem slotRecord_eq_of_clear (permutes : PermutesSlots image other order)
    (trees : TreesClear crates image sbBlock sb)
    (extents : ExtentsClear crates image sbBlock sb)
    (setup : RecoverySetup crates image sbBlock sb currentRoot current)
    {slot : RootBackup} (listed : slot ∈ parseBackupRoots sbBlock) {ino : UInt64} :
    slotRecord crates other { sb with crcValid := status } (auditMap crates image sb)
        currentRoot.bytenr current ino slot =
      slotRecord crates image sb (auditMap crates image sb) currentRoot.bytenr current
        ino slot := by
  rw [slotRecord, slotRecord, slotNode_eq_of_clear permutes trees listed]
  cases leads : slotNode crates image sb (auditMap crates image sb)
      currentRoot.bytenr slot with
  | none => rfl
  | some old =>
      have member : old ∈ backupNodes crates image sbBlock sb currentRoot :=
        List.mem_filterMap.mpr ⟨slot, listed, leads⟩
      rw [Option.bind_some, Option.bind_some, find?_recoverDeletedFromLeaves,
        find?_recoverDeletedFromLeaves]
      split
      case isFalse => rfl
      case isTrue reports =>
        cases first : inodeItem old ino with
        | none => rfl
        | some item =>
            have names := (inodeItem_spec first).2.1
            rw [Option.map_some, Option.map_some, Option.some.injEq]
            refine (carve_congr permutes.sameLength fun extent listed window found =>
              permutes.agreeOn ?_).symm
            rw [names] at listed
            exact extents currentRoot current setup old member ino reports extent
              listed window found

theorem inode_of_firstRecord {slots : List RootBackup} {ino : UInt64}
    (yields : firstRecord crates image sb currentRoot current slots ino =
      some record) : record.inode = ino := by
  rcases List.exists_of_findSome?_eq_some yields with ⟨slot, _, answer⟩
  exact inode_of_slotRecord answer

theorem tabulates_recoverDeleted
    (setup : RecoverySetup crates image sbBlock sb currentRoot current) :
    Tabulates RecoveredFile.inode
      (firstRecord crates image sb currentRoot current (parseBackupRoots sbBlock))
      (recoverDeleted crates image) where
  mem_iff record := by
    rw [recoverDeleted_eq setup, KeepFirst.mem_nil_iff, List.find?_flatMap,
      backupNodes, oldNodes_eq_filterMap, ← List.head?_filterMap,
      List.filterMap_filterMap, List.head?_filterMap]
    rfl
  keyed := inode_of_firstRecord

theorem slotNode_of_blank {map : ChunkMap} {root : UInt64} {slot : RootBackup}
    (blank : slot.fsRoot = 0) : slotNode crates image sb map root slot = none :=
  if_pos (.inl blank)

theorem firstRecord_of_reports {old : Node} {slot : RootBackup}
    {slots : List RootBackup} {ino : UInt64}
    (leads : slotNode crates image sb (auditMap crates image sb) currentRoot.bytenr
      slot = some old)
    (reports : Reports current old ino) :
    ∃ item, item.1.objectid = ino ∧
      firstRecord crates image sb currentRoot current (slot :: slots) ino =
        some (carve crates old image (auditMap crates image sb) sb.sectorsize item) := by
  rcases exists_inodeItem reports.1 with ⟨item, first, _, names, _⟩
  refine ⟨item, names, ?_⟩
  rw [firstRecord, List.findSome?_cons, slotRecord, leads, Option.bind_some,
    find?_recoverDeletedFromLeaves, if_pos reports, first]
  rfl

theorem firstRecord_of_blank {slot : RootBackup} {slots : List RootBackup}
    {ino : UInt64} (blank : slot.fsRoot = 0) :
    firstRecord crates image sb currentRoot current (slot :: slots) ino =
      firstRecord crates image sb currentRoot current slots ino := by
  rw [firstRecord, List.findSome?_cons, slotRecord, slotNode_of_blank blank]
  rfl

theorem tabulates_recoverDeleted_other (permutes : PermutesSlots image other order)
    (trees : TreesClear crates image sbBlock sb)
    (extents : ExtentsClear crates image sbBlock sb)
    (setup : RecoverySetup crates image sbBlock sb currentRoot current)
    (otherFound : superblockBlock other = some otherBlock) :
    Tabulates RecoveredFile.inode
      (firstRecord crates image sb currentRoot current (parseBackupRoots otherBlock))
      (recoverDeleted crates other) where
  mem_iff record := by
    rcases permutes.parsesSuperblock_of_clear setup.parses trees with
      ⟨_, status, otherParses⟩
    cases otherFound.symm.trans otherParses.block
    have perm := permutes.parseBackupRoots_perm setup.parses.block otherFound
    have otherSetup :=
      (recoverySetup_iff_of_clear permutes setup.parses otherParses trees).mpr setup
    rw [(tabulates_recoverDeleted otherSetup).mem_iff, firstRecord, firstRecord,
      auditMap_eq_of_clear permutes trees, ← List.head?_filterMap,
      ← List.head?_filterMap, List.filterMap_congr]
    intro slot listed
    exact slotRecord_eq_of_clear permutes trees extents setup
      (perm.mem_iff.mpr listed)
  keyed := inode_of_firstRecord

theorem exists_recoverySetup_of_other (permutes : PermutesSlots image other order)
    (trees : ∀ sbBlock sb, ParsesSuperblock crates image sbBlock sb →
      TreesClear crates image sbBlock sb)
    (member : record ∈ recoverDeleted crates other) :
    ∃ sbBlock sb currentRoot current,
      RecoverySetup crates image sbBlock sb currentRoot current := by
  rcases exists_recoverySetup member with
    ⟨otherBlock, otherSb, currentRoot, current, setup⟩
  rcases permutes.symm.parsesSuperblock setup.parses with ⟨sbBlock, parses⟩
  have clear := trees sbBlock _ parses
  rcases permutes.parsesSuperblock_of_clear parses clear with ⟨_, status, otherParses⟩
  rcases setup.parses.unique otherParses with ⟨rfl, rfl⟩
  exact ⟨sbBlock, _, currentRoot, current,
    (recoverySetup_iff_of_clear permutes parses otherParses clear).mp setup⟩

end Runs

/-! ## Two runs -/

/-- Nothing else that the recovery reads lies in the bytes of the slots. -/
def SlotsUnread (crates : Crates) (image : Bytes) : Prop :=
  ∀ sbBlock sb, ParsesSuperblock crates image sbBlock sb →
    TreesClear crates image sbBlock sb ∧ ExtentsClear crates image sbBlock sb

/-- Every slot that reports the inode yields the same record of it. -/
def SlotsAgree (crates : Crates) (image : Bytes) (ino : UInt64) : Prop :=
  ∀ sbBlock sb currentRoot current,
    RecoverySetup crates image sbBlock sb currentRoot current →
    ∀ slot ∈ parseBackupRoots sbBlock, ∀ later ∈ parseBackupRoots sbBlock,
    ∀ left right,
      slotRecord crates image sb (auditMap crates image sb) currentRoot.bytenr current
        ino slot = some left →
      slotRecord crates image sb (auditMap crates image sb) currentRoot.bytenr current
        ino later = some right →
      left = right

section TwoRuns

variable {crates : Crates} {image other sbBlock : Bytes} {sb : Superblock}
  {order : Equiv.Perm (Fin numBackupRoots)} {currentRoot : FsTreeRoot}
  {current : Node} {record : RecoveredFile}

theorem tabulates_of_block (permutes : PermutesSlots image other order)
    (unread : SlotsUnread crates image)
    (setup : RecoverySetup crates image sbBlock sb currentRoot current)
    (otherFound : superblockBlock other = some otherBlock) :
    Tabulates RecoveredFile.inode
        (firstRecord crates image sb currentRoot current (parseBackupRoots sbBlock))
        (recoverDeleted crates image) ∧
      Tabulates RecoveredFile.inode
        (firstRecord crates image sb currentRoot current (parseBackupRoots otherBlock))
        (recoverDeleted crates other) := by
  rcases unread sbBlock sb setup.parses with ⟨trees, extents⟩
  exact ⟨tabulates_recoverDeleted setup,
    tabulates_recoverDeleted_other permutes trees extents setup otherFound⟩

theorem tabulates_both (permutes : PermutesSlots image other order)
    (unread : SlotsUnread crates image)
    (setup : RecoverySetup crates image sbBlock sb currentRoot current) :
    ∃ otherBlock, superblockBlock other = some otherBlock ∧
      (parseBackupRoots sbBlock).Perm (parseBackupRoots otherBlock) ∧
      Tabulates RecoveredFile.inode
        (firstRecord crates image sb currentRoot current (parseBackupRoots sbBlock))
        (recoverDeleted crates image) ∧
      Tabulates RecoveredFile.inode
        (firstRecord crates image sb currentRoot current (parseBackupRoots otherBlock))
        (recoverDeleted crates other) := by
  rcases permutes.exists_superblockBlock setup.parses.block with
    ⟨otherBlock, otherFound⟩
  exact ⟨otherBlock, otherFound,
    permutes.parseBackupRoots_perm setup.parses.block otherFound,
    tabulates_of_block permutes unread setup otherFound⟩

theorem mem_iff_of_no_setup (permutes : PermutesSlots image other order)
    (unread : SlotsUnread crates image)
    (absent : ¬∃ sbBlock sb currentRoot current,
      RecoverySetup crates image sbBlock sb currentRoot current) :
    record ∈ recoverDeleted crates image ↔ record ∈ recoverDeleted crates other := by
  constructor
  · intro member
    exact absurd (exists_recoverySetup member) absent
  · intro member
    exact absurd (exists_recoverySetup_of_other permutes
      (fun sbBlock sb parses => (unread sbBlock sb parses).1) member) absent

end TwoRuns

/-- With its backup slots in another order, and nothing else that the recovery reads in
their bytes, an image yields the same inodes, of each the record of the first slot in its
own order that reports it. -/
theorem recovered_after_permutation (crates : Crates) {image other : Bytes}
    {order : Equiv.Perm (Fin numBackupRoots)}
    (permutes : PermutesSlots image other order) (unread : SlotsUnread crates image) :
    (∀ ino, (∃ record ∈ recoverDeleted crates image, record.inode = ino) ↔
      ∃ record ∈ recoverDeleted crates other, record.inode = ino) ∧
    (∀ sbBlock otherBlock sb currentRoot current,
      RecoverySetup crates image sbBlock sb currentRoot current →
      superblockBlock other = some otherBlock →
      ∀ record,
        (record ∈ recoverDeleted crates image ↔
          firstRecord crates image sb currentRoot current (parseBackupRoots sbBlock)
            record.inode = some record) ∧
        (record ∈ recoverDeleted crates other ↔
          firstRecord crates image sb currentRoot current (parseBackupRoots otherBlock)
            record.inode = some record)) ∧
    ((∀ record, record ∈ recoverDeleted crates image ↔
        record ∈ recoverDeleted crates other) ↔
      ∀ sbBlock otherBlock sb currentRoot current,
        RecoverySetup crates image sbBlock sb currentRoot current →
        superblockBlock other = some otherBlock →
        ∀ ino,
          firstRecord crates image sb currentRoot current (parseBackupRoots sbBlock)
              ino =
            firstRecord crates image sb currentRoot current
              (parseBackupRoots otherBlock) ino) ∧
    ∀ ino, SlotsAgree crates image ino → ∀ record, record.inode = ino →
      (record ∈ recoverDeleted crates image ↔
        record ∈ recoverDeleted crates other) := by
  have own (sbBlock otherBlock : Bytes) (sb : Superblock) (currentRoot : FsTreeRoot)
      (current : Node) (setup : RecoverySetup crates image sbBlock sb currentRoot current)
      (otherFound : superblockBlock other = some otherBlock) (record : RecoveredFile) :
      (record ∈ recoverDeleted crates image ↔
        firstRecord crates image sb currentRoot current (parseBackupRoots sbBlock)
          record.inode = some record) ∧
      (record ∈ recoverDeleted crates other ↔
        firstRecord crates image sb currentRoot current (parseBackupRoots otherBlock)
          record.inode = some record) := by
    rcases tabulates_of_block permutes unread setup otherFound with ⟨table, otherTable⟩
    exact ⟨table.mem_iff record, otherTable.mem_iff record⟩
  by_cases run : ∃ sbBlock sb currentRoot current,
      RecoverySetup crates image sbBlock sb currentRoot current
  · rcases run with ⟨sbBlock, sb, currentRoot, current, setup⟩
    rcases tabulates_both permutes unread setup with
      ⟨otherBlock, otherFound, perm, table, otherTable⟩
    refine ⟨fun ino => ?_, own, ⟨?_, ?_⟩, ?_⟩
    · rw [table.exists_mem_iff, otherTable.exists_mem_iff, firstRecord, firstRecord,
        isSome_findSome?_of_perm perm]
    · intro same sbBlock otherBlock sb currentRoot current setup otherFound
      rcases tabulates_of_block permutes unread setup otherFound with ⟨table, otherTable⟩
      exact (table.forall_mem_iff otherTable).mp same
    · intro same
      exact (table.forall_mem_iff otherTable).mpr
        (same sbBlock otherBlock sb currentRoot current setup otherFound)
    · intro ino agree record names
      subst names
      apply table.mem_iff_of_eq otherTable
      exact findSome?_of_perm perm (agree sbBlock sb currentRoot current setup)
  · have same (record : RecoveredFile) : record ∈ recoverDeleted crates image ↔
        record ∈ recoverDeleted crates other :=
      mem_iff_of_no_setup permutes unread run
    refine ⟨fun ino => ?_, own, ?_, fun ino _ record _ => same record⟩
    · simp only [same]
    · refine iff_of_true same ?_
      intro sbBlock otherBlock sb currentRoot current setup
      exact absurd ⟨sbBlock, sb, currentRoot, current, setup⟩ run

/-! ## One file in two old trees -/

/-- The trees of a volume lie behind its slots. -/
theorem Volume.treesClear (volume : Volume) {rest : List Bytes}
    (array : sysChunkArrayOffset + volume.sb.sysChunkArraySize.toNat ≤
      backupRootsOffset)
    (first : volume.blocks = rootLeaf :: rest)
    (oldTrees : ∀ slot ∈ volume.roots, slot.fsRoot ≠ 0 → ∃ phys : UInt64,
      Volume.map.logicalToPhysical slot.fsRoot = some (1, phys) ∧
        slotsEnd ≤ phys.toNat) :
    TreesClear Crates.withoutCodecs volume.image volume.superblock volume.sb where
  array := array
  chunkTree := by
    rw [walkReads_image]
    intro start member
    rw [List.mem_singleton.mp member]
    right
    decide
  rootTree := by
    rw [sb, volume.describes.1]
    exact nodeClear_of_target 0x12200 volume.auditMap_image (by decide) (by decide)
  liveTree currentRoot located := by
    rcases volume.fsTreeRoot_image first with ⟨root, found, bytenr⟩
    rw [auditMap_image, found] at located
    cases located
    rw [bytenr]
    exact nodeClear_of_target 0x12400 volume.auditMap_image (by decide) (by decide)
  oldTrees slot listed present := by
    rw [parseBackupRoots_superblock] at listed
    rcases oldTrees slot listed present with ⟨phys, target, behind⟩
    exact nodeClear_of_target phys volume.auditMap_image target behind

def olderFileLeaf : Bytes :=
  Volume.leaf 0x100800 fsTreeObjectid 7 [fileInode, inlineExtent]

/-- A volume whose first two slots lead to the two versions of the file. -/
def twoVersions : Volume where
  csumType := 0
  backups := overlay (2 * rootBackupSize) 0
    [(BackupOff.fsRoot, encodeLE 8 0x100600), (BackupOff.fsRootGen, encodeLE 8 8),
      (rootBackupSize + BackupOff.fsRoot, encodeLE 8 0x100800),
      (rootBackupSize + BackupOff.fsRootGen, encodeLE 8 7)]
  roots := [⟨0, 0, 0x100600, 8⟩, ⟨0, 0, 0x100800, 7⟩, ⟨0, 0, 0, 0⟩, ⟨0, 0, 0, 0⟩]
  blocks := [Volume.rootLeaf, emptyLeaf, oldFileLeaf, olderFileLeaf]
  magic := Volume.magic_writeSuperblock _ _
  describes := Volume.describes_writeSuperblock _ _
  roots_eq := by
    rw [Volume.writeSuperblock, parseBackupRoots_written (by decide)]
    decide +kernel
  sized := by decide +kernel
  few := by decide

theorem twoVersions_items :
    Reports (Node.ofBlock Crates.withoutCodecs emptyLeaf)
        (Node.ofBlock Crates.withoutCodecs oldFileLeaf) 257 ∧
      Reports (Node.ofBlock Crates.withoutCodecs emptyLeaf)
        (Node.ofBlock Crates.withoutCodecs olderFileLeaf) 257 ∧
      (Node.ofBlock Crates.withoutCodecs oldFileLeaf).header.generation = 8 ∧
      (Node.ofBlock Crates.withoutCodecs olderFileLeaf).header.generation = 7 ∧
      (∀ item ∈ (Node.ofBlock Crates.withoutCodecs oldFileLeaf).leafItems ++
          (Node.ofBlock Crates.withoutCodecs olderFileLeaf).leafItems,
        item.1.keyType = extentDataKey →
          u8At item.2 ExtOff.type = extentTypeInline) ∧
      sysChunkArrayOffset + twoVersions.sb.sysChunkArraySize.toNat ≤
        backupRootsOffset := by
  decide +kernel

theorem long_twoVersions : slotsEnd ≤ twoVersions.image.length := by
  rw [Volume.length_image]
  decide

section TwoVersions

variable {root : FsTreeRoot}

theorem slotNode_twoVersions (bytenr : root.bytenr = 0x100400) :
    slotNode Crates.withoutCodecs twoVersions.image twoVersions.sb Volume.map
        root.bytenr ⟨0, 0, 0x100600, 8⟩ =
          some (Node.ofBlock Crates.withoutCodecs oldFileLeaf) ∧
      slotNode Crates.withoutCodecs twoVersions.image twoVersions.sb Volume.map
        root.bytenr ⟨0, 0, 0x100800, 7⟩ =
          some (Node.ofBlock Crates.withoutCodecs olderFileLeaf) := by
  rw [slotNode_eq_some_iff, slotNode_eq_some_iff, bytenr]
  exact ⟨⟨by decide, by decide,
      Volume.readNode_image 3 0x12600 rfl (by decide) (by decide)⟩,
    by decide, by decide,
    Volume.readNode_image 4 0x12800 rfl (by decide) (by decide)⟩

theorem backupNodes_twoVersions (bytenr : root.bytenr = 0x100400) :
    backupNodes Crates.withoutCodecs twoVersions.image twoVersions.superblock
        twoVersions.sb root =
      [Node.ofBlock Crates.withoutCodecs oldFileLeaf,
        Node.ofBlock Crates.withoutCodecs olderFileLeaf] := by
  rcases slotNode_twoVersions bytenr with ⟨first, second⟩
  have blank : slotNode Crates.withoutCodecs twoVersions.image twoVersions.sb
      Volume.map root.bytenr ⟨0, 0, 0, 0⟩ = none := if_pos (.inl rfl)
  have roots : twoVersions.roots =
      [⟨0, 0, 0x100600, 8⟩, ⟨0, 0, 0x100800, 7⟩, ⟨0, 0, 0, 0⟩, ⟨0, 0, 0, 0⟩] := rfl
  rw [backupNodes, oldNodes_eq_filterMap, Volume.parseBackupRoots_superblock, roots,
    Volume.auditMap_image]
  simp only [List.filterMap_cons, List.filterMap_nil, first, second, blank]

theorem slotsUnread_twoVersions :
    SlotsUnread Crates.withoutCodecs twoVersions.image := by
  intro sbBlock sb parses
  rcases parses.unique twoVersions.parsesSuperblock with ⟨rfl, rfl⟩
  constructor
  · refine twoVersions.treesClear twoVersions_items.2.2.2.2.2 rfl ?_
    intro slot listed present
    rcases List.mem_cons.mp listed with rfl | listed
    · exact ⟨0x12600, by decide, by decide⟩
    · rcases List.mem_cons.mp listed with rfl | listed
      · exact ⟨0x12800, by decide, by decide⟩
      · have blank : slot ∈ List.replicate 2 (⟨0, 0, 0, 0⟩ : RootBackup) := listed
        rw [List.eq_of_mem_replicate blank] at present
        exact absurd rfl present
  · intro currentRoot current setup old member ino _ extent listed window found
    rcases twoVersions.recoverySetup_image rfl with ⟨root, bytenr, again⟩
    have located := setup.located.symm.trans again.located
    cases located
    have stored : old.leafItems ⊆
        (Node.ofBlock Crates.withoutCodecs oldFileLeaf).leafItems ++
          (Node.ofBlock Crates.withoutCodecs olderFileLeaf).leafItems := by
      rw [backupNodes_twoVersions bytenr] at member
      rcases List.mem_cons.mp member with rfl | member
      · exact List.subset_append_left _ _
      · rw [List.mem_singleton.mp member]
        exact List.subset_append_right _ _
    rcases List.mem_map.mp listed with ⟨item, itemListed, rfl⟩
    rw [List.mem_filter, decide_eq_true_iff] at itemListed
    rw [extentWindow_of_inline
      (twoVersions_items.2.2.2.2.1 item (stored itemListed.1) itemListed.2.2)] at found
    cases found

theorem twoVersions_differ :
    ¬∀ record, record ∈ recoverDeleted Crates.withoutCodecs twoVersions.image ↔
      record ∈ recoverDeleted Crates.withoutCodecs
        (swapFirstSlots twoVersions.image) := by
  have permutes := permutesSlots_swapFirstSlots long_twoVersions
  rcases twoVersions.recoverySetup_image rfl with ⟨root, bytenr, setup⟩
  rcases tabulates_both permutes slotsUnread_twoVersions setup with
    ⟨otherBlock, otherFound, _, table, otherTable⟩
  have listed : parseBackupRoots twoVersions.superblock =
      [⟨0, 0, 0x100600, 8⟩, ⟨0, 0, 0x100800, 7⟩, ⟨0, 0, 0, 0⟩, ⟨0, 0, 0, 0⟩] :=
    Volume.parseBackupRoots_superblock _
  rcases slotNode_twoVersions bytenr with ⟨newer, older⟩
  rw [← Volume.auditMap_image] at newer older
  intro same
  have answers := (table.forall_mem_iff otherTable).mp same 257
  rw [permutes.parseBackupRoots_swap setup.parses.block otherFound listed, listed]
    at answers
  rcases firstRecord_of_reports newer twoVersions_items.1 with ⟨_, _, first⟩
  rcases firstRecord_of_reports older twoVersions_items.2.1 with ⟨_, _, otherFirst⟩
  rw [first, otherFirst, Option.some.injEq] at answers
  have generation := congrArg RecoveredFile.generation answers
  rw [generation_carve rfl, generation_carve rfl, twoVersions_items.2.2.1,
    twoVersions_items.2.2.2.1] at generation
  exact absurd generation (by decide)

end TwoVersions

/-! ## A file in the slots themselves

An image whose chunk holds the superblock, and whose old `FS_TREE` has a file in
the bytes of the first slot. -/

namespace Aliased

def map : ChunkMap := ⟨[⟨0x100000, 0x4000, [(1, 0x10000)]⟩]⟩

def chunkTree : Bytes :=
  Volume.leaf 0x102000 3 9
    [(⟨256, chunkItemKey, 0x100000⟩, Writer.chunk 0x4000 0x10000)]

def rootTree : Bytes :=
  Volume.leaf 0x102200 1 9 [(⟨fsTreeObjectid, rootItemKey, 0⟩,
    overlay 239 0 [(RootOff.bytenr, encodeLE 8 0x102400)])]

/-- Five bytes at the start of the first slot. -/
def slotExtent : DiskKey × Bytes :=
  (⟨257, extentDataKey, 0⟩, overlay 53 0
    [(ExtOff.type, [extentTypeReg]), (ExtOff.diskBytenr, encodeLE 8 0x100b2b),
      (ExtOff.numBytes, encodeLE 8 5)])

def oldTree : Bytes :=
  Volume.leaf 0x102600 fsTreeObjectid 8 [fileInode, slotExtent]

def superblock : Bytes :=
  Writer.superblock Crates.withoutCodecs
    { fsid := Volume.fsid
      generation := 9
      root := 0x102200
      chunkRoot := 0x102000
      nodesize := 512
      csumType := 0
      sysChunks := [(0x100000, Writer.chunk 0x4000 0x10000)]
      backups := overlay rootBackupSize 0
        [(BackupOff.treeRoot, encodeLE 8 0x102200),
          (BackupOff.fsRoot, encodeLE 8 0x102600)] }

def sb : Superblock := Superblock.decode Crates.withoutCodecs superblock

def blocks : List Bytes := [chunkTree, rootTree, emptyLeaf, oldTree]

def image : Bytes := Writer.image 0x14000 superblock [(0x12000, blocks.flatten)]

theorem sb_fields :
    sb.root = 0x102200 ∧ sb.chunkRoot = 0x102000 ∧ sb.nodesize = 512 ∧
      ChunkMap.boot sb = map ∧
      sysChunkArrayOffset + sb.sysChunkArraySize.toNat ≤ backupRootsOffset ∧
      u8Array superblock magicOffset 8 = btrfsMagic := by
  decide +kernel

theorem parseBackupRoots_eq :
    parseBackupRoots superblock =
      [⟨0x102200, 0, 0x102600, 0⟩, ⟨0, 0, 0, 0⟩, ⟨0, 0, 0, 0⟩, ⟨0, 0, 0, 0⟩] := by
  rw [superblock, parseBackupRoots_written (by decide)]
  decide +kernel

theorem blocks_sized : ∀ block ∈ blocks, block.length = 512 := by decide +kernel

theorem parsesSuperblock :
    ParsesSuperblock Crates.withoutCodecs image superblock sb where
  block := superblockBlock_image (Writer.length_superblock _ _) (by decide)
  parsed := by
    refine Superblock.parse_eq_ok sb_fields.2.2.2.2.2 ?_
    rw [superblock, Writer.length_superblock]
    decide

theorem getRange_image {block : Bytes} {index : Nat} {phys : UInt64}
    (found : blocks[index]? = some block)
    (place : phys.toNat = 0x12000 + 512 * index) :
    getRange image phys.toNat (saturatingAdd phys.toNat sb.nodesize.toNat) =
      some block := by
  have inside : index < 4 := (List.getElem?_eq_some_iff.mp found).1
  have size : sb.nodesize.toNat = 512 := by
    rw [sb_fields.2.2.1]
    decide
  have limit : usizeMax = 18446744073709551615 := rfl
  rw [size, place, saturatingAdd_eq (by omega), Nat.add_assoc]
  exact Writer.getRange_image_block (Writer.length_superblock _ _) blocks_sized found
    (by decide) (by decide)

theorem header_fits {block : Bytes} (member : block ∈ blocks) :
    btrfsHeaderSize ≤ block.length := by
  rw [blocks_sized block member]
  decide

theorem chunkTree_items :
    (Node.ofBlock Crates.withoutCodecs chunkTree).isLeaf = true ∧
      ChunkMap.new.addFromNode (Node.ofBlock Crates.withoutCodecs chunkTree) = map := by
  decide +kernel

theorem boot_chunkRoot :
    (ChunkMap.boot sb).logicalToPhysical sb.chunkRoot = some (1, 0x12000) := by
  rw [sb_fields.2.2.2.1, sb_fields.2.1]
  decide

theorem auditMap_image : auditMap Crates.withoutCodecs image sb = map := by
  have first : blocks[0]? = some chunkTree := rfl
  have walked : ChunkMap.walk Crates.withoutCodecs image sb = .ok map := by
    rw [ChunkMap.walk_eq_of_leaf boot_chunkRoot
      (getRange_image first (by decide))
      (header_fits List.mem_cons_self) chunkTree_items.1, chunkTree_items.2]
  rw [auditMap, walked]

theorem readNode_image {block : Bytes} (index : Nat) {address : UInt64} (phys : UInt64)
    (found : blocks[index]? = some block)
    (target : map.logicalToPhysical address = some (1, phys))
    (place : phys.toNat = 0x12000 + 512 * index) :
    readNode Crates.withoutCodecs image sb map address =
      .ok (Node.ofBlock Crates.withoutCodecs block) :=
  readNode_eq_ok_iff.mpr ⟨1, phys, block, by rw [nodePhysical, target, Option.some_or],
    getRange_image found place, header_fits (List.mem_of_getElem? found), rfl⟩

theorem fsTreeRoot_image :
    ∃ root, fsTreeRoot Crates.withoutCodecs image sb map = .ok root ∧
      root.bytenr = 0x102400 := by
  have listed : ((Node.ofBlock Crates.withoutCodecs rootTree).leafItems.find?
      fun item => item.1.objectid = fsTreeObjectid ∧ item.1.keyType = rootItemKey).map
        (fun item => (FsTreeRoot.parse item.2).bytenr) = some 0x102400 := by
    decide +kernel
  rcases Option.map_eq_some_iff.mp listed with ⟨item, found, bytenr⟩
  refine ⟨FsTreeRoot.parse item.2, ?_, bytenr⟩
  rw [fsTreeRoot, sb_fields.1, readNode_image 1 0x12200 rfl (by decide) (by decide)]
  simp only [bind, Except.bind, found]

theorem treesClear : TreesClear Crates.withoutCodecs image superblock sb where
  array := sb_fields.2.2.2.2.1
  chunkTree := by
    have first : blocks[0]? = some chunkTree := rfl
    rw [ChunkMap.walkReads_eq_of_leaf boot_chunkRoot
      (getRange_image first (by decide))
      (header_fits List.mem_cons_self) chunkTree_items.1]
    intro start member
    rw [List.mem_singleton.mp member]
    right
    decide
  rootTree := by
    rw [sb_fields.1]
    exact nodeClear_of_target 0x12200 auditMap_image (by decide) (by decide)
  liveTree currentRoot located := by
    rcases fsTreeRoot_image with ⟨root, found, bytenr⟩
    rw [auditMap_image, found] at located
    cases located
    rw [bytenr]
    exact nodeClear_of_target 0x12400 auditMap_image (by decide) (by decide)
  oldTrees slot listed present := by
    rw [parseBackupRoots_eq] at listed
    rcases List.mem_cons.mp listed with rfl | blank
    · exact nodeClear_of_target 0x12600 auditMap_image (by decide) (by decide)
    · have same : slot ∈ List.replicate 3 (⟨0, 0, 0, 0⟩ : RootBackup) := blank
      rw [List.eq_of_mem_replicate same] at present
      exact absurd rfl present

theorem recoverySetup :
    ∃ root, root.bytenr = 0x102400 ∧
      RecoverySetup Crates.withoutCodecs image superblock sb root
        (Node.ofBlock Crates.withoutCodecs emptyLeaf) := by
  rcases fsTreeRoot_image with ⟨root, located, bytenr⟩
  refine ⟨root, bytenr, parsesSuperblock, ?_, ?_⟩
  · rw [auditMap_image, located]
  · rw [auditMap_image, bytenr]
    exact readNode_image 2 0x12400 rfl (by decide) (by decide)

theorem oldTree_items :
    Reports (Node.ofBlock Crates.withoutCodecs emptyLeaf)
        (Node.ofBlock Crates.withoutCodecs oldTree) 257 ∧
      inodeSize (Node.ofBlock Crates.withoutCodecs oldTree) 257 = some 5 ∧
      sortByOffset (extentItems (Node.ofBlock Crates.withoutCodecs oldTree) 257) =
        [(0, slotExtent.2)] ∧
      u8At slotExtent.2 ExtOff.type = extentTypeReg ∧
      leU64 slotExtent.2 ExtOff.diskBytenr = 0x100b2b ∧
      leU64 slotExtent.2 ExtOff.offset = 0 ∧
      leU64 slotExtent.2 ExtOff.numBytes = 5 ∧
      Compression.fromByte (u8At slotExtent.2 ExtOff.compression) = .none := by
  decide +kernel

theorem carvedContent_oldTree {sectorsize : UInt32} {image entry : Bytes}
    (found : slotEntry image 0 = some entry) :
    carvedContent Crates.withoutCodecs (Node.ofBlock Crates.withoutCodecs oldTree)
      image map sectorsize 257 = entry.take 5 := by
  rcases oldTree_items with
    ⟨_, inode, extents, type, diskBytenr, offset, numBytes, compression⟩
  have size : entry.length = 168 := length_slotEntry found
  have slot : getRange image slotsStart (slotsStart + rootBackupSize) = some entry :=
    found
  have window : getRange image 0x10b2b 0x10b30 = some (entry.take 5) := by
    have start : 0x10b2b = slotsStart + 0 := by decide
    have stop : 0x10b30 = slotsStart + 5 := by decide
    rw [start, stop, getRange_of_getRange slot (Nat.zero_le 5) (by omega),
      getRange_eq_some_iff]
    exact ⟨Nat.zero_le _, by omega, rfl⟩
  have long := stop_le_of_getRange window
  have five : (5 : UInt64).toNat = 5 := by decide
  have content : extentContent Crates.withoutCodecs image map sectorsize
      (max image.length logicalAllocFloor) slotExtent.2 = .ok (entry.take 5) := by
    have target : map.logicalToPhysical (leU64 slotExtent.2 ExtOff.diskBytenr) =
        some (1, 0x10b2b) := by
      rw [diskBytenr]
      decide
    refine extentContent_of_window type compression ?_ ?_ target ?_
    · rw [diskBytenr]
      decide
    · rw [numBytes, five]
      omega
    · rw [offset, numBytes]
      exact window
  have read : readFileFromLeaf Crates.withoutCodecs
      (Node.ofBlock Crates.withoutCodecs oldTree) image map sectorsize 257 =
        .ok (entry.take 5) := by
    rw [readFileFromLeaf_eq_ok_iff]
    refine ⟨5, entry.take 5, inode, ?_, ?_, ?_⟩
    · rw [five]
      omega
    · rw [extents, appendExtents, content]
      rfl
    · rw [fitToSize, five, List.length_take, Nat.min_eq_left (by omega),
        if_neg (Nat.lt_irrefl 5), Nat.sub_self, List.replicate_zero, List.append_nil]
  rw [carvedContent, read]

theorem long : slotsEnd ≤ image.length := by
  rw [image, Writer.image, length_overlay]
  decide

theorem slotEntries :
    ∃ first second, slotEntry image 0 = some first ∧ slotEntry image 1 = some second ∧
      first.take 5 ≠ second.take 5 := by
  have bytes : (getRange superblock (backupRootsOffset + 0 * rootBackupSize)
      (saturatingAdd (backupRootsOffset + 0 * rootBackupSize) rootBackupSize)).map
        (List.take 5) ≠
      (getRange superblock (backupRootsOffset + 1 * rootBackupSize)
        (saturatingAdd (backupRootsOffset + 1 * rootBackupSize) rootBackupSize)).map
          (List.take 5) := by
    decide +kernel
  rcases exists_slotEntry long 0 (by decide) with ⟨first, found⟩
  rcases exists_slotEntry long 1 (by decide) with ⟨second, secondFound⟩
  rw [getRange_slot parsesSuperblock.block 0 (by decide),
    getRange_slot parsesSuperblock.block 1 (by decide), found, secondFound] at bytes
  exact ⟨first, second, found, secondFound, fun equal => bytes (congrArg some equal)⟩

theorem slotNode_image {root : FsTreeRoot} (bytenr : root.bytenr = 0x102400) :
    slotNode Crates.withoutCodecs image sb map root.bytenr ⟨0x102200, 0, 0x102600, 0⟩ =
      some (Node.ofBlock Crates.withoutCodecs oldTree) := by
  rw [slotNode_eq_some_iff, bytenr]
  exact ⟨by decide, by decide, readNode_image 3 0x12600 rfl (by decide) (by decide)⟩

/-- Only one slot leads to a node, so the slots agree on every inode. -/
theorem slotsAgree (ino : UInt64) : SlotsAgree Crates.withoutCodecs image ino := by
  intro sbBlock found currentRoot current setup
  rcases setup.parses.unique parsesSuperblock with ⟨rfl, rfl⟩
  intro slot listed later laterListed left right yields laterYields
  rw [parseBackupRoots_eq] at listed laterListed
  have only {slot : RootBackup} {record : RecoveredFile}
      (member : slot ∈ ⟨0x102200, 0, 0x102600, 0⟩ ::
        List.replicate 3 (⟨0, 0, 0, 0⟩ : RootBackup))
      (answer : slotRecord Crates.withoutCodecs image sb
        (auditMap Crates.withoutCodecs image sb) currentRoot.bytenr current ino slot =
          some record) : slot = ⟨0x102200, 0, 0x102600, 0⟩ := by
    rcases List.mem_cons.mp member with same | blank
    · exact same
    · have empty : slot.fsRoot = 0 := List.eq_of_mem_replicate blank ▸ rfl
      rw [slotRecord, slotNode_of_blank empty] at answer
      cases answer
  rw [only listed yields] at yields
  rw [only laterListed laterYields, yields, Option.some.injEq] at laterYields
  exact laterYields

theorem differ :
    ¬∀ record, record ∈ recoverDeleted Crates.withoutCodecs image ↔
      record ∈ recoverDeleted Crates.withoutCodecs (swapFirstSlots image) := by
  have permutes := permutesSlots_swapFirstSlots long
  rcases recoverySetup with ⟨root, bytenr, setup⟩
  rcases permutes.parsesSuperblock_of_clear parsesSuperblock treesClear with
    ⟨otherBlock, status, otherParses⟩
  have otherSetup := (recoverySetup_iff_of_clear permutes parsesSuperblock otherParses
    treesClear).mpr setup
  rcases slotEntries with ⟨first, second, found, secondFound, unequal⟩
  have otherFound : slotEntry (swapFirstSlots image) 0 = some second :=
    (slotEntry_swapFirstSlots long).1.trans secondFound
  have listed := parseBackupRoots_eq
  have otherListed :=
    permutes.parseBackupRoots_swap parsesSuperblock.block otherParses.block listed
  have leads := slotNode_image bytenr
  rw [← auditMap_image] at leads
  have otherLeads := leads
  rw [← slotNode_eq_of_clear permutes treesClear
      (by rw [listed]; exact List.mem_cons_self),
    ← auditMap_eq_of_clear permutes treesClear] at otherLeads
  rcases firstRecord_of_reports leads oldTree_items.1 with ⟨item, names, answer⟩
  rcases firstRecord_of_reports otherLeads oldTree_items.1 with
    ⟨otherItem, otherNames, otherAnswer⟩
  intro same
  have answers := ((tabulates_recoverDeleted setup).forall_mem_iff
    (tabulates_recoverDeleted otherSetup)).mp same 257
  rw [listed, answer, otherListed, firstRecord_of_blank rfl, otherAnswer,
    Option.some.injEq] at answers
  have contents := congrArg RecoveredFile.content answers
  simp only [carve, names, otherNames, auditMap_eq_of_clear permutes treesClear,
    auditMap_image, carvedContent_oldTree found, carvedContent_oldTree otherFound]
    at contents
  exact unequal contents

end Aliased

/-- Two reasons for different records after an exchange of two slots: the slots
lead to two versions of a file, or a file lies in their bytes. -/
theorem recovered_records_differ :
    (SlotsUnread Crates.withoutCodecs twoVersions.image ∧
      PermutesSlots twoVersions.image (swapFirstSlots twoVersions.image)
        (Equiv.swap 0 1) ∧
      ¬∀ record, record ∈ recoverDeleted Crates.withoutCodecs twoVersions.image ↔
        record ∈ recoverDeleted Crates.withoutCodecs
          (swapFirstSlots twoVersions.image)) ∧
    (∀ ino, SlotsAgree Crates.withoutCodecs Aliased.image ino) ∧
      PermutesSlots Aliased.image (swapFirstSlots Aliased.image) (Equiv.swap 0 1) ∧
      ¬∀ record, record ∈ recoverDeleted Crates.withoutCodecs Aliased.image ↔
        record ∈ recoverDeleted Crates.withoutCodecs (swapFirstSlots Aliased.image) :=
  ⟨⟨slotsUnread_twoVersions, permutesSlots_swapFirstSlots long_twoVersions,
      twoVersions_differ⟩,
    Aliased.slotsAgree, permutesSlots_swapFirstSlots Aliased.long, Aliased.differ⟩

theorem recovered_after_permutation_in_twoVersions :
    (∃ record ∈ recoverDeleted Crates.withoutCodecs twoVersions.image,
        record.inode = 257) ↔
      ∃ record ∈ recoverDeleted Crates.withoutCodecs
        (swapFirstSlots twoVersions.image), record.inode = 257 :=
  (recovered_after_permutation Crates.withoutCodecs
    (permutesSlots_swapFirstSlots long_twoVersions) slotsUnread_twoVersions).1 257

end BtrfsForensic
