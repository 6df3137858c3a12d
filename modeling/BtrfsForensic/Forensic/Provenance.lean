import BtrfsForensic.Forensic.Recovery

namespace BtrfsForensic

/-! Where a recovered record comes from: the node that a backup slot leads to,
whatever the slot and the header of that node say about its age. -/

/-! ## The node of a slot -/

section Slots

variable {crates : Crates} {image : Bytes} {sb : Superblock} {map : ChunkMap}
  {currentRoot : UInt64} {slot : RootBackup} {old : Node}

/-- The node a backup slot leads to, unless the slot is blank or names the live
root. -/
def slotNode (crates : Crates) (image : Bytes) (sb : Superblock) (map : ChunkMap)
    (currentRoot : UInt64) (slot : RootBackup) : Option Node :=
  if slot.fsRoot = 0 ∨ slot.fsRoot = currentRoot then
    none
  else
    (readNode crates image sb map slot.fsRoot).toOption

theorem oldNodes_eq_filterMap (backups : List RootBackup) :
    oldNodes crates image sb map currentRoot backups =
      backups.filterMap (slotNode crates image sb map currentRoot) := rfl

theorem slotNode_eq_some_iff :
    slotNode crates image sb map currentRoot slot = some old ↔
      slot.fsRoot ≠ 0 ∧ slot.fsRoot ≠ currentRoot ∧
        readNode crates image sb map slot.fsRoot = .ok old := by
  rw [slotNode]
  split
  case isTrue skipped =>
    constructor
    · intro absent
      cases absent
    · intro parts
      rcases skipped with blank | live
      · exact absurd blank parts.1
      · exact absurd live parts.2.1
  case isFalse followed =>
    rw [not_or] at followed
    cases readNode crates image sb map slot.fsRoot with
    | ok node => simp [Except.toOption, followed]
    | error error => simp [Except.toOption]

end Slots

/-- A slot that reports an inode: it leads to an old node that does. -/
def SlotReports (crates : Crates) (image : Bytes) (sb : Superblock)
    (map : ChunkMap) (currentRoot : UInt64) (current : Node) (ino : UInt64)
    (slot : RootBackup) : Prop :=
  ∃ old, slotNode crates image sb map currentRoot slot = some old ∧
    Reports current old ino

/-! ## The slot of a record -/

/-- A record was carved from the node that a backup slot leads to; the current node holds no
inode item of its inode. The slot's own generation and the address in the node's header do
not occur. -/
structure CarvedFrom (crates : Crates) (image sbBlock : Bytes) (sb : Superblock)
    (currentRoot : FsTreeRoot) (current : Node) (slot : RootBackup) (old : Node)
    (record : RecoveredFile) : Prop where
  present : slot.fsRoot ≠ 0
  notLive : slot.fsRoot ≠ currentRoot.bytenr
  read : readNode crates image sb (auditMap crates image sb) slot.fsRoot = .ok old
  owned : old.header.owner = fsTreeObjectid
  generation : record.generation = old.header.generation
  deleted : record.inode ∉ inodeSet current
  carried : Carries old record.inode
  carved : ∃ item, inodeItem old record.inode = some item ∧
    carve crates old image (auditMap crates image sb) sb.sectorsize item = record
  first : ∃ before after, parseBackupRoots sbBlock = before ++ slot :: after ∧
    ∀ earlier ∈ before,
      ¬SlotReports crates image sb (auditMap crates image sb) currentRoot.bytenr
        current record.inode earlier

section Provenance

variable {crates : Crates} {image sbBlock : Bytes} {sb : Superblock}
  {currentRoot : FsTreeRoot} {current old : Node} {record : RecoveredFile}
  {ino : UInt64}

/-- The first old node that reports an inode is the node of the first slot that
does. -/
theorem find?_backupNodes_eq_some_iff :
    (backupNodes crates image sbBlock sb currentRoot).find?
        (fun old => Reports current old ino) = some old ↔
      ∃ slot before after, parseBackupRoots sbBlock = before ++ slot :: after ∧
        slotNode crates image sb (auditMap crates image sb) currentRoot.bytenr slot =
          some old ∧
        Reports current old ino ∧
        ∀ earlier ∈ before,
          ¬SlotReports crates image sb (auditMap crates image sb)
            currentRoot.bytenr current ino earlier := by
  have reporting (slot : RootBackup) :
      (slotNode crates image sb (auditMap crates image sb) currentRoot.bytenr
          slot).any (fun old => Reports current old ino) = true ↔
        SlotReports crates image sb (auditMap crates image sb) currentRoot.bytenr
          current ino slot := by
    rw [Option.any_eq_true, SlotReports]
    simp only [decide_eq_true_iff]
  rw [backupNodes, oldNodes_eq_filterMap, List.find?_filterMap,
    Option.bind_eq_some_iff]
  constructor
  · intro parts
    rcases parts with ⟨slot, found, leads⟩
    rcases List.find?_eq_some_iff_append.mp found with
      ⟨reports, before, after, split, silent⟩
    rcases (reporting slot).mp reports with ⟨node, same, nodeReports⟩
    rw [leads] at same
    cases same
    refine ⟨slot, before, after, split, leads, nodeReports, ?_⟩
    intro earlier member earlierReports
    have hidden := silent earlier member
    rw [(reporting earlier).mpr earlierReports] at hidden
    cases hidden
  · intro parts
    rcases parts with ⟨slot, before, after, split, leads, reports, silent⟩
    refine ⟨slot, List.find?_eq_some_iff_append.mpr
      ⟨(reporting slot).mpr ⟨old, leads, reports⟩, before, after, split, ?_⟩, leads⟩
    intro earlier member
    rw [Bool.not_eq_true', ← Bool.not_eq_true, reporting]
    exact silent earlier member

theorem generation_carve {map : ChunkMap} {sectorsize : UInt32}
    {item : DiskKey × Bytes}
    (carved : carve crates old image map sectorsize item = record) :
    record.generation = old.header.generation := by
  rw [← carved, carve]

theorem mem_recoverDeleted_iff_carvedFrom
    (setup : RecoverySetup crates image sbBlock sb currentRoot current) :
    record ∈ recoverDeleted crates image ↔
      ∃ slot old,
        CarvedFrom crates image sbBlock sb currentRoot current slot old record := by
  rw [mem_recoverDeleted_iff setup]
  constructor
  · intro parts
    rcases parts with ⟨old, item, found, known, carved⟩
    rcases find?_backupNodes_eq_some_iff.mp found with
      ⟨slot, before, after, split, leads, reports, silent⟩
    rcases slotNode_eq_some_iff.mp leads with ⟨present, notLive, read⟩
    exact ⟨slot, old, present, notLive, read, reports.1.1, generation_carve carved,
      reports.2, reports.1, ⟨item, known, carved⟩, before, after, split, silent⟩
  · intro parts
    rcases parts with ⟨slot, old, origin⟩
    rcases origin.carved with ⟨item, known, carved⟩
    rcases origin.first with ⟨before, after, split, silent⟩
    refine ⟨old, item, find?_backupNodes_eq_some_iff.mpr ?_, known, carved⟩
    exact ⟨slot, before, after, split,
      slotNode_eq_some_iff.mpr ⟨origin.present, origin.notLive, origin.read⟩,
      ⟨origin.carried, origin.deleted⟩, silent⟩

end Provenance

/-- Every recovered record comes from the node that the first slot reporting its
inode leads to, a node of the `FS_TREE` by its owner, and carries that node's own
generation; and what such a slot leads to is recovered when the node is older
than the live one. A node that is not older is diffed like any other, although the source
calls every backup root older: the converse neither promises nor denies its records. -/
theorem recovered_record_provenance (crates : Crates) (image : Bytes) :
    (∀ record ∈ recoverDeleted crates image,
      ∃ sbBlock sb currentRoot current slot old,
        RecoverySetup crates image sbBlock sb currentRoot current ∧
          CarvedFrom crates image sbBlock sb currentRoot current slot old record) ∧
    ∀ sbBlock sb currentRoot current slot old record,
      RecoverySetup crates image sbBlock sb currentRoot current →
      CarvedFrom crates image sbBlock sb currentRoot current slot old record →
      old.header.generation < current.header.generation →
      record ∈ recoverDeleted crates image := by
  constructor
  · intro record member
    rcases exists_recoverySetup member with
      ⟨sbBlock, sb, currentRoot, current, setup⟩
    rcases (mem_recoverDeleted_iff_carvedFrom setup).mp member with
      ⟨slot, old, origin⟩
    exact ⟨sbBlock, sb, currentRoot, current, slot, old, setup, origin⟩
  · intro sbBlock sb currentRoot current slot old record setup origin _
    exact (mem_recoverDeleted_iff_carvedFrom setup).mpr ⟨slot, old, origin⟩

/-! A backup slot whose block has since been reused: the leaf there is of another
generation than the slot says, and names another address. -/

def reusedLeaf : Bytes :=
  Volume.leaf 0x100a00 fsTreeObjectid 7 [fileInode, inlineExtent]

def reusedVolume : Volume :=
  Volume.backedUp [Volume.rootLeaf, emptyLeaf, reusedLeaf] (by decide +kernel)
    (by decide)

theorem reusedLeaf_items :
    Reports (Node.ofBlock Crates.withoutCodecs emptyLeaf)
        (Node.ofBlock Crates.withoutCodecs reusedLeaf) 257 ∧
      (Node.ofBlock Crates.withoutCodecs reusedLeaf).header.generation = 7 ∧
      (Node.ofBlock Crates.withoutCodecs reusedLeaf).header.bytenr = 0x100a00 := by
  decide +kernel

section ReusedVolume

variable {root : FsTreeRoot} {record : RecoveredFile}

theorem backupNodes_reusedVolume (bytenr : root.bytenr = 0x100400) :
    backupNodes Crates.withoutCodecs reusedVolume.image reusedVolume.superblock
        reusedVolume.sb root = [Node.ofBlock Crates.withoutCodecs reusedLeaf] :=
  Volume.backupNodes_image bytenr rfl rfl

theorem exists_record_reusedVolume :
    ∃ record ∈ recoverDeleted Crates.withoutCodecs reusedVolume.image,
      record.inode = 257 := by
  rcases reusedVolume.recoverySetup_image rfl with ⟨root, bytenr, setup⟩
  refine exists_record setup ?_ reusedLeaf_items.1
  rw [backupNodes_reusedVolume bytenr]
  exact List.mem_singleton_self _

theorem generation_reusedVolume
    (member : record ∈ recoverDeleted Crates.withoutCodecs reusedVolume.image) :
    record.generation = 7 := by
  rcases reusedVolume.recoverySetup_image rfl with ⟨root, bytenr, setup⟩
  rcases (mem_recoverDeleted_iff setup).mp member with ⟨old, item, found, _, carved⟩
  have only := List.mem_of_find?_eq_some found
  rw [backupNodes_reusedVolume bytenr, List.mem_singleton] at only
  rw [generation_carve carved, only, reusedLeaf_items.2.1]

theorem nodePhysical_reusedVolume :
    nodePhysical reusedVolume.sb Volume.map 0 = none := by
  decide +kernel

theorem slot_reusedVolume {slot : RootBackup} {old : Node}
    (listed : slot ∈ parseBackupRoots reusedVolume.superblock)
    (read : readNode Crates.withoutCodecs reusedVolume.image reusedVolume.sb
      Volume.map slot.fsRoot = .ok old) :
    slot.fsRoot = 0x100600 ∧ slot.fsRootGen = 8 ∧
      old = Node.ofBlock Crates.withoutCodecs reusedLeaf := by
  rw [Volume.parseBackupRoots_superblock] at listed
  rcases List.mem_cons.mp listed with rfl | blank
  · have stored : readNode Crates.withoutCodecs reusedVolume.image reusedVolume.sb
        Volume.map 0x100600 = .ok (Node.ofBlock Crates.withoutCodecs reusedLeaf) :=
      Volume.readNode_image 3 0x12600 rfl (by decide) (by decide)
    rw [stored] at read
    cases read
    exact ⟨rfl, rfl, rfl⟩
  · rw [List.eq_of_mem_replicate blank] at read
    rcases readNode_eq_ok_iff.mp read with ⟨_, _, _, target, _⟩
    rw [nodePhysical_reusedVolume] at target
    cases target

end ReusedVolume

/-- No slot has the generation of the record, and the node it was carved from
does not name the address it was read from. -/
theorem recovered_from_reused_block :
    ∃ record ∈ recoverDeleted Crates.withoutCodecs reusedVolume.image,
      ∀ sbBlock sb currentRoot current slot old,
        RecoverySetup Crates.withoutCodecs reusedVolume.image sbBlock sb currentRoot
          current →
        slot ∈ parseBackupRoots sbBlock →
        readNode Crates.withoutCodecs reusedVolume.image sb
          (auditMap Crates.withoutCodecs reusedVolume.image sb) slot.fsRoot =
            .ok old →
        record.generation ≠ slot.fsRootGen ∧ old.header.bytenr ≠ slot.fsRoot := by
  rcases exists_record_reusedVolume with ⟨record, member, _⟩
  refine ⟨record, member, ?_⟩
  intro sbBlock sb currentRoot current slot old setup listed read
  rcases setup.parses.unique reusedVolume.parsesSuperblock with ⟨rfl, rfl⟩
  rw [Volume.auditMap_image] at read
  rcases slot_reusedVolume listed read with ⟨fsRoot, fsRootGen, rfl⟩
  rw [generation_reusedVolume member, fsRoot, fsRootGen, reusedLeaf_items.2.2]
  decide

theorem recovered_record_provenance_in_reusedVolume :
    ∃ record ∈ recoverDeleted Crates.withoutCodecs reusedVolume.image,
      ∃ sbBlock sb currentRoot current slot old,
        RecoverySetup Crates.withoutCodecs reusedVolume.image sbBlock sb currentRoot
            current ∧
          CarvedFrom Crates.withoutCodecs reusedVolume.image sbBlock sb currentRoot
            current slot old record := by
  rcases exists_record_reusedVolume with ⟨record, member, _⟩
  exact ⟨record, member, (recovered_record_provenance _ _).1 record member⟩

end BtrfsForensic
