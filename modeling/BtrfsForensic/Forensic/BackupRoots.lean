import BtrfsForensic.Forensic.Picked
import BtrfsForensic.Forensic.Volume

namespace BtrfsForensic

/-! Backup slots whose roots cannot be read: the audit compares one of the two
addresses with the length of the image and reads neither. -/

/-- An address that is not blank and at which no node can be read. -/
def RootUnreadable (crates : Crates) (image : Bytes) (sb : Superblock) (map : ChunkMap)
    (logical : UInt64) : Prop :=
  logical ≠ 0 ∧ ∀ node, readNode crates image sb map logical ≠ .ok node

section Slots

variable {crates : Crates} {image sbBlock : Bytes} {sb : Superblock} {slot : Nat}
  {backup : RootBackup}

theorem slot_of_mem_backupDivergence {currentGen : UInt64} {imageLen : Nat}
    {anomaly : Anomaly}
    (member : anomaly ∈ backupDivergence slot backup currentGen imageLen) :
    divergentSlot anomaly.kind = some slot := by
  rw [backupDivergence] at member
  split at member
  · rw [List.mem_singleton.mp member]
    rfl
  · split at member
    · rw [List.mem_singleton.mp member]
      rfl
    · split at member
      · rw [List.mem_singleton.mp member]
        rfl
      · cases member

theorem mem_divergences_iff (parses : ParsesSuperblock crates image sbBlock sb)
    (listed : (parseBackupRoots sbBlock)[slot]? = some backup) :
    slot ∈ pickAnomalies divergentSlot (auditImage crates image) ↔
      backupDivergence slot backup sb.generation image.length ≠ [] := by
  rw [divergences_auditImage parses, mem_pickAnomalies_iff, checkBackupRoots,
    List.nil_append, ← List.length_pos_iff, List.length_pos_iff_exists_mem]
  constructor
  · intro found
    rcases found with ⟨anomaly, member, names⟩
    rcases List.mem_flatMap.mp member with ⟨⟨other, index⟩, pair, reported⟩
    dsimp only at reported
    rw [slot_of_mem_backupDivergence reported, Option.some.injEq] at names
    subst names
    have same := List.mem_zipIdx_iff_getElem?.mp pair
    dsimp only at same
    rw [listed, Option.some.injEq] at same
    subst same
    exact ⟨anomaly, reported⟩
  · intro found
    rcases found with ⟨anomaly, reported⟩
    exact ⟨anomaly, List.mem_flatMap.mpr
      ⟨(backup, slot), List.mem_zipIdx_iff_getElem?.mpr listed, reported⟩,
      slot_of_mem_backupDivergence reported⟩

/-- With no generation ahead of the superblock's, a slot diverges by the address of
its tree root alone. -/
theorem backupDivergence_ne_nil_iff {currentGen : UInt64} {imageLen : Nat}
    (treeGen : backup.treeRootGen ≤ currentGen) (fsGen : backup.fsRootGen ≤ currentGen) :
    backupDivergence slot backup currentGen imageLen ≠ [] ↔
      backup.treeRoot ≠ 0 ∧ imageLen ≤ backup.treeRoot.toNat := by
  rw [backupDivergence, if_neg (UInt64.not_lt.mpr treeGen),
    if_neg (UInt64.not_lt.mpr fsGen)]
  split
  case isTrue past => simp [past]
  case isFalse within => simpa using within

/-- A slot of settled generations with a root that cannot be read is reported exactly
when there is no such root after all, or the tree root is not blank and its logical
address is past the length of the image. -/
theorem unreadable_backup_reported_iff (parses : ParsesSuperblock crates image sbBlock sb)
    (listed : (parseBackupRoots sbBlock)[slot]? = some backup)
    (treeGen : backup.treeRootGen ≤ sb.generation)
    (fsGen : backup.fsRootGen ≤ sb.generation) :
    (RootUnreadable crates image sb (auditMap crates image sb) backup.treeRoot ∨
        RootUnreadable crates image sb (auditMap crates image sb) backup.fsRoot →
      slot ∈ pickAnomalies divergentSlot (auditImage crates image)) ↔
    ¬RootUnreadable crates image sb (auditMap crates image sb) backup.treeRoot ∧
        ¬RootUnreadable crates image sb (auditMap crates image sb) backup.fsRoot ∨
      backup.treeRoot ≠ 0 ∧ image.length ≤ backup.treeRoot.toNat := by
  rw [mem_divergences_iff parses listed, backupDivergence_ne_nil_iff treeGen fsGen,
    imp_iff_not_or, not_or]

end Slots

theorem sized_rootLeaf :
    ∀ block ∈ Volume.chunkLeaf :: [Volume.rootLeaf], block.length = Volume.nodesize := by
  intro block member
  rcases List.mem_cons.mp member with chunk | root
  · rw [chunk]
    decide +kernel
  · rw [List.mem_singleton.mp root]
    decide +kernel

theorem one_block : [Volume.rootLeaf].length ≤ 15 := by decide

/-! A volume whose first slot names a tree root, and whose second an `FS_TREE` root,
at addresses that no chunk maps. -/

def unmappedBackups : Volume where
  csumType := 0
  backups := overlay (2 * rootBackupSize) 0
    [(BackupOff.treeRoot, encodeLE 8 0x1000), (BackupOff.treeRootGen, encodeLE 8 8),
      (rootBackupSize + BackupOff.fsRoot, encodeLE 8 0x900000),
      (rootBackupSize + BackupOff.fsRootGen, encodeLE 8 8)]
  roots := [⟨0x1000, 8, 0, 0⟩, ⟨0, 0, 0x900000, 8⟩, ⟨0, 0, 0, 0⟩, ⟨0, 0, 0, 0⟩]
  blocks := [Volume.rootLeaf]
  magic := Volume.magic_writeSuperblock _ _
  describes := Volume.describes_writeSuperblock _ _
  roots_eq := by
    rw [Volume.writeSuperblock, parseBackupRoots_written (by decide)]
    decide +kernel
  sized := sized_rootLeaf
  few := one_block

theorem nodePhysical_unmappedBackups :
    nodePhysical unmappedBackups.sb Volume.map 0x1000 = none ∧
      nodePhysical unmappedBackups.sb Volume.map 0x900000 = none ∧
      unmappedBackups.sb.generation = 9 := by
  decide +kernel

theorem rootUnreadable_unmappedBackups {logical : UInt64} (present : logical ≠ 0)
    (unmapped : nodePhysical unmappedBackups.sb Volume.map logical = none) :
    RootUnreadable Crates.withoutCodecs unmappedBackups.image unmappedBackups.sb
      (auditMap Crates.withoutCodecs unmappedBackups.image unmappedBackups.sb) logical := by
  refine ⟨present, fun node read => ?_⟩
  rw [Volume.auditMap_image] at read
  rcases readNode_eq_ok_iff.mp read with ⟨_, _, _, target, _⟩
  rw [unmapped] at target
  cases target

theorem listed_unmappedBackups :
    (parseBackupRoots unmappedBackups.superblock)[0]? = some ⟨0x1000, 8, 0, 0⟩ ∧
      (parseBackupRoots unmappedBackups.superblock)[1]? = some ⟨0, 0, 0x900000, 8⟩ := by
  rw [Volume.parseBackupRoots_superblock]
  exact ⟨rfl, rfl⟩

/-- Neither slot is reported: not the one whose tree root cannot be read, nor the one
whose `FS_TREE` root cannot. -/
theorem unreadable_backup_unreported :
    ParsesSuperblock Crates.withoutCodecs unmappedBackups.image
        unmappedBackups.superblock unmappedBackups.sb ∧
      (parseBackupRoots unmappedBackups.superblock)[0]? = some ⟨0x1000, 8, 0, 0⟩ ∧
      (parseBackupRoots unmappedBackups.superblock)[1]? = some ⟨0, 0, 0x900000, 8⟩ ∧
      unmappedBackups.sb.generation = 9 ∧
      RootUnreadable Crates.withoutCodecs unmappedBackups.image unmappedBackups.sb
        (auditMap Crates.withoutCodecs unmappedBackups.image unmappedBackups.sb) 0x1000 ∧
      RootUnreadable Crates.withoutCodecs unmappedBackups.image unmappedBackups.sb
        (auditMap Crates.withoutCodecs unmappedBackups.image unmappedBackups.sb)
        0x900000 ∧
      0 ∉ pickAnomalies divergentSlot
        (auditImage Crates.withoutCodecs unmappedBackups.image) ∧
      1 ∉ pickAnomalies divergentSlot
        (auditImage Crates.withoutCodecs unmappedBackups.image) := by
  rcases nodePhysical_unmappedBackups with ⟨treeUnmapped, fsUnmapped, generation⟩
  rcases listed_unmappedBackups with ⟨first, second⟩
  have parses := unmappedBackups.parsesSuperblock
  refine ⟨parses, first, second, generation,
    rootUnreadable_unmappedBackups (by decide) treeUnmapped,
    rootUnreadable_unmappedBackups (by decide) fsUnmapped, ?_, ?_⟩
  · rw [mem_divergences_iff parses first, generation, Volume.length_image]
    decide
  · rw [mem_divergences_iff parses second, generation, Volume.length_image]
    decide

theorem unreadable_backup_reported_iff_in_unmappedBackups :
    (RootUnreadable Crates.withoutCodecs unmappedBackups.image unmappedBackups.sb
          (auditMap Crates.withoutCodecs unmappedBackups.image unmappedBackups.sb)
          0x1000 ∨
        RootUnreadable Crates.withoutCodecs unmappedBackups.image unmappedBackups.sb
          (auditMap Crates.withoutCodecs unmappedBackups.image unmappedBackups.sb) 0 →
      0 ∈ pickAnomalies divergentSlot
        (auditImage Crates.withoutCodecs unmappedBackups.image)) ↔
    ¬RootUnreadable Crates.withoutCodecs unmappedBackups.image unmappedBackups.sb
          (auditMap Crates.withoutCodecs unmappedBackups.image unmappedBackups.sb)
          0x1000 ∧
        ¬RootUnreadable Crates.withoutCodecs unmappedBackups.image unmappedBackups.sb
          (auditMap Crates.withoutCodecs unmappedBackups.image unmappedBackups.sb) 0 ∨
      (0x1000 : UInt64) ≠ 0 ∧
        unmappedBackups.image.length ≤ (0x1000 : UInt64).toNat := by
  have generation := nodePhysical_unmappedBackups.2.2
  exact unreadable_backup_reported_iff unmappedBackups.parsesSuperblock
    listed_unmappedBackups.1 (by rw [generation]; decide) (by rw [generation]; decide)

end BtrfsForensic
