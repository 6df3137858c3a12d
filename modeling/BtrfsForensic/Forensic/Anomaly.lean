import BtrfsForensic.Core.Superblock

namespace BtrfsForensic

/-! The auditor's anomalies, and the `btrfs_root_backup` array it decodes below
the reader. -/

abbrev backupRootsOffset : Nat := 0xb2b
abbrev rootBackupSize : Nat := 168
abbrev numBackupRoots : Nat := 4

namespace BackupOff

abbrev treeRoot : Nat := 0
abbrev treeRootGen : Nat := 8
abbrev fsRoot : Nat := 48
abbrev fsRootGen : Nat := 56

end BackupOff

structure RootBackup where
  treeRoot : UInt64
  treeRootGen : UInt64
  fsRoot : UInt64
  fsRootGen : UInt64
  deriving DecidableEq

def RootBackup.parse (entry : Bytes) : RootBackup where
  treeRoot := leU64 entry BackupOff.treeRoot
  treeRootGen := leU64 entry BackupOff.treeRootGen
  fsRoot := leU64 entry BackupOff.fsRoot
  fsRootGen := leU64 entry BackupOff.fsRootGen

/-- The slots from `slot` on, up to the first that does not fit the block. -/
def parseBackupRootsFrom (sbBlock : Bytes) : (remaining slot : Nat) → List RootBackup
  | 0, _ => []
  | remaining + 1, slot =>
      let base := backupRootsOffset + slot * rootBackupSize
      match getRange sbBlock base (saturatingAdd base rootBackupSize) with
      | none => []
      | some entry =>
          RootBackup.parse entry :: parseBackupRootsFrom sbBlock remaining (slot + 1)

def parseBackupRoots (sbBlock : Bytes) : List RootBackup :=
  parseBackupRootsFrom sbBlock numBackupRoots 0

/-- A block that holds all slots yields one backup for each. -/
theorem parseBackupRoots_eq_map {sbBlock : Bytes} {entry : Nat → Bytes}
    (stored : ∀ slot < numBackupRoots,
      getRange sbBlock (backupRootsOffset + slot * rootBackupSize)
        (saturatingAdd (backupRootsOffset + slot * rootBackupSize) rootBackupSize) =
          some (entry slot)) :
    parseBackupRoots sbBlock =
      (List.range numBackupRoots).map fun slot => RootBackup.parse (entry slot) := by
  rw [parseBackupRoots]
  simp only [parseBackupRootsFrom, stored 0 (by decide), stored 1 (by decide),
    stored 2 (by decide), stored 3 (by decide)]
  rfl

inductive Severity
  | medium
  | high
  deriving DecidableEq

inductive AnomalyKind
  | superblockCrcMismatch (offset : UInt64)
  | nodeCrcMismatch (bytenr offset : UInt64)
  | backupRootDivergence (slot : Nat) (reason : String)
      (backupGen currentGen : UInt64)
  | orphanedInode (inode : UInt64)
  | impossibleGeometry (field : String) (value : UInt64) (limit : Nat)
  deriving DecidableEq

namespace AnomalyKind

def severity : AnomalyKind → Severity
  | .superblockCrcMismatch .. => .high
  | .nodeCrcMismatch .. => .high
  | .backupRootDivergence .. => .high
  | .impossibleGeometry .. => .high
  | .orphanedInode .. => .medium

def code : AnomalyKind → String
  | .superblockCrcMismatch .. => "BTRFS-SUPERBLOCK-CRC-MISMATCH"
  | .nodeCrcMismatch .. => "BTRFS-CRC-MISMATCH"
  | .backupRootDivergence .. => "BTRFS-BACKUP-ROOT-DIVERGENCE"
  | .orphanedInode .. => "BTRFS-ORPHANED-INODE"
  | .impossibleGeometry .. => "BTRFS-IMPOSSIBLE-GEOMETRY"

def note : AnomalyKind → String
  | .superblockCrcMismatch offset =>
      s!"superblock at byte {offset}: stored crc32c does not verify — consistent with corruption or post-write tampering"
  | .nodeCrcMismatch bytenr offset =>
      s!"metadata node at logical {bytenr} (byte {offset}): stored crc32c does not verify — consistent with corruption or post-write tampering"
  | .backupRootDivergence slot reason backupGen currentGen =>
      s!"btrfs_root_backup[{slot}]: {reason} (backup generation {backupGen} vs current {currentGen}) — consistent with rollback or a tampered backup-roots array"
  | .orphanedInode inode =>
      s!"FS_TREE ORPHAN_ITEM for inode {inode} — an inode unlinked while still open or pending cleanup, a recovery lead"
  | .impossibleGeometry field value limit =>
      s!"geometry field {field} = {value} exceeds the sane bound {limit} for this image — consistent with corruption or an allocation-bomb"

def IsChecksumMismatch : AnomalyKind → Prop
  | .superblockCrcMismatch _ => True
  | .nodeCrcMismatch _ _ => True
  | _ => False

end AnomalyKind

/-- An observation. Its severity, code and note are those of its kind, so they
cannot drift apart. -/
structure Anomaly where
  severity : Severity
  code : String
  kind : AnomalyKind
  note : String
  severity_eq : severity = kind.severity
  code_eq : code = kind.code
  note_eq : note = kind.note

namespace Anomaly

def new (kind : AnomalyKind) : Anomaly where
  severity := kind.severity
  code := kind.code
  kind := kind
  note := kind.note
  severity_eq := rfl
  code_eq := rfl
  note_eq := rfl

@[simp] theorem new_kind (kind : AnomalyKind) : (new kind).kind = kind := rfl

theorem eq_new (anomaly : Anomaly) : anomaly = new anomaly.kind := by
  cases anomaly with
  | mk severity code kind note severityEq codeEq noteEq =>
      subst severityEq codeEq noteEq
      rfl

end Anomaly

end BtrfsForensic
