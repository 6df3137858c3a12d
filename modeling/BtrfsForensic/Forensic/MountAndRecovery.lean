import BtrfsForensic.Core.Metadata
import BtrfsForensic.Forensic.HistoryRecovery

namespace BtrfsForensic

/-! The mount and the recovery of one image, side by side: a file of an older tree is
either served by the mount or recovered. -/

section Served

variable {crates : Crates} {fs : BtrfsFs} {image : Bytes} {leaf : Node} {ino : UInt64}

theorem readInode_eq_none_iff : readInode leaf ino = none ↔ ino ∉ inodeSet leaf := by
  rw [readInode, Option.map_eq_none_iff, List.find?_eq_none, mem_inodeSet_iff]
  constructor
  · intro missing found
    rcases found with ⟨item, member, key⟩
    exact missing item member (decide_eq_true key)
  · intro missing item member known
    exact missing ⟨item, member, of_decide_eq_true known⟩

theorem metadata_eq_missing_iff :
    fs.metadata (.objectid ino) = .error (BtrfsFs.missingInode ino) ↔
      ino ∉ inodeSet fs.leaf := by
  rw [← readInode_eq_none_iff, BtrfsFs.metadata]
  simp only [oidOf, bind, Except.bind]
  cases readInode fs.leaf ino with
  | none => exact iff_of_true rfl rfl
  | some inode => exact iff_of_false (fun served => by cases served) fun none => by cases none

theorem readAt_missing (opened : BtrfsFs.ofImage crates image = .ok fs)
    (missing : ino ∉ inodeSet fs.leaf) (off : UInt64) (buf : Bytes) :
    ∃ error, fs.readAt crates (.objectid ino) .default off buf = .error error := by
  cases answer : fs.readAt crates (.objectid ino) .default off buf with
  | error error => exact ⟨error, rfl⟩
  | ok result =>
      rcases readFile_of_readAt answer with ⟨content, read⟩
      have size : inodeSize fs.leaf ino = none := by
        rw [inodeSize_eq, readInode_eq_none_iff.mpr missing, Option.map_none]
      rw [readFile_of_opened opened, readFileFromLeaf, size] at read
      cases read

theorem readLink_missing (missing : ino ∉ inodeSet fs.leaf) (cap : Nat) :
    fs.readLink crates (.objectid ino) cap = .ok [] := by
  simp only [BtrfsFs.readLink, oidOf, bind, Except.bind, readInode_eq_none_iff.mpr missing]

theorem readByPath_missing (missing : ino ∉ inodeSet leaf) (path : String) (inode : Inode) :
    readByPath leaf path ≠ some (ino, inode) := by
  intro resolved
  rw [readByPath, Option.bind_eq_bind, Option.bind_eq_some_iff] at resolved
  rcases resolved with ⟨root, read, descended⟩
  have known := readInode_of_descend read descended
  rw [readInode_eq_none_iff.mpr missing] at known
  cases known

end Served

/-- An inode whose content no request reaches. -/
structure Unserved (crates : Crates) (fs : BtrfsFs) (ino : UInt64) : Prop where
  read : ∀ off buf, ∃ error,
    fs.readAt crates (.objectid ino) .default off buf = .error error
  symlink : ∀ cap, fs.readLink crates (.objectid ino) cap = .ok []
  path : ∀ path inode, readByPath fs.leaf path ≠ some (ino, inode)

/-! ## Both on one image -/

section Partition

variable {crates : Crates} {image sbBlock : Bytes} {sb : Superblock} {fs : BtrfsFs}

/-- The leaf that is mounted is the one that older trees are compared with. -/
theorem recoverySetup_of_opened (short : image.length < usizeMax)
    (parses : ParsesSuperblock crates image sbBlock sb) (confined : sb.Confined)
    (opened : BtrfsFs.ofImage crates image = .ok fs) :
    fs.sb = sb ∧ auditMap crates image sb = fs.map ∧
      ∃ root, RecoverySetup crates image sbBlock sb root fs.leaf := by
  rcases BtrfsFs.exists_of_ofImage opened with
    ⟨_, slice, root, found, parsed, walked, located, read, _⟩
  rcases parse_openSlice_of_confined short parses.block parses.parsed confined with
    ⟨_, again, parsedAgain⟩
  rw [found] at again
  cases again
  rw [parsed] at parsedAgain
  have same : fs.sb = sb := Except.ok.inj parsedAgain
  rw [← same] at parses ⊢
  have map : auditMap crates image fs.sb = fs.map := by rw [auditMap, walked]
  exact ⟨rfl, map, root, parses, by rw [map, located], by rw [map, read]⟩

/-- A user file with content that an older tree holds is recovered exactly when the mount
does not serve it, and what is recovered is nothing else. A recovered file has its size
from the older tree, and no content in the mount. -/
theorem recovered_iff_unserved (short : image.length < usizeMax)
    (parses : ParsesSuperblock crates image sbBlock sb) (confined : sb.Confined)
    (opened : BtrfsFs.ofImage crates image = .ok fs) :
    (∀ ino, (∃ record ∈ recoverDeleted crates image, record.inode = ino) ↔
      (∃ slot ∈ parseBackupRoots sbBlock, slot.fsRoot ≠ 0 ∧
        ∃ old, readNode crates image fs.sb fs.map slot.fsRoot = .ok old ∧ Carries old ino) ∧
      fs.metadata (.objectid ino) = .error (BtrfsFs.missingInode ino)) ∧
    ∀ record ∈ recoverDeleted crates image,
      (∃ slot ∈ parseBackupRoots sbBlock, ∃ old inode,
        readNode crates image fs.sb fs.map slot.fsRoot = .ok old ∧
          readInode old record.inode = some inode ∧ record.size = inode.size) ∧
      Unserved crates fs record.inode := by
  rcases recoverySetup_of_opened short parses confined opened with ⟨same, map, root, setup⟩
  have listed {old : Node}
      (member : old ∈ backupNodes crates image sbBlock sb root) :
      ∃ slot ∈ parseBackupRoots sbBlock, slot.fsRoot ≠ 0 ∧
        readNode crates image fs.sb fs.map slot.fsRoot = .ok old := by
    rw [backupNodes, map, oldNodes_eq_filterMap] at member
    rcases List.mem_filterMap.mp member with ⟨slot, among, leads⟩
    rcases slotNode_eq_some_iff.mp leads with ⟨present, _, read⟩
    exact ⟨slot, among, present, by rwa [same]⟩
  constructor
  · intro ino
    rw [metadata_eq_missing_iff]
    constructor
    · intro recovered
      rcases recovered with ⟨record, member, rfl⟩
      rcases (mem_recoverDeleted_iff setup).mp member with ⟨old, _, found, _⟩
      have reports := reports_of_find? found
      rcases listed (List.mem_of_find?_eq_some found) with ⟨slot, among, present, read⟩
      exact ⟨⟨slot, among, present, old, read, reports.1⟩, reports.2⟩
    · intro both
      rcases both with ⟨⟨slot, among, present, old, read, carries⟩, missing⟩
      -- A slot that names the live root leads to a tree that still holds the inode.
      have stale : slot.fsRoot ≠ root.bytenr := by
        intro live
        rw [same, ← map, live, setup.read] at read
        cases read
        exact missing carries.2.2.1
      have member : old ∈ backupNodes crates image sbBlock sb root := by
        rw [backupNodes, map, oldNodes_eq_filterMap]
        exact List.mem_filterMap.mpr
          ⟨slot, among, slotNode_eq_some_iff.mpr ⟨present, stale, by rwa [same] at read⟩⟩
      exact exists_record setup member ⟨carries, missing⟩
  · intro record member
    rcases (mem_recoverDeleted_iff setup).mp member with ⟨old, item, found, first, carved⟩
    have reports := reports_of_find? found
    rcases listed (List.mem_of_find?_eq_some found) with ⟨slot, among, _, read⟩
    refine ⟨⟨slot, among, old, Inode.parse record.inode item.2, read, ?_, ?_⟩,
      readAt_missing opened reports.2, readLink_missing reports.2,
      readByPath_missing reports.2⟩
    · rw [inodeItem] at first
      rw [readInode, first, Option.map_some]
    · rw [← carved]
      rfl

end Partition

theorem recovered_iff_unserved_in_history :
    (∃ record ∈ recoverDeleted Crates.withoutCodecs
        (Sample.history.image Crates.withoutCodecs), record.inode = 259) ↔
      (∃ slot ∈ parseBackupRoots (Sample.history.superblock Crates.withoutCodecs),
        slot.fsRoot ≠ 0 ∧ ∃ old, readNode Crates.withoutCodecs
            (Sample.history.image Crates.withoutCodecs)
            (Sample.history.mount Crates.withoutCodecs).sb
            (Sample.history.mount Crates.withoutCodecs).map slot.fsRoot = .ok old ∧
          Carries old 259) ∧
      (Sample.history.mount Crates.withoutCodecs).metadata (.objectid 259) =
        .error (BtrfsFs.missingInode 259) := by
  have short : (Sample.history.image Crates.withoutCodecs).length < usizeMax := by
    rw [Formatted.length_image]
    exact Sample.short
  exact (recovered_iff_unserved short (Sample.history.parsesSuperblock Crates.withoutCodecs)
    (Sample.history.confined_sb Crates.withoutCodecs)
    (Sample.history.ofImage_image Crates.withoutCodecs)).1 259

end BtrfsForensic
