import BtrfsForensic.Forensic.LeafDiff
import BtrfsForensic.Forensic.Picked

namespace BtrfsForensic

/-! The orphan scan looks at root nodes only: what it reports of a tree that has grown
past one leaf. -/

/-! ## The roots and their orphans -/

section Appended

variable {known values : List UInt64} {value : UInt64}

theorem appendNew_cons (known values : List UInt64) (value : UInt64) :
    appendNew known (value :: values) =
      appendNew (if value ∈ known then known else known ++ [value]) values := rfl

theorem mem_appendNew_iff :
    value ∈ appendNew known values ↔ value ∈ known ∨ value ∈ values := by
  induction values generalizing known with
  | nil => simp [appendNew]
  | cons head values induction =>
      rw [appendNew_cons, induction, List.mem_cons]
      split
      case isTrue present =>
        constructor
        · intro either
          exact either.imp_right .inr
        · intro either
          rcases either with inKnown | rfl | later
          · exact .inl inKnown
          · exact .inl present
          · exact .inr later
      case isFalse => rw [List.mem_append, List.mem_singleton, or_assoc]

theorem nodup_appendNew (distinct : known.Nodup) : (appendNew known values).Nodup := by
  induction values generalizing known with
  | nil => exact distinct
  | cons head values induction =>
      rw [appendNew_cons]
      apply induction
      split
      case isTrue => exact distinct
      case isFalse fresh => exact List.nodup_append_comm.mp (by simp [distinct, fresh])

end Appended

/-- Where the trees to be scanned begin: the live root, and every backup `fs_root`
that is not blank. -/
def FsTreeStart (crates : Crates) (image sbBlock : Bytes) (sb : Superblock)
    (map : ChunkMap) (logical : UInt64) : Prop :=
  (∃ root, fsTreeRoot crates image sb map = .ok root ∧ root.bytenr = logical) ∨
    ∃ slot ∈ parseBackupRoots sbBlock, slot.fsRoot ≠ 0 ∧ slot.fsRoot = logical

/-- An orphan item of a leaf names an inode. -/
def NamesOrphan (leaf : Node) (ino : UInt64) : Prop :=
  ∃ item ∈ leaf.leafItems,
    item.1.objectid = orphanObjectid ∧ item.1.keyType = orphanItemKey ∧
      item.1.offset = ino

/-- The node at an address is an `FS_TREE` leaf and names an orphan. -/
def OrphanAt (crates : Crates) (image : Bytes) (sb : Superblock) (map : ChunkMap)
    (logical ino : UInt64) : Prop :=
  ∃ leaf, readNode crates image sb map logical = .ok leaf ∧ FsTreeLeaf leaf ∧
    NamesOrphan leaf ino

/-- Some node that key-pointers lead to from a root does. -/
def OrphanBelow (crates : Crates) (image : Bytes) (sb : Superblock) (map : ChunkMap)
    (root ino : UInt64) : Prop :=
  ∃ logical, Worklist.Reaches (treeChildren crates image sb map) [root] logical ∧
    OrphanAt crates image sb map logical ino

section Scan

variable {crates : Crates} {image sbBlock : Bytes} {sb : Superblock} {map : ChunkMap}
  {logical ino : UInt64}

theorem mem_orphanRoots_iff (block : superblockBlock image = some sbBlock) :
    logical ∈ orphanRoots crates image sb map ↔
      FsTreeStart crates image sbBlock sb map logical := by
  have backups : logical ∈ ((parseBackupRoots sbBlock).map RootBackup.fsRoot).filter
      (· ≠ 0) ↔ ∃ slot ∈ parseBackupRoots sbBlock, slot.fsRoot ≠ 0 ∧
        slot.fsRoot = logical := by
    rw [List.mem_filter, List.mem_map]
    constructor
    · intro both
      rcases both with ⟨⟨slot, listed, rfl⟩, present⟩
      exact ⟨slot, listed, by simpa using present, rfl⟩
    · intro found
      rcases found with ⟨slot, listed, present, rfl⟩
      exact ⟨⟨slot, listed, rfl⟩, by simpa using present⟩
  rw [orphanRoots, block]
  dsimp only
  rw [mem_appendNew_iff, backups, FsTreeStart]
  cases fsTreeRoot crates image sb map with
  | error error => simp
  | ok root => simp [eq_comm]

theorem mem_orphansAt_iff :
    ino ∈ orphansAt crates image sb map logical ↔ OrphanAt crates image sb map logical ino := by
  rw [orphansAt, OrphanAt]
  cases read : readNode crates image sb map logical with
  | error error => simp
  | ok leaf =>
      rcases readNode_eq_ok_iff.mp read with ⟨_, _, block, _, _, long, node⟩
      have parsed : Node.parse crates block = .ok leaf := Node.parse_eq_ok_iff.mpr ⟨long, node⟩
      have named : ino ∈ (leaf.leafItems.filter fun item =>
          item.1.objectid = orphanObjectid ∧ item.1.keyType = orphanItemKey).map
            (fun item => item.1.offset) ↔ NamesOrphan leaf ino := by
        rw [List.mem_map]
        constructor
        · intro found
          rcases found with ⟨item, member, offset⟩
          rw [List.mem_filter, decide_eq_true_iff] at member
          exact ⟨item, member.1, member.2.1, member.2.2, offset⟩
        · intro found
          rcases found with ⟨item, member, objectid, keyType, offset⟩
          exact ⟨item, List.mem_filter.mpr
            ⟨member, decide_eq_true ⟨objectid, keyType⟩⟩, offset⟩
      dsimp only
      constructor
      · intro found
        split at found
        · cases found
        case isFalse owned =>
          have names := named.mp found
          rcases names with ⟨item, member, rest⟩
          exact ⟨leaf, rfl, ⟨not_not.mp owned, level_eq_zero_of_mem_leafItems parsed member⟩,
            item, member, rest⟩
      · intro found
        rcases found with ⟨other, same, tree, names⟩
        cases same
        rw [if_neg (not_not_intro tree.1)]
        exact named.mpr names

theorem orphans_of_roots (parses : ParsesSuperblock crates image sbBlock sb) :
    (pickAnomalies orphanInode (auditImage crates image)).Nodup ∧
      ∀ ino, ino ∈ pickAnomalies orphanInode (auditImage crates image) ↔
        ∃ root, FsTreeStart crates image sbBlock sb (auditMap crates image sb) root ∧
          OrphanAt crates image sb (auditMap crates image sb) root ino := by
  have scanned : pickAnomalies orphanInode (auditImage crates image) =
      appendNew [] ((orphanRoots crates image sb (auditMap crates image sb)).flatMap
        (orphansAt crates image sb (auditMap crates image sb))) := by
    rw [orphans_auditImage parses, scanOrphans, List.nil_append, pickAnomalies,
      List.filterMap_map]
    exact List.filterMap_some
  rw [scanned]
  refine ⟨nodup_appendNew List.nodup_nil, fun ino => ?_⟩
  rw [mem_appendNew_iff, or_iff_right List.not_mem_nil, List.mem_flatMap]
  simp only [mem_orphanRoots_iff parses.block, mem_orphansAt_iff]

/-- Orphans are reported once each. They are those of all leaves below the roots
exactly when no leaf below a root names an orphan that the root nodes themselves do
not name. -/
theorem orphans_reported_iff (parses : ParsesSuperblock crates image sbBlock sb) :
    ((pickAnomalies orphanInode (auditImage crates image)).Nodup ∧
      ∀ ino, ino ∈ pickAnomalies orphanInode (auditImage crates image) ↔
        ∃ root, FsTreeStart crates image sbBlock sb (auditMap crates image sb) root ∧
          OrphanBelow crates image sb (auditMap crates image sb) root ino) ↔
    ∀ start logical ino,
      FsTreeStart crates image sbBlock sb (auditMap crates image sb) start →
      Worklist.Reaches (treeChildren crates image sb (auditMap crates image sb)) [start]
        logical →
      OrphanAt crates image sb (auditMap crates image sb) logical ino →
      ∃ root, FsTreeStart crates image sbBlock sb (auditMap crates image sb) root ∧
        OrphanAt crates image sb (auditMap crates image sb) root ino := by
  rcases orphans_of_roots parses with ⟨distinct, reported⟩
  rw [and_iff_right distinct]
  constructor
  · intro complete start logical ino starts reaches orphan
    exact (reported ino).mp ((complete ino).mpr ⟨start, starts, logical, reaches, orphan⟩)
  · intro shallow ino
    rw [reported]
    constructor
    · intro found
      rcases found with ⟨root, starts, orphan⟩
      exact ⟨root, starts, root, .of_mem (List.mem_singleton_self root), orphan⟩
    · intro found
      rcases found with ⟨root, starts, logical, reaches, orphan⟩
      exact shallow root logical ino starts reaches orphan

end Scan

/-! A volume whose `FS_TREE` has an interior root, with an orphan in the leaf below
it. -/

def deepRoot : Bytes := Volume.interior 0x100400 fsTreeObjectid 9 [0x100600]

def orphanLeaf : Bytes :=
  Volume.leaf 0x100600 fsTreeObjectid 9 [(⟨orphanObjectid, orphanItemKey, 300⟩, [])]

def deepVolume : Volume :=
  Volume.plain [Volume.rootLeaf, deepRoot, orphanLeaf] (by decide +kernel) (by decide)

theorem deepVolume_nodes :
    (Node.ofBlock Crates.withoutCodecs deepRoot).header.level = 1 ∧
      (Node.ofBlock Crates.withoutCodecs deepRoot).keyPtrs.map KeyPtr.blockptr =
        [0x100600] ∧
      FsTreeLeaf (Node.ofBlock Crates.withoutCodecs orphanLeaf) ∧
      (Node.ofBlock Crates.withoutCodecs orphanLeaf).leafItems =
        [(⟨orphanObjectid, orphanItemKey, 300⟩, [])] := by
  decide +kernel

theorem readNode_deepRoot :
    readNode Crates.withoutCodecs deepVolume.image deepVolume.sb Volume.map 0x100400 =
      .ok (Node.ofBlock Crates.withoutCodecs deepRoot) :=
  Volume.readNode_image 2 0x12400 rfl (by decide) (by decide)

theorem fsTreeStart_deepVolume_iff {logical : UInt64} :
    FsTreeStart Crates.withoutCodecs deepVolume.image deepVolume.superblock deepVolume.sb
        Volume.map logical ↔ logical = 0x100400 := by
  rcases deepVolume.fsTreeRoot_image rfl with ⟨root, located, bytenr⟩
  have blank : ∀ slot ∈ parseBackupRoots deepVolume.superblock, slot.fsRoot = 0 := by
    intro slot listed
    rw [Volume.parseBackupRoots_superblock] at listed
    rw [List.eq_of_mem_replicate listed]
  constructor
  · intro starts
    rcases starts with ⟨other, again, rfl⟩ | ⟨slot, listed, present, _⟩
    · rw [located] at again
      cases again
      exact bytenr
    · exact absurd (blank slot listed) present
  · intro equal
    exact .inl ⟨root, located, bytenr.trans equal.symm⟩

theorem orphanBelow_deepVolume :
    OrphanBelow Crates.withoutCodecs deepVolume.image deepVolume.sb Volume.map 0x100400
      300 := by
  have read : readNode Crates.withoutCodecs deepVolume.image deepVolume.sb Volume.map
      0x100600 = .ok (Node.ofBlock Crates.withoutCodecs orphanLeaf) :=
    Volume.readNode_image 3 0x12600 rfl (by decide) (by decide)
  have edge : 0x100600 ∈ treeChildren Crates.withoutCodecs deepVolume.image
      deepVolume.sb Volume.map 0x100400 := by
    rw [treeChildren, readNode_deepRoot]
    simp only [deepVolume_nodes.2.1]
    exact List.mem_singleton_self _
  have names : NamesOrphan (Node.ofBlock Crates.withoutCodecs orphanLeaf) 300 := by
    rw [NamesOrphan, deepVolume_nodes.2.2.2]
    exact ⟨_, List.mem_singleton_self _, rfl, rfl, rfl⟩
  exact ⟨0x100600, ⟨0x100400, List.mem_singleton_self _, .single edge⟩, _, read,
    deepVolume_nodes.2.2.1, names⟩

/-- An orphan below an interior root is not reported. -/
theorem deep_orphan_unreported :
    ParsesSuperblock Crates.withoutCodecs deepVolume.image deepVolume.superblock
        deepVolume.sb ∧
      (∃ root, FsTreeStart Crates.withoutCodecs deepVolume.image deepVolume.superblock
          deepVolume.sb (auditMap Crates.withoutCodecs deepVolume.image deepVolume.sb)
          root ∧
        OrphanBelow Crates.withoutCodecs deepVolume.image deepVolume.sb
          (auditMap Crates.withoutCodecs deepVolume.image deepVolume.sb) root 300) ∧
      300 ∉ pickAnomalies orphanInode
        (auditImage Crates.withoutCodecs deepVolume.image) := by
  refine ⟨deepVolume.parsesSuperblock, ⟨0x100400, ?_, ?_⟩, ?_⟩
  · rw [Volume.auditMap_image]
    exact fsTreeStart_deepVolume_iff.mpr rfl
  · rw [Volume.auditMap_image]
    exact orphanBelow_deepVolume
  · intro reported
    rcases ((orphans_of_roots deepVolume.parsesSuperblock).2 300).mp reported with
      ⟨root, starts, leaf, read, tree, _⟩
    rw [Volume.auditMap_image] at starts read
    rw [fsTreeStart_deepVolume_iff.mp starts, readNode_deepRoot] at read
    cases read
    have level := tree.2
    rw [deepVolume_nodes.1] at level
    cases level

theorem orphans_reported_iff_in_deepVolume :
    ((pickAnomalies orphanInode
        (auditImage Crates.withoutCodecs deepVolume.image)).Nodup ∧
      ∀ ino, ino ∈ pickAnomalies orphanInode
          (auditImage Crates.withoutCodecs deepVolume.image) ↔
        ∃ root, FsTreeStart Crates.withoutCodecs deepVolume.image deepVolume.superblock
            deepVolume.sb (auditMap Crates.withoutCodecs deepVolume.image deepVolume.sb)
            root ∧
          OrphanBelow Crates.withoutCodecs deepVolume.image deepVolume.sb
            (auditMap Crates.withoutCodecs deepVolume.image deepVolume.sb) root ino) ↔
    ∀ start logical ino,
      FsTreeStart Crates.withoutCodecs deepVolume.image deepVolume.superblock
          deepVolume.sb (auditMap Crates.withoutCodecs deepVolume.image deepVolume.sb)
          start →
      Worklist.Reaches (treeChildren Crates.withoutCodecs deepVolume.image deepVolume.sb
          (auditMap Crates.withoutCodecs deepVolume.image deepVolume.sb)) [start]
        logical →
      OrphanAt Crates.withoutCodecs deepVolume.image deepVolume.sb
        (auditMap Crates.withoutCodecs deepVolume.image deepVolume.sb) logical ino →
      ∃ root, FsTreeStart Crates.withoutCodecs deepVolume.image deepVolume.superblock
          deepVolume.sb (auditMap Crates.withoutCodecs deepVolume.image deepVolume.sb)
          root ∧
        OrphanAt Crates.withoutCodecs deepVolume.image deepVolume.sb
          (auditMap Crates.withoutCodecs deepVolume.image deepVolume.sb) root ino :=
  orphans_reported_iff deepVolume.parsesSuperblock

end BtrfsForensic
