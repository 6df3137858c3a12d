import BtrfsForensic.Forensic.Recover
import BtrfsForensic.Forensic.Volume
import BtrfsForensic.Foundation.First
import Mathlib.Data.List.Find

namespace BtrfsForensic

/-! What a recovery record says about its inode: whether the inode is really
absent from the live `FS_TREE`, and whether the content has the size the record
claims. -/

/-! ## Which inodes an old node reports -/

/-- An old `FS_TREE` node holds a user inode and an extent of it. -/
def Carries (old : Node) (ino : UInt64) : Prop :=
  old.header.owner = fsTreeObjectid ∧ 257 ≤ ino ∧ ino ∈ inodeSet old ∧
    ∃ other ∈ old.leafItems,
      other.1.objectid = ino ∧ other.1.keyType = extentDataKey

/-- It does, and the current node holds no inode item of that inode. -/
def Reports (current old : Node) (ino : UInt64) : Prop :=
  Carries old ino ∧ ino ∉ inodeSet current

instance (old : Node) (ino : UInt64) : Decidable (Carries old ino) :=
  inferInstanceAs (Decidable (_ ∧ _ ∧ _ ∧ _))

instance (current old : Node) (ino : UInt64) : Decidable (Reports current old ino) :=
  inferInstanceAs (Decidable (_ ∧ _))

/-- The first inode item of an inode, the one its size is read from. -/
def inodeItem (leaf : Node) (ino : UInt64) : Option (DiskKey × Bytes) :=
  leaf.leafItems.find? fun item =>
    item.1.objectid = ino ∧ item.1.keyType = inodeItemKey

theorem inodeItem_spec {leaf : Node} {ino : UInt64} {item : DiskKey × Bytes}
    (found : inodeItem leaf ino = some item) :
    item ∈ leaf.leafItems ∧ item.1.objectid = ino ∧ item.1.keyType = inodeItemKey :=
  ⟨List.mem_of_find?_eq_some found, by simpa using List.find?_some found⟩

theorem reports_of_find? {nodes : List Node} {current old : Node} {ino : UInt64}
    (found : nodes.find? (fun old => Reports current old ino) = some old) :
    Reports current old ino := by
  simpa using List.find?_some found

section Leaves

variable {crates : Crates} {old current : Node} {image : Bytes} {map : ChunkMap}
  {sectorsize : UInt32} {ino : UInt64}

theorem mem_inodeSet_iff {leaf : Node} :
    ino ∈ inodeSet leaf ↔
      ∃ item ∈ leaf.leafItems,
        item.1.objectid = ino ∧ item.1.keyType = inodeItemKey := by
  rw [inodeSet, List.mem_map]
  constructor
  · intro parts
    rcases parts with ⟨item, member, rfl⟩
    rw [List.mem_filter] at member
    exact ⟨item, member.1, rfl, by simpa using member.2⟩
  · intro parts
    rcases parts with ⟨item, member, rfl, inode⟩
    exact ⟨item, List.mem_filter.mpr ⟨member, by simpa using inode⟩, rfl⟩

theorem carvable_iff {item : DiskKey × Bytes} (owned : old.header.owner = fsTreeObjectid)
    (member : item ∈ old.leafItems) :
    Carvable old current item ↔
      item.1.keyType = inodeItemKey ∧ Reports current old item.1.objectid := by
  constructor
  · intro parts
    rcases parts with ⟨inode, user, absent, extent⟩
    exact ⟨inode, ⟨owned, user, mem_inodeSet_iff.mpr ⟨item, member, rfl, inode⟩,
      extent⟩, absent⟩
  · intro parts
    rcases parts with ⟨inode, ⟨_, user, _, extent⟩, absent⟩
    exact ⟨inode, user, absent, extent⟩

theorem mem_recoverDeletedFromLeaves_iff {record : RecoveredFile} :
    record ∈ recoverDeletedFromLeaves crates old current image map sectorsize ↔
      ∃ item ∈ old.leafItems, item.1.keyType = inodeItemKey ∧
        Reports current old item.1.objectid ∧
        carve crates old image map sectorsize item = record := by
  rw [recoverDeletedFromLeaves]
  split
  case isTrue foreign =>
    simp only [List.not_mem_nil, false_iff]
    intro parts
    rcases parts with ⟨_, _, _, reports, _⟩
    exact foreign reports.1.1
  case isFalse owned =>
    rw [List.mem_map]
    constructor
    · intro parts
      rcases parts with ⟨item, member, rfl⟩
      rw [List.mem_filter, decide_eq_true_iff] at member
      rcases (carvable_iff (not_not.mp owned) member.1).mp member.2 with
        ⟨inode, reports⟩
      exact ⟨item, member.1, inode, reports, rfl⟩
    · intro parts
      rcases parts with ⟨item, member, inode, reports, rfl⟩
      refine ⟨item, List.mem_filter.mpr ⟨member, ?_⟩, rfl⟩
      exact decide_eq_true ((carvable_iff reports.1.1 member).mpr ⟨inode, reports⟩)

theorem find?_recoverDeletedFromLeaves :
    (recoverDeletedFromLeaves crates old current image map sectorsize).find?
        (fun record => record.inode = ino) =
      if Reports current old ino then
        (inodeItem old ino).map (carve crates old image map sectorsize)
      else none := by
  split
  case isFalse silent =>
    rw [List.find?_eq_none]
    intro record member
    rcases mem_recoverDeletedFromLeaves_iff.mp member with
      ⟨item, _, _, reports, rfl⟩
    simp only [decide_eq_true_iff]
    intro equal
    subst equal
    exact silent reports
  case isTrue reports =>
    rw [recoverDeletedFromLeaves, if_neg (not_not_intro reports.1.1),
      List.find?_map, List.find?_filter, inodeItem]
    congr 1
    refine List.find?_congr fun item member => ?_
    rw [decide_eq_decide]
    simp only [decide_eq_true_iff, Function.comp_apply, carve]
    rw [carvable_iff reports.1.1 member]
    constructor
    · intro both
      exact ⟨of_decide_eq_true both.2, both.1.1⟩
    · intro both
      exact ⟨⟨both.2, both.1 ▸ reports⟩, decide_eq_true both.1⟩

theorem exists_inodeItem (carries : Carries old ino) :
    ∃ item, inodeItem old ino = some item ∧ item ∈ old.leafItems ∧
      item.1.objectid = ino ∧ item.1.keyType = inodeItemKey := by
  rcases mem_inodeSet_iff.mp carries.2.2.1 with ⟨item, member, key⟩
  have answers : (inodeItem old ino).isSome := by
    rw [inodeItem, List.find?_isSome]
    exact ⟨item, member, by simpa using key⟩
  rcases Option.isSome_iff_exists.mp answers with ⟨first, found⟩
  exact ⟨first, found, inodeItem_spec found⟩

/-! ## The content of a record -/

end Leaves

/-! ## Over a whole image -/

/-- What `recoverDeleted` finds before it looks at the backup slots. -/
structure RecoverySetup (crates : Crates) (image sbBlock : Bytes)
    (sb : Superblock) (currentRoot : FsTreeRoot) (current : Node) : Prop where
  parses : ParsesSuperblock crates image sbBlock sb
  located : fsTreeRoot crates image sb (auditMap crates image sb) = .ok currentRoot
  read : readNode crates image sb (auditMap crates image sb) currentRoot.bytenr =
    .ok current

section Image

variable {crates : Crates} {image sbBlock : Bytes} {sb : Superblock}
  {currentRoot : FsTreeRoot} {current : Node} {record : RecoveredFile}

def backupNodes (crates : Crates) (image sbBlock : Bytes) (sb : Superblock)
    (currentRoot : FsTreeRoot) : List Node :=
  oldNodes crates image sb (auditMap crates image sb) currentRoot.bytenr
    (parseBackupRoots sbBlock)

theorem recoverDeleted_eq
    (setup : RecoverySetup crates image sbBlock sb currentRoot current) :
    recoverDeleted crates image =
      keepFirst RecoveredFile.inode []
        ((backupNodes crates image sbBlock sb currentRoot).flatMap fun old =>
          recoverDeletedFromLeaves crates old current image
            (auditMap crates image sb) sb.sectorsize) := by
  rw [recoverDeleted, setup.parses.block]
  simp only [setup.parses.parsed, setup.located, setup.read]
  exact KeepFirst.foldl_eq _ _

theorem exists_recoverySetup (member : record ∈ recoverDeleted crates image) :
    ∃ sbBlock sb currentRoot current,
      RecoverySetup crates image sbBlock sb currentRoot current := by
  rw [recoverDeleted] at member
  cases block : superblockBlock image with
  | none =>
      rw [block] at member
      cases member
  | some sbBlock =>
      cases parsed : Superblock.parse crates sbBlock with
      | error error =>
          simp only [block, parsed, List.not_mem_nil] at member
      | ok sb =>
          cases located : fsTreeRoot crates image sb (auditMap crates image sb) with
          | error error =>
              simp only [block, parsed, located, List.not_mem_nil] at member
          | ok currentRoot =>
              cases read : readNode crates image sb (auditMap crates image sb)
                  currentRoot.bytenr with
              | error error =>
                  simp only [block, parsed, located, read, List.not_mem_nil]
                    at member
              | ok current =>
                  exact ⟨sbBlock, sb, currentRoot, current, ⟨block, parsed⟩,
                    located, read⟩

/-- The record of an inode is carved by the first slot that reports the inode,
from its first inode item. -/
theorem mem_recoverDeleted_iff
    (setup : RecoverySetup crates image sbBlock sb currentRoot current) :
    record ∈ recoverDeleted crates image ↔
      ∃ old item,
        (backupNodes crates image sbBlock sb currentRoot).find?
            (fun old => Reports current old record.inode) = some old ∧
          inodeItem old record.inode = some item ∧
          carve crates old image (auditMap crates image sb) sb.sectorsize item =
            record := by
  rw [recoverDeleted_eq setup, KeepFirst.mem_nil_iff, List.find?_flatMap,
    findSome?_eq_bind, Option.bind_eq_some_iff]
  have reporting (old : Node) :
      ((recoverDeletedFromLeaves crates old current image (auditMap crates image sb)
          sb.sectorsize).find? fun other => other.inode = record.inode).isSome =
        decide (Reports current old record.inode) := by
    rw [find?_recoverDeletedFromLeaves]
    split
    case isTrue reports =>
      rcases exists_inodeItem reports.1 with ⟨item, first, _⟩
      simp [first, reports]
    case isFalse silent => simp [silent]
  simp only [reporting]
  constructor
  · intro both
    rcases both with ⟨old, found, carved⟩
    have reports := reports_of_find? found
    rw [find?_recoverDeletedFromLeaves, if_pos reports,
      Option.map_eq_some_iff] at carved
    rcases carved with ⟨item, first, equal⟩
    exact ⟨old, item, found, first, equal⟩
  · intro parts
    rcases parts with ⟨old, item, found, first, equal⟩
    have reports := reports_of_find? found
    refine ⟨old, found, ?_⟩
    rw [find?_recoverDeletedFromLeaves, if_pos reports, first, Option.map_some, equal]

theorem exists_record
    (setup : RecoverySetup crates image sbBlock sb currentRoot current)
    {old : Node} (member : old ∈ backupNodes crates image sbBlock sb currentRoot)
    {ino : UInt64} (reports : Reports current old ino) :
    ∃ record ∈ recoverDeleted crates image, record.inode = ino := by
  have answers : ((backupNodes crates image sbBlock sb currentRoot).find?
      fun old => Reports current old ino).isSome := by
    rw [List.find?_isSome]
    exact ⟨old, member, decide_eq_true reports⟩
  rcases Option.isSome_iff_exists.mp answers with ⟨first, found⟩
  have firstReports := reports_of_find? found
  rcases exists_inodeItem firstReports.1 with ⟨item, known, _, names, _⟩
  refine ⟨carve crates first image (auditMap crates image sb) sb.sectorsize item,
    (mem_recoverDeleted_iff setup).mpr ⟨first, item, ?_, ?_, rfl⟩, names⟩
  · simp only [carve, names]
    exact found
  · simp only [carve, names]
    exact known

end Image

namespace Volume

theorem recoverySetup_image (volume : Volume) {currentBlock : Bytes}
    {rest : List Bytes} (first : volume.blocks = rootLeaf :: currentBlock :: rest) :
    ∃ root, root.bytenr = 0x100400 ∧
      RecoverySetup Crates.withoutCodecs volume.image volume.superblock volume.sb
        root (Node.ofBlock Crates.withoutCodecs currentBlock) := by
  rcases volume.fsTreeRoot_image first with ⟨root, located, bytenr⟩
  refine ⟨root, bytenr, volume.parsesSuperblock, ?_, ?_⟩
  · rw [auditMap_image, located]
  · rw [auditMap_image, bytenr]
    exact readNode_image 2 0x12400 (by rw [first]; rfl) (by decide) (by decide)

theorem backupNodes_image {volume : Volume} {currentBlock oldBlock : Bytes}
    {rest : List Bytes} {root : FsTreeRoot} (bytenr : root.bytenr = 0x100400)
    (first : volume.blocks = rootLeaf :: currentBlock :: oldBlock :: rest)
    (roots : volume.roots =
      ⟨0x100200, 8, 0x100600, 8⟩ :: List.replicate 3 ⟨0, 0, 0, 0⟩) :
    backupNodes Crates.withoutCodecs volume.image volume.superblock volume.sb root =
      [Node.ofBlock Crates.withoutCodecs oldBlock] := by
  have read : readNode Crates.withoutCodecs volume.image volume.sb map 0x100600 =
      .ok (Node.ofBlock Crates.withoutCodecs oldBlock) :=
    readNode_image 3 0x12600 (by rw [first]; rfl) (by decide) (by decide)
  rw [backupNodes, parseBackupRoots_superblock, roots, auditMap_image, oldNodes,
    bytenr]
  simp [read, Except.toOption]

end Volume

/-! A volume whose old `FS_TREE` holds a file of five bytes in an extent that no
chunk maps, and whose live `FS_TREE` is empty. -/

def fileInode : DiskKey × Bytes :=
  (⟨257, inodeItemKey, 0⟩, overlay 160 0 [(inodeSizeOffset, encodeLE 8 5)])

def emptyLeaf : Bytes := Volume.leaf 0x100400 fsTreeObjectid 9 []

section LiveTree

variable (crates : Crates) (image : Bytes) (sb : Superblock) (map : ChunkMap)

def treeChildren (logical : UInt64) : List UInt64 :=
  match readNode crates image sb map logical with
  | .ok node => node.keyPtrs.map KeyPtr.blockptr
  | .error _ => []

/-- Some leaf reachable from the root node holds an inode item of `ino`. -/
def InTree (root ino : UInt64) : Prop :=
  ∃ logical leaf,
    Worklist.Reaches (treeChildren crates image sb map) [root] logical ∧
      readNode crates image sb map logical = .ok leaf ∧ leaf.isLeaf = true ∧
      ino ∈ inodeSet leaf

end LiveTree

section Absence

variable {crates : Crates} {image sbBlock : Bytes} {sb : Superblock}
  {map : ChunkMap} {currentRoot : FsTreeRoot} {current : Node}

theorem inTree_iff_of_isLeaf {root ino : UInt64} {node : Node}
    (read : readNode crates image sb map root = .ok node) (leaf : node.isLeaf = true) :
    InTree crates image sb map root ino ↔ ino ∈ inodeSet node := by
  constructor
  · intro inTree
    rcases inTree with ⟨logical, found, reaches, readFound, _, member⟩
    have atRoot : logical = root := by
      refine reaches.of_closed (· = root) (fun start startMember =>
        List.mem_singleton.mp startMember) fun parent parentRoot child edge => ?_
      rw [parentRoot, treeChildren, read] at edge
      simp only [Node.keyPtrs_of_isLeaf leaf, List.map_nil, List.not_mem_nil] at edge
    rw [atRoot, read] at readFound
    cases readFound
    exact member
  · intro member
    exact ⟨root, node, .of_mem (List.mem_singleton_self root), read, leaf, member⟩

theorem inodeSet_of_not_isLeaf {node : Node} (interior : ¬node.isLeaf = true) :
    inodeSet node = [] := by
  rw [inodeSet, Node.leafItems_of_not_isLeaf interior]
  rfl

theorem recovered_absent_iff_of_setup
    (setup : RecoverySetup crates image sbBlock sb currentRoot current) :
    (∀ record ∈ recoverDeleted crates image,
        ¬InTree crates image sb (auditMap crates image sb) currentRoot.bytenr
          record.inode) ↔
      current.isLeaf = true ∨
        ∀ old ∈ backupNodes crates image sbBlock sb currentRoot, ∀ ino,
          Carries old ino →
          ¬InTree crates image sb (auditMap crates image sb) currentRoot.bytenr
            ino := by
  have reported {record : RecoveredFile} (member : record ∈ recoverDeleted crates image) :
      ∃ old ∈ backupNodes crates image sbBlock sb currentRoot,
        Reports current old record.inode := by
    rcases (mem_recoverDeleted_iff setup).mp member with ⟨old, _, found, _, _⟩
    exact ⟨old, List.mem_of_find?_eq_some found, reports_of_find? found⟩
  constructor
  · intro absent
    by_cases leaf : current.isLeaf = true
    · exact .inl leaf
    · right
      intro old member ino carries
      have reports : Reports current old ino :=
        ⟨carries, by rw [inodeSet_of_not_isLeaf leaf]; exact List.not_mem_nil⟩
      rcases exists_record setup member reports with ⟨record, recordMember, rfl⟩
      exact absent record recordMember
  · intro condition record member
    rcases reported member with ⟨old, oldMember, reports⟩
    rcases condition with leaf | absent
    · rw [inTree_iff_of_isLeaf setup.read leaf]
      exact reports.2
    · exact absent old oldMember record.inode reports.1

/-- Recovered inodes are absent from the live `FS_TREE` exactly when its root
node is a leaf, or no inode that an old node carries is in the tree below it: of
an interior root the diff sees no items. -/
theorem recovered_absent_iff :
    (∀ record ∈ recoverDeleted crates image,
      ∀ sbBlock sb currentRoot current,
        RecoverySetup crates image sbBlock sb currentRoot current →
        ¬InTree crates image sb (auditMap crates image sb) currentRoot.bytenr
          record.inode) ↔
    ∀ sbBlock sb currentRoot current,
      RecoverySetup crates image sbBlock sb currentRoot current →
      (current.isLeaf = true ∨
        ∀ old ∈ backupNodes crates image sbBlock sb currentRoot, ∀ ino,
          Carries old ino →
          ¬InTree crates image sb (auditMap crates image sb) currentRoot.bytenr
            ino) := by
  constructor
  · intro absent sbBlock sb currentRoot current setup
    exact (recovered_absent_iff_of_setup setup).mp fun record member =>
      absent record member sbBlock sb currentRoot current setup
  · intro condition record member sbBlock sb currentRoot current setup
    exact (recovered_absent_iff_of_setup setup).mpr
      (condition sbBlock sb currentRoot current setup) record member

end Absence

/-! A volume whose live `FS_TREE` has grown an interior root above a file that
its old `FS_TREE` holds in a leaf. -/

def inlineExtent : DiskKey × Bytes :=
  (⟨257, extentDataKey, 0⟩, overlay 26 0
    [(ExtOff.ramBytes, encodeLE 8 5), (extentHeaderLen, [104, 101, 108, 108, 111])])

def grownRoot : Bytes := Volume.interior 0x100400 fsTreeObjectid 9 [0x100800]

def oldFileLeaf : Bytes :=
  Volume.leaf 0x100600 fsTreeObjectid 8 [fileInode, inlineExtent]

def liveFileLeaf : Bytes :=
  Volume.leaf 0x100800 fsTreeObjectid 9 [fileInode, inlineExtent]

def grownVolume : Volume :=
  Volume.backedUp [Volume.rootLeaf, grownRoot, oldFileLeaf, liveFileLeaf]
    (by decide +kernel) (by decide)

theorem grownVolume_nodes :
    (Node.ofBlock Crates.withoutCodecs grownRoot).isLeaf = false ∧
      (Node.ofBlock Crates.withoutCodecs grownRoot).keyPtrs.map KeyPtr.blockptr =
        [0x100800] ∧
      Reports (Node.ofBlock Crates.withoutCodecs grownRoot)
        (Node.ofBlock Crates.withoutCodecs oldFileLeaf) 257 ∧
      (Node.ofBlock Crates.withoutCodecs liveFileLeaf).isLeaf = true ∧
      257 ∈ inodeSet (Node.ofBlock Crates.withoutCodecs liveFileLeaf) := by
  decide +kernel

theorem inTree_grownVolume :
    InTree Crates.withoutCodecs grownVolume.image grownVolume.sb Volume.map 0x100400
      257 := by
  have root : readNode Crates.withoutCodecs grownVolume.image grownVolume.sb
      Volume.map 0x100400 = .ok (Node.ofBlock _ grownRoot) :=
    Volume.readNode_image 2 0x12400 rfl (by decide) (by decide)
  have live : readNode Crates.withoutCodecs grownVolume.image grownVolume.sb
      Volume.map 0x100800 = .ok (Node.ofBlock _ liveFileLeaf) :=
    Volume.readNode_image 4 0x12800 rfl (by decide) (by decide)
  have edge : 0x100800 ∈ treeChildren Crates.withoutCodecs grownVolume.image
      grownVolume.sb Volume.map 0x100400 := by
    rw [treeChildren, root]
    simp only [grownVolume_nodes.2.1]
    exact List.mem_singleton_self _
  exact ⟨0x100800, _, ⟨0x100400, List.mem_singleton_self _, .single edge⟩, live,
    grownVolume_nodes.2.2.2⟩

/-- A live file is returned as recovered. -/
theorem recovered_inode_alive :
    ∃ record ∈ recoverDeleted Crates.withoutCodecs grownVolume.image,
      ∃ sbBlock sb currentRoot current,
        RecoverySetup Crates.withoutCodecs grownVolume.image sbBlock sb currentRoot
            current ∧
          InTree Crates.withoutCodecs grownVolume.image sb
            (auditMap Crates.withoutCodecs grownVolume.image sb)
            currentRoot.bytenr record.inode := by
  rcases grownVolume.recoverySetup_image rfl with ⟨root, bytenr, setup⟩
  have member : Node.ofBlock Crates.withoutCodecs oldFileLeaf ∈
      backupNodes Crates.withoutCodecs grownVolume.image grownVolume.superblock
        grownVolume.sb root := by
    rw [Volume.backupNodes_image bytenr rfl rfl]
    exact List.mem_singleton_self _
  rcases exists_record setup member grownVolume_nodes.2.2.1 with
    ⟨record, recordMember, names⟩
  refine ⟨record, recordMember, _, _, root, _, setup, ?_⟩
  rw [Volume.auditMap_image, bytenr, names]
  exact inTree_grownVolume

end BtrfsForensic
