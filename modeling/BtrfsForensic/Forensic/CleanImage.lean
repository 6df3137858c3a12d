import BtrfsForensic.Forensic.Volume

namespace BtrfsForensic

/-! The audit of a clean image: four of the five checks are silent, and the
backup-root check is silent when the logical addresses of the backup roots are
below the length of the image. -/

/-- Nothing is wrong with the image: the superblock and every node the sweep can
reach verify, the roots can be read, no backup slot is newer than the superblock
or names an unreadable tree, and no inode is orphaned. -/
structure Clean (crates : Crates) (image sbBlock : Bytes) (sb : Superblock)
    (map : ChunkMap) : Prop where
  csumType : sb.csumType = .crc32c
  crcValid : sb.crcValid = some true
  root : sb.root ≠ 0 → ∃ node, readNode crates image sb map sb.root = .ok node
  chunkRoot : sb.chunkRoot ≠ 0 →
    ∃ node, readNode crates image sb map sb.chunkRoot = .ok node
  nodes : ∀ logical node,
    Worklist.Reaches (sweepChildren crates image sb map) (sweepSeeds image sb)
      logical →
    acceptedNode crates image sb map logical = some node →
    node.crcValid = some true
  generations : ∀ backup ∈ parseBackupRoots sbBlock,
    backup.treeRootGen ≤ sb.generation ∧ backup.fsRootGen ≤ sb.generation
  treeRoots : ∀ backup ∈ parseBackupRoots sbBlock, backup.treeRoot ≠ 0 →
    ∃ node, readNode crates image sb map backup.treeRoot = .ok node
  orphans : ∀ logical ∈ orphanRoots crates image sb map, ∀ leaf,
    readNode crates image sb map logical = .ok leaf →
    leaf.header.owner = fsTreeObjectid →
    ∀ item ∈ leaf.leafItems,
      ¬(item.1.objectid = orphanObjectid ∧ item.1.keyType = orphanItemKey)

section Checks

variable {crates : Crates} {image sbBlock : Bytes} {sb : Superblock}
  {map : ChunkMap}

theorem superblockReports_eq_nil (valid : sb.crcValid = some true) :
    superblockReports sb = [] := by
  rw [superblockReports, valid]
  exact if_neg (by simp)

theorem checkRootReachable_eq_nil {field : String} {logical : UInt64}
    (readable : logical ≠ 0 → ∃ node, readNode crates image sb map logical = .ok node) :
    checkRootReachable crates [] image sb map field logical = [] := by
  rw [checkRootReachable]
  split
  case isTrue => rfl
  case isFalse nonzero =>
    rcases readable nonzero with ⟨node, read⟩
    rw [read]

theorem sweepReports_flatMap_eq_nil
    (valid : ∀ logical node,
      Worklist.Reaches (sweepChildren crates image sb map) (sweepSeeds image sb)
        logical →
      acceptedNode crates image sb map logical = some node →
      node.crcValid = some true) :
    (sweepVisits crates image sb map).flatMap (sweepReports crates image sb map) =
      [] := by
  rw [List.flatMap_eq_nil_iff]
  intro logical visited
  apply List.eq_nil_iff_forall_not_mem.mpr
  intro anomaly reported
  rcases (mem_sweepReports_iff.mp reported).1 with ⟨node, accepted, invalid⟩
  have verifies := valid logical node (Worklist.reaches_of_mem_visit visited) accepted
  rw [verifies] at invalid
  cases invalid

theorem scanOrphans_eq_nil
    (clear : ∀ logical ∈ orphanRoots crates image sb map, ∀ leaf,
      readNode crates image sb map logical = .ok leaf →
      leaf.header.owner = fsTreeObjectid →
      ∀ item ∈ leaf.leafItems,
        ¬(item.1.objectid = orphanObjectid ∧ item.1.keyType = orphanItemKey)) :
    scanOrphans crates [] image sb map = [] := by
  have silent : (orphanRoots crates image sb map).flatMap
      (orphansAt crates image sb map) = [] := by
    rw [List.flatMap_eq_nil_iff]
    intro logical member
    rw [orphansAt]
    cases read : readNode crates image sb map logical with
    | error error => rfl
    | ok leaf =>
        dsimp only
        split
        case isTrue => rfl
        case isFalse owned =>
          rw [List.map_eq_nil_iff, List.filter_eq_nil_iff]
          intro item itemMember
          simpa using clear logical member leaf read (not_not.mp owned) item itemMember
  rw [scanOrphans, silent]
  rfl

/-- With no generation ahead of the superblock's, only the third comparison is
left: a logical address against the length of the image. -/
theorem checkBackupRoots_eq_nil_iff {currentGen : UInt64} {imageLen : Nat}
    (generations : ∀ backup ∈ parseBackupRoots sbBlock,
      backup.treeRootGen ≤ currentGen ∧ backup.fsRootGen ≤ currentGen) :
    checkBackupRoots [] sbBlock currentGen imageLen = [] ↔
      ∀ backup ∈ parseBackupRoots sbBlock,
        backup.treeRoot = 0 ∨ backup.treeRoot.toNat < imageLen := by
  have silent {backup : RootBackup} {slot : Nat}
      (member : backup ∈ parseBackupRoots sbBlock) :
      backupDivergence slot backup currentGen imageLen = [] ↔
        backup.treeRoot = 0 ∨ backup.treeRoot.toNat < imageLen := by
    rcases generations backup member with ⟨treeGen, fsGen⟩
    rw [backupDivergence, if_neg (UInt64.not_lt.mpr treeGen),
      if_neg (UInt64.not_lt.mpr fsGen)]
    split
    case isTrue past =>
      simp only [List.cons_ne_nil, false_iff]
      intro either
      rcases either with zero | inside
      · exact past.1 zero
      · exact absurd inside (Nat.not_lt_of_le past.2)
    case isFalse within =>
      simp only [true_iff]
      by_cases zero : backup.treeRoot = 0
      · exact .inl zero
      · exact .inr (Nat.lt_of_not_le fun past => within ⟨zero, past⟩)
  rw [checkBackupRoots, List.nil_append, List.flatMap_eq_nil_iff]
  constructor
  · intro nil backup member
    rcases List.mem_iff_getElem?.mp member with ⟨slot, found⟩
    exact (silent member).mp (nil (backup, slot)
      (List.mem_zipIdx_iff_getElem?.mpr found))
  · intro inside pair member
    have found := List.mem_zipIdx_iff_getElem?.mp member
    have backupMember := List.mem_of_getElem? found
    exact (silent backupMember).mpr (inside pair.1 backupMember)

/-- The audit of a clean image is empty exactly when no backup slot names a tree
root at a logical address past the length of the image. -/
theorem auditImage_eq_nil_iff (parses : ParsesSuperblock crates image sbBlock sb)
    (clean : Clean crates image sbBlock sb (auditMap crates image sb)) :
    auditImage crates image = [] ↔
      ∀ backup ∈ parseBackupRoots sbBlock,
        backup.treeRoot = 0 ∨ backup.treeRoot.toNat < image.length := by
  rw [auditImage_eq parses, superblockReports_eq_nil clean.crcValid,
    checkRootReachable_eq_nil clean.root, checkRootReachable_eq_nil clean.chunkRoot,
    sweepReports_flatMap_eq_nil clean.nodes, scanOrphans_eq_nil clean.orphans,
    List.append_nil, List.nil_append, List.nil_append, List.nil_append,
    List.nil_append]
  exact checkBackupRoots_eq_nil_iff clean.generations

end Checks

/-! A clean volume with chunks at logical addresses past its length. -/

def cleanVolume : Volume :=
  Volume.backedUp
    [Volume.rootLeaf, Volume.leaf 0x100400 fsTreeObjectid 9 [],
      Volume.leaf 0x100600 fsTreeObjectid 8 []]
    (by decide +kernel) (by decide)

theorem readNode_cleanVolume {address : UInt64} (index : Nat) (phys : UInt64)
    {block : Bytes}
    (found : (Volume.chunkLeaf :: cleanVolume.blocks)[index]? = some block)
    (target : Volume.map.logicalToPhysical address = some (1, phys))
    (place : phys.toNat = Volume.physical + Volume.nodesize * index) :
    readNode Crates.withoutCodecs cleanVolume.image cleanVolume.sb
      (auditMap Crates.withoutCodecs cleanVolume.image cleanVolume.sb) address =
        .ok (Node.ofBlock Crates.withoutCodecs block) := by
  rw [Volume.auditMap_image]
  exact Volume.readNode_image index phys found target place

theorem readNode_cleanVolume_sealed {logical : UInt64}
    (seeded : logical ∈ [0x100000, 0x100200, 0x100600]) :
    ∃ block, readNode Crates.withoutCodecs cleanVolume.image cleanVolume.sb
        (auditMap Crates.withoutCodecs cleanVolume.image cleanVolume.sb) logical =
          .ok (Node.ofBlock Crates.withoutCodecs block) ∧
      (Node.ofBlock Crates.withoutCodecs block).isLeaf = true ∧
      (Node.ofBlock Crates.withoutCodecs block).crcValid = some true := by
  simp only [List.mem_cons, List.not_mem_nil, or_false] at seeded
  rcases seeded with rfl | rfl | rfl
  · exact ⟨_, readNode_cleanVolume 0 0x12000 rfl (by decide) (by decide),
      Volume.chunkLeaf_chunkItems.1,
      congrArg some (Writer.verify_sealed (by decide +kernel))⟩
  · exact ⟨_, readNode_cleanVolume 1 0x12200 rfl (by decide) (by decide),
      Volume.rootLeaf_leafItems.1,
      congrArg some (Writer.verify_sealed (by decide +kernel))⟩
  · exact ⟨_, readNode_cleanVolume 3 0x12600 rfl (by decide) (by decide),
      by decide +kernel, congrArg some (Writer.verify_sealed (by decide +kernel))⟩

theorem reaches_cleanVolume {logical : UInt64}
    (reaches : Worklist.Reaches (sweepChildren Crates.withoutCodecs cleanVolume.image
        cleanVolume.sb
        (auditMap Crates.withoutCodecs cleanVolume.image cleanVolume.sb))
      (sweepSeeds cleanVolume.image cleanVolume.sb) logical) :
    logical ∈ [0x100000, 0x100200, 0x100600] := by
  refine reaches.of_closed (· ∈ [0x100000, 0x100200, 0x100600])
    (fun start member => ?_) fun parent seeded child edge => ?_
  · have seeds : sweepSeeds cleanVolume.image cleanVolume.sb =
        [0x100600, 0x100200, 0x100000, 0x100200] :=
      cleanVolume.sweepSeeds_image
    rw [seeds] at member
    simp only [List.mem_cons, List.not_mem_nil, or_false] at member ⊢
    rcases member with rfl | rfl | rfl | rfl <;> simp
  · rcases readNode_cleanVolume_sealed seeded with ⟨_, read, leaf, _⟩
    rw [sweepChildren_of_isLeaf read leaf] at edge
    cases edge

theorem orphanRoots_cleanVolume :
    orphanRoots Crates.withoutCodecs cleanVolume.image cleanVolume.sb
      (auditMap Crates.withoutCodecs cleanVolume.image cleanVolume.sb) =
        [0x100400, 0x100600] := by
  rcases cleanVolume.fsTreeRoot_image rfl with ⟨root, found, bytenr⟩
  rw [orphanRoots, Volume.auditMap_image, found, cleanVolume.parsesSuperblock.block]
  simp only [bytenr, Volume.parseBackupRoots_superblock]
  decide

theorem clean_cleanVolume :
    Clean Crates.withoutCodecs cleanVolume.image cleanVolume.superblock
      cleanVolume.sb
      (auditMap Crates.withoutCodecs cleanVolume.image cleanVolume.sb) where
  csumType := by decide +kernel
  crcValid := cleanVolume.crcValid_sb (by decide +kernel) (by decide +kernel)
  root := fun _ => by
    rw [show cleanVolume.sb.root = 0x100200 from cleanVolume.describes.1]
    exact ⟨_, readNode_cleanVolume 1 0x12200 rfl (by decide) (by decide)⟩
  chunkRoot := fun _ => by
    rw [show cleanVolume.sb.chunkRoot = 0x100000 from cleanVolume.describes.2.1]
    exact ⟨_, readNode_cleanVolume 0 0x12000 rfl (by decide) (by decide)⟩
  nodes := by
    intro logical node reaches accepted
    rcases readNode_cleanVolume_sealed (reaches_cleanVolume reaches) with
      ⟨block, read, _, valid⟩
    have same := (acceptedNode_eq_some_iff.mp accepted).1
    rw [read] at same
    cases same
    exact valid
  generations := by
    have generation : cleanVolume.sb.generation = 9 := by decide +kernel
    rw [generation, Volume.parseBackupRoots_superblock]
    decide
  treeRoots := by
    intro backup member nonzero
    rw [Volume.parseBackupRoots_superblock] at member
    rcases List.mem_cons.mp member with rfl | member
    · exact ⟨_, readNode_cleanVolume 1 0x12200 rfl (by decide) (by decide)⟩
    · rw [List.eq_of_mem_replicate member] at nonzero
      exact absurd rfl nonzero
  orphans := by
    intro logical member leaf read _ item itemMember
    have empty : (Node.ofBlock Crates.withoutCodecs
          (Volume.leaf 0x100400 fsTreeObjectid 9 [])).leafItems = [] ∧
        (Node.ofBlock Crates.withoutCodecs
          (Volume.leaf 0x100600 fsTreeObjectid 8 [])).leafItems = [] := by
      decide +kernel
    rw [orphanRoots_cleanVolume] at member
    simp only [List.mem_cons, List.not_mem_nil, or_false] at member
    rcases member with rfl | rfl
    · rw [readNode_cleanVolume 2 0x12400 rfl (by decide) (by decide)] at read
      cases read
      rw [empty.1] at itemMember
      cases itemMember
    · rw [readNode_cleanVolume 3 0x12600 rfl (by decide) (by decide)] at read
      cases read
      rw [empty.2] at itemMember
      cases itemMember

/-- The backup of a readable root tree is reported, because its logical address
is past the length of the image. -/
theorem clean_image_reported :
    ParsesSuperblock Crates.withoutCodecs cleanVolume.image cleanVolume.superblock
        cleanVolume.sb ∧
      Clean Crates.withoutCodecs cleanVolume.image cleanVolume.superblock
        cleanVolume.sb
        (auditMap Crates.withoutCodecs cleanVolume.image cleanVolume.sb) ∧
      auditImage Crates.withoutCodecs cleanVolume.image ≠ [] := by
  refine ⟨cleanVolume.parsesSuperblock, clean_cleanVolume, fun silent => ?_⟩
  have first : (⟨0x100200, 8, 0x100600, 8⟩ : RootBackup) ∈
      parseBackupRoots cleanVolume.superblock := by
    rw [Volume.parseBackupRoots_superblock]
    exact List.mem_cons_self
  rw [auditImage_eq cleanVolume.parsesSuperblock] at silent
  have backups := (List.append_eq_nil_iff.mp
    (List.append_eq_nil_iff.mp silent).1).2
  have inside := (checkBackupRoots_eq_nil_iff clean_cleanVolume.generations).mp
    backups _ first
  rw [Volume.length_image] at inside
  exact absurd inside (by decide)

theorem auditImage_eq_nil_iff_in_cleanVolume :
    auditImage Crates.withoutCodecs cleanVolume.image = [] ↔
      ∀ backup ∈ parseBackupRoots cleanVolume.superblock,
        backup.treeRoot = 0 ∨ backup.treeRoot.toNat < cleanVolume.image.length :=
  auditImage_eq_nil_iff cleanVolume.parsesSuperblock clean_cleanVolume

end BtrfsForensic
