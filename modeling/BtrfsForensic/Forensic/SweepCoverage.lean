import BtrfsForensic.Forensic.Sweep
import BtrfsForensic.Forensic.Volume

namespace BtrfsForensic

/-! What the checksum sweep covers: the live `FS_TREE` root only when the search
comes to it, and nodes of every checksum type as crc32c. -/

section Coverage

variable {crates : Crates} {image sbBlock : Bytes} {sb : Superblock}
  {map : ChunkMap}

/-! ## The live `FS_TREE` root -/

/-- The root tree leads to an `FS_TREE` root node of this filesystem whose
crc32c does not verify. -/
structure CorruptFsTreeRoot (crates : Crates) (image : Bytes) (sb : Superblock)
    (map : ChunkMap) (bytenr : UInt64) : Prop where
  located : (fsTreeRoot crates image sb map).map FsTreeRoot.bytenr = .ok bytenr
  nonzero : bytenr ≠ 0
  csumType : sb.csumType = .crc32c
  corrupt : ∃ node, readNode crates image sb map bytenr = .ok node ∧
    node.namesItself sb bytenr ∧ node.crcValid = some false

/-- A finite set of addresses holds the seeds and is closed under the
key-pointers, and the sweep's budget pays for all of them. -/
structure SweepFits (crates : Crates) (image : Bytes) (sb : Superblock)
    (map : ChunkMap) (addresses : Finset UInt64) : Prop where
  seeds : ∀ logical ∈ sweepSeeds image sb, logical ∈ addresses
  closed : ∀ logical ∈ addresses,
    ∀ child ∈ sweepChildren crates image sb map logical, child ∈ addresses
  enough : (sweepSeeds image sb).length +
    ∑ logical ∈ addresses, (sweepChildren crates image sb map logical).length ≤
      sweepBudget

/-- A corrupt live `FS_TREE` root is reported exactly when the sweep, which is
not seeded with it, comes to it: when it is a seed or is reached from one by
key-pointers. -/
theorem corrupt_fsTreeRoot_reported_iff
    (parses : ParsesSuperblock crates image sbBlock sb) {bytenr : UInt64}
    (root : CorruptFsTreeRoot crates image sb (auditMap crates image sb) bytenr) :
    ((∃ offset, Anomaly.new (.nodeCrcMismatch bytenr offset) ∈
        auditImage crates image) ↔
      bytenr ∈ sweepVisits crates image sb (auditMap crates image sb)) ∧
    ∀ addresses, SweepFits crates image sb (auditMap crates image sb) addresses →
      ((∃ offset, Anomaly.new (.nodeCrcMismatch bytenr offset) ∈
          auditImage crates image) ↔
        Worklist.Reaches (sweepChildren crates image sb (auditMap crates image sb))
          (sweepSeeds image sb) bytenr) := by
  have reported : (∃ offset, Anomaly.new (.nodeCrcMismatch bytenr offset) ∈
        auditImage crates image) ↔
      bytenr ∈ sweepVisits crates image sb (auditMap crates image sb) := by
    rcases root.corrupt with ⟨node, read, names, invalid⟩
    constructor
    · intro parts
      rcases parts with ⟨offset, member⟩
      exact ((nodeCrcMismatch_mem_auditImage_iff parses).mp member).1
    · intro visited
      exact ⟨_, (nodeCrcMismatch_mem_auditImage_iff parses).mpr
        ⟨visited, rfl, node, acceptedNode_eq_some_iff.mpr ⟨read, names⟩, invalid⟩⟩
  refine ⟨reported, fun addresses fits => reported.trans ?_⟩
  exact Worklist.mem_visit_iff_reaches fits.closed fits.seeds fits.enough

end Coverage

/-! A volume whose live `FS_TREE` root has a wrong checksum and is named by the
root tree alone. -/

def corruptFsLeaf : Bytes :=
  Writer.missealed Crates.withoutCodecs
    (Volume.unsealedLeaf 0x100400 fsTreeObjectid 9 [])

def corruptRoot : Volume :=
  Volume.plain [Volume.rootLeaf, corruptFsLeaf] (by decide +kernel)
    (by decide)

theorem csumType_plain : (Volume.readSuperblock 0 []).csumType = .crc32c := by
  decide +kernel

theorem readNode_corruptRoot {address : UInt64} (index : Nat) (phys : UInt64)
    {block : Bytes}
    (found : [Volume.chunkLeaf, Volume.rootLeaf, corruptFsLeaf][index]? =
      some block)
    (target : Volume.map.logicalToPhysical address = some (1, phys))
    (place : phys.toNat = Volume.physical + Volume.nodesize * index) :
    readNode Crates.withoutCodecs corruptRoot.image corruptRoot.sb
      (auditMap Crates.withoutCodecs corruptRoot.image corruptRoot.sb) address =
        .ok (Node.ofBlock Crates.withoutCodecs block) := by
  rw [Volume.auditMap_image]
  exact Volume.readNode_image index phys found target place

theorem corruptFsTreeRoot_corruptRoot :
    CorruptFsTreeRoot Crates.withoutCodecs corruptRoot.image corruptRoot.sb
      (auditMap Crates.withoutCodecs corruptRoot.image corruptRoot.sb)
      0x100400 where
  located := by
    rw [Volume.auditMap_image]
    rcases corruptRoot.fsTreeRoot_image rfl with ⟨root, found, bytenr⟩
    rw [found, Except.map, bytenr]
  nonzero := by decide
  csumType := csumType_plain
  corrupt :=
    ⟨_, readNode_corruptRoot 2 0x12400 rfl (by decide) (by decide),
      by decide +kernel,
      congrArg some (Writer.verify_missealed (by decide +kernel))⟩

theorem sweepSeeds_corruptRoot :
    sweepSeeds corruptRoot.image corruptRoot.sb = [0x100000, 0x100200] :=
  corruptRoot.sweepSeeds_image

theorem sweepChildren_corruptRoot {logical : UInt64}
    (member : logical = 0x100000 ∨ logical = 0x100200) :
    sweepChildren Crates.withoutCodecs corruptRoot.image corruptRoot.sb
      (auditMap Crates.withoutCodecs corruptRoot.image corruptRoot.sb) logical =
        [] := by
  rcases member with rfl | rfl
  · exact sweepChildren_of_isLeaf
      (readNode_corruptRoot 0 0x12000 rfl (by decide) (by decide)) (by decide +kernel)
  · exact sweepChildren_of_isLeaf
      (readNode_corruptRoot 1 0x12200 rfl (by decide) (by decide)) (by decide +kernel)

/-- Nothing leads the sweep from the root tree to the `FS_TREE`. -/
theorem sweepVisits_corruptRoot :
    sweepVisits Crates.withoutCodecs corruptRoot.image corruptRoot.sb
      (auditMap Crates.withoutCodecs corruptRoot.image corruptRoot.sb) =
        [0x100000, 0x100200] := by
  rw [Volume.auditMap_image]
  exact corruptRoot.sweepVisits_image rfl rfl Volume.rootLeaf_leafItems.1

theorem sweepFits_corruptRoot :
    SweepFits Crates.withoutCodecs corruptRoot.image corruptRoot.sb
      (auditMap Crates.withoutCodecs corruptRoot.image corruptRoot.sb)
      {0x100000, 0x100200} where
  seeds := by
    intro logical member
    rw [sweepSeeds_corruptRoot] at member
    simpa using member
  closed := by
    intro logical member child edge
    rw [sweepChildren_corruptRoot (by simpa using member)] at edge
    cases edge
  enough := by
    rw [sweepSeeds_corruptRoot, Finset.sum_eq_zero]
    · decide
    · intro logical member
      rw [sweepChildren_corruptRoot (by simpa using member), List.length_nil]

/-- The corrupt root goes unreported. -/
theorem corrupt_fsTreeRoot_unreported :
    ParsesSuperblock Crates.withoutCodecs corruptRoot.image corruptRoot.superblock
        corruptRoot.sb ∧
      CorruptFsTreeRoot Crates.withoutCodecs corruptRoot.image corruptRoot.sb
        (auditMap Crates.withoutCodecs corruptRoot.image corruptRoot.sb)
        0x100400 ∧
      ∀ offset, Anomaly.new (.nodeCrcMismatch 0x100400 offset) ∉
        auditImage Crates.withoutCodecs corruptRoot.image := by
  refine ⟨corruptRoot.parsesSuperblock, corruptFsTreeRoot_corruptRoot, ?_⟩
  intro offset reported
  have visited := ((nodeCrcMismatch_mem_auditImage_iff
    corruptRoot.parsesSuperblock).mp reported).1
  rw [sweepVisits_corruptRoot] at visited
  exact absurd visited (by decide)

theorem corrupt_fsTreeRoot_reported_iff_in_corruptRoot :
    ((∃ offset, Anomaly.new (.nodeCrcMismatch 0x100400 offset) ∈
        auditImage Crates.withoutCodecs corruptRoot.image) ↔
      0x100400 ∈ sweepVisits Crates.withoutCodecs corruptRoot.image corruptRoot.sb
        (auditMap Crates.withoutCodecs corruptRoot.image corruptRoot.sb)) ∧
    ((∃ offset, Anomaly.new (.nodeCrcMismatch 0x100400 offset) ∈
        auditImage Crates.withoutCodecs corruptRoot.image) ↔
      Worklist.Reaches (sweepChildren Crates.withoutCodecs corruptRoot.image
          corruptRoot.sb
          (auditMap Crates.withoutCodecs corruptRoot.image corruptRoot.sb))
        (sweepSeeds corruptRoot.image corruptRoot.sb) 0x100400) :=
  ⟨(corrupt_fsTreeRoot_reported_iff corruptRoot.parsesSuperblock
      corruptFsTreeRoot_corruptRoot).1,
    (corrupt_fsTreeRoot_reported_iff corruptRoot.parsesSuperblock
      corruptFsTreeRoot_corruptRoot).2 _ sweepFits_corruptRoot⟩

section Deferred

variable {crates : Crates} {image sbBlock : Bytes} {sb : Superblock}

/-! ## Checksums of another type -/

theorem superblockReports_of_deferred
    (parses : ParsesSuperblock crates image sbBlock sb)
    (deferred : sb.csumType ≠ .crc32c) : superblockReports sb = [] := by
  rw [superblockReports, Superblock.crcValid_of_parse parses.parsed,
    superblockCrcStatus_of_ne deferred]
  exact if_neg (by simp)

/-- On a filesystem of another checksum type the superblock's check is deferred
but a node's is not: the audit reports no mismatch exactly when every node that
the sweep examines happens to carry a valid crc32c. -/
theorem deferred_checksum_unreported_iff
    (parses : ParsesSuperblock crates image sbBlock sb)
    (deferred : sb.csumType ≠ .crc32c) :
    (∀ anomaly ∈ auditImage crates image, ¬anomaly.kind.IsChecksumMismatch) ↔
      ∀ logical ∈ sweepVisits crates image sb (auditMap crates image sb),
        ∀ node, acceptedNode crates image sb (auditMap crates image sb) logical =
            some node →
          verifySuperblockCrc32c crates node.block node.block.length = true := by
  have crcValid : ∀ {logical : UInt64} {node : Node},
      acceptedNode crates image sb (auditMap crates image sb) logical =
        some node → (node.crcValid = some false ↔
          verifySuperblockCrc32c crates node.block node.block.length = false) := by
    intro logical node accepted
    rcases readNode_eq_ok_iff.mp (acceptedNode_eq_some_iff.mp accepted).1 with
      ⟨_, _, block, _, _, _, rfl⟩
    rw [Node.ofBlock_crcValid, Node.ofBlock_block, Option.some.injEq]
  constructor
  · intro silent logical visited node accepted
    by_contra invalid
    have reported := (nodeCrcMismatch_mem_auditImage_iff parses).mpr
      ⟨visited, rfl, node, accepted,
        (crcValid accepted).mpr (Bool.eq_false_iff.mpr invalid)⟩
    exact silent _ reported trivial
  · intro verifies anomaly member mismatch
    rcases (checksumMismatch_mem_auditImage_iff parses mismatch).mp member with
      own | ⟨logical, visited, reported⟩
    · rw [superblockReports_of_deferred parses deferred] at own
      cases own
    · rcases (mem_sweepReports_iff.mp reported).1 with ⟨node, accepted, invalid⟩
      have valid := verifies logical visited node accepted
      rw [(crcValid accepted).mp invalid] at valid
      cases valid

end Deferred

/-! An xxhash64 volume, whose root tree does not store a crc32c. -/

def xxhashRootLeaf : Bytes :=
  Writer.missealed Crates.withoutCodecs (Volume.unsealedLeaf 0x100200 1 9 [])

def xxhashVolume : Volume where
  csumType := 1
  backups := []
  roots := List.replicate 4 ⟨0, 0, 0, 0⟩
  blocks := [xxhashRootLeaf]
  magic := Volume.magic_writeSuperblock _ _
  describes := Volume.describes_writeSuperblock _ _
  roots_eq := by
    rw [Volume.writeSuperblock, parseBackupRoots_written (by decide)]
    decide +kernel
  sized := by decide +kernel
  few := by decide

theorem csumType_xxhashVolume : xxhashVolume.sb.csumType = .xxhash64 := by
  decide +kernel

/-- The root tree of an xxhash64 volume is reported. -/
theorem deferred_checksum_reported :
    ParsesSuperblock Crates.withoutCodecs xxhashVolume.image
        xxhashVolume.superblock xxhashVolume.sb ∧
      xxhashVolume.sb.csumType ≠ .crc32c ∧
      ∃ anomaly ∈ auditImage Crates.withoutCodecs xxhashVolume.image,
        anomaly.kind.IsChecksumMismatch := by
  have map := xxhashVolume.auditMap_image
  have root : readNode Crates.withoutCodecs xxhashVolume.image xxhashVolume.sb
      Volume.map 0x100200 = .ok (Node.ofBlock _ xxhashRootLeaf) :=
    Volume.readNode_image 1 0x12200 rfl (by decide) (by decide)
  have names : (Node.ofBlock Crates.withoutCodecs xxhashRootLeaf).namesItself
      xxhashVolume.sb 0x100200 := by decide +kernel
  have visited : 0x100200 ∈ sweepVisits Crates.withoutCodecs xxhashVolume.image
      xxhashVolume.sb Volume.map := by
    rw [xxhashVolume.sweepVisits_image rfl rfl (by decide +kernel)]
    decide
  refine ⟨xxhashVolume.parsesSuperblock, by rw [csumType_xxhashVolume]; decide,
    Anomaly.new (.nodeCrcMismatch 0x100200 0x12200), ?_, trivial⟩
  rw [nodeCrcMismatch_mem_auditImage_iff xxhashVolume.parsesSuperblock, map]
  exact ⟨visited, by decide, _, acceptedNode_eq_some_iff.mpr ⟨root, names⟩,
    congrArg some (Writer.verify_missealed (by decide +kernel))⟩

theorem deferred_checksum_unreported_iff_in_xxhashVolume :
    (∀ anomaly ∈ auditImage Crates.withoutCodecs xxhashVolume.image,
        ¬anomaly.kind.IsChecksumMismatch) ↔
      ∀ logical ∈ sweepVisits Crates.withoutCodecs xxhashVolume.image
          xxhashVolume.sb
          (auditMap Crates.withoutCodecs xxhashVolume.image xxhashVolume.sb),
        ∀ node, acceptedNode Crates.withoutCodecs xxhashVolume.image xxhashVolume.sb
            (auditMap Crates.withoutCodecs xxhashVolume.image xxhashVolume.sb)
            logical = some node →
          verifySuperblockCrc32c Crates.withoutCodecs node.block
            node.block.length = true :=
  deferred_checksum_unreported_iff xxhashVolume.parsesSuperblock
    (by rw [csumType_xxhashVolume]; decide)

end BtrfsForensic
