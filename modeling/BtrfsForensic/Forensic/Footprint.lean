import BtrfsForensic.Forensic.HistoryAudit
import BtrfsForensic.Forensic.NodeTampering

namespace BtrfsForensic

/-! What the audit reads: the superblock, and the tree nodes that the chunk walk, the sweep
and the orphan scan come to. The rest of the image, the content of the files included, has
no part in what is reported. -/

/-! ## The bytes that are read -/

def auditedAddresses (crates : Crates) (image : Bytes) (sb : Superblock) : List UInt64 :=
  let map := auditMap crates image sb
  sb.root :: sb.chunkRoot ::
    (sweepVisits crates image sb map ++ orphanRoots crates image sb map)

/-- Where these nodes, and those of the chunk walk, lie in the image. -/
def auditedBlocks (crates : Crates) (image : Bytes) (sb : Superblock) : List Nat :=
  ChunkMap.walkReads crates image (ChunkMap.boot sb) sb.nodesize.toNat 4096 [sb.chunkRoot]
      ChunkMap.new false ++
    (auditedAddresses crates image sb).filterMap fun logical =>
      (nodePhysical sb (auditMap crates image sb) logical).map fun target => target.2.toNat

/-- Equally long images that agree on the superblock and on every tree node that the audit
of the first one reads. -/
structure AgreeOnMetadata (crates : Crates) (image other : Bytes) : Prop where
  sameLength : image.length = other.length
  superblock : AgreeOn image other btrfsSuperInfoOffset.toNat
    (btrfsSuperInfoOffset.toNat + btrfsSuperInfoSize)
  blocks : ∀ sbBlock sb, ParsesSuperblock crates image sbBlock sb →
    ∀ start ∈ auditedBlocks crates image sb,
      AgreeOn image other start (start + sb.nodesize.toNat)

section Reading

variable {crates : Crates} {image other sbBlock : Bytes} {sb : Superblock} {map : ChunkMap}
  {logical : UInt64}

theorem getRange_block_congr (sameLength : image.length = other.length) {start size : Nat}
    (agree : AgreeOn image other start (start + size)) :
    getRange image start (saturatingAdd start size) =
      getRange other start (saturatingAdd start size) := by
  apply getRange_congr sameLength
  intro index lower upper
  exact agree index lower (Nat.lt_of_lt_of_le upper (saturatingAdd_le start size))

theorem readNode_congr (sameLength : image.length = other.length)
    (agree : ∀ devid phys, nodePhysical sb map logical = some (devid, phys) →
      AgreeOn image other phys.toNat (phys.toNat + sb.nodesize.toNat)) :
    readNode crates other sb map logical = readNode crates image sb map logical := by
  rw [readNode, readNode]
  cases target : nodePhysical sb map logical with
  | none => rfl
  | some physical =>
      cases physical with
      | mk devid phys =>
          have same := getRange_block_congr sameLength (agree devid phys target)
          simp only [← same, ← sameLength]

namespace AgreeOnMetadata

theorem superblockBlock_eq (agree : AgreeOnMetadata crates image other) :
    superblockBlock other = superblockBlock image :=
  (getRange_block_congr agree.sameLength agree.superblock).symm

theorem parsesSuperblock (agree : AgreeOnMetadata crates image other)
    (parses : ParsesSuperblock crates image sbBlock sb) :
    ParsesSuperblock crates other sbBlock sb where
  block := agree.superblockBlock_eq.trans parses.block
  parsed := parses.parsed

theorem walk_eq (agree : AgreeOnMetadata crates image other)
    (parses : ParsesSuperblock crates image sbBlock sb) :
    ChunkMap.walk crates other sb = ChunkMap.walk crates image sb := by
  apply Eq.symm
  apply ChunkMap.walkLoop_congr agree.sameLength
  intro start member
  apply getRange_block_congr agree.sameLength
  exact agree.blocks sbBlock sb parses start (List.mem_append_left _ member)

theorem auditMap_eq (agree : AgreeOnMetadata crates image other)
    (parses : ParsesSuperblock crates image sbBlock sb) :
    auditMap crates other sb = auditMap crates image sb := by
  rw [auditMap, auditMap, agree.walk_eq parses]

theorem readNode_eq (agree : AgreeOnMetadata crates image other)
    (parses : ParsesSuperblock crates image sbBlock sb)
    (read : logical ∈ auditedAddresses crates image sb) :
    readNode crates other sb (auditMap crates image sb) logical =
      readNode crates image sb (auditMap crates image sb) logical := by
  apply readNode_congr agree.sameLength
  intro devid phys target
  apply agree.blocks sbBlock sb parses
  apply List.mem_append_right
  exact List.mem_filterMap.mpr ⟨logical, read, by rw [target, Option.map_some]⟩

theorem fsTreeRoot_eq (agree : AgreeOnMetadata crates image other)
    (parses : ParsesSuperblock crates image sbBlock sb) :
    fsTreeRoot crates other sb (auditMap crates image sb) =
      fsTreeRoot crates image sb (auditMap crates image sb) := by
  rw [fsTreeRoot, fsTreeRoot, agree.readNode_eq parses List.mem_cons_self]

theorem orphanRoots_eq (agree : AgreeOnMetadata crates image other)
    (parses : ParsesSuperblock crates image sbBlock sb) :
    orphanRoots crates other sb (auditMap crates image sb) =
      orphanRoots crates image sb (auditMap crates image sb) := by
  rw [orphanRoots, orphanRoots, agree.fsTreeRoot_eq parses, agree.superblockBlock_eq]

/-! ## The audit -/

theorem checkRootReachable_eq (agree : AgreeOnMetadata crates image other)
    (parses : ParsesSuperblock crates image sbBlock sb)
    (read : logical ∈ auditedAddresses crates image sb) (field : String) :
    checkRootReachable crates [] other sb (auditMap crates image sb) field logical =
      checkRootReachable crates [] image sb (auditMap crates image sb) field logical := by
  rw [checkRootReachable, checkRootReachable, agree.readNode_eq parses read, agree.sameLength]

theorem acceptedNode_eq (agree : AgreeOnMetadata crates image other)
    (parses : ParsesSuperblock crates image sbBlock sb)
    (visited : logical ∈ sweepVisits crates image sb (auditMap crates image sb)) :
    acceptedNode crates other sb (auditMap crates image sb) logical =
      acceptedNode crates image sb (auditMap crates image sb) logical := by
  have read : logical ∈ auditedAddresses crates image sb :=
    .tail _ (.tail _ (List.mem_append_left _ visited))
  rw [acceptedNode, acceptedNode, agree.readNode_eq parses read]

theorem sweepVisits_eq (agree : AgreeOnMetadata crates image other)
    (parses : ParsesSuperblock crates image sbBlock sb) :
    sweepVisits crates other sb (auditMap crates image sb) =
      sweepVisits crates image sb (auditMap crates image sb) := by
  have seeds : sweepSeeds other sb = sweepSeeds image sb := by
    rw [sweepSeeds, sweepSeeds, agree.superblockBlock_eq]
  rw [sweepVisits, seeds]
  apply Worklist.visit_congr
  intro address visited
  rw [sweepChildren, sweepChildren, agree.acceptedNode_eq parses visited]

theorem sweepReports_eq (agree : AgreeOnMetadata crates image other)
    (parses : ParsesSuperblock crates image sbBlock sb)
    (visited : logical ∈ sweepVisits crates image sb (auditMap crates image sb)) :
    sweepReports crates other sb (auditMap crates image sb) logical =
      sweepReports crates image sb (auditMap crates image sb) logical := by
  rw [sweepReports, sweepReports, agree.acceptedNode_eq parses visited]

theorem orphansAt_eq (agree : AgreeOnMetadata crates image other)
    (parses : ParsesSuperblock crates image sbBlock sb)
    (scanned : logical ∈ orphanRoots crates image sb (auditMap crates image sb)) :
    orphansAt crates other sb (auditMap crates image sb) logical =
      orphansAt crates image sb (auditMap crates image sb) logical := by
  have read : logical ∈ auditedAddresses crates image sb :=
    .tail _ (.tail _ (List.mem_append_right _ scanned))
  rw [orphansAt, orphansAt, agree.readNode_eq parses read]

end AgreeOnMetadata

/-- The audit depends on the superblock and on the tree nodes that it reads alone. -/
theorem auditImage_congr (agree : AgreeOnMetadata crates image other) :
    auditImage crates other = auditImage crates image := by
  cases block : superblockBlock image with
  | none => rw [auditImage, auditImage, agree.superblockBlock_eq, block]
  | some sbBlock =>
      cases parsed : Superblock.parse crates sbBlock with
      | error error =>
          rw [auditImage, auditImage, agree.superblockBlock_eq, block]
          simp only [parsed]
      | ok sb =>
          have parses : ParsesSuperblock crates image sbBlock sb := ⟨block, parsed⟩
          have swept := List.flatMap_congr fun logical (visited : logical ∈ _) =>
            agree.sweepReports_eq parses visited
          have scanned := List.flatMap_congr fun logical (member : logical ∈ _) =>
            agree.orphansAt_eq parses member
          have root : sb.root ∈ auditedAddresses crates image sb := List.mem_cons_self
          have chunkRoot : sb.chunkRoot ∈ auditedAddresses crates image sb :=
            .tail _ List.mem_cons_self
          rw [auditImage_eq parses, auditImage_eq (agree.parsesSuperblock parses),
            agree.auditMap_eq parses, agree.checkRootReachable_eq parses root,
            agree.checkRootReachable_eq parses chunkRoot, agree.sweepVisits_eq parses, swept,
            scanOrphans, scanOrphans, agree.orphanRoots_eq parses, scanned, agree.sameLength]

end Reading

/-! ## Formatted volumes -/

namespace Formatted

section Volume

variable {disk : Formatted} {crates : Crates} {encoding : Encoding} {start : Nat}
  {draft : Draft} {past : List Version} {logical devid phys : UInt64} {other : Bytes}

theorem IsNode.block_le (isNode : disk.IsNode logical)
    (target : nodePhysical (disk.sb crates) disk.map logical = some (devid, phys)) :
    phys.toNat + disk.nodesize.toNat ≤ disk.physical.toNat + disk.dataStart := by
  rcases isNode with ⟨index, node, found, rfl⟩
  have roomy := disk.roomy
  have inside := disk.node_inside found
  rcases disk.logicalToPhysical_place (show disk.nodesize.toNat * index < _ by omega) with
    ⟨own, mapped, position⟩
  rw [nodePhysical, address, mapped, Option.some_or] at target
  cases target
  rw [position, dataStart]
  omega

theorem walkReads_image :
    ChunkMap.walkReads crates (disk.image crates) (ChunkMap.boot (disk.sb crates))
        (disk.sb crates).nodesize.toNat 4096 [(disk.sb crates).chunkRoot] ChunkMap.new false =
      [disk.physical.toNat] := by
  rcases (disk.carries_image crates).exists_chunkNode with ⟨phys, position, known, read, long⟩
  rw [ChunkMap.walkReads_eq_of_leaf known read long (disk.isLeaf_chunkNode crates), position]

theorem Keeps.isNode_of_audited (keeps : disk.Keeps encoding start draft past)
    (read : logical ∈ auditedAddresses crates (disk.image crates) (disk.sb crates)) :
    disk.IsNode logical := by
  rcases disk.describes_sb crates with ⟨_, root, chunkRoot, _⟩
  rw [auditedAddresses, auditMap_image, root, chunkRoot] at read
  rcases List.mem_cons.mp read with rfl | read
  · exact ⟨1, _, rfl, rfl⟩
  · rcases List.mem_cons.mp read with rfl | read
    · exact ⟨0, _, rfl, rfl⟩
    · rcases List.mem_append.mp read with visited | scanned
      · rw [sweepVisits] at visited
        exact keeps.isNode_of_reaches (Worklist.reaches_of_mem_visit visited)
      · rw [mem_orphanRoots_iff (disk.parsesSuperblock crates).block] at scanned
        rcases keeps.fsTreeStart_iff.mp scanned with rfl | ⟨slot, version, found, rfl⟩
        · exact ⟨2, _, disk.nodes_current, rfl⟩
        · exact (keeps.isNode_of_slot found).2

/-- Whatever becomes of the data of a volume, its metadata is the same. -/
theorem Keeps.agreeOnMetadata (keeps : disk.Keeps encoding start draft past)
    (sameLength : (disk.image crates).length = other.length)
    (agree : AgreeOn (disk.image crates) other 0 (disk.physical.toNat + disk.dataStart)) :
    AgreeOnMetadata crates (disk.image crates) other where
  sameLength := sameLength
  superblock := by
    intro index lower upper
    have behind := disk.behind
    have stop : btrfsSuperInfoOffset.toNat + btrfsSuperInfoSize = 69632 := by decide
    exact agree index (Nat.zero_le _) (by omega)
  blocks := by
    intro sbBlock sb parses block member index lower upper
    have size := (disk.describes_sb crates).2.2.2.2.1
    rw [(parses.unique (disk.parsesSuperblock crates)).2] at member upper
    rw [auditedBlocks, walkReads_image, auditMap_image] at member
    apply agree index (Nat.zero_le _)
    rw [size] at upper
    rcases List.mem_append.mp member with walked | read
    · have room : disk.nodesize.toNat ≤ disk.dataStart := by
        rw [dataStart]
        exact Nat.le_mul_of_pos_right _ (by omega)
      rw [List.mem_singleton.mp walked] at upper
      omega
    · rcases List.mem_filterMap.mp read with ⟨logical, audited, translated⟩
      rcases Option.map_eq_some_iff.mp translated with ⟨⟨devid, phys⟩, target, rfl⟩
      have inside := (keeps.isNode_of_audited audited).block_le target
      dsimp only at upper
      omega

end Volume

end Formatted

/-! A volume of which a byte was overwritten: the data of `log` begins at `0x17000`, that
of `notes` at `0x17003`. -/

namespace Sample

def spoiled (position : Nat) : Bytes :=
  (history.image Crates.withoutCodecs).set position 0

theorem agreeOn_spoiled {position start stop : Nat} (outside : position < start ∨ stop ≤ position) :
    AgreeOn (history.image Crates.withoutCodecs) (spoiled position) start stop := by
  intro index lower upper
  rw [spoiled, List.getElem?_set_ne (by omega)]

theorem agreeOnMetadata_spoiled {position : Nat} (behind : 0x17000 ≤ position) :
    AgreeOnMetadata Crates.withoutCodecs (history.image Crates.withoutCodecs)
      (spoiled position) := by
  have start : history.physical.toNat + history.dataStart = 0x17000 := rfl
  have front : AgreeOn (history.image Crates.withoutCodecs) (spoiled position) 0
      (history.physical.toNat + history.dataStart) :=
    agreeOn_spoiled (.inr (Nat.le_trans (Nat.le_of_eq start) behind))
  exact keeps.agreeOnMetadata List.length_set.symm front

end Sample

theorem auditImage_congr_in_spoiled :
    auditImage Crates.withoutCodecs (Sample.spoiled 0x17000) =
      auditImage Crates.withoutCodecs (Sample.history.image Crates.withoutCodecs) :=
  auditImage_congr (Sample.agreeOnMetadata_spoiled (Nat.le_refl _))

end BtrfsForensic
