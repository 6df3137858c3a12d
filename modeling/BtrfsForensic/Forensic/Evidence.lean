import BtrfsForensic.Forensic.BareDisk

namespace BtrfsForensic

/-! Where a node mismatch says that the corrupt node lies. The node is read
through the chunk map or else the `sys_chunk_array`; the offset is the chunk map's
translation or else the logical address. -/

/-- The sweep takes the block for a node and finds its checksum wrong. -/
def CorruptNode (crates : Crates) (image : Bytes) (sb : Superblock) (map : ChunkMap)
    (logical : UInt64) : Prop :=
  ∃ node, acceptedNode crates image sb map logical = some node ∧
    node.crcValid = some false

/-- The `nodesize` bytes at an offset exist, name the node and fail its
checksum. -/
def HoldsFailedBlock (crates : Crates) (image : Bytes) (sb : Superblock)
    (bytenr offset : UInt64) : Prop :=
  ∃ block,
    getRange image offset.toNat (offset.toNat + sb.nodesize.toNat) = some block ∧
      leU64 block Hdr.bytenr = bytenr ∧
      verifySuperblockCrc32c crates block block.length = false

section Evidence

variable {crates : Crates} {image sbBlock : Bytes} {sb : Superblock}
  {map : ChunkMap} {logical : UInt64}

theorem holdsFailedBlock_of_corrupt (bounded : image.length < usizeMax)
    (corrupt : CorruptNode crates image sb map logical) {devid phys : UInt64}
    (target : nodePhysical sb map logical = some (devid, phys)) :
    HoldsFailedBlock crates image sb logical phys := by
  rcases corrupt with ⟨node, accepted, invalid⟩
  rcases acceptedNode_eq_some_iff.mp accepted with ⟨read, names⟩
  rcases readNode_eq_ok_iff.mp read with ⟨_, _, block, again, found, _, rfl⟩
  rw [target] at again
  cases again
  exact ⟨block, (getRange_saturating bounded).mp found, names.1,
    Option.some.inj invalid⟩

/-- What holds of a mapped node at its translation holds of every mismatch exactly
when it holds of every unmapped node at its logical address. -/
theorem forall_mismatch_iff (parses : ParsesSuperblock crates image sbBlock sb)
    (holds : UInt64 → UInt64 → Prop)
    (mapped : ∀ logical devid phys,
      CorruptNode crates image sb (auditMap crates image sb) logical →
      (auditMap crates image sb).logicalToPhysical logical = some (devid, phys) →
      holds logical phys) :
    (∀ bytenr offset,
      Anomaly.new (.nodeCrcMismatch bytenr offset) ∈ auditImage crates image →
        holds bytenr offset) ↔
      ∀ logical ∈ sweepVisits crates image sb (auditMap crates image sb),
        CorruptNode crates image sb (auditMap crates image sb) logical →
        (auditMap crates image sb).logicalToPhysical logical = none →
        holds logical logical := by
  simp only [nodeCrcMismatch_mem_auditImage_iff parses]
  constructor
  · intro located logical visited corrupt unmapped
    apply located
    refine ⟨visited, ?_, corrupt⟩
    rw [sweepOffset, unmapped]
  · intro located bytenr offset parts
    rcases parts with ⟨visited, rfl, corrupt⟩
    rw [sweepOffset]
    cases target : (auditMap crates image sb).logicalToPhysical bytenr with
    | none => exact located bytenr visited corrupt target
    | some physical =>
        cases physical with
        | mk devid phys => exact mapped bytenr devid phys corrupt target

/-- Every mismatch names a place that holds the block that failed exactly when
the logical address of every corrupt node that the chunk map does not translate
is such a place. It names the place the node was read from exactly when the
`sys_chunk_array` puts each of these nodes at its logical address. -/
theorem mismatch_offset_iff (parses : ParsesSuperblock crates image sbBlock sb)
    (bounded : image.length < usizeMax) :
    ((∀ bytenr offset,
      Anomaly.new (.nodeCrcMismatch bytenr offset) ∈ auditImage crates image →
        HoldsFailedBlock crates image sb bytenr offset) ↔
      ∀ logical ∈ sweepVisits crates image sb (auditMap crates image sb),
        CorruptNode crates image sb (auditMap crates image sb) logical →
        (auditMap crates image sb).logicalToPhysical logical = none →
        HoldsFailedBlock crates image sb logical logical) ∧
    ((∀ bytenr offset,
      Anomaly.new (.nodeCrcMismatch bytenr offset) ∈ auditImage crates image →
        ∃ devid, nodePhysical sb (auditMap crates image sb) bytenr =
          some (devid, offset)) ↔
      ∀ logical ∈ sweepVisits crates image sb (auditMap crates image sb),
        CorruptNode crates image sb (auditMap crates image sb) logical →
        (auditMap crates image sb).logicalToPhysical logical = none →
        ∃ devid, fallbackPhysical sb.sysChunks logical = some (devid, logical)) := by
  have atTarget {logical devid phys : UInt64}
      (mapped : (auditMap crates image sb).logicalToPhysical logical =
        some (devid, phys)) :
      nodePhysical sb (auditMap crates image sb) logical = some (devid, phys) := by
    rw [nodePhysical, mapped, Option.some_or]
  constructor
  · apply forall_mismatch_iff parses
    intro logical devid phys corrupt mapped
    exact holdsFailedBlock_of_corrupt bounded corrupt (atTarget mapped)
  · rw [forall_mismatch_iff parses fun logical offset => ∃ devid,
      nodePhysical sb (auditMap crates image sb) logical = some (devid, offset)]
    · apply forall_congr'
      intro logical
      apply imp_congr_right
      intro _
      apply imp_congr_right
      intro _
      apply imp_congr_right
      intro unmapped
      rw [nodePhysical_eq, unmapped, Option.none_or]
    · intro logical devid phys _ mapped
      exact ⟨devid, atTarget mapped⟩

end Evidence

/-! A disk whose corrupt root tree is read through the `sys_chunk_array`. -/

def corruptBareRoot : Bytes :=
  Writer.missealed Crates.withoutCodecs
    (Writer.leaf 512 ⟨Disk.fsid, 0x100200, 9, 1⟩ [])

def bare : Disk where
  length := 0x14000
  root := 0x100200
  nodesize := 512
  blocks := [Disk.bareLeaf 512, corruptBareRoot]
  magic := Disk.magic_writeSuperblock _ _
  describes := Disk.describes_writeSuperblock _ _
  sized := by decide +kernel
  fits := by decide +kernel
  short := Disk.small_short

theorem bare_bare : bare.Bare [corruptBareRoot] where
  blocks := rfl
  header := by decide
  blank := by
    rw [Disk.superblock, Disk.writeSuperblock, parseBackupRoots_written (by decide)]
    decide +kernel
  root := by decide

theorem length_image_bare : bare.image.length = 0x14000 := bare.length_image

theorem corruptNode_bare :
    CorruptNode Crates.withoutCodecs bare.image bare.sb
      (auditMap Crates.withoutCodecs bare.image bare.sb) 0x100200 := by
  rw [Disk.auditMap_bare bare_bare]
  refine ⟨_, acceptedNode_eq_some_iff.mpr
    ⟨Disk.readNode_bare 1 0x12200 rfl (by decide +kernel) rfl rfl, ?_⟩,
    congrArg some (Writer.verify_missealed (by decide +kernel))⟩
  decide +kernel

theorem visited_bare :
    0x100200 ∈ sweepVisits Crates.withoutCodecs bare.image bare.sb
      (auditMap Crates.withoutCodecs bare.image bare.sb) := by
  rw [Disk.auditMap_bare bare_bare, Disk.sweepVisits_bare bare_bare]
  exact List.mem_cons_of_mem _ List.mem_cons_self

theorem mismatch_offset_iff_in_bare :
    (∀ bytenr offset,
      Anomaly.new (.nodeCrcMismatch bytenr offset) ∈
          auditImage Crates.withoutCodecs bare.image →
        HoldsFailedBlock Crates.withoutCodecs bare.image bare.sb bytenr offset) ↔
      ∀ logical ∈ sweepVisits Crates.withoutCodecs bare.image bare.sb
          (auditMap Crates.withoutCodecs bare.image bare.sb),
        CorruptNode Crates.withoutCodecs bare.image bare.sb
          (auditMap Crates.withoutCodecs bare.image bare.sb) logical →
        (auditMap Crates.withoutCodecs bare.image bare.sb).logicalToPhysical logical =
          none →
        HoldsFailedBlock Crates.withoutCodecs bare.image bare.sb logical logical :=
  (mismatch_offset_iff Disk.parsesSuperblock
    (by rw [length_image_bare]; decide)).1

/-- The mismatch is reported at a byte past the end of the image. -/
theorem mismatch_offset_outside :
    ParsesSuperblock Crates.withoutCodecs bare.image bare.superblock bare.sb ∧
      Anomaly.new (.nodeCrcMismatch 0x100200 0x100200) ∈
        auditImage Crates.withoutCodecs bare.image ∧
      ¬HoldsFailedBlock Crates.withoutCodecs bare.image bare.sb 0x100200 0x100200 := by
  have unmapped : (auditMap Crates.withoutCodecs bare.image bare.sb).logicalToPhysical
      0x100200 = none := by
    rw [Disk.auditMap_bare bare_bare]
    rfl
  refine ⟨Disk.parsesSuperblock, ?_, fun holds => ?_⟩
  · rw [nodeCrcMismatch_mem_auditImage_iff Disk.parsesSuperblock]
    exact ⟨visited_bare, by rw [sweepOffset, unmapped], corruptNode_bare⟩
  · rcases holds with ⟨block, found, _⟩
    have inside := stop_le_of_getRange found
    have offset : (0x100200 : UInt64).toNat = 0x100200 := by decide
    rw [length_image_bare, offset] at inside
    omega

end BtrfsForensic
