import BtrfsForensic.Foundation.ErrorDetection
import BtrfsForensic.Forensic.NodeTampering
import BtrfsForensic.Forensic.SuperblockCheck

namespace BtrfsForensic

/-! What the audit makes of flipped bits under the real checksum: a verified block in
which a noticeable set of covered bits is flipped no longer verifies, and the audit
reports it. -/

def coveredBytes (block : Bytes) (coveredLen : Nat) : Bytes :=
  (block.take coveredLen).drop btrfsCsumSize

section Block

variable {crates : Crates} {block edited : Bytes} {coveredLen : Nat}

theorem covers_of_verify
    (verified : verifySuperblockCrc32c crates block coveredLen = true) :
    btrfsCsumSize < coveredLen ∧ coveredLen ≤ block.length := by
  have covers : btrfsCsumSize < coveredLen := by
    by_contra empty
    rw [verifySuperblockCrc32c_of_le (Nat.le_of_not_lt empty)] at verified
    cases verified
  refine ⟨covers, ?_⟩
  by_contra beyond
  have missing : getRange block btrfsCsumSize coveredLen = none :=
    Option.not_isSome_iff_eq_none.mp fun found => beyond (getRange_isSome_iff.mp found).2
  rw [verifySuperblockCrc32c] at verified
  cases stored : getRange block 0 4 with
  | none =>
      rw [stored] at verified
      cases verified
  | some digest =>
      rw [stored] at verified
      simp only [missing, if_neg (Nat.not_le_of_lt covers)] at verified
      cases verified

theorem verify_of_flips (real : crates.crc32c = Crc32c.checksum)
    (verified : verifySuperblockCrc32c crates block coveredLen = true)
    (same : block.length = edited.length) (digest : AgreeOn block edited 0 4)
    (short : coveredLen < 2 ^ 28)
    (flipped : Crc32c.Noticeable (coveredBytes block coveredLen)
      (coveredBytes edited coveredLen)) :
    verifySuperblockCrc32c crates edited coveredLen = false := by
  have csumSize : btrfsCsumSize = 32 := rfl
  rcases covers_of_verify verified with ⟨covers, inside⟩
  have stored : block.take 4 = edited.take 4 := by
    apply List.ext_getElem?
    intro index
    by_cases low : index < 4
    · rw [List.getElem?_take_of_lt low, List.getElem?_take_of_lt low]
      exact digest index (Nat.zero_le index) low
    · rw [List.getElem?_take_eq_none (Nat.le_of_not_lt low),
        List.getElem?_take_eq_none (Nat.le_of_not_lt low)]
  have size (bytes : Bytes) (long : coveredLen ≤ bytes.length) :
      (coveredBytes bytes coveredLen).length = coveredLen - btrfsCsumSize := by
    rw [coveredBytes, List.length_drop, List.length_take, Nat.min_eq_left long]
  rw [← Bool.not_eq_true, verifySuperblockCrc32c_iff covers (same ▸ inside)]
  rw [verifySuperblockCrc32c_iff covers inside] at verified
  intro matching
  rw [DigestMatches, real] at verified matching
  rw [← stored, ← verified, leBytes32_inj] at matching
  refine Crc32c.checksum_ne_of_noticeable ?_ ?_ flipped matching.symm
  · rw [size block inside, size edited (same ▸ inside)]
  · rw [size block inside]
    omega

end Block

/-! ## The superblock -/

/-- The superblock of an image verifies as crc32c. In that of the other noticeable
bits are flipped among those that the checksum of the first covers, but none of the
digest, the magic, the sector size or the checksum type. -/
structure FlipsSuperblock (crates : Crates) (image other sbBlock edited : Bytes)
    (sb : Superblock) : Prop where
  parses : ParsesSuperblock crates image sbBlock sb
  verifies : sb.crcValid = some true
  block : superblockBlock other = some edited
  digest : AgreeOn sbBlock edited 0 4
  magic : AgreeOn sbBlock edited magicOffset (magicOffset + 8)
  sectorsize : AgreeOn sbBlock edited 0x90 (0x90 + 4)
  csumType : AgreeOn sbBlock edited 0xc4 (0xc4 + 2)
  flipped : Crc32c.Noticeable (coveredBytes sbBlock (Superblock.covered sbBlock))
    (coveredBytes edited (Superblock.covered sbBlock))

section Superblocks

variable {crates : Crates} {image other sbBlock edited : Bytes} {sb : Superblock}

/-- Only crc32c ever verifies. -/
theorem crc32c_of_status {csumType : CsumType} {block : Bytes} {coveredLen : Nat}
    (verified : superblockCrcStatus crates csumType block coveredLen = some true) :
    csumType = .crc32c ∧ verifySuperblockCrc32c crates block coveredLen = true := by
  cases csumType with
  | crc32c => exact ⟨rfl, Option.some.inj verified⟩
  | _ => cases verified

theorem flipped_superblock_reported (real : crates.crc32c = Crc32c.checksum)
    (flips : FlipsSuperblock crates image other sbBlock edited sb) :
    Anomaly.new (.superblockCrcMismatch btrfsSuperInfoOffset) ∈ auditImage crates other := by
  have width : btrfsSuperInfoSize = 4096 := rfl
  have size := length_of_superblockBlock flips.parses.block
  have editedSize := length_of_superblockBlock flips.block
  have magic : u8Array edited magicOffset 8 = btrfsMagic := by
    have field : magicOffset = 0x40 := rfl
    rw [← Superblock.magic_of_parse flips.parses.parsed, eq_comm,
      u8Array_eq_iff (by omega) (by omega)]
    exact flips.magic
  have parsed : Superblock.parse crates edited = .ok (Superblock.decode crates edited) := by
    apply Superblock.parse_eq_ok magic
    rw [editedSize]
    decide
  have sectorsize : leU32 edited 0x90 = leU32 sbBlock 0x90 := by
    rw [leU32, leU32, getRange_congr (editedSize.trans size.symm)
      fun index lower upper => (flips.sectorsize index lower upper).symm]
  have csumType : leU16 edited 0xc4 = leU16 sbBlock 0xc4 := by
    rw [eq_comm, leU16_eq_iff (by omega) (by omega)]
    exact flips.csumType
  have covered : Superblock.covered edited = Superblock.covered sbBlock := by
    rw [Superblock.covered, Superblock.covered, sectorsize, size, editedSize]
  have verified := flips.verifies
  rw [Superblock.eq_decode_of_parse flips.parses.parsed, Superblock.decode] at verified
  have crc32c := crc32c_of_status verified
  rw [superblockCrcMismatch_mem_auditImage_iff ⟨flips.block, parsed⟩]
  refine ⟨?_, rfl⟩
  have bound := (covers_of_verify crc32c.2).2
  simp only [Superblock.decode, csumType, crc32c.1, covered, superblockCrcStatus]
  rw [verify_of_flips real crc32c.2 (size.trans editedSize.symm) flips.digest (by omega)
    flips.flipped]

end Superblocks

theorem coveredBytes_set {block : Bytes} {coveredLen position : Nat} (value : UInt8)
    (covered : btrfsCsumSize ≤ position) :
    coveredBytes (block.set position value) coveredLen =
      (coveredBytes block coveredLen).set (position - btrfsCsumSize) value := by
  rw [coveredBytes, coveredBytes, List.take_set, List.drop_set,
    if_neg (Nat.not_lt_of_le covered)]

theorem getElem?_coveredBytes {block : Bytes} {coveredLen position : Nat} {value : UInt8}
    (covered : btrfsCsumSize ≤ position) (inside : position < coveredLen)
    (found : block[position]? = some value) :
    (coveredBytes block coveredLen)[position - btrfsCsumSize]? = some value := by
  rw [coveredBytes, List.getElem?_drop, Nat.add_sub_of_le covered,
    List.getElem?_take_of_lt inside, found]

/-! A superblock whose generation is set back. -/

def agedSuperblock : Bytes := genuineSuperblock.set 0x48 8

def agedImage : Bytes := Writer.image 69632 agedSuperblock []

theorem length_agedSuperblock : agedSuperblock.length = btrfsSuperInfoSize := by
  rw [agedSuperblock, List.length_set, length_genuineSuperblock]

theorem agreeOn_agedSuperblock {start stop : Nat} (elsewhere : stop ≤ 0x48 ∨ 0x49 ≤ start) :
    AgreeOn genuineSuperblock agedSuperblock start stop := by
  intro index lower upper
  rw [agedSuperblock, List.getElem?_set_ne]
  omega

theorem flipsSuperblock_aged :
    FlipsSuperblock Crates.withoutCodecs genuineImage agedImage genuineSuperblock
      agedSuperblock (Superblock.decode Crates.withoutCodecs genuineSuperblock) where
  parses := parsesSuperblock_genuine
  verifies := tampersSuperblock_relabelled.verifies
  block := superblockBlock_image length_agedSuperblock (Nat.le_refl _)
  digest := agreeOn_agedSuperblock (.inl (by decide))
  magic := agreeOn_agedSuperblock (.inl (by decide))
  sectorsize := agreeOn_agedSuperblock (.inr (by decide))
  csumType := agreeOn_agedSuperblock (.inr (by decide))
  flipped := by
    have stored : genuineSuperblock[0x48]? = some 9 := by decide +kernel
    rw [agedSuperblock, coveredBytes_set _ (by decide)]
    apply Crc32c.noticeable_set (getElem?_coveredBytes (by decide) _ stored) (by decide)
    rw [genuineSuperblock_fields.2.2]
    decide

theorem flipped_superblock_reported_in_aged :
    Anomaly.new (.superblockCrcMismatch btrfsSuperInfoOffset) ∈
      auditImage Crates.withoutCodecs agedImage :=
  flipped_superblock_reported rfl flipsSuperblock_aged

/-! ## A node -/

/-- The sweep comes to the node at `logical`, takes it for one and verifies it. In the
other image noticeable bits of its block are flipped, but none of the digest, the
`fsid` or the `bytenr`, and no other node that the sweep examines is touched. -/
structure FlipsNode (crates : Crates) (image other sbBlock block edited : Bytes)
    (sb : Superblock) (logical phys : UInt64) : Prop where
  parses : ParsesSuperblock crates image sbBlock sb
  visited : logical ∈ sweepVisits crates image sb (auditMap crates image sb)
  verified : ∃ node,
    acceptedNode crates image sb (auditMap crates image sb) logical = some node ∧
      node.crcValid = some true
  edits : EditsNode crates image other sb logical phys
  apart : NodesApart crates image sb logical phys
  original : getRange image phys.toNat (saturatingAdd phys.toNat sb.nodesize.toNat) =
    some block
  result : getRange other phys.toNat (saturatingAdd phys.toNat sb.nodesize.toNat) =
    some edited
  named : AgreeOn image other (phys.toNat + Hdr.fsid) (phys.toNat + Hdr.flags)
  flipped : Crc32c.Noticeable (block.drop btrfsCsumSize) (edited.drop btrfsCsumSize)
  small : sb.nodesize.toNat < 2 ^ 28

section Nodes

variable {crates : Crates} {image other sbBlock block edited : Bytes} {sb : Superblock}
  {logical phys : UInt64}

theorem flipped_node_reported (real : crates.crc32c = Crc32c.checksum)
    (flips : FlipsNode crates image other sbBlock block edited sb logical phys) :
    Anomaly.new (.nodeCrcMismatch logical
      (sweepOffset (auditMap crates other sb) logical)) ∈ auditImage crates other := by
  rcases flips.verified with ⟨node, accepted, valid⟩
  rcases flips.edits.located with ⟨devid, physical⟩
  rcases acceptedNode_eq_some_iff.mp accepted with ⟨read, names⟩
  rcases readNode_eq_ok_iff.mp read with ⟨_, _, found, target, range, long, rfl⟩
  rw [physical] at target
  cases target
  rw [flips.original] at range
  cases range
  have size := length_of_getRange flips.original
  have sizeEdited := length_of_getRange flips.result
  have same : block.length = edited.length := size.trans sizeEdited.symm
  have bound := saturatingAdd_le phys.toNat sb.nodesize.toNat
  have wide : btrfsCsumSize + 4 ≤ btrfsHeaderSize := by decide
  -- The edited block is still read at the address, under the old name.
  have readOther : readNode crates other sb (auditMap crates image sb) logical =
      .ok (Node.ofBlock crates edited) :=
    readNode_eq_ok_iff.mpr ⟨devid, phys, edited, physical, flips.result, same ▸ long, rfl⟩
  have namesOther : (Node.ofBlock crates edited).namesItself sb logical :=
    (flips.edits.namesItself_iff accepted readOther).mpr flips.named
  have digest : AgreeOn block edited 0 4 := by
    rw [agreeOn_getRange_iff flips.original flips.result (by omega)]
    intro index _ upper
    refine flips.edits.before index (Nat.zero_le index) (Nat.lt_of_lt_of_le upper ?_)
    exact Nat.add_le_add_left (by decide) _
  have invalid : (Node.ofBlock crates edited).crcValid = some false := by
    rw [Node.ofBlock_crcValid, Option.some.injEq] at valid
    rw [Node.ofBlock_crcValid, ← same]
    apply congrArg
    refine verify_of_flips real valid same digest (by have := flips.small; omega) ?_
    rw [coveredBytes, coveredBytes, List.take_length, same, List.take_length]
    exact flips.flipped
  rw [nodeCrcMismatch_mem_auditImage_iff (flips.edits.parsesSuperblock flips.parses),
    flips.edits.auditMap_eq]
  exact ⟨flips.edits.mem_sweepVisits flips.apart flips.parses flips.visited, rfl, _,
    acceptedNode_eq_some_iff.mpr ⟨readOther, namesOther⟩, invalid⟩

end Nodes

/-! The root tree leaf of the intact volume with three bits set behind its item. -/

def scratchedLeaf : Bytes := Volume.rootLeaf.set 200 7

def scratched : Volume := Volume.plain [scratchedLeaf] (by decide +kernel) (by decide)

theorem getElem?_scratched {index : Nat} (elsewhere : index ≠ 0x122c8) :
    intact.image[index]? = scratched.image[index]? := by
  refine Volume.getElem?_image_congr (Eq.refl (Volume.writeSuperblock 0 [])) fun reached => ?_
  have size : Volume.chunkLeaf.length = 512 :=
    intact.sized Volume.chunkLeaf List.mem_cons_self
  have edited : (Volume.chunkLeaf :: scratched.blocks).flatten =
      (Volume.chunkLeaf :: intact.blocks).flatten.set 0x2c8 7 := by
    change (Volume.chunkLeaf ++ (scratchedLeaf ++ [])) =
      (Volume.chunkLeaf ++ (Volume.rootLeaf ++ [])).set 0x2c8 7
    rw [List.append_nil, List.append_nil, List.set_append, if_neg (by omega), size]
    rfl
  replace reached : 0x12000 ≤ index := reached
  rw [edited, List.getElem?_set_ne]
  change 0x2c8 ≠ index - 0x12000
  omega

theorem editsNode_scratched :
    EditsNode Crates.withoutCodecs intact.image scratched.image intact.sb 0x100200
      0x12200 where
  sameLength := by rw [Volume.length_image, Volume.length_image]
  located := editsNode_renamed.located
  before := fun index _ upper => getElem?_scratched (by
    replace upper : index < 0x12200 + 0x20 := upper
    omega)
  after := fun index lower _ => getElem?_scratched (by
    rw [Volume.nodesize_sb] at lower
    replace lower : 0x12200 + 512 ≤ index := lower
    omega)
  superblockApart := editsNode_renamed.superblockApart
  chunkTreeApart := editsNode_renamed.chunkTreeApart

theorem flipsNode_scratched :
    FlipsNode Crates.withoutCodecs intact.image scratched.image intact.superblock
      Volume.rootLeaf scratchedLeaf intact.sb 0x100200 0x12200 where
  parses := intact.parsesSuperblock
  visited := by
    rw [Volume.auditMap_image]
    exact visited_intact
  verified := verified_intact
  edits := editsNode_scratched
  apart := nodesApart_intact
  original := by
    have second : (Volume.chunkLeaf :: intact.blocks)[1]? = some Volume.rootLeaf := rfl
    exact Volume.getRange_image_node second (by decide)
  result := by
    have second : (Volume.chunkLeaf :: scratched.blocks)[1]? = some scratchedLeaf := rfl
    have sameSb : scratched.sb = intact.sb := Eq.refl (Volume.readSuperblock 0 [])
    rw [← sameSb]
    exact Volume.getRange_image_node second (by decide)
  named := fun index _ upper => getElem?_scratched (by
    replace upper : index < 0x12200 + 0x38 := upper
    omega)
  flipped := by
    have stored : Volume.rootLeaf[200]? = some 0 := by decide +kernel
    have behind : (Volume.rootLeaf.drop btrfsCsumSize)[200 - btrfsCsumSize]? = some 0 := by
      rw [List.getElem?_drop]
      exact stored
    rw [scratchedLeaf, List.drop_set, if_neg (by decide)]
    exact Crc32c.noticeable_set behind (by decide)
  small := by
    rw [Volume.nodesize_sb]
    decide

theorem flipped_node_reported_in_scratched :
    Anomaly.new (.nodeCrcMismatch 0x100200
        (sweepOffset (auditMap Crates.withoutCodecs scratched.image intact.sb) 0x100200)) ∈
      auditImage Crates.withoutCodecs scratched.image :=
  flipped_node_reported rfl flipsNode_scratched

end BtrfsForensic
