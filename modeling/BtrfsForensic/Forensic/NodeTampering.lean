import BtrfsForensic.Forensic.Sweep
import BtrfsForensic.Forensic.Volume

namespace BtrfsForensic

/-! An edit of one metadata node that breaks its checksum: the sweep reports it
only when the edit leaves the `fsid` and the `bytenr` of the header alone. -/

/-! ## What the chunk walk reads -/

namespace ChunkMap

def walkReads (crates : Crates) (image : Bytes) (boot : ChunkMap)
    (nodesize : Nat) : (budget : Nat) → (stack : List UInt64) →
    (map : ChunkMap) → (bootstrappedRoot : Bool) → List Nat
  | _, [], _, _ => []
  | 0, _ :: _, _, _ => []
  | budget + 1, logical :: stack, map, bootstrappedRoot =>
      match (map.logicalToPhysical logical).or (boot.logicalToPhysical logical) with
      | none =>
          if !bootstrappedRoot then
            []
          else
            walkReads crates image boot nodesize budget stack map bootstrappedRoot
      | some (_, phys) =>
          phys.toNat ::
            match getRange image phys.toNat (saturatingAdd phys.toNat nodesize) with
            | none =>
                if map.entries.isEmpty then
                  []
                else
                  walkReads crates image boot nodesize budget stack map true
            | some block =>
                match Node.parse crates block with
                | .error _ =>
                    walkReads crates image boot nodesize budget stack map true
                | .ok node =>
                    if node.isLeaf then
                      walkReads crates image boot nodesize budget stack
                        (map.addFromNode node) true
                    else
                      walkReads crates image boot nodesize budget
                        ((node.keyPtrs.map KeyPtr.blockptr).reverse ++ stack) map
                        true

/-- The walk depends on the length of the image and on the blocks it reads. -/
theorem walkLoop_congr {crates : Crates} {image other : Bytes} {boot : ChunkMap}
    {nodesize : Nat} (sameLength : image.length = other.length) :
    ∀ {budget : Nat} {stack : List UInt64} {map : ChunkMap}
      {bootstrappedRoot : Bool},
      (∀ start ∈ walkReads crates image boot nodesize budget stack map
          bootstrappedRoot,
        getRange image start (saturatingAdd start nodesize) =
          getRange other start (saturatingAdd start nodesize)) →
      walkLoop crates image boot nodesize budget stack map bootstrappedRoot =
        walkLoop crates other boot nodesize budget stack map bootstrappedRoot
  | 0, [], _, _, _ => by rw [walkLoop, walkLoop]
  | 0, _ :: _, _, _, _ => by rw [walkLoop, walkLoop]
  | _ + 1, [], _, _, _ => by rw [walkLoop, walkLoop]
  | budget + 1, logical :: stack, map, bootstrappedRoot, same => by
      rw [walkReads] at same
      rw [walkLoop, walkLoop]
      cases target : (map.logicalToPhysical logical).or
          (boot.logicalToPhysical logical) with
      | none =>
          simp only [target] at same ⊢
          split
          case isTrue => rfl
          case isFalse bootstrapped =>
            rw [if_neg bootstrapped] at same
            exact walkLoop_congr sameLength same
      | some physical =>
          cases physical with
          | mk devid phys =>
              simp only [target] at same ⊢
              rw [← same phys.toNat List.mem_cons_self, ← sameLength]
              replace same := fun start member =>
                same start (List.mem_cons_of_mem _ member)
              cases found : getRange image phys.toNat
                  (saturatingAdd phys.toNat nodesize) with
              | none =>
                  simp only [found] at same ⊢
                  split
                  case isTrue => rfl
                  case isFalse known =>
                    rw [if_neg known] at same
                    exact walkLoop_congr sameLength same
              | some block =>
                  simp only [found] at same ⊢
                  cases parsed : Node.parse crates block with
                  | error error =>
                      simp only [parsed] at same ⊢
                      exact walkLoop_congr sameLength same
                  | ok node =>
                      simp only [parsed] at same ⊢
                      split
                      case isTrue leaf =>
                        rw [if_pos leaf] at same
                        exact walkLoop_congr sameLength same
                      case isFalse interior =>
                        rw [if_neg interior] at same
                        exact walkLoop_congr sameLength same

theorem walkReads_eq_of_leaf {crates : Crates} {image block : Bytes}
    {boot : ChunkMap} {nodesize budget : Nat} {logical devid phys : UInt64}
    (target : boot.logicalToPhysical logical = some (devid, phys))
    (found : getRange image phys.toNat (saturatingAdd phys.toNat nodesize) =
      some block)
    (long : btrfsHeaderSize ≤ block.length)
    (leaf : (Node.ofBlock crates block).isLeaf) :
    walkReads crates image boot nodesize (budget + 1) [logical] new false =
      [phys.toNat] := by
  have unmapped : new.logicalToPhysical logical = none := rfl
  have parsed : Node.parse crates block = .ok (Node.ofBlock crates block) :=
    Node.parse_eq_ok_iff.mpr ⟨long, rfl⟩
  rw [walkReads, unmapped, Option.none_or, target]
  simp only [found, parsed, leaf, if_true]
  rw [walkReads]

end ChunkMap

/-! ## Editing one node -/

def BlocksApart (first firstSize second secondSize : Nat) : Prop :=
  first + firstSize ≤ second ∨ second + secondSize ≤ first

/-- Two images of one length differ in the block of the node at `logical`,
behind its checksum field. The block is no part of the superblock or of the
chunk tree. -/
structure EditsNode (crates : Crates) (image other : Bytes) (sb : Superblock)
    (logical phys : UInt64) : Prop where
  sameLength : image.length = other.length
  located : ∃ devid,
    nodePhysical sb (auditMap crates image sb) logical = some (devid, phys)
  before : AgreeOn image other 0 (phys.toNat + btrfsCsumSize)
  after : AgreeOn image other (phys.toNat + sb.nodesize.toNat) image.length
  superblockApart : BlocksApart btrfsSuperInfoOffset.toNat btrfsSuperInfoSize
    phys.toNat sb.nodesize.toNat
  chunkTreeApart : ∀ start ∈ ChunkMap.walkReads crates image (ChunkMap.boot sb)
      sb.nodesize.toNat 4096 [sb.chunkRoot] ChunkMap.new false,
    BlocksApart start sb.nodesize.toNat phys.toNat sb.nodesize.toNat

/-- The other nodes that the sweep examines lie elsewhere: the block is no part
of them, under another logical address. -/
def NodesApart (crates : Crates) (image : Bytes) (sb : Superblock)
    (logical phys : UInt64) : Prop :=
  ∀ address ∈ sweepVisits crates image sb (auditMap crates image sb),
    address ≠ logical → ∀ devid start,
      nodePhysical sb (auditMap crates image sb) address = some (devid, start) →
      BlocksApart start.toNat sb.nodesize.toNat phys.toNat sb.nodesize.toNat

namespace EditsNode

variable {crates : Crates} {image other sbBlock : Bytes} {sb : Superblock}
  {logical phys : UInt64}

theorem getRange_eq (edits : EditsNode crates image other sb logical phys)
    {start size : Nat} (apart : BlocksApart start size phys.toNat sb.nodesize.toNat) :
    getRange image start (saturatingAdd start size) =
      getRange other start (saturatingAdd start size) := by
  refine getRange_congr edits.sameLength fun index lower upper => ?_
  have bound := saturatingAdd_le start size
  by_cases inside : index < image.length
  · rcases apart with earlier | later
    · exact edits.before index (Nat.zero_le _) (by omega)
    · exact edits.after index (by omega) inside
  · rw [List.getElem?_eq_none (by omega),
      List.getElem?_eq_none (by rw [← edits.sameLength]; omega)]

theorem parsesSuperblock (edits : EditsNode crates image other sb logical phys)
    (parses : ParsesSuperblock crates image sbBlock sb) :
    ParsesSuperblock crates other sbBlock sb where
  block := by
    rw [← parses.block, superblockBlock, superblockBlock]
    exact (edits.getRange_eq edits.superblockApart).symm
  parsed := parses.parsed

theorem auditMap_eq (edits : EditsNode crates image other sb logical phys) :
    auditMap crates other sb = auditMap crates image sb := by
  have walked : ChunkMap.walk crates image sb = ChunkMap.walk crates other sb :=
    ChunkMap.walkLoop_congr edits.sameLength fun start member =>
      edits.getRange_eq (edits.chunkTreeApart start member)
  rw [auditMap, auditMap, walked]

theorem readNode_eq (edits : EditsNode crates image other sb logical phys)
    (nodesApart : NodesApart crates image sb logical phys) {address : UInt64}
    (visited : address ∈ sweepVisits crates image sb (auditMap crates image sb))
    (elsewhere : address ≠ logical) :
    readNode crates image sb (auditMap crates image sb) address =
      readNode crates other sb (auditMap crates image sb) address := by
  rw [readNode, readNode]
  cases target : nodePhysical sb (auditMap crates image sb) address with
  | none => rfl
  | some physical =>
      cases physical with
      | mk devid start =>
          have apart := nodesApart address visited elsewhere devid start target
          simp only [edits.getRange_eq apart, edits.sameLength]

/-- The sweep of the edited image still comes to the node, when no other node
was edited with it. -/
theorem mem_sweepVisits (edits : EditsNode crates image other sb logical phys)
    (nodesApart : NodesApart crates image sb logical phys)
    (parses : ParsesSuperblock crates image sbBlock sb)
    (visited : logical ∈ sweepVisits crates image sb (auditMap crates image sb)) :
    logical ∈ sweepVisits crates other sb (auditMap crates image sb) := by
  have seeds : sweepSeeds other sb = sweepSeeds image sb := by
    rw [sweepSeeds, sweepSeeds, parses.block,
      (edits.parsesSuperblock parses).block]
  rw [sweepVisits, seeds]
  refine Worklist.mem_visit_of_agree (fun address member elsewhere => ?_) visited
  rw [sweepChildren, sweepChildren, acceptedNode, acceptedNode,
    edits.readNode_eq nodesApart member elsewhere]

theorem namesItself_iff (edits : EditsNode crates image other sb logical phys)
    {node edited : Node}
    (accepted : acceptedNode crates image sb (auditMap crates image sb) logical =
      some node)
    (read : readNode crates other sb (auditMap crates image sb) logical =
      .ok edited) :
    edited.namesItself sb logical ↔
      AgreeOn image other (phys.toNat + Hdr.fsid) (phys.toNat + Hdr.flags) := by
  rcases edits.located with ⟨_, physical⟩
  rcases acceptedNode_eq_some_iff.mp accepted with ⟨original, names⟩
  rcases readNode_eq_ok_iff.mp original with
    ⟨_, _, block, target, found, long, rfl⟩
  rw [physical] at target
  cases target
  rcases readNode_eq_ok_iff.mp read with
    ⟨_, _, editedBlock, target, editedFound, editedLong, rfl⟩
  rw [physical] at target
  cases target
  have size := length_of_getRange found
  have left : 101 ≤ block.length := long
  have right : 101 ≤ editedBlock.length := editedLong
  have cut : AgreeOn block editedBlock Hdr.fsid Hdr.flags ↔
      AgreeOn block editedBlock Hdr.fsid (Hdr.fsid + 16) ∧
        AgreeOn block editedBlock Hdr.bytenr (Hdr.bytenr + 8) :=
    agreeOn_append_iff (by decide) (by decide)
  have bytenr : Hdr.bytenr + 8 ≤ 101 := by decide
  have fsid : Hdr.fsid + 16 ≤ 101 := by decide
  have flags : Hdr.flags ≤ 101 := by decide
  rw [Node.namesItself, ← names.1, ← names.2,
    ← agreeOn_getRange_iff found editedFound (by omega), cut]
  simp only [Node.ofBlock_header, Header.decode]
  rw [eq_comm, leU64_eq_iff (bytenr.trans left) (bytenr.trans right),
    eq_comm (a := u8Array editedBlock _ _),
    u8Array_eq_iff (fsid.trans left) (fsid.trans right)]
  exact and_comm

end EditsNode

section Tampering

variable {crates : Crates} {image other sbBlock : Bytes} {sb : Superblock}
  {logical phys : UInt64}

/-- A node that the sweep examines, takes for one and verifies is edited so that
it no longer verifies. The audit of the edited image reports it exactly when the
edit keeps the header's `fsid` and `bytenr` and the sweep still comes to it,
which it does when no other node was edited with it. -/
theorem edited_node_reported_iff
    (parses : ParsesSuperblock crates image sbBlock sb)
    (edits : EditsNode crates image other sb logical phys)
    (visited : logical ∈ sweepVisits crates image sb (auditMap crates image sb))
    (verified : ∃ node,
      acceptedNode crates image sb (auditMap crates image sb) logical = some node ∧
        node.crcValid = some true)
    (broken : ∃ node,
      readNode crates other sb (auditMap crates other sb) logical = .ok node ∧
        node.crcValid = some false) :
    ((∃ offset, Anomaly.new (.nodeCrcMismatch logical offset) ∈
        auditImage crates other) ↔
      AgreeOn image other (phys.toNat + Hdr.fsid) (phys.toNat + Hdr.flags) ∧
        logical ∈ sweepVisits crates other sb (auditMap crates other sb)) ∧
    (NodesApart crates image sb logical phys →
      ((∃ offset, Anomaly.new (.nodeCrcMismatch logical offset) ∈
          auditImage crates other) ↔
        AgreeOn image other (phys.toNat + Hdr.fsid) (phys.toNat + Hdr.flags))) := by
  rcases verified with ⟨node, accepted, _⟩
  rcases broken with ⟨edited, read, invalid⟩
  rw [edits.auditMap_eq] at read ⊢
  have reported : (∃ offset, Anomaly.new (.nodeCrcMismatch logical offset) ∈
        auditImage crates other) ↔
      AgreeOn image other (phys.toNat + Hdr.fsid) (phys.toNat + Hdr.flags) ∧
        logical ∈ sweepVisits crates other sb (auditMap crates image sb) := by
    simp only [nodeCrcMismatch_mem_auditImage_iff (edits.parsesSuperblock parses),
      edits.auditMap_eq, ← edits.namesItself_iff accepted read]
    constructor
    · intro parts
      rcases parts with ⟨_, again, _, found, taken, _⟩
      rcases acceptedNode_eq_some_iff.mp taken with ⟨same, names⟩
      rw [read] at same
      cases same
      exact ⟨names, again⟩
    · intro both
      exact ⟨_, both.2, rfl, edited,
        acceptedNode_eq_some_iff.mpr ⟨read, both.1⟩, invalid⟩
  refine ⟨reported, fun nodesApart => reported.trans ?_⟩
  exact and_iff_left (edits.mem_sweepVisits nodesApart parses visited)

end Tampering

theorem Volume.walkReads_image (volume : Volume) :
    ChunkMap.walkReads Crates.withoutCodecs volume.image (ChunkMap.boot volume.sb)
      volume.sb.nodesize.toNat 4096 [volume.sb.chunkRoot] ChunkMap.new false =
        [0x12000] := by
  have first : (Volume.chunkLeaf :: volume.blocks)[0]? = some Volume.chunkLeaf := rfl
  exact ChunkMap.walkReads_eq_of_leaf volume.boot_chunkRoot
    (getRange_image_node first rfl) (header_fits first) chunkLeaf_chunkItems.1

/-! A root tree leaf whose `bytenr` is edited: it then names another address. -/

def intact : Volume :=
  Volume.plain [Volume.rootLeaf] (by decide +kernel) (by decide)

def renamedLeaf : Bytes := Volume.rootLeaf.set 0x30 1

def renamed : Volume := Volume.plain [renamedLeaf] (by decide +kernel) (by decide)

theorem getElem?_renamed {index : Nat} (elsewhere : index ≠ 0x12230) :
    intact.image[index]? = renamed.image[index]? := by
  refine Volume.getElem?_image_congr rfl fun reached => ?_
  have size : Volume.chunkLeaf.length = 512 :=
    intact.sized Volume.chunkLeaf List.mem_cons_self
  have edited : (Volume.chunkLeaf :: renamed.blocks).flatten =
      (Volume.chunkLeaf :: intact.blocks).flatten.set 0x230 1 := by
    change (Volume.chunkLeaf ++ (renamedLeaf ++ [])) =
      (Volume.chunkLeaf ++ (Volume.rootLeaf ++ [])).set 0x230 1
    rw [List.append_nil, List.append_nil, List.set_append, if_neg (by omega), size]
    rfl
  replace reached : 0x12000 ≤ index := reached
  rw [edited, List.getElem?_set_ne]
  change 0x230 ≠ index - 0x12000
  omega

theorem visited_intact :
    0x100200 ∈ sweepVisits Crates.withoutCodecs intact.image intact.sb Volume.map := by
  rw [intact.sweepVisits_image rfl rfl Volume.rootLeaf_leafItems.1]
  decide

theorem editsNode_renamed :
    EditsNode Crates.withoutCodecs intact.image renamed.image intact.sb 0x100200
      0x12200 where
  sameLength := by rw [Volume.length_image, Volume.length_image]
  located := by
    rw [Volume.auditMap_image]
    exact ⟨1, by rw [nodePhysical]; decide⟩
  before := fun index _ upper => getElem?_renamed (by
    replace upper : index < 0x12200 + 0x20 := upper
    omega)
  after := fun index lower _ => getElem?_renamed (by
    rw [Volume.nodesize_sb] at lower
    replace lower : 0x12200 + 512 ≤ index := lower
    omega)
  superblockApart := by
    rw [Volume.nodesize_sb]
    exact .inl (by decide)
  chunkTreeApart := by
    intro start member
    rw [Volume.walkReads_image] at member
    rw [List.mem_singleton.mp member, Volume.nodesize_sb]
    exact .inl (by decide)

theorem nodesApart_intact :
    NodesApart Crates.withoutCodecs intact.image intact.sb 0x100200 0x12200 := by
  intro address visited elsewhere devid start target
  rw [Volume.auditMap_image] at visited target
  rw [intact.sweepVisits_image rfl rfl Volume.rootLeaf_leafItems.1] at visited
  rcases List.mem_cons.mp visited with rfl | visited
  · have chunkLeaf : Volume.map.logicalToPhysical 0x100000 = some (1, 0x12000) := by
      decide
    rw [nodePhysical, chunkLeaf, Option.some_or] at target
    cases target
    rw [Volume.nodesize_sb]
    exact .inl (by decide)
  · exact absurd (List.mem_singleton.mp visited) elsewhere

theorem verified_intact :
    ∃ node, acceptedNode Crates.withoutCodecs intact.image intact.sb
        (auditMap Crates.withoutCodecs intact.image intact.sb) 0x100200 = some node ∧
      node.crcValid = some true := by
  rw [Volume.auditMap_image]
  exact ⟨_, acceptedNode_eq_some_iff.mpr
    ⟨Volume.readNode_image 1 0x12200 rfl (by decide) (by decide), by decide +kernel⟩,
    congrArg some (Writer.verify_sealed (by decide +kernel))⟩

theorem readNode_renamed :
    readNode Crates.withoutCodecs renamed.image renamed.sb Volume.map 0x100200 =
      .ok (Node.ofBlock Crates.withoutCodecs renamedLeaf) :=
  Volume.readNode_image 1 0x12200 rfl (by decide) (by decide)

/-- The edit is one byte, so the real checksum notices it. -/
theorem verify_renamedLeaf :
    verifySuperblockCrc32c Crates.withoutCodecs renamedLeaf renamedLeaf.length =
      false := by
  have original : (Volume.unsealedLeaf 0x100200 1 9
      [(⟨fsTreeObjectid, rootItemKey, 0⟩,
        overlay 239 0 [(RootOff.bytenr, encodeLE 8 0x100400)])])[0x30]? = some 0 := by
    decide +kernel
  exact Writer.verify_sealed_set rfl (by decide +kernel) (by decide) original
    (by decide)

theorem broken_renamed :
    ∃ node, readNode Crates.withoutCodecs renamed.image intact.sb
        (auditMap Crates.withoutCodecs renamed.image intact.sb) 0x100200 = .ok node ∧
      node.crcValid = some false :=
  ⟨_, by rw [editsNode_renamed.auditMap_eq, Volume.auditMap_image]
         exact readNode_renamed,
    congrArg some verify_renamedLeaf⟩

/-- The renamed node drops out of the sweep, so its broken checksum goes
unreported. -/
theorem edited_node_unreported :
    ParsesSuperblock Crates.withoutCodecs intact.image intact.superblock intact.sb ∧
      EditsNode Crates.withoutCodecs intact.image renamed.image intact.sb 0x100200
        0x12200 ∧
      NodesApart Crates.withoutCodecs intact.image intact.sb 0x100200 0x12200 ∧
      (0x100200 ∈ sweepVisits Crates.withoutCodecs intact.image intact.sb
          (auditMap Crates.withoutCodecs intact.image intact.sb) ∧
        ∃ node, acceptedNode Crates.withoutCodecs intact.image intact.sb
            (auditMap Crates.withoutCodecs intact.image intact.sb) 0x100200 =
              some node ∧ node.crcValid = some true) ∧
      (∃ node, readNode Crates.withoutCodecs renamed.image intact.sb
          (auditMap Crates.withoutCodecs renamed.image intact.sb) 0x100200 =
            .ok node ∧ node.crcValid = some false) ∧
      ∀ offset, Anomaly.new (.nodeCrcMismatch 0x100200 offset) ∉
        auditImage Crates.withoutCodecs renamed.image := by
  refine ⟨intact.parsesSuperblock, editsNode_renamed, nodesApart_intact,
    ⟨by rw [Volume.auditMap_image]; exact visited_intact, verified_intact⟩,
    broken_renamed, ?_⟩
  intro offset reported
  rcases ((nodeCrcMismatch_mem_auditImage_iff renamed.parsesSuperblock).mp
    reported).2.2 with ⟨node, accepted, _⟩
  rcases acceptedNode_eq_some_iff.mp accepted with ⟨read, names⟩
  rw [Volume.auditMap_image, readNode_renamed] at read
  cases read
  have renamedBytenr : (Node.ofBlock Crates.withoutCodecs renamedLeaf).header.bytenr =
      0x100201 := by decide +kernel
  rw [Node.namesItself, renamedBytenr] at names
  exact absurd names.1 (by decide)

theorem edited_node_reported_iff_in_renamed :
    (∃ offset, Anomaly.new (.nodeCrcMismatch 0x100200 offset) ∈
        auditImage Crates.withoutCodecs renamed.image) ↔
      AgreeOn intact.image renamed.image ((0x12200 : UInt64).toNat + Hdr.fsid)
        ((0x12200 : UInt64).toNat + Hdr.flags) :=
  (edited_node_reported_iff intact.parsesSuperblock editsNode_renamed
    (by rw [Volume.auditMap_image]; exact visited_intact) verified_intact
    broken_renamed).2 nodesApart_intact

end BtrfsForensic
