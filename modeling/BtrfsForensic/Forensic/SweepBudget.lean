import BtrfsForensic.Forensic.Evidence
import BtrfsForensic.Forensic.SweepCoverage
import BtrfsForensic.Forensic.SweepSoundness

namespace BtrfsForensic

/-! The budget of the sweep counts pops, not nodes: key-pointers to a node that
has been seen spend it too. -/

/-- Every address is in a finite set: there are 2^64 of them. -/
theorem exists_all_addresses : ∃ addresses : Finset UInt64, ∀ logical, logical ∈ addresses :=
  ⟨(Finset.range (2 ^ 64)).image UInt64.ofNat, fun logical =>
    Finset.mem_image.mpr ⟨logical.toNat, Finset.mem_range.mpr logical.toNat_lt,
      UInt64.ofNat_toNat⟩⟩

section Budget

variable {crates : Crates} {image sbBlock : Bytes} {sb : Superblock}
  {map : ChunkMap} {logical : UInt64}

theorem corrupt_reported_iff (parses : ParsesSuperblock crates image sbBlock sb)
    (corrupt : CorruptNode crates image sb (auditMap crates image sb) logical) :
    (∃ offset, Anomaly.new (.nodeCrcMismatch logical offset) ∈
        auditImage crates image) ↔
      logical ∈ sweepVisits crates image sb (auditMap crates image sb) := by
  simp only [nodeCrcMismatch_mem_auditImage_iff parses]
  constructor
  · intro parts
    rcases parts with ⟨_, visited, _⟩
    exact visited
  · intro visited
    exact ⟨_, visited, rfl, corrupt⟩

/-- Every reachable corrupt node is reported exactly when the search that the
sweep runs, continued without a budget, comes to each within 8192 pops. That is so
when the seeds and the key-pointers of all reachable nodes are no more than 8192. -/
theorem reachable_corrupt_reported_iff
    (parses : ParsesSuperblock crates image sbBlock sb) :
    ((∀ logical,
      Worklist.Reaches (sweepChildren crates image sb (auditMap crates image sb))
          (sweepSeeds image sb) logical →
        CorruptNode crates image sb (auditMap crates image sb) logical →
        ∃ offset, Anomaly.new (.nodeCrcMismatch logical offset) ∈
          auditImage crates image) ↔
      ∀ logical pops,
        Worklist.ComesTo (sweepChildren crates image sb (auditMap crates image sb))
            (sweepSeeds image sb) [] pops logical →
          CorruptNode crates image sb (auditMap crates image sb) logical →
          pops < sweepBudget) ∧
    ∀ addresses, SweepFits crates image sb (auditMap crates image sb) addresses →
      ∀ logical,
        Worklist.Reaches (sweepChildren crates image sb (auditMap crates image sb))
            (sweepSeeds image sb) logical →
          CorruptNode crates image sb (auditMap crates image sb) logical →
          ∃ offset, Anomaly.new (.nodeCrcMismatch logical offset) ∈
            auditImage crates image := by
  rcases exists_all_addresses with ⟨all, mem_all⟩
  have comes {logical : UInt64} :
      (∃ pops, Worklist.ComesTo
        (sweepChildren crates image sb (auditMap crates image sb))
          (sweepSeeds image sb) [] pops logical) ↔
        Worklist.Reaches (sweepChildren crates image sb (auditMap crates image sb))
          (sweepSeeds image sb) logical :=
    Worklist.exists_comesTo_iff_reaches (fun _ _ child _ => mem_all child)
      (fun seed _ => mem_all seed)
  constructor
  · constructor
    · intro reported logical pops comesTo corrupt
      have visited := (corrupt_reported_iff parses corrupt).mp
        (reported logical (comes.mp ⟨pops, comesTo⟩) corrupt)
      rcases Worklist.mem_visit_iff_comesTo.mp visited with ⟨_, inTime, again⟩
      rwa [comesTo.unique again]
    · intro inTime logical reaches corrupt
      rcases comes.mpr reaches with ⟨pops, comesTo⟩
      exact (corrupt_reported_iff parses corrupt).mpr
        (Worklist.mem_visit_iff_comesTo.mpr
          ⟨pops, inTime logical pops comesTo corrupt, comesTo⟩)
  · intro addresses fits logical reaches corrupt
    exact (corrupt_reported_iff parses corrupt).mpr
      ((Worklist.mem_visit_iff_reaches fits.closed fits.seeds fits.enough).mpr reaches)

end Budget

theorem sweepSeeds_loopVolume :
    sweepSeeds loopVolume.image loopVolume.sb = [0x100600, 0x100200, 0x100000, 0x100200] :=
  loopVolume.sweepSeeds_image

theorem sweepChildren_loopVolume {logical : UInt64}
    (member : logical = 0x100000 ∨ logical = 0x100200 ∨ logical = 0x100800) :
    sweepChildren Crates.withoutCodecs loopVolume.image loopVolume.sb Volume.map logical =
      [] := by
  rcases member with rfl | rfl | rfl
  · exact sweepChildren_of_isLeaf
      (Volume.readNode_image 0 0x12000 rfl (by decide) (by decide)) (by decide +kernel)
  · exact sweepChildren_of_isLeaf
      (Volume.readNode_image 1 0x12200 rfl (by decide) (by decide)) (by decide +kernel)
  · exact sweepChildren_of_isLeaf
      (Volume.readNode_image 4 0x12800 rfl (by decide) (by decide)) (by decide +kernel)

theorem sweepFits_loopVolume :
    SweepFits Crates.withoutCodecs loopVolume.image loopVolume.sb Volume.map
      {0x100000, 0x100200, 0x100600, 0x100800} where
  seeds := by
    intro logical member
    rw [sweepSeeds_loopVolume] at member
    simp only [List.mem_cons, List.not_mem_nil, or_false] at member
    rcases member with rfl | rfl | rfl | rfl <;> decide
  closed := by
    intro logical member child edge
    simp only [Finset.mem_insert, Finset.mem_singleton] at member
    rcases member with rfl | rfl | rfl | rfl
    · rw [sweepChildren_loopVolume (.inl rfl)] at edge
      cases edge
    · rw [sweepChildren_loopVolume (.inr (.inl rfl))] at edge
      cases edge
    · rw [sweepChildren_loopRoot] at edge
      simp only [List.mem_cons, List.not_mem_nil, or_false] at edge
      rcases edge with rfl | rfl | rfl <;> decide
    · rw [sweepChildren_loopVolume (.inr (.inr rfl))] at edge
      cases edge
  enough := by
    have few : ∀ logical ∈ ({0x100000, 0x100200, 0x100600, 0x100800} : Finset UInt64),
        (sweepChildren Crates.withoutCodecs loopVolume.image loopVolume.sb Volume.map
          logical).length ≤ 3 := by
      intro logical member
      simp only [Finset.mem_insert, Finset.mem_singleton] at member
      rcases member with rfl | rfl | rfl | rfl
      · rw [sweepChildren_loopVolume (.inl rfl)]
        decide
      · rw [sweepChildren_loopVolume (.inr (.inl rfl))]
        decide
      · rw [sweepChildren_loopRoot]
        decide
      · rw [sweepChildren_loopVolume (.inr (.inr rfl))]
        decide
    have card : ({0x100000, 0x100200, 0x100600, 0x100800} : Finset UInt64).card = 4 := by
      decide
    have seeds : (sweepSeeds loopVolume.image loopVolume.sb).length = 4 := by
      rw [sweepSeeds_loopVolume]
      rfl
    have budget : sweepBudget = 8192 := rfl
    have pointers : 4 • 3 = 12 := rfl
    have total := Finset.sum_le_card_nsmul _ _ 3 few
    rw [card, pointers] at total
    rw [seeds, budget]
    omega

/-- The corrupt leaf of the loop is reached twice over and popped in time. -/
theorem reachable_corrupt_reported_iff_in_loopVolume :
    Worklist.Reaches (sweepChildren Crates.withoutCodecs loopVolume.image loopVolume.sb
          (auditMap Crates.withoutCodecs loopVolume.image loopVolume.sb))
        (sweepSeeds loopVolume.image loopVolume.sb) 0x100800 ∧
      CorruptNode Crates.withoutCodecs loopVolume.image loopVolume.sb
        (auditMap Crates.withoutCodecs loopVolume.image loopVolume.sb) 0x100800 ∧
      (∃ offset, Anomaly.new (.nodeCrcMismatch 0x100800 offset) ∈
        auditImage Crates.withoutCodecs loopVolume.image) ∧
      ∀ logical pops,
        Worklist.ComesTo (sweepChildren Crates.withoutCodecs loopVolume.image
              loopVolume.sb
              (auditMap Crates.withoutCodecs loopVolume.image loopVolume.sb))
            (sweepSeeds loopVolume.image loopVolume.sb) [] pops logical →
          CorruptNode Crates.withoutCodecs loopVolume.image loopVolume.sb
            (auditMap Crates.withoutCodecs loopVolume.image loopVolume.sb) logical →
          pops < sweepBudget := by
  rcases reachable_corrupt_reported_iff loopVolume.parsesSuperblock with ⟨inTime, fitting⟩
  rw [Volume.auditMap_image] at inTime fitting ⊢
  have reported := fitting _ sweepFits_loopVolume
  have reaches : Worklist.Reaches
      (sweepChildren Crates.withoutCodecs loopVolume.image loopVolume.sb Volume.map)
      (sweepSeeds loopVolume.image loopVolume.sb) 0x100800 := by
    rw [sweepSeeds_loopVolume]
    refine ⟨0x100600, List.mem_cons_self, .single ?_⟩
    rw [sweepChildren_loopRoot]
    exact .tail _ List.mem_cons_self
  exact ⟨reaches, corruptNode_loopVolume, reported _ reaches corruptNode_loopVolume,
    inTime.mp reported⟩

/-! A root tree that names a corrupt leaf once and then itself 8200 times. -/

def crowdedChildren : List UInt64 := 0x200000 :: List.replicate 8200 0x180000

def crowdedRoot : Bytes :=
  Writer.interior 0x80000 ⟨Disk.fsid, 0x180000, 9, 1⟩ 1 crowdedChildren

def crowdedLeaf : Bytes :=
  Writer.missealed Crates.withoutCodecs
    (Writer.leaf 0x80000 ⟨Disk.fsid, 0x200000, 9, 1⟩ [])

theorem length_crowdedChildren : crowdedChildren.length = 8201 := by
  rw [crowdedChildren, List.length_cons, List.length_replicate]

theorem length_crowdedRoot : crowdedRoot.length = 0x80000 :=
  Writer.length_interior (by rw [length_crowdedChildren]; decide)

theorem length_unsealed_crowdedLeaf :
    (Writer.leaf 0x80000 ⟨Disk.fsid, 0x200000, 9, 1⟩ []).length = 0x80000 :=
  Writer.length_leaf_nil (by decide)

theorem length_crowdedLeaf : crowdedLeaf.length = 0x80000 := by
  rw [crowdedLeaf, Writer.missealed, Writer.length_withChecksum]
  · exact length_unsealed_crowdedLeaf
  · rw [length_unsealed_crowdedLeaf]
    decide

def crowded : Disk where
  length := 0x192000
  root := 0x180000
  nodesize := 0x80000
  blocks := [Disk.bareLeaf 0x80000, crowdedRoot, crowdedLeaf]
  magic := Disk.magic_writeSuperblock _ _
  describes := Disk.describes_writeSuperblock _ _
  sized := by
    have size : (0x80000 : UInt32).toNat = 0x80000 := by decide
    rw [size, List.forall_mem_cons, List.forall_mem_cons, List.forall_mem_singleton]
    exact ⟨Writer.length_leaf_nil (by decide), length_crowdedRoot, length_crowdedLeaf⟩
  fits := by decide
  short := by decide

theorem bare_crowded : crowded.Bare [crowdedRoot, crowdedLeaf] where
  blocks := rfl
  header := by decide
  blank := by
    rw [Disk.superblock, Disk.writeSuperblock, parseBackupRoots_written (by decide)]
    decide +kernel
  root := by decide

theorem readNode_crowdedRoot :
    readNode Crates.withoutCodecs crowded.image crowded.sb ChunkMap.new 0x180000 =
      .ok (Node.ofBlock Crates.withoutCodecs crowdedRoot) :=
  Disk.readNode_bare 1 0x92000 rfl (by rw [length_crowdedRoot]; decide) rfl rfl

theorem readNode_crowdedLeaf :
    readNode Crates.withoutCodecs crowded.image crowded.sb ChunkMap.new 0x200000 =
      .ok (Node.ofBlock Crates.withoutCodecs crowdedLeaf) :=
  Disk.readNode_bare 2 0x112000 rfl (by rw [length_crowdedLeaf]; decide) rfl rfl

/-- The header of the root survives the size of its block. -/
theorem namesItself_crowdedRoot :
    (Node.ofBlock Crates.withoutCodecs crowdedRoot).namesItself crowded.sb 0x180000 := by
  have few : crowdedChildren.length < 2 ^ 32 := by
    rw [length_crowdedChildren]
    decide
  have fsid : crowded.sb.fsid = Disk.fsid := crowded.describes.2.2.2.1
  rw [Node.namesItself, Node.ofBlock_header, fsid, crowdedRoot]
  exact ⟨(Writer.decode_interior few).2.1, (Writer.decode_interior few).1⟩

theorem decode_crowdedLeaf :
    (Header.decode crowdedLeaf).bytenr = 0x200000 ∧
      (Header.decode crowdedLeaf).fsid = Disk.fsid ∧
      (Header.decode crowdedLeaf).level = 0 := by
  have long : btrfsHeaderSize ≤
      (Writer.leaf 0x80000 ⟨Disk.fsid, 0x200000, 9, 1⟩ []).length := by
    rw [length_unsealed_crowdedLeaf]
    decide
  rw [crowdedLeaf, (Writer.decode_missealed long).1, (Writer.decode_missealed long).2.1,
    (Writer.decode_missealed long).2.2, Writer.decode_leaf_nil.1,
    Writer.decode_leaf_nil.2.1, Writer.decode_leaf_nil.2.2.2]
  exact ⟨rfl, rfl, rfl⟩

theorem isLeaf_crowdedLeaf :
    (Node.ofBlock Crates.withoutCodecs crowdedLeaf).isLeaf = true := by
  rw [Node.isLeaf, Node.ofBlock, Node.ofHeader]
  simp only [decode_crowdedLeaf.2.2, if_true]

theorem corruptNode_crowdedLeaf :
    CorruptNode Crates.withoutCodecs crowded.image crowded.sb ChunkMap.new
      0x200000 := by
  have fsid : crowded.sb.fsid = Disk.fsid := crowded.describes.2.2.2.1
  refine ⟨_, acceptedNode_eq_some_iff.mpr ⟨readNode_crowdedLeaf, ?_⟩,
    congrArg some (Writer.verify_missealed ?_)⟩
  · rw [Node.namesItself, Node.ofBlock_header, fsid]
    exact ⟨decode_crowdedLeaf.1, decode_crowdedLeaf.2.1⟩
  · rw [length_unsealed_crowdedLeaf]
    decide

theorem sweepChildren_crowdedRoot :
    sweepChildren Crates.withoutCodecs crowded.image crowded.sb ChunkMap.new
      0x180000 = crowdedChildren := by
  have accepted : acceptedNode Crates.withoutCodecs crowded.image crowded.sb
      ChunkMap.new 0x180000 = some (Node.ofBlock Crates.withoutCodecs crowdedRoot) :=
    acceptedNode_eq_some_iff.mpr ⟨readNode_crowdedRoot, namesItself_crowdedRoot⟩
  have children : (Node.ofBlock Crates.withoutCodecs crowdedRoot).keyPtrs.map
      KeyPtr.blockptr = crowdedChildren := by
    apply Writer.blockptrs_interior (by decide) (by decide)
    rw [length_crowdedChildren]
    decide
  rw [sweepChildren, accepted]
  simp only [children]
  rw [List.filter_eq_self]
  intro child member
  rw [crowdedChildren, List.mem_cons, List.mem_replicate] at member
  rcases member with rfl | ⟨_, rfl⟩
  · rfl
  · rfl

theorem sweepChildren_crowdedLeaf :
    sweepChildren Crates.withoutCodecs crowded.image crowded.sb ChunkMap.new
      0x200000 = [] :=
  sweepChildren_of_isLeaf readNode_crowdedLeaf isLeaf_crowdedLeaf

/-- The pointers to the root itself, which are popped first, use the budget up. -/
theorem sweepVisits_crowded :
    sweepVisits Crates.withoutCodecs crowded.image crowded.sb ChunkMap.new =
      [0x100000, 0x180000] := by
  have root : crowded.root = 0x180000 := rfl
  have popped : crowdedChildren.reverse =
      List.replicate 8200 0x180000 ++ [0x200000] := by
    rw [crowdedChildren, List.reverse_cons, List.reverse_replicate]
  rw [Disk.sweepVisits_bare bare_crowded, root, sweepChildren_crowdedRoot, popped,
    Worklist.visit_replicate_append List.mem_cons_self]
  rfl

/-- The corrupt leaf is reachable, with two other nodes, and goes unreported. -/
theorem reachable_corrupt_unreported :
    ParsesSuperblock Crates.withoutCodecs crowded.image crowded.superblock
        crowded.sb ∧
      (∃ addresses : Finset UInt64, addresses.card ≤ sweepBudget ∧
        ∀ logical,
          Worklist.Reaches (sweepChildren Crates.withoutCodecs crowded.image crowded.sb
              (auditMap Crates.withoutCodecs crowded.image crowded.sb))
            (sweepSeeds crowded.image crowded.sb) logical → logical ∈ addresses) ∧
      Worklist.Reaches (sweepChildren Crates.withoutCodecs crowded.image crowded.sb
          (auditMap Crates.withoutCodecs crowded.image crowded.sb))
        (sweepSeeds crowded.image crowded.sb) 0x200000 ∧
      CorruptNode Crates.withoutCodecs crowded.image crowded.sb
        (auditMap Crates.withoutCodecs crowded.image crowded.sb) 0x200000 ∧
      ∀ offset, Anomaly.new (.nodeCrcMismatch 0x200000 offset) ∉
        auditImage Crates.withoutCodecs crowded.image := by
  have seeds : sweepSeeds crowded.image crowded.sb = [0x100000, 0x180000] :=
    Disk.sweepSeeds_bare bare_crowded
  have chunkTree : sweepChildren Crates.withoutCodecs crowded.image crowded.sb
      ChunkMap.new 0x100000 = [] := Disk.sweepChildren_chunkTree bare_crowded
  rw [Disk.auditMap_bare bare_crowded, seeds]
  refine ⟨Disk.parsesSuperblock, ⟨{0x100000, 0x180000, 0x200000}, ?_, ?_⟩, ?_,
    corruptNode_crowdedLeaf, ?_⟩
  · decide
  · intro logical reaches
    apply reaches.of_closed (fun logical => logical ∈ _)
    · intro start member
      rcases List.mem_pair.mp member with rfl | rfl <;> decide
    · intro parent inside child edge
      simp only [Finset.mem_insert, Finset.mem_singleton] at inside
      rcases inside with rfl | rfl | rfl
      · rw [chunkTree] at edge
        cases edge
      · rw [sweepChildren_crowdedRoot, crowdedChildren, List.mem_cons,
          List.mem_replicate] at edge
        rcases edge with rfl | ⟨_, rfl⟩ <;> decide
      · rw [sweepChildren_crowdedLeaf] at edge
        cases edge
  · refine ⟨0x180000, List.mem_cons_of_mem _ List.mem_cons_self, .single ?_⟩
    rw [sweepChildren_crowdedRoot]
    exact List.mem_cons_self
  · intro offset reported
    have visited := ((nodeCrcMismatch_mem_auditImage_iff
      Disk.parsesSuperblock).mp reported).1
    rw [Disk.auditMap_bare bare_crowded, sweepVisits_crowded] at visited
    exact absurd visited (by decide)

end BtrfsForensic
