import BtrfsForensic.Forensic.CleanImage
import BtrfsForensic.Forensic.History

namespace BtrfsForensic

/-! The audit of a volume as it was formatted, past versions included: it reports the
orphans that the versions name, and nothing else but addresses past the end of the
image. -/

/-- The slots whose root tree lies at a logical address past the end of the image. -/
def pastEnd (disk : Formatted) (past : List Version) : List Anomaly :=
  (past.zipIdx.filter fun entry => disk.length ≤ (disk.slotOf entry).treeRoot.toNat).map
    fun entry => Anomaly.new (.backupRootDivergence entry.2
      "tree_root logical address lies past the end of the image" entry.1.generation
      disk.generation)

theorem flatMap_ite_singleton {α β : Type} (values : List α) (chosen : α → Prop)
    [DecidablePred chosen] (report : α → β) :
    values.flatMap (fun value => if chosen value then [report value] else []) =
      (values.filter fun value => chosen value).map report := by
  induction values with
  | nil => rfl
  | cons value values induction =>
      rw [List.flatMap_cons, induction, List.filter_cons]
      by_cases kept : chosen value
      · rw [if_pos kept, if_pos (decide_eq_true kept)]
        rfl
      · rw [if_neg kept, if_neg (by simpa using kept)]
        rfl

namespace Formatted

section Audit

variable {disk : Formatted} {crates : Crates} {encoding : Encoding} {start : Nat}
  {draft : Draft} {past : List Version} {version : Version} {slot index : Nat}
  {node : TreeNode} {logical ino : UInt64}

/-! ## The sweep -/

def IsNode (disk : Formatted) (logical : UInt64) : Prop :=
  ∃ index node, disk.nodes[index]? = some node ∧ logical = disk.address index

theorem Keeps.isNode_of_slot (keeps : disk.Keeps encoding start draft past)
    (found : past[slot]? = some version) :
    disk.IsNode (disk.slotOf (version, slot)).treeRoot ∧
      disk.IsNode (disk.slotOf (version, slot)).fsRoot :=
  ⟨⟨_, _, disk.nodes_olderRoot (keeps.older_getElem? found), rfl⟩,
    ⟨_, _, disk.nodes_older (keeps.older_getElem? found), rfl⟩⟩

/-- A slot that the reader finds is that of a version, or blank. -/
theorem Keeps.slot_cases (keeps : disk.Keeps encoding start draft past) {backup : RootBackup}
    (listed : backup ∈ parseBackupRoots (disk.superblock crates)) :
    backup = RootBackup.blank ∨ ∃ slot version, past[slot]? = some version ∧
      backup = disk.slotOf (version, slot) := by
  rw [keeps.parseBackupRoots_superblock] at listed
  rcases List.mem_append.mp listed with used | unused
  · rcases List.mem_map.mp used with ⟨⟨version, slot⟩, member, rfl⟩
    exact .inr ⟨slot, version, List.mem_zipIdx_iff_getElem?.mp member, rfl⟩
  · exact .inl (List.eq_of_mem_replicate unused)

theorem sweepChildren_isNode (isNode : disk.IsNode logical) :
    sweepChildren crates (disk.image crates) (disk.sb crates) disk.map logical = [] := by
  rcases isNode with ⟨index, node, found, rfl⟩
  exact sweepChildren_of_isLeaf (disk.readNode_address crates found)
    (disk.isLeaf_written crates (List.mem_of_getElem? found) index)

theorem Keeps.isNode_of_reaches (keeps : disk.Keeps encoding start draft past)
    (reaches : Worklist.Reaches
      (sweepChildren crates (disk.image crates) (disk.sb crates) disk.map)
      (sweepSeeds (disk.image crates) (disk.sb crates)) logical) : disk.IsNode logical := by
  refine reaches.of_closed disk.IsNode (fun seed member => ?_) fun parent isNode child edge => ?_
  · rcases disk.describes_sb crates with ⟨_, root, chunkRoot, _⟩
    rw [sweepSeeds, (disk.parsesSuperblock crates).block, root, chunkRoot] at member
    rcases List.mem_filter.mp (List.mem_reverse.mp member) with ⟨among, nonzero⟩
    simp only [List.cons_append, List.nil_append, List.mem_cons, List.mem_flatMap,
      List.not_mem_nil, or_false] at among
    rcases among with rfl | rfl | ⟨backup, listed, among⟩
    · exact ⟨1, _, rfl, rfl⟩
    · exact ⟨0, _, rfl, rfl⟩
    · rcases keeps.slot_cases listed with rfl | ⟨slot, version, found, rfl⟩
      · rcases among with rfl | rfl <;> exact absurd nonzero (by decide)
      · rcases keeps.isNode_of_slot found with ⟨treeRoot, fsRoot⟩
        rcases among with rfl | rfl
        · exact treeRoot
        · exact fsRoot
  · rw [sweepChildren_isNode isNode] at edge
    cases edge

theorem sweepReports_isNode
    {accepted : Node} (isNode : disk.IsNode logical)
    (taken : acceptedNode crates (disk.image crates) (disk.sb crates) disk.map logical =
      some accepted) : accepted.crcValid = some true := by
  rcases isNode with ⟨index, node, found, rfl⟩
  have read := (acceptedNode_eq_some_iff.mp taken).1
  rw [disk.readNode_address crates found] at read
  cases read
  exact (disk.leafItems_written crates (List.mem_of_getElem? found) index).2

/-! ## The backup slots -/

theorem Keeps.checkBackupRoots_eq (keeps : disk.Keeps encoding start draft past) :
    checkBackupRoots [] (disk.superblock crates) disk.generation disk.length =
      pastEnd disk past := by
  have silent (slot : Nat) : backupDivergence slot RootBackup.blank disk.generation
      disk.length = [] := by
    have first : ¬disk.generation < RootBackup.blank.treeRootGen := UInt64.not_lt_zero
    have second : ¬disk.generation < RootBackup.blank.fsRootGen := UInt64.not_lt_zero
    rw [backupDivergence, if_neg first, if_neg second]
    exact if_neg fun parts => parts.1 rfl
  have used (entry : Version × Nat) (member : entry ∈ past.zipIdx) :
      backupDivergence entry.2 (disk.slotOf entry) disk.generation disk.length =
        if disk.length ≤ (disk.slotOf entry).treeRoot.toNat then
          [Anomaly.new (.backupRootDivergence entry.2
            "tree_root logical address lies past the end of the image" entry.1.generation
            disk.generation)]
        else [] := by
    have found := List.mem_zipIdx_iff_getElem?.mp member
    have older := keeps.generations entry.1 (List.mem_of_getElem? found)
    have inside : entry.2 + (disk.older.length + 3) < disk.nodes.length :=
      (List.getElem?_eq_some_iff.mp
        (disk.nodes_olderRoot (keeps.older_getElem? found))).1
    have present : (disk.slotOf entry).treeRoot ≠ 0 := address_ne_zero (by omega) inside
    have treeGen : ¬disk.generation < (disk.slotOf entry).treeRootGen := UInt64.not_lt.mpr older
    have fsGen : ¬disk.generation < (disk.slotOf entry).fsRootGen := UInt64.not_lt.mpr older
    rw [backupDivergence, if_neg treeGen, if_neg fsGen]
    simp only [present, ne_eq, not_false_eq_true, true_and]
    rfl
  have numbered : (past.zipIdx.map disk.slotOf).zipIdx =
      past.zipIdx.map fun entry => (disk.slotOf entry, entry.2) := by
    apply List.ext_getElem?
    intro slot
    simp only [List.getElem?_zipIdx, List.getElem?_map, Option.map_map, Nat.zero_add]
    rfl
  have unused : ((List.replicate (numBackupRoots - past.length) RootBackup.blank).zipIdx
      (past.zipIdx.map disk.slotOf).length).flatMap (fun entry =>
        backupDivergence entry.2 entry.1 disk.generation disk.length) = [] := by
    rw [List.flatMap_eq_nil_iff]
    intro entry member
    rw [List.eq_of_mem_replicate (List.fst_mem_of_mem_zipIdx member)]
    exact silent entry.2
  rw [checkBackupRoots, List.nil_append, keeps.parseBackupRoots_superblock, pastEnd,
    List.zipIdx_append, List.flatMap_append, Nat.zero_add, unused, List.append_nil, numbered,
    List.flatMap_map, List.flatMap_congr used]
  exact flatMap_ite_singleton _ _ _

/-! ## The orphan scan -/

theorem namesOrphan_iff {leaf : Node} {snapshot : Snapshot}
    (stored : leaf.leafItems.Perm (snapshot.items encoding)) :
    NamesOrphan leaf ino ↔ ino ∈ snapshot.orphans := by
  have key : orphanObjectid = 0xFFFFFFFFFFFFFFFB := by decide
  rw [NamesOrphan]
  constructor
  · intro named
    rcases named with ⟨item, member, _, type, offset⟩
    have kept : item ∈ (snapshot.items encoding).filter fun item => item.1.keyType = 48 :=
      List.mem_filter.mpr ⟨stored.mem_iff.mp member, decide_eq_true type⟩
    rw [filter_orphan_items] at kept
    rcases List.mem_map.mp kept with ⟨orphan, listed, rfl⟩
    rwa [← offset]
  · intro listed
    have kept : orphanItem ino ∈ (snapshot.items encoding).filter fun item =>
        item.1.keyType = 48 := by
      rw [filter_orphan_items]
      exact List.mem_map_of_mem listed
    exact ⟨orphanItem ino, stored.mem_iff.mpr (List.mem_filter.mp kept).1, key.symm, rfl, rfl⟩

theorem fsTreeLeaf_written {leaf : LeafVersion} (member : leaf.treeNode ∈ disk.nodes) :
    FsTreeLeaf (disk.written crates leaf.treeNode index) := by
  rcases disk.header_written crates member index with ⟨_, _, owner, _, level⟩
  exact ⟨owner, level⟩

theorem orphanAt_iff {leaf : LeafVersion} {snapshot : Snapshot}
    (found : disk.nodes[index]? = some leaf.treeNode)
    (stored : leaf.items.Perm (snapshot.items encoding)) :
    OrphanAt crates (disk.image crates) (disk.sb crates) disk.map (disk.address index) ino ↔
      ino ∈ snapshot.orphans := by
  have member := List.mem_of_getElem? found
  have items : (disk.written crates leaf.treeNode index).leafItems.Perm
      (snapshot.items encoding) := by
    rw [(disk.leafItems_written crates member index).1]
    exact stored
  rw [OrphanAt, disk.readNode_address crates found]
  constructor
  · intro named
    rcases named with ⟨read, same, _, names⟩
    rw [← Except.ok.inj same] at names
    exact (namesOrphan_iff items).mp names
  · intro listed
    exact ⟨_, rfl, fsTreeLeaf_written member, (namesOrphan_iff items).mpr listed⟩

theorem Keeps.fsTreeStart_iff (keeps : disk.Keeps encoding start draft past) :
    FsTreeStart crates (disk.image crates) (disk.superblock crates) (disk.sb crates) disk.map
        logical ↔
      logical = disk.address 2 ∨ ∃ slot version, past[slot]? = some version ∧
        logical = disk.address (slot + 3) := by
  rw [FsTreeStart, fsTreeRoot_image]
  have bytenr := (Disk.parse_fsRootItem (disk.address 2)).1
  constructor
  · intro either
    rcases either with ⟨root, same, rfl⟩ | ⟨backup, listed, present, rfl⟩
    · rw [← Except.ok.inj same]
      exact .inl bytenr
    · rcases keeps.slot_cases listed with rfl | ⟨slot, version, found, rfl⟩
      · exact absurd rfl present
      · exact .inr ⟨slot, version, found, rfl⟩
  · intro either
    rcases either with rfl | ⟨slot, version, found, rfl⟩
    · exact .inl ⟨_, rfl, bytenr⟩
    · have inside : slot + 3 < disk.nodes.length :=
        (List.getElem?_eq_some_iff.mp (disk.nodes_older (keeps.older_getElem? found))).1
      refine .inr ⟨disk.slotOf (version, slot), ?_, address_ne_zero (by omega) inside, rfl⟩
      rw [keeps.parseBackupRoots_superblock]
      exact List.mem_append_left _ (List.mem_map_of_mem
        (List.mem_zipIdx_iff_getElem?.mpr found))

theorem Keeps.mem_orphans_iff (keeps : disk.Keeps encoding start draft past) :
    (∃ root, FsTreeStart crates (disk.image crates) (disk.superblock crates) (disk.sb crates)
        disk.map root ∧
      OrphanAt crates (disk.image crates) (disk.sb crates) disk.map root ino) ↔
      ino ∈ draft.orphans ∨ ∃ version ∈ past, ino ∈ version.draft.orphans := by
  constructor
  · intro named
    rcases named with ⟨root, start, orphan⟩
    rcases keeps.fsTreeStart_iff.mp start with rfl | ⟨slot, version, found, rfl⟩
    · exact .inl ((orphanAt_iff disk.nodes_current keeps.current.stored).mp orphan)
    · exact .inr ⟨version, List.mem_of_getElem? found,
        (orphanAt_iff (disk.nodes_older (keeps.older_getElem? found))
          (keeps.stores version (List.mem_of_getElem? found)).stored).mp orphan⟩
  · intro named
    rcases named with current | ⟨version, member, older⟩
    · exact ⟨_, keeps.fsTreeStart_iff.mpr (.inl rfl),
        (orphanAt_iff disk.nodes_current keeps.current.stored).mpr current⟩
    · rcases List.mem_iff_getElem?.mp member with ⟨slot, found⟩
      exact ⟨_, keeps.fsTreeStart_iff.mpr (.inr ⟨slot, version, found, rfl⟩),
        (orphanAt_iff (disk.nodes_older (keeps.older_getElem? found))
          (keeps.stores version member).stored).mpr older⟩

/-! ## The whole audit -/

/-- A volume as it was formatted is reported for its orphans, each once, and for the
backup slots whose root tree has an address past the end of the image. -/
theorem auditImage_formatted (keeps : disk.Keeps encoding start draft past) :
    ∃ orphans : List UInt64, orphans.Nodup ∧
      (∀ ino, ino ∈ orphans ↔
        ino ∈ draft.orphans ∨ ∃ version ∈ past, ino ∈ version.draft.orphans) ∧
      auditImage crates (disk.image crates) =
        pastEnd disk past ++ orphans.map fun ino => Anomaly.new (.orphanedInode ino) := by
  have parses := disk.parsesSuperblock crates
  rcases disk.describes_sb crates with ⟨_, root, chunkRoot, _⟩
  refine ⟨appendNew [] ((orphanRoots crates (disk.image crates) (disk.sb crates)
    disk.map).flatMap (orphansAt crates (disk.image crates) (disk.sb crates) disk.map)),
    nodup_appendNew List.nodup_nil, fun ino => ?_, ?_⟩
  · rw [mem_appendNew_iff, or_iff_right List.not_mem_nil, List.mem_flatMap]
    simp only [mem_orphanRoots_iff parses.block, mem_orphansAt_iff]
    exact keeps.mem_orphans_iff
  · have rootRead : checkRootReachable crates [] (disk.image crates) (disk.sb crates) disk.map
        "root" (disk.sb crates).root = [] := by
      rw [root]
      exact checkRootReachable_eq_nil fun _ => ⟨_, disk.readNode_address crates rfl⟩
    have chunkRead : checkRootReachable crates [] (disk.image crates) (disk.sb crates) disk.map
        "chunk_root" (disk.sb crates).chunkRoot = [] := by
      rw [chunkRoot]
      exact checkRootReachable_eq_nil fun _ => ⟨_, disk.readNode_address crates rfl⟩
    have swept : (sweepVisits crates (disk.image crates) (disk.sb crates) disk.map).flatMap
        (sweepReports crates (disk.image crates) (disk.sb crates) disk.map) = [] :=
      sweepReports_flatMap_eq_nil fun _ _ reaches =>
        sweepReports_isNode (keeps.isNode_of_reaches reaches)
    rw [auditImage_eq parses, auditMap_image, superblockReports_eq_nil (disk.crcValid_sb crates),
      rootRead, chunkRead, swept, generation_sb, length_image, keeps.checkBackupRoots_eq,
      scanOrphans]
    simp only [List.nil_append]

end Audit

end Formatted

theorem auditImage_formatted_in_history :
    ∃ orphans : List UInt64, orphans.Nodup ∧
      (∀ ino, ino ∈ orphans ↔ ino ∈ Sample.draft.orphans ∨
        ∃ version ∈ [Sample.version], ino ∈ version.draft.orphans) ∧
      auditImage Crates.withoutCodecs (Sample.history.image Crates.withoutCodecs) =
        pastEnd Sample.history [Sample.version] ++
          orphans.map fun ino => Anomaly.new (.orphanedInode ino) :=
  Formatted.auditImage_formatted Sample.keeps

end BtrfsForensic
