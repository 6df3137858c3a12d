import BtrfsForensic.Forensic.DirNames
import BtrfsForensic.Forensic.History

namespace BtrfsForensic

/-! Recovery from a volume that keeps past versions: the files that a version holds and
the current filesystem does not, each as the first version that holds it left it. -/

/-! ## What is lost -/

/-- The user files with content that the current filesystem does not hold. -/
def Version.lost (current : Draft) (version : Version) : List DraftObject :=
  version.draft.objects.filter fun object =>
    257 ≤ object.inode.objectid ∧ object.fragments ≠ [] ∧
      ∀ other ∈ current.objects, other.inode.objectid ≠ object.inode.objectid

/-- Of every version in turn, the files that no earlier one has shown. -/
def lostFiles (current : Draft) (past : List Version) : List (Version × DraftObject) :=
  keepFirst (fun file => file.2.inode.objectid) [] <|
    past.flatMap fun version => (version.lost current).map fun object => (version, object)

/-- A record describes a file of a version: as it was, under a name that it had. -/
structure Recovers (file : Version × DraftObject) (record : RecoveredFile) : Prop where
  inode : record.inode = file.2.inode.objectid
  generation : record.generation = file.1.generation
  size : record.size = file.2.inode.size
  content : record.content = file.2.content
  digest : record.contentSha256 = sha256Hex file.2.content
  named : (∃ dentry ∈ file.1.draft.dentries, dentry.child = file.2.inode.objectid ∧
      record.path = dentry.name.text) ∨
    (∀ dentry ∈ file.1.draft.dentries, dentry.child ≠ file.2.inode.objectid) ∧
      record.path = s!"inode_{file.2.inode.objectid}"

/-! ## One leaf -/

section Leaf

variable {crates : Crates} {leaf old current : Node} {image : Bytes} {map : ChunkMap}
  {sectorsize : UInt32} {snapshot other : Snapshot} {encoding otherEncoding : Encoding}
  {ino : UInt64}

theorem mem_inodeSet_stored (stored : leaf.leafItems.Perm (snapshot.items encoding)) :
    ino ∈ inodeSet leaf ↔ ∃ object ∈ snapshot.objects, object.ino = ino := by
  have kept : (inodeSet leaf).Perm (snapshot.objects.map Object.ino) := by
    rw [inodeSet]
    have inodes := (stored.filter fun item => item.1.keyType = inodeItemKey).map
      fun item => item.1.objectid
    rwa [filter_inode_items, List.map_map] at inodes
  rw [kept.mem_iff, List.mem_map]

theorem exists_extent_iff (stored : leaf.leafItems.Perm (snapshot.items encoding))
    {object : Object} (member : object ∈ snapshot.objects) :
    (∃ item ∈ leaf.leafItems, item.1.objectid = object.ino ∧ item.1.keyType = extentDataKey) ↔
      object.pieces ≠ [] := by
  constructor
  · intro found
    rcases found with ⟨item, inLeaf, owner, type⟩
    rcases mem_extent_items_iff.mp ⟨stored.mem_iff.mp inLeaf, type⟩ with
      ⟨holder, inObjects, inHolder⟩
    have own : holder.ino = object.ino := (key_of_mem_placed inHolder).1.symm.trans owner
    have same : holder = object := List.inj_on_of_nodup_map snapshot.numbered inObjects member own
    rw [← same]
    intro none
    rw [Object.extents, none] at inHolder
    cases inHolder
  · intro some
    rcases List.exists_cons_of_ne_nil some with ⟨piece, rest, layout⟩
    have inObject : ∃ item, item ∈ object.extents encoding := by
      rw [Object.extents, layout]
      exact ⟨_, List.mem_cons_self⟩
    rcases inObject with ⟨item, inObject⟩
    have kept := mem_extent_items_iff.mpr ⟨object, member, inObject⟩
    exact ⟨item, stored.mem_iff.mpr kept.1, key_of_mem_placed inObject⟩

def Snapshot.Carves (other : Snapshot) (object : Object) : Prop :=
  257 ≤ object.ino ∧ object.pieces ≠ [] ∧ ∀ live ∈ other.objects, live.ino ≠ object.ino

instance (other : Snapshot) (object : Object) : Decidable (other.Carves object) :=
  inferInstanceAs (Decidable (_ ∧ _ ∧ _))

theorem recoverDeletedFromLeaves_stored (owned : old.header.owner = fsTreeObjectid)
    (stored : old.leafItems.Perm (snapshot.items encoding))
    (ordered : old.leafItems.filter (fun item => item.1.keyType = inodeItemKey) =
      snapshot.objects.map (Object.inodeItem encoding))
    (currentStored : current.leafItems.Perm (other.items otherEncoding)) :
    recoverDeletedFromLeaves crates old current image map sectorsize =
      (snapshot.objects.filter other.Carves).map fun object =>
        carve crates old image map sectorsize (object.inodeItem encoding) := by
  have typed : old.leafItems.filter (fun item => Carvable old current item) =
      (old.leafItems.filter fun item => item.1.keyType = inodeItemKey).filter
        fun item => Carvable old current item := by
    rw [List.filter_filter]
    apply List.filter_congr
    intro item _
    rw [Bool.eq_iff_iff, Bool.and_eq_true, decide_eq_true_iff, decide_eq_true_iff]
    exact ⟨fun carvable => ⟨carvable, carvable.1⟩, fun both => both.1⟩
  have chosen (object : Object) (member : object ∈ snapshot.objects) :
      Carvable old current (object.inodeItem encoding) ↔ other.Carves object := by
    have live : object.ino ∉ inodeSet current ↔ ∀ live ∈ other.objects,
        live.ino ≠ object.ino := by
      rw [mem_inodeSet_stored currentStored]
      simp
    have extents := exists_extent_iff stored member
    constructor
    · intro parts
      rcases parts with ⟨_, user, absent, extent⟩
      exact ⟨user, extents.mp extent, live.mp absent⟩
    · intro parts
      rcases parts with ⟨user, filled, absent⟩
      exact ⟨rfl, user, live.mpr absent, extents.mpr filled⟩
  rw [recoverDeletedFromLeaves, if_neg (not_not_intro owned), typed, ordered, List.filter_map,
    List.map_map]
  congr 1
  apply List.filter_congr
  intro object member
  exact decide_eq_decide.mpr (chosen object member)

/-- A leaf that stores a snapshot names an inode as some directory does. -/
theorem getName_stored (stored : leaf.leafItems.Perm (snapshot.items encoding)) (ino : UInt64) :
    (∃ dentry ∈ snapshot.dentries, dentry.child = ino ∧
        (dirNames leaf).getName ino = some dentry.name.text) ∨
      (∀ dentry ∈ snapshot.dentries, dentry.child ≠ ino) ∧
        (dirNames leaf).getName ino = none := by
  cases found : (dirNames leaf).getName ino with
  | some name =>
      rcases getName_eq_some_iff.mp found with
        ⟨before, item, after, entry, split, first, decoded, child, rfl⟩
      have listed : entry ∈ listDir leaf item.1.objectid := by
        apply mem_listDir_of_first split decoded
        rwa [child]
      rcases exists_of_mem_listDir stored listed with ⟨dentry, inDir, rfl⟩
      exact .inl ⟨dentry, (List.mem_filter.mp inDir).1, child, rfl⟩
  | none =>
      refine .inr ⟨fun dentry member child => ?_, rfl⟩
      have inDir : dentry ∈ snapshot.children dentry.dir :=
        List.mem_filter.mpr ⟨member, decide_eq_true rfl⟩
      have listed := exists_itemEntry (mem_listDir_of_child stored inDir)
      rw [getName_dirNames, Option.map_eq_none_iff, List.find?_eq_none] at found
      exact found _ listed (decide_eq_true child)

theorem carve_stored (stored : old.leafItems.Perm (snapshot.items encoding))
    (bounded : image.length < usizeMax) (backed : snapshot.Backed crates image map sectorsize)
    {object : Object} (member : object ∈ snapshot.objects) :
    (carve crates old image map sectorsize (object.inodeItem encoding)).content =
        object.content ∧
      (carve crates old image map sectorsize (object.inodeItem encoding)).size =
        object.inode.size := by
  constructor
  · have read : readFileFromLeaf crates old image map sectorsize
        (object.inodeItem encoding).1.objectid = .ok object.content :=
      readFileFromLeaf_stored stored bounded backed (object_of_mem member)
    rw [carve]
    dsimp only
    rw [carvedContent, read]
  · have read (data : Bytes) : leU64 data inodeSizeOffset =
        (Inode.parse object.inode.objectid data).size :=
      rfl
    rw [carve]
    dsimp only
    rw [read, Object.inodeItem, Inode.parse_inode]

theorem recovers_carve {version : Version} {object : DraftObject} {laid : Object}
    (stored : old.leafItems.Perm (snapshot.items encoding))
    (dentries : snapshot.dentries = version.draft.dentries) (bounded : image.length < usizeMax)
    (backed : snapshot.Backed crates image map sectorsize) (member : laid ∈ snapshot.objects)
    (generation : old.header.generation = version.generation) (inode : laid.inode = object.inode)
    (content : laid.content = object.content) :
    Recovers (version, object)
      (carve crates old image map sectorsize (laid.inodeItem encoding)) := by
  rcases carve_stored stored bounded backed member with ⟨carvedContent, carvedSize⟩
  have number : laid.ino = object.inode.objectid := congrArg Inode.objectid inode
  constructor
  case inode => exact number
  case generation => exact generation
  case size => rw [carvedSize, inode]
  case content => rw [carvedContent, content]
  case digest =>
    rw [← content, ← carvedContent]
    rfl
  case named =>
    have path := getName_stored stored laid.ino
    rw [number, dentries] at path
    rcases path with ⟨dentry, among, child, name⟩ | ⟨unnamed, name⟩
    · refine .inl ⟨dentry, among, child, ?_⟩
      rw [carve]
      dsimp only
      rw [Object.inodeItem, number, name, Option.getD_some]
    · refine .inr ⟨unnamed, ?_⟩
      rw [carve]
      dsimp only
      rw [Object.inodeItem, number, name, Option.getD_none]

end Leaf

/-! ## The volume -/

namespace Formatted

section History

variable {disk : Formatted} {crates : Crates} {encoding : Encoding} {start : Nat}
  {draft : Draft} {past : List Version} {version : Version} {slot : Nat}

theorem recoverySetup (disk : Formatted) (crates : Crates) :
    RecoverySetup crates (disk.image crates) (disk.superblock crates) (disk.sb crates)
      (FsTreeRoot.parse (Disk.fsRootItem (disk.address 2)).2) (disk.mount crates).leaf where
  parses := disk.parsesSuperblock crates
  located := by rw [auditMap_image, fsTreeRoot_image]
  read := by
    rw [auditMap_image, (Disk.parse_fsRootItem (disk.address 2)).1]
    exact disk.readNode_address crates disk.nodes_current

theorem Keeps.backupNodes_eq (keeps : disk.Keeps encoding start draft past) :
    backupNodes crates (disk.image crates) (disk.superblock crates) (disk.sb crates)
        (FsTreeRoot.parse (Disk.fsRootItem (disk.address 2)).2) =
      past.zipIdx.map fun entry =>
        disk.written crates entry.1.leaf.treeNode (entry.2 + 3) := by
  have used (entry : Version × Nat) (member : entry ∈ past.zipIdx) :
      slotNode crates (disk.image crates) (disk.sb crates) disk.map (disk.address 2)
        (disk.slotOf entry) =
          some (disk.written crates entry.1.leaf.treeNode (entry.2 + 3)) := by
    have found := List.mem_zipIdx_iff_getElem?.mp member
    have inside : entry.2 + 3 < disk.nodes.length :=
      (List.getElem?_eq_some_iff.mp (disk.nodes_older (keeps.older_getElem? found))).1
    refine slotNode_eq_some_iff.mpr ⟨address_ne_zero (by omega) inside, fun same => ?_,
      keeps.readNode_version found⟩
    have equal := address_inj inside (by omega) same
    omega
  have unused : (List.replicate (numBackupRoots - past.length) RootBackup.blank).filterMap
      (slotNode crates (disk.image crates) (disk.sb crates) disk.map (disk.address 2)) = [] := by
    rw [List.filterMap_eq_nil_iff]
    intro backup member
    rw [List.eq_of_mem_replicate member]
    exact if_pos (.inl rfl)
  rw [backupNodes, auditMap_image, (Disk.parse_fsRootItem (disk.address 2)).1,
    oldNodes_eq_filterMap, keeps.parseBackupRoots_superblock, List.filterMap_append, unused,
    List.append_nil, List.filterMap_map, ← List.filterMap_eq_map]
  exact List.filterMap_congr used

def versionPlace (disk : Formatted) (version : Version) (position : Nat) : UInt64 :=
  disk.place (disk.dataStart + (version.start + position))

/-- A file of a version is lost when its object is carved. -/
theorem carves_iff : Relator.LiftFun (DraftObject.LaidIn (disk.versionPlace version)
    (disk.snapshot version.start version.draft).objects) (· ↔ ·)
    (fun object => decide (257 ≤ object.inode.objectid ∧ object.fragments ≠ [] ∧
      ∀ other ∈ draft.objects, other.inode.objectid ≠ object.inode.objectid))
    (fun laid => decide ((disk.snapshot start draft).Carves laid)) := by
  intro object laid own
  rcases own.fields with ⟨inode, _, filled⟩
  have live : (∀ other ∈ (disk.snapshot start draft).objects, other.ino ≠ laid.ino) ↔
      ∀ other ∈ draft.objects, other.inode.objectid ≠ object.inode.objectid := by
    have numbers : (disk.snapshot start draft).objects.map Object.ino =
        draft.objects.map fun other => other.inode.objectid :=
      DraftObject.map_ino_lay
    have same : (∀ number ∈ (disk.snapshot start draft).objects.map Object.ino,
        number ≠ object.inode.objectid) ↔
        ∀ number ∈ draft.objects.map fun other => other.inode.objectid,
          number ≠ object.inode.objectid := by
      rw [numbers]
    rw [Object.ino, inode]
    simpa only [List.forall_mem_map] using same
  dsimp only
  rw [decide_eq_true_iff, decide_eq_true_iff, Snapshot.Carves, live, filled, Object.ino, inode]

theorem Keeps.recovers_version (keeps : disk.Keeps encoding start draft past) (crates : Crates)
    (found : past[slot]? = some version) (readable : version.draft.Readable crates disk.length) :
    List.Forall₂ Recovers ((version.lost draft).map fun object => (version, object))
      (recoverDeletedFromLeaves crates
        (disk.written crates version.leaf.treeNode (slot + 3))
        (disk.mount crates).leaf (disk.image crates) disk.map (disk.sb crates).sectorsize) := by
  have inPast := List.mem_of_getElem? found
  have inNodes := List.mem_of_getElem? (disk.nodes_older (keeps.older_getElem? found))
  have items := keeps.leafItems_version crates found
  have stores := keeps.stores version inPast
  rcases disk.header_written crates inNodes (slot + 3) with
    ⟨_, _, owned, generation, _⟩
  have currentItems : (disk.mount crates).leaf.leafItems.Perm
      ((disk.snapshot start draft).items encoding) := by
    rw [leafItems_mount]
    exact keeps.current.stored
  have backed : (disk.snapshot version.start version.draft).Backed crates (disk.image crates)
      disk.map (disk.sb crates).sectorsize :=
    backed_snapshot stores.data readable
  have bounded : (disk.image crates).length < usizeMax := length_mount_lt
  have pairs : List.Forall₂ (DraftObject.LaidIn (disk.versionPlace version)
      (disk.snapshot version.start version.draft).objects) version.draft.objects
      (disk.snapshot version.start version.draft).objects :=
    DraftObject.forall₂_lay fun _ member => member
  have stored := stores.stored
  have ordered := stores.ordered
  rw [← items] at stored ordered
  rw [recoverDeletedFromLeaves_stored owned stored ordered currentItems,
    List.forall₂_map_left_iff, List.forall₂_map_right_iff, Version.lost]
  refine (List.rel_filter carves_iff pairs).imp fun object laid own => ?_
  rcases own.fields with ⟨inode, content, _⟩
  exact recovers_carve stored rfl bounded backed own.1 generation inode content

/-- Every file that a past version holds and the current filesystem lacks is recovered
once, from the first slot that leads to it, with its size, its content and a name that it
had; nothing else is recovered. -/
theorem recoverDeleted_formatted (keeps : disk.Keeps encoding start draft past)
    (readable : ∀ version ∈ past, version.draft.Readable crates disk.length) :
    List.Forall₂ Recovers (lostFiles draft past) (recoverDeleted crates (disk.image crates)) := by
  have versions : List.Forall₂ (fun version old => List.Forall₂ Recovers
      ((version.lost draft).map fun object => (version, object))
      (recoverDeletedFromLeaves crates old (disk.mount crates).leaf (disk.image crates) disk.map
        (disk.sb crates).sectorsize)) past
      (past.zipIdx.map fun entry =>
        disk.written crates entry.1.leaf.treeNode (entry.2 + 3)) := by
    rw [List.forall₂_iff_get]
    refine ⟨by rw [List.length_map, List.length_zipIdx], fun slot inside _ => ?_⟩
    have found : past[slot]? = some (past.get ⟨slot, inside⟩) := List.getElem?_eq_getElem inside
    have recovers := keeps.recovers_version crates found
      (readable _ (List.mem_of_getElem? found))
    simpa using recovers
  rw [recoverDeleted_eq (disk.recoverySetup crates), keeps.backupNodes_eq, auditMap_image,
    lostFiles]
  refine KeepFirst.rel (fun _ _ recovers => recovers.inode.symm) ?_ .nil
  exact List.rel_flatMap versions fun _ _ recovers => recovers

end History

end Formatted

/-- The deleted file is the one that is recovered. -/
theorem recoverDeleted_formatted_in_history :
    List.Forall₂ Recovers (lostFiles Sample.draft [Sample.version])
      (recoverDeleted Crates.withoutCodecs (Sample.history.image Crates.withoutCodecs)) := by
  apply Formatted.recoverDeleted_formatted Sample.keeps
  intro kept member object among
  rw [List.mem_singleton.mp member] at among
  replace among : object ∈ Sample.pastObjects := among
  simp only [Sample.pastObjects, List.mem_cons, List.not_mem_nil, or_false] at among
  rcases among with rfl | rfl
  · exact ⟨by decide, fun _ inFile => absurd inFile List.not_mem_nil⟩
  · refine ⟨by decide, fun fragment inFile => ?_⟩
    replace inFile : fragment ∈ Sample.notesFragments := inFile
    simp only [Sample.notesFragments, List.mem_cons, List.not_mem_nil, or_false] at inFile
    rcases inFile with rfl | rfl
    · trivial
    · exact Nat.le_trans (by decide) (Nat.le_max_right _ _)

example : (lostFiles Sample.draft [Sample.version]).map
    (fun file => (file.2.inode.objectid, file.2.content)) = [(259, [9, 9, 0, 0])] := by
  decide

end BtrfsForensic
