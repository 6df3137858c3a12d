import BtrfsForensic.Core.Draft
import BtrfsForensic.Forensic.Orphans

namespace BtrfsForensic

/-! Formatted volumes that keep past versions of their filesystem: each is led to by a
backup slot of the superblock. -/

/-! ## Backup slots -/

namespace Writer

def rootBackup (backup : RootBackup) : Bytes :=
  overlay rootBackupSize 0
    [(BackupOff.treeRoot, encodeLE 8 backup.treeRoot.toNat),
      (BackupOff.treeRootGen, encodeLE 8 backup.treeRootGen.toNat),
      (BackupOff.fsRoot, encodeLE 8 backup.fsRoot.toNat),
      (BackupOff.fsRootGen, encodeLE 8 backup.fsRootGen.toNat)]

def backupArray (slots : List RootBackup) : Bytes := slots.flatMap rootBackup

@[simp] theorem length_rootBackup (backup : RootBackup) :
    (rootBackup backup).length = rootBackupSize :=
  length_overlay _ _ _

end Writer

/-- A slot that was never written. -/
def RootBackup.blank : RootBackup := ⟨0, 0, 0, 0⟩

theorem RootBackup.parse_rootBackup (backup : RootBackup) :
    RootBackup.parse (Writer.rootBackup backup) = backup := by
  have word {off : Nat} {value : UInt64}
      (member : (off, encodeLE 8 value.toNat) ∈
        [(BackupOff.treeRoot, encodeLE 8 backup.treeRoot.toNat),
          (BackupOff.treeRootGen, encodeLE 8 backup.treeRootGen.toNat),
          (BackupOff.fsRoot, encodeLE 8 backup.fsRoot.toNat),
          (BackupOff.fsRootGen, encodeLE 8 backup.fsRootGen.toNat)])
      (inside : off + 8 ≤ rootBackupSize) :
      leU64 (Writer.rootBackup backup) off = value := by
    apply leU64_of_holds
    apply holds_overlay member
    · simp only [List.isChain_cons_cons, List.IsChain.singleton, and_true, EndsBefore,
        length_encodeLE]
      decide
    · rwa [length_encodeLE]
  have treeRoot : leU64 (Writer.rootBackup backup) BackupOff.treeRoot = backup.treeRoot :=
    word (by simp) (by decide)
  have treeRootGen : leU64 (Writer.rootBackup backup) BackupOff.treeRootGen =
      backup.treeRootGen :=
    word (by simp) (by decide)
  have fsRoot : leU64 (Writer.rootBackup backup) BackupOff.fsRoot = backup.fsRoot :=
    word (by simp) (by decide)
  have fsRootGen : leU64 (Writer.rootBackup backup) BackupOff.fsRootGen = backup.fsRootGen :=
    word (by simp) (by decide)
  rw [RootBackup.parse, treeRoot, treeRootGen, fsRoot, fsRootGen]

theorem parseBackupRoots_backupArray (crates : Crates) {fields : Writer.SuperblockFields}
    {slots : List RootBackup}
    (array : (Writer.sysChunkArray fields.sysChunks).length ≤ 0x800)
    (written : fields.backups = Writer.backupArray slots) (few : slots.length ≤ numBackupRoots) :
    parseBackupRoots (Writer.superblock crates fields) =
      slots ++ List.replicate (numBackupRoots - slots.length) RootBackup.blank := by
  have count : numBackupRoots = 4 := rfl
  have size : rootBackupSize = 168 := rfl
  have room : btrfsSuperInfoSize - backupRootsOffset = 1237 := rfl
  have total : (Writer.backupArray slots).length = 168 * slots.length := by
    rw [Writer.backupArray, List.length_flatMap,
      List.map_congr_left fun backup _ => Writer.length_rootBackup backup, List.map_const',
      List.sum_replicate_nat, Nat.mul_comm]
  rw [parseBackupRoots_written array, written]
  apply List.ext_getElem?
  intro slot
  rw [List.getElem?_map]
  by_cases inside : slot < numBackupRoots
  · rw [List.getElem?_range inside, Option.map_some, Writer.backupBytes, room, size]
    by_cases used : slot < slots.length
    · have found : slots[slot]? = some slots[slot] := List.getElem?_eq_getElem used
      have stored : getRange (Writer.backupArray slots) (168 * slot) (168 * slot + 168) =
          some (Writer.rootBackup slots[slot]) := by
        have sized : ∀ block ∈ slots.map Writer.rootBackup, block.length = 168 := by
          intro block member
          rcases List.mem_map.mp member with ⟨backup, _, rfl⟩
          exact Writer.length_rootBackup backup
        have listed : (slots.map Writer.rootBackup)[slot]? =
            some (Writer.rootBackup slots[slot]) := by
          rw [List.getElem?_map, found, Option.map_some]
        exact getRange_flatten sized listed
      rcases getRange_eq_some_iff.mp stored with ⟨_, bound, equal⟩
      rw [Nat.add_sub_cancel_left] at equal
      have part : (((Writer.backupArray slots ++ List.replicate 1237 0).take 1237).drop
          (slot * 168)).take 168 = Writer.rootBackup slots[slot] := by
        rw [List.drop_take, List.take_take, Nat.min_eq_left (by omega),
          List.drop_append_of_le_length (by omega),
          List.take_append_of_le_length (by rw [List.length_drop]; omega), Nat.mul_comm, equal]
      rw [part, RootBackup.parse_rootBackup, List.getElem?_append_left used, found]
    · have past : (((Writer.backupArray slots ++ List.replicate 1237 0).take 1237).drop
          (slot * 168)).take 168 = List.replicate 168 0 := by
        rw [List.drop_take, List.take_take, Nat.min_eq_left (by omega), List.drop_append,
          List.drop_eq_nil_of_le (by omega), List.nil_append, List.drop_replicate,
          List.take_replicate, Nat.min_eq_left (by omega)]
      have blank : RootBackup.parse (List.replicate 168 0) = RootBackup.blank := by
        decide +kernel
      rw [past, blank, List.getElem?_append_right (Nat.le_of_not_lt used),
        List.getElem?_replicate_of_lt (by omega)]
  · rw [List.getElem?_eq_none (by rw [List.length_range]; omega), Option.map_none,
      List.getElem?_eq_none]
    rw [List.length_append, List.length_replicate]
    omega

/-! ## Versions -/

/-- A filesystem as a transaction left it: the items of its leaf, and its data at a
position of the volume's. -/
structure Version where
  generation : UInt64
  start : Nat
  encoding : Encoding
  draft : Draft
  items : List (DiskKey × Bytes)

def Version.leaf (version : Version) : LeafVersion where
  generation := version.generation
  items := version.items

namespace Formatted

def slotOf (disk : Formatted) (entry : Version × Nat) : RootBackup where
  treeRoot := disk.address (entry.2 + (disk.older.length + 3))
  treeRootGen := entry.1.generation
  fsRoot := disk.address (entry.2 + 3)
  fsRootGen := entry.1.generation

/-- The volume stores a draft, and past versions that its backup slots lead to. -/
structure Keeps (disk : Formatted) (encoding : Encoding) (start : Nat) (draft : Draft)
    (past : List Version) : Prop where
  current : disk.Stores encoding start draft disk.current
  older : disk.older = past.map Version.leaf
  stores : ∀ version ∈ past,
    disk.Stores version.encoding version.start version.draft version.items
  backups : disk.backups = Writer.backupArray (past.zipIdx.map disk.slotOf)
  few : past.length ≤ numBackupRoots
  generations : ∀ version ∈ past, version.generation ≤ disk.generation

section Kept

variable {disk : Formatted} {crates : Crates} {encoding : Encoding} {start : Nat}
  {draft : Draft} {past : List Version} {version : Version} {slot : Nat}

theorem Keeps.parseBackupRoots_superblock (keeps : disk.Keeps encoding start draft past) :
    parseBackupRoots (disk.superblock crates) =
      past.zipIdx.map disk.slotOf ++
        List.replicate (numBackupRoots - past.length) RootBackup.blank := by
  have count : (past.zipIdx.map disk.slotOf).length = past.length := by
    rw [List.length_map, List.length_zipIdx]
  have read := parseBackupRoots_backupArray crates disk.sysChunkArray_fits
    keeps.backups (by rw [count]; exact keeps.few)
  rwa [count] at read

theorem Keeps.older_getElem? (keeps : disk.Keeps encoding start draft past)
    (found : past[slot]? = some version) :
    disk.older[slot]? = some version.leaf := by
  rw [keeps.older, List.getElem?_map, found, Option.map_some]

theorem Keeps.readNode_version (keeps : disk.Keeps encoding start draft past)
    (found : past[slot]? = some version) :
    readNode crates (disk.image crates) (disk.sb crates) disk.map (disk.address (slot + 3)) =
      .ok (disk.written crates version.leaf.treeNode (slot + 3)) :=
  disk.readNode_address crates (disk.nodes_older (keeps.older_getElem? found))

theorem Keeps.leafItems_version (keeps : disk.Keeps encoding start draft past) (crates : Crates)
    (found : past[slot]? = some version) :
    (disk.written crates version.leaf.treeNode (slot + 3)).leafItems = version.items :=
  (disk.leafItems_written crates
    (List.mem_of_getElem? (disk.nodes_older (keeps.older_getElem? found))) (slot + 3)).1

end Kept

/-! ## The audit's view -/

section Audit

variable (disk : Formatted) (crates : Crates)

theorem parsesSuperblock :
    ParsesSuperblock crates (disk.image crates) (disk.superblock crates) (disk.sb crates) where
  block := by
    have behind := disk.behind
    have fits := disk.fits
    exact BtrfsForensic.superblockBlock_image (disk.length_superblock crates) (by omega)
  parsed := disk.parse_superblock crates

theorem auditMap_image : auditMap crates (disk.image crates) (disk.sb crates) = disk.map := by
  rw [auditMap, walk_image]

variable {disk} {left right index : Nat}

theorem toNat_address (inside : index < disk.nodes.length) :
    (disk.address index).toNat = disk.logical.toNat + disk.nodesize.toNat * index := by
  have covered := disk.covered
  have bound : disk.nodesize.toNat * index ≤
      disk.nodesize.toNat * (2 * disk.older.length + 3) := by
    apply Nat.mul_le_mul_left
    rw [length_nodes] at inside
    omega
  exact disk.toNat_place (by omega)

theorem address_ne_zero (positive : 0 < index) (inside : index < disk.nodes.length) :
    disk.address index ≠ 0 := by
  intro zero
  have roomy := disk.roomy
  have place := toNat_address inside
  have some : 0 < disk.nodesize.toNat * index := Nat.mul_pos (by omega) positive
  rw [zero] at place
  change 0 = _ at place
  omega

theorem address_inj (leftInside : left < disk.nodes.length)
    (rightInside : right < disk.nodes.length)
    (same : disk.address left = disk.address right) : left = right := by
  have roomy := disk.roomy
  have places := congrArg UInt64.toNat same
  rw [toNat_address leftInside, toNat_address rightInside] at places
  exact Nat.eq_of_mul_eq_mul_left (show 0 < disk.nodesize.toNat by omega) (by omega)

end Audit

end Formatted

/-! ## A volume with one past version -/

namespace Sample

/-- `notes` was deleted since. -/
def notesFragments : List Fragment := [.stored [9, 9], .hole 2]

theorem notesFragments_filled : ∀ fragment ∈ notesFragments, fragment.bytes ≠ [] := by decide

theorem notesFragments_bounded : (notesFragments.flatMap Fragment.bytes).length < 2 ^ 64 := by
  decide

def pastObjects : List DraftObject :=
  [rootObject,
    ⟨inode 259 4 0o100644, notesFragments, notesFragments_filled, notesFragments_bounded⟩]

theorem notes_present : nameBytes "notes" ≠ [] := by decide +kernel

theorem notes_fits : (nameBytes "notes").length < 2 ^ 16 := by decide +kernel

def pastDentries : List Dentry := [⟨256, 4, ⟨"notes", notes_present, notes_fits⟩, 259, 1⟩]

theorem pastNumbered : (pastObjects.map fun draft => draft.inode.objectid).Nodup := by decide

theorem pastNamed : (pastDentries.map fun dentry => (dentry.dir, dentry.name.text)).Nodup := by
  decide

def pastDraft : Draft where
  objects := pastObjects
  dentries := pastDentries
  backrefs := rootBackref :: pastDentries.map Dentry.backref
  attributes := []
  orphans := [301]
  numbered := pastNumbered
  named := pastNamed

def historyPlace (start position : Nat) : UInt64 :=
  UInt64.ofNat ((0x100000 : UInt64).toNat +
    ((4096 : UInt32).toNat * (2 * 1 + 3) + (start + position)))

def historyItems : List (DiskKey × Bytes) := (draft.snapshot (historyPlace 0)).items encoding

def pastEncoding : Encoding := { encoding with indexTransid := fun _ => 8 }

def pastItems : List (DiskKey × Bytes) :=
  (pastDraft.snapshot (historyPlace draft.data.length)).items pastEncoding

/-- The data of the past version lies behind that of the current one. -/
def version : Version := ⟨8, draft.data.length, pastEncoding, pastDraft, pastItems⟩

def historySlot : RootBackup where
  treeRoot := UInt64.ofNat ((0x100000 : UInt64).toNat + (4096 : UInt32).toNat * (0 + (1 + 3)))
  treeRootGen := 8
  fsRoot := UInt64.ofNat ((0x100000 : UInt64).toNat + (4096 : UInt32).toNat * (0 + 3))
  fsRootGen := 8

theorem historyItems_fit :
    btrfsHeaderSize + Writer.itemsSize historyItems ≤ (4096 : UInt32).toNat := by
  decide +kernel

theorem pastItems_fit : ∀ leaf ∈ [LeafVersion.mk 8 pastItems],
    btrfsHeaderSize + Writer.itemsSize leaf.items ≤ (4096 : UInt32).toNat := by
  decide +kernel

theorem historyCovered : (4096 : UInt32).toNat * (2 * 1 + 3) +
    (draft.data ++ pastDraft.data).length ≤ (0x200000 : UInt64).toNat := by
  decide +kernel

theorem historyFits : (0x12000 : UInt64).toNat + ((4096 : UInt32).toNat * (2 * 1 + 3) +
    (draft.data ++ pastDraft.data).length) ≤ 0x20000 := by
  decide +kernel

def history : Formatted where
  logical := 0x100000
  physical := 0x12000
  span := 0x200000
  nodesize := 4096
  fsid := List.Vector.replicate 16 7
  generation := 9
  backups := Writer.backupArray [historySlot]
  current := historyItems
  older := [⟨8, pastItems⟩]
  data := draft.data ++ pastDraft.data
  length := 0x20000
  behind := behind
  bounded := bounded
  roomy := roomy
  currentFits := historyItems_fit
  olderFits := pastItems_fit
  covered := historyCovered
  fits := historyFits
  short := short

theorem keeps : history.Keeps encoding 0 draft [version] where
  current := ⟨.refl _, filter_inode_items, holds_front _ _⟩
  older := rfl
  stores := by
    intro kept member
    rw [List.mem_singleton.mp member]
    have layout : history.data = draft.data ++ (version.draft.data ++ []) := by
      rw [List.append_nil]
      rfl
    exact ⟨.refl _, filter_inode_items, holds_of_append layout rfl⟩
  backups := rfl
  few := by decide
  generations := by
    intro kept member
    rw [List.mem_singleton.mp member]
    decide

end Sample

end BtrfsForensic
