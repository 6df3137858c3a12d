import BtrfsForensic.Core.Extent
import BtrfsForensic.Forensic.Audit
import BtrfsForensic.Forensic.Sha256

namespace BtrfsForensic

/-! Deleted-file recovery: an older generation's `FS_TREE` node is diffed
against the current one. -/

structure RecoveredFile where
  path : String
  inode : UInt64
  generation : UInt64
  size : UInt64
  content : Bytes
  contentSha256 : String

/-! ## Names -/

def inodeSet (leaf : Node) : List UInt64 :=
  (leaf.leafItems.filter fun item => item.1.keyType = inodeItemKey).map
    fun item => item.1.objectid

/-- A child inode's directory-entry name, by the first entry that names it. -/
structure DirNames where
  entries : List (UInt64 × String)

def DirNames.getName (names : DirNames) (ino : UInt64) : Option String :=
  (names.entries.find? fun entry => entry.1 = ino).map Prod.snd

def DirNames.add (names : DirNames) (item : DiskKey × Bytes) : DirNames :=
  let data := item.2
  if item.1.keyType ≠ dirItemKey ∧ item.1.keyType ≠ dirIndexKey then
    names
  else if data.length < DirOff.name then
    names
  else
    let child := leU64 data 0
    let nameLen := (leU16 data DirOff.nameLen).toNat
    let take := min nameLen (data.length - DirOff.name)
    let nameBytes := (getRange data DirOff.name (DirOff.name + take)).getD []
    if names.entries.all fun entry => entry.1 ≠ child then
      ⟨names.entries ++ [(child, fromUtf8Lossy nameBytes)]⟩
    else
      names

def dirNames (leaf : Node) : DirNames := leaf.leafItems.foldl DirNames.add ⟨[]⟩

/-! ## Carving -/

/-- What makes an old inode item a deleted file that can be carved. -/
def Carvable (old current : Node) (item : DiskKey × Bytes) : Prop :=
  item.1.keyType = inodeItemKey ∧ 257 ≤ item.1.objectid ∧
    item.1.objectid ∉ inodeSet current ∧
    ∃ other ∈ old.leafItems,
      other.1.objectid = item.1.objectid ∧ other.1.keyType = extentDataKey

instance (old current : Node) (item : DiskKey × Bytes) :
    Decidable (Carvable old current item) :=
  inferInstanceAs (Decidable (_ ∧ _ ∧ _ ∧ _))

/-- `read_file_from_leaf(..).unwrap_or_default()`: a failed read leaves empty
content. -/
def carvedContent (crates : Crates) (old : Node) (image : Bytes) (map : ChunkMap)
    (sectorsize : UInt32) (ino : UInt64) : Bytes :=
  match readFileFromLeaf crates old image map sectorsize ino with
  | .ok content => content
  | .error _ => []

def carve (crates : Crates) (old : Node) (image : Bytes) (map : ChunkMap)
    (sectorsize : UInt32) (item : DiskKey × Bytes) : RecoveredFile :=
  let ino := item.1.objectid
  let content := carvedContent crates old image map sectorsize ino
  { path := ((dirNames old).getName ino).getD s!"inode_{ino}"
    inode := ino
    generation := old.header.generation
    size := leU64 item.2 inodeSizeOffset
    content := content
    contentSha256 := sha256Hex content }

def recoverDeletedFromLeaves (crates : Crates) (old current : Node)
    (image : Bytes) (map : ChunkMap) (sectorsize : UInt32) :
    List RecoveredFile :=
  if old.header.owner ≠ fsTreeObjectid then
    []
  else
    (old.leafItems.filter fun item => Carvable old current item).map
      (carve crates old image map sectorsize)

/-- Appends the records of inodes that have none yet, in order. -/
def addRecords (out : List RecoveredFile) (records : List RecoveredFile) :
    List RecoveredFile :=
  records.foldl (fun out record =>
    if out.any fun known => known.inode = record.inode then out
    else out ++ [record]) out

def oldNodes (crates : Crates) (image : Bytes) (sb : Superblock) (map : ChunkMap)
    (currentRoot : UInt64) (backups : List RootBackup) : List Node :=
  backups.filterMap fun backup =>
    if backup.fsRoot = 0 ∨ backup.fsRoot = currentRoot then
      none
    else
      (readNode crates image sb map backup.fsRoot).toOption

def recoverDeleted (crates : Crates) (image : Bytes) : List RecoveredFile :=
  match superblockBlock image with
  | none => []
  | some sbBlock =>
      match Superblock.parse crates sbBlock with
      | .error _ => []
      | .ok sb =>
          let map := auditMap crates image sb
          match fsTreeRoot crates image sb map with
          | .error _ => []
          | .ok curRoot =>
              match readNode crates image sb map curRoot.bytenr with
              | .error _ => []
              | .ok current =>
                  (oldNodes crates image sb map curRoot.bytenr
                    (parseBackupRoots sbBlock)).foldl
                    (fun out old => addRecords out
                      (recoverDeletedFromLeaves crates old current image map
                        sb.sectorsize)) []

end BtrfsForensic
