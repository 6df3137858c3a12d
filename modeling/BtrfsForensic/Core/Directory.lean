import BtrfsForensic.Core.Inode
import BtrfsForensic.Core.Utf8
import BtrfsForensic.Foundation.First

namespace BtrfsForensic

/-! Directory entries and the listing of a directory in one leaf. -/

/-- An unnamed type keeps its raw byte. -/
inductive DirItemType
  | file
  | dir
  | symlink
  | other (byte : UInt8)
  deriving DecidableEq

def DirItemType.fromByte (byte : UInt8) : DirItemType :=
  if byte = 1 then file
  else if byte = 2 then dir
  else if byte = 7 then symlink
  else other byte

structure DirEntry where
  name : String
  child : UInt64
  itemType : DirItemType
  deriving DecidableEq

/-- The name bytes of a directory item, as many as are present. -/
def dirItemName (data : Bytes) : Bytes :=
  let nameLen := (leU16 data DirOff.nameLen).toNat
  let take := min nameLen (data.length - DirOff.name)
  (getRange data DirOff.name (DirOff.name + take)).getD []

/-- The first record of a directory item, unless the fixed prefix is cut short. -/
def parseDirItem (data : Bytes) : Option DirEntry :=
  if data.length < DirOff.name then
    none
  else
    some {
      name := fromUtf8Lossy (dirItemName data)
      child := leU64 data 0
      itemType := DirItemType.fromByte (u8At data DirOff.type) }

/-- Whether a leaf item belongs to a directory. -/
def IsDirItem (dirObjectid : UInt64) (key : DiskKey) : Prop :=
  key.objectid = dirObjectid ∧ (key.keyType = dirItemKey ∨ key.keyType = dirIndexKey)

instance (dirObjectid : UInt64) (key : DiskKey) : Decidable (IsDirItem dirObjectid key) :=
  inferInstanceAs (Decidable (_ ∧ (_ ∨ _)))

/-- One leaf item of the listing loop: an entry is listed once by name and
child. -/
def listDirStep (dirObjectid : UInt64) (out : List DirEntry)
    (item : DiskKey × Bytes) : List DirEntry :=
  if IsDirItem dirObjectid item.1 then
    match parseDirItem item.2 with
    | none => out
    | some entry =>
        if out.any fun listed => (listed.name, listed.child) = (entry.name, entry.child) then
          out
        else out ++ [entry]
  else
    out

def listDir (leaf : Node) (dirObjectid : UInt64) : List DirEntry :=
  leaf.leafItems.foldl (listDirStep dirObjectid) []

/-! ## What is listed -/

/-- The location key a directory record begins with. -/
def location (data : Bytes) : DiskKey := DiskKey.parse data 0

def dirItems (leaf : Node) (dirObjectid : UInt64) : List Bytes :=
  (leaf.leafItems.filter fun item => IsDirItem dirObjectid item.1).map Prod.snd

/-- What the listing tells two entries apart by. -/
def DirEntry.key (entry : DirEntry) : String × UInt64 := (entry.name, entry.child)

section Listing

variable {leaf : Node} {dirObjectid : UInt64} {entry : DirEntry}

/-- The listing is the first record of every item, each name and child once. -/
theorem listDir_eq :
    listDir leaf dirObjectid =
      keepFirst DirEntry.key [] ((dirItems leaf dirObjectid).filterMap parseDirItem) := by
  rw [listDir, dirItems]
  generalize ([] : List DirEntry) = out
  induction leaf.leafItems generalizing out with
  | nil => rfl
  | cons item items induction =>
      rw [List.foldl_cons, listDirStep]
      by_cases belongs : IsDirItem dirObjectid item.1
      · rw [if_pos belongs, List.filter_cons_of_pos (by simpa using belongs), List.map_cons]
        cases parsed : parseDirItem item.2 with
        | none => rw [List.filterMap_cons_none parsed, induction]
        | some entry =>
            rw [List.filterMap_cons_some parsed, induction, KeepFirst.cons]
            rfl
      · rw [if_neg belongs, List.filter_cons_of_neg (by simpa using belongs), induction]

theorem nodup_listDir : ((listDir leaf dirObjectid).map DirEntry.key).Nodup := by
  rw [listDir_eq]
  exact KeepFirst.nodup_map List.nodup_nil

theorem exists_mem_listDir_iff {wanted : String × UInt64} :
    (∃ entry ∈ listDir leaf dirObjectid, entry.key = wanted) ↔
      ∃ data ∈ dirItems leaf dirObjectid, ∃ entry,
        parseDirItem data = some entry ∧ entry.key = wanted := by
  rw [listDir_eq, KeepFirst.exists_mem_iff]
  simp only [List.mem_filterMap]
  constructor
  · intro found
    rcases found with ⟨entry, ⟨data, member, parsed⟩, same⟩
    exact ⟨data, member, entry, parsed, same⟩
  · intro found
    rcases found with ⟨data, member, entry, parsed, same⟩
    exact ⟨entry, ⟨data, member, parsed⟩, same⟩

/-- A question about name and child is answered by the first record that satisfies
it. -/
theorem find?_listDir {holds : DirEntry → Bool}
    (respects : ∀ left right : DirEntry, left.key = right.key → holds left = holds right) :
    (listDir leaf dirObjectid).find? holds =
      ((dirItems leaf dirObjectid).filterMap parseDirItem).find? holds := by
  rw [listDir_eq, KeepFirst.find?_eq respects, List.nil_append]

end Listing

end BtrfsForensic
