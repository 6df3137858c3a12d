import BtrfsForensic.Core.DirRecord
import BtrfsForensic.Foundation.Packed

namespace BtrfsForensic

/-! Names whose hashes collide share a directory item, record after record; which of
them a listing shows. -/

/-- A record as the format has it, with a name and wholly present, and the bytes it
takes. This is what a directory item holds; the listing does not use it. -/
def dirRecordAt (data : Bytes) : Option (DirEntry × Nat) :=
  let nameLen := (leU16 data DirOff.nameLen).toNat
  let dataLen := (leU16 data DirOff.dataLen).toNat
  if nameLen = 0 ∨ data.length < DirOff.name + nameLen + dataLen then
    none
  else
    some (⟨fromUtf8Lossy ((getRange data DirOff.name (DirOff.name + nameLen)).getD []),
      leU64 data 0, DirItemType.fromByte (u8At data DirOff.type)⟩,
      DirOff.name + nameLen + dataLen)

def packedEntries (data : Bytes) : List DirEntry := packed dirRecordAt data

section Entries

variable {data tail : Bytes} {records : List DirRecord}

theorem dirRecordAt_of_holds {record : DirRecord} (named : record.name ≠ [])
    (holds : Holds data 0 (Writer.dirRecord record)) :
    dirRecordAt data = some (record.entry, (Writer.dirRecord record).length) := by
  have size := holds.le
  rw [Writer.length_dirRecord] at size ⊢
  rcases dirRecord_fields holds with ⟨key, dataLen, nameLen, type, name, _⟩
  have child : leU64 data 0 = record.location.objectid := congrArg DiskKey.objectid key
  have long : record.name.length ≠ 0 := fun empty => named (List.length_eq_zero_iff.mp empty)
  rw [Holds] at name
  rw [dirRecordAt]
  simp only [nameLen, dataLen, child, type, name, Option.getD_some]
  rw [if_neg (by omega)]
  rfl

/-- Records that are packed into an item, up to a tail that is none, are its entries. -/
theorem packedEntries_flatMap (named : ∀ record ∈ records, record.name ≠ [])
    (stops : dirRecordAt tail = none) :
    packedEntries (records.flatMap Writer.dirRecord ++ tail) = records.map DirRecord.entry := by
  apply packed_flatMap
  · exact fun record member rest =>
      dirRecordAt_of_holds (named record member) (holds_front _ rest)
  · exact fun record _ => Writer.dirRecord_ne_nil record
  · exact stops

theorem parseDirItem_of_packedEntries {entry : DirEntry} {rest : List DirEntry}
    (packedAs : packedEntries data = entry :: rest) : parseDirItem data = some entry := by
  rcases packed_eq_nil_or_cons dirRecordAt data with
    ⟨_, empty⟩ | ⟨first, consumed, later, parsed, found⟩
  · rw [packedEntries, empty] at packedAs
    cases packedAs
  · rw [packedEntries, found] at packedAs
    rw [dirRecordAt] at parsed
    split at parsed
    · cases parsed
    case isFalse complete =>
      have front : DirOff.name = 30 := rfl
      have present : min (leU16 data DirOff.nameLen).toNat (data.length - DirOff.name) =
          (leU16 data DirOff.nameLen).toNat := by omega
      cases packedAs
      cases parsed
      rw [parseDirItem, if_neg (by omega), dirItemName]
      simp only [present]

end Entries

/-- Every entry of a directory's items is listed, and each name and child once,
exactly when every further entry of an item has the name and child of the first
record of some item. -/
theorem listDir_complete_iff (leaf : Node) (dirObjectid : UInt64) :
    ((∀ data ∈ dirItems leaf dirObjectid, ∀ entry ∈ packedEntries data,
        ∃ listed ∈ listDir leaf dirObjectid, listed.key = entry.key) ∧
      ((listDir leaf dirObjectid).map DirEntry.key).Nodup) ↔
      ∀ data ∈ dirItems leaf dirObjectid, ∀ further ∈ (packedEntries data).tail,
        ∃ other ∈ dirItems leaf dirObjectid, ∃ first,
          parseDirItem other = some first ∧ first.key = further.key := by
  constructor
  · intro complete data inDir further member
    exact exists_mem_listDir_iff.mp
      (complete.1 data inDir further (List.mem_of_mem_tail member))
  · intro covered
    refine ⟨fun data inDir entry member => exists_mem_listDir_iff.mpr ?_, nodup_listDir⟩
    cases found : packedEntries data with
    | nil =>
        rw [found] at member
        exact absurd member List.not_mem_nil
    | cons first rest =>
        rw [found] at member
        rcases List.mem_cons.mp member with rfl | later
        · exact ⟨data, inDir, entry, parseDirItem_of_packedEntries found, rfl⟩
        · apply covered data inDir
          rwa [found]

/-! ## Two names in one item -/

def collidingFile (name : Bytes) (child : UInt64) (fits : name.length < 2 ^ 16) : DirRecord :=
  .named ⟨child, inodeItemKey, 0⟩ 8 1 name fits

/-- Two files whose names share a hash. -/
def collidingFiles : List DirRecord :=
  [collidingFile (nameBytes "a") 257 (by decide), collidingFile (nameBytes "b") 258 (by decide)]

def collidingLeaf : Node :=
  Node.ofBlock Crates.withoutCodecs (Writer.leaf 1024 ⟨List.Vector.replicate 16 0, 4096, 1, 5⟩
    [(⟨256, dirItemKey, 7⟩, collidingFiles.flatMap Writer.dirRecord)])

/-- Only the first of the two is listed. -/
theorem packed_name_unlisted :
    dirItems collidingLeaf 256 = [collidingFiles.flatMap Writer.dirRecord] ∧
      packedEntries (collidingFiles.flatMap Writer.dirRecord) =
        [⟨"a", 257, .file⟩, ⟨"b", 258, .file⟩] ∧
      listDir collidingLeaf 256 = [⟨"a", 257, .file⟩] := by
  have items : collidingLeaf.leafItems =
      [(⟨256, dirItemKey, 7⟩, collidingFiles.flatMap Writer.dirRecord)] :=
    Writer.leafItems_leaf (by decide) (by decide +kernel)
  have inDir : dirItems collidingLeaf 256 = [collidingFiles.flatMap Writer.dirRecord] := by
    rw [dirItems, items]
    rfl
  have entries : packedEntries (collidingFiles.flatMap Writer.dirRecord) =
      [⟨"a", 257, .file⟩, ⟨"b", 258, .file⟩] := by
    rw [← List.append_nil (collidingFiles.flatMap Writer.dirRecord),
      packedEntries_flatMap (by decide) (by decide)]
    decide
  refine ⟨inDir, entries, ?_⟩
  rw [listDir_eq, inDir, List.filterMap_cons_some (parseDirItem_of_packedEntries entries)]
  rfl

end BtrfsForensic
