import BtrfsForensic.Core.Directory
import BtrfsForensic.Core.NodeRoundTrip

namespace BtrfsForensic

/-! A `btrfs_dir_item` record as it is written: a directory entry, or an extended
attribute with its value. -/

/-- The two lengths are stored in 16 bits. -/
structure DirRecord where
  location : DiskKey
  transid : UInt64
  type : UInt8
  name : Bytes
  value : Bytes
  nameFits : name.length < 2 ^ 16
  valueFits : value.length < 2 ^ 16

theorem DirRecord.valueFits_nil : ([] : Bytes).length < 2 ^ 16 := by decide

def DirRecord.named (location : DiskKey) (transid : UInt64) (type : UInt8) (name : Bytes)
    (nameFits : name.length < 2 ^ 16) : DirRecord :=
  ⟨location, transid, type, name, [], nameFits, valueFits_nil⟩

def DirRecord.entry (record : DirRecord) : DirEntry where
  name := fromUtf8Lossy record.name
  child := record.location.objectid
  itemType := DirItemType.fromByte record.type

namespace Writer

def dirRecord (record : DirRecord) : Bytes :=
  key record.location ++ (encodeLE 8 record.transid.toNat ++
    (encodeLE 2 record.value.length ++ (encodeLE 2 record.name.length ++
      ([record.type] ++ (record.name ++ record.value)))))

theorem length_dirRecord (record : DirRecord) :
    (dirRecord record).length = DirOff.name + record.name.length + record.value.length := by
  simp only [dirRecord, List.length_append, length_key, length_encodeLE,
    List.length_singleton, DirOff.name]
  omega

theorem dirRecord_ne_nil (record : DirRecord) : dirRecord record ≠ [] := by
  intro empty
  have size := length_dirRecord record
  have front : DirOff.name = 30 := rfl
  rw [empty, List.length_nil] at size
  omega

end Writer

theorem toNat_leU16_of_holds {data : Bytes} {off length : Nat} (fits : length < 2 ^ 16)
    (holds : Holds data off (encodeLE 2 length)) : (leU16 data off).toNat = length := by
  have small : (UInt16.ofNat length).toNat = length := UInt16.toNat_ofNat_of_lt' fits
  rw [← small] at holds
  rw [leU16_of_holds holds, small]

section Reading

variable {data : Bytes} {record : DirRecord}

theorem dirRecord_fields (holds : Holds data 0 (Writer.dirRecord record)) :
    location data = record.location ∧
      (leU16 data DirOff.dataLen).toNat = record.value.length ∧
      (leU16 data DirOff.nameLen).toNat = record.name.length ∧
      u8At data DirOff.type = record.type ∧ Holds data DirOff.name record.name ∧
      Holds data (DirOff.name + record.name.length) record.value := by
  simp only [Writer.dirRecord, holds_append_iff, holds_singleton_iff, Writer.length_key,
    length_encodeLE, List.length_singleton, Nat.zero_add, Nat.reduceAdd] at holds
  rcases holds with ⟨key, _, dataLen, nameLen, type, name, value⟩
  exact ⟨DiskKey.parse_of_holds key, toNat_leU16_of_holds record.valueFits dataLen,
    toNat_leU16_of_holds record.nameFits nameLen, u8At_of_getElem? type, name, value⟩

theorem parseDirItem_of_holds (holds : Holds data 0 (Writer.dirRecord record)) :
    parseDirItem data = some record.entry := by
  have size := holds.le
  rw [Writer.length_dirRecord] at size
  rcases dirRecord_fields holds with ⟨key, _, nameLen, type, name, _⟩
  have child : leU64 data 0 = record.location.objectid := congrArg DiskKey.objectid key
  have present : min record.name.length (data.length - DirOff.name) =
      record.name.length := by omega
  have stored : dirItemName data = record.name := by
    rw [Holds] at name
    rw [dirItemName]
    simp only [nameLen, present, name, Option.getD_some]
  rw [parseDirItem, if_neg (by omega), stored, child, type]
  rfl

/-- Data begins with a record exactly when the declared lengths are present. -/
theorem exists_dirRecord_iff :
    (∃ record, Holds data 0 (Writer.dirRecord record)) ↔
      DirOff.name + (leU16 data DirOff.nameLen).toNat + (leU16 data DirOff.dataLen).toNat ≤
        data.length := by
  constructor
  · intro begins
    rcases begins with ⟨record, holds⟩
    have size := holds.le
    rcases dirRecord_fields holds with ⟨_, dataLen, nameLen, _⟩
    rwa [Writer.length_dirRecord, Nat.zero_add, ← dataLen, ← nameLen] at size
  · intro complete
    have front : DirOff.name = 30 := rfl
    have nameFits := (leU16 data DirOff.nameLen).toNat_lt
    have valueFits := (leU16 data DirOff.dataLen).toNat_lt
    rcases holds_slice (Nat.le_of_add_right_le complete) with ⟨name, nameLength, stored⟩
    rcases holds_slice complete with ⟨value, valueLength, held⟩
    refine ⟨⟨location data, leU64 data 17, u8At data DirOff.type, name, value,
      by rwa [nameLength], by rwa [valueLength]⟩, ?_⟩
    simp only [Writer.dirRecord, holds_append_iff, Writer.length_key, length_encodeLE,
      List.length_singleton, Nat.zero_add, Nat.reduceAdd, nameLength, valueLength]
    exact ⟨holds_key (by omega), holds_leU64 (by omega), holds_leU16 (by omega),
      holds_leU16 (by omega), holds_u8At (by omega), stored, held⟩

end Reading

end BtrfsForensic
