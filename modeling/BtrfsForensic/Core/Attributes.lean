import BtrfsForensic.Core.DirRecord
import BtrfsForensic.Foundation.Packed

namespace BtrfsForensic

/-! Extended attributes and names of an inode, each packed record after record into
the items of one key. -/

structure Xattr where
  name : String
  value : Bytes
  deriving DecidableEq

/-- One attribute and the bytes it takes. A record without a name, or cut short, is
refused; its end cannot overflow, both lengths being of 16 bits. -/
def parseXattrItem (data : Bytes) : Option (Xattr × Nat) :=
  if data.length < DirOff.name then
    none
  else
    let dataLen := (leU16 data DirOff.dataLen).toNat
    let nameLen := (leU16 data DirOff.nameLen).toNat
    if nameLen = 0 then
      none
    else do
      let nameEnd := DirOff.name + nameLen
      let valueEnd := nameEnd + dataLen
      let name ← getRange data DirOff.name nameEnd
      let value ← getRange data nameEnd valueEnd
      some (⟨fromUtf8Lossy name, value⟩, valueEnd)

namespace InodeRefOff

abbrev index : Nat := 0x00
abbrev nameLen : Nat := 0x08
abbrev name : Nat := 0x0A

end InodeRefOff

structure InodeRef where
  parent : UInt64
  index : UInt64
  name : String
  deriving DecidableEq

def parseInodeRef (data : Bytes) (parent : UInt64) : Option (InodeRef × Nat) :=
  if data.length < InodeRefOff.name then
    none
  else
    let index := leU64 data InodeRefOff.index
    let nameLen := (leU16 data InodeRefOff.nameLen).toNat
    if nameLen = 0 then
      none
    else do
      let nameEnd := InodeRefOff.name + nameLen
      let name ← getRange data InodeRefOff.name nameEnd
      some (⟨parent, index, fromUtf8Lossy name⟩, nameEnd)

/-- The records of every item under one objectid and key type. A malformed record
ends the walk of its item. -/
def listPacked {β : Type} (keyType : UInt8) (parse : DiskKey → Bytes → Option (β × Nat))
    (leaf : Node) (objectid : UInt64) : List β :=
  leaf.leafItems.flatMap fun item =>
    if item.1.objectid ≠ objectid ∨ item.1.keyType ≠ keyType then []
    else packed (parse item.1) item.2

def listXattrs (leaf : Node) (objectid : UInt64) : List Xattr :=
  listPacked xattrItemKey (fun _ data => parseXattrItem data) leaf objectid

def listInodeRefs (leaf : Node) (objectid : UInt64) : List InodeRef :=
  listPacked inodeRefKey (fun key data => parseInodeRef data key.offset) leaf objectid

/-! ## Records as they are written -/

structure RefRecord where
  index : UInt64
  name : Bytes
  nameFits : name.length < 2 ^ 16

def Writer.refRecord (record : RefRecord) : Bytes :=
  encodeLE 8 record.index.toNat ++ (encodeLE 2 record.name.length ++ record.name)

section Records

variable {data rest : Bytes}

theorem parseXattrItem_of_holds {record : DirRecord} (named : record.name ≠ [])
    (holds : Holds data 0 (Writer.dirRecord record)) :
    parseXattrItem data = some (⟨fromUtf8Lossy record.name, record.value⟩,
      (Writer.dirRecord record).length) := by
  have size := holds.le
  rw [Writer.length_dirRecord] at size ⊢
  rcases dirRecord_fields holds with ⟨_, dataLen, nameLen, _, name, value⟩
  have long : record.name.length ≠ 0 := fun empty => named (List.length_eq_zero_iff.mp empty)
  rw [Holds] at name value
  rw [parseXattrItem, if_neg (by omega)]
  simp only [nameLen, dataLen, if_neg long, name, value, bind, Option.bind]

theorem parseXattrItem_eq_none_iff :
    parseXattrItem data = none ↔
      ∀ record : DirRecord, record.name ≠ [] → ¬Holds data 0 (Writer.dirRecord record) := by
  constructor
  · intro refused record named holds
    rw [parseXattrItem_of_holds named holds] at refused
    cases refused
  · intro foreign
    by_contra accepted
    by_cases complete : DirOff.name + (leU16 data DirOff.nameLen).toNat +
        (leU16 data DirOff.dataLen).toNat ≤ data.length
    · rcases exists_dirRecord_iff.mpr complete with ⟨record, holds⟩
      have nameless : record.name = [] := not_not.mp fun named => foreign record named holds
      have nameLen := (dirRecord_fields holds).2.2.1
      rw [nameless, List.length_nil] at nameLen
      apply accepted
      rw [parseXattrItem]
      simp only [nameLen, if_true, ite_self]
    · apply accepted
      have outside : getRange data (DirOff.name + (leU16 data DirOff.nameLen).toNat)
          (DirOff.name + (leU16 data DirOff.nameLen).toNat +
            (leU16 data DirOff.dataLen).toNat) = none := by
        rw [getRange, if_neg]
        exact fun inside => complete inside.2
      simp only [parseXattrItem, outside, Option.bind_eq_bind, Option.bind_none,
        Option.bind_fun_none, ite_self]

theorem length_refRecord (record : RefRecord) :
    (Writer.refRecord record).length = InodeRefOff.name + record.name.length := by
  simp only [Writer.refRecord, List.length_append, length_encodeLE, InodeRefOff.name]
  omega

theorem refRecord_fields {record : RefRecord} (holds : Holds data 0 (Writer.refRecord record)) :
    leU64 data InodeRefOff.index = record.index ∧
      (leU16 data InodeRefOff.nameLen).toNat = record.name.length ∧
      Holds data InodeRefOff.name record.name := by
  simp only [Writer.refRecord, holds_append_iff, length_encodeLE, Nat.zero_add,
    Nat.reduceAdd] at holds
  rcases holds with ⟨index, nameLen, name⟩
  exact ⟨leU64_of_holds index, toNat_leU16_of_holds record.nameFits nameLen, name⟩

theorem parseInodeRef_of_holds {record : RefRecord} {parent : UInt64}
    (named : record.name ≠ []) (holds : Holds data 0 (Writer.refRecord record)) :
    parseInodeRef data parent = some (⟨parent, record.index, fromUtf8Lossy record.name⟩,
      (Writer.refRecord record).length) := by
  have long : record.name.length ≠ 0 := fun empty => named (List.length_eq_zero_iff.mp empty)
  have size := holds.le
  rw [length_refRecord] at size ⊢
  rcases refRecord_fields holds with ⟨index, nameLen, name⟩
  rw [Holds] at name
  rw [parseInodeRef, if_neg (by omega)]
  simp only [index, nameLen, if_neg long, name, bind, Option.bind]

theorem parseInodeRef_eq_none_iff {parent : UInt64} :
    parseInodeRef data parent = none ↔
      ∀ record : RefRecord, record.name ≠ [] → ¬Holds data 0 (Writer.refRecord record) := by
  constructor
  · intro refused record named holds
    rw [parseInodeRef_of_holds named holds] at refused
    cases refused
  · intro foreign
    by_contra accepted
    by_cases complete : InodeRefOff.name + (leU16 data InodeRefOff.nameLen).toNat ≤ data.length
    · have front : InodeRefOff.name = 10 := rfl
      have nameFits := (leU16 data InodeRefOff.nameLen).toNat_lt
      rcases holds_slice complete with ⟨name, nameLength, stored⟩
      have holds : Holds data 0 (Writer.refRecord ⟨leU64 data InodeRefOff.index, name,
          by rwa [nameLength]⟩) := by
        simp only [Writer.refRecord, holds_append_iff, length_encodeLE, Nat.zero_add,
          Nat.reduceAdd, nameLength]
        exact ⟨holds_leU64 (by omega), holds_leU16 (by omega), stored⟩
      have nameless : name = [] := not_not.mp fun named => foreign _ named holds
      rw [nameless, List.length_nil] at nameLength
      apply accepted
      rw [parseInodeRef]
      simp only [← nameLength, if_true, ite_self]
    · apply accepted
      have outside : getRange data InodeRefOff.name
          (InodeRefOff.name + (leU16 data InodeRefOff.nameLen).toNat) = none := by
        rw [getRange, if_neg]
        exact fun inside => complete inside.2
      simp only [parseInodeRef, outside, Option.bind_eq_bind, Option.bind_none, ite_self]

end Records

/-! ## Listing -/

structure PackedItem (γ : Type) where
  key : DiskKey
  records : List γ
  tail : Bytes

def PackedItem.item {γ : Type} (encode : γ → Bytes) (packed : PackedItem γ) :
    DiskKey × Bytes :=
  (packed.key, packed.records.flatMap encode ++ packed.tail)

/-- Items under one objectid and key type, filled with records of their own and a
tail that does not parse, list their records in order. -/
theorem listPacked_eq {β γ : Type} {keyType : UInt8}
    {parse : DiskKey → Bytes → Option (β × Nat)} {leaf : Node} {objectid : UInt64}
    {encode : γ → Bytes} (decoded : DiskKey → γ → β) {items : List (PackedItem γ)}
    (layout : leaf.leafItems.filter (fun item => item.1.objectid = objectid ∧
      item.1.keyType = keyType) = items.map (PackedItem.item encode))
    (reads : ∀ item ∈ items, ∀ record ∈ item.records, ∀ rest,
      parse item.key (encode record ++ rest) =
        some (decoded item.key record, (encode record).length))
    (filled : ∀ record, encode record ≠ [])
    (stops : ∀ item ∈ items, parse item.key item.tail = none) :
    listPacked keyType parse leaf objectid =
      items.flatMap fun item => item.records.map (decoded item.key) := by
  have selected : listPacked keyType parse leaf objectid =
      (leaf.leafItems.filter fun item => item.1.objectid = objectid ∧
        item.1.keyType = keyType).flatMap fun item => packed (parse item.1) item.2 := by
    rw [listPacked]
    induction leaf.leafItems with
    | nil => rfl
    | cons item rest induction =>
        by_cases own : item.1.objectid = objectid ∧ item.1.keyType = keyType
        · rw [List.filter_cons_of_pos (by simpa using own), List.flatMap_cons,
            List.flatMap_cons, induction, if_neg (by simpa using own)]
        · rw [List.filter_cons_of_neg (by simpa using own), List.flatMap_cons, induction,
            if_pos (not_and_or.mp own), List.nil_append]
  rw [selected, layout, List.flatMap_map]
  apply List.flatMap_congr
  intro item member
  exact packed_flatMap (reads item member) (fun record _ => filled record)
    (stops item member)

def Xattr.ofRecord (record : DirRecord) : Xattr :=
  ⟨fromUtf8Lossy record.name, record.value⟩

def InodeRef.ofRecord (key : DiskKey) (record : RefRecord) : InodeRef :=
  ⟨key.offset, record.index, fromUtf8Lossy record.name⟩

theorem listXattrs_eq {leaf : Node} {objectid : UInt64} {items : List (PackedItem DirRecord)}
    (layout : leaf.leafItems.filter (fun item => item.1.objectid = objectid ∧
      item.1.keyType = xattrItemKey) = items.map (PackedItem.item Writer.dirRecord))
    (named : ∀ item ∈ items, ∀ record ∈ item.records, record.name ≠ [])
    (stops : ∀ item ∈ items, ∀ record : DirRecord, record.name ≠ [] →
      ¬Holds item.tail 0 (Writer.dirRecord record)) :
    listXattrs leaf objectid =
      items.flatMap fun item => item.records.map Xattr.ofRecord := by
  apply listPacked_eq (fun _ => Xattr.ofRecord) layout
  · intro item member record inItem rest
    exact parseXattrItem_of_holds (named item member record inItem) (holds_front _ rest)
  · exact Writer.dirRecord_ne_nil
  · exact fun item member => parseXattrItem_eq_none_iff.mpr (stops item member)

theorem listInodeRefs_eq {leaf : Node} {objectid : UInt64}
    {items : List (PackedItem RefRecord)}
    (layout : leaf.leafItems.filter (fun item => item.1.objectid = objectid ∧
      item.1.keyType = inodeRefKey) = items.map (PackedItem.item Writer.refRecord))
    (named : ∀ item ∈ items, ∀ record ∈ item.records, record.name ≠ [])
    (stops : ∀ item ∈ items, ∀ record : RefRecord, record.name ≠ [] →
      ¬Holds item.tail 0 (Writer.refRecord record)) :
    listInodeRefs leaf objectid =
      items.flatMap fun item => item.records.map (InodeRef.ofRecord item.key) := by
  apply listPacked_eq InodeRef.ofRecord layout
  · intro item member record inItem rest
    exact parseInodeRef_of_holds (named item member record inItem) (holds_front _ rest)
  · intro record empty
    have size := length_refRecord record
    have front : InodeRefOff.name = 10 := rfl
    rw [empty, List.length_nil] at size
    omega
  · exact fun item member => parseInodeRef_eq_none_iff.mpr (stops item member)

/-- The records packed into the items of an inode are listed in item order, and
nothing else is: attributes with their values, names with their directory. A UTF-8
name is listed as it is stored. -/
theorem packed_records_listed (leaf : Node) (objectid : UInt64) :
    (∀ items : List (PackedItem DirRecord),
      leaf.leafItems.filter (fun item => item.1.objectid = objectid ∧
        item.1.keyType = xattrItemKey) = items.map (PackedItem.item Writer.dirRecord) →
      (∀ item ∈ items, (∀ record ∈ item.records, record.name ≠ []) ∧
        ∀ record : DirRecord, record.name ≠ [] →
          ¬Holds item.tail 0 (Writer.dirRecord record)) →
      listXattrs leaf objectid =
        items.flatMap fun item => item.records.map Xattr.ofRecord) ∧
      (∀ items : List (PackedItem RefRecord),
        leaf.leafItems.filter (fun item => item.1.objectid = objectid ∧
          item.1.keyType = inodeRefKey) = items.map (PackedItem.item Writer.refRecord) →
        (∀ item ∈ items, (∀ record ∈ item.records, record.name ≠ []) ∧
          ∀ record : RefRecord, record.name ≠ [] →
            ¬Holds item.tail 0 (Writer.refRecord record)) →
        listInodeRefs leaf objectid =
          items.flatMap fun item => item.records.map (InodeRef.ofRecord item.key)) ∧
      ∀ name : String,
        (∀ record : DirRecord, record.name = nameBytes name →
          (Xattr.ofRecord record).name = name) ∧
        ∀ (key : DiskKey) (record : RefRecord), record.name = nameBytes name →
          (InodeRef.ofRecord key record).name = name := by
  refine ⟨fun items layout parts => ?_, fun items layout parts => ?_, fun name => ?_⟩
  · exact listXattrs_eq layout (fun item member => (parts item member).1)
      fun item member => (parts item member).2
  · exact listInodeRefs_eq layout (fun item member => (parts item member).1)
      fun item member => (parts item member).2
  · constructor
    · intro record stored
      rw [Xattr.ofRecord, stored, fromUtf8Lossy_nameBytes]
    · intro key record stored
      rw [InodeRef.ofRecord, stored, fromUtf8Lossy_nameBytes]

/-! ## Packed items -/

def attributeRecord (name value : Bytes) (nameFits : name.length < 2 ^ 16)
    (valueFits : value.length < 2 ^ 16) : DirRecord :=
  ⟨⟨0, 0, 0⟩, 1, 8, name, value, nameFits, valueFits⟩

/-- Two attributes share an item, which ends in a record without a name. -/
def collidingAttributes : PackedItem DirRecord :=
  ⟨⟨256, xattrItemKey, 7⟩, [attributeRecord (nameBytes "user.a") [1, 2] (by decide) (by decide),
    attributeRecord (nameBytes "user.b") [] (by decide) (by decide)], List.replicate 40 0⟩

/-- Two links in one directory share an item. -/
def packedLinks : PackedItem RefRecord :=
  ⟨⟨256, inodeRefKey, 300⟩, [⟨3, nameBytes "x", by decide⟩, ⟨5, nameBytes "y", by decide⟩], []⟩

def attributeLeaf : Node :=
  Node.ofBlock Crates.withoutCodecs (Writer.leaf 1024 ⟨List.Vector.replicate 16 0, 4096, 1, 5⟩
    [packedLinks.item Writer.refRecord, collidingAttributes.item Writer.dirRecord,
      (⟨257, xattrItemKey, 9⟩, [5])])

theorem leafItems_attributeLeaf :
    attributeLeaf.leafItems = [packedLinks.item Writer.refRecord,
      collidingAttributes.item Writer.dirRecord, (⟨257, xattrItemKey, 9⟩, [5])] :=
  Writer.leafItems_leaf (by decide) (by decide +kernel)

theorem packed_records_listed_in_attributeLeaf :
    listXattrs attributeLeaf 256 = [⟨"user.a", [1, 2]⟩, ⟨"user.b", []⟩] ∧
      listInodeRefs attributeLeaf 256 = [⟨300, 3, "x"⟩, ⟨300, 5, "y"⟩] := by
  constructor
  · rw [(packed_records_listed attributeLeaf 256).1 [collidingAttributes]]
    · simp only [collidingAttributes, attributeRecord, Xattr.ofRecord, List.flatMap_singleton,
        List.map_cons, List.map_nil, fromUtf8Lossy_nameBytes]
    · rw [leafItems_attributeLeaf]
      rfl
    · intro item member
      rw [List.mem_singleton.mp member]
      exact ⟨by decide, parseXattrItem_eq_none_iff.mp (by decide +kernel)⟩
  · rw [(packed_records_listed attributeLeaf 256).2.1 [packedLinks]]
    · simp only [packedLinks, InodeRef.ofRecord, List.flatMap_singleton, List.map_cons,
        List.map_nil, fromUtf8Lossy_nameBytes]
    · rw [leafItems_attributeLeaf]
      rfl
    · intro item member
      rw [List.mem_singleton.mp member]
      have refused : parseInodeRef packedLinks.tail 300 = none := by decide
      exact ⟨by decide, parseInodeRef_eq_none_iff.mp refused⟩

/-- An attribute whose name is the byte `0xFF`. -/
def foreignAttribute : DirRecord := attributeRecord [0xFF] [] (by decide) (by decide)

def foreignLeaf : Node :=
  Node.ofBlock Crates.withoutCodecs (Writer.leaf 1024 ⟨List.Vector.replicate 16 0, 4096, 1, 5⟩
    [(⟨256, xattrItemKey, 7⟩, Writer.dirRecord foreignAttribute)])

/-- A record whose name is not UTF-8 is listed too, though no record with a UTF-8 name
begins its item. -/
theorem foreign_name_listed :
    foreignLeaf.leafItems = [(⟨256, xattrItemKey, 7⟩, Writer.dirRecord foreignAttribute)] ∧
      (∀ (name : String) (record : DirRecord), record.name = nameBytes name →
        ¬Holds (Writer.dirRecord foreignAttribute) 0 (Writer.dirRecord record)) ∧
      listXattrs foreignLeaf 256 = [⟨"\uFFFD", []⟩] := by
  have items : foreignLeaf.leafItems =
      [(⟨256, xattrItemKey, 7⟩, Writer.dirRecord foreignAttribute)] :=
    Writer.leafItems_leaf (by decide) (by decide +kernel)
  refine ⟨items, fun name record stored holds => ?_, ?_⟩
  · rcases dirRecord_fields holds with ⟨_, _, nameLen, _, held, _⟩
    rcases dirRecord_fields (holds_of_eq (rfl : Writer.dirRecord foreignAttribute = _)) with
      ⟨_, _, foreignLen, _, foreign, _⟩
    have same : nameBytes name = [0xFF] := by
      rw [← stored]
      exact held.eq_of_length foreign (nameLen.symm.trans foreignLen)
    have replaced : name = fromUtf8Lossy [0xFF] := by
      rw [← same, fromUtf8Lossy_nameBytes]
    rw [replaced] at same
    exact absurd same (by decide)
  · have layout : foreignLeaf.leafItems.filter (fun item => item.1.objectid = 256 ∧
        item.1.keyType = xattrItemKey) =
          [PackedItem.mk ⟨256, xattrItemKey, 7⟩ [foreignAttribute] []].map
            (PackedItem.item Writer.dirRecord) := by
      rw [items]
      rfl
    rw [listXattrs_eq layout (by decide)]
    · decide
    · intro item member
      rw [List.mem_singleton.mp member]
      exact parseXattrItem_eq_none_iff.mp (by decide)

end BtrfsForensic
