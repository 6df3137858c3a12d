import BtrfsForensic.Core.OpenedDisk

namespace BtrfsForensic

/-! Raw names through the adapter: what a stored name is listed and looked up as. -/

/-- The bytes that a raw name is shown as. -/
def shownName (raw : Bytes) : Bytes := nameBytes (fromUtf8Lossy raw)

theorem shownName_nameBytes (name : String) : shownName (nameBytes name) = nameBytes name := by
  rw [shownName, fromUtf8Lossy_nameBytes]

section Names

variable {fs : BtrfsFs} {dirObjectid : UInt64} {key : DiskKey} {record : DirRecord}

theorem mem_dirItems (member : (key, Writer.dirRecord record) ∈ fs.leaf.leafItems)
    (belongs : IsDirItem dirObjectid key) :
    Writer.dirRecord record ∈ dirItems fs.leaf dirObjectid := by
  apply List.mem_map.mpr
  exact ⟨_, List.mem_filter.mpr ⟨member, decide_eq_true belongs⟩, rfl⟩

theorem exists_mem_readDir (member : (key, Writer.dirRecord record) ∈ fs.leaf.leafItems)
    (belongs : IsDirItem dirObjectid key) :
    ∃ entries, fs.readDir (.objectid dirObjectid) = .ok entries ∧
      ∃ shown : VfsDirEntry, .ok shown ∈ entries ∧ shown.name = shownName record.name ∧
        shown.id = .objectid record.location.objectid := by
  have listed : ∃ entry ∈ listDir fs.leaf dirObjectid, entry.key = record.entry.key :=
    exists_mem_listDir_iff.mpr ⟨_, mem_dirItems member belongs, record.entry,
      parseDirItem_of_holds (holds_of_eq rfl), rfl⟩
  rcases listed with ⟨entry, inListing, same⟩
  rcases Prod.mk.inj same with ⟨name, child⟩
  refine ⟨_, rfl, VfsDirEntry.ofEntry entry, List.mem_map_of_mem inListing, ?_, ?_⟩
  · exact congrArg nameBytes name
  · exact congrArg FileId.objectid child

theorem lookup_eq (member : (key, Writer.dirRecord record) ∈ fs.leaf.leafItems)
    (belongs : IsDirItem dirObjectid key)
    (only : ∀ data ∈ dirItems fs.leaf dirObjectid, ∀ other, parseDirItem data = some other →
      nameBytes other.name = shownName record.name → other.child = record.location.objectid) :
    fs.lookup (.objectid dirObjectid) (shownName record.name) =
      .ok (some (.objectid record.location.objectid)) := by
  have found : ((listDir fs.leaf dirObjectid).find? fun entry =>
      nameBytes entry.name = shownName record.name).isSome := by
    rw [List.find?_isSome]
    rcases exists_mem_listDir_iff.mpr ⟨_, mem_dirItems member belongs, record.entry,
      parseDirItem_of_holds (holds_of_eq rfl), rfl⟩ with ⟨entry, inListing, same⟩
    exact ⟨entry, inListing, decide_eq_true (congrArg nameBytes (Prod.mk.inj same).1)⟩
  rcases Option.isSome_iff_exists.mp found with ⟨entry, first⟩
  have name : nameBytes entry.name = shownName record.name := by
    simpa using List.find?_some first
  have child : entry.child = record.location.objectid := by
    rcases exists_mem_listDir_iff.mp ⟨entry, List.mem_of_find?_eq_some first, rfl⟩ with
      ⟨data, inDir, other, parsed, same⟩
    rcases Prod.mk.inj same with ⟨sameName, sameChild⟩
    rw [← sameChild]
    exact only data inDir other parsed (by rw [sameName, name])
  change Except.ok (((listDir fs.leaf dirObjectid).find? fun entry =>
    nameBytes entry.name = shownName record.name).map fun entry =>
      FileId.objectid entry.child) = _
  rw [first, Option.map_some, child]

/-- A record is listed by its shown name and child, and looked up by its shown name
when no item of the directory gives that name to another child; records of different
shown names are different entries; and a UTF-8 name is shown as it is. -/
theorem stored_name_found (fs : BtrfsFs) (dirObjectid : UInt64)
    (member : (key, Writer.dirRecord record) ∈ fs.leaf.leafItems)
    (belongs : IsDirItem dirObjectid key) :
    ∃ entries, fs.readDir (.objectid dirObjectid) = .ok entries ∧
      (∃ shown : VfsDirEntry, .ok shown ∈ entries ∧ shown.name = shownName record.name ∧
        shown.id = .objectid record.location.objectid) ∧
      ((∀ data ∈ dirItems fs.leaf dirObjectid, ∀ other, parseDirItem data = some other →
          nameBytes other.name = shownName record.name →
            other.child = record.location.objectid) →
        fs.lookup (.objectid dirObjectid) (shownName record.name) =
          .ok (some (.objectid record.location.objectid))) ∧
      (∀ otherKey other, (otherKey, Writer.dirRecord other) ∈ fs.leaf.leafItems →
        IsDirItem dirObjectid otherKey → shownName record.name ≠ shownName other.name →
        ∃ (index otherIndex : Nat) (shown otherShown : VfsDirEntry), index ≠ otherIndex ∧
          entries[index]? = some (.ok shown) ∧ shown.name = shownName record.name ∧
          entries[otherIndex]? = some (.ok otherShown) ∧
          otherShown.name = shownName other.name) ∧
      ∀ name, record.name = nameBytes name → shownName record.name = record.name := by
  rcases exists_mem_readDir member belongs with ⟨entries, listed, shown, found, name, id⟩
  refine ⟨entries, listed, ⟨shown, found, name, id⟩, lookup_eq member belongs, ?_, ?_⟩
  · intro otherKey other otherMember otherBelongs different
    rcases exists_mem_readDir otherMember otherBelongs with
      ⟨others, again, otherShown, otherFound, otherName, _⟩
    rw [listed, Except.ok.injEq] at again
    subst again
    rcases List.mem_iff_getElem?.mp found with ⟨index, place⟩
    rcases List.mem_iff_getElem?.mp otherFound with ⟨otherIndex, otherPlace⟩
    refine ⟨index, otherIndex, shown, otherShown, fun same => ?_, place, name, otherPlace,
      otherName⟩
    rw [same, otherPlace, Option.some.injEq, Except.ok.injEq] at place
    exact different (by rw [← name, ← otherName, place])
  · intro stored equal
    rw [equal, shownName_nameBytes]

end Names

/-! ## Names that are UTF-8 and names that are not -/

def fileEntry (name : Bytes) (fits : name.length < 2 ^ 16) : DirRecord :=
  .named ⟨257, inodeItemKey, 0⟩ 8 1 name fits

def oneEntry (record : DirRecord) : List (DiskKey × Bytes) :=
  [(⟨256, dirIndexKey, 2⟩, Writer.dirRecord record)]

def accented : DirRecord := fileEntry (nameBytes "é") (by decide)

theorem itemsFit_accented : Disk.ItemsFit (oneEntry accented) := by
  rw [Disk.ItemsFit]
  decide +kernel

/-- A UTF-8 name is looked up as it is stored. -/
theorem stored_name_found_in_accented :
    ∃ fs, BtrfsFs.ofImage Crates.withoutCodecs
        (Disk.ofItems (oneEntry accented) itemsFit_accented).image = .ok fs ∧
      fs.lookup (.objectid 256) [0xC3, 0xA9] = .ok (some (.objectid 257)) := by
  rcases Disk.ofImage_ofItems itemsFit_accented with ⟨fs, opened, _, items⟩
  have member : (⟨256, dirIndexKey, 2⟩, Writer.dirRecord accented) ∈ fs.leaf.leafItems := by
    rw [items]
    exact List.mem_cons_self
  have belongs : IsDirItem 256 ⟨256, dirIndexKey, 2⟩ := by decide
  rcases stored_name_found fs 256 member belongs with ⟨_, _, _, found, _, exact⟩
  have stored : shownName accented.name = [0xC3, 0xA9] := by
    rw [exact "é" rfl]
    decide
  refine ⟨fs, opened, ?_⟩
  rw [← stored]
  apply found
  intro data inDir other parsed _
  rw [dirItems, items] at inDir
  rw [List.mem_singleton.mp inDir, parseDirItem_of_holds (holds_of_eq rfl)] at parsed
  cases parsed
  rfl

theorem nameFits_foreign : ([0xFF] : Bytes).length < 2 ^ 16 := by decide

/-- The entry of a file whose name is the byte `0xFF`. -/
def foreign : DirRecord := fileEntry [0xFF] nameFits_foreign

theorem itemsFit_foreign : Disk.ItemsFit (oneEntry foreign) := by
  rw [Disk.ItemsFit]
  decide +kernel

/-- A name that is not UTF-8 is neither listed nor looked up as it is stored. -/
theorem stored_name_not_found :
    ∃ fs, BtrfsFs.ofImage Crates.withoutCodecs
        (Disk.ofItems (oneEntry foreign) itemsFit_foreign).image = .ok fs ∧
      fs.leaf.leafItems = [(⟨256, dirIndexKey, 2⟩, Writer.dirRecord foreign)] ∧
      fs.readDir (.objectid 256) = .ok [.ok ⟨[0xEF, 0xBF, 0xBD], .objectid 257, .file⟩] ∧
      fs.lookup (.objectid 256) [0xFF] = .ok none := by
  rcases Disk.ofImage_ofItems itemsFit_foreign with ⟨fs, opened, _, items⟩
  have listed : listDir fs.leaf 256 = [foreign.entry] := by
    rw [listDir_eq, dirItems, items]
    change keepFirst DirEntry.key [] ([Writer.dirRecord foreign].filterMap parseDirItem) = _
    rw [List.filterMap_cons_some (parseDirItem_of_holds (holds_of_eq rfl))]
    rfl
  refine ⟨fs, opened, items, ?_, ?_⟩
  · change Except.ok ((listDir fs.leaf 256).map fun entry =>
      Except.ok (VfsDirEntry.ofEntry entry)) = _
    rw [listed]
    decide
  · change Except.ok (((listDir fs.leaf 256).find? fun entry =>
      nameBytes entry.name = [0xFF]).map fun entry => FileId.objectid entry.child) = _
    rw [listed]
    decide

end BtrfsForensic
