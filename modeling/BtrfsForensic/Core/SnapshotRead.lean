import BtrfsForensic.Core.ItemOrder
import BtrfsForensic.Core.PathLookup
import BtrfsForensic.Core.Snapshot

namespace BtrfsForensic

/-! Reading a leaf that stores a snapshot, its items in any order: inodes, listings,
names, attributes and extents. -/

/-! ## Which items there are -/

section Items

variable {α : Type} {key : α → DiskKey} {encode : α → Bytes} {records : List α}
  {item : DiskKey × Bytes} {snapshot : Snapshot} {encoding : Encoding} {wanted : UInt8}

theorem of_mem_packedItems (member : item ∈ Writer.packedItems key encode records) :
    ∃ first rest, first ∈ records ∧ key first = item.1 ∧
      item.2 = encode first ++ rest := by
  rcases List.mem_map.mp member with ⟨bucket, inBuckets, rfl⟩
  rcases Buckets.of_mem inBuckets with ⟨filled, keyed⟩
  rcases List.exists_cons_of_ne_nil filled with ⟨first, later, layout⟩
  have own := keyed first (layout ▸ List.mem_cons_self)
  exact ⟨first, later.flatMap encode, own.2, own.1, by rw [layout, List.flatMap_cons]⟩

theorem key_of_mem_placed {ino : UInt64} {position : Nat} {pieces : List Piece}
    (member : item ∈ Object.placed encoding ino position pieces) :
    item.1.objectid = ino ∧ item.1.keyType = extentDataKey := by
  induction pieces generalizing position with
  | nil => exact absurd member List.not_mem_nil
  | cons piece pieces induction =>
      rcases List.mem_cons.mp member with rfl | later
      · exact ⟨rfl, rfl⟩
      · exact induction later

theorem filter_type_of_typed {items : List (DiskKey × Bytes)} {type : UInt8}
    (typed : ∀ item ∈ items, item.1.keyType = type) (wanted : UInt8) :
    items.filter (fun item => item.1.keyType = wanted) = if type = wanted then items else [] := by
  split
  case isTrue same =>
    rw [List.filter_eq_self]
    exact fun item member => decide_eq_true ((typed item member).trans same)
  case isFalse other =>
    rw [List.filter_eq_nil_iff]
    intro item member found
    exact other ((typed item member).symm.trans (of_decide_eq_true found))

theorem keyType_packedItems {type : UInt8} (typed : ∀ record, (key record).keyType = type) :
    ∀ item ∈ Writer.packedItems key encode records, item.1.keyType = type := by
  intro item member
  rcases of_mem_packedItems member with ⟨first, _, _, same, _⟩
  rw [← same, typed]

theorem filter_type_items (read : wanted ∈ readKeyTypes) :
    (snapshot.items encoding).filter (fun item => item.1.keyType = wanted) =
      (if inodeItemKey = wanted then snapshot.objects.map (Object.inodeItem encoding) else []) ++
      (if inodeRefKey = wanted then snapshot.refItems else []) ++
      (if xattrItemKey = wanted then snapshot.xattrItems encoding else []) ++
      (if dirItemKey = wanted then snapshot.dirItems encoding else []) ++
      (if dirIndexKey = wanted then snapshot.dentries.map (Dentry.indexItem encoding) else []) ++
      (if extentDataKey = wanted then
        snapshot.objects.flatMap (Object.extents encoding) else []) ++
      (if 48 = wanted then snapshot.orphans.map orphanItem else []) := by
  have inodes : ∀ item ∈ snapshot.objects.map (Object.inodeItem encoding),
      item.1.keyType = inodeItemKey := by
    intro item member
    rcases List.mem_map.mp member with ⟨object, _, rfl⟩
    rfl
  have indexes : ∀ item ∈ snapshot.dentries.map (Dentry.indexItem encoding),
      item.1.keyType = dirIndexKey := by
    intro item member
    rcases List.mem_map.mp member with ⟨dentry, _, rfl⟩
    rfl
  have extents : ∀ item ∈ snapshot.objects.flatMap (Object.extents encoding),
      item.1.keyType = extentDataKey := by
    intro item member
    rcases List.mem_flatMap.mp member with ⟨object, _, inObject⟩
    exact (key_of_mem_placed inObject).2
  have orphans : ∀ item ∈ snapshot.orphans.map orphanItem, item.1.keyType = 48 := by
    intro item member
    rcases List.mem_map.mp member with ⟨ino, _, rfl⟩
    rfl
  have refs : ∀ item ∈ snapshot.refItems, item.1.keyType = inodeRefKey :=
    keyType_packedItems fun _ => rfl
  have xattrs : ∀ item ∈ snapshot.xattrItems encoding, item.1.keyType = xattrItemKey :=
    keyType_packedItems fun _ => rfl
  have hashed : ∀ item ∈ snapshot.dirItems encoding, item.1.keyType = dirItemKey :=
    keyType_packedItems fun _ => rfl
  have others : encoding.others.filter (fun item => item.1.keyType = wanted) = [] := by
    rw [List.filter_eq_nil_iff]
    intro item member found
    apply encoding.unread item member
    rwa [of_decide_eq_true found]
  simp only [Snapshot.items, List.filter_append]
  rw [filter_type_of_typed inodes, filter_type_of_typed refs, filter_type_of_typed xattrs,
    filter_type_of_typed hashed, filter_type_of_typed indexes, filter_type_of_typed extents,
    filter_type_of_typed orphans, others, List.append_nil]

theorem filter_inode_items :
    (snapshot.items encoding).filter (fun item => item.1.keyType = inodeItemKey) =
      snapshot.objects.map (Object.inodeItem encoding) := by
  rw [filter_type_items (by decide)]
  simp (disch := decide) only [if_neg, if_pos, List.append_nil]

theorem filter_dir_items :
    (snapshot.items encoding).filter (fun item => item.1.keyType = dirItemKey) =
      snapshot.dirItems encoding := by
  rw [filter_type_items (by decide)]
  simp (disch := decide) only [if_neg, if_pos, List.nil_append, List.append_nil]

theorem filter_index_items :
    (snapshot.items encoding).filter (fun item => item.1.keyType = dirIndexKey) =
      snapshot.dentries.map (Dentry.indexItem encoding) := by
  rw [filter_type_items (by decide)]
  simp (disch := decide) only [if_neg, if_pos, List.nil_append, List.append_nil]

theorem filter_extent_items :
    (snapshot.items encoding).filter (fun item => item.1.keyType = extentDataKey) =
      snapshot.objects.flatMap (Object.extents encoding) := by
  rw [filter_type_items (by decide)]
  simp (disch := decide) only [if_neg, if_pos, List.nil_append, List.append_nil]

theorem filter_orphan_items :
    (snapshot.items encoding).filter (fun item => item.1.keyType = 48) =
      snapshot.orphans.map orphanItem := by
  rw [filter_type_items (by decide)]
  simp (disch := decide) only [if_neg, if_pos, List.nil_append, List.append_nil]

theorem mem_inode_items_iff : item ∈ snapshot.items encoding ∧ item.1.keyType = inodeItemKey ↔
    ∃ object ∈ snapshot.objects, object.inodeItem encoding = item := by
  rw [← List.mem_map, ← filter_inode_items, List.mem_filter, decide_eq_true_iff]

theorem mem_index_items_iff : item ∈ snapshot.items encoding ∧ item.1.keyType = dirIndexKey ↔
    ∃ dentry ∈ snapshot.dentries, dentry.indexItem encoding = item := by
  rw [← List.mem_map, ← filter_index_items, List.mem_filter, decide_eq_true_iff]

theorem mem_extent_items_iff :
    item ∈ snapshot.items encoding ∧ item.1.keyType = extentDataKey ↔
      ∃ object ∈ snapshot.objects, item ∈ object.extents encoding := by
  rw [← List.mem_flatMap, ← filter_extent_items, List.mem_filter, decide_eq_true_iff]

theorem exists_dentry_of_mem_items (member : item ∈ snapshot.items encoding)
    (type : item.1.keyType = dirItemKey ∨ item.1.keyType = dirIndexKey) :
    ∃ dentry ∈ snapshot.dentries, dentry.dir = item.1.objectid ∧
      ∃ transid rest, item.2 = Writer.dirRecord (dentry.record transid) ++ rest := by
  rcases type with hashed | index
  · have kept : item ∈ snapshot.dirItems encoding := by
      rw [← filter_dir_items, List.mem_filter]
      exact ⟨member, decide_eq_true hashed⟩
    rcases of_mem_packedItems kept with ⟨dentry, rest, inDentries, same, layout⟩
    exact ⟨dentry, inDentries, congrArg DiskKey.objectid same, _, rest, layout⟩
  · rcases mem_index_items_iff.mp ⟨member, index⟩ with ⟨dentry, inDentries, rfl⟩
    exact ⟨dentry, inDentries, rfl, encoding.indexTransid dentry, [], (List.append_nil _).symm⟩

end Items

/-! ## Inodes -/

section Reading

variable {leaf : Node} {snapshot : Snapshot} {encoding : Encoding} {ino : UInt64}

theorem of_object {object : Object} (known : snapshot.object ino = some object) :
    object ∈ snapshot.objects ∧ object.ino = ino := by
  rw [Snapshot.object] at known
  exact ⟨List.mem_of_find?_eq_some known, by simpa using List.find?_some known⟩

theorem object_of_mem {object : Object} (member : object ∈ snapshot.objects) :
    snapshot.object object.ino = some object := by
  apply find?_eq_some_of_unique member (decide_eq_true rfl)
  intro other inOthers same
  exact List.inj_on_of_nodup_map snapshot.numbered inOthers member (of_decide_eq_true same)

theorem readInode_stored (stored : leaf.leafItems.Perm (snapshot.items encoding)) :
    readInode leaf ino = (snapshot.object ino).map Object.inode := by
  have only (item : DiskKey × Bytes) (member : item ∈ leaf.leafItems)
      (found : item.1.objectid = ino ∧ item.1.keyType = inodeItemKey) :
      ∃ object, snapshot.object ino = some object ∧ object.inodeItem encoding = item := by
    rcases mem_inode_items_iff.mp ⟨stored.mem_iff.mp member, found.2⟩ with
      ⟨object, inObjects, rfl⟩
    refine ⟨object, find?_eq_some_of_unique inObjects (decide_eq_true found.1) ?_, rfl⟩
    intro other inOthers same
    exact List.inj_on_of_nodup_map snapshot.numbered inOthers inObjects
      ((of_decide_eq_true same).trans found.1.symm)
  rw [readInode]
  cases known : snapshot.object ino with
  | none =>
      rw [List.find?_eq_none.mpr, Option.map_none, Option.map_none]
      intro item member found
      rcases only item member (of_decide_eq_true found) with ⟨object, same, _⟩
      rw [known] at same
      cases same
  | some object =>
      rcases of_object known with ⟨inObjects, numbered⟩
      have member : object.inodeItem encoding ∈ leaf.leafItems :=
        stored.mem_iff.mpr (mem_inode_items_iff.mpr ⟨object, inObjects, rfl⟩).1
      rw [find?_eq_some_of_unique member (decide_eq_true ⟨numbered, rfl⟩), Option.map_some,
        Option.map_some, Object.inodeItem, ← numbered, Object.ino, Inode.parse_inode]
      intro item inLeaf found
      rcases only item inLeaf (of_decide_eq_true found) with ⟨other, same, rfl⟩
      rw [known] at same
      cases same
      rfl

/-! ## Directories -/

theorem exists_of_mem_listDir (stored : leaf.leafItems.Perm (snapshot.items encoding))
    {dir : UInt64} {entry : DirEntry} (listed : entry ∈ listDir leaf dir) :
    ∃ dentry ∈ snapshot.children dir, dentry.entry = entry := by
  rw [listDir_eq, KeepFirst.mem_iff] at listed
  rcases listed with none | ⟨_, found⟩
  · exact absurd none List.not_mem_nil
  rcases List.mem_filterMap.mp (List.mem_of_find?_eq_some found) with ⟨data, member, parsed⟩
  rcases List.mem_map.mp member with ⟨item, inLeaf, rfl⟩
  rcases List.mem_filter.mp inLeaf with ⟨inItems, belongs⟩
  rcases of_decide_eq_true belongs with ⟨owner, type⟩
  rcases exists_dentry_of_mem_items (stored.mem_iff.mp inItems) type with
    ⟨dentry, inDentries, same, transid, rest, layout⟩
  refine ⟨dentry, List.mem_filter.mpr ⟨inDentries, decide_eq_true (same.trans owner)⟩, ?_⟩
  rw [layout, parseDirItem_of_holds (holds_front _ rest), Dentry.entry_record] at parsed
  exact Option.some.inj parsed

theorem dentry_inj {dir : UInt64} {left right : Dentry} (inDir : left ∈ snapshot.children dir)
    (otherInDir : right ∈ snapshot.children dir) (same : left.name.text = right.name.text) :
    left = right := by
  rcases List.mem_filter.mp inDir with ⟨member, own⟩
  rcases List.mem_filter.mp otherInDir with ⟨otherMember, otherOwn⟩
  apply List.inj_on_of_nodup_map snapshot.named member otherMember
  rw [of_decide_eq_true own, of_decide_eq_true otherOwn, same]

theorem mem_listDir_of_child (stored : leaf.leafItems.Perm (snapshot.items encoding))
    {dir : UInt64} {dentry : Dentry} (inDir : dentry ∈ snapshot.children dir) :
    dentry.entry ∈ listDir leaf dir := by
  rcases List.mem_filter.mp inDir with ⟨inDentries, own⟩
  have inLeaf : dentry.indexItem encoding ∈ leaf.leafItems :=
    stored.mem_iff.mpr (mem_index_items_iff.mpr ⟨dentry, inDentries, rfl⟩).1
  have inItems : (dentry.indexItem encoding).2 ∈ dirItems leaf dir :=
    List.mem_map_of_mem (List.mem_filter.mpr
      ⟨inLeaf, decide_eq_true ⟨of_decide_eq_true own, .inr rfl⟩⟩)
  have parsed : parseDirItem (dentry.indexItem encoding).2 = some dentry.entry := by
    rw [← dentry.entry_record (encoding.indexTransid dentry)]
    exact parseDirItem_of_holds (holds_of_eq rfl)
  rcases exists_mem_listDir_iff.mpr ⟨_, inItems, _, parsed, rfl⟩ with ⟨listed, member, same⟩
  -- What is listed under the name is the only entry of the name.
  rcases exists_of_mem_listDir stored member with ⟨other, otherInDir, equal⟩
  have names : other.name.text = dentry.name.text := by
    have listedName : listed.name = dentry.entry.name := congrArg Prod.fst same
    rw [← equal] at listedName
    exact listedName
  rw [← dentry_inj otherInDir inDir names, equal]
  exact member

section Packed

variable {α β : Type} {key : α → DiskKey} {encode : α → Bytes} {records : List α}
  {type : UInt8} {parse : DiskKey → Bytes → Option (β × Nat)} {decoded : α → β}

end Packed

end Reading

end BtrfsForensic
