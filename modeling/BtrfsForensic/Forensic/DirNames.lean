import BtrfsForensic.Core.Directory
import BtrfsForensic.Forensic.Recover

namespace BtrfsForensic

/-! The auditor's name map against the reader's listings: the two decode the same
records, one by child over the whole leaf, the other by directory. -/

/-- The entry that a leaf item stands for in the directory of its key. -/
def itemEntry (item : DiskKey × Bytes) : Option DirEntry :=
  if IsDirItem item.1.objectid item.1 then parseDirItem item.2 else none

section Names

variable {leaf : Node} {ino dirObjectid : UInt64} {item : DiskKey × Bytes} {entry : DirEntry}

theorem itemEntry_eq_some_iff :
    itemEntry item = some entry ↔
      IsDirItem item.1.objectid item.1 ∧ parseDirItem item.2 = some entry := by
  rw [itemEntry]
  split
  case isTrue belongs => exact (and_iff_right belongs).symm
  case isFalse foreign => simp [foreign]

/-- The map keeps the first entry of each child, decoded as the reader decodes it. -/
theorem entries_dirNames :
    (dirNames leaf).entries =
      keepFirst Prod.fst [] ((leaf.leafItems.filterMap itemEntry).map fun entry =>
        (entry.child, entry.name)) := by
  rw [dirNames]
  change _ = keepFirst Prod.fst (DirNames.mk []).entries _
  generalize DirNames.mk [] = names
  induction leaf.leafItems generalizing names with
  | nil => rfl
  | cons item items induction =>
      rw [List.foldl_cons, induction, DirNames.add]
      by_cases belongs : IsDirItem item.1.objectid item.1
      · have typed : ¬(item.1.keyType ≠ dirItemKey ∧ item.1.keyType ≠ dirIndexKey) :=
          fun neither => belongs.2.elim neither.1 neither.2
        rw [if_neg typed]
        by_cases short : item.2.length < DirOff.name
        · have refused : itemEntry item = none := by
            rw [itemEntry, if_pos belongs, parseDirItem, if_pos short]
          rw [if_pos short, List.filterMap_cons_none refused]
        · have decoded : itemEntry item = some {
              name := fromUtf8Lossy (dirItemName item.2)
              child := leU64 item.2 0
              itemType := DirItemType.fromByte (u8At item.2 DirOff.type) } := by
            rw [itemEntry, if_pos belongs, parseDirItem, if_neg short]
          rw [if_neg short, List.filterMap_cons_some decoded, List.map_cons, KeepFirst.cons]
          by_cases known : names.entries.any fun listed => listed.1 = leU64 item.2 0
          · have taken : ¬(names.entries.all fun listed => listed.1 ≠ leU64 item.2 0) := by
              simpa using known
            simp only [if_pos known, if_neg taken]
          · have free : names.entries.all fun listed => listed.1 ≠ leU64 item.2 0 := by
              rw [List.all_eq_true]
              intro listed member
              exact decide_eq_true fun same =>
                known (List.any_eq_true.mpr ⟨listed, member, decide_eq_true same⟩)
            simp only [if_neg known, if_pos free]
            rfl
      · have refused : itemEntry item = none := by
          rw [itemEntry, if_neg belongs]
        have typed : item.1.keyType ≠ dirItemKey ∧ item.1.keyType ≠ dirIndexKey :=
          not_or.mp fun either => belongs ⟨rfl, either⟩
        rw [if_pos typed, List.filterMap_cons_none refused]

theorem getName_dirNames :
    (dirNames leaf).getName ino =
      ((leaf.leafItems.filterMap itemEntry).find? fun entry => entry.child = ino).map
        DirEntry.name := by
  rw [DirNames.getName, entries_dirNames, KeepFirst.find?_eq, List.nil_append, List.find?_map,
    Option.map_map]
  · rfl
  · intro left right same
    rw [same]

theorem mem_listDir_of_first {before after : List (DiskKey × Bytes)}
    (split : leaf.leafItems = before ++ item :: after) (found : itemEntry item = some entry)
    (first : ∀ earlier ∈ before, ∀ other, itemEntry earlier = some other →
      other.child ≠ entry.child) :
    entry ∈ listDir leaf item.1.objectid := by
  rcases itemEntry_eq_some_iff.mp found with ⟨belongs, parsed⟩
  rw [listDir_eq, KeepFirst.mem_nil_iff, dirItems, split, List.filter_append, List.map_append,
    List.filterMap_append, List.find?_append, List.filter_cons_of_pos (by simpa using belongs),
    List.map_cons, List.filterMap_cons_some parsed, List.find?_cons_of_pos (by simp)]
  have none : (((before.filter fun earlier => IsDirItem item.1.objectid earlier.1).map
      Prod.snd).filterMap parseDirItem).find? (fun other => other.key = entry.key) = none := by
    rw [List.find?_eq_none]
    intro other member same
    rcases List.mem_filterMap.mp member with ⟨data, inDirectory, decoded⟩
    rcases List.mem_map.mp inDirectory with ⟨earlier, kept, rfl⟩
    rcases List.mem_filter.mp kept with ⟨inLeaf, own⟩
    have typed : IsDirItem earlier.1.objectid earlier.1 := ⟨rfl, (of_decide_eq_true own).2⟩
    apply first earlier inLeaf other (itemEntry_eq_some_iff.mpr ⟨typed, decoded⟩)
    exact congrArg Prod.snd (of_decide_eq_true same)
  rw [none, Option.none_or]

theorem exists_itemEntry (listed : entry ∈ listDir leaf dirObjectid) :
    entry ∈ leaf.leafItems.filterMap itemEntry := by
  rw [listDir_eq, KeepFirst.mem_nil_iff] at listed
  rcases List.mem_filterMap.mp (List.mem_of_find?_eq_some listed) with ⟨data, member, parsed⟩
  rcases List.mem_map.mp member with ⟨item, kept, rfl⟩
  rcases List.mem_filter.mp kept with ⟨inLeaf, own⟩
  have typed : IsDirItem item.1.objectid item.1 := ⟨rfl, (of_decide_eq_true own).2⟩
  exact List.mem_filterMap.mpr ⟨item, inLeaf, itemEntry_eq_some_iff.mpr ⟨typed, parsed⟩⟩

/-- A name comes from the first item of its child. -/
theorem getName_eq_some_iff {name : String} :
    (dirNames leaf).getName ino = some name ↔
      ∃ before item after entry, leaf.leafItems = before ++ item :: after ∧
        (∀ earlier ∈ before, ∀ other, itemEntry earlier = some other → other.child ≠ ino) ∧
        itemEntry item = some entry ∧ entry.child = ino ∧ entry.name = name := by
  rw [getName_dirNames, List.find?_filterMap, Option.map_eq_some_iff]
  simp only [Option.bind_eq_some_iff, List.find?_eq_some_iff_append]
  constructor
  · intro found
    rcases found with ⟨entry, ⟨item, ⟨named, before, after, split, first⟩, decoded⟩, rfl⟩
    rw [decoded, Option.any_some] at named
    refine ⟨before, item, after, entry, split, ?_, decoded, of_decide_eq_true named, rfl⟩
    intro earlier member other known same
    have free := first earlier member
    rw [known, Option.any_some, decide_eq_true same] at free
    cases free
  · intro parts
    rcases parts with ⟨before, item, after, entry, split, first, decoded, child, rfl⟩
    refine ⟨entry, ⟨item, ⟨?_, before, after, split, ?_⟩, decoded⟩, rfl⟩
    · rw [decoded, Option.any_some]
      exact decide_eq_true child
    · intro earlier member
      cases known : itemEntry earlier with
      | none => rfl
      | some other =>
          rw [Option.any_some, decide_eq_false (first earlier member other known)]
          rfl

end Names

/-- The auditor knows a name for an inode exactly when some directory lists the inode, and
the name is the one listed for the first directory item of the leaf that leads to it. -/
theorem getName_dirNames_agrees (leaf : Node) (ino : UInt64) :
    ((∃ name, (dirNames leaf).getName ino = some name) ↔
        ∃ dirObjectid, ∃ entry ∈ listDir leaf dirObjectid, entry.child = ino) ∧
      ∀ name, (dirNames leaf).getName ino = some name ↔
        ∃ before item after entry, leaf.leafItems = before ++ item :: after ∧
          (∀ earlier ∈ before, ∀ other, itemEntry earlier = some other → other.child ≠ ino) ∧
          itemEntry item = some entry ∧ entry.child = ino ∧
          entry ∈ listDir leaf item.1.objectid ∧ entry.name = name := by
  have named (name : String) : (dirNames leaf).getName ino = some name ↔
      ∃ before item after entry, leaf.leafItems = before ++ item :: after ∧
        (∀ earlier ∈ before, ∀ other, itemEntry earlier = some other → other.child ≠ ino) ∧
        itemEntry item = some entry ∧ entry.child = ino ∧
        entry ∈ listDir leaf item.1.objectid ∧ entry.name = name := by
    rw [getName_eq_some_iff]
    constructor
    · intro parts
      rcases parts with ⟨before, item, after, entry, split, first, decoded, rfl, same⟩
      exact ⟨before, item, after, entry, split, first, decoded, rfl,
        mem_listDir_of_first split decoded first, same⟩
    · intro parts
      rcases parts with ⟨before, item, after, entry, split, first, decoded, child, _, same⟩
      exact ⟨before, item, after, entry, split, first, decoded, child, same⟩
  refine ⟨⟨fun known => ?_, fun listed => ?_⟩, named⟩
  · rcases known with ⟨name, known⟩
    rcases (named name).mp known with ⟨_, item, _, entry, _, _, _, child, listed, _⟩
    exact ⟨item.1.objectid, entry, listed, child⟩
  · rcases listed with ⟨dirObjectid, entry, listed, child⟩
    have found : ((leaf.leafItems.filterMap itemEntry).find? fun entry =>
        entry.child = ino).isSome :=
      List.find?_isSome.mpr ⟨entry, exists_itemEntry listed, decide_eq_true child⟩
    rcases Option.isSome_iff_exists.mp found with ⟨first, answer⟩
    exact ⟨first.name, by rw [getName_dirNames, answer, Option.map_some]⟩

end BtrfsForensic
