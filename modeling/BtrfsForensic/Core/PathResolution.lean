import BtrfsForensic.Core.DirRecord
import BtrfsForensic.Foundation.Split

namespace BtrfsForensic

/-! Resolving a path in one leaf, and the directory records that are followed on
the way. -/

/-- The non-empty components of a `/`-separated path. -/
def pathComponents (path : String) : List String :=
  (components '/' path.toList).map String.ofList

/-- From an inode on, through the children that the components name. -/
def descend (leaf : Node) : (current : UInt64) → Inode → List String →
    Option (UInt64 × Inode)
  | current, inode, [] => some (current, inode)
  | current, inode, component :: rest =>
      if inode.isDir then do
        let entry ← (listDir leaf current).find? fun entry => entry.name = component
        let next ← readInode leaf entry.child
        descend leaf entry.child next rest
      else
        none

def readByPath (leaf : Node) (path : String) : Option (UInt64 × Inode) := do
  let inode ← readInode leaf fsTreeRootDirObjectid
  descend leaf fsTreeRootDirObjectid inode (pathComponents path)

/-! ## Followed records -/

/-- The item by whose record a directory's listing answers a name. -/
def namedItem (leaf : Node) (dirObjectid : UInt64) (name : String) : Option Bytes :=
  (dirItems leaf dirObjectid).find? fun data =>
    (parseDirItem data).any fun entry => entry.name = name

/-- The directory items that are followed from a directory on. -/
def followed (leaf : Node) : (current : UInt64) → List String → List Bytes
  | _, [] => []
  | current, component :: rest =>
      match namedItem leaf current component with
      | none => []
      | some data => data :: followed leaf (leU64 data 0) rest

section Followed

variable {leaf : Node} {current dirObjectid : UInt64} {name : String} {data : Bytes}
  {inode : Inode}

theorem find?_name_listDir :
    (listDir leaf dirObjectid).find? (fun entry => entry.name = name) =
      (namedItem leaf dirObjectid name).bind parseDirItem := by
  rw [find?_listDir, namedItem]
  · induction dirItems leaf dirObjectid with
    | nil => rfl
    | cons data items induction =>
        cases parsed : parseDirItem data with
        | none =>
            rw [List.filterMap_cons_none parsed, induction,
              List.find?_cons_of_neg (by simp [parsed])]
        | some entry =>
            rw [List.filterMap_cons_some parsed]
            by_cases same : entry.name = name
            · rw [List.find?_cons_of_pos (by simpa using same),
                List.find?_cons_of_pos (by simpa [parsed] using same), Option.bind_some,
                parsed]
            · rw [List.find?_cons_of_neg (by simpa using same),
                List.find?_cons_of_neg (by simpa [parsed] using same), induction]
  · intro left right equal
    rw [(Prod.mk.inj equal).1]

theorem parse_of_namedItem (found : namedItem leaf dirObjectid name = some data) :
    data ∈ dirItems leaf dirObjectid ∧
      ∃ entry, parseDirItem data = some entry ∧ entry.name = name ∧
        entry.child = leU64 data 0 := by
  have named := List.find?_some found
  rw [Option.any_eq_true] at named
  rcases named with ⟨entry, parsed, same⟩
  refine ⟨List.mem_of_find?_eq_some found, entry, parsed, of_decide_eq_true same, ?_⟩
  rw [parseDirItem] at parsed
  split at parsed
  case isTrue => cases parsed
  case isFalse =>
    cases parsed
    rfl

/-- One component: the record of the name leads to an inode of the leaf. -/
theorem descend_cons_eq_some_iff {rest : List String} {result : UInt64 × Inode} :
    descend leaf current inode (name :: rest) = some result ↔
      inode.isDir = true ∧ ∃ data next, namedItem leaf current name = some data ∧
        readInode leaf (leU64 data 0) = some next ∧
        descend leaf (leU64 data 0) next rest = some result := by
  rw [descend]
  by_cases dir : inode.isDir
  · rw [if_pos dir, find?_name_listDir]
    cases found : namedItem leaf current name with
    | none => simp
    | some data =>
        rcases parse_of_namedItem found with ⟨_, entry, parsed, _, child⟩
        simp only [Option.bind_some, parsed, child, Option.bind_eq_some_iff, dir,
          true_and, Option.some.injEq, Option.bind_eq_bind]
        constructor
        · intro parts
          rcases parts with ⟨next, read, later⟩
          exact ⟨data, next, rfl, read, later⟩
        · intro parts
          rcases parts with ⟨_, next, rfl, read, later⟩
          exact ⟨next, read, later⟩
  · rw [if_neg dir]
    simp [dir]

theorem readInode_of_descend {names : List String} {result : UInt64 × Inode}
    (read : readInode leaf current = some inode)
    (descended : descend leaf current inode names = some result) :
    readInode leaf result.1 = some result.2 := by
  induction names generalizing current inode with
  | nil =>
      cases descended
      exact read
  | cons name names induction =>
      rcases descend_cons_eq_some_iff.mp descended with ⟨_, _, next, _, nextRead, later⟩
      exact induction nextRead later

theorem descend_append_eq_some_iff {before rest : List String}
    {result : UInt64 × Inode} :
    descend leaf current inode (before ++ rest) = some result ↔
      ∃ middle, descend leaf current inode before = some middle ∧
        descend leaf middle.1 middle.2 rest = some result := by
  induction before generalizing current inode with
  | nil => simp [descend]
  | cons component before induction =>
      rw [List.cons_append, descend_cons_eq_some_iff]
      constructor
      · intro parts
        rcases parts with ⟨dir, data, next, named, found, later⟩
        rcases induction.mp later with ⟨middle, first, second⟩
        exact ⟨middle, descend_cons_eq_some_iff.mpr ⟨dir, data, next, named, found, first⟩,
          second⟩
      · intro parts
        rcases parts with ⟨middle, first, second⟩
        rcases descend_cons_eq_some_iff.mp first with ⟨dir, data, next, named, found, later⟩
        exact ⟨dir, data, next, named, found, induction.mpr ⟨middle, later, second⟩⟩

theorem followed_append {before rest : List String} {middle : UInt64 × Inode}
    (resolved : descend leaf current inode before = some middle) :
    followed leaf current (before ++ rest) =
      followed leaf current before ++ followed leaf middle.1 rest := by
  induction before generalizing current inode with
  | nil =>
      cases resolved
      rfl
  | cons component before induction =>
      rcases descend_cons_eq_some_iff.mp resolved with ⟨_, data, next, named, _, later⟩
      rw [List.cons_append, followed, followed, named]
      dsimp only
      rw [induction later, List.cons_append]

end Followed

/-! ## Which paths there are -/

/-- A name that a path component can spell. -/
def Spellable (name : String) : Prop := name.toList ≠ [] ∧ '/' ∉ name.toList

section Paths

variable {names : List String} {path : String}

theorem spellable_of_mem_pathComponents {name : String}
    (member : name ∈ pathComponents path) : Spellable name := by
  rcases List.mem_map.mp member with ⟨part, inPath, rfl⟩
  rw [Spellable, String.toList_ofList]
  exact mem_components inPath

theorem exists_pathComponents_eq (spellable : ∀ name ∈ names, Spellable name) :
    ∃ path, pathComponents path = names := by
  refine ⟨String.ofList (['/'].intercalate (names.map String.toList)), ?_⟩
  rw [pathComponents, String.toList_ofList, components_intercalate, List.map_map]
  · have identity : String.ofList ∘ String.toList = id := by
      funext name
      exact String.ofList_toList
    rw [identity, List.map_id]
  · intro part member
    rcases List.mem_map.mp member with ⟨name, inNames, rfl⟩
    exact spellable name inNames

end Paths

/-! ## Where a path can lead -/

/-- A record by which resolving goes on from a directory: the first one of its
name, to an inode of the leaf. -/
structure LeadsBy (leaf : Node) (dirObjectid : UInt64) (data : Bytes) : Prop where
  dir : ∃ inode, readInode leaf dirObjectid = some inode ∧ inode.isDir = true
  named : ∃ name, Spellable name ∧ namedItem leaf dirObjectid name = some data
  inode : ∃ next, readInode leaf (leU64 data 0) = some next

/-- The objectids that records lead to from the root directory. -/
inductive Reached (leaf : Node) : UInt64 → Prop
  | root : Reached leaf fsTreeRootDirObjectid
  | child {dirObjectid : UInt64} {data : Bytes} :
      Reached leaf dirObjectid → LeadsBy leaf dirObjectid data →
        Reached leaf (leU64 data 0)

section Reaching

variable {leaf : Node} {current : UInt64} {inode : Inode} {names : List String}

theorem leadsBy_of_mem_followed (reached : Reached leaf current)
    (read : readInode leaf current = some inode)
    (spellable : ∀ name ∈ names, Spellable name) {result : UInt64 × Inode}
    (resolved : descend leaf current inode names = some result) :
    ∀ data ∈ followed leaf current names,
      ∃ dirObjectid, Reached leaf dirObjectid ∧ LeadsBy leaf dirObjectid data := by
  induction names generalizing current inode with
  | nil => exact fun data member => absurd member List.not_mem_nil
  | cons name names induction =>
      rcases descend_cons_eq_some_iff.mp resolved with ⟨dir, data, next, named, found, later⟩
      have leads : LeadsBy leaf current data :=
        ⟨⟨inode, read, dir⟩, ⟨name, spellable name List.mem_cons_self, named⟩, next, found⟩
      rw [followed, named]
      intro other member
      rcases List.mem_cons.mp member with rfl | further
      · exact ⟨current, reached, leads⟩
      · exact induction (.child reached leads) found
          (fun other member => spellable other (List.mem_cons_of_mem _ member)) later
          other further

theorem exists_descend_of_reached (reached : Reached leaf current)
    (read : readInode leaf current = some inode) :
    ∃ root names, readInode leaf fsTreeRootDirObjectid = some root ∧
      (∀ name ∈ names, Spellable name) ∧
      descend leaf fsTreeRootDirObjectid root names = some (current, inode) := by
  induction reached generalizing inode with
  | root => exact ⟨inode, [], read, fun name member => absurd member List.not_mem_nil, rfl⟩
  | child reached leads induction =>
      rcases leads with ⟨⟨dirInode, dirRead, dir⟩, ⟨name, spelled, named⟩, _⟩
      rcases induction dirRead with ⟨root, names, rootRead, spellable, resolved⟩
      refine ⟨root, names ++ [name], rootRead, ?_, ?_⟩
      · exact List.forall_mem_append.mpr ⟨spellable, List.forall_mem_singleton.mpr spelled⟩
      · apply descend_append_eq_some_iff.mpr
        refine ⟨_, resolved, descend_cons_eq_some_iff.mpr ?_⟩
        exact ⟨dir, _, inode, named, read, rfl⟩

/-- Paths resolve by records of type `INODE_ITEM` only, exactly when no directory
that is reached has a record of another type, first of its name, whose number is
that of an inode of the leaf. -/
theorem readByPath_inodeItem_iff (leaf : Node) :
    (∀ path result, readByPath leaf path = some result →
        ∀ data ∈ followed leaf fsTreeRootDirObjectid (pathComponents path),
          (location data).keyType = inodeItemKey) ↔
      ∀ dirObjectid data, Reached leaf dirObjectid → LeadsBy leaf dirObjectid data →
        (location data).keyType = inodeItemKey := by
  constructor
  · intro typed dirObjectid data reached leads
    rcases leads with ⟨⟨dirInode, dirRead, dir⟩, ⟨name, spelled, named⟩, next, nextRead⟩
    rcases exists_descend_of_reached reached dirRead with
      ⟨root, names, rootRead, spellable, resolved⟩
    have allSpellable : ∀ other ∈ names ++ [name], Spellable other :=
      List.forall_mem_append.mpr ⟨spellable, List.forall_mem_singleton.mpr spelled⟩
    rcases exists_pathComponents_eq allSpellable with ⟨path, split⟩
    have last : descend leaf dirObjectid dirInode [name] = some (leU64 data 0, next) :=
      descend_cons_eq_some_iff.mpr ⟨dir, data, next, named, nextRead, rfl⟩
    have whole : readByPath leaf path = some (leU64 data 0, next) := by
      rw [readByPath, rootRead, split]
      exact descend_append_eq_some_iff.mpr ⟨_, resolved, last⟩
    apply typed path _ whole
    rw [split, followed_append resolved, followed, named]
    exact List.mem_append_right _ List.mem_cons_self
  · intro typed path result whole data member
    rcases Option.bind_eq_some_iff.mp whole with ⟨root, rootRead, resolved⟩
    rcases leadsBy_of_mem_followed .root rootRead
        (fun name inPath => spellable_of_mem_pathComponents inPath) resolved data member
      with ⟨dirObjectid, reached, leads⟩
    exact typed dirObjectid data reached leads

end Reaching

/-! ## A subvolume entry -/

/-- An inode item with a mode and nothing else. -/
def Writer.inodeItem (mode : UInt32) : Bytes :=
  List.replicate InodeOff.mode 0 ++ (encodeLE 4 mode.toNat ++ List.replicate 104 0)

def subvolumeEntry : DirRecord :=
  .named ⟨257, rootItemKey, 0xFFFFFFFFFFFFFFFF⟩ 8 2 (nameBytes "sv") (by decide)

/-- The root directory holds the subvolume's entry; a file of this tree is inode
257. -/
def subvolumeItems : List (DiskKey × Bytes) :=
  [(⟨256, inodeItemKey, 0⟩, Writer.inodeItem 0o40755),
    (⟨256, dirItemKey, 7⟩, Writer.dirRecord subvolumeEntry),
    (⟨257, inodeItemKey, 0⟩, Writer.inodeItem 0o100644)]

def subvolumeLeaf : Node :=
  Node.ofBlock Crates.withoutCodecs
    (Writer.leaf 1024 ⟨List.Vector.replicate 16 0, 4096, 1, 5⟩ subvolumeItems)

theorem leafItems_subvolumeLeaf : subvolumeLeaf.leafItems = subvolumeItems :=
  Writer.leafItems_leaf (by decide) (by decide +kernel)

section Subvolume

variable {leaf : Node}

theorem namedItem_subvolume (items : leaf.leafItems = subvolumeItems) :
    namedItem leaf 256 "sv" = some (Writer.dirRecord subvolumeEntry) := by
  rw [namedItem, dirItems, items]
  decide +kernel

theorem readByPath_subvolume (items : leaf.leafItems = subvolumeItems) {path : String}
    (components : pathComponents path = ["sv"]) :
    readByPath leaf path = some (257, Inode.parse 257 (Writer.inodeItem 0o100644)) := by
  have root : readInode leaf 256 = some (Inode.parse 256 (Writer.inodeItem 0o40755)) := by
    rw [readInode, items]
    rfl
  have child : leU64 (Writer.dirRecord subvolumeEntry) 0 = 257 :=
    congrArg DiskKey.objectid (dirRecord_fields (holds_of_eq rfl)).1
  have file : readInode leaf (leU64 (Writer.dirRecord subvolumeEntry) 0) =
      some (Inode.parse 257 (Writer.inodeItem 0o100644)) := by
    rw [child, readInode, items]
    rfl
  have resolved : descend leaf 256 (Inode.parse 256 (Writer.inodeItem 0o40755)) ["sv"] =
      some (257, Inode.parse 257 (Writer.inodeItem 0o100644)) := by
    rw [← child]
    exact descend_cons_eq_some_iff.mpr
      ⟨by decide +kernel, _, _, namedItem_subvolume items, file, rfl⟩
  rw [readByPath, root, Option.bind_eq_bind, Option.bind_some, components, resolved]

end Subvolume

/-- The subvolume's name resolves to the file. -/
theorem path_through_subvolume_entry :
    readByPath subvolumeLeaf "/sv" = some (257, Inode.parse 257 (Writer.inodeItem 0o100644)) ∧
      followed subvolumeLeaf fsTreeRootDirObjectid (pathComponents "/sv") =
        [Writer.dirRecord subvolumeEntry] ∧
      (location (Writer.dirRecord subvolumeEntry)).keyType = rootItemKey := by
  have components : pathComponents "/sv" = ["sv"] := by decide
  have location : location (Writer.dirRecord subvolumeEntry) = subvolumeEntry.location :=
    (dirRecord_fields (holds_of_eq rfl)).1
  refine ⟨readByPath_subvolume leafItems_subvolumeLeaf components, ?_,
    congrArg DiskKey.keyType location⟩
  rw [components, followed, namedItem_subvolume leafItems_subvolumeLeaf]
  rfl

end BtrfsForensic
