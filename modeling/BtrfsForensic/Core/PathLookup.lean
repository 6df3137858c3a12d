import BtrfsForensic.Core.OpenedDisk
import BtrfsForensic.Core.PathResolution

namespace BtrfsForensic

/-! The two ways from a path to an inode: `readByPath`, which reads every inode on the
way, and `lookup` of the adapter folded over the components, which reads none. -/

/-! ## Slashes -/

/-- One more slash here is redundant: at either end, or beside another. -/
def RedundantSlash (before after : String) : Prop :=
  before = "" ∨ after = "" ∨ (∃ front, before = front ++ "/") ∨ ∃ rest, after = "/" ++ rest

section Slashes

variable {before after : String}

theorem pathComponents_append (left right : String) :
    pathComponents (left ++ "/" ++ right) = pathComponents left ++ pathComponents right := by
  have slash : "/".toList = ['/'] := rfl
  rw [pathComponents, String.toList_append, String.toList_append, slash,
    List.append_assoc, List.singleton_append, components_append, List.map_append]
  rfl

theorem pathComponents_slash (redundant : RedundantSlash before after) :
    pathComponents (before ++ "/" ++ after) = pathComponents (before ++ after) := by
  have empty : pathComponents "" = [] := rfl
  rcases redundant with rfl | rfl | ⟨front, rfl⟩ | ⟨rest, rfl⟩
  · rw [pathComponents_append, empty, List.nil_append, String.empty_append]
  · rw [pathComponents_append, empty, List.append_nil, String.append_empty]
  · have bare := pathComponents_append front ""
    rw [String.append_empty, empty, List.append_nil] at bare
    rw [pathComponents_append, pathComponents_append, bare]
  · have bare := pathComponents_append "" rest
    rw [String.empty_append, empty, List.nil_append] at bare
    rw [pathComponents_append, ← String.append_assoc, pathComponents_append, bare]

end Slashes

/-! ## Folding `lookup` -/

namespace BtrfsFs

/-- From an inode on, through the children that `lookup` finds. -/
def lookupAll (fs : BtrfsFs) : FileId → List Bytes → Except VfsError (Option FileId)
  | id, [] => .ok (some id)
  | id, name :: rest => do
      match ← fs.lookup id name with
      | none => .ok none
      | some child => lookupAll fs child rest

/-- From the root on, through the non-empty components of a path. -/
def lookupPath (fs : BtrfsFs) (path : String) : Except VfsError (Option FileId) :=
  fs.lookupAll fs.root ((pathComponents path).map nameBytes)

end BtrfsFs

/-- The names lead to an inode, every inode on the way is in the leaf, and those that
are left again are directories. -/
structure Traverses (fs : BtrfsFs) (start : FileId) (names : List String) (ino : UInt64) :
    Prop where
  ends : fs.lookupAll start (names.map nameBytes) = .ok (some (.objectid ino))
  held : ∀ before after, names = before ++ after → ∃ oid inode,
    fs.lookupAll start (before.map nameBytes) = .ok (some (.objectid oid)) ∧
      readInode fs.leaf oid = some inode ∧ (after ≠ [] → inode.isDir = true)

section Lookup

variable {fs : BtrfsFs} {current ino : UInt64} {name : String} {names : List String}

theorem nameBytes_inj {left right : String} :
    nameBytes left = nameBytes right ↔ left = right := by
  constructor
  · intro equal
    rw [← fromUtf8Lossy_nameBytes left, equal, fromUtf8Lossy_nameBytes]
  · intro equal
    rw [equal]

theorem lookup_nameBytes :
    fs.lookup (.objectid current) (nameBytes name) =
      .ok ((namedItem fs.leaf current name).map fun data => .objectid (leU64 data 0)) := by
  have first : (listDir fs.leaf current).find? (fun entry =>
      nameBytes entry.name = nameBytes name) =
        (namedItem fs.leaf current name).bind parseDirItem := by
    rw [← find?_name_listDir]
    simp only [nameBytes_inj]
  change Except.ok (((listDir fs.leaf current).find? fun entry =>
    nameBytes entry.name = nameBytes name).map fun entry => FileId.objectid entry.child) = _
  rw [first]
  cases named : namedItem fs.leaf current name with
  | none => rfl
  | some data =>
      rcases parse_of_namedItem named with ⟨_, entry, parsed, _, child⟩
      rw [Option.bind_some, parsed, Option.map_some, Option.map_some, child]

theorem lookupAll_cons {rest : List Bytes} :
    fs.lookupAll (.objectid current) (nameBytes name :: rest) =
      match namedItem fs.leaf current name with
      | none => .ok none
      | some data => fs.lookupAll (.objectid (leU64 data 0)) rest := by
  rw [BtrfsFs.lookupAll, lookup_nameBytes]
  cases namedItem fs.leaf current name <;> rfl

theorem traverses_nil_iff :
    Traverses fs (.objectid current) [] ino ↔
      current = ino ∧ ∃ inode, readInode fs.leaf current = some inode := by
  constructor
  · intro traverses
    rcases traverses.held [] [] rfl with ⟨oid, inode, ended, read, _⟩
    cases traverses.ends
    cases ended
    exact ⟨rfl, inode, read⟩
  · intro parts
    rcases parts with ⟨rfl, inode, read⟩
    refine ⟨rfl, fun before after split => ?_⟩
    rcases List.append_eq_nil_iff.mp split.symm with ⟨rfl, rfl⟩
    exact ⟨current, inode, rfl, read, fun more => absurd rfl more⟩

theorem traverses_cons_iff :
    Traverses fs (.objectid current) (name :: names) ino ↔
      (∃ inode, readInode fs.leaf current = some inode ∧ inode.isDir = true) ∧
        ∃ data, namedItem fs.leaf current name = some data ∧
          Traverses fs (.objectid (leU64 data 0)) names ino := by
  constructor
  · intro traverses
    rcases traverses.held [] (name :: names) rfl with ⟨oid, inode, started, read, dir⟩
    cases started
    refine ⟨⟨inode, read, dir (List.cons_ne_nil _ _)⟩, ?_⟩
    have ends := traverses.ends
    rw [List.map_cons, lookupAll_cons] at ends
    cases named : namedItem fs.leaf current name with
    | none =>
        rw [named] at ends
        cases ends
    | some data =>
        rw [named] at ends
        refine ⟨data, rfl, ends, fun before after split => ?_⟩
        have held := traverses.held (name :: before) after (by rw [split, List.cons_append])
        rw [List.map_cons, lookupAll_cons, named] at held
        exact held
  · intro parts
    rcases parts with ⟨⟨inode, read, dir⟩, data, named, later⟩
    constructor
    · rw [List.map_cons, lookupAll_cons, named]
      exact later.ends
    · intro before after split
      cases before with
      | nil => exact ⟨current, inode, rfl, read, fun _ => dir⟩
      | cons head before =>
          rcases List.cons.inj split with ⟨rfl, rest⟩
          rw [List.map_cons, lookupAll_cons, named]
          exact later.held before after rest

theorem descend_iff_traverses {inode : Inode} (read : readInode fs.leaf current = some inode) :
    (∃ result, descend fs.leaf current inode names = some (ino, result)) ↔
      Traverses fs (.objectid current) names ino := by
  induction names generalizing current inode with
  | nil =>
      rw [traverses_nil_iff]
      simp [descend, read]
  | cons name names induction =>
      rw [traverses_cons_iff]
      constructor
      · intro resolved
        rcases resolved with ⟨result, resolved⟩
        rcases descend_cons_eq_some_iff.mp resolved with
          ⟨dir, data, next, named, found, later⟩
        exact ⟨⟨inode, read, dir⟩, data, named, (induction found).mp ⟨result, later⟩⟩
      · intro parts
        rcases parts with ⟨⟨same, again, dir⟩, data, named, later⟩
        rw [read, Option.some.injEq] at again
        subst again
        rcases later.held [] names rfl with ⟨oid, next, started, found, _⟩
        cases started
        rcases (induction found).mpr later with ⟨result, resolved⟩
        exact ⟨result, descend_cons_eq_some_iff.mpr
          ⟨dir, data, next, named, found, resolved⟩⟩

theorem readByPath_iff_traverses (path : String) :
    (∃ inode, readByPath fs.leaf path = some (ino, inode)) ↔
      Traverses fs (.objectid fsTreeRootDirObjectid) (pathComponents path) ino := by
  cases read : readInode fs.leaf fsTreeRootDirObjectid with
  | none =>
      constructor
      · intro resolved
        rcases resolved with ⟨inode, resolved⟩
        rw [readByPath, read] at resolved
        cases resolved
      · intro traverses
        rcases traverses.held [] _ rfl with ⟨oid, inode, started, found, _⟩
        cases started
        rw [read] at found
        cases found
  | some inode =>
      rw [readByPath, read]
      exact descend_iff_traverses read

/-- A path resolves to an inode exactly when looking its components up from the root
ends there, over inodes of the leaf that are directories where they are left again. So
the two never disagree on an inode, and a redundant slash changes neither. -/
theorem readByPath_iff_lookup (fs : BtrfsFs) (rooted : fs.root = .objectid 256)
    (path : String) :
    (∀ ino, (∃ inode, readByPath fs.leaf path = some (ino, inode)) ↔
        Traverses fs fs.root (pathComponents path) ino) ∧
      (∀ result other, readByPath fs.leaf path = some result →
        fs.lookupPath path = .ok (some other) → other = .objectid result.1) ∧
      ∀ before after, path = before ++ after → RedundantSlash before after →
        readByPath fs.leaf (before ++ "/" ++ after) = readByPath fs.leaf path ∧
          fs.lookupPath (before ++ "/" ++ after) = fs.lookupPath path := by
  have same (ino : UInt64) : (∃ inode, readByPath fs.leaf path = some (ino, inode)) ↔
      Traverses fs fs.root (pathComponents path) ino := by
    rw [rooted]
    exact readByPath_iff_traverses path
  refine ⟨same, fun result other resolved ended => ?_, fun before after split redundant => ?_⟩
  · have ends := ((same result.1).mp ⟨result.2, resolved⟩).ends
    rw [BtrfsFs.lookupPath, ends] at ended
    cases ended
    rfl
  · rw [split, readByPath, readByPath, BtrfsFs.lookupPath, BtrfsFs.lookupPath,
      pathComponents_slash redundant]
    exact ⟨rfl, rfl⟩

end Lookup

/-! ## A path on a disk -/

theorem itemsFit_subvolume : Disk.ItemsFit subvolumeItems := by
  rw [Disk.ItemsFit]
  decide +kernel

/-- The subvolume's name, with slashes around it. -/
theorem readByPath_iff_lookup_in_subvolume :
    ∃ fs, BtrfsFs.ofImage Crates.withoutCodecs
        (Disk.ofItems subvolumeItems itemsFit_subvolume).image = .ok fs ∧
      fs.root = .objectid 256 ∧ fs.lookupPath "sv" = .ok (some (.objectid 257)) ∧
      readByPath fs.leaf "/sv" = readByPath fs.leaf "sv" := by
  rcases Disk.ofImage_ofItems itemsFit_subvolume with ⟨fs, opened, rooted, items⟩
  have resolved : readByPath fs.leaf "sv" =
      some (257, Inode.parse 257 (Writer.inodeItem 0o100644)) :=
    readByPath_subvolume items (by decide)
  rcases readByPath_iff_lookup fs rooted "sv" with ⟨same, _, slashes⟩
  refine ⟨fs, opened, rooted, ((same 257).mp ⟨_, resolved⟩).ends, ?_⟩
  exact (slashes "" "sv" rfl (.inl rfl)).1

end BtrfsForensic
