import BtrfsForensic.Core.DirRecord

namespace BtrfsForensic

/-! The read-only filesystem adapter: an opened image, its directory listings and
lookups by raw name. -/

/-- The identity of a file; `objectid` is the domain of this filesystem, any other
is kept as its debug text. -/
inductive FileId
  | objectid (oid : UInt64)
  | other (scheme : String)
  deriving DecidableEq

inductive NodeKind
  | file
  | dir
  | symlink
  | device
  | other
  deriving DecidableEq

inductive VfsError
  | unsupported (layer scheme : String)
  | outOfRange (what : String) (offset len bound : Nat)
  | decode (layer : String) (offset : Nat) (detail : String)
  deriving DecidableEq

def hexByte (byte : UInt8) : String :=
  let digits := Nat.toDigits 16 byte.toNat
  String.ofList (List.replicate (2 - digits.length) '0' ++ digits)

def BtrfsError.toString : BtrfsError → String
  | truncated structureName need got =>
      s!"buffer too small for {structureName}: need {need} bytes, have {got}"
  | badMagic bytes =>
      "bad btrfs magic: found bytes [" ++ ", ".intercalate (bytes.val.map hexByte) ++
        "] at superblock offset 0x40, expected 5f42485266535f4d (\"_BHRfS_M\")"
  | allocationBomb field claimed bound =>
      s!"allocation bomb: {field} claims {claimed} bytes, exceeding the {bound}-byte bound"

def mapBtrfsErr (error : BtrfsError) : VfsError := .decode "btrfs" 0 error.toString

/-! ## Opening an image -/

/-- The slice that `BtrfsFs::open` parses: the image from the superblock on. -/
def openSlice (image : Bytes) : Option Bytes :=
  getRange image btrfsSuperInfoOffset.toNat image.length

/-- A mounted image; only the root leaf of its `FS_TREE` is traversed. -/
structure BtrfsFs where
  image : Bytes
  sb : Superblock
  map : ChunkMap
  leaf : Node
  rootDirid : UInt64

namespace BtrfsFs

def ofImage (crates : Crates) (image : Bytes) : Except VfsError BtrfsFs :=
  match openSlice image with
  | none =>
      .error (.outOfRange "btrfs superblock offset" btrfsSuperInfoOffset.toNat 1
        image.length)
  | some sbSlice => do
      let sb ← (Superblock.parse crates sbSlice).mapError mapBtrfsErr
      let map ← (ChunkMap.walk crates image sb).mapError mapBtrfsErr
      let root ← (fsTreeRoot crates image sb map).mapError mapBtrfsErr
      let leaf ← (readNode crates image sb map root.bytenr).mapError mapBtrfsErr
      .ok { image := image, sb := sb, map := map, leaf := leaf, rootDirid := root.rootDirid }

def root (fs : BtrfsFs) : FileId := .objectid fs.rootDirid

theorem ofImage_eq_ok {crates : Crates} {image sbSlice : Bytes} {sb : Superblock}
    {map : ChunkMap} {root : FsTreeRoot} {leaf : Node} (slice : openSlice image = some sbSlice)
    (parsed : Superblock.parse crates sbSlice = .ok sb)
    (walked : ChunkMap.walk crates image sb = .ok map)
    (found : fsTreeRoot crates image sb map = .ok root)
    (read : readNode crates image sb map root.bytenr = .ok leaf) :
    ofImage crates image = .ok ⟨image, sb, map, leaf, root.rootDirid⟩ := by
  rw [ofImage, slice]
  simp only [parsed, walked, found, read, Except.mapError, bind, Except.bind]

end BtrfsFs

def oidOf : FileId → Except VfsError UInt64
  | .objectid oid => .ok oid
  | .other scheme => .error (.unsupported "btrfs file-id" scheme)

/-! ## Directories -/

def direntKind : DirItemType → NodeKind
  | .file => .file
  | .dir => .dir
  | .symlink => .symlink
  | .other _ => .other

structure VfsDirEntry where
  name : Bytes
  id : FileId
  kind : NodeKind
  deriving DecidableEq

def VfsDirEntry.ofEntry (entry : DirEntry) : VfsDirEntry where
  name := nameBytes entry.name
  id := .objectid entry.child
  kind := direntKind entry.itemType

namespace BtrfsFs

def readDir (fs : BtrfsFs) (ino : FileId) :
    Except VfsError (List (Except VfsError VfsDirEntry)) := do
  let dirOid ← oidOf ino
  .ok ((listDir fs.leaf dirOid).map fun entry => .ok (VfsDirEntry.ofEntry entry))

def lookup (fs : BtrfsFs) (parent : FileId) (name : Bytes) :
    Except VfsError (Option FileId) := do
  let dirOid ← oidOf parent
  .ok (((listDir fs.leaf dirOid).find? fun entry => nameBytes entry.name = name).map
    fun entry => .objectid entry.child)

end BtrfsFs

end BtrfsForensic
