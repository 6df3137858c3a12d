import BtrfsForensic.Core.ExtentWindow
import BtrfsForensic.Core.Metadata
import BtrfsForensic.Foundation.Grouped

namespace BtrfsForensic

/-! What a filesystem holds, apart from how it is stored: inodes with their content,
names in directories, and attributes. Below it, the items that store it in an `FS_TREE`
leaf. -/

/-! ## Content -/

inductive Codec
  | zlib
  | lzo
  | zstd
  deriving DecidableEq

def Codec.byte : Codec → UInt8
  | zlib => 1
  | lzo => 2
  | zstd => 3

def Codec.compression : Codec → Compression
  | zlib => .zlib
  | lzo => .lzo
  | zstd => .zstd

/-- Content that one extent stores: in its item, or at an address, as it is or coded.
The content starts `offset` bytes into what is stored at the address. -/
inductive Piece
  | inline (bytes : Bytes)
  | inlineCoded (codec : Codec) (payload bytes : Bytes)
  | hole (length : Nat)
  | disk (address offset : UInt64) (bytes : Bytes)
  | diskCoded (codec : Codec) (address offset ramBytes : UInt64) (bytes : Bytes)
  deriving DecidableEq

def Piece.bytes : Piece → Bytes
  | inline bytes => bytes
  | inlineCoded _ _ bytes => bytes
  | hole length => List.replicate length 0
  | disk _ _ bytes => bytes
  | diskCoded _ _ _ _ bytes => bytes

/-- An inode and the pieces of its content, end to end. -/
structure Object where
  inode : Inode
  pieces : List Piece
  filled : ∀ piece ∈ pieces, piece.bytes ≠ []
  bounded : (pieces.flatMap Piece.bytes).length < 2 ^ 64

namespace Object

def ino (object : Object) : UInt64 := object.inode.objectid

/-- The pieces, cut at the size of the inode or filled up to it with zeros. -/
def content (object : Object) : Bytes :=
  fitToSize object.inode.size.toNat (object.pieces.flatMap Piece.bytes)

end Object

/-! ## Names and attributes -/

/-- The length of a name is stored in 16 bits. -/
structure EntryName where
  text : String
  present : nameBytes text ≠ []
  fits : (nameBytes text).length < 2 ^ 16
  deriving DecidableEq

/-- A name that a directory gives an inode; `index` counts the names the directory has
ever given. -/
structure Dentry where
  dir : UInt64
  index : UInt64
  name : EntryName
  child : UInt64
  type : UInt8
  deriving DecidableEq

def Dentry.entry (dentry : Dentry) : DirEntry where
  name := dentry.name.text
  child := dentry.child
  itemType := DirItemType.fromByte dentry.type

/-- A name as the inode records it; the root directory records `..`. -/
structure Backref where
  child : UInt64
  parent : UInt64
  index : UInt64
  name : EntryName
  deriving DecidableEq

def Dentry.backref (dentry : Dentry) : Backref :=
  ⟨dentry.child, dentry.dir, dentry.index, dentry.name⟩

structure Attribute where
  owner : UInt64
  name : EntryName
  value : Bytes
  fits : value.length < 2 ^ 16
  deriving DecidableEq

def Attribute.xattr (attr : Attribute) : Xattr where
  name := attr.name.text
  value := attr.value

/-- A filesystem: each inode has one number, and each name in a directory one inode.
`orphans` are the inodes that were unlinked while open. -/
structure Snapshot where
  objects : List Object
  dentries : List Dentry
  backrefs : List Backref
  attributes : List Attribute
  orphans : List UInt64
  numbered : (objects.map Object.ino).Nodup
  named : (dentries.map fun dentry => (dentry.dir, dentry.name.text)).Nodup

namespace Snapshot

variable (snapshot : Snapshot)

def object (ino : UInt64) : Option Object :=
  snapshot.objects.find? fun object => object.ino = ino

def children (dir : UInt64) : List Dentry :=
  snapshot.dentries.filter fun dentry => dentry.dir = dir

def names (ino : UInt64) : List Backref :=
  snapshot.backrefs.filter fun backref => backref.child = ino

def child (dir : UInt64) (name : Bytes) : Option UInt64 :=
  ((snapshot.children dir).find? fun dentry => nameBytes dentry.name.text = name).map
    Dentry.child

end Snapshot

/-! ## What is stored and not read -/

/-- Fields of an extent item. The last three are read of some extents. -/
structure ExtentSpare where
  generation : List.Vector UInt8 8
  otherEncodings : List.Vector UInt8 3
  diskNumBytes : List.Vector UInt8 8
  ramBytes : UInt64
  codec : UInt8
  offset : UInt64

/-- Fields of the record of an attribute. -/
structure AttributeSpare where
  location : DiskKey
  transid : UInt64
  type : UInt8

/-- The key types of the items that are read: inodes, their names, attributes, orphans,
the entries of directories, and extents. -/
def readKeyTypes : List UInt8 :=
  [inodeItemKey, inodeRefKey, xattrItemKey, 48, dirItemKey, dirIndexKey, extentDataKey]

/-- Everything that the items of a filesystem hold besides it. -/
structure Encoding where
  hash : Bytes → UInt64
  inode : UInt64 → InodeSpare
  extent : (ino : UInt64) → (position : Nat) → ExtentSpare
  itemTransid : Dentry → UInt64
  indexTransid : Dentry → UInt64
  xattr : Attribute → AttributeSpare
  others : List (DiskKey × Bytes)
  unread : ∀ item ∈ others, item.1.keyType ∉ readKeyTypes

/-! ## Items -/

namespace Writer

def extentHeader (spare : ExtentSpare) (ramBytes : Nat) (codec type : UInt8) : Bytes :=
  spare.generation.val ++ (encodeLE 8 ramBytes ++ ([codec] ++
    (spare.otherEncodings.val ++ [type])))

def diskExtent (spare : ExtentSpare) (address offset : UInt64) (numBytes : Nat) : Bytes :=
  encodeLE 8 address.toNat ++ (spare.diskNumBytes.val ++
    (encodeLE 8 offset.toNat ++ encodeLE 8 numBytes))

/-- An `EXTENT_DATA` item. A hole is an extent at address zero. -/
def extent (spare : ExtentSpare) : Piece → Bytes
  | .inline bytes => extentHeader spare bytes.length 0 extentTypeInline ++ bytes
  | .inlineCoded codec payload bytes =>
      extentHeader spare bytes.length codec.byte extentTypeInline ++ payload
  | .hole length =>
      extentHeader spare spare.ramBytes.toNat spare.codec extentTypeReg ++
        diskExtent spare 0 spare.offset length
  | .disk address offset bytes =>
      extentHeader spare spare.ramBytes.toNat 0 extentTypeReg ++
        diskExtent spare address offset bytes.length
  | .diskCoded codec address offset ramBytes bytes =>
      extentHeader spare ramBytes.toNat codec.byte extentTypeReg ++
        diskExtent spare address offset bytes.length

/-- Records filed into the items of their keys. -/
def packedItems {α : Type} (key : α → DiskKey) (encode : α → Bytes) (records : List α) :
    List (DiskKey × Bytes) :=
  (buckets key records).map fun bucket => (bucket.1, bucket.2.flatMap encode)

end Writer

namespace Object

def inodeItem (encoding : Encoding) (object : Object) : DiskKey × Bytes :=
  (⟨object.ino, inodeItemKey, 0⟩, Writer.inode (encoding.inode object.ino) object.inode)

def placed (encoding : Encoding) (ino : UInt64) :
    (position : Nat) → List Piece → List (DiskKey × Bytes)
  | _, [] => []
  | position, piece :: rest =>
      (⟨ino, extentDataKey, UInt64.ofNat position⟩,
          Writer.extent (encoding.extent ino position) piece) ::
        placed encoding ino (position + piece.bytes.length) rest

def extents (encoding : Encoding) (object : Object) : List (DiskKey × Bytes) :=
  placed encoding object.ino 0 object.pieces

end Object

namespace Dentry

def record (transid : UInt64) (dentry : Dentry) : DirRecord :=
  .named ⟨dentry.child, inodeItemKey, 0⟩ transid dentry.type (nameBytes dentry.name.text)
    dentry.name.fits

@[simp] theorem entry_record (transid : UInt64) (dentry : Dentry) :
    (dentry.record transid).entry = dentry.entry := by
  rw [DirRecord.entry, entry, record, DirRecord.named, fromUtf8Lossy_nameBytes]

/-- Names of one hash share an item. -/
def hashKey (encoding : Encoding) (dentry : Dentry) : DiskKey :=
  ⟨dentry.dir, dirItemKey, encoding.hash (nameBytes dentry.name.text)⟩

def hashRecord (encoding : Encoding) (dentry : Dentry) : DirRecord :=
  dentry.record (encoding.itemTransid dentry)

def indexItem (encoding : Encoding) (dentry : Dentry) : DiskKey × Bytes :=
  (⟨dentry.dir, dirIndexKey, dentry.index⟩,
    Writer.dirRecord (dentry.record (encoding.indexTransid dentry)))

end Dentry

namespace Backref

def record (backref : Backref) : RefRecord where
  index := backref.index
  name := nameBytes backref.name.text
  nameFits := backref.name.fits

def key (backref : Backref) : DiskKey := ⟨backref.child, inodeRefKey, backref.parent⟩

end Backref

namespace Attribute

def record (encoding : Encoding) (attr : Attribute) : DirRecord where
  location := (encoding.xattr attr).location
  transid := (encoding.xattr attr).transid
  type := (encoding.xattr attr).type
  name := nameBytes attr.name.text
  value := attr.value
  nameFits := attr.name.fits
  valueFits := attr.fits

def key (encoding : Encoding) (attr : Attribute) : DiskKey :=
  ⟨attr.owner, xattrItemKey, encoding.hash (nameBytes attr.name.text)⟩

end Attribute

/-- An orphan item names an inode and holds nothing. -/
def orphanItem (ino : UInt64) : DiskKey × Bytes := (⟨0xFFFFFFFFFFFFFFFB, 48, ino⟩, [])

namespace Snapshot

def refItems (snapshot : Snapshot) : List (DiskKey × Bytes) :=
  Writer.packedItems Backref.key (fun backref => Writer.refRecord backref.record)
    snapshot.backrefs

def xattrItems (encoding : Encoding) (snapshot : Snapshot) : List (DiskKey × Bytes) :=
  Writer.packedItems (Attribute.key encoding)
    (fun attr => Writer.dirRecord (attr.record encoding)) snapshot.attributes

def dirItems (encoding : Encoding) (snapshot : Snapshot) : List (DiskKey × Bytes) :=
  Writer.packedItems (Dentry.hashKey encoding)
    (fun dentry => Writer.dirRecord (dentry.hashRecord encoding)) snapshot.dentries

/-- The items that store a filesystem, and those that belong to nothing in it. -/
def items (encoding : Encoding) (snapshot : Snapshot) : List (DiskKey × Bytes) :=
  snapshot.objects.map (Object.inodeItem encoding) ++ snapshot.refItems ++
    snapshot.xattrItems encoding ++ snapshot.dirItems encoding ++
    snapshot.dentries.map (Dentry.indexItem encoding) ++
    snapshot.objects.flatMap (Object.extents encoding) ++
    snapshot.orphans.map orphanItem ++ encoding.others

end Snapshot

/-! ## What the image has to hold -/

/-- The content of a piece is found where its extent says. -/
def Piece.Backed (crates : Crates) (image : Bytes) (map : ChunkMap) (sectorsize : UInt32) :
    Piece → Prop
  | .inline _ => True
  | .inlineCoded codec payload bytes =>
      decompressExtent crates codec.compression payload (UInt64.ofNat bytes.length)
        sectorsize = .ok bytes
  | .hole length => length ≤ max image.length logicalAllocFloor
  | .disk address offset bytes =>
      address ≠ 0 ∧ ∃ devid phys, map.logicalToPhysical address = some (devid, phys) ∧
        Holds image (phys.toNat + offset.toNat) bytes
  | .diskCoded codec address offset ramBytes bytes =>
      address ≠ 0 ∧ bytes.length ≤ image.length ∧
        ∃ whole, decodedStream crates image map sectorsize codec.compression address
            ramBytes = some whole ∧ Holds whole offset.toNat bytes

/-- Every piece is found, and no file is larger than the reader allows. -/
def Snapshot.Backed (crates : Crates) (image : Bytes) (map : ChunkMap) (sectorsize : UInt32)
    (snapshot : Snapshot) : Prop :=
  ∀ object ∈ snapshot.objects,
    object.inode.size.toNat ≤ max image.length logicalAllocFloor ∧
      ∀ piece ∈ object.pieces, piece.Backed crates image map sectorsize

end BtrfsForensic
