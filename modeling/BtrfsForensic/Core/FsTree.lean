import BtrfsForensic.Core.ChunkMap

namespace BtrfsForensic

/-! Root-tree navigation: where the `FS_TREE` root node lives, and the item keys
of the trees. -/

abbrev fsTreeObjectid : UInt64 := 5
abbrev fsTreeRootDirObjectid : UInt64 := 256
abbrev inodeItemKey : UInt8 := 1
abbrev inodeRefKey : UInt8 := 12
abbrev xattrItemKey : UInt8 := 24
abbrev dirItemKey : UInt8 := 84
abbrev dirIndexKey : UInt8 := 96
abbrev rootItemKey : UInt8 := 132

/-- `btrfs_inode_item.size`. -/
abbrev inodeSizeOffset : Nat := 16

namespace RootOff

abbrev generation : Nat := 160
abbrev rootDirid : Nat := 168
abbrev bytenr : Nat := 176
abbrev level : Nat := 238

end RootOff

/-! `btrfs_dir_item`: a location key, the transaction, two lengths, the type and
the name, then the value. -/

namespace DirOff

abbrev dataLen : Nat := 25
abbrev nameLen : Nat := 27
abbrev type : Nat := 29
abbrev name : Nat := 30

end DirOff

structure FsTreeRoot where
  bytenr : UInt64
  level : UInt8
  rootDirid : UInt64
  generation : UInt64
  deriving DecidableEq

def FsTreeRoot.parse (data : Bytes) : FsTreeRoot where
  bytenr := leU64 data RootOff.bytenr
  level := u8At data RootOff.level
  rootDirid := leU64 data RootOff.rootDirid
  generation := leU64 data RootOff.generation

/-- The first `FS_TREE` root item of the root-tree node. Interior root trees
are not descended. -/
def fsTreeRoot (crates : Crates) (image : Bytes) (sb : Superblock)
    (chunkMap : ChunkMap) : Except BtrfsError FsTreeRoot := do
  let node ← readNode crates image sb chunkMap sb.root
  match node.leafItems.find? fun item =>
      item.1.objectid = fsTreeObjectid ∧ item.1.keyType = rootItemKey with
  | some item => .ok (FsTreeRoot.parse item.2)
  | none =>
      .error (.truncated "FS_TREE ROOT_ITEM (objectid 5) in root tree"
        fsTreeObjectid.toNat node.header.nritems.toNat)

end BtrfsForensic
