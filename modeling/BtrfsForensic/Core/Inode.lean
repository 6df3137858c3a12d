import BtrfsForensic.Core.FsTree

namespace BtrfsForensic

/-! Inode items: file and directory metadata with its four timestamps. -/

structure Timestamp where
  sec : UInt64
  nsec : UInt32
  deriving DecidableEq

def Timestamp.parse (data : Bytes) (off : Nat) : Timestamp where
  sec := leU64 data off
  nsec := leU32 data (off + 8)

namespace InodeOff

abbrev generation : Nat := 0
abbrev transid : Nat := 8
abbrev size : Nat := 16
abbrev nbytes : Nat := 24
abbrev nlink : Nat := 40
abbrev uid : Nat := 44
abbrev gid : Nat := 48
abbrev mode : Nat := 52
abbrev flags : Nat := 64
abbrev atime : Nat := 112
abbrev ctime : Nat := 124
abbrev mtime : Nat := 136
abbrev otime : Nat := 148

end InodeOff

/-- `objectid` is the inode's own number, of the key it was found under. -/
structure Inode where
  objectid : UInt64
  generation : UInt64
  transid : UInt64
  size : UInt64
  nbytes : UInt64
  nlink : UInt32
  uid : UInt32
  gid : UInt32
  mode : UInt32
  flags : UInt64
  atime : Timestamp
  ctime : Timestamp
  mtime : Timestamp
  otime : Timestamp
  deriving DecidableEq

abbrev sIfmt : UInt32 := 0o170000
abbrev sIfdir : UInt32 := 0o40000

namespace Inode

def parse (objectid : UInt64) (data : Bytes) : Inode where
  objectid := objectid
  generation := leU64 data InodeOff.generation
  transid := leU64 data InodeOff.transid
  size := leU64 data InodeOff.size
  nbytes := leU64 data InodeOff.nbytes
  nlink := leU32 data InodeOff.nlink
  uid := leU32 data InodeOff.uid
  gid := leU32 data InodeOff.gid
  mode := leU32 data InodeOff.mode
  flags := leU64 data InodeOff.flags
  atime := Timestamp.parse data InodeOff.atime
  ctime := Timestamp.parse data InodeOff.ctime
  mtime := Timestamp.parse data InodeOff.mtime
  otime := Timestamp.parse data InodeOff.otime

def isDir (inode : Inode) : Bool := inode.mode &&& sIfmt == sIfdir

end Inode

def readInode (leaf : Node) (objectid : UInt64) : Option Inode :=
  (leaf.leafItems.find? fun item =>
    item.1.objectid = objectid ∧ item.1.keyType = inodeItemKey).map
      fun item => Inode.parse objectid item.2

end BtrfsForensic
