import BtrfsForensic.Core.PathResolution
import BtrfsForensic.Core.Streams

namespace BtrfsForensic

/-! What the adapter tells of an inode: its metadata, its names and the target of a
symbolic link. -/

abbrev sIfreg : UInt32 := 0o100000
abbrev sIflnk : UInt32 := 0o120000
abbrev sIfchr : UInt32 := 0o020000
abbrev sIfblk : UInt32 := 0o060000

def Inode.isFile (inode : Inode) : Bool := inode.mode &&& sIfmt == sIfreg

/-- The kind of node that the type bits of a mode stand for. -/
def inodeKind (inode : Inode) : NodeKind :=
  let type := inode.mode &&& sIfmt
  if type = sIfreg then .file
  else if type = sIfdir then .dir
  else if type = sIflnk then .symlink
  else if type = sIfchr ∨ type = sIfblk then .device
  else .other

/-! Of the enumerations below the adapter uses these members only. -/

inductive TimeSource
  | inodeTable
  deriving DecidableEq

inductive TimeResolution
  | nanos
  deriving DecidableEq

inductive Allocation
  | allocated
  deriving DecidableEq

structure TimeStamp where
  unixNanos : Int
  source : TimeSource
  resolution : TimeResolution
  deriving DecidableEq

def stamp (time : Timestamp) : TimeStamp where
  unixNanos := time.sec.toNat * 1000000000 + time.nsec.toNat
  source := .inodeTable
  resolution := .nanos

structure MacbTimes where
  modified : Option TimeStamp
  accessed : Option TimeStamp
  changed : Option TimeStamp
  born : Option TimeStamp
  deriving DecidableEq

structure FsMeta where
  ino : UInt64
  kind : NodeKind
  allocated : Allocation
  size : UInt64
  nlink : UInt32
  uid : Option UInt32
  gid : Option UInt32
  mode : Option UInt32
  times : MacbTimes
  streams : List StreamInfo
  residency : ResidencyKind
  linkTarget : Option Bytes
  deriving DecidableEq

/-- A creation time of second zero counts as absent. -/
def FsMeta.ofInode (inode : Inode) : FsMeta where
  ino := inode.objectid
  kind := inodeKind inode
  allocated := .allocated
  size := inode.size
  nlink := inode.nlink
  uid := some inode.uid
  gid := some inode.gid
  mode := some inode.mode
  times :=
    { modified := some (stamp inode.mtime)
      accessed := some (stamp inode.atime)
      changed := some (stamp inode.ctime)
      born := if inode.otime.sec ≠ 0 then some (stamp inode.otime) else none }
  streams := []
  residency := .nonResident
  linkTarget := none

structure SectorSizes where
  logical : UInt32
  physical : UInt32
  clusterOrBlock : UInt32
  deriving DecidableEq

namespace BtrfsFs

def sectorSizes (fs : BtrfsFs) : SectorSizes where
  logical := 512
  physical := 512
  clusterOrBlock := fs.sb.sectorsize

def missingInode (oid : UInt64) : VfsError :=
  .outOfRange "btrfs inode (not in FS-tree root leaf)" oid.toNat 1 0

def metadata (fs : BtrfsFs) (ino : FileId) : Except VfsError FsMeta := do
  let oid ← oidOf ino
  match readInode fs.leaf oid with
  | none => .error (missingInode oid)
  | some inode => .ok (FsMeta.ofInode inode)

/-- At most `cap` bytes of the content of a symbolic link; anything else reads as an
empty target. -/
def readLink (crates : Crates) (fs : BtrfsFs) (ino : FileId) (cap : Nat) :
    Except VfsError Bytes := do
  let oid ← oidOf ino
  match readInode fs.leaf oid with
  | none => .ok []
  | some inode =>
      if inodeKind inode ≠ .symlink then
        .ok []
      else do
        let target ← (readFile crates fs.image fs.sb fs.map oid).mapError mapBtrfsErr
        .ok (target.take cap)

end BtrfsFs

/-- The content of the inode at a path; the leaf is read again from the image. -/
def readByPathContent (crates : Crates) (image : Bytes) (sb : Superblock) (map : ChunkMap)
    (path : String) : Except BtrfsError Bytes := do
  let leaf ← fsTreeLeaf crates image sb map
  match readByPath leaf path with
  | none =>
      .error (.truncated "path (unresolved in FS_TREE)" (nameBytes path).length 0)
  | some found => readFileFromLeaf crates leaf image map sb.sectorsize found.1

/-! ## Inode items as they are written -/

def Writer.timestamp (time : Timestamp) : Bytes :=
  encodeLE 8 time.sec.toNat ++ encodeLE 4 time.nsec.toNat

/-- The fields of an inode item that the reader skips. -/
structure InodeSpare where
  blockGroup : List.Vector UInt8 8
  rdev : List.Vector UInt8 8
  sequence : List.Vector UInt8 8
  reserved : List.Vector UInt8 32

def Writer.inode (spare : InodeSpare) (inode : Inode) : Bytes :=
  encodeLE 8 inode.generation.toNat ++ (encodeLE 8 inode.transid.toNat ++
    (encodeLE 8 inode.size.toNat ++ (encodeLE 8 inode.nbytes.toNat ++ (spare.blockGroup.val ++
      (encodeLE 4 inode.nlink.toNat ++ (encodeLE 4 inode.uid.toNat ++
        (encodeLE 4 inode.gid.toNat ++ (encodeLE 4 inode.mode.toNat ++
          (spare.rdev.val ++ (encodeLE 8 inode.flags.toNat ++ (spare.sequence.val ++
            (spare.reserved.val ++ (timestamp inode.atime ++ (timestamp inode.ctime ++
              (timestamp inode.mtime ++ timestamp inode.otime)))))))))))))))

section Inodes

variable {data : Bytes} {off : Nat}

@[simp] theorem Writer.length_timestamp (time : Timestamp) :
    (Writer.timestamp time).length = 12 := by
  rw [timestamp, List.length_append, length_encodeLE, length_encodeLE]

@[simp] theorem Writer.length_inode (spare : InodeSpare) (inode : Inode) :
    (Writer.inode spare inode).length = 160 := by
  simp only [Writer.inode, List.length_append, length_encodeLE, length_timestamp,
    spare.blockGroup.property, spare.rdev.property, spare.sequence.property,
    spare.reserved.property]

theorem leU32_of_holds_toNat {value : UInt32}
    (holds : Holds data off (encodeLE 4 value.toNat)) : leU32 data off = value := by
  rw [leU32_of_holds holds, UInt32.ofNat_toNat]

theorem Timestamp.parse_of_holds {time : Timestamp}
    (holds : Holds data off (Writer.timestamp time)) : Timestamp.parse data off = time := by
  rw [Writer.timestamp, holds_append_iff, length_encodeLE] at holds
  rw [Timestamp.parse, leU64_of_holds holds.1, leU32_of_holds_toNat holds.2]

theorem Inode.parse_inode (spare : InodeSpare) (inode : Inode) :
    Inode.parse inode.objectid (Writer.inode spare inode) = inode := by
  generalize place : Writer.inode spare inode = data
  have whole : Holds data 0 (Writer.inode spare inode) := holds_of_eq place.symm
  simp only [Writer.inode, holds_append_iff, length_encodeLE, spare.blockGroup.property,
    spare.rdev.property, spare.sequence.property, spare.reserved.property,
    Writer.length_timestamp, Nat.zero_add, Nat.reduceAdd] at whole
  rcases whole with ⟨generation, transid, size, nbytes, _, nlink, uid, gid, mode, _, flags, _, _,
    atime, ctime, mtime, otime⟩
  simp only [Inode.parse, leU64_of_holds generation, leU64_of_holds transid,
    leU64_of_holds size, leU64_of_holds nbytes, leU32_of_holds_toNat nlink,
    leU32_of_holds_toNat uid, leU32_of_holds_toNat gid, leU32_of_holds_toNat mode,
    leU64_of_holds flags, Timestamp.parse_of_holds atime, Timestamp.parse_of_holds ctime,
    Timestamp.parse_of_holds mtime, Timestamp.parse_of_holds otime]

end Inodes

/-! ## Kinds -/

theorem inodeKind_eq_file_iff (inode : Inode) :
    inodeKind inode = .file ↔ inode.isFile = true := by
  rw [inodeKind, Inode.isFile, beq_iff_eq]
  by_cases file : inode.mode &&& sIfmt = sIfreg
  · rw [file]
    decide
  · rw [if_neg file]
    split
    · simp [file]
    · split
      · simp [file]
      · split <;> simp [file]

/-! ## Times -/

theorem unixNanos_lt_iff {left right : Timestamp} (leftNanos : left.nsec.toNat < 1000000000)
    (rightNanos : right.nsec.toNat < 1000000000) :
    (stamp left).unixNanos < (stamp right).unixNanos ↔
      left.sec < right.sec ∨ left.sec = right.sec ∧ left.nsec < right.nsec := by
  rw [stamp, stamp, UInt64.lt_iff_toNat_lt, UInt32.lt_iff_toNat_lt, ← UInt64.toNat_inj]
  dsimp only
  omega

end BtrfsForensic
