import BtrfsForensic.Core.Chunk
import BtrfsForensic.Core.Crc

namespace BtrfsForensic

/-! B-tree nodes: the 101-byte header, then leaf items or interior
key-pointers. A bad checksum never fails a parse; it is carried in the node. -/

abbrev btrfsHeaderSize : Nat := 101
abbrev btrfsItemSize : Nat := 25
abbrev btrfsKeyPtrSize : Nat := 33

namespace Hdr

abbrev fsid : Nat := 0x20
abbrev bytenr : Nat := 0x30
abbrev flags : Nat := 0x38
abbrev chunkTreeUuid : Nat := 0x40
abbrev generation : Nat := 0x50
abbrev owner : Nat := 0x58
abbrev nritems : Nat := 0x60
abbrev level : Nat := 0x64

end Hdr

/-- The fixed prefix of every node. `bytenr` is the node's own logical
address. -/
structure Header where
  csum : List.Vector UInt8 4
  fsid : List.Vector UInt8 16
  bytenr : UInt64
  flags : UInt64
  chunkTreeUuid : List.Vector UInt8 16
  generation : UInt64
  owner : UInt64
  nritems : UInt32
  level : UInt8
  deriving DecidableEq

def Header.decode (block : Bytes) : Header where
  csum := u8Array block 0 4
  fsid := u8Array block Hdr.fsid 16
  bytenr := leU64 block Hdr.bytenr
  flags := leU64 block Hdr.flags
  chunkTreeUuid := u8Array block Hdr.chunkTreeUuid 16
  generation := leU64 block Hdr.generation
  owner := leU64 block Hdr.owner
  nritems := leU32 block Hdr.nritems
  level := u8At block Hdr.level

def Header.parse (block : Bytes) : Option Header :=
  if block.length < btrfsHeaderSize then none else some (Header.decode block)

/-- An interior node's pointer to a child, by the child's logical address. -/
structure KeyPtr where
  key : DiskKey
  blockptr : UInt64
  generation : UInt64
  deriving DecidableEq

/-- A chunk item's geometry. Its logical start is the item key's `offset`. -/
structure Chunk where
  length : UInt64
  owner : UInt64
  stripeLen : UInt64
  chunkType : UInt64
  numStripes : UInt16
  subStripes : UInt16
  stripes : List Stripe
  deriving DecidableEq

/-- The declared stripe count is capped by how many stripes the data holds. -/
def Chunk.parse (data : Bytes) : Chunk :=
  let numStripes := leU16 data 44
  let maxFit := (data.length - chunkHeaderSize) / stripeSize
  let take := min numStripes.toNat maxFit
  { length := leU64 data 0
    owner := leU64 data 8
    stripeLen := leU64 data 16
    chunkType := leU64 data 24
    numStripes := numStripes
    subStripes := leU16 data 46
    stripes := (List.range take).map fun index =>
      Stripe.parse data (chunkHeaderSize + index * stripeSize) }

/-- An item header; `dataOffset` is relative to the end of the node header. -/
structure ItemHeader where
  key : DiskKey
  dataOffset : UInt32
  dataSize : UInt32
  deriving DecidableEq

inductive Body
  | leaf (items : List ItemHeader)
  | interior (ptrs : List KeyPtr)
  deriving DecidableEq

structure Node where
  header : Header
  crcValid : Option Bool
  body : Body
  block : Bytes
  deriving DecidableEq

/-- At most `nritems` item headers, as many as the block can hold. -/
def parseItems (block : Bytes) (nritems : Nat) : List ItemHeader :=
  let maxFit := (block.length - btrfsHeaderSize) / btrfsItemSize
  (List.range (min nritems maxFit)).map fun index =>
    let io := btrfsHeaderSize + index * btrfsItemSize
    { key := DiskKey.parse block io
      dataOffset := leU32 block (io + diskKeySize)
      dataSize := leU32 block (io + diskKeySize + 4) }

/-- At most `nritems` key-pointers, as many as the block can hold. -/
def parseKeyPtrs (block : Bytes) (nritems : Nat) : List KeyPtr :=
  let maxFit := (block.length - btrfsHeaderSize) / btrfsKeyPtrSize
  (List.range (min nritems maxFit)).map fun index =>
    let po := btrfsHeaderSize + index * btrfsKeyPtrSize
    { key := DiskKey.parse block po
      blockptr := leU64 block (po + diskKeySize)
      generation := leU64 block (po + diskKeySize + 8) }

namespace Node

/-- The node a header and its block make. A standalone block does not carry the
filesystem's checksum type: every node is verified as crc32c. -/
def ofHeader (crates : Crates) (block : Bytes) (header : Header) : Node where
  header := header
  crcValid := superblockCrcStatus crates .crc32c block block.length
  body :=
    let nritems := header.nritems.toNat
    if header.level = 0 then Body.leaf (parseItems block nritems)
    else Body.interior (parseKeyPtrs block nritems)
  block := block

def parse (crates : Crates) (block : Bytes) : Except BtrfsError Node :=
  match Header.parse block with
  | none => .error (.truncated "btrfs_header" btrfsHeaderSize block.length)
  | some header => .ok (ofHeader crates block header)

def isLeaf (node : Node) : Bool :=
  match node.body with
  | .leaf _ => true
  | .interior _ => false

/-- The data of a leaf item, empty when the declared range leaves the block. -/
def itemData (node : Node) (item : ItemHeader) : Bytes :=
  let start := saturatingAdd btrfsHeaderSize item.dataOffset.toNat
  let stop := saturatingAdd start item.dataSize.toNat
  (getRange node.block start stop).getD []

def leafItems (node : Node) : List (DiskKey × Bytes) :=
  match node.body with
  | .leaf items => items.map fun item => (item.key, node.itemData item)
  | .interior _ => []

def keyPtrs (node : Node) : List KeyPtr :=
  match node.body with
  | .interior ptrs => ptrs
  | .leaf _ => []

def chunkItems (node : Node) : List (UInt64 × Chunk) :=
  (node.leafItems.filter fun item => item.1.keyType = chunkItemKey).map
    fun item => (item.1.offset, Chunk.parse item.2)

/-! ## What a parsed node says about its block -/

def ofBlock (crates : Crates) (block : Bytes) : Node :=
  ofHeader crates block (Header.decode block)

section Parsed

variable {crates : Crates} {block : Bytes}

theorem parse_eq_ok_iff {node : Node} :
    parse crates block = .ok node ↔
      btrfsHeaderSize ≤ block.length ∧ node = ofBlock crates block := by
  rw [parse, Header.parse]
  split
  case h_1 short =>
    have tooShort : block.length < btrfsHeaderSize := by
      by_contra long
      rw [if_neg long] at short
      cases short
    simp only [reduceCtorEq, false_iff]
    exact fun parts => absurd parts.1 (Nat.not_le_of_lt tooShort)
  case h_2 header decoded =>
    split at decoded
    case isTrue => cases decoded
    case isFalse long =>
      cases decoded
      simp only [Except.ok.injEq, ofBlock]
      exact ⟨fun equal => ⟨Nat.le_of_not_lt long, equal.symm⟩,
        fun parts => parts.2.symm⟩

@[simp] theorem ofBlock_block : (ofBlock crates block).block = block := rfl

@[simp] theorem ofBlock_header :
    (ofBlock crates block).header = Header.decode block := rfl

@[simp] theorem ofBlock_crcValid :
    (ofBlock crates block).crcValid =
      some (verifySuperblockCrc32c crates block block.length) := rfl

end Parsed

/-! ## Leaves and interior nodes -/

@[simp] theorem leafItems_of_not_isLeaf {node : Node} (interior : ¬node.isLeaf) :
    node.leafItems = [] := by
  cases node with
  | mk header crcValid body block =>
      cases body with
      | leaf items => exact absurd rfl interior
      | interior ptrs => rfl

@[simp] theorem keyPtrs_of_isLeaf {node : Node} (leaf : node.isLeaf) :
    node.keyPtrs = [] := by
  cases node with
  | mk header crcValid body block =>
      cases body with
      | leaf items => rfl
      | interior ptrs => cases leaf

end Node

end BtrfsForensic
