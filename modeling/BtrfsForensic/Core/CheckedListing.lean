import BtrfsForensic.Core.Attributes
import BtrfsForensic.Core.CheckedParsing

namespace BtrfsForensic

/-! What is read out of a node, with every unchecked operation of the source checked:
chunks, inodes, directories, attributes and names. Item data is a range of the block,
so what holds of the block's length holds of its length. -/

namespace Checked

/-! ## Items -/

def itemData (node : Node) (item : ItemHeader) : Checked Bytes :=
  let start := saturatingAdd btrfsHeaderSize item.dataOffset.toNat
  let stop := saturatingAdd start item.dataSize.toNat
  return (getRange node.block start stop).getD []

def leafItems (node : Node) : Checked (List (DiskKey × Bytes)) :=
  match node.body with
  | .leaf items => items.mapM fun item => return (item.key, ← itemData node item)
  | .interior _ => return []

def keyPtrs (node : Node) : Checked (List KeyPtr) :=
  match node.body with
  | .interior ptrs => return ptrs
  | .leaf _ => return []

def Chunk.parse (data : Bytes) : Checked Chunk := do
  let numStripes ← leU16 data 44
  let stripes ← table data chunkHeaderSize stripeSize numStripes.toNat (Stripe.parse data)
  return {
    length := ← leU64 data 0
    owner := ← leU64 data 8
    stripeLen := ← leU64 data 16
    chunkType := ← leU64 data 24
    numStripes := numStripes
    subStripes := ← leU16 data 46
    stripes := stripes }

def chunkItems (node : Node) : Checked (List (UInt64 × Chunk)) := do
  let items ← leafItems node
  (items.filter fun item => item.1.keyType = chunkItemKey).mapM fun item =>
    return (item.1.offset, ← Chunk.parse item.2)

section Items

variable {node : Node} {data : Bytes}

theorem leafItems_eq (node : Node) : leafItems node = .ok node.leafItems := by
  rw [leafItems, Node.leafItems]
  cases node.body with
  | leaf items => exact mapM_eq fun item _ => rfl
  | interior => rfl

theorem keyPtrs_eq (node : Node) : keyPtrs node = .ok node.keyPtrs := by
  rw [keyPtrs, Node.keyPtrs]
  cases node.body <;> rfl

theorem length_le_of_mem_leafItems {item : DiskKey × Bytes}
    (member : item ∈ node.leafItems) : item.2.length ≤ node.block.length := by
  rw [Node.leafItems] at member
  split at member
  case h_1 items _ =>
    rcases List.mem_map.mp member with ⟨header, _, rfl⟩
    simp only [Node.itemData]
    cases found : getRange node.block
        (saturatingAdd btrfsHeaderSize header.dataOffset.toNat)
        (saturatingAdd (saturatingAdd btrfsHeaderSize header.dataOffset.toNat)
          header.dataSize.toNat) with
    | none => exact Nat.zero_le _
    | some block =>
        have size := length_of_getRange found
        have inside := stop_le_of_getRange found
        rw [Option.getD_some]
        omega
  case h_2 => cases member

theorem chunk_eq (small : data.length < 2 ^ 63) :
    Chunk.parse data = .ok (BtrfsForensic.Chunk.parse data) := by
  have limit : usizeMax = 2 ^ 64 - 1 := rfl
  have size : stripeSize = 32 := rfl
  have stripes (count : Nat) :
      table data chunkHeaderSize stripeSize count (Stripe.parse data) =
        .ok ((List.range (min count ((data.length - chunkHeaderSize) / stripeSize))).map
          fun index =>
            BtrfsForensic.Stripe.parse data (chunkHeaderSize + index * stripeSize)) := by
    apply table_eq (by omega)
    intro index inside
    exact stripe_eq (by omega)
  rw [Chunk.parse, BtrfsForensic.Chunk.parse]
  simp (disch := omega) only [leU16_eq, leU64_eq, stripes, bind_ok]
  rfl

theorem chunkItems_eq (small : node.block.length < 2 ^ 63) :
    chunkItems node = .ok node.chunkItems := by
  rw [chunkItems, leafItems_eq, bind_ok, Node.chunkItems]
  apply mapM_eq
  intro item member
  have within := length_le_of_mem_leafItems (List.mem_of_mem_filter member)
  rw [chunk_eq (by omega)]
  rfl

end Items

/-! ## Inodes -/

def Timestamp.parse (data : Bytes) (off : Nat) : Checked Timestamp :=
  return { sec := ← leU64 data off, nsec := ← leU32 data (← add off 8) }

def Inode.parse (objectid : UInt64) (data : Bytes) : Checked Inode :=
  return {
    objectid := objectid
    generation := ← leU64 data InodeOff.generation
    transid := ← leU64 data InodeOff.transid
    size := ← leU64 data InodeOff.size
    nbytes := ← leU64 data InodeOff.nbytes
    nlink := ← leU32 data InodeOff.nlink
    uid := ← leU32 data InodeOff.uid
    gid := ← leU32 data InodeOff.gid
    mode := ← leU32 data InodeOff.mode
    flags := ← leU64 data InodeOff.flags
    atime := ← Timestamp.parse data InodeOff.atime
    ctime := ← Timestamp.parse data InodeOff.ctime
    mtime := ← Timestamp.parse data InodeOff.mtime
    otime := ← Timestamp.parse data InodeOff.otime }

def readInode (leaf : Node) (objectid : UInt64) : Checked (Option Inode) := do
  let items ← leafItems leaf
  match items.find? fun item =>
      item.1.objectid = objectid ∧ item.1.keyType = inodeItemKey with
  | some item => return some (← Inode.parse objectid item.2)
  | none => return none

section Inodes

variable {data : Bytes}

theorem timestamp_eq {off : Nat} (fits : off + 12 ≤ usizeMax) :
    Timestamp.parse data off = .ok (BtrfsForensic.Timestamp.parse data off) := by
  simp (disch := omega) only [Timestamp.parse, leU64_eq, leU32_eq, add_eq, bind_ok]
  rfl

theorem inode_eq (objectid : UInt64) :
    Inode.parse objectid data = .ok (BtrfsForensic.Inode.parse objectid data) := by
  have limit : usizeMax = 2 ^ 64 - 1 := rfl
  simp (disch := (rw [limit]; decide)) only [Inode.parse, leU64_eq, leU32_eq,
    timestamp_eq, bind_ok]
  rfl

theorem readInode_eq (leaf : Node) (objectid : UInt64) :
    readInode leaf objectid = .ok (BtrfsForensic.readInode leaf objectid) := by
  rw [readInode, leafItems_eq, bind_ok, BtrfsForensic.readInode]
  cases leaf.leafItems.find? fun item =>
      item.1.objectid = objectid ∧ item.1.keyType = inodeItemKey with
  | none => rfl
  | some item =>
      dsimp only
      rw [inode_eq]
      rfl

end Inodes

/-! ## Directories -/

def parseDirItem (data : Bytes) : Checked (Option DirEntry) :=
  if data.length < DirOff.name then
    return none
  else do
    let child ← leU64 data 0
    let typeByte := u8At data DirOff.type
    let nameLen := (← leU16 data DirOff.nameLen).toNat
    let take := min nameLen (data.length - DirOff.name)
    let nameEnd ← add DirOff.name take
    let nameBytes := (getRange data DirOff.name nameEnd).getD []
    return some {
      name := fromUtf8Lossy nameBytes
      child := child
      itemType := DirItemType.fromByte typeByte }

def listDirStep (dirObjectid : UInt64) (out : List DirEntry) (item : DiskKey × Bytes) :
    Checked (List DirEntry) :=
  if IsDirItem dirObjectid item.1 then do
    match ← parseDirItem item.2 with
    | none => return out
    | some entry =>
        if out.any fun listed => (listed.name, listed.child) = (entry.name, entry.child) then
          return out
        else return out ++ [entry]
  else
    return out

def listDir (leaf : Node) (dirObjectid : UInt64) : Checked (List DirEntry) := do
  let items ← leafItems leaf
  items.foldlM (listDirStep dirObjectid) []

section Directories

variable {leaf : Node} {data : Bytes}

theorem parseDirItem_eq (small : data.length < 2 ^ 63) :
    parseDirItem data = .ok (BtrfsForensic.parseDirItem data) := by
  have limit : usizeMax = 2 ^ 64 - 1 := rfl
  have nameStart : DirOff.name = 30 := rfl
  rw [parseDirItem, BtrfsForensic.parseDirItem]
  split
  case isTrue => rfl
  case isFalse long =>
    rw [leU64_eq (by rw [limit]; decide), bind_ok, leU16_eq (by rw [limit]; decide),
      bind_ok]
    dsimp only
    rw [add_eq (by omega), bind_ok]
    rfl

theorem listDir_eq (small : leaf.block.length < 2 ^ 63) (dirObjectid : UInt64) :
    listDir leaf dirObjectid = .ok (BtrfsForensic.listDir leaf dirObjectid) := by
  rw [listDir, leafItems_eq, bind_ok, BtrfsForensic.listDir]
  apply foldlM_eq
  intro item member out
  have within := length_le_of_mem_leafItems member
  rw [listDirStep, BtrfsForensic.listDirStep]
  split
  case isFalse => rfl
  case isTrue =>
    rw [parseDirItem_eq (by omega), bind_ok]
    cases BtrfsForensic.parseDirItem item.2 with
    | none => rfl
    | some entry =>
        dsimp only
        split <;> rfl

end Directories

/-! ## Attributes and names -/

def checkedAddUsize (left right : Nat) : Option Nat :=
  if left + right ≤ usizeMax then some (left + right) else none

def parseXattrItem (data : Bytes) : Checked (Option (Xattr × Nat)) :=
  if data.length < DirOff.name then
    return none
  else do
    let dataLen := (← leU16 data DirOff.dataLen).toNat
    let nameLen := (← leU16 data DirOff.nameLen).toNat
    if nameLen = 0 then
      return none
    else
      return do
        let nameEnd ← checkedAddUsize DirOff.name nameLen
        let valueEnd ← checkedAddUsize nameEnd dataLen
        let name ← getRange data DirOff.name nameEnd
        let value ← getRange data nameEnd valueEnd
        some (⟨fromUtf8Lossy name, value⟩, valueEnd)

def parseInodeRef (data : Bytes) (parent : UInt64) : Checked (Option (InodeRef × Nat)) :=
  if data.length < InodeRefOff.name then
    return none
  else do
    let index ← leU64 data InodeRefOff.index
    let nameLen := (← leU16 data InodeRefOff.nameLen).toNat
    if nameLen = 0 then
      return none
    else
      return do
        let nameEnd ← checkedAddUsize InodeRefOff.name nameLen
        let name ← getRange data InodeRefOff.name nameEnd
        some (⟨parent, index, fromUtf8Lossy name⟩, nameEnd)

def listPacked {β : Type} (keyType : UInt8)
    (parse : DiskKey → Bytes → Checked (Option (β × Nat))) (leaf : Node)
    (objectid : UInt64) : Checked (List β) := do
  let items ← leafItems leaf
  let found ← items.mapM fun item =>
    if item.1.objectid ≠ objectid ∨ item.1.keyType ≠ keyType then return []
    else packed (parse item.1) item.2
  return found.flatten

def listXattrs (leaf : Node) (objectid : UInt64) : Checked (List Xattr) :=
  listPacked xattrItemKey (fun _ data => parseXattrItem data) leaf objectid

def listInodeRefs (leaf : Node) (objectid : UInt64) : Checked (List InodeRef) :=
  listPacked inodeRefKey (fun key data => parseInodeRef data key.offset) leaf objectid

section Packed

variable {leaf : Node} {data : Bytes}

theorem checkedAddUsize_eq {left right : Nat} (fits : left + right ≤ usizeMax) :
    checkedAddUsize left right = some (left + right) :=
  if_pos fits

theorem parseXattrItem_eq (data : Bytes) :
    parseXattrItem data = .ok (BtrfsForensic.parseXattrItem data) := by
  have limit : usizeMax = 2 ^ 64 - 1 := rfl
  have nameStart : DirOff.name = 30 := rfl
  have nameBound := (BtrfsForensic.leU16 data DirOff.nameLen).toNat_lt
  have dataBound := (BtrfsForensic.leU16 data DirOff.dataLen).toNat_lt
  rw [parseXattrItem, BtrfsForensic.parseXattrItem]
  split
  case isTrue => rfl
  case isFalse =>
    rw [leU16_eq (by rw [limit]; decide), bind_ok, leU16_eq (by rw [limit]; decide),
      bind_ok]
    dsimp only
    split
    case isTrue => rfl
    case isFalse =>
      rw [checkedAddUsize_eq (by omega), Option.bind_eq_bind, Option.bind_some,
        checkedAddUsize_eq (by omega), Option.bind_eq_bind, Option.bind_some]
      rfl

theorem le_of_parseXattrItem {rest : Bytes} {record : Xattr} {consumed : Nat}
    (parsed : BtrfsForensic.parseXattrItem rest = some (record, consumed)) :
    consumed ≤ rest.length := by
  rw [BtrfsForensic.parseXattrItem] at parsed
  split at parsed
  · cases parsed
  · dsimp only at parsed
    split at parsed
    · cases parsed
    · simp only [Option.bind_eq_bind, Option.bind_eq_some_iff] at parsed
      rcases parsed with ⟨name, _, value, found, equal⟩
      cases equal
      exact stop_le_of_getRange found

theorem parseInodeRef_eq (data : Bytes) (parent : UInt64) :
    parseInodeRef data parent = .ok (BtrfsForensic.parseInodeRef data parent) := by
  have limit : usizeMax = 2 ^ 64 - 1 := rfl
  have nameStart : InodeRefOff.name = 10 := rfl
  have nameBound := (BtrfsForensic.leU16 data InodeRefOff.nameLen).toNat_lt
  rw [parseInodeRef, BtrfsForensic.parseInodeRef]
  split
  case isTrue => rfl
  case isFalse =>
    rw [leU64_eq (by rw [limit]; decide), bind_ok, leU16_eq (by rw [limit]; decide),
      bind_ok]
    dsimp only
    split
    case isTrue => rfl
    case isFalse =>
      rw [checkedAddUsize_eq (by omega), Option.bind_eq_bind, Option.bind_some]
      rfl

theorem le_of_parseInodeRef {rest : Bytes} {parent : UInt64} {record : InodeRef}
    {consumed : Nat}
    (parsed : BtrfsForensic.parseInodeRef rest parent = some (record, consumed)) :
    consumed ≤ rest.length := by
  rw [BtrfsForensic.parseInodeRef] at parsed
  split at parsed
  · cases parsed
  · dsimp only at parsed
    split at parsed
    · cases parsed
    · simp only [Option.bind_eq_bind, Option.bind_eq_some_iff] at parsed
      rcases parsed with ⟨name, found, equal⟩
      cases equal
      exact stop_le_of_getRange found

/-- A walk over packed records stays in the item when each record ends within what is
left of it. -/
theorem listPacked_eq {β : Type} {keyType : UInt8}
    {checked : DiskKey → Bytes → Checked (Option (β × Nat))}
    {parse : DiskKey → Bytes → Option (β × Nat)}
    (each : ∀ key data, checked key data = .ok (parse key data))
    (inside : ∀ key rest record consumed, parse key rest = some (record, consumed) →
      consumed ≤ rest.length)
    (small : leaf.block.length < 2 ^ 63) (objectid : UInt64) :
    listPacked keyType checked leaf objectid =
      .ok (BtrfsForensic.listPacked keyType parse leaf objectid) := by
  have limit : usizeMax = 2 ^ 64 - 1 := rfl
  have walked : (leaf.leafItems.mapM fun item =>
      if item.1.objectid ≠ objectid ∨ item.1.keyType ≠ keyType then return []
      else packed (checked item.1) item.2) =
        Except.ok (leaf.leafItems.map fun item =>
          if item.1.objectid ≠ objectid ∨ item.1.keyType ≠ keyType then []
          else BtrfsForensic.packed (parse item.1) item.2) := by
    apply mapM_eq
    intro item member
    have within := length_le_of_mem_leafItems member
    split
    case isTrue => rfl
    case isFalse =>
      exact packed_eq (by omega) (fun _ _ => each item.1 _) (inside item.1)
  rw [listPacked, leafItems_eq, bind_ok, walked, bind_ok, BtrfsForensic.listPacked]
  rfl

end Packed

end Checked

/-! ## Parsing does not fault -/

/-- Parsing a block that memory can hold, at whatever offset and declared size, and
reading the node it holds neither overflows nor leaves a slice, and the checked run
yields what the parser yields. -/
theorem parsing_never_faults (crates : Crates) {block : Bytes}
    (small : block.length < 2 ^ 63) :
    Checked.Superblock.parse crates block = .ok (Superblock.parse crates block) ∧
      (∀ arrayOff arraySize, Checked.parseArray block arrayOff arraySize =
        .ok (SysChunk.parseArray block arrayOff arraySize)) ∧
      Checked.Node.parse crates block = .ok (Node.parse crates block) ∧
      ∀ node, Node.parse crates block = .ok node →
        Checked.leafItems node = .ok node.leafItems ∧
          Checked.keyPtrs node = .ok node.keyPtrs ∧
          Checked.chunkItems node = .ok node.chunkItems ∧
          ∀ objectid, Checked.readInode node objectid = .ok (readInode node objectid) ∧
            Checked.listDir node objectid = .ok (listDir node objectid) ∧
            Checked.listXattrs node objectid = .ok (listXattrs node objectid) ∧
            Checked.listInodeRefs node objectid = .ok (listInodeRefs node objectid) := by
  refine ⟨Checked.superblock_eq small, Checked.parseArray_eq small,
    Checked.node_eq small, fun node parsed => ?_⟩
  have held : node.block.length < 2 ^ 63 := by
    rw [(Node.parse_eq_ok_iff.mp parsed).2, Node.ofBlock_block]
    exact small
  refine ⟨Checked.leafItems_eq node, Checked.keyPtrs_eq node, Checked.chunkItems_eq held,
    fun objectid => ⟨Checked.readInode_eq node objectid, Checked.listDir_eq held objectid,
      ?_, ?_⟩⟩
  · apply Checked.listPacked_eq _ _ held
    · exact fun _ => Checked.parseXattrItem_eq
    · exact fun _ _ _ _ => Checked.le_of_parseXattrItem
  · apply Checked.listPacked_eq _ _ held
    · exact fun key data => Checked.parseInodeRef_eq data key.offset
    · exact fun _ _ _ _ => Checked.le_of_parseInodeRef

theorem parsing_never_faults_in_attributeLeaf :
    Checked.Superblock.parse Crates.withoutCodecs attributeLeaf.block =
        .ok (Superblock.parse Crates.withoutCodecs attributeLeaf.block) ∧
      Checked.parseArray attributeLeaf.block usizeMax 4294967295 =
        .ok (SysChunk.parseArray attributeLeaf.block usizeMax 4294967295) ∧
      Checked.listXattrs attributeLeaf 256 = .ok (listXattrs attributeLeaf 256) := by
  have small : attributeLeaf.block.length < 2 ^ 63 := by decide +kernel
  have parsed : Node.parse Crates.withoutCodecs attributeLeaf.block = .ok attributeLeaf :=
    Node.parse_eq_ok_iff.mpr ⟨by decide +kernel, rfl⟩
  rcases parsing_never_faults Crates.withoutCodecs small with
    ⟨superblock, array, _, listed⟩
  exact ⟨superblock, array usizeMax 4294967295,
    ((listed attributeLeaf parsed).2.2.2 256).2.2.1⟩

end BtrfsForensic
