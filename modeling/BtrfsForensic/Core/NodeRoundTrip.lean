import BtrfsForensic.Core.ReadBack

namespace BtrfsForensic

/-! The items of a written leaf and the key-pointers of a written interior node,
as the reader finds them: headers grow forward from the node header, item data
backward from the end of the block. -/

/-! ## Keys, item headers and key-pointers -/

theorem DiskKey.parse_of_holds {data : Bytes} {off : Nat} {key : DiskKey}
    (holds : Holds data off (Writer.key key)) : DiskKey.parse data off = key := by
  rw [Writer.key, holds_append_iff, holds_cons_iff, length_encodeLE] at holds
  rcases holds with ⟨objectid, keyType, offset⟩
  rw [DiskKey.parse, leU64_of_holds objectid, u8At_of_getElem? keyType,
    leU64_of_holds offset]

theorem holds_key {data : Bytes} {off : Nat} (inside : off + 17 ≤ data.length) :
    Holds data off (Writer.key (DiskKey.parse data off)) := by
  rw [Writer.key, holds_append_iff, holds_cons_iff, length_encodeLE]
  refine ⟨holds_leU64 (by omega), ?_, holds_leU64 (by omega)⟩
  exact holds_singleton_iff.mp (holds_u8At (by omega))

namespace Writer

@[simp] theorem length_key (diskKey : DiskKey) : (key diskKey).length = 17 := by
  simp [key]

def itemHeader (item : ItemHeader) : Bytes :=
  key item.key ++ (encodeLE 4 item.dataOffset.toNat ++ encodeLE 4 item.dataSize.toNat)

def keyPtr (ptr : KeyPtr) : Bytes :=
  key ptr.key ++ (encodeLE 8 ptr.blockptr.toNat ++ encodeLE 8 ptr.generation.toNat)

@[simp] theorem length_itemHeader (item : ItemHeader) :
    (itemHeader item).length = btrfsItemSize := by
  simp [itemHeader]

@[simp] theorem length_keyPtr (ptr : KeyPtr) :
    (keyPtr ptr).length = btrfsKeyPtrSize := by
  simp [keyPtr]

theorem length_itemHeaders (room : Nat) (items : List (DiskKey × Bytes)) :
    (itemHeaders room items).length = btrfsItemSize * items.length := by
  induction items generalizing room with
  | nil => rfl
  | cons item items induction =>
      rw [itemHeaders, List.length_append, induction, List.length_cons]
      simp only [List.length_append, length_key, length_encodeLE, btrfsItemSize]
      omega

theorem length_keyPtrs (ptrs : List KeyPtr) :
    (ptrs.flatMap keyPtr).length = 33 * ptrs.length := by
  rw [List.length_flatMap, List.map_congr_left fun ptr _ => length_keyPtr ptr,
    List.map_const', List.sum_replicate_nat, Nat.mul_comm]

/-- Where the items of a leaf lie; `room` is as for `itemHeaders`. -/
def placedItems : (room : Nat) → List (DiskKey × Bytes) → List ItemHeader
  | _, [] => []
  | room, (itemKey, data) :: rest =>
      ⟨itemKey, UInt32.ofNat (room - data.length), UInt32.ofNat data.length⟩ ::
        placedItems (room - data.length) rest

@[simp] theorem length_placedItems (room : Nat) (items : List (DiskKey × Bytes)) :
    (placedItems room items).length = items.length := by
  induction items generalizing room with
  | nil => rfl
  | cons item items induction => simp [placedItems, induction]

def itemsSize (items : List (DiskKey × Bytes)) : Nat :=
  (items.map fun item => btrfsItemSize + item.2.length).sum

theorem itemsSize_eq (items : List (DiskKey × Bytes)) :
    itemsSize items = btrfsItemSize * items.length + (itemData items).length := by
  induction items with
  | nil => rfl
  | cons item items induction =>
      rw [itemsSize] at induction ⊢
      rw [List.map_cons, List.sum_cons, induction, itemData, itemData, List.map_cons,
        List.reverse_cons, List.flatten_append, List.length_append, List.length_cons,
        List.flatten_singleton]
      ring

theorem itemHeaders_eq {room : Nat} {items : List (DiskKey × Bytes)}
    (small : room < 2 ^ 32) (fits : (itemData items).length ≤ room) :
    itemHeaders room items = (placedItems room items).flatMap itemHeader := by
  induction items generalizing room with
  | nil => rfl
  | cons item items induction =>
      rw [itemData, List.map_cons, List.reverse_cons, List.flatten_append,
        List.length_append, List.flatten_singleton, ← itemData] at fits
      have smaller : room - item.2.length < 2 ^ 32 := by omega
      have rest := induction smaller (by omega)
      rw [itemHeaders, placedItems, List.flatMap_cons, ← rest, itemHeader,
        UInt32.toNat_ofNat_of_lt' (Nat.lt_of_le_of_lt (Nat.sub_le _ _) small),
        UInt32.toNat_ofNat_of_lt' (Nat.lt_of_le_of_lt (by omega) small)]
      simp only [List.append_assoc]

end Writer

/-! ## Reading items and key-pointers -/

section Reading

variable {crates : Crates} {block : Bytes} {items : List (DiskKey × Bytes)}
  {ptrs : List KeyPtr} {level : UInt8}

theorem parseItems_of_holds {placed : List ItemHeader}
    (holds : Holds block btrfsHeaderSize (placed.flatMap Writer.itemHeader)) :
    parseItems block placed.length = placed := by
  have size := holds.le
  rw [List.length_flatMap, List.map_congr_left fun item _ => Writer.length_itemHeader item,
    List.map_const', List.sum_replicate_nat] at size
  have fits : min placed.length ((block.length - btrfsHeaderSize) / btrfsItemSize) =
      placed.length := by
    rw [btrfsHeaderSize, btrfsItemSize] at *
    omega
  rw [parseItems]
  simp only [fits]
  refine map_range_of_holds (fun io => ItemHeader.mk (DiskKey.parse block io)
    (leU32 block (io + diskKeySize)) (leU32 block (io + diskKeySize + 4)))
      (fun item _ => Writer.length_itemHeader item) ?_ holds
  intro item _ position found
  rw [Writer.itemHeader, holds_append_iff, holds_append_iff, Writer.length_key,
    length_encodeLE] at found
  rcases found with ⟨key, offset, dataSize⟩
  rw [DiskKey.parse_of_holds key, leU32_of_holds offset, leU32_of_holds dataSize,
    UInt32.ofNat_toNat, UInt32.ofNat_toNat]

theorem parseKeyPtrs_of_holds
    (holds : Holds block btrfsHeaderSize (ptrs.flatMap Writer.keyPtr)) :
    parseKeyPtrs block ptrs.length = ptrs := by
  have size := holds.le
  rw [Writer.length_keyPtrs] at size
  have fits : min ptrs.length ((block.length - btrfsHeaderSize) / btrfsKeyPtrSize) =
      ptrs.length := by
    rw [btrfsHeaderSize, btrfsKeyPtrSize] at *
    omega
  rw [parseKeyPtrs]
  simp only [fits]
  refine map_range_of_holds (fun po => KeyPtr.mk (DiskKey.parse block po)
    (leU64 block (po + diskKeySize)) (leU64 block (po + diskKeySize + 8)))
      (fun ptr _ => Writer.length_keyPtr ptr) ?_ holds
  intro ptr _ position found
  rw [Writer.keyPtr, holds_append_iff, holds_append_iff, Writer.length_key,
    length_encodeLE] at found
  rcases found with ⟨key, blockptr, generation⟩
  rw [DiskKey.parse_of_holds key, leU64_of_holds blockptr, leU64_of_holds generation]

/-- Each item's data is found where its header puts it: the induction runs
backward through the data while it goes forward through the headers. -/
theorem itemData_of_holds {node : Node} {room : Nat} (small : room < 2 ^ 32)
    (fits : (Writer.itemData items).length ≤ room)
    (holds : Holds node.block (btrfsHeaderSize + room - (Writer.itemData items).length)
      (Writer.itemData items)) :
    (Writer.placedItems room items).map (fun item => (item.key, node.itemData item)) =
      items := by
  induction items generalizing room with
  | nil => rfl
  | cons item items induction =>
      have limit : usizeMax = 2 ^ 64 - 1 := rfl
      have split : Writer.itemData (item :: items) = Writer.itemData items ++ item.2 := by
        rw [Writer.itemData, List.map_cons, List.reverse_cons, List.flatten_append,
          List.flatten_singleton, Writer.itemData]
      rw [split, List.length_append] at fits
      rw [split, List.length_append, holds_append_iff] at holds
      rcases holds with ⟨others, own⟩
      have place : btrfsHeaderSize + room -
          ((Writer.itemData items).length + item.2.length) + (Writer.itemData items).length =
            btrfsHeaderSize + (room - item.2.length) := by
        omega
      have restPlace : btrfsHeaderSize + room -
          ((Writer.itemData items).length + item.2.length) =
            btrfsHeaderSize + (room - item.2.length) - (Writer.itemData items).length := by
        omega
      rw [place, Holds] at own
      rw [restPlace] at others
      have smaller : room - item.2.length < 2 ^ 32 := by omega
      have rest := induction smaller (by omega) others
      have data : node.itemData ⟨item.1, UInt32.ofNat (room - item.2.length),
          UInt32.ofNat item.2.length⟩ = item.2 := by
        rw [Node.itemData,
          UInt32.toNat_ofNat_of_lt' (Nat.lt_of_le_of_lt (Nat.sub_le _ _) small),
          UInt32.toNat_ofNat_of_lt' (Nat.lt_of_le_of_lt (by omega) small)]
        rw [btrfsHeaderSize] at *
        rw [saturatingAdd_eq (by omega), saturatingAdd_eq (by omega), own, Option.getD_some]
      rw [Writer.placedItems, List.map_cons, rest, data]

theorem body_of_layout {placed : List ItemHeader} {lead rest : Bytes}
    (small : block.length < 2 ^ 32) (place : lead.length = Hdr.nritems)
    (layout : block = lead ++ (encodeLE 4 placed.length ++ ([0] ++
      (placed.flatMap Writer.itemHeader ++ rest)))) :
    (Node.ofBlock crates block).body = .leaf placed := by
  have countOffset : Hdr.nritems = 96 := rfl
  have whole := holds_of_eq layout
  simp only [holds_append_iff, place, length_encodeLE, holds_singleton_iff,
    List.length_singleton, Nat.zero_add] at whole
  rcases whole with ⟨_, count, leafLevel, headers, _⟩
  have size := headers.le
  rw [List.length_flatMap, List.map_congr_left fun item _ => Writer.length_itemHeader item,
    List.map_const', List.sum_replicate_nat, btrfsItemSize] at size
  have nritems : (leU32 block Hdr.nritems).toNat = placed.length := by
    rw [leU32_of_holds count, UInt32.toNat_ofNat_of_lt' (show _ < 2 ^ 32 by omega)]
  simp only [Node.ofBlock, Node.ofHeader, Header.decode, u8At_of_getElem? leafLevel,
    nritems, if_true, parseItems_of_holds headers]

theorem leafItems_of_layout {lead gap : Bytes} (small : block.length < 2 ^ 32)
    (place : lead.length = Hdr.nritems)
    (layout : block = lead ++ (encodeLE 4 items.length ++ ([0] ++
      (Writer.itemHeaders (block.length - btrfsHeaderSize) items ++
        (gap ++ Writer.itemData items))))) :
    (Node.ofBlock crates block).leafItems = items ∧
      (Node.ofBlock crates block).keyPtrs = [] := by
  have headerSize : btrfsHeaderSize = 101 := rfl
  have itemSize : btrfsItemSize = 25 := rfl
  have countOffset : Hdr.nritems = 96 := rfl
  have size := congrArg List.length layout
  simp only [List.length_append, Writer.length_itemHeaders, length_encodeLE, place,
    List.length_singleton, itemSize] at size
  have room : (Writer.itemData items).length ≤ block.length - btrfsHeaderSize := by omega
  have headers : block = lead ++ (encodeLE 4 (Writer.placedItems
      (block.length - btrfsHeaderSize) items).length ++ ([0] ++
        ((Writer.placedItems (block.length - btrfsHeaderSize) items).flatMap
          Writer.itemHeader ++ (gap ++ Writer.itemData items)))) := by
    rwa [Writer.length_placedItems, ← Writer.itemHeaders_eq (by omega) room]
  have body : (Node.ofBlock crates block).body =
      .leaf (Writer.placedItems (block.length - btrfsHeaderSize) items) :=
    body_of_layout small place headers
  have whole := holds_of_eq layout
  simp only [holds_append_iff, place, length_encodeLE, List.length_singleton,
    Writer.length_itemHeaders, itemSize, Nat.zero_add] at whole
  have data := whole.2.2.2.2.2
  have dataPlace : btrfsHeaderSize + (block.length - btrfsHeaderSize) -
      (Writer.itemData items).length = 101 + 25 * items.length + gap.length := by
    omega
  rw [Node.leafItems, Node.keyPtrs, body]
  refine ⟨?_, rfl⟩
  apply itemData_of_holds (by omega) room
  rwa [Node.ofBlock_block, dataPlace]

theorem keyPtrs_of_layout {lead gap : Bytes} (small : block.length < 2 ^ 32)
    (inner : level ≠ 0) (place : lead.length = Hdr.nritems)
    (layout : block = lead ++ (encodeLE 4 ptrs.length ++ ([level] ++
      (ptrs.flatMap Writer.keyPtr ++ gap)))) :
    (Node.ofBlock crates block).keyPtrs = ptrs ∧
      (Node.ofBlock crates block).leafItems = [] := by
  have size := congrArg List.length layout
  simp only [List.length_append, Writer.length_keyPtrs] at size
  have whole := holds_of_eq layout
  simp only [holds_append_iff, place, length_encodeLE, holds_singleton_iff,
    List.length_singleton, Nat.zero_add] at whole
  rcases whole with ⟨_, count, ownLevel, pointers, _⟩
  have few : ptrs.length < 2 ^ 32 := by omega
  have nritems : (leU32 block Hdr.nritems).toNat = ptrs.length := by
    rw [leU32_of_holds count, UInt32.toNat_ofNat_of_lt' few]
  have body : (Node.ofBlock crates block).body = .interior ptrs := by
    simp only [Node.ofBlock, Node.ofHeader, Header.decode, u8At_of_getElem? ownLevel,
      nritems, if_neg inner, parseKeyPtrs_of_holds pointers]
  rw [Node.leafItems, Node.keyPtrs, body]
  exact ⟨rfl, rfl⟩

end Reading

namespace Writer

variable {fields : NodeFields} {nodesize : Nat} {level : UInt8}
  {children : List UInt64} {block background : Bytes} {items : List (DiskKey × Bytes)}
  {ptrs : List KeyPtr}

/-! ## Nodes in a blank block -/

theorem header_eq (fields : NodeFields) (nritems : Nat) (level : UInt8) :
    ∃ lead, lead.length = Hdr.nritems ∧
      header fields nritems level = lead ++ (encodeLE 4 nritems ++ [level]) := by
  have fsid := fields.fsid.property
  refine ⟨List.replicate 32 0 ++ fields.fsid.val ++ encodeLE 8 fields.bytenr.toNat ++
    List.replicate 24 0 ++ encodeLE 8 fields.generation.toNat ++
    encodeLE 8 fields.owner.toNat, ?_, ?_⟩
  · simp only [List.length_append, List.length_replicate, length_encodeLE, fsid]
  · rw [header, List.append_assoc]

theorem length_leaf (fits : btrfsHeaderSize + itemsSize items ≤ nodesize) :
    (leaf nodesize fields items).length = nodesize := by
  rw [itemsSize_eq] at fits
  rw [leaf, List.length_append, List.length_append, List.length_append, length_header,
    length_itemHeaders, List.length_replicate]
  rw [btrfsHeaderSize] at fits
  omega

theorem leafItems_leaf {crates : Crates} (small : nodesize < 2 ^ 32)
    (fits : btrfsHeaderSize + itemsSize items ≤ nodesize) :
    (Node.ofBlock crates (leaf nodesize fields items)).leafItems = items := by
  have size : (leaf nodesize fields items).length = nodesize := length_leaf fits
  rcases header_eq fields items.length 0 with ⟨lead, place, front⟩
  have layout : leaf nodesize fields items = lead ++ (encodeLE 4 items.length ++ ([0] ++
      (itemHeaders ((leaf nodesize fields items).length - btrfsHeaderSize) items ++
        (List.replicate (nodesize - (header fields items.length 0 ++
          itemHeaders (nodesize - btrfsHeaderSize) items).length -
          (itemData items).length) 0 ++ itemData items)))) := by
    rw [size, leaf, front]
    simp only [List.append_assoc]
  exact (leafItems_of_layout (by rwa [size]) place layout).1

theorem length_leaf_nil (fits : 101 ≤ nodesize) :
    (leaf nodesize fields []).length = nodesize :=
  length_leaf fits

theorem decode_leaf_nil :
    (Header.decode (leaf nodesize fields [])).fsid = fields.fsid ∧
      (Header.decode (leaf nodesize fields [])).bytenr = fields.bytenr ∧
      (Header.decode (leaf nodesize fields [])).nritems.toNat = 0 ∧
      (Header.decode (leaf nodesize fields [])).level = 0 := by
  rw [leaf, itemHeaders, List.append_nil, List.append_assoc]
  exact decode_header (by decide)

theorem leafItems_leaf_nil {crates : Crates} :
    (Node.ofBlock crates (leaf nodesize fields [])).isLeaf = true ∧
      (Node.ofBlock crates (leaf nodesize fields [])).leafItems = [] := by
  rw [Node.isLeaf, Node.leafItems, Node.ofBlock, Node.ofHeader]
  simp only [decode_leaf_nil.2.2.2, decode_leaf_nil.2.2.1, if_true]
  exact ⟨trivial, rfl⟩

/-! ## Leaves of shared data -/

/-- The header of an item whose data ends the block. -/
def sharedHeader (nodesize : Nat) (itemKey : DiskKey) (data : Bytes) : ItemHeader where
  key := itemKey
  dataOffset := UInt32.ofNat (nodesize - btrfsHeaderSize - data.length)
  dataSize := UInt32.ofNat data.length

def sharedLeaf (nodesize : Nat) (fields : NodeFields) (count : Nat) (itemKey : DiskKey)
    (data : Bytes) : Bytes :=
  let front := header fields count 0 ++
    (List.replicate count (sharedHeader nodesize itemKey data)).flatMap itemHeader
  front ++ List.replicate (nodesize - front.length - data.length) 0 ++ data

section Shared

variable {crates : Crates} {count : Nat} {itemKey : DiskKey} {data : Bytes}

theorem length_replicate_itemHeader (count : Nat) (item : ItemHeader) :
    ((List.replicate count item).flatMap itemHeader).length = 25 * count := by
  rw [List.length_flatMap, List.map_replicate, length_itemHeader, List.sum_replicate_nat,
    Nat.mul_comm]

theorem length_sharedLeaf (fits : 101 + 25 * count + data.length ≤ nodesize) :
    (sharedLeaf nodesize fields count itemKey data).length = nodesize := by
  rw [sharedLeaf, List.length_append, List.length_append, List.length_append, length_header,
    length_replicate_itemHeader, List.length_replicate]
  omega

theorem itemData_sharedHeader (small : nodesize < 2 ^ 32)
    (fits : 101 + 25 * count + data.length ≤ nodesize) :
    (Node.ofBlock crates (sharedLeaf nodesize fields count itemKey data)).itemData
      (sharedHeader nodesize itemKey data) = data := by
  have limit : usizeMax = 2 ^ 64 - 1 := rfl
  have offset : (sharedHeader nodesize itemKey data).dataOffset.toNat =
      nodesize - 101 - data.length :=
    UInt32.toNat_ofNat_of_lt' (show nodesize - 101 - data.length < 2 ^ 32 by omega)
  have dataSize : (sharedHeader nodesize itemKey data).dataSize.toNat = data.length :=
    UInt32.toNat_ofNat_of_lt' (show data.length < 2 ^ 32 by omega)
  have start : saturatingAdd btrfsHeaderSize (nodesize - 101 - data.length) =
      nodesize - data.length := by
    rw [btrfsHeaderSize, saturatingAdd_eq (by omega)]
    omega
  have stored : Holds (sharedLeaf nodesize fields count itemKey data) (nodesize - data.length)
      data := by
    refine holds_of_append (by rw [List.append_nil, sharedLeaf]) ?_
    rw [List.length_append, List.length_append, length_header, length_replicate_itemHeader,
      List.length_replicate]
    omega
  rw [Node.itemData, offset, dataSize, start, saturatingAdd_eq (by omega),
    Node.ofBlock_block, stored, Option.getD_some]

theorem leafItems_sharedLeaf (small : nodesize < 2 ^ 32)
    (fits : 101 + 25 * count + data.length ≤ nodesize) :
    (Node.ofBlock crates (sharedLeaf nodesize fields count itemKey data)).leafItems =
      List.replicate count (itemKey, data) := by
  rcases header_eq fields count 0 with ⟨lead, place, front⟩
  have layout : sharedLeaf nodesize fields count itemKey data =
      lead ++ (encodeLE 4 (List.replicate count (sharedHeader nodesize itemKey data)).length ++
        ([0] ++ ((List.replicate count (sharedHeader nodesize itemKey data)).flatMap itemHeader ++
          (List.replicate (nodesize - (101 + 25 * count) - data.length) 0 ++ data)))) := by
    rw [sharedLeaf, List.length_append, length_header, length_replicate_itemHeader, front,
      List.length_replicate]
    simp only [List.append_assoc]
  have body : (Node.ofBlock crates (sharedLeaf nodesize fields count itemKey data)).body =
      .leaf (List.replicate count (sharedHeader nodesize itemKey data)) :=
    body_of_layout (by rwa [length_sharedLeaf fits]) place layout
  rw [Node.leafItems, body]
  simp only [List.map_replicate, itemData_sharedHeader small fits]
  rfl

end Shared

/-! ## Interior nodes in a blank block -/

def childPtr (child : UInt64) : KeyPtr := ⟨⟨0, 0, 0⟩, child, 0⟩

theorem interior_eq :
    interior nodesize fields level children =
      header fields children.length level ++ ((children.map childPtr).flatMap keyPtr ++
        List.replicate (nodesize - (101 + 33 * children.length)) 0) := by
  have pointers : (children.flatMap fun child =>
      key ⟨0, 0, 0⟩ ++ encodeLE 8 child.toNat ++ encodeLE 8 0) =
        (children.map childPtr).flatMap keyPtr := by
    rw [List.flatMap_map]
    congr 1
  rw [interior, pointers, List.length_append, length_header, length_keyPtrs,
    List.length_map, List.append_assoc]

theorem length_interior (fits : 101 + 33 * children.length ≤ nodesize) :
    (interior nodesize fields level children).length = nodesize := by
  rw [interior_eq, List.length_append, List.length_append, length_header,
    length_keyPtrs, List.length_map, List.length_replicate]
  omega

theorem decode_interior (few : children.length < 2 ^ 32) :
    (Header.decode (interior nodesize fields level children)).fsid = fields.fsid ∧
      (Header.decode (interior nodesize fields level children)).bytenr =
        fields.bytenr ∧
      (Header.decode (interior nodesize fields level children)).nritems.toNat =
        children.length ∧
      (Header.decode (interior nodesize fields level children)).level = level := by
  rw [interior_eq]
  exact decode_header few

theorem blockptrs_interior {crates : Crates} (inner : level ≠ 0)
    (small : nodesize < 2 ^ 32) (fits : 101 + 33 * children.length ≤ nodesize) :
    (Node.ofBlock crates (interior nodesize fields level children)).keyPtrs.map
      KeyPtr.blockptr = children := by
  rcases header_eq fields children.length level with ⟨lead, place, front⟩
  have layout : interior nodesize fields level children = lead ++
      (encodeLE 4 (children.map childPtr).length ++ ([level] ++
        ((children.map childPtr).flatMap keyPtr ++
          List.replicate (nodesize - (101 + 33 * children.length)) 0))) := by
    rw [interior_eq, front, List.length_map]
    simp only [List.append_assoc]
  have size : (interior nodesize fields level children).length = nodesize :=
    length_interior fits
  rw [(keyPtrs_of_layout (by rwa [size]) inner place layout).1, List.map_map]
  exact List.map_id children

/-! ## Nodes written over a block -/

/-- A level-0 node written into a block: the item count, the level, the item
headers and the item data. Everything else stays as it was. -/
def leafOver (background : Bytes) (items : List (DiskKey × Bytes)) : Bytes :=
  let headers := itemHeaders (background.length - btrfsHeaderSize) items
  let data := itemData items
  let gap := (background.drop (btrfsHeaderSize + headers.length)).take
    (background.length - (btrfsHeaderSize + headers.length) - data.length)
  background.take Hdr.nritems ++
    (encodeLE 4 items.length ++ ([0] ++ (headers ++ (gap ++ data))))

/-- An interior node written into a block. -/
def interiorOver (background : Bytes) (level : UInt8) (ptrs : List KeyPtr) : Bytes :=
  let pointers := ptrs.flatMap keyPtr
  background.take Hdr.nritems ++
    (encodeLE 4 ptrs.length ++ ([level] ++
      (pointers ++ background.drop (btrfsHeaderSize + pointers.length))))

theorem length_leafOver (fits : btrfsHeaderSize + itemsSize items ≤ background.length) :
    (leafOver background items).length = background.length := by
  rw [itemsSize_eq] at fits
  simp only [leafOver, List.length_append, List.length_take, List.length_drop,
    length_encodeLE, List.length_singleton, length_itemHeaders]
  simp only [btrfsHeaderSize, btrfsItemSize, Hdr.nritems] at *
  omega

theorem length_interiorOver
    (fits : btrfsHeaderSize + btrfsKeyPtrSize * ptrs.length ≤ background.length) :
    (interiorOver background level ptrs).length = background.length := by
  simp only [interiorOver, List.length_append, List.length_take, List.length_drop,
    length_encodeLE, List.length_singleton, length_keyPtrs]
  simp only [btrfsHeaderSize, btrfsKeyPtrSize, Hdr.nritems] at *
  omega

theorem withChecksum_append (sum : UInt32) {lead rest : Bytes} (long : 4 ≤ lead.length) :
    withChecksum sum (lead ++ rest) = (leBytes32 sum ++ lead.drop 4) ++ rest := by
  rw [withChecksum, List.drop_append_of_le_length long, List.append_assoc]

end Writer

/-! ## The round trip -/

section RoundTrip

variable {crates : Crates} {background block lead rest : Bytes}
  {items : List (DiskKey × Bytes)} {ptrs : List KeyPtr} {level : UInt8}

theorem parse_leafOver (small : background.length < 2 ^ 32)
    (fits : btrfsHeaderSize + Writer.itemsSize items ≤ background.length)
    (layout : Writer.leafOver background items = background.take Hdr.nritems ++ rest)
    (place : lead.length = Hdr.nritems) :
    ∃ node, Node.parse crates (lead ++ rest) = .ok node ∧
      node = Node.ofBlock crates (lead ++ rest) ∧ node.leafItems = items ∧
      node.keyPtrs = [] := by
  have long : btrfsHeaderSize ≤ background.length := by omega
  have room : (background.take Hdr.nritems).length = Hdr.nritems := by
    rw [List.length_take]
    exact Nat.min_eq_left (Nat.le_trans (by decide) long)
  have size : (lead ++ rest).length = background.length := by
    rw [← Writer.length_leafOver fits, layout, List.length_append, List.length_append,
      place, room]
  have body := List.append_cancel_left layout.symm
  refine ⟨_, Node.parse_eq_ok_iff.mpr ⟨by rwa [size], rfl⟩, rfl, ?_⟩
  apply leafItems_of_layout (by rwa [size]) place
  rw [size, body]

theorem parse_interiorOver (small : background.length < 2 ^ 32) (inner : level ≠ 0)
    (fits : btrfsHeaderSize + btrfsKeyPtrSize * ptrs.length ≤ background.length)
    (layout : Writer.interiorOver background level ptrs =
      background.take Hdr.nritems ++ rest)
    (place : lead.length = Hdr.nritems) :
    ∃ node, Node.parse crates (lead ++ rest) = .ok node ∧
      node = Node.ofBlock crates (lead ++ rest) ∧ node.keyPtrs = ptrs ∧
      node.leafItems = [] := by
  have long : btrfsHeaderSize ≤ background.length := by omega
  have room : (background.take Hdr.nritems).length = Hdr.nritems := by
    rw [List.length_take]
    exact Nat.min_eq_left (Nat.le_trans (by decide) long)
  have size : (lead ++ rest).length = background.length := by
    rw [← Writer.length_interiorOver fits, layout, List.length_append, List.length_append,
      place, room]
  have body := List.append_cancel_left layout.symm
  refine ⟨_, Node.parse_eq_ok_iff.mpr ⟨by rwa [size], rfl⟩, rfl, ?_⟩
  apply keyPtrs_of_layout (by rwa [size]) inner place
  rw [body]

/-- What holds of a node under any bytes before its count holds of it as it was
written and as it was sealed; sealed, it verifies. -/
theorem parse_written {written : Bytes} {Reads : Node → Prop}
    (long : btrfsHeaderSize ≤ background.length)
    (layout : written = background.take Hdr.nritems ++ rest)
    (size : written.length = background.length)
    (reads : ∀ lead : Bytes, lead.length = Hdr.nritems →
      ∃ node, Node.parse crates (lead ++ rest) = .ok node ∧
        node = Node.ofBlock crates (lead ++ rest) ∧ Reads node) :
    (∃ node, Node.parse crates written = .ok node ∧ Reads node) ∧
      ∃ node, Node.parse crates (Writer.sealed crates written) = .ok node ∧
        Reads node ∧ node.crcValid = some true := by
  have place : (background.take Hdr.nritems).length = Hdr.nritems := by
    rw [List.length_take]
    exact Nat.min_eq_left (Nat.le_trans (by decide) long)
  constructor
  · rcases reads _ place with ⟨node, parsed, _, found⟩
    exact ⟨node, by rw [layout, parsed], found⟩
  · have verified : verifySuperblockCrc32c crates (Writer.sealed crates written)
        (Writer.sealed crates written).length = true := by
      apply Writer.verify_sealed
      rw [size]
      exact Nat.lt_of_lt_of_le (by decide) long
    have moved : Writer.sealed crates written =
        (leBytes32 (crates.crc32c (written.drop btrfsCsumSize)) ++
          (background.take Hdr.nritems).drop 4) ++ rest := by
      rw [Writer.sealed]
      conv_lhs => rw [layout]
      rw [Writer.withChecksum_append _ (by rw [place]; decide), layout]
    have sealedPlace : (leBytes32 (crates.crc32c (written.drop btrfsCsumSize)) ++
        (background.take Hdr.nritems).drop 4).length = Hdr.nritems := by
      rw [List.length_append, List.length_drop, place, leBytes32, length_encodeLE]
      rfl
    rcases reads _ sealedPlace with ⟨node, parsed, equal, found⟩
    rw [← moved] at parsed equal
    exact ⟨node, parsed, found, by rw [equal, Node.ofBlock_crcValid, verified]⟩

/-- What a written node is read back as, before and after it is sealed: items and
key-pointers in order, and a checksum that verifies. -/
theorem node_roundTrip (crates : Crates) (small : background.length < 2 ^ 32) :
    (∀ items : List (DiskKey × Bytes),
      btrfsHeaderSize + Writer.itemsSize items ≤ background.length →
      (∃ node, Node.parse crates (Writer.leafOver background items) = .ok node ∧
        node.leafItems = items ∧ node.keyPtrs = []) ∧
      ∃ node, Node.parse crates (Writer.sealed crates (Writer.leafOver background items)) =
          .ok node ∧
        (node.leafItems = items ∧ node.keyPtrs = []) ∧ node.crcValid = some true) ∧
    ∀ (level : UInt8) (ptrs : List KeyPtr), level ≠ 0 →
      btrfsHeaderSize + btrfsKeyPtrSize * ptrs.length ≤ background.length →
      (∃ node, Node.parse crates (Writer.interiorOver background level ptrs) = .ok node ∧
        node.keyPtrs = ptrs ∧ node.leafItems = []) ∧
      ∃ node, Node.parse crates
            (Writer.sealed crates (Writer.interiorOver background level ptrs)) =
          .ok node ∧
        (node.keyPtrs = ptrs ∧ node.leafItems = []) ∧ node.crcValid = some true := by
  constructor
  · intro items fits
    apply parse_written (by omega) rfl (Writer.length_leafOver fits)
    exact fun lead place => parse_leafOver small fits rfl place
  · intro level ptrs inner fits
    apply parse_written (by omega) rfl (Writer.length_interiorOver fits)
    exact fun lead place => parse_interiorOver small inner fits rfl place

/-- A leaf of two items and a node of two pointers, over a block of ones. -/
theorem node_roundTrip_in_ones :
    (∃ node, Node.parse Crates.withoutCodecs (Writer.sealed Crates.withoutCodecs
          (Writer.leafOver (List.replicate 256 1)
            [(⟨256, 1, 0⟩, [7, 8]), (⟨256, 12, 256⟩, [9])])) = .ok node ∧
      (node.leafItems = [(⟨256, 1, 0⟩, [7, 8]), (⟨256, 12, 256⟩, [9])] ∧
        node.keyPtrs = []) ∧ node.crcValid = some true) ∧
    ∃ node, Node.parse Crates.withoutCodecs (Writer.sealed Crates.withoutCodecs
          (Writer.interiorOver (List.replicate 256 1) 255
            [⟨⟨256, 1, 0⟩, 4096, 7⟩, ⟨⟨300, 1, 0⟩, 8192, 8⟩])) = .ok node ∧
      (node.keyPtrs = [⟨⟨256, 1, 0⟩, 4096, 7⟩, ⟨⟨300, 1, 0⟩, 8192, 8⟩] ∧
        node.leafItems = []) ∧ node.crcValid = some true := by
  have size : (List.replicate 256 (1 : UInt8)).length = 256 := List.length_replicate
  have small : (List.replicate 256 (1 : UInt8)).length < 2 ^ 32 := by
    rw [size]
    decide
  refine ⟨((node_roundTrip Crates.withoutCodecs small).1 _ ?_).2,
    ((node_roundTrip Crates.withoutCodecs small).2 255 _ (by decide) ?_).2⟩
  · rw [size]
    decide
  · rw [size]
    decide

end RoundTrip

end BtrfsForensic
