import BtrfsForensic.Core.ExtentSources
import BtrfsForensic.Core.OpenedDisk

namespace BtrfsForensic

/-! Items that are cut short. Their fields read as zero, and nothing looks at the
length of the data: whether a file or a root is read from them depends on the other
items alone. -/

/-! ## Complete items -/

/-- An extent item holds its header, and behind it the block of a regular or
preallocated extent. -/
def ExtentComplete (data : Bytes) : Prop :=
  extentHeaderLen ≤ data.length ∧
    (u8At data ExtOff.type = extentTypeReg ∨ u8At data ExtOff.type = extentTypePrealloc →
      ExtOff.numBytes + 8 ≤ data.length)

/-- The items that a file is read from: the first inode item holds the size, and
every extent item is complete. -/
structure FileItemsComplete (leaf : Node) (ino : UInt64) : Prop where
  inode : ∃ item, (leaf.leafItems.find? fun item =>
      item.1.objectid = ino ∧ item.1.keyType = inodeItemKey) = some item ∧
    inodeSizeOffset + 8 ≤ item.2.length
  extents : ∀ extent ∈ extentItems leaf ino, ExtentComplete extent.2

def rootItem (node : Node) : Option (DiskKey × Bytes) :=
  node.leafItems.find? fun item =>
    item.1.objectid = fsTreeObjectid ∧ item.1.keyType = rootItemKey

/-- A root item holds every field that is decoded; the last one is the level. -/
def RootItemComplete (data : Bytes) : Prop := RootOff.level + 1 ≤ data.length

/-! ## Which reads succeed -/

section Reads

variable {crates : Crates} {leaf : Node} {image : Bytes} {map : ChunkMap}
  {sectorsize : UInt32} {ino : UInt64} {sb : Superblock}

theorem joinedSources_isSome_iff {logicalBound : Nat}
    {extents : List (UInt64 × Bytes)} :
    (joinedSources crates image map sectorsize logicalBound extents).isSome ↔
      ∀ extent ∈ extents,
        (extentSources crates image map sectorsize logicalBound extent.2).isSome := by
  induction extents with
  | nil => simp [joinedSources]
  | cons extent extents induction =>
      cases extent with
      | mk offset data =>
          rw [joinedSources, List.forall_mem_cons, ← induction]
          cases extentSources crates image map sectorsize logicalBound data with
          | none => simp
          | some head =>
              cases joinedSources crates image map sectorsize logicalBound extents with
              | none => simp
              | some tail => simp

theorem mem_sortByOffset_iff {extents : List (UInt64 × Bytes)}
    {extent : UInt64 × Bytes} : extent ∈ sortByOffset extents ↔ extent ∈ extents :=
  (List.perm_insertionSort _ extents).mem_iff

theorem exists_read_iff (small : image.length < usizeMax) :
    (∃ content, readFileFromLeaf crates leaf image map sectorsize ino = .ok content) ↔
      (∃ size, inodeSize leaf ino = some size ∧
        size.toNat ≤ max image.length logicalAllocFloor) ∧
      ∀ extent ∈ extentItems leaf ino,
        (extentSources crates image map sectorsize (max image.length logicalAllocFloor)
          extent.2).isSome := by
  have readable : (fileSources crates leaf image map sectorsize ino).isSome ↔
      ∀ extent ∈ extentItems leaf ino,
        (extentSources crates image map sectorsize (max image.length logicalAllocFloor)
          extent.2).isSome := by
    rw [fileSources, joinedSources_isSome_iff]
    simp only [mem_sortByOffset_iff]
  rw [← readable]
  constructor
  · intro read
    rcases read with ⟨content, read⟩
    rcases (readFileFromLeaf_eq_ok_iff_sources small).mp read with
      ⟨size, sources, known, fits, sourced, _⟩
    exact ⟨⟨size, known, fits⟩, Option.isSome_iff_exists.mpr ⟨sources, sourced⟩⟩
  · intro parts
    rcases parts with ⟨⟨size, known, fits⟩, sourced⟩
    exact (exists_read_iff_isSome small known fits).mpr sourced

theorem fsTreeRoot_eq_ok_iff {root : FsTreeRoot} :
    fsTreeRoot crates image sb map = .ok root ↔
      ∃ node item, readNode crates image sb map sb.root = .ok node ∧
        rootItem node = some item ∧ root = FsTreeRoot.parse item.2 := by
  rw [fsTreeRoot, bind_eq_ok_iff]
  apply exists_congr
  intro node
  rw [rootItem]
  cases node.leafItems.find? fun item =>
      item.1.objectid = fsTreeObjectid ∧ item.1.keyType = rootItemKey with
  | none => simp
  | some item => simp [eq_comm]

/-- A file is read from complete items only exactly when its items are complete, or
something else refuses the read: there is no inode item, the size exceeds the bound,
or an extent item cannot be read. A root is decoded from a complete item only exactly
when the root item of the root-tree node, where there is one, is complete. -/
theorem truncated_refused_iff (small : image.length < usizeMax) :
    ((∀ content, readFileFromLeaf crates leaf image map sectorsize ino = .ok content →
        FileItemsComplete leaf ino) ↔
      FileItemsComplete leaf ino ∨ inodeSize leaf ino = none ∨
        (∃ size, inodeSize leaf ino = some size ∧
          max image.length logicalAllocFloor < size.toNat) ∨
        ∃ extent ∈ extentItems leaf ino,
          extentSources crates image map sectorsize
            (max image.length logicalAllocFloor) extent.2 = none) ∧
    ((∀ root, fsTreeRoot crates image sb map = .ok root →
        ∃ node item, readNode crates image sb map sb.root = .ok node ∧
          rootItem node = some item ∧ RootItemComplete item.2) ↔
      ∀ node item, readNode crates image sb map sb.root = .ok node →
        rootItem node = some item → RootItemComplete item.2) := by
  constructor
  · have someRead : (∀ content,
        readFileFromLeaf crates leaf image map sectorsize ino = .ok content →
          FileItemsComplete leaf ino) ↔
        ((∃ content,
          readFileFromLeaf crates leaf image map sectorsize ino = .ok content) →
            FileItemsComplete leaf ino) := exists_imp.symm
    rw [someRead, exists_read_iff small, imp_iff_not_or, or_comm]
    apply or_congr_right
    rw [not_and_or]
    simp only [not_exists, not_and, Nat.not_le, not_forall, Option.not_isSome_iff_eq_none]
    rw [← or_assoc]
    apply or_congr
    · cases inodeSize leaf ino with
      | none => simp
      | some size => simp
    · simp only [exists_prop]
  · constructor
    · intro refused node item read found
      rcases refused _ (fsTreeRoot_eq_ok_iff.mpr ⟨node, item, read, found, rfl⟩) with
        ⟨other, otherItem, again, otherFound, complete⟩
      cases read.symm.trans again
      cases found.symm.trans otherFound
      exact complete
    · intro complete root located
      rcases fsTreeRoot_eq_ok_iff.mp located with ⟨node, item, read, found, _⟩
      exact ⟨node, item, read, found, complete node item read found⟩

end Reads

/-! ## Items that point behind their block -/

/-- A leaf whose item headers place 160 bytes of data behind the block. -/
def strayLeaf (keys : List DiskKey) : Bytes :=
  overlay 1024 0 [(Hdr.nritems, encodeLE 4 keys.length),
    (btrfsHeaderSize, keys.flatMap fun key =>
      Writer.key key ++ (encodeLE 4 1024 ++ encodeLE 4 160))]

def strayFileLeaf : Bytes := strayLeaf [⟨257, inodeItemKey, 0⟩, ⟨257, extentDataKey, 0⟩]

def strayRootLeaf : Bytes := strayLeaf [⟨fsTreeObjectid, rootItemKey, 0⟩]

def strayFile : Node := Node.ofBlock Crates.withoutCodecs strayFileLeaf

theorem leafItems_strayFile :
    strayFile.leafItems = [(⟨257, inodeItemKey, 0⟩, []), (⟨257, extentDataKey, 0⟩, [])] := by
  decide +kernel

theorem rootItem_strayRootLeaf :
    rootItem (Node.ofBlock Crates.withoutCodecs strayRootLeaf) =
      some (⟨fsTreeObjectid, rootItemKey, 0⟩, []) := by
  decide +kernel

def strayBlocks : List Bytes := [Disk.chunkLeaf, strayFileLeaf, strayRootLeaf]

theorem sized_strayBlocks : ∀ block ∈ strayBlocks, block.length = (1024 : UInt32).toNat := by
  intro block member
  simp only [strayBlocks, List.mem_cons, List.not_mem_nil, or_false] at member
  rcases member with first | second | third
  · rw [first]
    exact Disk.length_chunkLeaf
  · rw [second]
    exact length_overlay _ _ _
  · rw [third]
    exact length_overlay _ _ _

theorem strayBlocks_fit :
    Disk.physical + (1024 : UInt32).toNat * strayBlocks.length ≤ 0x14000 :=
  show Disk.physical + 1024 * 3 ≤ 0x14000 by decide

def strayItems : Disk where
  length := 0x14000
  root := 0x100800
  nodesize := 1024
  blocks := strayBlocks
  magic := Disk.magic_writeSuperblock _ _
  describes := Disk.describes_writeSuperblock _ _
  sized := sized_strayBlocks
  fits := strayBlocks_fit
  short := Disk.small_short

theorem readNode_strayItems :
    readNode Crates.withoutCodecs strayItems.image strayItems.sb Disk.map strayItems.sb.root =
      .ok (Node.ofBlock Crates.withoutCodecs strayRootLeaf) := by
  have root : strayItems.sb.root = Disk.address strayItems.nodesize 2 :=
    strayItems.describes.1.trans (by decide)
  have found : strayItems.blocks[2]? = some strayRootLeaf := rfl
  rw [root]
  exact Disk.readNode_block found (by decide) (by decide)

theorem readFileFromLeaf_strayFile :
    readFileFromLeaf Crates.withoutCodecs strayFile [] ChunkMap.new 4096 257 = .ok [] := by
  have size : inodeSize strayFile 257 = some 0 := by
    rw [inodeSize, leafItems_strayFile]
    rfl
  have extents : extentItems strayFile 257 = [(0, [])] := by
    rw [extentItems, leafItems_strayFile]
    rfl
  have sources : fileSources Crates.withoutCodecs strayFile [] ChunkMap.new 4096 257 =
      some [] := by
    rw [fileSources, extents]
    rfl
  exact readFileFromLeaf_of_sources (by decide) size (Nat.zero_le _) sources

/-- Without any data a file is read as empty, and a root as address zero. -/
theorem truncated_items_read :
    (readFileFromLeaf Crates.withoutCodecs strayFile [] ChunkMap.new 4096 257 = .ok [] ∧
      ¬FileItemsComplete strayFile 257) ∧
    fsTreeRoot Crates.withoutCodecs strayItems.image strayItems.sb Disk.map =
        .ok ⟨0, 0, 0, 0⟩ ∧
      ¬∃ node item,
        readNode Crates.withoutCodecs strayItems.image strayItems.sb Disk.map
            strayItems.sb.root = .ok node ∧
          rootItem node = some item ∧ RootItemComplete item.2 := by
  refine ⟨⟨readFileFromLeaf_strayFile, ?_⟩, ?_, ?_⟩
  · intro complete
    rcases complete.inode with ⟨item, found, whole⟩
    have member := List.mem_of_find?_eq_some found
    rw [leafItems_strayFile] at member
    simp only [List.mem_cons, List.not_mem_nil, or_false] at member
    rcases member with rfl | rfl
    · exact absurd whole (by decide)
    · exact absurd whole (by decide)
  · exact fsTreeRoot_eq_ok_iff.mpr ⟨_, _, readNode_strayItems, rootItem_strayRootLeaf, rfl⟩
  · intro complete
    rcases complete with ⟨node, item, read, found, whole⟩
    rw [readNode_strayItems] at read
    cases read
    rw [rootItem_strayRootLeaf] at found
    cases found
    exact absurd whole (Nat.not_succ_le_zero _)

theorem truncated_refused_iff_in_strayItems :
    ((∀ content,
        readFileFromLeaf Crates.withoutCodecs strayFile strayItems.image Disk.map 4096 257 =
          .ok content → FileItemsComplete strayFile 257) ↔
      FileItemsComplete strayFile 257 ∨ inodeSize strayFile 257 = none ∨
        (∃ size, inodeSize strayFile 257 = some size ∧
          max strayItems.image.length logicalAllocFloor < size.toNat) ∨
        ∃ extent ∈ extentItems strayFile 257,
          extentSources Crates.withoutCodecs strayItems.image Disk.map 4096
            (max strayItems.image.length logicalAllocFloor) extent.2 = none) ∧
    ((∀ root,
        fsTreeRoot Crates.withoutCodecs strayItems.image strayItems.sb Disk.map = .ok root →
        ∃ node item,
          readNode Crates.withoutCodecs strayItems.image strayItems.sb Disk.map
              strayItems.sb.root = .ok node ∧
            rootItem node = some item ∧ RootItemComplete item.2) ↔
      ∀ node item,
        readNode Crates.withoutCodecs strayItems.image strayItems.sb Disk.map
            strayItems.sb.root = .ok node →
          rootItem node = some item → RootItemComplete item.2) :=
  truncated_refused_iff (by rw [strayItems.length_image]; exact strayItems.short)

end BtrfsForensic
