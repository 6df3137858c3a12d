import BtrfsForensic.Core.SuperblockPrefix
import BtrfsForensic.Forensic.NodeTampering
import BtrfsForensic.Forensic.Provenance
import Mathlib.Data.List.FinRange

namespace BtrfsForensic

/-! An image and a copy of it with the backup slots in another order: as long as
nothing else that the recovery reads lies in the slots' bytes, both lead to the same
trees. -/

/-! ## The slots of an image -/

def slotsStart : Nat := btrfsSuperInfoOffset.toNat + backupRootsOffset
def slotsEnd : Nat := slotsStart + numBackupRoots * rootBackupSize

def slotEntry (image : Bytes) (slot : Nat) : Option Bytes :=
  getRange image (slotsStart + slot * rootBackupSize)
    (slotsStart + slot * rootBackupSize + rootBackupSize)

/-- Two images differ in the order of their backup slots only. -/
structure PermutesSlots (image other : Bytes) (order : Equiv.Perm (Fin numBackupRoots)) :
    Prop where
  sameLength : image.length = other.length
  before : AgreeOn image other 0 slotsStart
  after : AgreeOn image other slotsEnd image.length
  slots : ∀ slot : Fin numBackupRoots,
    slotEntry other slot = slotEntry image (order slot)

section Slots

variable {image other sbBlock : Bytes} {order : Equiv.Perm (Fin numBackupRoots)}

theorem getRange_slot (block : superblockBlock image = some sbBlock) (slot : Nat)
    (small : slot < numBackupRoots) :
    getRange sbBlock (backupRootsOffset + slot * rootBackupSize)
        (saturatingAdd (backupRootsOffset + slot * rootBackupSize) rootBackupSize) =
      some ((slotEntry image slot).getD []) := by
  have size : sbBlock.length = 4096 := length_of_getRange block
  have offset : backupRootsOffset = 2859 := rfl
  have width : rootBackupSize = 168 := rfl
  have place : slot * rootBackupSize = slot * 168 := rfl
  have limit : usizeMax = 18446744073709551615 := rfl
  replace small : slot < 4 := small
  have inside : backupRootsOffset + slot * rootBackupSize + rootBackupSize ≤
      sbBlock.length := by
    omega
  rcases Option.isSome_iff_exists.mp (getRange_isSome_iff.mpr
    ⟨Nat.le_add_right (backupRootsOffset + slot * rootBackupSize) rootBackupSize,
      inside⟩) with ⟨entry, found⟩
  have stored : slotEntry image slot = some entry := by
    rw [slotEntry, Nat.add_assoc slotsStart, slotsStart, Nat.add_assoc, Nat.add_assoc,
      ← Nat.add_assoc backupRootsOffset,
      getRange_of_getRange block (Nat.le_add_right _ _) inside]
    exact found
  rw [saturatingAdd_eq (by omega), found, stored, Option.getD_some]

theorem parseBackupRoots_eq_ofFn (block : superblockBlock image = some sbBlock) :
    parseBackupRoots sbBlock =
      List.ofFn fun slot : Fin numBackupRoots =>
        RootBackup.parse ((slotEntry image slot).getD []) := by
  rw [parseBackupRoots_eq_map (getRange_slot block)]
  rfl

theorem PermutesSlots.parseBackupRoots_perm {otherBlock : Bytes}
    (permutes : PermutesSlots image other order)
    (block : superblockBlock image = some sbBlock)
    (otherFound : superblockBlock other = some otherBlock) :
    (parseBackupRoots sbBlock).Perm (parseBackupRoots otherBlock) := by
  rw [parseBackupRoots_eq_ofFn block, parseBackupRoots_eq_ofFn otherFound]
  simp only [permutes.slots]
  exact (order.ofFn_comp_perm fun slot : Fin numBackupRoots =>
    RootBackup.parse ((slotEntry image slot).getD [])).symm

end Slots

/-! ## What the two superblocks share -/

/-- A range of the image that holds no byte of a slot. -/
def ClearOfSlots (start stop : Nat) : Prop := stop ≤ slotsStart ∨ slotsEnd ≤ start

namespace PermutesSlots

variable {crates : Crates} {image other sbBlock otherBlock : Bytes} {sb : Superblock}
  {order : Equiv.Perm (Fin numBackupRoots)} {start stop : Nat}

theorem agreeOn (permutes : PermutesSlots image other order)
    (clear : ClearOfSlots start stop) : AgreeOn image other start stop := by
  intro index lower upper
  by_cases inside : index < image.length
  · rcases clear with earlier | later
    · exact permutes.before index (Nat.zero_le _) (by omega)
    · exact permutes.after index (by omega) inside
  · rw [List.getElem?_eq_none (by omega),
      List.getElem?_eq_none (by rw [← permutes.sameLength]; omega)]

theorem getRange_eq (permutes : PermutesSlots image other order)
    (clear : ClearOfSlots start stop) :
    getRange image start stop = getRange other start stop :=
  getRange_congr permutes.sameLength (permutes.agreeOn clear)

theorem exists_superblockBlock (permutes : PermutesSlots image other order)
    (block : superblockBlock image = some sbBlock) :
    ∃ otherBlock, superblockBlock other = some otherBlock := by
  have whole := stop_le_of_getRange block
  rw [permutes.sameLength] at whole
  exact Option.isSome_iff_exists.mp (getRange_isSome_iff.mpr ⟨by decide, whole⟩)

theorem take_superblock (permutes : PermutesSlots image other order)
    (block : superblockBlock image = some sbBlock)
    (otherFound : superblockBlock other = some otherBlock) :
    sbBlock.take backupRootsOffset = otherBlock.take backupRootsOffset := by
  have prefixOf {image block : Bytes} (found : superblockBlock image = some block) :
      getRange image btrfsSuperInfoOffset.toNat slotsStart =
        some (block.take backupRootsOffset) := by
    have size : block.length = 4096 := length_of_getRange found
    have inside : backupRootsOffset ≤ block.length := by
      rw [size]
      decide
    have part := getRange_of_getRange found (Nat.zero_le _) inside
    rw [Nat.add_zero] at part
    rw [slotsStart, part, getRange_eq_some_iff]
    exact ⟨Nat.zero_le _, inside, rfl⟩
  have same : getRange image btrfsSuperInfoOffset.toNat slotsStart =
      getRange other btrfsSuperInfoOffset.toNat slotsStart :=
    permutes.getRange_eq (.inl (Nat.le_refl slotsStart))
  rw [prefixOf block, prefixOf otherFound, Option.some.injEq] at same
  exact same

/-- When the `sys_chunk_array` ends before the slots, only the checksum status can
differ. -/
theorem decode_superblock (permutes : PermutesSlots image other order)
    (block : superblockBlock image = some sbBlock)
    (otherFound : superblockBlock other = some otherBlock)
    (array : sysChunkArrayOffset + (leU32 sbBlock 0xa0).toNat ≤ backupRootsOffset) :
    Superblock.decode crates otherBlock =
      { Superblock.decode crates sbBlock with
        crcValid := (Superblock.decode crates otherBlock).crcValid } := by
  have size : sbBlock.length = 4096 := length_of_getRange block
  have otherSize : otherBlock.length = 4096 := length_of_getRange otherFound
  have offset : backupRootsOffset = 2859 := rfl
  have arrayOffset : sysChunkArrayOffset = 811 := rfl
  have limit : usizeMax = 18446744073709551615 := rfl
  have same := permutes.take_superblock block otherFound
  have sizeField : leU32 otherBlock 0xa0 = leU32 sbBlock 0xa0 := by
    have fromPrefix {block : Bytes} :
        leU32 (block.take backupRootsOffset) 0xa0 = leU32 block 0xa0 :=
      leU32_take (by omega)
    rw [← fromPrefix, ← same, fromPrefix]
  have chunks {block : Bytes} (whole : block.length = 4096) :
      SysChunk.parseArray block sysChunkArrayOffset (leU32 sbBlock 0xa0) =
        SysChunk.parseArray (block.take backupRootsOffset) sysChunkArrayOffset
          (leU32 sbBlock 0xa0) := by
    refine (SysChunk.parseArray_take_iff (by omega) (by omega)).mpr ?_
    intro last member
    have accepted := SysChunk.le_of_mem_entryEnds member
    rw [saturatingAdd_eq (by omega)] at accepted
    omega
  have sameChunks : (Superblock.decode crates otherBlock).sysChunks =
      (Superblock.decode crates sbBlock).sysChunks := by
    simp only [Superblock.decode, sizeField]
    rw [chunks otherSize, chunks size, same]
  let rest (decoded : Superblock) : Superblock :=
    { decoded with
      sysChunks := (Superblock.decode crates otherBlock).sysChunks
      crcValid := (Superblock.decode crates otherBlock).crcValid }
  have otherTake : rest (Superblock.decode crates (otherBlock.take backupRootsOffset)) =
      Superblock.decode crates otherBlock := by
    rw [Superblock.decode_take (by omega) (by omega)]
  have take : rest (Superblock.decode crates (sbBlock.take backupRootsOffset)) =
      rest (Superblock.decode crates sbBlock) := by
    rw [Superblock.decode_take (by omega) (by omega)]
  calc
    Superblock.decode crates otherBlock =
        rest (Superblock.decode crates (otherBlock.take backupRootsOffset)) :=
      otherTake.symm
    _ = rest (Superblock.decode crates (sbBlock.take backupRootsOffset)) := by
      rw [same]
    _ = rest (Superblock.decode crates sbBlock) := take
    _ = _ := by
      simp only [rest, sameChunks]

theorem symm (permutes : PermutesSlots image other order) :
    PermutesSlots other image order.symm where
  sameLength := permutes.sameLength.symm
  before index lower upper := (permutes.before index lower upper).symm
  after index lower upper :=
    (permutes.after index lower (by rw [permutes.sameLength]; exact upper)).symm
  slots slot := by
    rw [permutes.slots, Equiv.apply_symm_apply]

theorem parsesSuperblock (permutes : PermutesSlots image other order)
    (parses : ParsesSuperblock crates image sbBlock sb) :
    ∃ otherBlock, ParsesSuperblock crates other otherBlock
      (Superblock.decode crates otherBlock) := by
  rcases permutes.exists_superblockBlock parses.block with ⟨otherBlock, otherFound⟩
  have otherSize : otherBlock.length = 4096 := length_of_getRange otherFound
  have magic {block : Bytes} :
      u8Array (block.take backupRootsOffset) magicOffset 8 =
        u8Array block magicOffset 8 :=
    u8Array_take (by decide)
  refine ⟨otherBlock, otherFound, Superblock.parse_eq_ok ?_ (by rw [otherSize]; decide)⟩
  rw [← magic, ← permutes.take_superblock parses.block otherFound, magic]
  exact Superblock.magic_of_parse parses.parsed

end PermutesSlots

/-! ### Exchanging two slots -/

def swapFirstSlots (image : Bytes) : Bytes :=
  overlay image.length 0
    [(slotsStart, (slotEntry image 1).getD []),
      (slotsStart + rootBackupSize, (slotEntry image 0).getD []), (0, image)]

section Swap

variable {image other sbBlock otherBlock : Bytes}

theorem length_slotEntry {entry : Bytes} {slot : Nat}
    (found : slotEntry image slot = some entry) : entry.length = rootBackupSize := by
  rw [length_of_getRange found, Nat.add_sub_cancel_left]

theorem exists_slotEntry (long : slotsEnd ≤ image.length) (slot : Nat)
    (small : slot < numBackupRoots) : ∃ entry, slotEntry image slot = some entry := by
  refine Option.isSome_iff_exists.mp
    (getRange_isSome_iff.mpr ⟨Nat.le_add_right _ _, ?_⟩)
  have stop : slotsEnd = slotsStart + 4 * 168 := rfl
  replace small : slot < 4 := small
  change slotsStart + slot * 168 + 168 ≤ image.length
  omega

theorem getElem?_swapFirstSlots (long : slotsEnd ≤ image.length) {index : Nat}
    (outside : index < slotsStart ∨ slotsStart + 2 * rootBackupSize ≤ index) :
    (swapFirstSlots image)[index]? = image[index]? := by
  rcases exists_slotEntry long 0 (by decide) with ⟨first, found⟩
  rcases exists_slotEntry long 1 (by decide) with ⟨second, secondFound⟩
  have size : first.length = 168 := length_slotEntry found
  have secondSize : second.length = 168 := length_slotEntry secondFound
  have width : rootBackupSize = 168 := rfl
  by_cases inside : index < image.length
  · rw [swapFirstSlots, getElem?_overlay inside, found, secondFound, Option.getD_some,
      Option.getD_some, overlayAt_cons_of_outside (by omega),
      overlayAt_cons_of_outside (by omega), overlayAt, if_pos (Nat.zero_le _),
      Nat.sub_zero, List.getElem?_eq_getElem inside]
  · rw [swapFirstSlots, List.getElem?_eq_none (by rw [length_overlay]; omega),
      List.getElem?_eq_none (by omega)]

theorem slotEntry_swapFirstSlots (long : slotsEnd ≤ image.length) :
    slotEntry (swapFirstSlots image) 0 = slotEntry image 1 ∧
      slotEntry (swapFirstSlots image) 1 = slotEntry image 0 := by
  rcases exists_slotEntry long 0 (by decide) with ⟨first, found⟩
  rcases exists_slotEntry long 1 (by decide) with ⟨second, secondFound⟩
  have size : first.length = 168 := length_slotEntry found
  have secondSize : second.length = 168 := length_slotEntry secondFound
  have width : rootBackupSize = 168 := rfl
  have stop : slotsEnd = slotsStart + 4 * 168 := rfl
  rw [swapFirstSlots, found, secondFound, Option.getD_some, Option.getD_some,
    slotEntry, slotEntry, Nat.zero_mul, Nat.one_mul, Nat.add_zero]
  constructor
  · rw [width, ← secondSize]
    exact getRange_overlay_patch [] _
      (fun _ member => absurd member List.not_mem_nil) (by omega)
  · have stored : getRange (overlay image.length 0 ([(slotsStart, second)] ++
        (slotsStart + rootBackupSize, first) :: [(0, image)]))
        (slotsStart + rootBackupSize)
        (slotsStart + rootBackupSize + first.length) = some first := by
      refine getRange_overlay_patch _ _ ?_ (by omega)
      intro patch member
      rw [List.mem_singleton.mp member]
      right
      change slotsStart + second.length ≤ slotsStart + rootBackupSize
      omega
    rw [size] at stored
    exact stored

theorem permutesSlots_swapFirstSlots (long : slotsEnd ≤ image.length) :
    PermutesSlots image (swapFirstSlots image) (Equiv.swap 0 1) where
  sameLength := (length_overlay _ _ _).symm
  before index _ upper := (getElem?_swapFirstSlots long (.inl upper)).symm
  after index lower _ := by
    refine (getElem?_swapFirstSlots long (.inr (Nat.le_trans ?_ lower))).symm
    exact Nat.add_le_add_left (by decide) slotsStart
  slots slot := by
    by_cases first : slot = 0
    · rw [first, Equiv.swap_apply_left]
      exact (slotEntry_swapFirstSlots long).1
    · by_cases second : slot = 1
      · rw [second, Equiv.swap_apply_right]
        exact (slotEntry_swapFirstSlots long).2
      · rw [Equiv.swap_apply_of_ne_of_ne first second]
        have later : 2 ≤ slot.val := by
          have notFirst : slot.val ≠ 0 := fun equal => first (Fin.ext equal)
          have notSecond : slot.val ≠ 1 := fun equal => second (Fin.ext equal)
          omega
        refine getRange_congr (length_overlay _ _ _) fun index lower _ => ?_
        refine getElem?_swapFirstSlots long (.inr (Nat.le_trans ?_ lower))
        exact Nat.add_le_add_left (Nat.mul_le_mul_right _ later) _

theorem PermutesSlots.parseBackupRoots_swap
    (permutes : PermutesSlots image other (Equiv.swap 0 1))
    (block : superblockBlock image = some sbBlock)
    (otherFound : superblockBlock other = some otherBlock) {first second : RootBackup}
    {rest : List RootBackup}
    (listed : parseBackupRoots sbBlock = first :: second :: rest) :
    parseBackupRoots otherBlock = second :: first :: rest := by
  have four (entry : Fin numBackupRoots → RootBackup) :
      List.ofFn entry = [entry 0, entry 1, entry 2, entry 3] := rfl
  rw [parseBackupRoots_eq_ofFn block, four, List.cons.injEq, List.cons.injEq] at listed
  rcases listed with ⟨rfl, rfl, rfl⟩
  rw [parseBackupRoots_eq_ofFn otherFound, four]
  simp only [permutes.slots]
  rfl

end Swap

/-! ## What the recovery reads besides the slots -/

/-- The node at an address holds no byte of a slot. -/
def NodeClear (crates : Crates) (image : Bytes) (sb : Superblock) (address : UInt64) :
    Prop :=
  ∀ devid phys,
    nodePhysical sb (auditMap crates image sb) address = some (devid, phys) →
    ClearOfSlots phys.toNat (saturatingAdd phys.toNat sb.nodesize.toNat)

theorem nodeClear_of_target {crates : Crates} {image : Bytes} {sb : Superblock}
    {map : ChunkMap} {address : UInt64} (phys : UInt64)
    (walked : auditMap crates image sb = map)
    (target : map.logicalToPhysical address = some (1, phys))
    (behind : slotsEnd ≤ phys.toNat) : NodeClear crates image sb address := by
  intro devid start found
  rw [walked, nodePhysical, target, Option.some_or] at found
  cases found
  exact .inr behind

/-- No metadata that the recovery reads, the slots apart, lies in their bytes. -/
structure TreesClear (crates : Crates) (image sbBlock : Bytes) (sb : Superblock) :
    Prop where
  array : sysChunkArrayOffset + sb.sysChunkArraySize.toNat ≤ backupRootsOffset
  chunkTree : ∀ start ∈ ChunkMap.walkReads crates image (ChunkMap.boot sb)
      sb.nodesize.toNat 4096 [sb.chunkRoot] ChunkMap.new false,
    ClearOfSlots start (saturatingAdd start sb.nodesize.toNat)
  rootTree : NodeClear crates image sb sb.root
  liveTree : ∀ currentRoot,
    fsTreeRoot crates image sb (auditMap crates image sb) = .ok currentRoot →
    NodeClear crates image sb currentRoot.bytenr
  oldTrees : ∀ slot ∈ parseBackupRoots sbBlock, slot.fsRoot ≠ 0 →
    NodeClear crates image sb slot.fsRoot

section Trees

variable {crates : Crates} {image other sbBlock otherBlock : Bytes} {sb : Superblock}
  {order : Equiv.Perm (Fin numBackupRoots)} {status : Option Bool}
  {currentRoot : FsTreeRoot} {current : Node}

theorem PermutesSlots.parsesSuperblock_of_clear
    (permutes : PermutesSlots image other order)
    (parses : ParsesSuperblock crates image sbBlock sb)
    (clear : TreesClear crates image sbBlock sb) :
    ∃ otherBlock status,
      ParsesSuperblock crates other otherBlock { sb with crcValid := status } := by
  rcases permutes.parsesSuperblock parses with ⟨otherBlock, otherParses⟩
  have decoded := Superblock.eq_decode_of_parse parses.parsed
  have array := clear.array
  rw [decoded] at array
  rw [permutes.decode_superblock parses.block otherParses.block array, ← decoded]
    at otherParses
  exact ⟨otherBlock, _, otherParses⟩

theorem auditMap_eq_of_clear (permutes : PermutesSlots image other order)
    (clear : TreesClear crates image sbBlock sb) :
    auditMap crates other { sb with crcValid := status } = auditMap crates image sb := by
  have walked : ChunkMap.walk crates image sb =
      ChunkMap.walk crates other { sb with crcValid := status } :=
    ChunkMap.walkLoop_congr permutes.sameLength fun start member =>
      permutes.getRange_eq (clear.chunkTree start member)
  rw [auditMap, auditMap, walked]

theorem readNode_eq_of_clear (permutes : PermutesSlots image other order)
    {address : UInt64} (clear : NodeClear crates image sb address) :
    readNode crates other { sb with crcValid := status } (auditMap crates image sb)
        address =
      readNode crates image sb (auditMap crates image sb) address := by
  have sameTarget : nodePhysical { sb with crcValid := status }
      (auditMap crates image sb) address =
        nodePhysical sb (auditMap crates image sb) address := rfl
  rw [readNode, readNode, sameTarget]
  cases target : nodePhysical sb (auditMap crates image sb) address with
  | none => rfl
  | some physical =>
      cases physical with
      | mk devid phys =>
          simp only [permutes.getRange_eq (clear devid phys target),
            permutes.sameLength]

theorem fsTreeRoot_eq_of_clear (permutes : PermutesSlots image other order)
    (clear : TreesClear crates image sbBlock sb) :
    fsTreeRoot crates other { sb with crcValid := status } (auditMap crates image sb) =
      fsTreeRoot crates image sb (auditMap crates image sb) := by
  rw [fsTreeRoot, fsTreeRoot, readNode_eq_of_clear permutes clear.rootTree]

theorem recoverySetup_iff_of_clear (permutes : PermutesSlots image other order)
    (parses : ParsesSuperblock crates image sbBlock sb)
    (otherParses :
      ParsesSuperblock crates other otherBlock { sb with crcValid := status })
    (clear : TreesClear crates image sbBlock sb) :
    RecoverySetup crates other otherBlock { sb with crcValid := status } currentRoot
        current ↔
      RecoverySetup crates image sbBlock sb currentRoot current := by
  constructor
  · intro setup
    have located := setup.located
    have read := setup.read
    rw [auditMap_eq_of_clear permutes clear] at located read
    rw [fsTreeRoot_eq_of_clear permutes clear] at located
    rw [readNode_eq_of_clear permutes (clear.liveTree currentRoot located)] at read
    exact ⟨parses, located, read⟩
  · intro setup
    refine ⟨otherParses, ?_, ?_⟩
    · rw [auditMap_eq_of_clear permutes clear, fsTreeRoot_eq_of_clear permutes clear]
      exact setup.located
    · rw [auditMap_eq_of_clear permutes clear,
        readNode_eq_of_clear permutes (clear.liveTree currentRoot setup.located)]
      exact setup.read

theorem slotNode_eq_of_clear (permutes : PermutesSlots image other order)
    (clear : TreesClear crates image sbBlock sb) {slot : RootBackup}
    (listed : slot ∈ parseBackupRoots sbBlock) {root : UInt64} :
    slotNode crates other { sb with crcValid := status } (auditMap crates image sb)
        root slot =
      slotNode crates image sb (auditMap crates image sb) root slot := by
  by_cases blank : slot.fsRoot = 0
  · rw [slotNode, slotNode, if_pos (.inl blank), if_pos (.inl blank)]
  · rw [slotNode, slotNode,
      readNode_eq_of_clear permutes (clear.oldTrees slot listed blank)]

end Trees

end BtrfsForensic
