import BtrfsForensic.Core.Extent
import BtrfsForensic.Core.Writer

namespace BtrfsForensic

/-! Which bytes of the image a file depends on: of an uncompressed extent the
window it references, of a compressed one everything from its translated start
to the end of the image. -/

/-- The range of the image that one extent item is read from. -/
def extentWindow (map : ChunkMap) (imageLen : Nat) (data : Bytes) :
    Option (Nat × Nat) :=
  let etype := u8At data ExtOff.type
  let diskBytenr := leU64 data ExtOff.diskBytenr
  if (etype = extentTypeReg ∨ etype = extentTypePrealloc) ∧ diskBytenr ≠ 0 then
    (map.logicalToPhysical diskBytenr).map fun target =>
      let phys := target.2.toNat
      if Compression.fromByte (u8At data ExtOff.compression) = .none then
        let start := saturatingAdd phys (leU64 data ExtOff.offset).toNat
        (start, saturatingAdd start (leU64 data ExtOff.numBytes).toNat)
      else
        (phys, imageLen)
  else
    none

theorem extentWindow_of_inline {map : ChunkMap} {imageLen : Nat} {data : Bytes}
    (inline : u8At data ExtOff.type = extentTypeInline) :
    extentWindow map imageLen data = none := by
  apply if_neg
  rw [inline]
  intro both
  exact absurd both.1 (by decide)

/-- Two images agree on everything the extents of an inode are read from. -/
def AgreeOnExtents (image other : Bytes) (map : ChunkMap)
    (extents : List (UInt64 × Bytes)) : Prop :=
  ∀ extent ∈ extents, ∀ window,
    extentWindow map image.length extent.2 = some window →
    AgreeOn image other window.1 window.2

section Locality

variable {crates : Crates} {image other : Bytes} {map : ChunkMap}
  {sectorsize : UInt32}

theorem extentContent_congr (sameLength : image.length = other.length)
    {logicalBound : Nat} {data : Bytes}
    (agree : ∀ window, extentWindow map image.length data = some window →
      AgreeOn image other window.1 window.2) :
    extentContent crates image map sectorsize logicalBound data =
      extentContent crates other map sectorsize logicalBound data := by
  rw [extentContent, extentContent]
  dsimp only
  split
  case isTrue => rfl
  case isFalse =>
    split
    case isFalse => rfl
    case isTrue regular =>
      split
      case isTrue => rfl
      case isFalse present =>
        rw [extentWindow, if_pos ⟨regular, present⟩] at agree
        rw [readRegularExtent, readRegularExtent, sameLength]
        cases target : map.logicalToPhysical (leU64 data ExtOff.diskBytenr) with
        | none => rfl
        | some physical =>
            cases physical with
            | mk devid phys =>
                rw [target] at agree
                simp only [Option.map_some, Option.some.injEq, forall_eq'] at agree
                dsimp only
                split
                case isTrue plain =>
                  rw [if_pos plain] at agree
                  rw [getRange_congr sameLength agree]
                case isFalse compressed =>
                  rw [if_neg compressed] at agree
                  rw [← sameLength, getRange_congr sameLength agree]

theorem appendExtents_congr (sameLength : image.length = other.length)
    {logicalBound : Nat} {extents : List (UInt64 × Bytes)}
    (agree : AgreeOnExtents image other map extents) (out : Bytes) :
    appendExtents crates image map sectorsize logicalBound extents out =
      appendExtents crates other map sectorsize logicalBound extents out := by
  induction extents generalizing out with
  | nil => rfl
  | cons extent extents induction =>
      cases extent with
      | mk offset data =>
          have head := agree (offset, data) List.mem_cons_self
          have tail : AgreeOnExtents image other map extents := fun next member =>
            agree next (List.mem_cons_of_mem _ member)
          rw [appendExtents, appendExtents, extentContent_congr sameLength head]
          cases extentContent crates other map sectorsize logicalBound data with
          | error error => rfl
          | ok bytes => exact induction tail (out ++ bytes)

theorem AgreeOnExtents.sorted {extents : List (UInt64 × Bytes)}
    (agree : AgreeOnExtents image other map extents) :
    AgreeOnExtents image other map (sortByOffset extents) := fun extent member =>
  agree extent ((List.perm_insertionSort _ _).mem_iff.mp member)

/-- Equally long images that agree on every extent window of an inode yield the
same content or the same error. -/
theorem readFileFromLeaf_congr (leaf : Node) (ino : UInt64)
    (sameLength : image.length = other.length)
    (agree : AgreeOnExtents image other map (extentItems leaf ino)) :
    readFileFromLeaf crates leaf image map sectorsize ino =
      readFileFromLeaf crates leaf other map sectorsize ino := by
  rw [readFileFromLeaf, readFileFromLeaf]
  cases inodeSize leaf ino with
  | none => rfl
  | some size => simp only [sameLength, appendExtents_congr sameLength agree.sorted]

end Locality

/-! A file whose window is longer than the disk extent it lies in. -/

/-- `btrfs_file_extent_item.disk_num_bytes`, a field that the reader does not
look at. -/
abbrev diskNumBytes : Nat := 29

/-- Two images agree on the whole disk extents of an inode. -/
def AgreeOnDiskExtents (image other : Bytes) (map : ChunkMap)
    (extents : List (UInt64 × Bytes)) : Prop :=
  ∀ extent ∈ extents,
    u8At extent.2 ExtOff.type = extentTypeReg ∨
        u8At extent.2 ExtOff.type = extentTypePrealloc →
    leU64 extent.2 ExtOff.diskBytenr ≠ 0 →
    ∀ devid phys,
      map.logicalToPhysical (leU64 extent.2 ExtOff.diskBytenr) =
        some (devid, phys) →
      AgreeOn image other phys.toNat
        (phys.toNat + (leU64 extent.2 diskNumBytes).toNat)

/-- A disk extent of four bytes at `4096`, of which the file takes eight. -/
def overlongLeaf : Node :=
  Node.ofBlock Crates.withoutCodecs <| Writer.leaf 512
    ⟨List.Vector.replicate 16 0, 0, 0, fsTreeObjectid⟩
    [(⟨257, inodeItemKey, 0⟩, overlay 160 0 [(inodeSizeOffset, encodeLE 8 8)]),
      (⟨257, extentDataKey, 0⟩, overlay 53 0
        [(ExtOff.type, [extentTypeReg]), (ExtOff.diskBytenr, encodeLE 8 4096),
          (diskNumBytes, encodeLE 8 4), (ExtOff.numBytes, encodeLE 8 8)])]

def overlongMap : ChunkMap := ⟨[⟨4096, 4096, [(1, 0)]⟩]⟩

/-- Zeros, but for a byte behind the disk extent. -/
def neighbour : Bytes := overlay 16 0 [(6, [7])]

def blank : Bytes := overlay 16 0 []

theorem agreeOnDiskExtents_neighbour :
    AgreeOnDiskExtents blank neighbour overlongMap (extentItems overlongLeaf 257) := by
  have items : (extentItems overlongLeaf 257).map (fun extent =>
      (leU64 extent.2 ExtOff.diskBytenr, leU64 extent.2 diskNumBytes)) =
        [(4096, 4)] := by
    decide +kernel
  intro extent member _ _ devid phys target index _ upper
  have fields := List.mem_map_of_mem (f := fun extent : UInt64 × Bytes =>
    (leU64 extent.2 ExtOff.diskBytenr, leU64 extent.2 diskNumBytes)) member
  rw [items, List.mem_singleton, Prod.mk.injEq] at fields
  have start : overlongMap.logicalToPhysical 4096 = some (1, 0) := by decide
  rw [fields.1, start] at target
  cases target
  rw [fields.2] at upper
  replace upper : index < 4 := by simpa using upper
  rw [blank, neighbour, getElem?_overlay (by omega), getElem?_overlay (by omega),
    overlayAt_cons_of_outside (by omega)]

/-- The file's last bytes are the neighbour's. -/
theorem content_leaves_the_disk_extent :
    blank.length = neighbour.length ∧
      AgreeOnDiskExtents blank neighbour overlongMap
        (extentItems overlongLeaf 257) ∧
      readFileFromLeaf Crates.withoutCodecs overlongLeaf blank overlongMap 4096 257 ≠
        readFileFromLeaf Crates.withoutCodecs overlongLeaf neighbour overlongMap 4096
          257 :=
  ⟨by decide, agreeOnDiskExtents_neighbour, by decide +kernel⟩

/-- A byte outside the window, here the last one, does not matter. -/
theorem readFileFromLeaf_congr_in_overlongLeaf :
    readFileFromLeaf Crates.withoutCodecs overlongLeaf blank overlongMap 4096 257 =
      readFileFromLeaf Crates.withoutCodecs overlongLeaf
        (overlay 16 0 [(15, [7])]) overlongMap 4096 257 := by
  refine readFileFromLeaf_congr overlongLeaf 257 (by decide) ?_
  have windows : (extentItems overlongLeaf 257).map (fun extent =>
      extentWindow overlongMap blank.length extent.2) = [some (0, 8)] := by
    decide +kernel
  intro extent member window found index _ upper
  have known := List.mem_map_of_mem (f := fun extent : UInt64 × Bytes =>
    extentWindow overlongMap blank.length extent.2) member
  rw [windows, List.mem_singleton] at known
  rw [known, Option.some.injEq] at found
  rw [← found] at upper
  replace upper : index < 8 := upper
  rw [blank, getElem?_overlay (by omega), getElem?_overlay (by omega),
    overlayAt_cons_of_outside (by omega)]

end BtrfsForensic
