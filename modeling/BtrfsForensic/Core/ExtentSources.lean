import BtrfsForensic.Core.ExtentWindow
import BtrfsForensic.Core.FileAssembly

namespace BtrfsForensic

/-! Where each byte of a file comes from: a hole or the padding, an offset in the
image, or a decoded stream. A read succeeds exactly when every extent item has
sources, and yields their bytes. -/

inductive ByteSource
  | zero
  | disk (offset : Nat)
  | decoded (byte : UInt8)
  deriving DecidableEq

def ByteSource.byte (image : Bytes) : ByteSource → UInt8
  | .zero => 0
  | .disk offset => u8At image offset
  | .decoded byte => byte

/-- The sources of a regular or preallocated extent that is not a hole. -/
def regularSources (crates : Crates) (image : Bytes) (map : ChunkMap)
    (sectorsize : UInt32) (compression : Compression)
    (diskBytenr extOffset numBytes ramBytes : UInt64) : Option (List ByteSource) :=
  if numBytes.toNat ≤ image.length then
    if compression = .none then
      (map.logicalToPhysical diskBytenr).bind fun target =>
        let start := target.2.toNat + extOffset.toNat
        if start + numBytes.toNat ≤ image.length then
          some (tabulate numBytes.toNat fun index => .disk (start + index))
        else
          none
    else
      (decodedStream crates image map sectorsize compression diskBytenr ramBytes).map
        fun whole => ((whole.drop extOffset.toNat).take numBytes.toNat).map .decoded
  else
    none

/-- The sources of an `EXTENT_DATA` item, or `none` when it cannot be read. -/
def extentSources (crates : Crates) (image : Bytes) (map : ChunkMap)
    (sectorsize : UInt32) (logicalBound : Nat) (data : Bytes) :
    Option (List ByteSource) :=
  let etype := u8At data ExtOff.type
  let ramBytes := leU64 data ExtOff.ramBytes
  let compression := Compression.fromByte (u8At data ExtOff.compression)
  if etype = extentTypeInline then
    let payload := (getRange data extentHeaderLen data.length).getD []
    (decompressExtent crates compression payload ramBytes sectorsize).toOption.map
      fun bytes => bytes.map .decoded
  else if etype = extentTypeReg ∨ etype = extentTypePrealloc then
    let diskBytenr := leU64 data ExtOff.diskBytenr
    let extOffset := leU64 data ExtOff.offset
    let numBytes := leU64 data ExtOff.numBytes
    if diskBytenr = 0 then
      if numBytes.toNat ≤ logicalBound then
        some (List.replicate numBytes.toNat .zero)
      else
        none
    else
      regularSources crates image map sectorsize compression diskBytenr extOffset
        numBytes ramBytes
  else
    none

def joinedSources (crates : Crates) (image : Bytes) (map : ChunkMap)
    (sectorsize : UInt32) (logicalBound : Nat) :
    List (UInt64 × Bytes) → Option (List ByteSource)
  | [] => some []
  | (_, data) :: rest => do
      let head ← extentSources crates image map sectorsize logicalBound data
      let tail ← joinedSources crates image map sectorsize logicalBound rest
      some (head ++ tail)

def fileSources (crates : Crates) (leaf : Node) (image : Bytes) (map : ChunkMap)
    (sectorsize : UInt32) (ino : UInt64) : Option (List ByteSource) :=
  joinedSources crates image map sectorsize (max image.length logicalAllocFloor)
    (sortByOffset (extentItems leaf ino))

/-- The source of the file's byte at a position, the padding being zero. -/
def sourceAt (sources : List ByteSource) (position : Nat) : ByteSource :=
  (sources[position]?).getD .zero

/-- The bytes of a file of the given size. -/
def shownBytes (image : Bytes) (size : Nat) (sources : List ByteSource) : Bytes :=
  tabulate size fun position => (sourceAt sources position).byte image

section Sources

variable {crates : Crates} {image : Bytes} {map : ChunkMap} {sectorsize : UInt32}

theorem getRange_eq_bytes {start count : Nat} (inside : start + count ≤ image.length) :
    getRange image start (start + count) =
      some ((tabulate count fun index => ByteSource.disk (start + index)).map
        (ByteSource.byte image)) := by
  rw [getRange_eq_some_iff]
  refine ⟨Nat.le_add_right _ _, inside, ?_⟩
  apply List.ext_getElem?
  intro index
  rw [Nat.add_sub_cancel_left, List.getElem?_map, getElem?_tabulate]
  split
  case isTrue below =>
    rw [List.getElem?_take_of_lt below, List.getElem?_drop, Option.map_some,
      ByteSource.byte, u8At, List.getElem?_eq_getElem (by omega), Option.getD_some]
  case isFalse above => rw [List.getElem?_take_eq_none (by omega), Option.map_none]

theorem map_byte_decoded (bytes : Bytes) :
    (bytes.map ByteSource.decoded).map (ByteSource.byte image) = bytes := by
  rw [List.map_map]
  exact List.map_id bytes

theorem readRegularExtent_eq_ok_iff (small : image.length < usizeMax)
    {compression : Compression} {diskBytenr extOffset numBytes ramBytes : UInt64}
    {content : Bytes} :
    readRegularExtent crates image map sectorsize compression diskBytenr extOffset
        numBytes ramBytes = .ok content ↔
      ∃ sources, regularSources crates image map sectorsize compression diskBytenr
          extOffset numBytes ramBytes = some sources ∧
        content = sources.map (ByteSource.byte image) := by
  rw [regularSources]
  by_cases fits : numBytes.toNat ≤ image.length
  · rw [if_pos fits]
    by_cases plain : compression = .none
    · rw [readRegularExtent_plain_iff small plain, if_pos plain]
      cases map.logicalToPhysical diskBytenr with
      | none => simp
      | some target =>
          cases target with
          | mk devid phys =>
              rw [Option.bind_some]
              dsimp only
              split
              case isTrue inside =>
                simp [fits, getRange_eq_bytes inside, eq_comm]
              case isFalse outside =>
                simp only [reduceCtorEq, false_and, exists_false, iff_false]
                intro parts
                rcases parts with ⟨_, _, _, same, found⟩
                cases same
                exact outside (stop_le_of_getRange found)
    · rw [readRegularExtent_compressed_iff plain, if_neg plain]
      simp only [fits, true_and, Option.map_eq_some_iff]
      constructor
      · intro read
        rcases read with ⟨whole, decoded, rfl⟩
        exact ⟨_, ⟨whole, decoded, rfl⟩, (map_byte_decoded _).symm⟩
      · intro found
        rcases found with ⟨_, ⟨whole, decoded, rfl⟩, rfl⟩
        exact ⟨whole, decoded, map_byte_decoded _⟩
  · rw [if_neg fits, readRegularExtent, guardAlloc_bind_eq_ok_iff]
    simp [fits]

theorem extentContent_eq_ok_iff (small : image.length < usizeMax) {logicalBound : Nat}
    {data bytes : Bytes} :
    extentContent crates image map sectorsize logicalBound data = .ok bytes ↔
      ∃ sources, extentSources crates image map sectorsize logicalBound data =
          some sources ∧ bytes = sources.map (ByteSource.byte image) := by
  rw [extentContent, extentSources]
  dsimp only
  split
  case isTrue inline =>
    simp only [Option.map_eq_some_iff, toOption_eq_some_iff]
    constructor
    · intro decoded
      exact ⟨_, ⟨bytes, decoded, rfl⟩, (map_byte_decoded bytes).symm⟩
    · intro found
      rcases found with ⟨_, ⟨payload, decoded, rfl⟩, rfl⟩
      rw [map_byte_decoded, decoded]
  case isFalse =>
    split
    case isFalse => simp
    case isTrue regular =>
      split
      case isFalse => exact readRegularExtent_eq_ok_iff small
      case isTrue hole =>
        rw [guardAlloc_bind_eq_ok_iff]
        split
        case isFalse bomb => simp [bomb]
        case isTrue fits => simp [fits, ByteSource.byte, eq_comm]

theorem appendExtents_eq_ok_iff (small : image.length < usizeMax) {logicalBound : Nat}
    {extents : List (UInt64 × Bytes)} {out content : Bytes} :
    appendExtents crates image map sectorsize logicalBound extents out = .ok content ↔
      ∃ sources, joinedSources crates image map sectorsize logicalBound extents =
          some sources ∧ content = out ++ sources.map (ByteSource.byte image) := by
  induction extents generalizing out with
  | nil => simp [appendExtents, joinedSources, eq_comm]
  | cons extent extents induction =>
      cases extent with
      | mk offset data =>
          rw [appendExtents, bind_eq_ok_iff]
          simp only [extentContent_eq_ok_iff small, induction, joinedSources,
            Option.bind_eq_bind, Option.bind_eq_some_iff, Option.some.injEq]
          constructor
          · intro read
            rcases read with ⟨_, ⟨head, found, rfl⟩, tail, rest, rfl⟩
            refine ⟨head ++ tail, ⟨head, found, tail, rest, rfl⟩, ?_⟩
            rw [List.map_append, List.append_assoc]
          · intro sourced
            rcases sourced with ⟨_, ⟨head, found, tail, rest, rfl⟩, rfl⟩
            refine ⟨_, ⟨head, found, rfl⟩, tail, rest, ?_⟩
            rw [List.map_append, List.append_assoc]

theorem fitToSize_sources (size : Nat) (sources : List ByteSource) :
    fitToSize size (sources.map (ByteSource.byte image)) =
      shownBytes image size sources := by
  have padded := fitToSize_padded size (sources.map (ByteSource.byte image))
  apply List.ext_getElem?
  intro position
  rw [shownBytes, getElem?_tabulate]
  split
  case isTrue visible =>
    rw [padded.2 position visible, List.getElem?_map, sourceAt]
    cases sources[position]? <;> rfl
  case isFalse beyond => rw [List.getElem?_eq_none (by rw [padded.1]; omega)]

theorem shownBytes_eq_iff {other : Bytes} {size : Nat}
    {sources otherSources : List ByteSource} :
    shownBytes image size sources = shownBytes other size otherSources ↔
      ∀ position < size, (sourceAt sources position).byte image =
        (sourceAt otherSources position).byte other := by
  rw [shownBytes, shownBytes, tabulate, tabulate, List.map_inj_left]
  simp only [List.mem_range]

/-- A read yields the bytes of the file's sources, cut or padded to the inode's
size. -/
theorem readFileFromLeaf_eq_ok_iff_sources (small : image.length < usizeMax)
    {leaf : Node} {ino : UInt64} {content : Bytes} :
    readFileFromLeaf crates leaf image map sectorsize ino = .ok content ↔
      ∃ size sources, inodeSize leaf ino = some size ∧
        size.toNat ≤ max image.length logicalAllocFloor ∧
        fileSources crates leaf image map sectorsize ino = some sources ∧
        content = shownBytes image size.toNat sources := by
  rw [readFileFromLeaf_eq_ok_iff]
  apply exists_congr
  intro size
  simp only [appendExtents_eq_ok_iff small, List.nil_append]
  constructor
  · intro parts
    rcases parts with ⟨_, known, fits, ⟨sources, found, rfl⟩, rfl⟩
    exact ⟨sources, known, fits, found, fitToSize_sources size.toNat sources⟩
  · intro parts
    rcases parts with ⟨sources, known, fits, found, rfl⟩
    exact ⟨_, known, fits, ⟨sources, found, rfl⟩,
      (fitToSize_sources size.toNat sources).symm⟩

section Sized

variable {leaf : Node} {ino size : UInt64}

theorem readFileFromLeaf_of_sources (small : image.length < usizeMax)
    (known : inodeSize leaf ino = some size)
    (fits : size.toNat ≤ max image.length logicalAllocFloor)
    {sources : List ByteSource}
    (sourced : fileSources crates leaf image map sectorsize ino = some sources) :
    readFileFromLeaf crates leaf image map sectorsize ino =
      .ok (shownBytes image size.toNat sources) :=
  (readFileFromLeaf_eq_ok_iff_sources small).mpr
    ⟨size, sources, known, fits, sourced, rfl⟩

theorem exists_read_iff_isSome (small : image.length < usizeMax)
    (known : inodeSize leaf ino = some size)
    (fits : size.toNat ≤ max image.length logicalAllocFloor) :
    (∃ content, readFileFromLeaf crates leaf image map sectorsize ino = .ok content) ↔
      (fileSources crates leaf image map sectorsize ino).isSome := by
  rw [Option.isSome_iff_exists]
  constructor
  · intro read
    rcases read with ⟨content, read⟩
    rcases (readFileFromLeaf_eq_ok_iff_sources small).mp read with
      ⟨_, sources, _, _, sourced, _⟩
    exact ⟨sources, sourced⟩
  · intro readable
    rcases readable with ⟨sources, sourced⟩
    exact ⟨_, readFileFromLeaf_of_sources small known fits sourced⟩

end Sized

end Sources

end BtrfsForensic
