import BtrfsForensic.Core.FsTree
import Mathlib.Data.List.Sort

namespace BtrfsForensic

/-! `EXTENT_DATA` items to file content: inline, regular, preallocated and
hole extents, with the three decompressors. -/

abbrev extentDataKey : UInt8 := 108
abbrev extentHeaderLen : Nat := 21

namespace ExtOff

abbrev ramBytes : Nat := 8
abbrev compression : Nat := 16
abbrev type : Nat := 20
abbrev diskBytenr : Nat := 21
abbrev offset : Nat := 37
abbrev numBytes : Nat := 45

end ExtOff

abbrev extentTypeInline : UInt8 := 0
abbrev extentTypeReg : UInt8 := 1
abbrev extentTypePrealloc : UInt8 := 2

inductive Compression
  | none
  | zlib
  | lzo
  | zstd
  | other (byte : UInt8)
  deriving DecidableEq

def Compression.fromByte (byte : UInt8) : Compression :=
  match byte with
  | 0 => .none
  | 1 => .zlib
  | 2 => .lzo
  | 3 => .zstd
  | unknown => .other unknown

/-- 64 MiB: the allocation bound of small images. -/
abbrev logicalAllocFloor : Nat := 64 * 1024 * 1024

def guardAlloc (field : String) (claimed bound : Nat) : Except BtrfsError Unit :=
  if bound < claimed then .error (.allocationBomb field claimed bound) else .ok ()

theorem bind_eq_ok_iff {ε α β : Type} {first : Except ε α} {next : α → Except ε β}
    {value : β} :
    (first >>= next) = .ok value ↔
      ∃ middle, first = .ok middle ∧ next middle = .ok value := by
  cases first with
  | error error => simp [bind, Except.bind]
  | ok middle => simp [bind, Except.bind]

section Guard

variable {α : Type} {field : String} {claimed bound : Nat}
  {next : Unit → Except BtrfsError α}

theorem guardAlloc_bind_of_exceeds (exceeds : bound < claimed) :
    (guardAlloc field claimed bound >>= next) =
      .error (.allocationBomb field claimed bound) := by
  rw [guardAlloc, if_pos exceeds]
  rfl

theorem guardAlloc_bind_of_fits (fits : claimed ≤ bound) :
    (guardAlloc field claimed bound >>= next) = next () := by
  rw [guardAlloc, if_neg (Nat.not_lt_of_le fits)]
  rfl

theorem guardAlloc_bind_eq_ok_iff {value : α} :
    (guardAlloc field claimed bound >>= next) = .ok value ↔
      claimed ≤ bound ∧ next () = .ok value := by
  by_cases fits : claimed ≤ bound
  · rw [guardAlloc_bind_of_fits fits]
    exact (and_iff_right fits).symm
  · rw [guardAlloc_bind_of_exceeds (Nat.lt_of_not_le fits)]
    simp [fits]

end Guard

/-! ## Decompression -/

/-- `take(cap)` bounds both the content and what a failure reports. -/
def decompressZlib (crates : Crates) (src : Bytes) (cap : Nat) :
    Except BtrfsError Bytes :=
  match crates.zlib src cap with
  | .ok out => .ok (out.take cap)
  | .error out =>
      .error (.truncated "zlib extent stream (decompression failed)" cap
        (out.take cap).length)

def decompressZstd (crates : Crates) (src : Bytes) (cap : Nat) :
    Except BtrfsError Bytes :=
  if crates.zstdHeader src then
    match crates.zstd src cap with
    | .ok out => .ok (out.take cap)
    | .error out =>
        .error (.truncated "zstd extent frame (decompression failed)" cap
          (out.take cap).length)
  else
    .error (.truncated "zstd extent frame (bad frame header)" cap 0)

abbrev lzoLen : Nat := 4

/-- A 4-byte length at `off`, padded to the eight bytes `leU64` reads. -/
def le32Padded (src : Bytes) (off : Nat) : Bytes :=
  match getRange src off (off + 4) with
  | some bytes => bytes ++ List.replicate 4 0
  | none => List.replicate 8 0

/-- One iteration's outcome: the loop ends, or goes on from a new cursor. -/
inductive LzoStep
  | done
  | next (cur : Nat) (out : Bytes)

/-- The cursor after skipping the padding before a segment header that would
cross a sector boundary. -/
def lzoHeaderCursor (sectorsize cur : Nat) : Nat :=
  if sectorsize < cur % sectorsize + lzoLen then
    cur + (sectorsize - cur % sectorsize)
  else
    cur

/-- One segment: its length, its compressed bytes, its decoded bytes. -/
def lzoSegment (crates : Crates) (src : Bytes) (cap sectorsize total cur : Nat)
    (out : Bytes) : Except BtrfsError LzoStep :=
  let segOutCap := saturatingAdd (saturatingAdd sectorsize (sectorsize / 16)) 64
  let cur := lzoHeaderCursor sectorsize cur
  if total ≤ cur then
    .ok .done
  else
    match getRange src cur (cur + lzoLen) with
    | none => .ok .done
    | some segLenBytes =>
        let segLen := decodeLE segLenBytes
        let cur := cur + lzoLen
        if segLen = 0 then
          .ok .done
        else
          match getRange src cur (min (saturatingAdd cur segLen) src.length) with
          | none => .ok .done
          | some segment =>
              match crates.lzo segment segOutCap with
              | none =>
                  .error (.truncated "LZO extent segment (decompression failed)"
                    segLen out.length)
              | some decoded =>
                  let want := min (cap - out.length) decoded.count
                  .ok (.next (saturatingAdd cur segLen)
                    (out ++ decoded.buffer.take want))

/-- Every completed iteration moves the cursor forward, so `total` iterations
are enough. -/
def lzoLoop (crates : Crates) (src : Bytes) (cap sectorsize total : Nat) :
    (fuel cur : Nat) → (out : Bytes) → Except BtrfsError Bytes
  | 0, _, out => .ok out
  | fuel + 1, cur, out =>
      if cur < total ∧ out.length < cap then do
        match ← lzoSegment crates src cap sectorsize total cur out with
        | .done => .ok out
        | .next cur out => lzoLoop crates src cap sectorsize total fuel cur out
      else
        .ok out

def decompressLzoBtrfs (crates : Crates) (src : Bytes) (cap : Nat)
    (sectorsize : UInt32) : Except BtrfsError Bytes := do
  let sectorsize := max sectorsize.toNat 1
  let total := (leU64 (le32Padded src 0) 0).toNat
  let total := max (min total src.length) lzoLen
  let out ← lzoLoop crates src cap sectorsize total total lzoLen []
  .ok (out.take cap)

def unsupportedCodecByte (algo : Compression) : UInt8 :=
  match algo with
  | .other byte => byte
  | _ => 0

/-- At most `ramBytes` decompressed bytes of `src`. -/
def decompressExtent (crates : Crates) (algo : Compression) (src : Bytes)
    (ramBytes : UInt64) (sectorsize : UInt32) : Except BtrfsError Bytes :=
  if algo = .none then
    .ok (src.take (min ramBytes.toNat src.length))
  else do
    let bound := saturatingAdd (saturatingMul src.length 1024) (2 ^ 20)
    guardAlloc "compressed ram_bytes" ramBytes.toNat bound
    let cap := ramBytes.toNat
    match algo with
    | .zlib => decompressZlib crates src cap
    | .zstd => decompressZstd crates src cap
    | .lzo => decompressLzoBtrfs crates src cap sectorsize
    | other =>
        .error (.truncated "extent compression algorithm (unsupported codec)"
          (unsupportedCodecByte other).toNat 0)

/-! ## Extents -/

/-- A regular or preallocated extent that is not a hole. An uncompressed one is
a window of the image; a compressed one hands the decoder everything up to the
end of the image and takes a window of the result. -/
def readRegularExtent (crates : Crates) (image : Bytes) (map : ChunkMap)
    (sectorsize : UInt32) (compression : Compression)
    (diskBytenr extOffset numBytes ramBytes : UInt64) :
    Except BtrfsError Bytes := do
  guardAlloc "extent num_bytes" numBytes.toNat image.length
  match map.logicalToPhysical diskBytenr with
  | none =>
      .error (.truncated "extent disk_bytenr (no chunk mapping)"
        diskBytenr.toNat 0)
  | some (_, phys) =>
      if compression = .none then
        let start := saturatingAdd phys.toNat extOffset.toNat
        let stop := saturatingAdd start numBytes.toNat
        match getRange image start stop with
        | none =>
            .error (.truncated "regular extent data (out of image)" stop
              image.length)
        | some bytes => .ok bytes
      else
        let start := phys.toNat
        match getRange image start image.length with
        | none =>
            .error (.truncated "compressed extent source (out of image)" start
              image.length)
        | some src => do
            let whole ← decompressExtent crates compression src ramBytes sectorsize
            let winStart := extOffset.toNat
            let winEnd := saturatingAdd winStart numBytes.toNat
            .ok ((getRange whole winStart (min winEnd whole.length)).getD [])

def extentContent (crates : Crates) (image : Bytes) (map : ChunkMap)
    (sectorsize : UInt32) (logicalBound : Nat) (data : Bytes) :
    Except BtrfsError Bytes :=
  let etype := u8At data ExtOff.type
  let ramBytes := leU64 data ExtOff.ramBytes
  let compression := Compression.fromByte (u8At data ExtOff.compression)
  if etype = extentTypeInline then
    let payload := (getRange data extentHeaderLen data.length).getD []
    decompressExtent crates compression payload ramBytes sectorsize
  else if etype = extentTypeReg ∨ etype = extentTypePrealloc then
    let diskBytenr := leU64 data ExtOff.diskBytenr
    let extOffset := leU64 data ExtOff.offset
    let numBytes := leU64 data ExtOff.numBytes
    if diskBytenr = 0 then do
      guardAlloc "hole num_bytes" numBytes.toNat logicalBound
      .ok (List.replicate numBytes.toNat 0)
    else
      readRegularExtent crates image map sectorsize compression diskBytenr
        extOffset numBytes ramBytes
  else
    .error (.truncated "btrfs_file_extent_item type (unknown extent type)"
      etype.toNat 0)

/-! ## Files -/

/-- The size field of the first inode item of `ino`. -/
def inodeSize (leaf : Node) (ino : UInt64) : Option UInt64 :=
  (leaf.leafItems.find? fun item =>
    item.1.objectid = ino ∧ item.1.keyType = inodeItemKey).map
      fun item => leU64 item.2 inodeSizeOffset

def extentItems (leaf : Node) (ino : UInt64) : List (UInt64 × Bytes) :=
  (leaf.leafItems.filter fun item =>
    item.1.objectid = ino ∧ item.1.keyType = extentDataKey).map
      fun item => (item.1.offset, item.2)

/-- `extents.sort_by_key(|(file_off, _)| *file_off)`, a stable sort. -/
def sortByOffset (extents : List (UInt64 × Bytes)) : List (UInt64 × Bytes) :=
  extents.insertionSort fun left right => left.1 ≤ right.1

/-- Every extent is appended where the one before it ended: the file offset
has served the sort and is not used again. -/
def appendExtents (crates : Crates) (image : Bytes) (map : ChunkMap)
    (sectorsize : UInt32) (logicalBound : Nat) :
    List (UInt64 × Bytes) → (out : Bytes) → Except BtrfsError Bytes
  | [], out => .ok out
  | (_, data) :: rest, out => do
      let bytes ← extentContent crates image map sectorsize logicalBound data
      appendExtents crates image map sectorsize logicalBound rest (out ++ bytes)

/-- Truncation to `size`, or zero-filling up to it. -/
def fitToSize (size : Nat) (out : Bytes) : Bytes :=
  if size < out.length then
    out.take size
  else
    out ++ List.replicate (size - out.length) 0

def readFileFromLeaf (crates : Crates) (leaf : Node) (image : Bytes)
    (map : ChunkMap) (sectorsize : UInt32) (ino : UInt64) :
    Except BtrfsError Bytes :=
  match inodeSize leaf ino with
  | none =>
      .error (.truncated "INODE_ITEM for the requested objectid (read_file)"
        ino.toNat 0)
  | some size => do
      let logicalBound := max image.length logicalAllocFloor
      guardAlloc "inode size" size.toNat logicalBound
      let out ← appendExtents crates image map sectorsize logicalBound
        (sortByOffset (extentItems leaf ino)) []
      .ok (fitToSize size.toNat out)

/-! ## What a successful read yields -/

theorem length_fitToSize (size : Nat) (out : Bytes) :
    (fitToSize size out).length = size := by
  rw [fitToSize]
  split
  case isTrue longer =>
    rw [List.length_take]
    omega
  case isFalse =>
    rw [List.length_append, List.length_replicate]
    omega

theorem readRegularExtent_none_eq_ok_iff {crates : Crates} {image : Bytes}
    {map : ChunkMap} {sectorsize : UInt32}
    {diskBytenr extOffset numBytes ramBytes : UInt64} {content : Bytes} :
    readRegularExtent crates image map sectorsize .none diskBytenr extOffset numBytes
        ramBytes = .ok content ↔
      numBytes.toNat ≤ image.length ∧
        ∃ devid phys, map.logicalToPhysical diskBytenr = some (devid, phys) ∧
          getRange image (saturatingAdd phys.toNat extOffset.toNat)
            (saturatingAdd (saturatingAdd phys.toNat extOffset.toNat)
              numBytes.toNat) = some content := by
  rw [readRegularExtent, guardAlloc_bind_eq_ok_iff]
  apply and_congr_right
  intro _
  cases map.logicalToPhysical diskBytenr with
  | none => simp
  | some target =>
      cases target with
      | mk devid phys =>
          simp only [if_true, Option.some.injEq, Prod.mk.injEq, existsAndEq, true_and]
          cases getRange image (saturatingAdd phys.toNat extOffset.toNat)
              (saturatingAdd (saturatingAdd phys.toNat extOffset.toNat)
                numBytes.toNat) with
          | none => simp
          | some bytes => simp

theorem extentContent_of_window {crates : Crates} {image data bytes : Bytes}
    {map : ChunkMap} {sectorsize : UInt32} {logicalBound : Nat} {devid phys : UInt64}
    (regular : u8At data ExtOff.type = extentTypeReg)
    (plain : Compression.fromByte (u8At data ExtOff.compression) = .none)
    (present : leU64 data ExtOff.diskBytenr ≠ 0)
    (small : (leU64 data ExtOff.numBytes).toNat ≤ image.length)
    (target : map.logicalToPhysical (leU64 data ExtOff.diskBytenr) = some (devid, phys))
    (window : getRange image (saturatingAdd phys.toNat (leU64 data ExtOff.offset).toNat)
      (saturatingAdd (saturatingAdd phys.toNat (leU64 data ExtOff.offset).toNat)
        (leU64 data ExtOff.numBytes).toNat) = some bytes) :
    extentContent crates image map sectorsize logicalBound data = .ok bytes := by
  rw [extentContent]
  simp only [regular, plain]
  rw [if_neg (by decide), if_pos (by decide), if_neg present,
    readRegularExtent_none_eq_ok_iff]
  exact ⟨small, devid, phys, target, window⟩

section Read

variable {crates : Crates} {leaf : Node} {image : Bytes} {map : ChunkMap}
  {sectorsize : UInt32} {ino : UInt64} {content : Bytes}

/-- A read goes through the inode's size, its guard and the sorted extents. -/
theorem readFileFromLeaf_eq_ok_iff :
    readFileFromLeaf crates leaf image map sectorsize ino = .ok content ↔
      ∃ size out, inodeSize leaf ino = some size ∧
        size.toNat ≤ max image.length logicalAllocFloor ∧
        appendExtents crates image map sectorsize
          (max image.length logicalAllocFloor)
          (sortByOffset (extentItems leaf ino)) [] = .ok out ∧
        content = fitToSize size.toNat out := by
  rw [readFileFromLeaf]
  cases found : inodeSize leaf ino with
  | none => simp
  | some size =>
      dsimp only
      rw [guardAlloc_bind_eq_ok_iff, bind_eq_ok_iff]
      simp [eq_comm]

theorem length_of_readFileFromLeaf {size : UInt64}
    (known : inodeSize leaf ino = some size)
    (read : readFileFromLeaf crates leaf image map sectorsize ino = .ok content) :
    content.length = size.toNat := by
  rcases readFileFromLeaf_eq_ok_iff.mp read with ⟨_, _, again, _, _, rfl⟩
  rw [known] at again
  cases again
  exact length_fitToSize _ _

end Read

end BtrfsForensic
