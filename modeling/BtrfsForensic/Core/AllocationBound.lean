import BtrfsForensic.Core.ExtentSources

namespace BtrfsForensic

/-! How large the buffers of a read get: the lengths that an image claims, the
guards they have to pass, and the buffer that the file is assembled in. -/

/-- A claimed length and the bound that it is checked against. -/
structure AllocGuard where
  field : String
  claimed : Nat
  bound : Nat
  deriving DecidableEq

/-- A claimed length is within the limit, or fails its guard and that is the
result. -/
def AllocGuard.Kept (guard : AllocGuard) (limit : Nat)
    (result : Except BtrfsError Bytes) : Prop :=
  guard.claimed ≤ limit ∨
    guard.bound < guard.claimed ∧
      result = .error (.allocationBomb guard.field guard.claimed guard.bound)

def Compression.hasCodec : Compression → Bool
  | .zlib | .lzo | .zstd => true
  | .none | .other _ => false

/-- The guard of a `ram_bytes` that a codec is called with. -/
def codecGuards (compression : Compression) (sourceLength : Nat) (ramBytes : UInt64) :
    List AllocGuard :=
  if compression.hasCodec then
    [⟨"compressed ram_bytes", ramBytes.toNat,
      saturatingAdd (saturatingMul sourceLength 1024) (2 ^ 20)⟩]
  else
    []

/-- The codec calls that the reading of an item comes to. -/
def itemCodecGuards (imageLength : Nat) (map : ChunkMap) (data : Bytes) :
    List AllocGuard :=
  let etype := u8At data ExtOff.type
  let ramBytes := leU64 data ExtOff.ramBytes
  let compression := Compression.fromByte (u8At data ExtOff.compression)
  let diskBytenr := leU64 data ExtOff.diskBytenr
  if etype = extentTypeInline then
    codecGuards compression ((getRange data extentHeaderLen data.length).getD []).length
      ramBytes
  else if (etype = extentTypeReg ∨ etype = extentTypePrealloc) ∧ diskBytenr ≠ 0 ∧
      (leU64 data ExtOff.numBytes).toNat ≤ imageLength then
    match map.logicalToPhysical diskBytenr with
    | none => []
    | some (_, phys) =>
        if phys.toNat ≤ imageLength then
          codecGuards compression (imageLength - phys.toNat) ramBytes
        else
          []
  else
    []

/-- The guards of an item's `num_bytes`. -/
def itemSizeGuards (imageLength logicalBound : Nat) (data : Bytes) :
    List AllocGuard :=
  let etype := u8At data ExtOff.type
  let numBytes := leU64 data ExtOff.numBytes
  if etype = extentTypeReg ∨ etype = extentTypePrealloc then
    if leU64 data ExtOff.diskBytenr = 0 then
      [⟨"hole num_bytes", numBytes.toNat, logicalBound⟩]
    else
      [⟨"extent num_bytes", numBytes.toNat, imageLength⟩]
  else
    []

/-! ## A failed guard is the result -/

section Failed

variable {crates : Crates} {image : Bytes} {map : ChunkMap} {sectorsize : UInt32}
  {logicalBound : Nat} {data : Bytes} {guard : AllocGuard}

theorem compressed_of_mem_codecGuards {compression : Compression} {sourceLength : Nat}
    {ramBytes : UInt64} (member : guard ∈ codecGuards compression sourceLength ramBytes) :
    compression ≠ .none := by
  intro plain
  rw [plain] at member
  exact absurd member List.not_mem_nil

theorem decompressExtent_of_exceeds {compression : Compression} {src : Bytes}
    {ramBytes : UInt64} (member : guard ∈ codecGuards compression src.length ramBytes)
    (exceeds : guard.bound < guard.claimed) :
    decompressExtent crates compression src ramBytes sectorsize =
      .error (.allocationBomb guard.field guard.claimed guard.bound) := by
  rw [decompressExtent, if_neg (compressed_of_mem_codecGuards member)]
  rw [codecGuards] at member
  split at member
  case isFalse => cases member
  case isTrue =>
    rw [List.mem_singleton] at member
    subst member
    exact guardAlloc_bind_of_exceeds exceeds

theorem extentContent_of_size_exceeds
    (member : guard ∈ itemSizeGuards image.length logicalBound data)
    (exceeds : guard.bound < guard.claimed) :
    extentContent crates image map sectorsize logicalBound data =
      .error (.allocationBomb guard.field guard.claimed guard.bound) := by
  rw [itemSizeGuards] at member
  rw [extentContent]
  dsimp only at member ⊢
  split at member
  case isFalse => cases member
  case isTrue regular =>
    have notInline : u8At data ExtOff.type ≠ extentTypeInline := by
      intro inline
      rw [inline] at regular
      exact absurd regular (by decide)
    rw [if_neg notInline, if_pos regular]
    split at member
    case isTrue hole =>
      rw [List.mem_singleton] at member
      subst member
      rw [if_pos hole]
      exact guardAlloc_bind_of_exceeds exceeds
    case isFalse present =>
      rw [List.mem_singleton] at member
      subst member
      rw [if_neg present, readRegularExtent]
      exact guardAlloc_bind_of_exceeds exceeds

theorem extentContent_of_codec_exceeds
    (member : guard ∈ itemCodecGuards image.length map data)
    (exceeds : guard.bound < guard.claimed) :
    extentContent crates image map sectorsize logicalBound data =
      .error (.allocationBomb guard.field guard.claimed guard.bound) := by
  rw [itemCodecGuards] at member
  rw [extentContent]
  dsimp only at member ⊢
  split at member
  case isTrue inline =>
    rw [if_pos inline]
    exact decompressExtent_of_exceeds member exceeds
  case isFalse notInline =>
    split at member
    case isFalse => cases member
    case isTrue regular =>
      rcases regular with ⟨regular, present, fits⟩
      rw [if_neg notInline, if_pos regular, if_neg present, readRegularExtent,
        guardAlloc_bind_of_fits fits]
      cases target : map.logicalToPhysical (leU64 data ExtOff.diskBytenr) with
      | none =>
          rw [target] at member
          cases member
      | some physical =>
          rw [target] at member
          cases physical with
          | mk devid phys =>
              dsimp only at member ⊢
              split at member
              case isFalse => cases member
              case isTrue inside =>
                rw [if_neg (compressed_of_mem_codecGuards member), getRange_to_end,
                  if_pos inside]
                rw [← List.length_drop] at member
                dsimp only
                rw [decompressExtent_of_exceeds member exceeds]
                rfl

end Failed

/-! ## The run over the extents -/

section Run

variable {crates : Crates} {leaf : Node} {image : Bytes} {map : ChunkMap}
  {sectorsize : UInt32} {ino : UInt64}

theorem appendExtents_append {logicalBound : Nat} {before after : List (UInt64 × Bytes)}
    {out : Bytes} :
    appendExtents crates image map sectorsize logicalBound (before ++ after) out =
      appendExtents crates image map sectorsize logicalBound before out >>=
        appendExtents crates image map sectorsize logicalBound after := by
  induction before generalizing out with
  | nil => rfl
  | cons extent before induction =>
      cases extent with
      | mk offset data =>
          rw [List.cons_append, appendExtents, appendExtents]
          cases extentContent crates image map sectorsize logicalBound data with
          | error error => rfl
          | ok bytes => exact induction

def assembled (crates : Crates) (leaf : Node) (image : Bytes) (map : ChunkMap)
    (sectorsize : UInt32) (ino : UInt64) (number : Nat) : Except BtrfsError Bytes :=
  appendExtents crates image map sectorsize (max image.length logicalAllocFloor)
    ((sortByOffset (extentItems leaf ino)).take number) []

theorem readFileFromLeaf_of_failed {size : UInt64} {number : Nat} {buffer : Bytes}
    {extent : UInt64 × Bytes} {error : BtrfsError}
    (known : inodeSize leaf ino = some size)
    (fits : size.toNat ≤ max image.length logicalAllocFloor)
    (before : assembled crates leaf image map sectorsize ino number = .ok buffer)
    (found : (sortByOffset (extentItems leaf ino))[number]? = some extent)
    (failed : extentContent crates image map sectorsize
      (max image.length logicalAllocFloor) extent.2 = .error error) :
    readFileFromLeaf crates leaf image map sectorsize ino = .error error := by
  rcases List.getElem?_eq_some_iff.mp found with ⟨inside, rfl⟩
  have split := List.take_append_drop number (sortByOffset (extentItems leaf ino))
  rw [List.drop_eq_getElem_cons inside] at split
  rw [assembled] at before
  rw [readFileFromLeaf, known]
  dsimp only
  rw [guardAlloc_bind_of_fits fits, ← split, appendExtents_append, before]
  dsimp only [bind, Except.bind]
  rw [appendExtents, failed]
  rfl

/-- At every point of a read, no buffer and no length that sizes one is over the
limit; a length that is fails its guard, and that is the result. -/
def BoundedRun (crates : Crates) (leaf : Node) (image : Bytes) (map : ChunkMap)
    (sectorsize : UInt32) (ino : UInt64) : Prop :=
  let limit := max image.length logicalAllocFloor
  let result := readFileFromLeaf crates leaf image map sectorsize ino
  ∀ size, inodeSize leaf ino = some size →
    AllocGuard.Kept ⟨"inode size", size.toNat, limit⟩ limit result ∧
    (size.toNat ≤ limit → ∀ number buffer,
      assembled crates leaf image map sectorsize ino number = .ok buffer →
        buffer.length ≤ limit ∧
        ∀ extent, (sortByOffset (extentItems leaf ino))[number]? = some extent →
          ∀ guard ∈ itemSizeGuards image.length limit extent.2 ++
              itemCodecGuards image.length map extent.2, guard.Kept limit result) ∧
    ∀ content, result = .ok content → content.length ≤ limit

/-- The extents up to the first that cannot be read contribute no more than the
limit, and call no codec for more. -/
def ContributionsFit (crates : Crates) (leaf : Node) (image : Bytes) (map : ChunkMap)
    (sectorsize : UInt32) (ino : UInt64) : Prop :=
  let limit := max image.length logicalAllocFloor
  ∀ size, inodeSize leaf ino = some size → size.toNat ≤ limit →
    ∀ number sources, joinedSources crates image map sectorsize limit
        ((sortByOffset (extentItems leaf ino)).take number) = some sources →
      sources.length ≤ limit ∧
      ∀ extent, (sortByOffset (extentItems leaf ino))[number]? = some extent →
        ∀ guard ∈ itemCodecGuards image.length map extent.2,
          guard.claimed ≤ limit ∨ guard.bound < guard.claimed

theorem bound_le_of_mem_itemSizeGuards {imageLength limit : Nat} {data : Bytes}
    {guard : AllocGuard} (smaller : imageLength ≤ limit)
    (member : guard ∈ itemSizeGuards imageLength limit data) :
    guard.bound ≤ limit := by
  rw [itemSizeGuards] at member
  split at member
  case isFalse => cases member
  case isTrue =>
    split at member
    case isTrue hole =>
      rw [List.mem_singleton] at member
      exact member ▸ Nat.le_refl _
    case isFalse present =>
      rw [List.mem_singleton] at member
      exact member ▸ smaller

theorem boundedRun_iff (small : image.length < usizeMax) :
    BoundedRun crates leaf image map sectorsize ino ↔
      ContributionsFit crates leaf image map sectorsize ino := by
  constructor
  · intro bounded size known fits number sources sourced
    have before : assembled crates leaf image map sectorsize ino number =
        .ok ([] ++ sources.map (ByteSource.byte image)) :=
      (appendExtents_eq_ok_iff small).mpr ⟨sources, sourced, rfl⟩
    rcases (bounded size known).2.1 fits number _ before with ⟨short, kept⟩
    refine ⟨by simpa using short, fun extent found guard member => ?_⟩
    rcases kept extent found guard (List.mem_append_right _ member) with within | exceeds
    · exact .inl within
    · exact .inr exceeds.1
  · intro fit size known
    refine ⟨?_, fun fits number buffer before => ?_, fun content read => ?_⟩
    · by_cases fits : size.toNat ≤ max image.length logicalAllocFloor
      · exact .inl fits
      · refine .inr ⟨Nat.lt_of_not_le fits, ?_⟩
        rw [readFileFromLeaf, known]
        exact guardAlloc_bind_of_exceeds (Nat.lt_of_not_le fits)
    · rcases (appendExtents_eq_ok_iff small).mp before with ⟨sources, sourced, whole⟩
      rcases fit size known fits number sources sourced with ⟨short, called⟩
      refine ⟨by simpa [whole] using short, fun extent found guard member => ?_⟩
      by_cases exceeds : guard.bound < guard.claimed
      · refine .inr ⟨exceeds, readFileFromLeaf_of_failed known fits before found ?_⟩
        rcases List.mem_append.mp member with sized | coded
        · exact extentContent_of_size_exceeds sized exceeds
        · exact extentContent_of_codec_exceeds coded exceeds
      · rcases List.mem_append.mp member with sized | coded
        · have within := bound_le_of_mem_itemSizeGuards (Nat.le_max_left _ _) sized
          exact .inl (by omega)
        · exact .inl ((called extent found guard coded).resolve_right exceeds)
    · rcases readFileFromLeaf_eq_ok_iff.mp read with ⟨_, _, again, fits, _, rfl⟩
      rw [length_fitToSize]
      exact fits

theorem extentContent_of_hole {logicalBound : Nat} {data : Bytes}
    (regular : u8At data ExtOff.type = extentTypeReg)
    (hole : leU64 data ExtOff.diskBytenr = 0)
    (fits : (leU64 data ExtOff.numBytes).toNat ≤ logicalBound) :
    extentContent crates image map sectorsize logicalBound data =
      .ok (List.replicate (leU64 data ExtOff.numBytes).toNat 0) := by
  rw [extentContent]
  simp only [regular, hole]
  rw [if_neg (by decide), if_pos (by decide), if_pos trivial,
    guardAlloc_bind_of_fits fits]

end Run

/-! Two holes of 64 MiB each in an empty image, and a small image with an extent
that claims to decode to more than that. -/

def holeItem : Bytes :=
  overlay 53 0 [(ExtOff.type, [extentTypeReg]), (ExtOff.numBytes, encodeLE 8 67108864)]

def twoHolesLeaf : Node :=
  Node.ofBlock Crates.withoutCodecs <| Writer.leaf 512
    ⟨List.Vector.replicate 16 0, 0, 0, fsTreeObjectid⟩
    [(⟨257, inodeItemKey, 0⟩, overlay 160 0 [(inodeSizeOffset, encodeLE 8 1)]),
      (⟨257, extentDataKey, 0⟩, holeItem), (⟨257, extentDataKey, 67108864⟩, holeItem)]

def inflatedItem : Bytes :=
  overlay 53 0 [(ExtOff.ramBytes, encodeLE 8 67108865), (ExtOff.compression, [1]),
    (ExtOff.type, [extentTypeReg]), (ExtOff.diskBytenr, encodeLE 8 4096),
    (ExtOff.numBytes, encodeLE 8 1)]

def inflatedLeaf : Node :=
  Node.ofBlock Crates.withoutCodecs <| Writer.leaf 512
    ⟨List.Vector.replicate 16 0, 0, 0, fsTreeObjectid⟩
    [(⟨257, inodeItemKey, 0⟩, overlay 160 0 [(inodeSizeOffset, encodeLE 8 1)]),
      (⟨257, extentDataKey, 0⟩, inflatedItem)]

theorem sorted_twoHolesLeaf :
    sortByOffset (extentItems twoHolesLeaf 257) = [(0, holeItem), (67108864, holeItem)] := by
  decide +kernel

theorem assembled_twoHolesLeaf :
    assembled Crates.withoutCodecs twoHolesLeaf [] ⟨[]⟩ 4096 257 2 =
      .ok (List.replicate 134217728 0) := by
  have numBytes : (leU64 holeItem ExtOff.numBytes).toNat = 67108864 := by decide +kernel
  have fits : (leU64 holeItem ExtOff.numBytes).toNat ≤ logicalAllocFloor := by
    rw [numBytes]
  have hole : extentContent Crates.withoutCodecs [] ⟨[]⟩ 4096 logicalAllocFloor holeItem =
      .ok (List.replicate 67108864 0) := by
    rw [← numBytes]
    exact extentContent_of_hole (by decide +kernel) (by decide +kernel) fits
  rw [assembled, sorted_twoHolesLeaf, show max ([] : Bytes).length logicalAllocFloor =
    logicalAllocFloor by decide, List.take_of_length_le (by decide), appendExtents, hole]
  dsimp only [bind, Except.bind]
  rw [appendExtents, hole]
  dsimp only [bind, Except.bind]
  rw [appendExtents, List.nil_append, List.replicate_append_replicate]

/-- The buffer holds 128 MiB, twice the limit, and the read succeeds; and a codec is
called for more than the limit. -/
theorem buffer_over_the_limit :
    (∃ buffer, assembled Crates.withoutCodecs twoHolesLeaf [] ⟨[]⟩ 4096 257 2 = .ok buffer ∧
        buffer.length = 134217728) ∧
      ¬BoundedRun Crates.withoutCodecs twoHolesLeaf [] ⟨[]⟩ 4096 257 ∧
      ¬BoundedRun Crates.withoutCodecs inflatedLeaf (List.replicate 65536 0) storedMap
        4096 257 := by
  refine ⟨⟨_, assembled_twoHolesLeaf, List.length_replicate⟩, fun bounded => ?_,
    fun bounded => ?_⟩
  · have known : inodeSize twoHolesLeaf 257 = some 1 := by decide +kernel
    have short := ((bounded 1 known).2.1 (by decide) 2 _ assembled_twoHolesLeaf).1
    rw [List.length_replicate] at short
    exact absurd short (by decide)
  · have known : inodeSize inflatedLeaf 257 = some 1 := by decide +kernel
    have sorted : sortByOffset (extentItems inflatedLeaf 257) = [(0, inflatedItem)] := by
      decide +kernel
    have called : itemCodecGuards 65536 storedMap inflatedItem =
        [⟨"compressed ram_bytes", 67108865, 68157440⟩] := by decide +kernel
    have parts := (bounded 1 known).2.1
    rw [sorted, List.length_replicate] at parts
    have kept := (parts (by decide) 0 [] rfl).2 (0, inflatedItem) rfl _
      (List.mem_append_right _ (called ▸ List.mem_singleton_self _))
    rcases kept with within | exceeds
    · exact absurd within (by decide)
    · exact absurd exceeds.1 (by decide)

/-- A read of the two holes from an empty image. -/
theorem boundedRun_iff_in_twoHolesLeaf :
    BoundedRun Crates.withoutCodecs twoHolesLeaf [] ⟨[]⟩ 4096 257 ↔
      ContributionsFit Crates.withoutCodecs twoHolesLeaf [] ⟨[]⟩ 4096 257 :=
  boundedRun_iff (by decide)

end BtrfsForensic
