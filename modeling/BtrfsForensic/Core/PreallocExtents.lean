import BtrfsForensic.Core.ExtentLocality
import BtrfsForensic.Core.ExtentSources

namespace BtrfsForensic

/-! What a file shows of extents that are allocated but were never written. They
are read like written ones, so what shows is what lies on the disk. -/

def InPreallocDisk (map : ChunkMap) (extents : List (UInt64 × Bytes))
    (offset : Nat) : Prop :=
  ∃ extent ∈ extents, u8At extent.2 ExtOff.type = extentTypePrealloc ∧
    leU64 extent.2 ExtOff.diskBytenr ≠ 0 ∧
    ∃ devid phys, map.logicalToPhysical (leU64 extent.2 ExtOff.diskBytenr) =
        some (devid, phys) ∧
      phys.toNat ≤ offset ∧
      offset < phys.toNat + (leU64 extent.2 diskNumBytes).toNat

def InPreallocFile (extents : List (UInt64 × Bytes)) (position : Nat) : Prop :=
  ∃ extent ∈ extents, u8At extent.2 ExtOff.type = extentTypePrealloc ∧
    extent.1.toNat ≤ position ∧
    position < extent.1.toNat + (leU64 extent.2 ExtOff.numBytes).toNat

section Prealloc

variable (crates : Crates) (leaf : Node) (image other : Bytes) (map : ChunkMap)
  (sectorsize : UInt32) (ino : UInt64)

/-- What is read from one image is read from the other, and shows zeros wherever
an extent is preallocated. -/
def PreallocHidden : Prop :=
  ∀ content,
    readFileFromLeaf crates leaf image map sectorsize ino = .ok content ∨
        readFileFromLeaf crates leaf other map sectorsize ino = .ok content →
      readFileFromLeaf crates leaf image map sectorsize ino = .ok content ∧
        readFileFromLeaf crates leaf other map sectorsize ino = .ok content ∧
        ∀ position < content.length,
          InPreallocFile (extentItems leaf ino) position →
            content[position]? = some 0

/-- A byte that both reads take from one offset of a preallocated disk range is
the same there. -/
def SameStaleByte (source : ByteSource) : Prop :=
  ∀ offset, source = .disk offset → InPreallocDisk map (extentItems leaf ino) offset →
    u8At image offset = u8At other offset

/-- The extents are readable from both images or from neither; what shows of the
preallocated disk ranges is the same in both, and so is what decodes differently;
and zeros show where an extent is preallocated. -/
def StaleBytesHarmless : Prop :=
  ∀ size, inodeSize leaf ino = some size →
    size.toNat ≤ max image.length logicalAllocFloor →
    ((fileSources crates leaf image map sectorsize ino).isSome ↔
      (fileSources crates leaf other map sectorsize ino).isSome) ∧
    ∀ sources otherSources,
      fileSources crates leaf image map sectorsize ino = some sources →
      fileSources crates leaf other map sectorsize ino = some otherSources →
      ∀ position < size.toNat,
        (sourceAt sources position = sourceAt otherSources position →
          SameStaleByte leaf image other map ino (sourceAt sources position)) ∧
        (sourceAt sources position ≠ sourceAt otherSources position →
          (sourceAt sources position).byte image =
            (sourceAt otherSources position).byte other) ∧
        (InPreallocFile (extentItems leaf ino) position →
          (sourceAt sources position).byte image = 0)

/-- Where nothing decodes differently, what shows of the preallocated disk ranges
is the same in both images, and zeros show where an extent is preallocated. -/
def PlainStaleBytesHarmless : Prop :=
  ∀ size sources, inodeSize leaf ino = some size →
    size.toNat ≤ max image.length logicalAllocFloor →
    fileSources crates leaf image map sectorsize ino = some sources →
    ∀ position < size.toNat,
      SameStaleByte leaf image other map ino (sourceAt sources position) ∧
      (InPreallocFile (extentItems leaf ino) position →
        (sourceAt sources position).byte image = 0)

/-- Every compressed extent decodes to the same from both images. -/
def DecodesAlike : Prop :=
  ∀ extent ∈ extentItems leaf ino,
    let compression := Compression.fromByte (u8At extent.2 ExtOff.compression)
    u8At extent.2 ExtOff.type ≠ extentTypeInline → compression ≠ .none →
      decodedStream crates image map sectorsize compression
          (leU64 extent.2 ExtOff.diskBytenr) (leU64 extent.2 ExtOff.ramBytes) =
        decodedStream crates other map sectorsize compression
          (leU64 extent.2 ExtOff.diskBytenr) (leU64 extent.2 ExtOff.ramBytes)

end Prealloc

section Hidden

variable {crates : Crates} {leaf : Node} {image other : Bytes} {map : ChunkMap}
  {sectorsize : UInt32} {ino : UInt64}

theorem extentSources_congr (sameLength : image.length = other.length)
    {logicalBound : Nat} {data : Bytes}
    (alike : u8At data ExtOff.type ≠ extentTypeInline →
      Compression.fromByte (u8At data ExtOff.compression) ≠ .none →
      decodedStream crates image map sectorsize
          (Compression.fromByte (u8At data ExtOff.compression))
          (leU64 data ExtOff.diskBytenr) (leU64 data ExtOff.ramBytes) =
        decodedStream crates other map sectorsize
          (Compression.fromByte (u8At data ExtOff.compression))
          (leU64 data ExtOff.diskBytenr) (leU64 data ExtOff.ramBytes)) :
    extentSources crates image map sectorsize logicalBound data =
      extentSources crates other map sectorsize logicalBound data := by
  rw [extentSources, extentSources]
  dsimp only
  split
  case isTrue => rfl
  case isFalse notInline =>
    rw [regularSources, regularSources, sameLength]
    by_cases plain : Compression.fromByte (u8At data ExtOff.compression) = .none
    · rw [if_pos plain, if_pos plain]
    · rw [if_neg plain, if_neg plain, alike notInline plain]

theorem joinedSources_congr {logicalBound : Nat} {extents : List (UInt64 × Bytes)}
    (same : ∀ extent ∈ extents,
      extentSources crates image map sectorsize logicalBound extent.2 =
        extentSources crates other map sectorsize logicalBound extent.2) :
    joinedSources crates image map sectorsize logicalBound extents =
      joinedSources crates other map sectorsize logicalBound extents := by
  induction extents with
  | nil => rfl
  | cons extent extents induction =>
      cases extent with
      | mk offset data =>
          rw [joinedSources, joinedSources, same (offset, data) List.mem_cons_self,
            induction fun next member => same next (List.mem_cons_of_mem _ member)]

theorem fileSources_congr (sameLength : image.length = other.length)
    (alike : DecodesAlike crates leaf image other map sectorsize ino) :
    fileSources crates leaf image map sectorsize ino =
      fileSources crates leaf other map sectorsize ino := by
  rw [fileSources, fileSources, sameLength]
  apply joinedSources_congr
  intro extent member
  exact extentSources_congr sameLength
    (alike extent ((List.perm_insertionSort _ _).mem_iff.mp member))

/-- Both images yield the same contents when their extents are readable alike and
the same shows at every position. -/
theorem sameContent_iff (sameLength : image.length = other.length)
    (small : image.length < usizeMax) :
    (∀ content, readFileFromLeaf crates leaf image map sectorsize ino = .ok content ↔
        readFileFromLeaf crates leaf other map sectorsize ino = .ok content) ↔
      ∀ size, inodeSize leaf ino = some size →
        size.toNat ≤ max image.length logicalAllocFloor →
        ((fileSources crates leaf image map sectorsize ino).isSome ↔
          (fileSources crates leaf other map sectorsize ino).isSome) ∧
        ∀ sources otherSources,
          fileSources crates leaf image map sectorsize ino = some sources →
          fileSources crates leaf other map sectorsize ino = some otherSources →
          ∀ position < size.toNat, (sourceAt sources position).byte image =
            (sourceAt otherSources position).byte other := by
  have otherSmall : other.length < usizeMax := sameLength ▸ small
  constructor
  · intro same size known fits
    have otherFits : size.toNat ≤ max other.length logicalAllocFloor := sameLength ▸ fits
    rw [← exists_read_iff_isSome small known fits,
      ← exists_read_iff_isSome otherSmall known otherFits]
    refine ⟨exists_congr same, fun sources otherSources sourced otherSourced => ?_⟩
    have again := (same _).mp (readFileFromLeaf_of_sources small known fits sourced)
    rw [readFileFromLeaf_of_sources otherSmall known otherFits otherSourced,
      Except.ok.injEq] at again
    exact shownBytes_eq_iff.mp again.symm
  · intro shown content
    constructor
    · intro read
      rcases (readFileFromLeaf_eq_ok_iff_sources small).mp read with
        ⟨size, sources, known, fits, sourced, rfl⟩
      rcases shown size known fits with ⟨readable, same⟩
      rcases Option.isSome_iff_exists.mp (readable.mp (by rw [sourced]; rfl)) with
        ⟨otherSources, otherSourced⟩
      rw [shownBytes_eq_iff.mpr (same sources otherSources sourced otherSourced)]
      exact readFileFromLeaf_of_sources otherSmall known (sameLength ▸ fits) otherSourced
    · intro read
      rcases (readFileFromLeaf_eq_ok_iff_sources otherSmall).mp read with
        ⟨size, otherSources, known, otherFits, otherSourced, rfl⟩
      have fits : size.toNat ≤ max image.length logicalAllocFloor := sameLength ▸ otherFits
      rcases shown size known fits with ⟨readable, same⟩
      rcases Option.isSome_iff_exists.mp (readable.mpr (by rw [otherSourced]; rfl)) with
        ⟨sources, sourced⟩
      rw [← shownBytes_eq_iff.mpr (same sources otherSources sourced otherSourced)]
      exact readFileFromLeaf_of_sources small known fits sourced

theorem zerosShown_iff (small : image.length < usizeMax) :
    (∀ content, readFileFromLeaf crates leaf image map sectorsize ino = .ok content →
        ∀ position < content.length, InPreallocFile (extentItems leaf ino) position →
          content[position]? = some 0) ↔
      ∀ size sources, inodeSize leaf ino = some size →
        size.toNat ≤ max image.length logicalAllocFloor →
        fileSources crates leaf image map sectorsize ino = some sources →
        ∀ position < size.toNat, InPreallocFile (extentItems leaf ino) position →
          (sourceAt sources position).byte image = 0 := by
  constructor
  · intro zeros size sources known fits sourced position visible inside
    have zero := zeros _ (readFileFromLeaf_of_sources small known fits sourced) position
      (by rwa [shownBytes, length_tabulate]) inside
    rwa [shownBytes, getElem?_tabulate, if_pos visible, Option.some.injEq] at zero
  · intro zeros content read position visible inside
    rcases (readFileFromLeaf_eq_ok_iff_sources small).mp read with
      ⟨size, sources, known, fits, sourced, rfl⟩
    rw [shownBytes, length_tabulate] at visible
    rw [shownBytes, getElem?_tabulate, if_pos visible,
      zeros size sources known fits sourced position visible inside]

theorem preallocHidden_iff_contents :
    PreallocHidden crates leaf image other map sectorsize ino ↔
      (∀ content, readFileFromLeaf crates leaf image map sectorsize ino = .ok content ↔
        readFileFromLeaf crates leaf other map sectorsize ino = .ok content) ∧
      ∀ content, readFileFromLeaf crates leaf image map sectorsize ino = .ok content →
        ∀ position < content.length, InPreallocFile (extentItems leaf ino) position →
          content[position]? = some 0 := by
  constructor
  · intro hidden
    exact ⟨fun content => ⟨fun read => (hidden content (.inl read)).2.1,
      fun read => (hidden content (.inr read)).1⟩,
      fun content read => (hidden content (.inl read)).2.2⟩
  · intro parts content read
    have first := read.elim id (parts.1 content).mpr
    exact ⟨first, (parts.1 content).mp first, parts.2 content first⟩

theorem preallocHidden_iff_shown (sameLength : image.length = other.length)
    (small : image.length < usizeMax) :
    PreallocHidden crates leaf image other map sectorsize ino ↔
      ∀ size, inodeSize leaf ino = some size →
        size.toNat ≤ max image.length logicalAllocFloor →
        ((fileSources crates leaf image map sectorsize ino).isSome ↔
          (fileSources crates leaf other map sectorsize ino).isSome) ∧
        ∀ sources otherSources,
          fileSources crates leaf image map sectorsize ino = some sources →
          fileSources crates leaf other map sectorsize ino = some otherSources →
          ∀ position < size.toNat,
            (sourceAt sources position).byte image =
              (sourceAt otherSources position).byte other ∧
            (InPreallocFile (extentItems leaf ino) position →
              (sourceAt sources position).byte image = 0) := by
  rw [preallocHidden_iff_contents, sameContent_iff sameLength small, zerosShown_iff small]
  constructor
  · intro parts size known fits
    refine ⟨(parts.1 size known fits).1,
      fun sources otherSources sourced otherSourced position visible => ⟨?_, ?_⟩⟩
    · exact (parts.1 size known fits).2 sources otherSources sourced otherSourced position
        visible
    · exact parts.2 size sources known fits sourced position visible
  · intro shown
    refine ⟨fun size known fits => ?_,
      fun size sources known fits sourced position visible => ?_⟩
    · rcases shown size known fits with ⟨readable, same⟩
      exact ⟨readable, fun sources otherSources sourced otherSourced position visible =>
        (same sources otherSources sourced otherSourced position visible).1⟩
    · rcases shown size known fits with ⟨readable, same⟩
      rcases Option.isSome_iff_exists.mp (readable.mp (by rw [sourced]; rfl)) with
        ⟨otherSources, otherSourced⟩
      exact (same sources otherSources sourced otherSourced position visible).2

/-- A source that lies outside the preallocated disk ranges, or shows the same
there, shows the same in both images. -/
theorem byte_eq_of_sameStaleByte
    (confined : ∀ offset, image[offset]? ≠ other[offset]? →
      InPreallocDisk map (extentItems leaf ino) offset)
    {source : ByteSource} (stale : SameStaleByte leaf image other map ino source) :
    source.byte image = source.byte other := by
  cases source with
  | zero => rfl
  | decoded byte => rfl
  | disk offset =>
      by_cases inside : InPreallocDisk map (extentItems leaf ino) offset
      · exact stale offset rfl inside
      · apply u8At_congr
        by_contra differ
        exact inside (confined offset differ)

theorem sameStaleByte_of_byte_eq {source : ByteSource}
    (equal : source.byte image = source.byte other) :
    SameStaleByte leaf image other map ino source := by
  intro offset taken _
  subst taken
  exact equal

/-- Equally long images that differ in preallocated disk ranges only yield the
same content, with zeros where an extent is preallocated, exactly when what shows
of these ranges is harmless. -/
theorem preallocHidden_iff (sameLength : image.length = other.length)
    (small : image.length < usizeMax)
    (confined : ∀ offset, image[offset]? ≠ other[offset]? →
      InPreallocDisk map (extentItems leaf ino) offset) :
    (PreallocHidden crates leaf image other map sectorsize ino ↔
        StaleBytesHarmless crates leaf image other map sectorsize ino) ∧
      (DecodesAlike crates leaf image other map sectorsize ino →
        (PreallocHidden crates leaf image other map sectorsize ino ↔
          PlainStaleBytesHarmless crates leaf image other map sectorsize ino)) := by
  rw [preallocHidden_iff_shown sameLength small]
  constructor
  · constructor
    · intro shown size known fits
      refine ⟨(shown size known fits).1,
        fun sources otherSources sourced otherSourced position visible => ?_⟩
      rcases (shown size known fits).2 sources otherSources sourced otherSourced position
        visible with ⟨equal, zeros⟩
      refine ⟨fun same => ?_, fun _ => equal, zeros⟩
      rw [← same] at equal
      exact sameStaleByte_of_byte_eq equal
    · intro harmless size known fits
      refine ⟨(harmless size known fits).1,
        fun sources otherSources sourced otherSourced position visible => ?_⟩
      rcases (harmless size known fits).2 sources otherSources sourced otherSourced
        position visible with ⟨stale, differs, zeros⟩
      refine ⟨?_, zeros⟩
      by_cases same : sourceAt sources position = sourceAt otherSources position
      · rw [← same]
        exact byte_eq_of_sameStaleByte confined (stale same)
      · exact differs same
  · intro alike
    have same := fileSources_congr sameLength alike
    constructor
    · intro shown size sources known fits sourced position visible
      have equal := (shown size known fits).2 sources sources sourced (same ▸ sourced)
        position visible
      exact ⟨sameStaleByte_of_byte_eq equal.1, equal.2⟩
    · intro harmless size known fits
      refine ⟨by rw [same], fun sources otherSources sourced otherSourced position
        visible => ?_⟩
      rw [← same, sourced, Option.some.injEq] at otherSourced
      subst otherSourced
      have parts := harmless size sources known fits sourced position visible
      exact ⟨byte_eq_of_sameStaleByte confined parts.1, parts.2⟩

end Hidden

/-! A preallocated extent of four bytes over what another file left there. -/

def preallocItem : Bytes :=
  overlay 53 0 [(ExtOff.type, [extentTypePrealloc]), (ExtOff.diskBytenr, encodeLE 8 4096),
    (diskNumBytes, encodeLE 8 4), (ExtOff.numBytes, encodeLE 8 4)]

def preallocLeaf : Node :=
  Node.ofBlock Crates.withoutCodecs <| Writer.leaf 512
    ⟨List.Vector.replicate 16 0, 0, 0, fsTreeObjectid⟩
    [(⟨257, inodeItemKey, 0⟩, overlay 160 0 [(inodeSizeOffset, encodeLE 8 4)]),
      (⟨257, extentDataKey, 0⟩, preallocItem)]

def staleImage : Bytes := [1, 2, 3, 4]

def wipedImage : Bytes := [0, 0, 0, 0]

theorem confined_preallocLeaf (offset : Nat)
    (differ : staleImage[offset]? ≠ wipedImage[offset]?) :
    InPreallocDisk storedMap (extentItems preallocLeaf 257) offset := by
  have inside : offset < 4 := by
    by_contra beyond
    have staleEnd : staleImage.length ≤ offset := Nat.le_of_not_lt beyond
    have wipedEnd : wipedImage.length ≤ offset := Nat.le_of_not_lt beyond
    rw [List.getElem?_eq_none staleEnd, List.getElem?_eq_none wipedEnd] at differ
    exact differ rfl
  have items : extentItems preallocLeaf 257 = [(0, preallocItem)] := by decide +kernel
  have span : (leU64 preallocItem diskNumBytes).toNat = 4 := by decide +kernel
  rw [items]
  refine ⟨(0, preallocItem), List.mem_singleton_self _, by decide +kernel,
    by decide +kernel, 1, 0, by decide +kernel, Nat.zero_le _, ?_⟩
  rw [span]
  exact inside

/-- The other file's bytes are read as this file's. -/
theorem stale_bytes_read :
    readFileFromLeaf Crates.withoutCodecs preallocLeaf staleImage storedMap 4096 257 =
        .ok [1, 2, 3, 4] ∧
      readFileFromLeaf Crates.withoutCodecs preallocLeaf wipedImage storedMap 4096 257 =
        .ok [0, 0, 0, 0] ∧
      staleImage.length = wipedImage.length ∧
      (∀ offset, staleImage[offset]? ≠ wipedImage[offset]? →
        InPreallocDisk storedMap (extentItems preallocLeaf 257) offset) ∧
      ¬PreallocHidden Crates.withoutCodecs preallocLeaf staleImage wipedImage storedMap
        4096 257 := by
  have stale : readFileFromLeaf Crates.withoutCodecs preallocLeaf staleImage storedMap
      4096 257 = .ok [1, 2, 3, 4] := by decide +kernel
  have wiped : readFileFromLeaf Crates.withoutCodecs preallocLeaf wipedImage storedMap
      4096 257 = .ok [0, 0, 0, 0] := by decide +kernel
  refine ⟨stale, wiped, rfl, confined_preallocLeaf, fun hidden => ?_⟩
  have again := (hidden _ (.inl stale)).2.1
  rw [wiped] at again
  exact absurd again (by decide)

theorem preallocHidden_iff_in_preallocLeaf :
    (PreallocHidden Crates.withoutCodecs preallocLeaf staleImage wipedImage storedMap
          4096 257 ↔
        StaleBytesHarmless Crates.withoutCodecs preallocLeaf staleImage wipedImage
          storedMap 4096 257) ∧
      (DecodesAlike Crates.withoutCodecs preallocLeaf staleImage wipedImage storedMap
          4096 257 →
        (PreallocHidden Crates.withoutCodecs preallocLeaf staleImage wipedImage storedMap
            4096 257 ↔
          PlainStaleBytesHarmless Crates.withoutCodecs preallocLeaf staleImage wipedImage
            storedMap 4096 257)) :=
  preallocHidden_iff rfl (by decide) confined_preallocLeaf

end BtrfsForensic
