import BtrfsForensic.Core.Extent
import BtrfsForensic.Core.Writer

namespace BtrfsForensic

/-! The window of a regular extent that a file refers to. An uncompressed
window is refused unless it lies in the image; a compressed one is cut to what
the stream decodes to. -/

/-- What a compressed extent decodes to, read from its translated start to the
end of the image. -/
def decodedStream (crates : Crates) (image : Bytes) (map : ChunkMap)
    (sectorsize : UInt32) (compression : Compression)
    (diskBytenr ramBytes : UInt64) : Option Bytes :=
  match map.logicalToPhysical diskBytenr with
  | none => none
  | some (_, phys) =>
      if phys.toNat ≤ image.length then
        (decompressExtent crates compression (image.drop phys.toNat) ramBytes
          sectorsize).toOption
      else
        none

theorem toOption_eq_some_iff {ε : Type u} {α : Type v} {result : Except ε α}
    {value : α} : result.toOption = some value ↔ result = .ok value := by
  cases result with
  | error error => simp [Except.toOption]
  | ok other => simp [Except.toOption]

/-! ## Decoded lengths -/

section Decoded

variable {crates : Crates} {src out : Bytes} {cap : Nat} {sectorsize : UInt32}

theorem length_decompressZlib_le (decoded : decompressZlib crates src cap = .ok out) :
    out.length ≤ cap := by
  rw [decompressZlib] at decoded
  split at decoded
  · cases decoded
    exact List.length_take_le _ _
  · cases decoded

theorem length_decompressZstd_le (decoded : decompressZstd crates src cap = .ok out) :
    out.length ≤ cap := by
  rw [decompressZstd] at decoded
  split at decoded
  · split at decoded
    · cases decoded
      exact List.length_take_le _ _
    · cases decoded
  · cases decoded

theorem length_decompressLzoBtrfs_le
    (decoded : decompressLzoBtrfs crates src cap sectorsize = .ok out) :
    out.length ≤ cap := by
  rw [decompressLzoBtrfs] at decoded
  rcases bind_eq_ok_iff.mp decoded with ⟨whole, _, decoded⟩
  cases decoded
  exact List.length_take_le _ _

theorem length_decompressExtent_le {algo : Compression} {ramBytes : UInt64}
    (decoded : decompressExtent crates algo src ramBytes sectorsize = .ok out) :
    out.length ≤ ramBytes.toNat := by
  rw [decompressExtent] at decoded
  split at decoded
  case isTrue =>
    cases decoded
    rw [List.length_take]
    omega
  case isFalse compressed =>
    rcases guardAlloc_bind_eq_ok_iff.mp decoded with ⟨_, decoded⟩
    cases algo with
    | none => exact absurd rfl compressed
    | zlib => exact length_decompressZlib_le decoded
    | zstd => exact length_decompressZstd_le decoded
    | lzo => exact length_decompressLzoBtrfs_le decoded
    | other byte => cases decoded

end Decoded

/-! ## Successful reads -/

section Window

variable {crates : Crates} {image : Bytes} {map : ChunkMap} {sectorsize : UInt32}
  {compression : Compression} {diskBytenr extOffset numBytes ramBytes : UInt64}
  {content whole : Bytes}

/-- The window of a decoded stream, cut to the stream: it starts at its start,
and saturates only behind it. -/
theorem getRange_clamped {start count : Nat} (small : whole.length ≤ usizeMax) :
    (getRange whole start (min (saturatingAdd start count) whole.length)).getD [] =
      (whole.drop start).take count := by
  by_cases inside : start ≤ whole.length
  · have ordered : start ≤ min (saturatingAdd start count) whole.length := by
      rw [saturatingAdd]
      omega
    rw [getRange, if_pos ⟨ordered, Nat.min_le_right _ _⟩, Option.getD_some,
      saturatingAdd, List.take_eq_take_iff, List.length_drop]
    omega
  · rw [getRange, if_neg (by omega), Option.getD_none,
      List.drop_eq_nil_of_le (by omega), List.take_nil]

theorem readRegularExtent_plain_iff (small : image.length < usizeMax)
    (plain : compression = .none) :
    readRegularExtent crates image map sectorsize compression diskBytenr extOffset
        numBytes ramBytes = .ok content ↔
      numBytes.toNat ≤ image.length ∧
        ∃ devid phys, map.logicalToPhysical diskBytenr = some (devid, phys) ∧
          getRange image (phys.toNat + extOffset.toNat)
            (phys.toNat + extOffset.toNat + numBytes.toNat) = some content := by
  subst plain
  simp only [readRegularExtent_none_eq_ok_iff, getRange_saturating_window small]

theorem readRegularExtent_compressed_iff (compressed : compression ≠ .none) :
    readRegularExtent crates image map sectorsize compression diskBytenr extOffset
        numBytes ramBytes = .ok content ↔
      numBytes.toNat ≤ image.length ∧
        ∃ whole, decodedStream crates image map sectorsize compression diskBytenr
            ramBytes = some whole ∧
          content = (whole.drop extOffset.toNat).take numBytes.toNat := by
  rw [readRegularExtent, guardAlloc_bind_eq_ok_iff]
  apply and_congr_right
  intro _
  rw [decodedStream]
  cases map.logicalToPhysical diskBytenr with
  | none => simp
  | some target =>
      cases target with
      | mk devid phys =>
          dsimp only
          rw [if_neg compressed, getRange_to_end]
          by_cases inside : phys.toNat ≤ image.length
          · rw [if_pos inside, if_pos inside]
            dsimp only
            simp only [toOption_eq_some_iff]
            cases decoded : decompressExtent crates compression
                (image.drop phys.toNat) ramBytes sectorsize with
            | error error => simp [bind, Except.bind]
            | ok whole =>
                have fits : whole.length ≤ usizeMax := by
                  have short := length_decompressExtent_le decoded
                  have bound := ramBytes.toNat_lt
                  rw [usizeMax]
                  omega
                simp only [bind, Except.bind, Except.ok.injEq, exists_eq_left',
                  getRange_clamped fits]
                exact eq_comm
          · rw [if_neg inside, if_neg inside]
            simp

/-- As many bytes as were asked for, and an error where a compressed stream ends
before the window does. -/
def ReadsWholeWindow (crates : Crates) (image : Bytes) (map : ChunkMap)
    (sectorsize : UInt32) (compression : Compression)
    (diskBytenr extOffset numBytes ramBytes : UInt64) : Prop :=
  (∀ content, readRegularExtent crates image map sectorsize compression diskBytenr
      extOffset numBytes ramBytes = .ok content → content.length = numBytes.toNat) ∧
    (compression ≠ .none → ∀ whole, decodedStream crates image map sectorsize
        compression diskBytenr ramBytes = some whole →
      whole.length < extOffset.toNat + numBytes.toNat →
      ∃ error, readRegularExtent crates image map sectorsize compression diskBytenr
        extOffset numBytes ramBytes = .error error)

/-- A compressed window that is not longer than the image ends within its
stream. -/
def StreamCoversWindow (crates : Crates) (image : Bytes) (map : ChunkMap)
    (sectorsize : UInt32) (compression : Compression)
    (diskBytenr extOffset numBytes ramBytes : UInt64) : Prop :=
  compression ≠ .none → numBytes.toNat ≤ image.length →
    ∀ whole, decodedStream crates image map sectorsize compression diskBytenr
        ramBytes = some whole →
      extOffset.toNat + numBytes.toNat ≤ whole.length

theorem length_of_readRegularExtent_plain (small : image.length < usizeMax)
    (plain : compression = .none)
    (read : readRegularExtent crates image map sectorsize compression diskBytenr
      extOffset numBytes ramBytes = .ok content) :
    content.length = numBytes.toNat := by
  rcases (readRegularExtent_plain_iff small plain).mp read with ⟨_, _, _, _, found⟩
  rw [length_of_getRange found]
  omega

theorem readsWholeWindow_iff (small : image.length < usizeMax) :
    ReadsWholeWindow crates image map sectorsize compression diskBytenr extOffset
        numBytes ramBytes ↔
      StreamCoversWindow crates image map sectorsize compression diskBytenr extOffset
        numBytes ramBytes := by
  constructor
  · intro reads compressed fits whole decoded
    by_contra short
    rcases reads.2 compressed whole decoded (by omega) with ⟨error, failed⟩
    have read : readRegularExtent crates image map sectorsize compression diskBytenr
        extOffset numBytes ramBytes =
          .ok ((whole.drop extOffset.toNat).take numBytes.toNat) :=
      (readRegularExtent_compressed_iff compressed).mpr ⟨fits, whole, decoded, rfl⟩
    rw [failed] at read
    cases read
  · intro covers
    refine ⟨fun content read => ?_, fun compressed whole decoded short => ?_⟩
    · by_cases plain : compression = .none
      · exact length_of_readRegularExtent_plain small plain read
      · rcases (readRegularExtent_compressed_iff plain).mp read with
          ⟨fits, whole, decoded, rfl⟩
        have reaches := covers plain fits whole decoded
        rw [List.length_take, List.length_drop]
        omega
    · cases read : readRegularExtent crates image map sectorsize compression
          diskBytenr extOffset numBytes ramBytes with
      | error error => exact ⟨error, rfl⟩
      | ok content =>
          have fits := ((readRegularExtent_compressed_iff compressed).mp read).1
          have reaches := covers compressed fits whole decoded
          omega

end Window

/-! A zlib stream of two bytes, of which an extent refers to four. -/

/-- A decoder that knows one stored block only. -/
def inflateStored (src : Bytes) (cap : Nat) : Except Bytes Bytes :=
  match src with
  | 0x78 :: 0x01 :: 0x01 :: low :: high :: _ :: _ :: rest =>
      let length := decodeLE [low, high]
      if length + 4 ≤ rest.length then
        .ok ((rest.take length).take cap)
      else
        .error ((rest.take length).take cap)
  | _ => .error []

def Crates.withStoredBlocks : Crates :=
  { Crates.withoutCodecs with zlib := inflateStored }

def storedStream : Bytes :=
  [0x78, 0x01, 0x01, 2, 0, 0xFD, 0xFF, 0x61, 0x62, 0x01, 0x26, 0x00, 0xC4]

def storedMap : ChunkMap := ⟨[⟨4096, 4096, [(1, 0)]⟩]⟩

/-- Half of the window is missing, or all of it, and no error says so. -/
theorem short_stream_read :
    readRegularExtent Crates.withStoredBlocks storedStream storedMap 4096 .zlib 4096 0
        4 4 = .ok [0x61, 0x62] ∧
      readRegularExtent Crates.withStoredBlocks storedStream storedMap 4096 .zlib 4096
        2 2 4 = .ok [] ∧
      ¬ReadsWholeWindow Crates.withStoredBlocks storedStream storedMap 4096 .zlib 4096
        0 4 4 := by
  have read : readRegularExtent Crates.withStoredBlocks storedStream storedMap 4096
      .zlib 4096 0 4 4 = .ok [0x61, 0x62] := by decide +kernel
  refine ⟨read, by decide +kernel, fun whole => ?_⟩
  exact absurd (whole.1 _ read) (by decide)

/-- The same stream covers a window of two bytes. -/
theorem readsWholeWindow_iff_in_storedStream :
    ReadsWholeWindow Crates.withStoredBlocks storedStream storedMap 4096 .zlib 4096 0 2
        2 ↔
      StreamCoversWindow Crates.withStoredBlocks storedStream storedMap 4096 .zlib 4096
        0 2 2 :=
  readsWholeWindow_iff (by decide)

end BtrfsForensic
