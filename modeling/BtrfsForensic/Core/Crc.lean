import BtrfsForensic.Core.Bytes

namespace BtrfsForensic

/-! Checksum verification, and the third-party crates that the reader calls.

The crates are a parameter: nothing about them is assumed beyond what their
types say. A decoder is a function of the bytes handed to it. -/

/-- What `lzo::decompress_into` leaves behind in an output buffer of `size`
bytes: how many it produced, and the buffer. -/
structure LzoOutput (size : Nat) where
  count : Nat
  buffer : Bytes
  count_le : count ≤ size
  buffer_length : buffer.length = size

structure Crates where
  /-- `crc::Crc::<u32>::new(&crc::CRC_32_ISCSI).checksum(..)`. -/
  crc32c : Bytes → UInt32
  /-- `flate2::read::ZlibDecoder::new(src).take(cap).read_to_end(&mut out)`:
  the bytes read, or those read before the failure. -/
  zlib : Bytes → Nat → Except Bytes Bytes
  /-- `ruzstd::decoding::StreamingDecoder::new(src)`: whether the frame header
  is accepted. -/
  zstdHeader : Bytes → Bool
  /-- The same reads from a `StreamingDecoder`. -/
  zstd : Bytes → Nat → Except Bytes Bytes
  /-- `lzo::decompress_into(segment, &mut buffer)` for a buffer of the given
  size, or `none` for an error. -/
  lzo : Bytes → (size : Nat) → Option (LzoOutput size)

abbrev btrfsCsumSize : Nat := 32

/-- The on-disk checksum-type codes. -/
inductive CsumType
  | crc32c
  | xxhash64
  | sha256
  | blake2
  | unknown (code : UInt16)
  deriving DecidableEq

def CsumType.fromCode (code : UInt16) : CsumType :=
  match code with
  | 0 => .crc32c
  | 1 => .xxhash64
  | 2 => .sha256
  | 3 => .blake2
  | other => .unknown other

/-- The stored digest is the first four bytes; the covered range starts after
the 32-byte checksum field and ends at `coveredLen`. -/
def verifySuperblockCrc32c (crates : Crates) (block : Bytes) (coveredLen : Nat) :
    Bool :=
  match getRange block 0 4 with
  | none => false
  | some stored =>
      if coveredLen ≤ btrfsCsumSize then
        false
      else
        match getRange block btrfsCsumSize coveredLen with
        | none => false
        | some covered => leBytes32 (crates.crc32c covered) == stored

/-- `none` defers a checksum type that has no verifier. -/
def superblockCrcStatus (crates : Crates) (csumType : CsumType) (block : Bytes)
    (coveredLen : Nat) : Option Bool :=
  match csumType with
  | .crc32c => some (verifySuperblockCrc32c crates block coveredLen)
  | _ => none

theorem superblockCrcStatus_of_ne {crates : Crates} {csumType : CsumType}
    (deferred : csumType ≠ .crc32c) (block : Bytes) (coveredLen : Nat) :
    superblockCrcStatus crates csumType block coveredLen = none := by
  cases csumType <;> first | rfl | exact absurd rfl deferred

end BtrfsForensic
