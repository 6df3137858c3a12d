import BtrfsForensic.Foundation.Slice
import BtrfsForensic.Foundation.Word
import Mathlib.Data.Vector.Defs

namespace BtrfsForensic

/-! Bounds-checked little-endian readers and the reader's error type. btrfs is
little-endian on disk throughout; a field whose bytes are not all present
reads as zero, so no read can fail. -/

abbrev Bytes := List UInt8

/-! ## Readers -/

def leU16 (data : Bytes) (off : Nat) : UInt16 :=
  match getRange data off (off + 2) with
  | some bytes => UInt16.ofNat (decodeLE bytes)
  | none => 0

def leU32 (data : Bytes) (off : Nat) : UInt32 :=
  match getRange data off (off + 4) with
  | some bytes => UInt32.ofNat (decodeLE bytes)
  | none => 0

def leU64 (data : Bytes) (off : Nat) : UInt64 :=
  match getRange data off (off + 8) with
  | some bytes => UInt64.ofNat (decodeLE bytes)
  | none => 0

def u8At (data : Bytes) (off : Nat) : UInt8 := (data[off]?).getD 0

/-- A `[u8; N]` field copied byte by byte out of a block. -/
def u8Array (data : Bytes) (off width : Nat) : List.Vector UInt8 width :=
  ⟨tabulate width fun index => u8At data (off + index), by simp⟩

/-- The bytes `u32::to_le_bytes` yields. -/
def leBytes32 (value : UInt32) : Bytes := encodeLE 4 value.toNat

theorem leBytes32_inj {left right : UInt32} :
    leBytes32 left = leBytes32 right ↔ left = right := by
  refine ⟨fun equal => ?_, fun equal => congrArg leBytes32 equal⟩
  have numbers := congrArg decodeLE equal
  rw [leBytes32, leBytes32, decodeLE_encodeLE, decodeLE_encodeLE,
    show 256 ^ 4 = 2 ^ 32 by norm_num, Nat.mod_eq_of_lt left.toNat_lt,
    Nat.mod_eq_of_lt right.toNat_lt] at numbers
  exact UInt32.toNat_inj.mp numbers

/-! A reader looks at the bytes of its own field only. -/

theorem u8At_congr {data other : Bytes} {off : Nat}
    (agree : data[off]? = other[off]?) : u8At data off = u8At other off := by
  rw [u8At, u8At, agree]

theorem u8Array_eq_iff {data other : Bytes} {off width : Nat}
    (inside : off + width ≤ data.length)
    (otherInside : off + width ≤ other.length) :
    u8Array data off width = u8Array other off width ↔
      AgreeOn data other off (off + width) := by
  constructor
  · intro equal index lower upper
    have bytesEqual := congrArg (fun array => array.val[index - off]?) equal
    simp only [u8Array, getElem?_tabulate, u8At] at bytesEqual
    rw [if_pos (by omega), if_pos (by omega),
      show off + (index - off) = index by omega,
      List.getElem?_eq_getElem (by omega : index < data.length),
      List.getElem?_eq_getElem (by omega : index < other.length)] at bytesEqual
    rw [List.getElem?_eq_getElem (by omega : index < data.length),
      List.getElem?_eq_getElem (by omega : index < other.length)]
    simpa using bytesEqual
  · intro agree
    apply Subtype.ext
    apply List.map_congr_left
    intro index member
    have bound := List.mem_range.mp member
    exact u8At_congr (agree _ (by omega) (by omega))

theorem exists_field_iff {data other : Bytes} {off width : Nat}
    (inside : off + width ≤ data.length) (otherInside : off + width ≤ other.length) :
    ∃ bytes otherBytes, getRange data off (off + width) = some bytes ∧
      getRange other off (off + width) = some otherBytes ∧
      decodeLE bytes < 256 ^ width ∧ decodeLE otherBytes < 256 ^ width ∧
      (decodeLE bytes = decodeLE otherBytes ↔ AgreeOn data other off (off + width)) := by
  rcases Option.isSome_iff_exists.mp
      (getRange_isSome_iff.mpr ⟨Nat.le_add_right off width, inside⟩) with
    ⟨bytes, found⟩
  rcases Option.isSome_iff_exists.mp
      (getRange_isSome_iff.mpr ⟨Nat.le_add_right off width, otherInside⟩) with
    ⟨otherBytes, otherFound⟩
  have bytesLength : bytes.length = width := by
    rw [length_of_getRange found, Nat.add_sub_cancel_left]
  have otherLength : otherBytes.length = width := by
    rw [length_of_getRange otherFound, Nat.add_sub_cancel_left]
  have bound := decodeLE_lt bytes
  have otherBound := decodeLE_lt otherBytes
  rw [bytesLength] at bound
  rw [otherLength] at otherBound
  refine ⟨bytes, otherBytes, found, otherFound, bound, otherBound, ?_⟩
  rw [← getRange_inj_iff found otherFound]
  exact ⟨decodeLE_injective (bytesLength.trans otherLength.symm), congrArg decodeLE⟩

theorem leU16_eq_iff {data other : Bytes} {off : Nat}
    (inside : off + 2 ≤ data.length) (otherInside : off + 2 ≤ other.length) :
    leU16 data off = leU16 other off ↔ AgreeOn data other off (off + 2) := by
  rcases exists_field_iff inside otherInside with
    ⟨bytes, otherBytes, found, otherFound, bound, otherBound, same⟩
  rw [leU16, leU16, found, otherFound, ← same, ← UInt16.toNat_inj,
    UInt16.toNat_ofNat_of_lt' bound, UInt16.toNat_ofNat_of_lt' otherBound]

theorem leU64_eq_iff {data other : Bytes} {off : Nat}
    (inside : off + 8 ≤ data.length) (otherInside : off + 8 ≤ other.length) :
    leU64 data off = leU64 other off ↔ AgreeOn data other off (off + 8) := by
  rcases exists_field_iff inside otherInside with
    ⟨bytes, otherBytes, found, otherFound, bound, otherBound, same⟩
  rw [leU64, leU64, found, otherFound, ← same, ← UInt64.toNat_inj,
    UInt64.toNat_ofNat_of_lt' bound, UInt64.toNat_ofNat_of_lt' otherBound]

/-- In an image that memory can hold a range that saturates is refused. -/
theorem getRange_saturating {data block : Bytes} {start size : Nat}
    (bounded : data.length < usizeMax) :
    getRange data start (saturatingAdd start size) = some block ↔
      getRange data start (start + size) = some block := by
  by_cases fits : start + size ≤ usizeMax
  · rw [saturatingAdd_eq fits]
  · have full : saturatingAdd start size = usizeMax := by
      rw [saturatingAdd]
      omega
    constructor
    · intro found
      have inside := stop_le_of_getRange found
      omega
    · intro found
      have inside := stop_le_of_getRange found
      omega

theorem getRange_saturating_window {data block : Bytes} {base offset size : Nat}
    (bounded : data.length < usizeMax) :
    getRange data (saturatingAdd base offset)
        (saturatingAdd (saturatingAdd base offset) size) = some block ↔
      getRange data (base + offset) (base + offset + size) = some block := by
  rw [getRange_saturating bounded]
  by_cases fits : base + offset ≤ usizeMax
  · rw [saturatingAdd_eq fits]
  · have full : saturatingAdd base offset = usizeMax := by
      rw [saturatingAdd]
      omega
    constructor
    · intro found
      have inside := stop_le_of_getRange found
      omega
    · intro found
      have inside := stop_le_of_getRange found
      omega

/-! A field that ends within a prefix can be read from the prefix. -/

section Prefix

variable {data : Bytes} {off length : Nat}

theorem leU16_take (inside : off + 2 ≤ length) :
    leU16 (data.take length) off = leU16 data off := by
  rw [leU16, leU16, getRange_take inside]

theorem leU32_take (inside : off + 4 ≤ length) :
    leU32 (data.take length) off = leU32 data off := by
  rw [leU32, leU32, getRange_take inside]

theorem leU64_take (inside : off + 8 ≤ length) :
    leU64 (data.take length) off = leU64 data off := by
  rw [leU64, leU64, getRange_take inside]

theorem u8At_take (inside : off < length) :
    u8At (data.take length) off = u8At data off := by
  rw [u8At, u8At, List.getElem?_take_of_lt inside]

theorem u8Array_take {width : Nat} (inside : off + width ≤ length) :
    u8Array (data.take length) off width = u8Array data off width := by
  apply Subtype.ext
  apply List.map_congr_left
  intro index member
  have bound := List.mem_range.mp member
  exact u8At_take (by omega)

end Prefix

/-! ## Lossy UTF-8 -/

namespace Utf8

def replacement : Char := '\uFFFD'

/-- A continuation byte, `10xxxxxx`. -/
def continues (byte : UInt8) : Bool := byte &&& 0xC0 == 0x80

/-- The second bytes a three-byte sequence may have after its lead byte. -/
def secondOfThree (lead next : UInt8) : Bool :=
  if lead == 0xE0 then 0xA0 ≤ next && next ≤ 0xBF
  else if lead == 0xED then 0x80 ≤ next && next ≤ 0x9F
  else 0x80 ≤ next && next ≤ 0xBF

/-- The second bytes a four-byte sequence may have after its lead byte. -/
def secondOfFour (lead next : UInt8) : Bool :=
  if lead == 0xF0 then 0x90 ≤ next && next ≤ 0xBF
  else if lead == 0xF4 then 0x80 ≤ next && next ≤ 0x8F
  else 0x80 ≤ next && next ≤ 0xBF

/-- The scalar value of the low six bits of each continuation byte after the
payload bits of the lead byte. -/
def scalar (leadBits : Nat) (rest : Bytes) : Char :=
  Char.ofNat (rest.foldl (fun value byte => value * 64 + byte.toNat % 64) leadBits)

/-- The characters of `String::from_utf8_lossy`: every maximal ill-formed
prefix becomes one replacement character. -/
def lossyChars : Bytes → List Char
  | [] => []
  | lead :: rest =>
      if lead < 0x80 then
        Char.ofNat lead.toNat :: lossyChars rest
      else if 0xC2 ≤ lead ∧ lead ≤ 0xDF then
        match rest with
        | second :: after =>
            if continues second then
              scalar (lead.toNat % 32) [second] :: lossyChars after
            else replacement :: lossyChars (second :: after)
        | [] => [replacement]
      else if 0xE0 ≤ lead ∧ lead ≤ 0xEF then
        match rest with
        | second :: after =>
            if secondOfThree lead second then
              match after with
              | third :: after =>
                  if continues third then
                    scalar (lead.toNat % 16) [second, third] :: lossyChars after
                  else replacement :: lossyChars (third :: after)
              | [] => [replacement]
            else replacement :: lossyChars (second :: after)
        | [] => [replacement]
      else if 0xF0 ≤ lead ∧ lead ≤ 0xF4 then
        match rest with
        | second :: after =>
            if secondOfFour lead second then
              match after with
              | third :: after =>
                  if continues third then
                    match after with
                    | fourth :: after =>
                        if continues fourth then
                          scalar (lead.toNat % 8) [second, third, fourth] ::
                            lossyChars after
                        else replacement :: lossyChars (fourth :: after)
                    | [] => [replacement]
                  else replacement :: lossyChars (third :: after)
              | [] => [replacement]
            else replacement :: lossyChars (second :: after)
        | [] => [replacement]
      else replacement :: lossyChars rest

end Utf8

/-- `String::from_utf8_lossy`. -/
def fromUtf8Lossy (bytes : Bytes) : String := String.ofList (Utf8.lossyChars bytes)

example : Utf8.lossyChars [0x61, 0xE2, 0x82, 0xAC, 0xE2, 0x82, 0x62] =
    ['a', '€', Utf8.replacement, 'b'] := by decide

/-! ## Errors -/

/-- The errors surfaced while parsing. Every variant names the offending
value. -/
inductive BtrfsError
  | truncated (structureName : String) (need got : Nat)
  | badMagic (bytes : List.Vector UInt8 8)
  | allocationBomb (field : String) (claimed bound : Nat)
  deriving DecidableEq

end BtrfsForensic
