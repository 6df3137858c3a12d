import Mathlib.Data.Nat.Bitwise

namespace BtrfsForensic.Crc32c

/-! CRC-32/ISCSI, bit by bit: the Castagnoli polynomial, reflected, with
initial value and final complement `0xFFFFFFFF`. -/

/-- The reflected Castagnoli polynomial. -/
def polynomial : Nat := 0x82F63B78

def shift (crc : Nat) : Nat :=
  if crc % 2 = 1 then (crc / 2) ^^^ polynomial else crc / 2

def feed (crc : Nat) (byte : UInt8) : Nat :=
  (List.range 8).foldl (fun crc _ => shift crc) (crc ^^^ byte.toNat)

def checksum (bytes : List UInt8) : UInt32 :=
  UInt32.ofNat (bytes.foldl feed 0xFFFFFFFF ^^^ 0xFFFFFFFF)

/-- The published check value, the digest of the ASCII string `123456789`. -/
example : checksum ((List.range 9).map fun index => UInt8.ofNat (0x31 + index)) =
    0xE3069283 := by decide +kernel

/-! ## Error detection -/

theorem shift_lt {crc : Nat} (bound : crc < 2 ^ 32) : shift crc < 2 ^ 32 := by
  rw [shift]
  split
  · exact Nat.xor_lt_two_pow (by omega) (by decide)
  · omega

theorem shift_injective {crc other : Nat} (bound : crc < 2 ^ 32)
    (otherBound : other < 2 ^ 32) (equal : shift crc = shift other) :
    crc = other := by
  have low {value : Nat} (small : value < 2 ^ 32) :
      (value / 2).testBit 31 = false :=
    Nat.testBit_lt_two_pow (by omega)
  have top : polynomial.testBit 31 = true := by decide
  rw [shift, shift] at equal
  have bits := congrArg (fun value => value.testBit 31) equal
  by_cases odd : crc % 2 = 1 <;> by_cases otherOdd : other % 2 = 1
  · rw [if_pos odd, if_pos otherOdd] at equal
    have halves := Nat.xor_left_injective equal
    omega
  · simp [odd, otherOdd, Nat.testBit_xor, low bound, low otherBound, top] at bits
  · simp [odd, otherOdd, Nat.testBit_xor, low bound, low otherBound, top] at bits
  · rw [if_neg odd, if_neg otherOdd] at equal
    omega

theorem shifts_lt {crc : Nat} (steps : List Nat) (bound : crc < 2 ^ 32) :
    steps.foldl (fun crc _ => shift crc) crc < 2 ^ 32 := by
  induction steps generalizing crc with
  | nil => exact bound
  | cons _ steps induction => exact induction (shift_lt bound)

theorem shifts_injective {crc other : Nat} (steps : List Nat)
    (bound : crc < 2 ^ 32) (otherBound : other < 2 ^ 32)
    (equal : steps.foldl (fun crc _ => shift crc) crc =
      steps.foldl (fun crc _ => shift crc) other) : crc = other := by
  induction steps generalizing crc other with
  | nil => exact equal
  | cons _ steps induction =>
      exact shift_injective bound otherBound
        (induction (shift_lt bound) (shift_lt otherBound) equal)

theorem xor_byte_lt {crc : Nat} (bound : crc < 2 ^ 32) (byte : UInt8) :
    crc ^^^ byte.toNat < 2 ^ 32 :=
  Nat.xor_lt_two_pow bound (Nat.lt_trans byte.toNat_lt (by decide))

theorem feed_lt {crc : Nat} (bound : crc < 2 ^ 32) (byte : UInt8) :
    feed crc byte < 2 ^ 32 :=
  shifts_lt _ (xor_byte_lt bound byte)

theorem foldl_feed_lt {crc : Nat} (bytes : List UInt8) (bound : crc < 2 ^ 32) :
    bytes.foldl feed crc < 2 ^ 32 := by
  induction bytes generalizing crc with
  | nil => exact bound
  | cons byte bytes induction => exact induction (feed_lt bound byte)

theorem foldl_feed_injective {crc other : Nat} (bytes : List UInt8)
    (bound : crc < 2 ^ 32) (otherBound : other < 2 ^ 32)
    (equal : bytes.foldl feed crc = bytes.foldl feed other) : crc = other := by
  induction bytes generalizing crc other with
  | nil => exact equal
  | cons byte bytes induction =>
      have fed : feed crc byte = feed other byte :=
        induction (feed_lt bound byte) (feed_lt otherBound byte) equal
      exact Nat.xor_left_injective
        (shifts_injective _ (xor_byte_lt bound byte) (xor_byte_lt otherBound byte) fed)

theorem checksum_ne_of_byte_ne {byte changed : UInt8} (differ : byte ≠ changed)
    (before after : List UInt8) :
    checksum (before ++ byte :: after) ≠ checksum (before ++ changed :: after) := by
  intro equal
  have start : (0xFFFFFFFF : Nat) < 2 ^ 32 := by decide
  have bound := foldl_feed_lt before start
  have digest (bytes : List UInt8) :
      bytes.foldl feed 0xFFFFFFFF ^^^ 0xFFFFFFFF < 2 ^ 32 :=
    Nat.xor_lt_two_pow (foldl_feed_lt bytes start) start
  have numbers := congrArg UInt32.toNat equal
  rw [checksum, checksum, UInt32.toNat_ofNat_of_lt' (digest _),
    UInt32.toNat_ofNat_of_lt' (digest _)] at numbers
  have states := Nat.xor_left_injective numbers
  rw [List.foldl_append, List.foldl_append, List.foldl_cons, List.foldl_cons]
    at states
  have fed := foldl_feed_injective after (feed_lt bound byte)
    (feed_lt bound changed) states
  have bytes := Nat.xor_right_injective
    (shifts_injective _ (xor_byte_lt bound byte) (xor_byte_lt bound changed) fed)
  exact differ (UInt8.toNat_inj.mp bytes)

theorem checksum_set_ne {bytes : List UInt8} {position : Nat}
    {byte changed : UInt8} (found : bytes[position]? = some byte)
    (differ : byte ≠ changed) :
    checksum (bytes.set position changed) ≠ checksum bytes := by
  rcases List.getElem?_eq_some_iff.mp found with ⟨inside, equal⟩
  have split : bytes = bytes.take position ++ byte :: bytes.drop (position + 1) := by
    rw [← equal, ← List.drop_eq_getElem_cons inside, List.take_append_drop]
  have other := checksum_ne_of_byte_ne differ.symm (bytes.take position)
    (bytes.drop (position + 1))
  rw [List.set_eq_take_append_cons_drop, if_pos inside]
  rwa [← split] at other

end BtrfsForensic.Crc32c
