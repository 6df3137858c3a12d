import BtrfsForensic.Core.Bytes

namespace BtrfsForensic

/-! UTF-8 names. A lossy conversion gives back every string from its own bytes;
a name of other bytes gets replacement characters. -/

/-- `String::into_bytes`. -/
def nameBytes (name : String) : Bytes := name.toList.flatMap String.utf8EncodeChar

namespace Utf8

/-! Each length of a sequence, by the numbers of its bytes. -/

section Sequences

variable {lead second third fourth : UInt8} {rest : Bytes}

theorem not_single (lower : 0x80 ≤ lead.toNat) : ¬lead < 0x80 := by
  intro low
  have number : lead.toNat < 0x80 := UInt8.lt_iff_toNat_lt.mp low
  omega

theorem not_double (lower : 0xE0 ≤ lead.toNat) : ¬(0xC2 ≤ lead ∧ lead ≤ 0xDF) := by
  intro both
  have number : lead.toNat ≤ 0xDF := UInt8.le_iff_toNat_le.mp both.2
  omega

theorem not_triple (lower : 0xF0 ≤ lead.toNat) : ¬(0xE0 ≤ lead ∧ lead ≤ 0xEF) := by
  intro both
  have number : lead.toNat ≤ 0xEF := UInt8.le_iff_toNat_le.mp both.2
  omega

theorem lossyChars_one (ascii : lead.toNat < 0x80) :
    lossyChars (lead :: rest) = Char.ofNat lead.toNat :: lossyChars rest := by
  have single : lead < 0x80 := UInt8.lt_iff_toNat_lt.mpr ascii
  rw [lossyChars.eq_def]
  exact if_pos single

theorem lossyChars_two (lower : 0xC2 ≤ lead.toNat) (upper : lead.toNat ≤ 0xDF)
    (follows : continues second = true) :
    lossyChars (lead :: second :: rest) =
      scalar (lead.toNat % 32) [second] :: lossyChars rest := by
  have double : 0xC2 ≤ lead ∧ lead ≤ 0xDF :=
    ⟨UInt8.le_iff_toNat_le.mpr lower, UInt8.le_iff_toNat_le.mpr upper⟩
  have single : ¬lead < 0x80 := not_single (by omega)
  rw [lossyChars.eq_def]
  simp only [if_neg single, if_pos double, follows, if_true]

theorem lossyChars_three (lower : 0xE0 ≤ lead.toNat) (upper : lead.toNat ≤ 0xEF)
    (begins : secondOfThree lead second = true) (follows : continues third = true) :
    lossyChars (lead :: second :: third :: rest) =
      scalar (lead.toNat % 16) [second, third] :: lossyChars rest := by
  have triple : 0xE0 ≤ lead ∧ lead ≤ 0xEF :=
    ⟨UInt8.le_iff_toNat_le.mpr lower, UInt8.le_iff_toNat_le.mpr upper⟩
  have single : ¬lead < 0x80 := not_single (by omega)
  rw [lossyChars.eq_def]
  simp only [if_neg single, if_neg (not_double lower), if_pos triple, begins, follows,
    if_true]

theorem lossyChars_four (lower : 0xF0 ≤ lead.toNat) (upper : lead.toNat ≤ 0xF4)
    (begins : secondOfFour lead second = true) (follows : continues third = true)
    (ends : continues fourth = true) :
    lossyChars (lead :: second :: third :: fourth :: rest) =
      scalar (lead.toNat % 8) [second, third, fourth] :: lossyChars rest := by
  have quadruple : 0xF0 ≤ lead ∧ lead ≤ 0xF4 :=
    ⟨UInt8.le_iff_toNat_le.mpr lower, UInt8.le_iff_toNat_le.mpr upper⟩
  have single : ¬lead < 0x80 := not_single (by omega)
  have double : ¬(0xC2 ≤ lead ∧ lead ≤ 0xDF) := not_double (by omega)
  rw [lossyChars.eq_def]
  simp only [if_neg single, if_neg double, if_neg (not_triple lower), if_pos quadruple,
    begins, follows, ends, if_true]

end Sequences

/-- The low six bits of a number, as a continuation byte. -/
def lowByte (value : Nat) : UInt8 := UInt8.ofNat (value % 64 + 0x80)

theorem continues_lowByte (value : Nat) : continues (lowByte value) = true := by
  have all : ∀ low : Fin 64, continues (UInt8.ofNat (low.val + 0x80)) = true := by decide
  exact all ⟨value % 64, Nat.mod_lt _ (by decide)⟩

@[simp] theorem toNat_lowByte (value : Nat) :
    (lowByte value).toNat = value % 64 + 128 := by
  rw [lowByte, UInt8.toNat_ofNat']
  omega

/-- A second byte has bounds of its own after the first lead byte of its length,
against overlong sequences, and after one other. -/
theorem second_lowByte {lead first other low high : UInt8} {value : Nat}
    (long : lead = first → low.toNat ≤ value % 64 + 128)
    (scalars : lead = other → value % 64 + 128 ≤ high.toNat) :
    (if lead == first then low ≤ lowByte value && lowByte value ≤ 0xBF
      else if lead == other then 0x80 ≤ lowByte value && lowByte value ≤ high
      else 0x80 ≤ lowByte value && lowByte value ≤ 0xBF) = true := by
  have lower : 0x80 ≤ lowByte value := by
    rw [UInt8.le_iff_toNat_le, toNat_lowByte]
    exact Nat.le_add_left _ _
  have upper : lowByte value ≤ 0xBF := by
    have number : (0xBF : UInt8).toNat = 191 := rfl
    rw [UInt8.le_iff_toNat_le, toNat_lowByte, number]
    omega
  split
  case isTrue first =>
    have above : low ≤ lowByte value := by
      rw [UInt8.le_iff_toNat_le, toNat_lowByte]
      exact long (beq_iff_eq.mp first)
    simp [above, upper]
  case isFalse =>
    split
    case isTrue other =>
      have below : lowByte value ≤ high := by
        rw [UInt8.le_iff_toNat_le, toNat_lowByte]
        exact scalars (beq_iff_eq.mp other)
      simp [lower, below]
    case isFalse => simp [lower, upper]

theorem secondOfThree_lowByte {lead : UInt8} {value : Nat}
    (long : lead.toNat = 0xE0 → 32 ≤ value % 64)
    (scalars : lead.toNat = 0xED → value % 64 < 32) :
    secondOfThree lead (lowByte value) = true := by
  apply second_lowByte
  · intro first
    have bound := long (first ▸ rfl)
    have number : (0xA0 : UInt8).toNat = 160 := rfl
    omega
  · intro surrogate
    have bound := scalars (surrogate ▸ rfl)
    have number : (0x9F : UInt8).toNat = 159 := rfl
    omega

theorem secondOfFour_lowByte {lead : UInt8} {value : Nat}
    (long : lead.toNat = 0xF0 → 16 ≤ value % 64)
    (scalars : lead.toNat = 0xF4 → value % 64 < 16) :
    secondOfFour lead (lowByte value) = true := by
  apply second_lowByte
  · intro first
    have bound := long (first ▸ rfl)
    have number : (0x90 : UInt8).toNat = 144 := rfl
    omega
  · intro beyond
    have bound := scalars (beyond ▸ rfl)
    have number : (0x8F : UInt8).toNat = 143 := rfl
    omega

theorem lossyChars_utf8EncodeChar (char : Char) (rest : Bytes) :
    lossyChars (String.utf8EncodeChar char ++ rest) = char :: lossyChars rest := by
  have back : Char.ofNat char.val.toNat = char := Char.ofNat_toNat char
  have valid : char.val.toNat < 0xD800 ∨
      0xDFFF < char.val.toNat ∧ char.val.toNat < 0x110000 := char.valid
  rw [String.utf8EncodeChar]
  generalize char.val.toNat = value at back valid
  split
  case isTrue one =>
    have number : (UInt8.ofNat value).toNat = value := by
      rw [UInt8.toNat_ofNat']
      omega
    rw [List.singleton_append, lossyChars_one (by omega), number, back]
  case isFalse more =>
    split
    case isTrue two =>
      have number : (UInt8.ofNat (value / 64 % 0x20 + 0xc0)).toNat = value / 64 + 0xc0 := by
        rw [UInt8.toNat_ofNat']
        omega
      change lossyChars (_ :: lowByte value :: rest) = _
      rw [lossyChars_two (by omega) (by omega) (continues_lowByte value), number, scalar]
      simp only [List.foldl_cons, List.foldl_nil, toNat_lowByte]
      rw [show (value / 64 + 0xc0) % 32 * 64 + (value % 64 + 128) % 64 = value by omega,
        back]
    case isFalse more =>
      split
      case isTrue three =>
        have number : (UInt8.ofNat (value / 4096 % 0x10 + 0xe0)).toNat =
            value / 4096 + 0xe0 := by
          rw [UInt8.toNat_ofNat']
          omega
        change lossyChars (_ :: lowByte (value / 64) :: lowByte value :: rest) = _
        rw [lossyChars_three (by omega) (by omega)
          (secondOfThree_lowByte (by omega) (by omega)) (continues_lowByte value), number,
          scalar]
        simp only [List.foldl_cons, List.foldl_nil, toNat_lowByte]
        rw [show ((value / 4096 + 0xe0) % 16 * 64 + (value / 64 % 64 + 128) % 64) * 64 +
          (value % 64 + 128) % 64 = value by omega, back]
      case isFalse four =>
        have number : (UInt8.ofNat (value / 262144 % 0x08 + 0xf0)).toNat =
            value / 262144 + 0xf0 := by
          rw [UInt8.toNat_ofNat']
          omega
        change lossyChars (_ :: lowByte (value / 4096) :: lowByte (value / 64) ::
          lowByte value :: rest) = _
        rw [lossyChars_four (by omega) (by omega)
          (secondOfFour_lowByte (by omega) (by omega)) (continues_lowByte _)
          (continues_lowByte value), number, scalar]
        simp only [List.foldl_cons, List.foldl_nil, toNat_lowByte]
        rw [show (((value / 262144 + 0xf0) % 8 * 64 + (value / 4096 % 64 + 128) % 64) * 64 +
          (value / 64 % 64 + 128) % 64) * 64 + (value % 64 + 128) % 64 = value by omega, back]

theorem lossyChars_flatMap (chars : List Char) :
    lossyChars (chars.flatMap String.utf8EncodeChar) = chars := by
  induction chars with
  | nil => rfl
  | cons char chars induction =>
      rw [List.flatMap_cons, lossyChars_utf8EncodeChar, induction]

end Utf8

theorem fromUtf8Lossy_nameBytes (name : String) : fromUtf8Lossy (nameBytes name) = name := by
  rw [fromUtf8Lossy, nameBytes, Utf8.lossyChars_flatMap, String.ofList_toList]

end BtrfsForensic
