import Mathlib.Tactic.Ring

namespace BtrfsForensic

/-! Fixed-width words: their little-endian byte encodings, and the checked and
saturating additions that machine code uses on them. -/

/-! ## Little-endian bytes -/

/-- The number a byte list denotes, least-significant byte first. -/
def decodeLE : List UInt8 → Nat
  | [] => 0
  | byte :: rest => byte.toNat + 256 * decodeLE rest

/-- The `width` low bytes of a number, least-significant byte first. -/
def encodeLE : (width value : Nat) → List UInt8
  | 0, _ => []
  | width + 1, value => UInt8.ofNat value :: encodeLE width (value / 256)

@[simp] theorem length_encodeLE (width value : Nat) :
    (encodeLE width value).length = width := by
  induction width generalizing value with
  | zero => rfl
  | succ width induction => simp [encodeLE, induction]

theorem decodeLE_lt (bytes : List UInt8) :
    decodeLE bytes < 256 ^ bytes.length := by
  induction bytes with
  | nil => simp [decodeLE]
  | cons byte rest induction =>
      have byteBound := byte.toNat_lt
      rw [decodeLE, List.length_cons, Nat.pow_succ]
      omega

theorem decodeLE_encodeLE (width value : Nat) :
    decodeLE (encodeLE width value) = value % 256 ^ width := by
  induction width generalizing value with
  | zero => simp [encodeLE, decodeLE, Nat.mod_one]
  | succ width induction =>
      rw [encodeLE, decodeLE, induction, UInt8.toNat_ofNat']
      change value % 256 + 256 * (value / 256 % 256 ^ width) = _
      rw [Nat.pow_succ, Nat.mul_comm (256 ^ width) 256, Nat.mod_mul]

theorem encodeLE_decodeLE (bytes : List UInt8) :
    encodeLE bytes.length (decodeLE bytes) = bytes := by
  induction bytes with
  | nil => rfl
  | cons byte rest induction =>
      have bound := byte.toNat_lt
      have low : UInt8.ofNat (byte.toNat + 256 * decodeLE rest) = byte := by
        apply UInt8.toNat_inj.mp
        rw [UInt8.toNat_ofNat']
        omega
      have high : (byte.toNat + 256 * decodeLE rest) / 256 = decodeLE rest := by omega
      rw [List.length_cons, decodeLE, encodeLE, low, high, induction]

theorem decodeLE_append (low high : List UInt8) :
    decodeLE (low ++ high) = decodeLE low + 256 ^ low.length * decodeLE high := by
  induction low with
  | nil => simp [decodeLE]
  | cons byte low induction =>
      rw [List.cons_append, decodeLE, decodeLE, induction, List.length_cons,
        Nat.pow_succ]
      ring

@[simp] theorem decodeLE_replicate_zero (count : Nat) :
    decodeLE (List.replicate count 0) = 0 := by
  induction count with
  | zero => rfl
  | succ count induction => simp [List.replicate_succ, decodeLE, induction]

theorem decodeLE_injective :
    ∀ {left right : List UInt8}, left.length = right.length →
      decodeLE left = decodeLE right → left = right
  | [], [], _, _ => rfl
  | head :: tail, other :: rest, sameLength, equal => by
      have headBound := head.toNat_lt
      have otherBound := other.toNat_lt
      simp only [decodeLE] at equal
      have headEqual : head = other := UInt8.toNat_inj.mp (by omega)
      have tailEqual : tail = rest :=
        decodeLE_injective (by simpa using sameLength) (by omega)
      rw [headEqual, tailEqual]

/-! ## Machine addition -/

/-- The largest `usize` of a 64-bit target. -/
def usizeMax : Nat := 2 ^ 64 - 1

def checkedAdd (left right : UInt64) : Option UInt64 :=
  if left.toNat + right.toNat < 2 ^ 64 then some (left + right) else none

def saturatingAdd (left right : Nat) : Nat := min (left + right) usizeMax

def saturatingMul (left right : Nat) : Nat := min (left * right) usizeMax

theorem checkedAdd_eq_some_iff {left right sum : UInt64} :
    checkedAdd left right = some sum ↔
      left.toNat + right.toNat = sum.toNat := by
  have sumBound := sum.toNat_lt
  rw [checkedAdd]
  split
  case isTrue fits =>
    rw [Option.some.injEq, ← UInt64.toNat_inj, UInt64.toNat_add,
      Nat.mod_eq_of_lt fits]
  case isFalse overflow =>
    simp only [reduceCtorEq, false_iff]
    omega

theorem checkedAdd_eq_none_iff {left right : UInt64} :
    checkedAdd left right = none ↔ 2 ^ 64 ≤ left.toNat + right.toNat := by
  rw [checkedAdd]
  split <;> simp_all

theorem saturatingAdd_le (left right : Nat) :
    saturatingAdd left right ≤ left + right :=
  Nat.min_le_left _ _

theorem saturatingAdd_eq {left right : Nat} (fits : left + right ≤ usizeMax) :
    saturatingAdd left right = left + right :=
  Nat.min_eq_left fits

end BtrfsForensic
