import Mathlib.Analysis.SpecialFunctions.Pow.Real
import Mathlib.Data.Nat.Nth
import Mathlib.Data.Nat.Prime.Basic

namespace BtrfsForensic

/-! The secure hash algorithm SHA-256 as FIPS 180-4 states it: on strings of bits, with
constants that are roots of primes. -/

namespace Fips180

abbrev Bits := List Bool

abbrev Word := BitVec 32

/-! ## Numbers and bit strings -/

/-- The number that a bit string denotes, its first bit the most significant. -/
def numeral (bits : Bits) : Nat := bits.foldl (fun value bit => 2 * value + bit.toNat) 0

/-- The bit string of `width` bits that denotes a number modulo `2 ^ width`. -/
def binary : (width value : Nat) → Bits
  | 0, _ => []
  | width + 1, value => binary width (value / 2) ++ [value.testBit 0]

def ofBytes (bytes : List UInt8) : Bits := bytes.flatMap fun byte => binary 8 byte.toNat

def hexadecimal (bits : Bits) : List Char :=
  (List.range (bits.length / 4)).map fun index =>
    "0123456789abcdef".toList.getD (numeral ((bits.drop (4 * index)).take 4)) '0'

/-! ## Functions and constants -/

def ch (x y z : Word) : Word := (x &&& y) ^^^ (~~~x &&& z)

def maj (x y z : Word) : Word := (x &&& y) ^^^ (x &&& z) ^^^ (y &&& z)

def upperSigma0 (x : Word) : Word :=
  x.rotateRight 2 ^^^ x.rotateRight 13 ^^^ x.rotateRight 22

def upperSigma1 (x : Word) : Word :=
  x.rotateRight 6 ^^^ x.rotateRight 11 ^^^ x.rotateRight 25

def lowerSigma0 (x : Word) : Word :=
  x.rotateRight 7 ^^^ x.rotateRight 18 ^^^ x >>> 3

def lowerSigma1 (x : Word) : Word :=
  x.rotateRight 17 ^^^ x.rotateRight 19 ^^^ x >>> 10

/-- The first thirty-two bits of the fractional part of a number. -/
noncomputable def fractionWord (x : ℝ) : Word := BitVec.ofNat 32 ⌊Int.fract x * 2 ^ 32⌋₊

/-- The root of a prime, the first prime being number 0. -/
noncomputable def primeRoot (degree index : Nat) : ℝ :=
  (Nat.nth Nat.Prime index : ℝ) ^ (degree : ℝ)⁻¹

/-- From the cube roots of the first sixty-four primes. -/
noncomputable def roundConstant (t : Nat) : Word := fractionWord (primeRoot 3 t)

/-- From the square roots of the first eight primes. -/
noncomputable def initialWord (index : Nat) : Word := fractionWord (primeRoot 2 index)

/-! ## Preprocessing -/

/-- The smallest number of zeros that leaves 64 bits of the last block. -/
noncomputable def zeros (length : Nat) : Nat := sInf {count | length + 1 + count ≡ 448 [MOD 512]}

/-- The message, a one, zeros, and the length of the message. -/
noncomputable def padded (message : Bits) : Bits :=
  message ++ true :: (List.replicate (zeros message.length) false ++ binary 64 message.length)

def messageWord (blocks : Bits) (index t : Nat) : Word :=
  BitVec.ofNat 32 (numeral ((blocks.drop (512 * index + 32 * t)).take 32))

/-! ## Computation -/

def schedule (message : Nat → Word) (t : Nat) : Word :=
  if t < 16 then
    message t
  else
    lowerSigma1 (schedule message (t - 2)) + schedule message (t - 7) +
      lowerSigma0 (schedule message (t - 15)) + schedule message (t - 16)

/-- The eight working variables, and the eight words of a hash value. -/
@[ext] structure Variables where
  a : Word
  b : Word
  c : Word
  d : Word
  e : Word
  f : Word
  g : Word
  h : Word

namespace Variables

noncomputable def round (w : Nat → Word) (v : Variables) (t : Nat) : Variables :=
  let t1 := v.h + upperSigma1 v.e + ch v.e v.f v.g + roundConstant t + w t
  let t2 := upperSigma0 v.a + maj v.a v.b v.c
  { a := t1 + t2, b := v.a, c := v.b, d := v.c, e := v.d + t1, f := v.e, g := v.f, h := v.g }

def add (left right : Variables) : Variables :=
  { a := left.a + right.a, b := left.b + right.b, c := left.c + right.c, d := left.d + right.d,
    e := left.e + right.e, f := left.f + right.f, g := left.g + right.g, h := left.h + right.h }

def words (v : Variables) : List Word := [v.a, v.b, v.c, v.d, v.e, v.f, v.g, v.h]

noncomputable def next (hash : Variables) (message : Nat → Word) : Variables :=
  ((List.range 64).foldl (round (schedule message)) hash).add hash

noncomputable def initial : Variables :=
  { a := initialWord 0, b := initialWord 1, c := initialWord 2, d := initialWord 3,
    e := initialWord 4, f := initialWord 5, g := initialWord 6, h := initialWord 7 }

noncomputable def chained (blocks : Bits) : (count : Nat) → Variables
  | 0 => initial
  | count + 1 => (chained blocks count).next (messageWord blocks count)

end Variables

noncomputable def sha256 (message : Bits) : Bits :=
  let blocks := padded message
  (Variables.chained blocks (blocks.length / 512)).words.flatMap fun word => binary 32 word.toNat

/-! ## Numbers and bit strings -/

@[simp] theorem length_binary (width value : Nat) : (binary width value).length = width := by
  induction width generalizing value with
  | zero => rfl
  | succ width induction => rw [binary, List.length_append, induction, List.length_singleton]

theorem numeral_concat (bits : Bits) (bit : Bool) :
    numeral (bits ++ [bit]) = 2 * numeral bits + bit.toNat := by
  rw [numeral, numeral, List.foldl_append]
  rfl

theorem numeral_append (high low : Bits) :
    numeral (high ++ low) = numeral high * 2 ^ low.length + numeral low := by
  induction low using List.reverseRecOn with
  | nil => rw [List.append_nil, List.length_nil, Nat.pow_zero, Nat.mul_one]; rfl
  | append_singleton low bit induction =>
      rw [← List.append_assoc, numeral_concat, numeral_concat, induction, List.length_append,
        List.length_singleton, Nat.pow_succ]
      ring

theorem numeral_binary (width value : Nat) :
    numeral (binary width value) = value % 2 ^ width := by
  induction width generalizing value with
  | zero => rw [Nat.pow_zero, Nat.mod_one]; rfl
  | succ width induction =>
      have bit : (value.testBit 0).toNat = value % 2 := by
        rw [Nat.toNat_testBit, Nat.pow_zero, Nat.div_one]
      rw [binary, numeral_concat, induction, bit, Nat.pow_succ, Nat.mul_comm (2 ^ width) 2,
        Nat.mod_mul]
      omega

theorem binary_add (high low value : Nat) :
    binary (high + low) value = binary high (value / 2 ^ low) ++ binary low value := by
  induction low generalizing value with
  | zero => rw [Nat.pow_zero, Nat.div_one, binary, List.append_nil]; rfl
  | succ low induction =>
      rw [← Nat.add_assoc, binary, induction, binary, List.append_assoc, Nat.div_div_eq_div_mul,
        Nat.pow_succ, Nat.mul_comm 2]

theorem binary_mod (width value : Nat) : binary width (value % 2 ^ width) = binary width value := by
  induction width generalizing value with
  | zero => rfl
  | succ width induction =>
      have half : value % 2 ^ (width + 1) / 2 = value / 2 % 2 ^ width := by
        rw [Nat.pow_succ, Nat.mul_comm, Nat.mod_mul_right_div_self]
      have last : (value % 2 ^ (width + 1)).testBit 0 = value.testBit 0 := by
        rw [Nat.testBit_mod_two_pow, decide_eq_true (Nat.zero_lt_succ width), Bool.true_and]
      rw [binary, binary, half, induction, last]

@[simp] theorem ofBytes_append (front back : List UInt8) :
    ofBytes (front ++ back) = ofBytes front ++ ofBytes back := by
  rw [ofBytes, List.flatMap_append, ofBytes, ofBytes]

@[simp] theorem length_ofBytes (bytes : List UInt8) :
    (ofBytes bytes).length = 8 * bytes.length := by
  induction bytes with
  | nil => rfl
  | cons byte bytes induction =>
      rw [← List.singleton_append, ofBytes_append, List.length_append, induction,
        List.length_append, Nat.mul_add]
      rfl

theorem ofBytes_drop (bytes : List UInt8) (count : Nat) :
    ofBytes (bytes.drop count) = (ofBytes bytes).drop (8 * count) := by
  by_cases inside : count ≤ bytes.length
  · have front : (ofBytes (bytes.take count)).length = 8 * count := by
      rw [length_ofBytes, List.length_take, Nat.min_eq_left inside]
    conv_rhs => rw [← List.take_append_drop count bytes, ofBytes_append]
    rw [List.drop_left' front]
  · rw [List.drop_eq_nil_of_le (by omega), List.drop_eq_nil_of_le (by rw [length_ofBytes]; omega)]
    rfl

theorem ofBytes_take (bytes : List UInt8) (count : Nat) :
    ofBytes (bytes.take count) = (ofBytes bytes).take (8 * count) := by
  by_cases inside : count ≤ bytes.length
  · have front : (ofBytes (bytes.take count)).length = 8 * count := by
      rw [length_ofBytes, List.length_take, Nat.min_eq_left inside]
    conv_rhs => rw [← List.take_append_drop count bytes, ofBytes_append]
    rw [List.take_left' front]
  · rw [List.take_of_length_le (by omega), List.take_of_length_le (by rw [length_ofBytes]; omega)]

section Hexadecimal

theorem hexadecimal_append {front : Bits} (whole : front.length % 4 = 0) (back : Bits) :
    hexadecimal (front ++ back) = hexadecimal front ++ hexadecimal back := by
  have groups : 4 * (front.length / 4) = front.length := by omega
  have total : (front ++ back).length / 4 = front.length / 4 + back.length / 4 := by
    rw [List.length_append]
    omega
  rw [hexadecimal, total, List.range_add, List.map_append, List.map_map]
  congr 1
  · apply List.map_congr_left
    intro index member
    have inside := List.mem_range.mp member
    rw [List.drop_append_of_le_length (by omega),
      List.take_append_of_le_length (by rw [List.length_drop]; omega)]
  · apply List.map_congr_left
    intro index _
    rw [Function.comp_apply, Nat.mul_add, groups, List.drop_append,
      List.drop_eq_nil_of_le (by omega), List.nil_append, Nat.add_sub_cancel_left]

theorem take_drop_binary (high middle low value : Nat) :
    ((binary (high + (middle + low)) value).drop high).take middle =
      binary middle (value / 2 ^ low) := by
  rw [binary_add, List.drop_left' (length_binary _ _), binary_add,
    List.take_left' (length_binary _ _)]

end Hexadecimal

/-! ## Constants -/

theorem fractionWord_root {degree value root : Nat} (positive : degree ≠ 0)
    (lower : root ^ degree ≤ value * (2 ^ 32) ^ degree)
    (upper : value * (2 ^ 32) ^ degree < (root + 1) ^ degree) :
    fractionWord ((value : ℝ) ^ (degree : ℝ)⁻¹) = BitVec.ofNat 32 root := by
  have nonnegative : 0 ≤ (value : ℝ) ^ (degree : ℝ)⁻¹ := by positivity
  have power : ((value : ℝ) ^ (degree : ℝ)⁻¹) ^ degree = value :=
    Real.rpow_inv_natCast_pow (Nat.cast_nonneg value) positive
  generalize (value : ℝ) ^ (degree : ℝ)⁻¹ = x at *
  have scaled : (x * 2 ^ 32) ^ degree = ((value * (2 ^ 32) ^ degree : Nat) : ℝ) := by
    rw [mul_pow, power, Nat.cast_mul, Nat.cast_pow, Nat.cast_pow, Nat.cast_ofNat]
  have floor : ⌊x * 2 ^ 32⌋₊ = root := by
    rw [Nat.floor_eq_iff (by positivity)]
    constructor
    · apply le_of_pow_le_pow_left₀ positive (by positivity)
      rw [scaled]
      exact_mod_cast lower
    · apply lt_of_pow_lt_pow_left₀ degree (by positivity)
      rw [scaled]
      exact_mod_cast upper
  have parts : ⌊Int.fract x * 2 ^ 32⌋₊ + ⌊x⌋₊ * 2 ^ 32 = root := by
    rw [← floor, ← Nat.floor_add_natCast (by positivity)]
    rw [Nat.cast_mul, Nat.cast_pow, Nat.cast_ofNat, natCast_floor_eq_intCast_floor nonnegative,
      ← add_mul, Int.fract_add_floor]
  rw [fractionWord, ← parts, ← BitVec.toNat_inj, BitVec.toNat_ofNat, BitVec.toNat_ofNat,
    Nat.add_mul_mod_self_right]

theorem filter_range (p : Nat → Prop) [DecidablePred p] (bound : Nat) :
    (List.range bound).filter (fun value => p value) =
      (List.range (Nat.count p bound)).map (Nat.nth p) := by
  induction bound with
  | zero => rfl
  | succ bound induction =>
      rw [List.range_succ, List.filter_append, induction, Nat.count_succ, List.filter_singleton]
      by_cases holds : p bound
      · rw [if_pos holds, decide_eq_true holds, List.range_succ, List.map_append,
          List.map_singleton, Nat.nth_count holds, cond_true]
      · rw [if_neg holds, decide_eq_false holds, cond_false, List.append_nil, Nat.add_zero]

/-- Below a square, a number is prime when no factor is below the root. -/
theorem prime_iff_of_lt {bound value : Nat} (small : value < bound ^ 2) :
    value.Prime ↔ 2 ≤ value ∧
      ∀ factor ∈ List.range bound, 2 ≤ factor → value % factor = 0 → factor = value := by
  constructor
  · intro prime
    refine ⟨prime.two_le, fun factor _ large divides => ?_⟩
    exact (Nat.dvd_prime_two_le prime large).mp (Nat.dvd_of_mod_eq_zero divides)
  · intro parts
    rcases parts with ⟨large, factors⟩
    have prime : value.minFac.Prime := Nat.minFac_prime (by omega)
    have divides : value % value.minFac = 0 := Nat.mod_eq_zero_of_dvd value.minFac_dvd
    by_cases below : value.minFac < bound
    · rwa [← factors _ (List.mem_range.mpr below) prime.two_le divides]
    · by_contra composite
      have square := Nat.minFac_sq_le_self (by omega) composite
      have bounded := Nat.pow_le_pow_left (Nat.le_of_not_lt below) 2
      omega

theorem nth_prime {bound index prime : Nat}
    (found : ((List.range bound).filter Nat.Prime)[index]? = some prime) :
    Nat.nth Nat.Prime index = prime := by
  rw [filter_range, List.getElem?_map] at found
  rcases Option.map_eq_some_iff.mp found with ⟨number, range, rfl⟩
  rcases List.getElem?_eq_some_iff.mp range with ⟨_, rfl⟩
  rw [List.getElem_range]

/-! ## Message schedule -/

theorem schedule_of_lt {message : Nat → Word} {t : Nat} (first : t < 16) :
    schedule message t = message t := by
  rw [schedule, if_pos first]

theorem schedule_of_le {message : Nat → Word} {t : Nat} (later : 16 ≤ t) :
    schedule message t =
      lowerSigma1 (schedule message (t - 2)) + schedule message (t - 7) +
        lowerSigma0 (schedule message (t - 15)) + schedule message (t - 16) := by
  rw [schedule, if_neg (Nat.not_lt_of_le later)]

/-! ## Padding -/

theorem zeros_eq (length : Nat) : zeros length = (959 - length % 512) % 512 := by
  apply Nat.le_antisymm
  · apply Nat.sInf_le
    change (length + 1 + _) % 512 = 448 % 512
    omega
  · have member : zeros length ∈ {count | length + 1 + count ≡ 448 [MOD 512]} := by
      apply Nat.sInf_mem
      refine ⟨(959 - length % 512) % 512, ?_⟩
      change (length + 1 + _) % 512 = 448 % 512
      omega
    change (length + 1 + zeros length) % 512 = 448 % 512 at member
    omega

end Fips180

end BtrfsForensic
