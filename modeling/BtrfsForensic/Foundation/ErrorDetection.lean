import BtrfsForensic.Foundation.Crc32c
import BtrfsForensic.Foundation.Register
import BtrfsForensic.Foundation.Word
import Mathlib.NumberTheory.LucasLehmer

namespace BtrfsForensic.Crc32c

/-! Which changes of a message its checksum cannot miss. The checksum is a shift
register fed from the message, so only the difference of two messages decides. -/

/-! ## The checksum as a register -/

theorem shift_eq : shift = Register.shift polynomial := by
  funext crc
  rw [shift, Register.shift]

theorem feed_eq (crc : Nat) (byte : UInt8) :
    feed crc byte = (Register.shift polynomial)^[8] (crc ^^^ byte.toNat) := by
  rw [feed, List.foldl_const, List.length_range, shift_eq]

theorem decodeLE_cons_eq (byte : UInt8) (bytes : List UInt8) :
    decodeLE (byte :: bytes) = byte.toNat ^^^ 2 ^ 8 * decodeLE bytes := by
  rw [decodeLE, Nat.add_comm]
  exact Register.two_pow_mul_add byte.toNat_lt _

/-- The bytes enter one by one as the number they denote would at once. -/
theorem foldl_feed_eq (bytes : List UInt8) (crc : Nat) :
    bytes.foldl feed crc =
      (Register.shift polynomial)^[8 * bytes.length] (crc ^^^ decodeLE bytes) := by
  induction bytes generalizing crc with
  | nil => exact (Nat.xor_zero crc).symm
  | cons byte bytes induction =>
      rw [List.foldl_cons, induction, feed_eq, decodeLE_cons_eq, ← Nat.xor_assoc,
        List.length_cons, Nat.mul_succ, Function.iterate_add_apply,
        Register.iterate_xor 8 (crc ^^^ byte.toNat), Register.iterate_two_pow_mul]

section Difference

variable {left right : List UInt8}

/-- Messages of one length have one checksum exactly when their difference is
shifted away. -/
theorem checksum_eq_iff (same : left.length = right.length) :
    checksum left = checksum right ↔
      (Register.shift polynomial)^[8 * left.length] (decodeLE left ^^^ decodeLE right) = 0 := by
  have start : (0xFFFFFFFF : Nat) < 2 ^ 32 := by decide
  have digest (bytes : List UInt8) : bytes.foldl feed 0xFFFFFFFF ^^^ 0xFFFFFFFF < 2 ^ 32 :=
    Nat.xor_lt_two_pow (foldl_feed_lt bytes start) start
  have cancel : decodeLE left ^^^ decodeLE right =
      (0xFFFFFFFF ^^^ decodeLE left) ^^^ (0xFFFFFFFF ^^^ decodeLE right) := by
    rw [Nat.xor_comm 0xFFFFFFFF (decodeLE left), Nat.xor_assoc, ← Nat.xor_assoc 0xFFFFFFFF,
      Nat.xor_self, Nat.zero_xor]
  rw [cancel, Register.iterate_xor, Nat.xor_eq_zero_iff, ← foldl_feed_eq, same,
    ← foldl_feed_eq, ← UInt32.toNat_inj, checksum, checksum,
    UInt32.toNat_ofNat_of_lt' (digest _), UInt32.toNat_ofNat_of_lt' (digest _)]
  constructor
  · intro equal
    exact Nat.xor_left_injective equal
  · intro equal
    rw [equal]

end Difference

/-! ## Flipped bits -/

/-- A bit of a message; the low bit of a byte is its first. -/
def bitAt (bytes : List UInt8) (position : Nat) : Bool :=
  ((bytes[position / 8]?).getD 0).toNat.testBit (position % 8)

/-- The positions of the bits in which two messages of one length differ. -/
def flips (left right : List UInt8) : List Nat :=
  (List.range (8 * left.length)).filter fun position =>
    bitAt left position != bitAt right position

/-- Some bits are flipped, and they lie within 32 bits in a row, or are odd in
number, or are at most three. -/
def Noticeable (left right : List UInt8) : Prop :=
  flips left right ≠ [] ∧
    ((∀ earlier ∈ flips left right, ∀ later ∈ flips left right, later < earlier + 32) ∨
      (flips left right).length % 2 = 1 ∨ (flips left right).length ≤ 3)

instance (left right : List UInt8) : Decidable (Noticeable left right) :=
  inferInstanceAs (Decidable (_ ∧ (_ ∨ _)))

theorem testBit_decodeLE (bytes : List UInt8) (position : Nat) :
    (decodeLE bytes).testBit position = bitAt bytes position := by
  induction bytes generalizing position with
  | nil => rw [decodeLE, Nat.zero_testBit, bitAt, List.getElem?_nil, Option.getD_none,
      UInt8.toNat_zero, Nat.zero_testBit]
  | cons byte bytes induction =>
      rw [decodeLE, Nat.add_comm, show 256 = 2 ^ 8 by rfl,
        Nat.testBit_two_pow_mul_add _ byte.toNat_lt, bitAt]
      by_cases inside : position < 8
      · rw [if_pos inside, Nat.div_eq_of_lt inside, Nat.mod_eq_of_lt inside]
        rfl
      · have later : position / 8 = (position - 8) / 8 + 1 := by omega
        have within : position % 8 = (position - 8) % 8 := by omega
        rw [if_neg inside, induction, bitAt, later, within, List.getElem?_cons_succ]

section Flips

variable {left right : List UInt8}

theorem bitAt_of_le {bytes : List UInt8} {position : Nat}
    (beyond : 8 * bytes.length ≤ position) : bitAt bytes position = false := by
  rw [bitAt, List.getElem?_eq_none (by omega), Option.getD_none, UInt8.toNat_zero,
    Nat.zero_testBit]

theorem testBit_difference (same : left.length = right.length) (position : Nat) :
    (decodeLE left ^^^ decodeLE right).testBit position = true ↔
      position ∈ flips left right := by
  rw [Nat.testBit_xor, testBit_decodeLE, testBit_decodeLE, flips, List.mem_filter,
    List.mem_range, bne]
  by_cases inside : position < 8 * left.length
  · cases bitAt left position <;> cases bitAt right position <;> simp [inside]
  · rw [bitAt_of_le (by omega), bitAt_of_le (by omega)]
    simp

theorem testBit_difference_eq (same : left.length = right.length) (position : Nat) :
    (decodeLE left ^^^ decodeLE right).testBit position =
      decide (position ∈ flips left right) := by
  rw [Bool.eq_iff_iff, testBit_difference same, decide_eq_true_iff]

theorem weight_difference :
    Register.weight (8 * left.length) (decodeLE left ^^^ decodeLE right) =
      (flips left right).length := by
  rw [Register.weight, flips, ← List.countP_eq_length_filter]
  apply List.countP_congr
  intro position _
  rw [Nat.testBit_xor, testBit_decodeLE, testBit_decodeLE]

theorem flips_ordered : (flips left right).Pairwise (· < ·) :=
  List.Pairwise.filter _ List.pairwise_lt_range

theorem lt_of_mem_flips {position : Nat} (member : position ∈ flips left right) :
    position < 8 * left.length :=
  List.mem_range.mp (List.mem_of_mem_filter member)

end Flips

/-! ## What the polynomial tells apart -/

theorem polynomial_lt : polynomial < 2 ^ 32 := by decide

theorem polynomial_top : polynomial.testBit 31 = true := by decide

theorem polynomial_odd : Register.weight 32 polynomial % 2 = 1 := by decide

def stepColumns : List Nat := polynomial :: (List.range 31).map fun index => 2 ^ (0 + index)

theorem combine_doubled : Register.combine (Register.square^[31] stepColumns) 1 =
    Register.shift polynomial 1 := by
  decide +kernel

theorem prime_period : (2 ^ 31 - 1).Prime :=
  lucas_lehmer_sufficiency 31 (by norm_num) (by norm_num)

/-- The register comes back to a single bit after `2 ^ 31 - 1` steps. -/
theorem iterate_period : (Register.shift polynomial)^[2 ^ 31 - 1] 1 = 1 := by
  have doubled : (Register.shift polynomial)^[2 ^ 31] 1 = Register.shift polynomial 1 := by
    have known (state : Nat) (small : state < 2 ^ 32) :
        Register.shift polynomial state = Register.combine stepColumns state :=
      Register.shift_eq_combine small
    have columns := Register.iterate_eq_combine
      (fun _ small => Register.shift_lt polynomial_lt small) known 31 (by decide : 1 < 2 ^ 32)
    exact columns.trans combine_doubled
  have bound (count : Nat) : (Register.shift polynomial)^[count] 1 < 2 ^ 32 := by
    induction count with
    | zero => decide
    | succ count induction =>
        rw [Function.iterate_succ_apply']
        exact Register.shift_lt polynomial_lt induction
  have last : 2 ^ 31 = (2 ^ 31 - 1) + 1 := rfl
  rw [last, Function.iterate_succ_apply'] at doubled
  exact shift_injective (bound _) (by decide) doubled

theorem iterate_ne_one {distance : Nat} (positive : 0 < distance)
    (early : distance < 2 ^ 31 - 1) : (Register.shift polynomial)^[distance] 1 ≠ 1 :=
  Register.iterate_ne_of_lt_prime prime_period iterate_period (by decide) positive early

/-! ## Detection -/

section Detection

variable {left right : List UInt8}

theorem checksum_ne_of_odd (same : left.length = right.length)
    (odd : (flips left right).length % 2 = 1) : checksum left ≠ checksum right := by
  intro equal
  rw [checksum_eq_iff same] at equal
  have parity := Register.weight_iterate polynomial_lt polynomial_odd (8 * left.length)
    (decodeLE left ^^^ decodeLE right)
  have bounded : decodeLE left ^^^ decodeLE right < 2 ^ (8 * left.length) := by
    apply Nat.lt_pow_two_of_testBit
    intro position beyond
    rw [testBit_difference_eq same, decide_eq_false_iff_not]
    intro member
    exact absurd (lt_of_mem_flips member) (Nat.not_lt_of_le beyond)
  rw [equal, Nat.add_comm, Register.weight_of_lt bounded, weight_difference, odd] at parity
  exact absurd parity (by decide)

theorem checksum_ne_of_burst (same : left.length = right.length)
    (present : flips left right ≠ [])
    (close : ∀ earlier ∈ flips left right, ∀ later ∈ flips left right, later < earlier + 32) :
    checksum left ≠ checksum right := by
  intro equal
  rw [checksum_eq_iff same] at equal
  rcases List.exists_cons_of_ne_nil present with ⟨first, rest, layout⟩
  have head : first ∈ flips left right := by
    rw [layout]
    exact List.mem_cons_self
  have least (position : Nat) (member : position ∈ flips left right) : first ≤ position := by
    have ordered : (flips left right).Pairwise (· < ·) := flips_ordered
    rw [layout] at ordered member
    rcases List.mem_cons.mp member with rfl | inRest
    · exact Nat.le_refl _
    · exact Nat.le_of_lt (List.rel_of_pairwise_cons ordered inRest)
  -- The difference is the burst, moved up to its first bit.
  have moved : decodeLE left ^^^ decodeLE right =
      2 ^ first * ((decodeLE left ^^^ decodeLE right) / 2 ^ first) := by
    apply Nat.eq_of_testBit_eq
    intro position
    rw [Nat.testBit_two_pow_mul, Nat.testBit_div_two_pow]
    by_cases before : position < first
    · rw [testBit_difference_eq same, decide_eq_false (fun member =>
          absurd (least position member) (Nat.not_le_of_lt before)),
        decide_eq_false (Nat.not_le_of_lt before), Bool.false_and]
    · rw [decide_eq_true (Nat.le_of_not_lt before), Bool.true_and,
        Nat.sub_add_cancel (Nat.le_of_not_lt before)]
  have small : (decodeLE left ^^^ decodeLE right) / 2 ^ first < 2 ^ 32 := by
    apply Nat.lt_pow_two_of_testBit
    intro position beyond
    rw [Nat.testBit_div_two_pow, testBit_difference_eq same, decide_eq_false_iff_not]
    intro member
    have bound := close first head _ member
    omega
  have bit := (testBit_difference same first).mpr head
  have nonzero : (decodeLE left ^^^ decodeLE right) / 2 ^ first ≠ 0 := by
    intro zero
    rw [moved, zero, Nat.mul_zero, Nat.zero_testBit] at bit
    cases bit
  rw [moved] at equal
  exact Register.iterate_two_pow_mul_ne_zero polynomial_lt polynomial_top
    (Nat.le_of_lt (lt_of_mem_flips head)) small nonzero equal

theorem checksum_ne_of_pair (same : left.length = right.length)
    (short : left.length < 2 ^ 28) (pair : (flips left right).length = 2) :
    checksum left ≠ checksum right := by
  intro equal
  rw [checksum_eq_iff same] at equal
  rcases List.length_eq_two.mp pair with ⟨low, high, layout⟩
  have ordered : (flips left right).Pairwise (· < ·) := flips_ordered
  have last : high ∈ flips left right := by
    rw [layout]
    exact List.mem_cons_of_mem _ List.mem_cons_self
  have inside : high < 8 * left.length := lt_of_mem_flips last
  rw [layout] at ordered
  have above : low < high := List.rel_of_pairwise_cons ordered List.mem_cons_self
  rcases Nat.exists_eq_add_of_lt above with ⟨distance, place⟩
  have bits : decodeLE left ^^^ decodeLE right = 2 ^ low ^^^ 2 ^ (low + (distance + 1)) := by
    rw [← Nat.add_assoc, ← place]
    apply Nat.eq_of_testBit_eq
    intro position
    rw [testBit_difference_eq same, layout, Nat.testBit_xor, Nat.testBit_two_pow,
      Nat.testBit_two_pow]
    simp only [List.mem_cons, List.not_mem_nil, or_false]
    by_cases isLow : position = low
    · subst isLow
      simp [Nat.ne_of_lt above, Nat.ne_of_gt above]
    · by_cases isHigh : position = high
      · subst isHigh
        simp [Nat.ne_of_lt above, Nat.ne_of_gt above]
      · simp [isLow, isHigh, Ne.symm isLow, Ne.symm isHigh]
  rw [bits] at equal
  exact Register.iterate_two_bits_ne_zero polynomial_lt polynomial_top (by omega)
    (iterate_ne_one (Nat.succ_pos distance) (by omega)) equal

/-- No burst of at most 32 bits, no odd number of flipped bits and, in a message of
less than `2 ^ 28` bytes, no one, two or three of them go unnoticed. -/
theorem checksum_ne_of_noticeable (same : left.length = right.length)
    (short : left.length < 2 ^ 28) (noticeable : Noticeable left right) :
    checksum left ≠ checksum right := by
  rcases noticeable with ⟨present, close | odd | few⟩
  · exact checksum_ne_of_burst same present close
  · exact checksum_ne_of_odd same odd
  · have some := List.length_pos_of_ne_nil present
    by_cases odd : (flips left right).length % 2 = 1
    · exact checksum_ne_of_odd same odd
    · exact checksum_ne_of_pair same short (by omega)

end Detection

theorem noticeable_set {bytes : List UInt8} {position : Nat} {byte changed : UInt8}
    (found : bytes[position]? = some byte) (differ : byte ≠ changed) :
    Noticeable bytes (bytes.set position changed) := by
  rcases List.getElem?_eq_some_iff.mp found with ⟨inside, _⟩
  have within (bit : Nat) (member : bit ∈ flips bytes (bytes.set position changed)) :
      bit / 8 = position := by
    by_contra elsewhere
    have differs := (List.mem_filter.mp member).2
    rw [bitAt, bitAt, List.getElem?_set_ne (Ne.symm elsewhere)] at differs
    simp at differs
  refine ⟨?_, .inl fun earlier first later second => ?_⟩
  · have numbers : byte.toNat ≠ changed.toNat := fun equal => differ (UInt8.toNat_inj.mp equal)
    rcases Nat.exists_testBit_ne_of_ne numbers with ⟨bit, apart⟩
    have low : bit < 8 := by
      by_contra high
      have power : 2 ^ 8 ≤ 2 ^ bit := Nat.pow_le_pow_right (by decide) (Nat.le_of_not_lt high)
      rw [Nat.testBit_lt_two_pow (Nat.lt_of_lt_of_le byte.toNat_lt power),
        Nat.testBit_lt_two_pow (Nat.lt_of_lt_of_le changed.toNat_lt power)] at apart
      exact apart rfl
    have place : (8 * position + bit) / 8 = position := by omega
    have index : (8 * position + bit) % 8 = bit := by omega
    have member : 8 * position + bit ∈ flips bytes (bytes.set position changed) := by
      rw [flips, List.mem_filter, List.mem_range, bitAt, bitAt, place, index, found,
        List.getElem?_set_self inside]
      exact ⟨by omega, bne_iff_ne.mpr apart⟩
    exact List.ne_nil_of_mem member
  · have start := within earlier first
    have stop := within later second
    omega

/-- A burst of 33 bits can go unnoticed: the polynomial itself. -/
example : checksum [0, 0, 0, 0, 0] = checksum [0xf1, 0x76, 0xec, 0x05, 0x01] := by
  decide +kernel

end BtrfsForensic.Crc32c
