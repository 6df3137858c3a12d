import Mathlib.Data.Nat.Bitwise
import Mathlib.Data.List.Count
import Mathlib.Dynamics.PeriodicPts.Lemmas

namespace BtrfsForensic.Register

/-! A shift register with feedback, on numbers of any size: bits leave at the low end,
and a set bit that leaves is fed back. A step is linear in exclusive or, so what a
register makes of two inputs differs by what it makes of their difference. -/

def shift (feedback state : Nat) : Nat :=
  if state % 2 = 1 then (state / 2) ^^^ feedback else state / 2

section Linear

variable {feedback : Nat}

theorem testBit_shift (state index : Nat) :
    (shift feedback state).testBit index =
      ((state.testBit (index + 1)) ^^ (state.testBit 0 && feedback.testBit index)) := by
  rw [shift, Nat.testBit_zero, Nat.testBit_succ]
  split
  case isTrue odd => simp [odd]
  case isFalse even => simp [even]

theorem shift_xor (left right : Nat) :
    shift feedback (left ^^^ right) = shift feedback left ^^^ shift feedback right := by
  apply Nat.eq_of_testBit_eq
  intro index
  simp only [testBit_shift, Nat.testBit_xor]
  cases left.testBit 0 <;> cases right.testBit 0 <;> cases left.testBit (index + 1) <;>
    cases right.testBit (index + 1) <;> cases feedback.testBit index <;> rfl

theorem iterate_xor (count left right : Nat) :
    (shift feedback)^[count] (left ^^^ right) =
      (shift feedback)^[count] left ^^^ (shift feedback)^[count] right := by
  induction count generalizing left right with
  | zero => rfl
  | succ count induction =>
      rw [Function.iterate_succ_apply, Function.iterate_succ_apply,
        Function.iterate_succ_apply, shift_xor, induction]

/-- Low zeros leave without feedback. -/
theorem iterate_two_pow_mul (count state : Nat) :
    (shift feedback)^[count] (2 ^ count * state) = state := by
  induction count with
  | zero => simp
  | succ count induction =>
      have half : shift feedback (2 ^ (count + 1) * state) = 2 ^ count * state := by
        rw [Nat.pow_succ, Nat.mul_assoc, Nat.mul_left_comm, shift, if_neg (by omega)]
        omega
      rw [Function.iterate_succ_apply, half, induction]

end Linear

/-! ## Bursts -/

section Burst

variable {feedback width : Nat}

theorem shift_lt (bounded : feedback < 2 ^ (width + 1)) {state : Nat}
    (small : state < 2 ^ (width + 1)) : shift feedback state < 2 ^ (width + 1) := by
  rw [shift]
  split
  · exact Nat.xor_lt_two_pow (by omega) bounded
  · omega

theorem shift_ne_zero (top : feedback.testBit width = true) {state : Nat}
    (small : state < 2 ^ (width + 1)) (present : state ≠ 0) : shift feedback state ≠ 0 := by
  intro vanishes
  rw [shift] at vanishes
  split at vanishes
  case isTrue =>
    have half : state / 2 = feedback := Nat.xor_eq_zero_iff.mp vanishes
    have low : (state / 2).testBit width = false :=
      Nat.testBit_lt_two_pow (by rw [Nat.pow_succ] at small; omega)
    rw [half, top] at low
    cases low
  case isFalse => omega

/-- A difference that fits the register is never shifted away. -/
theorem iterate_two_pow_mul_ne_zero (bounded : feedback < 2 ^ (width + 1))
    (top : feedback.testBit width = true) {count low word : Nat} (enough : low ≤ count)
    (small : word < 2 ^ (width + 1)) (present : word ≠ 0) :
    (shift feedback)^[count] (2 ^ low * word) ≠ 0 := by
  rcases Nat.exists_eq_add_of_le' enough with ⟨later, rfl⟩
  rw [Function.iterate_add_apply, iterate_two_pow_mul]
  clear enough
  induction later generalizing word with
  | zero => exact present
  | succ later induction =>
      rw [Function.iterate_succ_apply]
      exact induction (shift_lt bounded small) (shift_ne_zero top small present)

end Burst

/-! ## Parity -/

def weight (width state : Nat) : Nat := (List.range width).countP state.testBit

section Parity

variable {feedback width : Nat}

theorem weight_succ (width state : Nat) :
    weight (width + 1) state = weight width state + (state.testBit width).toNat := by
  rw [weight, List.range_succ, List.countP_append, ← weight, List.countP_singleton]
  cases state.testBit width <;> rfl

theorem weight_xor (width left right : Nat) :
    weight width (left ^^^ right) % 2 = (weight width left + weight width right) % 2 := by
  induction width with
  | zero => rfl
  | succ width induction =>
      rw [weight_succ, weight_succ, weight_succ, Nat.testBit_xor]
      cases left.testBit width <;> cases right.testBit width <;>
        simp only [Bool.xor_true, Bool.xor_false, Bool.not_true, Bool.not_false,
          Bool.toNat_true, Bool.toNat_false] <;> omega

theorem weight_succ_eq_half (width state : Nat) :
    weight (width + 1) state = weight width (state / 2) + state % 2 := by
  induction width with
  | zero =>
      rw [weight_succ, Nat.testBit_zero]
      rcases Nat.mod_two_eq_zero_or_one state with even | odd
      · simp [weight, even]
      · simp [weight, odd]
  | succ width induction =>
      rw [weight_succ, induction, weight_succ width, Nat.testBit_succ]
      omega

theorem weight_of_lt {state : Nat} (small : state < 2 ^ width) (more : Nat) :
    weight (width + more) state = weight width state := by
  induction more with
  | zero => rfl
  | succ more induction =>
      have clear : state.testBit (width + more) = false :=
        Nat.testBit_lt_two_pow
          (Nat.lt_of_lt_of_le small (Nat.pow_le_pow_right (by decide) (by omega)))
      rw [Nat.add_succ, weight_succ, induction, clear]
      rfl

theorem weight_shift (odd : weight width feedback % 2 = 1) (state : Nat) :
    weight width (shift feedback state) % 2 = weight (width + 1) state % 2 := by
  rw [weight_succ_eq_half, shift]
  split
  case isTrue set =>
    rw [weight_xor]
    omega
  case isFalse clear =>
    rw [Nat.mod_two_ne_one.mp clear, Nat.add_zero]

theorem weight_iterate (bounded : feedback < 2 ^ width) (odd : weight width feedback % 2 = 1)
    (count state : Nat) :
    weight width ((shift feedback)^[count] state) % 2 = weight (width + count) state % 2 := by
  induction count generalizing state with
  | zero => rfl
  | succ count induction =>
      rw [Function.iterate_succ_apply, induction, weight_shift, Nat.add_assoc]
      rw [weight_of_lt bounded]
      exact odd

end Parity

/-! ## Columns

A linear map is known by its values at the powers of two. -/

/-- The columns at the set bits, added up. -/
def combine : (columns : List Nat) → (state : Nat) → Nat
  | [], _ => 0
  | column :: columns, state =>
      (if state % 2 = 1 then column else 0) ^^^ combine columns (state / 2)

/-- The columns of a map applied twice. -/
def square (columns : List Nat) : List Nat := columns.map (combine columns)

theorem two_pow_mul_add {width low : Nat} (small : low < 2 ^ width) (high : Nat) :
    2 ^ width * high + low = low ^^^ 2 ^ width * high := by
  apply Nat.eq_of_testBit_eq
  intro index
  rw [Nat.testBit_two_pow_mul_add high small, Nat.testBit_xor, Nat.testBit_two_pow_mul]
  by_cases inside : index < width
  · rw [if_pos inside, decide_eq_false (Nat.not_le_of_lt inside), Bool.false_and,
      Bool.xor_false]
  · have beyond : width ≤ index := Nat.le_of_not_lt inside
    have clear : low.testBit index = false :=
      Nat.testBit_lt_two_pow
        (Nat.lt_of_lt_of_le small (Nat.pow_le_pow_right (by decide) beyond))
    rw [if_neg inside, decide_eq_true beyond, Bool.true_and, clear, Bool.false_xor]

section Columns

variable {columns : List Nat} {width : Nat}

theorem combine_xor (left right : Nat) :
    combine columns (left ^^^ right) = combine columns left ^^^ combine columns right := by
  induction columns generalizing left right with
  | nil => exact (Nat.xor_self 0).symm
  | cons column columns induction =>
      have low : (left ^^^ right) % 2 = (left % 2 + right % 2) % 2 := by
        rw [Nat.xor_mod_two_eq, Nat.add_mod]
      have high : (left ^^^ right) / 2 = left / 2 ^^^ right / 2 := Nat.xor_div_two
      rw [combine, combine, combine, low, high, induction]
      rcases Nat.mod_two_eq_zero_or_one left with leftBit | leftBit <;>
        rcases Nat.mod_two_eq_zero_or_one right with rightBit | rightBit <;>
        simp only [leftBit, rightBit] <;> simp [Nat.xor_assoc, Nat.xor_left_comm]

theorem combine_powers (low : Nat) {state : Nat} (small : state < 2 ^ width) :
    combine ((List.range width).map fun index => 2 ^ (low + index)) state =
      2 ^ low * state := by
  induction width generalizing low state with
  | zero =>
      rw [Nat.lt_one_iff.mp small]
      rfl
  | succ width induction =>
      have shifted : (fun index => 2 ^ (low + index)) ∘ Nat.succ =
          fun index => 2 ^ (low + 1 + index) := by
        funext index
        rw [Function.comp_apply, Nat.succ_eq_add_one, Nat.add_assoc, Nat.add_comm 1]
      have halved : 2 ^ (low + 1) * (state / 2) + 2 ^ low * (state % 2) = 2 ^ low * state := by
        rw [Nat.pow_succ, Nat.mul_assoc, ← Nat.mul_add, Nat.div_add_mod]
      rw [List.range_succ_eq_map, List.map_cons, List.map_map, shifted, combine,
        induction (low + 1) (by rw [Nat.pow_succ] at small; omega), ← halved]
      rcases Nat.mod_two_eq_zero_or_one state with even | odd
      · rw [even, if_neg (by decide), Nat.zero_xor, Nat.mul_zero]
        rfl
      · rw [odd, if_pos rfl, Nat.mul_one, Nat.add_zero,
          two_pow_mul_add (Nat.pow_lt_pow_right (by decide) (Nat.lt_succ_self low))]

theorem shift_eq_combine {feedback state : Nat} (small : state < 2 ^ (width + 1)) :
    shift feedback state =
      combine (feedback :: (List.range width).map fun index => 2 ^ (0 + index)) state := by
  rw [combine, combine_powers 0 (by rw [Nat.pow_succ] at small; omega), Nat.pow_zero,
    Nat.one_mul, shift]
  split
  · rw [Nat.xor_comm]
  · rw [Nat.zero_xor]

theorem combine_map {linear : Nat → Nat}
    (additive : ∀ left right, linear (left ^^^ right) = linear left ^^^ linear right)
    (state : Nat) : combine (columns.map linear) state = linear (combine columns state) := by
  have zero : linear 0 = 0 := by
    have twice := additive 0 0
    rwa [Nat.xor_self, Nat.xor_self] at twice
  induction columns generalizing state with
  | nil => exact zero.symm
  | cons column columns induction =>
      rw [List.map_cons, combine, combine, additive, induction]
      congr 1
      split
      · rfl
      · exact zero.symm

/-- Squaring the columns doubles the number of steps. -/
theorem iterate_eq_combine {step : Nat → Nat}
    (stays : ∀ state < 2 ^ width, step state < 2 ^ width)
    (known : ∀ state < 2 ^ width, step state = combine columns state) (count : Nat)
    {state : Nat} (small : state < 2 ^ width) :
    step^[2 ^ count] state = combine (square^[count] columns) state := by
  have iterates (count : Nat) {state : Nat} (small : state < 2 ^ width) :
      step^[count] state < 2 ^ width := by
    induction count generalizing state with
    | zero => exact small
    | succ count induction => exact induction (stays state small)
  induction count generalizing state with
  | zero => exact known state small
  | succ count induction =>
      rw [Nat.pow_succ, Nat.mul_two, Function.iterate_add_apply,
        induction (iterates _ small), induction small, Function.iterate_succ_apply', square,
        combine_map combine_xor]

end Columns

/-! ## Period -/

/-- Two bits are told apart by fewer steps than the period: no state comes back to
itself before a prime number of steps that it does come back after. -/
theorem iterate_ne_of_lt_prime {step : Nat → Nat} {period state : Nat}
    (prime : period.Prime) (returns : step^[period] state = state)
    (moves : step state ≠ state) {count : Nat} (positive : 0 < count)
    (early : count < period) : step^[count] state ≠ state := by
  have fact : Fact period.Prime := ⟨prime⟩
  have minimal : Function.minimalPeriod step state = period :=
    Function.minimalPeriod_eq_prime returns moves
  exact Function.not_isPeriodicPt_of_pos_of_lt_minimalPeriod (Nat.ne_of_gt positive)
    (by rwa [minimal])

/-- A difference in two bits is never shifted away when the lower of them does not
step to itself on the way to the higher. -/
theorem iterate_two_bits_ne_zero {feedback width low distance count : Nat}
    (bounded : feedback < 2 ^ (width + 1)) (top : feedback.testBit width = true)
    (enough : low + distance ≤ count) (apart : (shift feedback)^[distance] 1 ≠ 1) :
    (shift feedback)^[count] (2 ^ low ^^^ 2 ^ (low + distance)) ≠ 0 := by
  rcases Nat.exists_eq_add_of_le' enough with ⟨later, rfl⟩
  have small : 1 < 2 ^ (width + 1) := Nat.one_lt_two_pow (Nat.succ_ne_zero width)
  have iterates (count : Nat) : (shift feedback)^[count] 1 < 2 ^ (width + 1) := by
    induction count with
    | zero => exact small
    | succ count induction =>
        rw [Function.iterate_succ_apply']
        exact shift_lt bounded induction
  have first : (shift feedback)^[low + distance] (2 ^ low) =
      (shift feedback)^[distance] 1 := by
    rw [Nat.add_comm, Function.iterate_add_apply, ← Nat.mul_one (2 ^ low),
      iterate_two_pow_mul]
  have second : (shift feedback)^[low + distance] (2 ^ (low + distance)) = 1 := by
    rw [← Nat.mul_one (2 ^ (low + distance)), iterate_two_pow_mul]
  rw [Function.iterate_add_apply, iterate_xor, first, second]
  have present : (shift feedback)^[distance] 1 ^^^ 1 ≠ 0 :=
    fun equal => apart (Nat.xor_eq_zero_iff.mp equal)
  have kept := iterate_two_pow_mul_ne_zero bounded top (Nat.zero_le later)
    (Nat.xor_lt_two_pow (iterates distance) small) present
  rwa [Nat.pow_zero, Nat.one_mul] at kept

end BtrfsForensic.Register
