import BtrfsForensic.Forensic.Sha256
import BtrfsForensic.Foundation.Fips180
import Mathlib.Tactic.IntervalCases

namespace BtrfsForensic

/-! The auditor's hash is the SHA-256 of FIPS 180-4. -/

namespace Sha256

/-! ## Constants -/

def primes : List Nat := [
  2, 3, 5, 7, 11, 13, 17, 19, 23, 29, 31, 37, 41, 43, 47, 53,
  59, 61, 67, 71, 73, 79, 83, 89, 97, 101, 103, 107, 109, 113, 127, 131,
  137, 139, 149, 151, 157, 163, 167, 173, 179, 181, 191, 193, 197, 199, 211, 223,
  227, 229, 233, 239, 241, 251, 257, 263, 269, 271, 277, 281, 283, 293, 307, 311]

theorem primes_eq : (List.range 312).filter Nat.Prime = primes := by
  have small (value : Nat) (member : value ∈ List.range 312) : decide value.Prime =
      decide (2 ≤ value ∧
        ∀ factor ∈ List.range 18, 2 ≤ factor → value % factor = 0 → factor = value) := by
    have bound := List.mem_range.mp member
    exact decide_eq_decide.mpr (Fips180.prime_iff_of_lt (show value < 18 ^ 2 by omega))
  rw [List.filter_congr small]
  decide +kernel

/-- A word holds the first thirty-two bits behind the integer part of a root, which is
below eight. -/
def HoldsRoot (degree prime : Nat) (word : UInt32) : Prop :=
  let root := Nat.findGreatest (fun whole => whole ^ degree ≤ prime) 8 * 2 ^ 32 + word.toNat
  root ^ degree ≤ prime * (2 ^ 32) ^ degree ∧ prime * (2 ^ 32) ^ degree < (root + 1) ^ degree

instance (degree prime : Nat) (word : UInt32) : Decidable (HoldsRoot degree prime word) :=
  inferInstanceAs (Decidable (_ ∧ _))

theorem fractionWord_primeRoot {degree index prime : Nat} {word : UInt32} (positive : degree ≠ 0)
    (found : primes[index]? = some prime) (holds : HoldsRoot degree prime word) :
    word.toBitVec = Fips180.fractionWord (Fips180.primeRoot degree index) := by
  rw [← primes_eq] at found
  rw [Fips180.primeRoot, Fips180.nth_prime found,
    Fips180.fractionWord_root positive holds.1 holds.2, ← BitVec.toNat_inj, BitVec.toNat_ofNat,
    Nat.mul_add_mod_self_right, Nat.mod_eq_of_lt word.toNat_lt, UInt32.toNat_toBitVec]

theorem toBitVec_k {t : Nat} (small : t < 64) : k[t]!.toBitVec = Fips180.roundConstant t := by
  have held : ∀ t < 64, HoldsRoot 3 (primes.getD t 0) k[t]! := by decide +kernel
  have inside : t < primes.length := small
  have found : primes[t]? = some (primes.getD t 0) := by
    rw [List.getD_eq_getElem?_getD, List.getElem?_eq_getElem inside, Option.getD_some]
  exact fractionWord_primeRoot (by decide) found (held t small)

/-! ## Words -/

theorem toBitVec_rotateRight {word count : UInt32} (lower : 0 < count.toNat)
    (upper : count.toNat < 32) :
    (rotateRight word count).toBitVec = word.toBitVec.rotateRight count.toNat := by
  have right : (count.toBitVec % 32).toNat = count.toNat := by
    rw [BitVec.toNat_umod]
    exact Nat.mod_eq_of_lt upper
  have left : ((32 - count).toBitVec % 32).toNat = 32 - count.toNat := by
    rw [BitVec.toNat_umod, UInt32.toNat_toBitVec, UInt32.toNat_sub_of_le]
    · exact Nat.mod_eq_of_lt (Nat.sub_lt (by decide) lower)
    · exact UInt32.le_iff_toNat_le.mpr (Nat.le_of_lt upper)
  rw [rotateRight, BitVec.rotateRight_def, Nat.mod_eq_of_lt upper, UInt32.toBitVec_or,
    UInt32.toBitVec_shiftRight, UInt32.toBitVec_shiftLeft, BitVec.ushiftRight_eq', right,
    BitVec.shiftLeft_eq', left]

theorem numeral_ofBytes (bytes : Bytes) :
    Fips180.numeral (Fips180.ofBytes bytes) = decodeLE bytes.reverse := by
  induction bytes with
  | nil => rfl
  | cons byte bytes induction =>
      have first : Fips180.numeral (Fips180.ofBytes [byte]) = byte.toNat := by
        rw [Fips180.ofBytes, List.flatMap_singleton, Fips180.numeral_binary,
          Nat.mod_eq_of_lt byte.toNat_lt]
      rw [← List.singleton_append, Fips180.ofBytes_append, Fips180.numeral_append, induction,
        first, Fips180.length_ofBytes, List.reverse_append, decodeLE_append, List.length_reverse,
        show [byte].reverse = [byte] from rfl, decodeLE, decodeLE, Nat.mul_zero, Nat.add_zero,
        Nat.pow_mul, Nat.add_comm, Nat.mul_comm]

theorem toBitVec_word (msg : Bytes) (index : Nat) {t : Nat} (small : t < 16) :
    (word ((msg.drop (index * 64)).take 64) t).toBitVec =
      Fips180.messageWord (Fips180.ofBytes msg) index t := by
  have bytes : (((msg.drop (index * 64)).take 64).drop (t * 4)).take 4 =
      (msg.drop (index * 64 + t * 4)).take 4 := by
    rw [List.drop_take, List.take_take, List.drop_drop, Nat.min_eq_left (by omega)]
  have bits : ((Fips180.ofBytes msg).drop (512 * index + 32 * t)).take 32 =
      Fips180.ofBytes ((msg.drop (index * 64 + t * 4)).take 4) := by
    rw [Fips180.ofBytes_take, Fips180.ofBytes_drop]
    congr 2
    omega
  rw [word, bytes, Fips180.messageWord, bits, numeral_ofBytes]
  rfl

/-! ## Message schedule -/

section Schedule

variable {message : Nat → Fips180.Word}

theorem toBitVec_s0 (word : UInt32) :
    (rotateRight word 7 ^^^ rotateRight word 18 ^^^ (word >>> 3)).toBitVec =
      Fips180.lowerSigma0 word.toBitVec := by
  rw [UInt32.toBitVec_xor, UInt32.toBitVec_xor, toBitVec_rotateRight (by decide) (by decide),
    toBitVec_rotateRight (by decide) (by decide)]
  rfl

theorem toBitVec_s1 (word : UInt32) :
    (rotateRight word 17 ^^^ rotateRight word 19 ^^^ (word >>> 10)).toBitVec =
      Fips180.lowerSigma1 word.toBitVec := by
  rw [UInt32.toBitVec_xor, UInt32.toBitVec_xor, toBitVec_rotateRight (by decide) (by decide),
    toBitVec_rotateRight (by decide) (by decide)]
  rfl

def derived (w : Vector UInt32 64) (i : Nat) : UInt32 :=
  w[i - 16]! +
    (rotateRight w[i - 15]! 7 ^^^ rotateRight w[i - 15]! 18 ^^^ (w[i - 15]! >>> 3)) +
    w[i - 7]! +
    (rotateRight w[i - 2]! 17 ^^^ rotateRight w[i - 2]! 19 ^^^ (w[i - 2]! >>> 10))

/-- The words scheduled so far stay as they are; the next one is derived from them. -/
theorem toBitVec_foldl_set {start : Vector UInt32 64}
    (first : ∀ t < 16, start[t]!.toBitVec = message t) {count : Nat} (bound : count ≤ 48) :
    ∀ t < 16 + count,
      ((List.range count).foldl (fun w step => w.set! (step + 16) (derived w (step + 16)))
        start)[t]!.toBitVec = Fips180.schedule message t := by
  induction count with
  | zero =>
      intro t small
      rw [Fips180.schedule_of_lt small]
      exact first t small
  | succ count induction =>
      intro t small
      have known := induction (Nat.le_of_succ_le bound)
      rw [List.range_succ, List.foldl_append, List.foldl_cons, List.foldl_nil]
      generalize (List.range count).foldl (fun w step =>
        w.set! (step + 16) (derived w (step + 16))) start = w at known ⊢
      have inside : t < 64 := by omega
      rw [getElem!_pos _ t inside]
      change (w.setIfInBounds (count + 16) (derived w (count + 16)))[t].toBitVec = _
      rw [Vector.getElem_setIfInBounds]
      by_cases next : count + 16 = t
      · rw [if_pos next, next, Fips180.schedule_of_le (by omega), derived, UInt32.toBitVec_add,
          UInt32.toBitVec_add, UInt32.toBitVec_add, toBitVec_s0, toBitVec_s1, known _ (by omega),
          known _ (by omega), known _ (by omega), known _ (by omega)]
        ac_rfl
      · rw [if_neg next, ← getElem!_pos w t inside]
        exact known t (by omega)

theorem toBitVec_schedule {chunk : Bytes}
    (words : ∀ t < 16, (word chunk t).toBitVec = message t) {t : Nat} (small : t < 64) :
    (schedule chunk)[t]!.toBitVec = Fips180.schedule message t := by
  apply toBitVec_foldl_set ?_ (Nat.le_refl 48) t small
  intro t first
  have inside : t < 64 := by omega
  rw [getElem!_pos _ t inside, Vector.getElem_ofFn, if_pos first]
  exact words t first

end Schedule

/-! ## Rounds -/

/-- The working words by the names of the standard. -/
def view (v : Vector UInt32 8) : Fips180.Variables where
  a := (v.get 0).toBitVec
  b := (v.get 1).toBitVec
  c := (v.get 2).toBitVec
  d := (v.get 3).toBitVec
  e := (v.get 4).toBitVec
  f := (v.get 5).toBitVec
  g := (v.get 6).toBitVec
  h := (v.get 7).toBitVec

theorem get_eq (v : Vector UInt32 8) (index : Fin 8) : v.get index = v[index.val] := rfl

/-- Moved in place, the words are those that the standard assigns at once. -/
theorem view_round {w : Vector UInt32 64} {message : Nat → Fips180.Word}
    (scheduled : ∀ t < 64, w[t]!.toBitVec = Fips180.schedule message t) (v : Vector UInt32 8)
    {t : Nat} (small : t < 64) :
    view (round w v t) = (view v).round (Fips180.schedule message) t := by
  have upper0 : (rotateRight v[0] 2 ^^^ rotateRight v[0] 13 ^^^ rotateRight v[0] 22).toBitVec =
      Fips180.upperSigma0 v[0].toBitVec := by
    simp (disch := decide) only [UInt32.toBitVec_xor, toBitVec_rotateRight]
    rfl
  have upper1 : (rotateRight v[4] 6 ^^^ rotateRight v[4] 11 ^^^ rotateRight v[4] 25).toBitVec =
      Fips180.upperSigma1 v[4].toBitVec := by
    simp (disch := decide) only [UInt32.toBitVec_xor, toBitVec_rotateRight]
    rfl
  simp only [view, round, Fips180.Variables.round, get_eq, Vector.getElem_set,
    Fin.isValue, Fin.coe_ofNat_eq_mod, Nat.reduceMod]
  simp only [Nat.reduceEqDiff, OfNat.ofNat_ne_zero, OfNat.ofNat_ne_one, one_ne_zero, reduceCtorEq,
    reduceIte, UInt32.toBitVec_add, upper0, upper1, toBitVec_k small, scheduled t small]
  rfl

theorem view_compress {chunk : Bytes} {message : Nat → Fips180.Word}
    (words : ∀ t < 16, (word chunk t).toBitVec = message t) (h : Vector UInt32 8) :
    view (compress h chunk) = (view h).next message := by
  have scheduled : ∀ t < 64, (schedule chunk)[t]!.toBitVec = Fips180.schedule message t :=
    fun t small => toBitVec_schedule words small
  have rounds : ∀ count ≤ 64, view ((List.range count).foldl (round (schedule chunk)) h) =
      (List.range count).foldl (Fips180.Variables.round (Fips180.schedule message)) (view h) := by
    intro count
    induction count with
    | zero => exact fun _ => rfl
    | succ count induction =>
        intro bound
        rw [List.range_succ, List.foldl_append, List.foldl_append, ← induction (by omega)]
        exact view_round scheduled _ (by omega)
  rw [Fips180.Variables.next, ← rounds 64 (Nat.le_refl 64)]
  change view (Vector.zipWith (· + ·) h ((List.range 64).foldl (round (schedule chunk)) h)) = _
  generalize (List.range 64).foldl (round (schedule chunk)) h = v
  simp only [view, Fips180.Variables.add, get_eq, Vector.getElem_zipWith,
    UInt32.toBitVec_add, BitVec.add_comm]

theorem view_initial : view initial = Fips180.Variables.initial := by
  have held : ∀ index < 8, HoldsRoot 2 (primes.getD index 0) initial[index]! := by decide +kernel
  have known (index : Nat) (small : index < 8) :
      initial[index]!.toBitVec = Fips180.initialWord index := by
    have inside : index < primes.length := Nat.lt_trans small (by decide)
    have found : primes[index]? = some (primes.getD index 0) := by
      rw [List.getD_eq_getElem?_getD, List.getElem?_eq_getElem inside, Option.getD_some]
    exact fractionWord_primeRoot (by decide) found (held index small)
  rw [Fips180.Variables.initial, ← known 0 (by decide), ← known 1 (by decide),
    ← known 2 (by decide), ← known 3 (by decide), ← known 4 (by decide), ← known 5 (by decide),
    ← known 6 (by decide), ← known 7 (by decide)]
  rfl

theorem view_foldl_compress (msg : Bytes) :
    view ((chunks msg).foldl compress initial) =
      Fips180.Variables.chained (Fips180.ofBytes msg) (msg.length / 64) := by
  rw [chunks]
  generalize msg.length / 64 = count
  induction count with
  | zero => exact view_initial
  | succ count induction =>
      rw [List.range_succ, List.map_append, List.foldl_append, List.map_singleton,
        List.foldl_cons, List.foldl_nil, Fips180.Variables.chained, ← induction]
      exact view_compress (fun t small => toBitVec_word msg count small) _

/-! ## Padding -/

theorem ofBytes_replicate_zero (count : Nat) :
    Fips180.ofBytes (List.replicate count 0) = List.replicate (8 * count) false := by
  induction count with
  | zero => rfl
  | succ count induction =>
      rw [List.replicate_succ, ← List.singleton_append, Fips180.ofBytes_append, induction,
        Nat.mul_succ, Nat.add_comm, List.replicate_add]
      rfl

theorem ofBytes_reverse_encodeLE (width value : Nat) :
    Fips180.ofBytes (encodeLE width value).reverse = Fips180.binary (8 * width) value := by
  induction width generalizing value with
  | zero => rfl
  | succ width induction =>
      rw [encodeLE, List.reverse_cons, Fips180.ofBytes_append, induction, Nat.mul_succ,
        Fips180.binary_add, Fips180.ofBytes, List.flatMap_singleton, UInt8.toNat_ofNat',
        Fips180.binary_mod, show 2 ^ 8 = 256 from rfl]

theorem ofBytes_pad (data : Bytes) :
    Fips180.ofBytes (pad data) = Fips180.padded (Fips180.ofBytes data) := by
  have one : Fips180.ofBytes [0x80] = true :: List.replicate 7 false := by decide
  have zeros : Fips180.zeros (Fips180.ofBytes data).length =
      7 + 8 * ((120 - (data ++ [0x80]).length % 64) % 64) := by
    rw [Fips180.zeros_eq, Fips180.length_ofBytes, List.length_append, List.length_singleton]
    omega
  rw [Fips180.padded, zeros, List.replicate_add, pad, padZeros_eq (by omega),
    Fips180.ofBytes_append, Fips180.ofBytes_append, Fips180.ofBytes_append, one,
    ofBytes_replicate_zero, ofBytes_reverse_encodeLE, Fips180.binary_mod,
    Fips180.length_ofBytes, Nat.mul_comm data.length 8]
  simp only [List.append_assoc, List.cons_append]

/-! ## The digest -/

theorem hexDigit_eq {value : Nat} (small : value < 16) :
    hexDigit value = "0123456789abcdef".toList.getD value '0' := by
  have digits : ∀ value < 16, hexDigit value = "0123456789abcdef".toList.getD value '0' := by
    decide
  exact digits value small

theorem hexWord_eq (word : UInt32) :
    hexWord word = Fips180.hexadecimal (Fips180.binary 32 word.toNat) := by
  rw [hexWord, Fips180.hexadecimal, Fips180.length_binary]
  apply List.map_congr_left
  intro index member
  have inside := List.mem_range.mp member
  have cut := Fips180.take_drop_binary (4 * index) 4 (4 * (7 - index)) word.toNat
  rw [show 4 * index + (4 + 4 * (7 - index)) = 32 by omega] at cut
  rw [cut, Fips180.numeral_binary, hexDigit_eq (Nat.mod_lt _ (by decide)), Nat.pow_mul]
  rfl

theorem hexadecimal_words (words : List UInt32) :
    words.flatMap hexWord =
      Fips180.hexadecimal (words.flatMap fun word => Fips180.binary 32 word.toNat) := by
  induction words with
  | nil => rfl
  | cons word words induction =>
      rw [List.flatMap_cons, List.flatMap_cons, Fips180.hexadecimal_append
        (by rw [Fips180.length_binary]), induction, hexWord_eq]

theorem words_view (h : Vector UInt32 8) :
    (view h).words = h.toList.map UInt32.toBitVec := by
  apply List.ext_getElem
  · rw [List.length_map, Vector.length_toList]
    rfl
  · intro index inside _
    have small : index < 8 := inside
    rw [List.getElem_map, Vector.getElem_toList]
    interval_cases index <;> rfl

/-- The hash of any data is its SHA-256 in lower-case hexadecimal. -/
theorem sha256Hex_eq (data : Bytes) :
    sha256Hex data =
      String.ofList (Fips180.hexadecimal (Fips180.sha256 (Fips180.ofBytes data))) := by
  have count : (Fips180.ofBytes (pad data)).length / 512 = (pad data).length / 64 := by
    rw [Fips180.length_ofBytes]
    omega
  rw [sha256Hex, Fips180.sha256, ← ofBytes_pad, count, ← view_foldl_compress, words_view,
    List.flatMap_map, hexadecimal_words]
  rfl

example : sha256Hex [0x61, 0x62, 0x63] =
    "ba7816bf8f01cfea414140de5dae2223b00361a396177a9cb410ff61f20015ad" := by decide +kernel

end Sha256

end BtrfsForensic
