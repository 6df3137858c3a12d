import Mathlib.Algebra.GroupWithZero.Nat
import Mathlib.Data.List.Basic

namespace BtrfsForensic

/-! Reads of a list into buffers: one window of it, and windows end to end. -/

section Windows

variable {α : Type u} {ε : Type v}

/-- How many elements a read from `off` yields, and the buffer it leaves. -/
def window (data : List α) (off : Nat) (buf : List α) : Nat × List α :=
  let avail := data.drop off
  let n := min avail.length buf.length
  (n, avail.take n ++ buf.drop n)

/-- What is read into consecutive buffers, each from where the one before it ends. -/
def readThrough (read : Nat → List α → Except ε (Nat × List α)) :
    (off : Nat) → List (List α) → Except ε (List α)
  | _, [] => .ok []
  | off, buf :: bufs => do
      let (n, filled) ← read off buf
      let rest ← readThrough read (off + buf.length) bufs
      return filled.take n ++ rest

variable {data buf : List α} {off : Nat}

theorem take_window :
    (window data off buf).2.take (window data off buf).1 = (data.drop off).take buf.length := by
  have size : ((data.drop off).take (min (data.drop off).length buf.length)).length =
      min (data.drop off).length buf.length := by
    rw [List.length_take, Nat.min_eq_left (Nat.min_le_left _ _)]
  simp only [window]
  rw [List.take_left' size, List.take_eq_take_iff]
  omega

theorem window_past (past : data.length ≤ off) : window data off buf = (0, buf) := by
  simp only [window, List.drop_eq_nil_of_le past, List.length_nil, Nat.zero_min, List.take_nil,
    List.drop_zero, List.nil_append]

theorem readThrough_eq {read : Nat → List α → Except ε (Nat × List α)}
    {bufs : List (List α)}
    (reads : ∀ off ≤ data.length, ∀ buf, read off buf = .ok (window data off buf))
    (total : off + (bufs.map List.length).sum = data.length) :
    readThrough read off bufs = .ok (data.drop off) := by
  induction bufs generalizing off with
  | nil =>
      rw [List.map_nil, List.sum_nil, Nat.add_zero] at total
      rw [readThrough, List.drop_eq_nil_of_le (Nat.le_of_eq total.symm)]
  | cons buf bufs induction =>
      rw [List.map_cons, List.sum_cons, ← Nat.add_assoc] at total
      have rest := induction total
      rw [readThrough, reads off (by omega)]
      simp only [bind, Except.bind, rest, take_window, pure, Except.pure]
      rw [← List.drop_drop, List.take_append_drop]

end Windows

end BtrfsForensic
