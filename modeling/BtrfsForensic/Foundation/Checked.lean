import BtrfsForensic.Foundation.Packed
import BtrfsForensic.Foundation.Slice
import BtrfsForensic.Foundation.Word

namespace BtrfsForensic

/-! Computations that stop where a machine with overflow checks stops: additions and
multiplications on `usize`, indexing, copies between slices, and loops that must not
run out of steps. -/

inductive Fault
  | overflow
  | outOfBounds
  | lengthMismatch
  | unfinished
  deriving DecidableEq

/-- A value, or the fault on the way to it. -/
abbrev Checked (α : Type u) : Type u := Except Fault α

namespace Checked

def add (left right : Nat) : Checked Nat :=
  if left + right ≤ usizeMax then .ok (left + right) else .error .overflow

def mul (left right : Nat) : Checked Nat :=
  if left * right ≤ usizeMax then .ok (left * right) else .error .overflow

def sub (left right : Nat) : Checked Nat :=
  if right ≤ left then .ok (left - right) else .error .overflow

/-- `left % right`; a divisor of zero panics as an overflow does. -/
def rem (left right : Nat) : Checked Nat :=
  if right = 0 then .error .overflow else .ok (left % right)

/-- `values[index]`. -/
def get {α : Type u} (values : List α) (index : Nat) : Checked α :=
  match values[index]? with
  | some value => .ok value
  | none => .error .outOfBounds

/-- `&values[start..stop]`. -/
def slice {α : Type u} (values : List α) (start stop : Nat) : Checked (List α) :=
  match getRange values start stop with
  | some part => .ok part
  | none => .error .outOfBounds

/-- `target.copy_from_slice(source)` into an array of `length`. -/
def copied {α : Type u} (length : Nat) (source : List α) : Checked (List α) :=
  if source.length = length then .ok source else .error .lengthMismatch

/-- At most `count` entries of one size behind a front part, as many as the data can
hold, each read at `front + i * size`. -/
def table {α β : Type} (data : List β) (front size count : Nat) (entry : Nat → Checked α) :
    Checked (List α) :=
  (List.range (min count ((data.length - front) / size))).mapM fun index => do
    entry (← add front (← mul index size))

def packedLoop {α β : Type} (parse : List α → Checked (Option (β × Nat)))
    (data : List α) : (fuel off : Nat) → Checked (List β)
  | 0, _ => .error .unfinished
  | fuel + 1, off =>
      if data.length < off then
        .ok []
      else do
        match ← parse (data.drop off) with
        | none => .ok []
        | some (record, consumed) =>
            if consumed = 0 then
              .ok [record]
            else do
              let next ← add off consumed
              let rest ← packedLoop parse data fuel next
              return record :: rest

def packed {α β : Type} (parse : List α → Checked (Option (β × Nat)))
    (data : List α) : Checked (List β) :=
  packedLoop parse data (data.length + 2) 0

section Steps

variable {α β : Type u} {left right : Nat}

@[simp] theorem bind_ok (value : α) (next : α → Checked β) :
    (.ok value >>= next : Checked β) = next value := rfl

theorem add_eq (fits : left + right ≤ usizeMax) : add left right = .ok (left + right) :=
  if_pos fits

theorem mul_eq (fits : left * right ≤ usizeMax) : mul left right = .ok (left * right) :=
  if_pos fits

theorem sub_eq (ordered : right ≤ left) : sub left right = .ok (left - right) :=
  if_pos ordered

theorem rem_eq (positive : 0 < right) : rem left right = .ok (left % right) :=
  if_neg (Nat.ne_of_gt positive)

theorem slice_front {values : List α} {count : Nat} (inside : count ≤ values.length) :
    slice values 0 count = .ok (values.take count) := by
  rw [slice, getRange, if_pos ⟨Nat.zero_le count, inside⟩, List.drop_zero, Nat.sub_zero]

theorem get_eq {values : List α} {index : Nat} (inside : index < values.length) :
    get values index = .ok values[index] := by
  rw [get, List.getElem?_eq_getElem inside]

theorem copied_eq {source : List α} {length : Nat} (sized : source.length = length) :
    copied length source = .ok source :=
  if_pos sized

theorem mapM_eq {values : List α} {step : α → Checked β} {result : α → β}
    (each : ∀ value ∈ values, step value = .ok (result value)) :
    values.mapM step = .ok (values.map result) := by
  induction values with
  | nil => rfl
  | cons value values induction =>
      have rest := induction fun next member => each next (List.mem_cons_of_mem _ member)
      rw [List.mapM_cons, each value List.mem_cons_self, rest]
      rfl

theorem foldlM_eq {values : List α} {step : β → α → Checked β} {result : β → α → β}
    (each : ∀ value ∈ values, ∀ state, step state value = .ok (result state value))
    (state : β) : values.foldlM step state = .ok (values.foldl result state) := by
  induction values generalizing state with
  | nil => rfl
  | cons value values induction =>
      rw [List.foldlM_cons, each value List.mem_cons_self, bind_ok, List.foldl_cons]
      exact induction (fun next member => each next (List.mem_cons_of_mem _ member)) _

theorem table_eq {α β : Type} {data : List β} {front size count : Nat}
    {entry : Nat → Checked α} {result : Nat → α} (small : data.length ≤ usizeMax)
    (each : ∀ index, front + index * size + size ≤ data.length →
      entry (front + index * size) = .ok (result index)) :
    table data front size count entry =
      .ok ((List.range (min count ((data.length - front) / size))).map result) := by
  apply mapM_eq
  intro index member
  have bound := List.mem_range.mp member
  have fits : (index + 1) * size ≤ data.length - front :=
    Nat.mul_le_of_le_div size (index + 1) _ (by omega)
  have nonempty : 0 < size := by
    by_contra empty
    rw [Nat.eq_zero_of_not_pos empty, Nat.div_zero] at bound
    omega
  rw [Nat.succ_mul] at fits
  rw [mul_eq (by omega), bind_ok, add_eq (by omega), bind_ok]
  exact each _ (by omega)

end Steps

section Packed

variable {α β : Type} {checked : List α → Checked (Option (β × Nat))}
  {parse : List α → Option (β × Nat)} {data : List α}

/-- Records that end within what is left of the data keep the position within the
data: it neither overflows nor stands still. -/
theorem packedLoop_eq (small : data.length ≤ usizeMax)
    (each : ∀ off ≤ data.length, checked (data.drop off) = .ok (parse (data.drop off)))
    (inside : ∀ rest record consumed, parse rest = some (record, consumed) →
      consumed ≤ rest.length)
    {fuel off : Nat} (started : off ≤ data.length) (enough : data.length + 1 < off + fuel) :
    packedLoop checked data fuel off =
      .ok (BtrfsForensic.packedLoop parse data fuel off) := by
  induction fuel generalizing off with
  | zero => omega
  | succ fuel induction =>
      rw [packedLoop, BtrfsForensic.packedLoop, if_neg (Nat.not_lt_of_le started),
        if_neg (Nat.not_lt_of_le started), each off started]
      cases parsed : parse (data.drop off) with
      | none => rfl
      | some found =>
          have ends := inside (data.drop off) found.1 found.2 parsed
          rw [List.length_drop] at ends
          have step : add off found.2 = .ok (off + found.2) := add_eq (by omega)
          rw [bind_ok]
          dsimp only
          by_cases still : found.2 = 0
          · rw [if_pos still, if_pos still]
          · rw [if_neg still, if_neg still, step, bind_ok,
              induction (by omega) (by omega)]
            rfl

theorem packed_eq (small : data.length ≤ usizeMax)
    (each : ∀ off ≤ data.length, checked (data.drop off) = .ok (parse (data.drop off)))
    (inside : ∀ rest record consumed, parse rest = some (record, consumed) →
      consumed ≤ rest.length) :
    packed checked data = .ok (BtrfsForensic.packed parse data) :=
  packedLoop_eq small each inside (Nat.zero_le _) (by omega)

end Packed

end Checked

end BtrfsForensic
