import BtrfsForensic.Foundation.Slice

namespace BtrfsForensic

/-! A background overlaid with patches, the way a disk image is assembled. An
earlier patch hides a later one. -/

variable {α : Type u}

/-- The element at a position: that of the first patch that covers it. -/
def overlayAt (background : α) : List (Nat × List α) → Nat → α
  | [], _ => background
  | (offset, values) :: rest, index =>
      if offset ≤ index then
        match values[index - offset]? with
        | some value => value
        | none => overlayAt background rest index
      else
        overlayAt background rest index

def overlay (length : Nat) (background : α) (patches : List (Nat × List α)) :
    List α :=
  tabulate length (overlayAt background patches)

@[simp] theorem length_overlay (length : Nat) (background : α)
    (patches : List (Nat × List α)) :
    (overlay length background patches).length = length :=
  length_tabulate _ _

theorem getElem?_overlay {length : Nat} {background : α}
    {patches : List (Nat × List α)} {index : Nat} (inside : index < length) :
    (overlay length background patches)[index]? =
      some (overlayAt background patches index) := by
  rw [overlay, getElem?_tabulate, if_pos inside]

theorem getRange_overlay {length start stop : Nat} {background : α}
    {patches : List (Nat × List α)} (ordered : start ≤ stop)
    (inside : stop ≤ length) :
    getRange (overlay length background patches) start stop =
      some (tabulate (stop - start) fun index =>
        overlayAt background patches (start + index)) :=
  getRange_tabulate ordered inside

/-- A patch shows at every position that no earlier patch covers. -/
theorem overlayAt_cons_of_outside {background : α} {offset index : Nat}
    {values : List α} {rest : List (Nat × List α)}
    (outside : index < offset ∨ offset + values.length ≤ index) :
    overlayAt background ((offset, values) :: rest) index =
      overlayAt background rest index := by
  rw [overlayAt]
  split
  case isTrue reached =>
    rw [List.getElem?_eq_none (by omega)]
  case isFalse => rfl

theorem overlayAt_cons_congr {background : α} {offset index : Nat}
    {values other : List α} {rest otherRest : List (Nat × List α)}
    (same : offset ≤ index → values[index - offset]? = other[index - offset]?)
    (sameRest : overlayAt background rest index =
      overlayAt background otherRest index) :
    overlayAt background ((offset, values) :: rest) index =
      overlayAt background ((offset, other) :: otherRest) index := by
  simp only [overlayAt]
  split
  case isTrue reached => rw [same reached, sameRest]
  case isFalse => exact sameRest

theorem getRange_overlay_patch {length offset : Nat} {background : α}
    {values : List α} (before after : List (Nat × List α))
    (apart : ∀ patch ∈ before, offset + values.length ≤ patch.1 ∨
      patch.1 + patch.2.length ≤ offset)
    (inside : offset + values.length ≤ length) :
    getRange (overlay length background (before ++ (offset, values) :: after))
      offset (offset + values.length) = some values := by
  rw [getRange_overlay (Nat.le_add_right _ _) inside, Nat.add_sub_cancel_left,
    Option.some.injEq]
  apply List.ext_getElem?
  intro index
  rw [getElem?_tabulate]
  split
  case isFalse outside => exact (List.getElem?_eq_none (by omega)).symm
  case isTrue bound =>
    have shown : overlayAt background (before ++ (offset, values) :: after)
        (offset + index) = values[index] := by
      clear inside
      induction before with
      | nil =>
          rw [List.nil_append, overlayAt, if_pos (Nat.le_add_right _ _),
            Nat.add_sub_cancel_left, List.getElem?_eq_getElem bound]
      | cons patch before induction =>
          have outside := apart patch List.mem_cons_self
          rw [List.cons_append, overlayAt_cons_of_outside (by omega)]
          exact induction fun other member =>
            apart other (List.mem_cons_of_mem _ member)
    rw [shown, List.getElem?_eq_getElem bound]

end BtrfsForensic
