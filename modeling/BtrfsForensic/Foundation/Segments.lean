import Mathlib.Data.List.Basic
import Mathlib.Data.List.Pairwise

namespace BtrfsForensic.Segments

/-! Joining segments that each belong at an offset. The joined values, cut or
padded to a size, put every segment at its offset exactly when no segment that
is joined too early shows anything but padding. -/

variable {α : Type u}

def Covers (segment : Nat × List α) (position : Nat) : Prop :=
  segment.1 ≤ position ∧ position < segment.1 + segment.2.length

def Apart (first second : Nat × List α) : Prop :=
  ∀ position, ¬(Covers first position ∧ Covers second position)

def joined (segments : List (Nat × List α)) : List α := segments.flatMap Prod.snd

/-- Where the segment of a given number starts among the joined values. -/
def start (segments : List (Nat × List α)) (index : Nat) : Nat :=
  (joined (segments.take index)).length

/-- The values cut or padded to `size`. -/
def Padded (zero : α) (size : Nat) (values padded : List α) : Prop :=
  padded.length = size ∧
    ∀ position < size, padded[position]? = some ((values[position]?).getD zero)

/-- Every segment lies at its offset, and what no segment covers is zero. -/
def Placed (zero : α) (size : Nat) (segments : List (Nat × List α))
    (values : List α) : Prop :=
  (∀ segment ∈ segments, ∀ index value, segment.2[index]? = some value →
    segment.1 + index < size → values[segment.1 + index]? = some value) ∧
  ∀ position < size, (∀ segment ∈ segments, ¬Covers segment position) →
    values[position]? = some zero

/-- A segment starts where it belongs, or shows only zeros. -/
def NoVisibleGap (zero : α) (size : Nat) (segments : List (Nat × List α)) : Prop :=
  ∀ number segment, segments[number]? = some segment →
    start segments number = segment.1 ∨
      ∀ index value, segment.2[index]? = some value →
        start segments number + index < size → value = zero

theorem placed_perm {zero : α} {size : Nat} {segments other : List (Nat × List α)}
    {values : List α} (perm : segments.Perm other) :
    Placed zero size segments values ↔ Placed zero size other values := by
  simp only [Placed, perm.mem_iff]

/-! ## Positions among the joined values -/

section Positions

variable {segments : List (Nat × List α)} {segment other : Nat × List α}
  {number otherNumber index : Nat}

@[simp] theorem joined_nil : joined ([] : List (Nat × List α)) = [] := rfl

@[simp] theorem joined_cons (segment : Nat × List α)
    (segments : List (Nat × List α)) :
    joined (segment :: segments) = segment.2 ++ joined segments := rfl

@[simp] theorem start_zero (segments : List (Nat × List α)) :
    start segments 0 = 0 := rfl

@[simp] theorem start_cons_succ (segment : Nat × List α)
    (segments : List (Nat × List α)) (number : Nat) :
    start (segment :: segments) (number + 1) =
      segment.2.length + start segments number := by
  simp [start]

theorem start_succ (found : segments[number]? = some segment) :
    start segments (number + 1) = start segments number + segment.2.length := by
  induction segments generalizing number with
  | nil => cases found
  | cons head segments induction =>
      cases number with
      | zero =>
          simp only [List.getElem?_cons_zero, Option.some.injEq] at found
          simp [found]
      | succ number =>
          rw [List.getElem?_cons_succ] at found
          rw [start_cons_succ, start_cons_succ, induction found, Nat.add_assoc]

theorem start_mono (ordered : number ≤ otherNumber) :
    start segments number ≤ start segments otherNumber := by
  induction segments generalizing number otherNumber with
  | nil => simp [start]
  | cons head segments induction =>
      cases number with
      | zero => simp
      | succ number =>
          cases otherNumber with
          | zero => omega
          | succ otherNumber =>
              have rest := induction (Nat.le_of_succ_le_succ ordered)
              rw [start_cons_succ, start_cons_succ]
              omega

theorem getElem?_joined (found : segments[number]? = some segment)
    (inside : index < segment.2.length) :
    (joined segments)[start segments number + index]? = segment.2[index]? := by
  induction segments generalizing number with
  | nil => cases found
  | cons head segments induction =>
      cases number with
      | zero =>
          simp only [List.getElem?_cons_zero, Option.some.injEq] at found
          rw [joined_cons, start_zero, Nat.zero_add, found,
            List.getElem?_append_left inside]
      | succ number =>
          rw [List.getElem?_cons_succ] at found
          rw [joined_cons, start_cons_succ, Nat.add_assoc,
            List.getElem?_append_right (Nat.le_add_right _ _),
            Nat.add_sub_cancel_left]
          exact induction found

theorem exists_of_lt_length {position : Nat}
    (inside : position < (joined segments).length) :
    ∃ number segment index, segments[number]? = some segment ∧
      index < segment.2.length ∧ start segments number + index = position := by
  induction segments generalizing position with
  | nil => cases inside
  | cons head segments induction =>
      rw [joined_cons, List.length_append] at inside
      by_cases early : position < head.2.length
      · exact ⟨0, head, position, rfl, early, by simp⟩
      · rcases induction (by omega : position - head.2.length < _) with
          ⟨number, segment, index, found, bound, equal⟩
        refine ⟨number + 1, segment, index, found, bound, ?_⟩
        rw [start_cons_succ]
        omega

theorem number_eq_of_position {otherIndex : Nat}
    (found : segments[number]? = some segment) (inside : index < segment.2.length)
    (otherFound : segments[otherNumber]? = some other)
    (otherInside : otherIndex < other.2.length)
    (equal : start segments number + index =
      start segments otherNumber + otherIndex) : number = otherNumber := by
  have next := start_succ found
  have otherNext := start_succ otherFound
  rcases Nat.lt_trichotomy number otherNumber with before | same | after
  · have ordered : start segments (number + 1) ≤ start segments otherNumber :=
      start_mono before
    omega
  · exact same
  · have ordered : start segments (otherNumber + 1) ≤ start segments number :=
      start_mono after
    omega

/-! ## Sorted segments that lie apart -/

theorem apart_symm {first second : Nat × List α} (apart : Apart first second) :
    Apart second first :=
  fun position both => apart position both.symm

theorem number_eq_of_covers (apart : segments.Pairwise Apart)
    (found : segments[number]? = some segment)
    (otherFound : segments[otherNumber]? = some other) {position : Nat}
    (covers : Covers segment position) (otherCovers : Covers other position) :
    number = otherNumber := by
  rcases List.getElem?_eq_some_iff.mp found with ⟨bound, rfl⟩
  rcases List.getElem?_eq_some_iff.mp otherFound with ⟨otherBound, rfl⟩
  rcases Nat.lt_trichotomy number otherNumber with before | same | after
  · exact absurd ⟨covers, otherCovers⟩
      (List.pairwise_iff_getElem.mp apart _ _ bound otherBound before position)
  · exact same
  · exact absurd ⟨otherCovers, covers⟩
      (List.pairwise_iff_getElem.mp apart _ _ otherBound bound after position)

theorem end_le_offset (sorted : segments.Pairwise fun first second =>
      first.1 ≤ second.1) (apart : segments.Pairwise Apart)
    (before : number < otherNumber) (found : segments[number]? = some segment)
    (otherFound : segments[otherNumber]? = some other)
    (otherNonempty : 0 < other.2.length) :
    segment.1 + segment.2.length ≤ other.1 := by
  by_contra beyond
  have ordered : segment.1 ≤ other.1 := by
    rcases List.getElem?_eq_some_iff.mp found with ⟨bound, rfl⟩
    rcases List.getElem?_eq_some_iff.mp otherFound with ⟨otherBound, rfl⟩
    exact List.pairwise_iff_getElem.mp sorted _ _ bound otherBound before
  have covers : Covers segment other.1 := ⟨ordered, by omega⟩
  have own : Covers other other.1 := ⟨Nat.le_refl _, by omega⟩
  have same := number_eq_of_covers apart found otherFound covers own
  omega

/-- A bound on where the earlier segments end bounds where the next starts. The
induction is on the number of earlier segments: all before a segment that is not
empty end at its offset or before. -/
theorem start_le_of_ends_le (sorted : segments.Pairwise fun first second =>
      first.1 ≤ second.1) (apart : segments.Pairwise Apart) :
    ∀ {number bound : Nat}, number ≤ segments.length →
      (∀ earlier < number, ∀ segment, segments[earlier]? = some segment →
        0 < segment.2.length → segment.1 + segment.2.length ≤ bound) →
      start segments number ≤ bound
  | 0, _, _, _ => Nat.zero_le _
  | number + 1, bound, inside, ends => by
      have found := List.getElem?_eq_getElem (Nat.lt_of_succ_le inside)
      rw [start_succ found]
      by_cases empty : (segments[number]).2.length = 0
      · have rest := start_le_of_ends_le sorted apart (Nat.le_of_succ_le inside)
          fun earlier before => ends earlier (Nat.lt_succ_of_lt before)
        omega
      · have nonempty := Nat.pos_of_ne_zero empty
        have own := ends number (Nat.lt_succ_self _) _ found nonempty
        have rest := start_le_of_ends_le sorted apart (Nat.le_of_succ_le inside)
          fun earlier before segment earlierFound _ =>
            end_le_offset sorted apart before earlierFound found nonempty
        omega

theorem start_le (sorted : segments.Pairwise fun first second => first.1 ≤ second.1)
    (apart : segments.Pairwise Apart) (found : segments[number]? = some segment)
    (nonempty : 0 < segment.2.length) : start segments number ≤ segment.1 := by
  have bound := (List.getElem?_eq_some_iff.mp found).1
  exact start_le_of_ends_le sorted apart (Nat.le_of_lt bound)
    fun earlier before other earlierFound _ =>
      end_le_offset sorted apart before earlierFound found nonempty

end Positions

/-! ## When joining places every segment -/

section Placing

variable {zero : α} {size : Nat} {segments : List (Nat × List α)}
  {values padded : List α}

theorem getElem?_padded (pads : Padded zero size (joined segments) padded)
    {number index : Nat} {segment : Nat × List α} {value : α}
    (found : segments[number]? = some segment)
    (held : segment.2[index]? = some value)
    (visible : start segments number + index < size) :
    padded[start segments number + index]? = some value := by
  have inside := (List.getElem?_eq_some_iff.mp held).1
  rw [pads.2 _ visible, getElem?_joined found inside, held, Option.getD_some]

theorem padded_cases (pads : Padded zero size (joined segments) padded)
    {position : Nat} (visible : position < size) :
    padded[position]? = some zero ∨
      ∃ number segment index value, segments[number]? = some segment ∧
        segment.2[index]? = some value ∧ start segments number + index = position ∧
        padded[position]? = some value := by
  by_cases inside : position < (joined segments).length
  · rcases exists_of_lt_length inside with ⟨number, segment, index, found, bound, rfl⟩
    have held := List.getElem?_eq_getElem bound
    exact .inr ⟨number, segment, index, _, found, held, rfl,
      getElem?_padded pads found held visible⟩
  · left
    rw [pads.2 _ visible, List.getElem?_eq_none (by omega), Option.getD_none]

variable (sorted : segments.Pairwise fun first second => first.1 ≤ second.1)
  (apart : segments.Pairwise Apart)
  (pads : Padded zero size (joined segments) padded)

include sorted apart pads

/-- By strong induction on the position a value shows at: what a segment joined
too early shows there belongs to a segment whose own value shows earlier. -/
theorem noVisibleGap_of_placed (placed : Placed zero size segments padded) :
    NoVisibleGap zero size segments := by
  intro number segment found
  by_cases early : start segments number = segment.1
  · exact .inl early
  · right
    intro index value held visible
    induction equal : start segments number + index using Nat.strongRecOn
      generalizing number segment index value with
    | ind position induction =>
        subst equal
        have inside := (List.getElem?_eq_some_iff.mp held).1
        have shown := getElem?_padded pads found held visible
        by_cases covered : ∃ other ∈ segments,
            Covers other (start segments number + index)
        · rcases covered with ⟨other, member, covers⟩
          rcases List.mem_iff_getElem?.mp member with ⟨otherNumber, otherFound⟩
          rcases covers with ⟨lower, upper⟩
          have otherInside : start segments number + index - other.1 <
              other.2.length := by omega
          have otherHeld := List.getElem?_eq_getElem otherInside
          have back : other.1 + (start segments number + index - other.1) =
              start segments number + index := by omega
          have same := placed.1 other member _ _ otherHeld (by omega)
          rw [back, shown, Option.some.injEq] at same
          have otherStart := start_le sorted apart otherFound (by omega)
          by_cases otherEarly : start segments otherNumber = other.1
          · have sameNumber := number_eq_of_position found inside otherFound
              otherInside (by omega)
            subst sameNumber
            rw [found, Option.some.injEq] at otherFound
            exact absurd (otherFound ▸ otherEarly) early
          · rw [same]
            exact induction _ (by omega) otherNumber other otherFound otherEarly _ _
              otherHeld (by omega) rfl
        · have zeroShown := placed.2 _ visible fun other member covers =>
            covered ⟨other, member, covers⟩
          rw [shown, Option.some.injEq] at zeroShown
          exact zeroShown

theorem placed_of_noVisibleGap (noGap : NoVisibleGap zero size segments) :
    Placed zero size segments padded := by
  constructor
  · intro segment member index value held visible
    rcases List.mem_iff_getElem?.mp member with ⟨number, found⟩
    have inside := (List.getElem?_eq_some_iff.mp held).1
    have notLate := start_le sorted apart found (by omega)
    rcases noGap number segment found with equal | zeros
    · rw [← equal] at visible ⊢
      exact getElem?_padded pads found held visible
    · have zeroValue := zeros index value held (by omega)
      rcases padded_cases pads visible with
        blank | ⟨otherNumber, other, otherIndex, otherValue, otherFound, otherHeld,
          place, shown⟩
      · rw [zeroValue]
        exact blank
      · rcases noGap otherNumber other otherFound with otherEqual | otherZeros
        · have otherInside := (List.getElem?_eq_some_iff.mp otherHeld).1
          have covers : Covers segment (segment.1 + index) := ⟨by omega, by omega⟩
          have otherCovers : Covers other (segment.1 + index) :=
            ⟨by omega, by omega⟩
          have same := number_eq_of_covers apart found otherFound covers otherCovers
          subst same
          rw [found, Option.some.injEq] at otherFound
          subst otherFound
          have sameIndex : otherIndex = index := by omega
          rw [sameIndex, held] at otherHeld
          rw [otherHeld]
          exact shown
        · rw [shown, zeroValue,
            otherZeros otherIndex otherValue otherHeld (by omega)]
  · intro position visible uncovered
    rcases padded_cases pads visible with
      blank | ⟨number, segment, index, value, found, held, place, shown⟩
    · exact blank
    · have inside := (List.getElem?_eq_some_iff.mp held).1
      rcases noGap number segment found with equal | zeros
      · exact absurd (⟨by omega, by omega⟩ : Covers segment position)
          (uncovered segment (List.mem_of_getElem? found))
      · rw [shown, zeros index value held (by omega)]

/-- Joining segments in the order of their offsets puts them where they belong
exactly when none of them is visibly joined too early. -/
theorem placed_iff_noVisibleGap :
    Placed zero size segments padded ↔ NoVisibleGap zero size segments :=
  ⟨noVisibleGap_of_placed sorted apart pads, placed_of_noVisibleGap sorted apart pads⟩

end Placing

end BtrfsForensic.Segments
