import Mathlib.Data.List.Basic

namespace BtrfsForensic

/-! Checked half-open ranges of a list, the list counterpart of reading a
sub-slice by `start..stop`. A range that is reversed or runs past the end is
refused, never clamped. -/

/-- The elements at positions `start ≤ i < stop`, or `none` when the range is
reversed or does not lie inside the list. -/
def getRange {α : Type u} (values : List α) (start stop : Nat) :
    Option (List α) :=
  if start ≤ stop ∧ stop ≤ values.length then
    some ((values.drop start).take (stop - start))
  else
    none

/-- A list given by a function of the position. Large, mostly regular inputs
are written this way so that a range of them can be described without
traversing the rest. -/
def tabulate {α : Type u} (length : Nat) (element : Nat → α) : List α :=
  (List.range length).map element

/-- Two lists hold the same at every position of a range. -/
def AgreeOn {α : Type u} (values other : List α) (start stop : Nat) : Prop :=
  ∀ index, start ≤ index → index < stop → values[index]? = other[index]?

/-! ## Ranges -/

section Range

variable {α : Type u} {values other block : List α} {start stop : Nat}

theorem getRange_eq_some_iff :
    getRange values start stop = some block ↔
      start ≤ stop ∧ stop ≤ values.length ∧
        (values.drop start).take (stop - start) = block := by
  rw [getRange]
  split
  case isTrue inside => simp [inside]
  case isFalse outside =>
    simp only [reduceCtorEq, false_iff]
    exact fun parts => outside ⟨parts.1, parts.2.1⟩

theorem getRange_isSome_iff :
    (getRange values start stop).isSome ↔
      start ≤ stop ∧ stop ≤ values.length := by
  rw [getRange]
  split <;> simp_all

theorem getRange_to_end :
    getRange values start values.length =
      if start ≤ values.length then some (values.drop start) else none := by
  rw [getRange]
  simp only [Nat.le_refl, and_true]
  rw [List.take_of_length_le (Nat.le_of_eq List.length_drop)]

theorem length_of_getRange (found : getRange values start stop = some block) :
    block.length = stop - start := by
  rcases getRange_eq_some_iff.mp found with ⟨ordered, inside, rfl⟩
  rw [List.length_take, List.length_drop]
  omega

theorem stop_le_of_getRange (found : getRange values start stop = some block) :
    stop ≤ values.length :=
  (getRange_eq_some_iff.mp found).2.1

theorem getElem?_of_getRange (found : getRange values start stop = some block)
    (index : Nat) (inside : index < block.length) :
    block[index]? = values[start + index]? := by
  have blockLength := length_of_getRange found
  rcases getRange_eq_some_iff.mp found with ⟨_, _, rfl⟩
  rw [List.getElem?_take_of_lt (by omega), List.getElem?_drop]

theorem getRange_congr (sameLength : values.length = other.length)
    (agree : AgreeOn values other start stop) :
    getRange values start stop = getRange other start stop := by
  rw [getRange, getRange, sameLength]
  split
  · congr 1
    apply List.ext_getElem?
    intro index
    by_cases inside : index < stop - start
    · rw [List.getElem?_take_of_lt inside, List.getElem?_take_of_lt inside,
        List.getElem?_drop, List.getElem?_drop]
      exact agree _ (by omega) (by omega)
    · rw [List.getElem?_eq_none (by rw [List.length_take]; omega),
        List.getElem?_eq_none (by rw [List.length_take]; omega)]
  · rfl

theorem agreeOn_append_iff {middle : Nat} (lower : start ≤ middle)
    (upper : middle ≤ stop) :
    AgreeOn values other start stop ↔
      AgreeOn values other start middle ∧ AgreeOn values other middle stop := by
  constructor
  · intro agree
    exact ⟨fun index above below => agree index above (by omega),
      fun index above below => agree index (by omega) below⟩
  · intro halves index above below
    by_cases first : index < middle
    · exact halves.1 index above first
    · exact halves.2 index (by omega) below

theorem agreeOn_getRange_iff {otherBlock : List α}
    (found : getRange values start stop = some block)
    (otherFound : getRange other start stop = some otherBlock) {lower upper : Nat}
    (inside : upper ≤ stop - start) :
    AgreeOn block otherBlock lower upper ↔
      AgreeOn values other (start + lower) (start + upper) := by
  have blockLength := length_of_getRange found
  have otherLength := length_of_getRange otherFound
  have moved (index : Nat) (bound : index < stop - start) :
      block[index]? = otherBlock[index]? ↔
        values[start + index]? = other[start + index]? := by
    rw [getElem?_of_getRange found index (by omega),
      getElem?_of_getRange otherFound index (by omega)]
  constructor
  · intro agree index above below
    have equal := (moved (index - start) (by omega)).mp
      (agree (index - start) (by omega) (by omega))
    rwa [Nat.add_sub_of_le (by omega)] at equal
  · intro agree index above below
    exact (moved index (by omega)).mpr
      (agree (start + index) (by omega) (by omega))

theorem getRange_inj_iff {otherBlock : List α}
    (found : getRange values start stop = some block)
    (otherFound : getRange other start stop = some otherBlock) :
    block = otherBlock ↔ AgreeOn values other start stop := by
  have blockLength := length_of_getRange found
  have otherLength := length_of_getRange otherFound
  have ordered := (getRange_eq_some_iff.mp found).1
  have whole : AgreeOn block otherBlock 0 (stop - start) ↔
      AgreeOn values other (start + 0) (start + (stop - start)) :=
    agreeOn_getRange_iff found otherFound (Nat.le_refl _)
  rw [Nat.add_zero, Nat.add_sub_of_le ordered] at whole
  rw [← whole]
  constructor
  · intro equal index _ _
    rw [equal]
  · intro agree
    apply List.ext_getElem?
    intro index
    by_cases bounded : index < stop - start
    · exact agree index (Nat.zero_le _) bounded
    · rw [List.getElem?_eq_none (by omega), List.getElem?_eq_none (by omega)]

theorem getRange_of_getRange (found : getRange values start stop = some block)
    {lower upper : Nat} (ordered : lower ≤ upper) (inside : upper ≤ block.length) :
    getRange values (start + lower) (start + upper) = getRange block lower upper := by
  have blockLength := length_of_getRange found
  rcases getRange_eq_some_iff.mp found with ⟨_, stopInside, equal⟩
  rw [getRange, getRange, if_pos ⟨by omega, by omega⟩, if_pos ⟨ordered, inside⟩,
    Option.some.injEq, ← equal, List.drop_take, List.drop_drop, List.take_take,
    Nat.add_sub_add_left, Nat.min_eq_left (by omega)]

theorem getRange_take {length : Nat} (inside : stop ≤ length) :
    getRange (values.take length) start stop = getRange values start stop := by
  have bounds : (start ≤ stop ∧ stop ≤ (values.take length).length) ↔
      start ≤ stop ∧ stop ≤ values.length := by
    rw [List.length_take]
    omega
  rw [getRange, getRange]
  simp only [bounds, List.drop_take, List.take_take]
  rw [Nat.min_eq_left (by omega)]

theorem getRange_flatten {blocks : List (List α)} {size index : Nat}
    (sized : ∀ block ∈ blocks, block.length = size)
    (found : blocks[index]? = some block) :
    getRange blocks.flatten (size * index) (size * index + size) = some block := by
  induction blocks generalizing index with
  | nil => cases found
  | cons head blocks induction =>
      have headSize := sized head List.mem_cons_self
      cases index with
      | zero =>
          simp only [List.getElem?_cons_zero, Option.some.injEq] at found
          subst found
          rw [getRange_eq_some_iff, List.flatten_cons, Nat.mul_zero, Nat.zero_add,
            Nat.sub_zero, List.drop_zero, List.length_append]
          exact ⟨Nat.zero_le _, by omega, List.take_left' headSize⟩
      | succ index =>
          have rest := induction
            (fun other member => sized other (List.mem_cons_of_mem _ member)) found
          rcases getRange_eq_some_iff.mp rest with ⟨_, inside, equal⟩
          rw [getRange_eq_some_iff, List.flatten_cons, List.length_append, headSize,
            Nat.mul_succ]
          refine ⟨Nat.le_add_right _ _, by omega, ?_⟩
          rw [← equal, List.drop_append, List.drop_eq_nil_of_le (by omega),
            List.nil_append]
          congr 1
          · omega
          · congr 1
            omega

end Range

/-! ## Tabulated lists -/

section Tabulate

variable {α : Type u} {element : Nat → α}

@[simp] theorem length_tabulate (length : Nat) (element : Nat → α) :
    (tabulate length element).length = length := by
  simp [tabulate]

theorem getElem?_tabulate (length : Nat) (element : Nat → α) (index : Nat) :
    (tabulate length element)[index]? =
      if index < length then some (element index) else none := by
  rw [tabulate]
  split <;> simp_all

theorem getRange_tabulate {length start stop : Nat}
    (ordered : start ≤ stop) (inside : stop ≤ length) :
    getRange (tabulate length element) start stop =
      some (tabulate (stop - start) fun index => element (start + index)) := by
  rw [getRange_eq_some_iff]
  refine ⟨ordered, by simpa using inside, ?_⟩
  apply List.ext_getElem?
  intro index
  rw [getElem?_tabulate]
  split
  case isTrue bounded =>
    rw [List.getElem?_take_of_lt bounded, List.getElem?_drop,
      getElem?_tabulate, if_pos (by omega)]
  case isFalse outside =>
    exact List.getElem?_eq_none (by rw [List.length_take]; omega)

end Tabulate

end BtrfsForensic
