import Mathlib.Data.List.Basic

namespace BtrfsForensic

/-! The non-empty parts of a list between separators. -/

/-- The parts between separators, empty ones dropped. -/
def components {α : Type u} [DecidableEq α] (separator : α) (values : List α) :
    List (List α) :=
  (values.splitOn separator).filter fun part => part ≠ []

section Components

variable {α : Type u} [DecidableEq α] {separator : α} {values : List α}
  {parts : List (List α)}

theorem not_mem_of_mem_splitOn {part : List α}
    (member : part ∈ values.splitOn separator) : separator ∉ part := by
  induction values generalizing part with
  | nil =>
      rw [List.splitOn_nil, List.mem_singleton] at member
      rw [member]
      exact List.not_mem_nil
  | cons head values induction =>
      rw [List.splitOn_cons_eq_if_modifyHead] at member
      split at member
      case isTrue =>
        rcases List.mem_cons.mp member with rfl | later
        · exact List.not_mem_nil
        · exact induction later
      case isFalse different =>
        cases whole : values.splitOn separator with
        | nil => exact absurd whole (List.splitOn_ne_nil separator values)
        | cons first rest =>
            rw [whole, List.modifyHead_cons] at member
            rw [whole] at induction
            rcases List.mem_cons.mp member with rfl | later
            · intro inside
              rcases List.mem_cons.mp inside with rfl | tail
              · exact different (beq_self_eq_true _)
              · exact induction List.mem_cons_self tail
            · exact induction (List.mem_cons_of_mem _ later)

theorem mem_components {part : List α} (member : part ∈ components separator values) :
    part ≠ [] ∧ separator ∉ part := by
  rw [components, List.mem_filter] at member
  exact ⟨of_decide_eq_true member.2, not_mem_of_mem_splitOn member.1⟩

theorem components_append (left right : List α) :
    components separator (left ++ separator :: right) =
      components separator left ++ components separator right := by
  rw [components, List.splitOn_append_cons_self, List.filter_append]
  rfl

theorem components_intercalate (clean : ∀ part ∈ parts, part ≠ [] ∧ separator ∉ part) :
    components separator ([separator].intercalate parts) = parts := by
  by_cases none : parts = []
  · subst none
    rfl
  · rw [components,
      List.splitOn_intercalate separator (fun part member => (clean part member).2) none,
      List.filter_eq_self]
    exact fun part member => decide_eq_true (clean part member).1

end Components

end BtrfsForensic
