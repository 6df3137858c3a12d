import Mathlib.Data.List.Basic

namespace BtrfsForensic

/-! Values filed under their keys: every key has one bucket, and every value is in the
bucket of its key. -/

variable {κ : Type u} {α : Type v} [DecidableEq κ]

def fileUnder (key : κ) (value : α) : List (κ × List α) → List (κ × List α)
  | [] => [(key, [value])]
  | bucket :: rest =>
      if bucket.1 = key then (bucket.1, value :: bucket.2) :: rest
      else bucket :: fileUnder key value rest

def buckets (key : α → κ) (values : List α) : List (κ × List α) :=
  values.foldr (fun value filed => fileUnder (key value) value filed) []

namespace Buckets

variable {key : α → κ} {values : List α}

@[simp] theorem nil : buckets key ([] : List α) = [] := rfl

@[simp] theorem cons (value : α) (values : List α) :
    buckets key (value :: values) = fileUnder (key value) value (buckets key values) := rfl

theorem mem_fileUnder {wanted : κ} {value : α} {filed : List (κ × List α)}
    {bucket : κ × List α} (member : bucket ∈ fileUnder wanted value filed) :
    bucket ∈ filed ∨ bucket.1 = wanted ∧
      (bucket.2 = [value] ∨ ∃ old ∈ filed, old.1 = wanted ∧ bucket.2 = value :: old.2) := by
  induction filed with
  | nil =>
      rw [fileUnder, List.mem_singleton] at member
      rw [member]
      exact .inr ⟨rfl, .inl rfl⟩
  | cons first rest induction =>
      rw [fileUnder] at member
      split at member
      case isTrue same =>
        rcases List.mem_cons.mp member with rfl | later
        · exact .inr ⟨same, .inr ⟨first, List.mem_cons_self, same, rfl⟩⟩
        · exact .inl (List.mem_cons_of_mem _ later)
      case isFalse =>
        rcases List.mem_cons.mp member with rfl | later
        · exact .inl List.mem_cons_self
        · rcases induction later with inRest | ⟨same, content⟩
          · exact .inl (List.mem_cons_of_mem _ inRest)
          · refine .inr ⟨same, content.imp id fun grown => ?_⟩
            rcases grown with ⟨old, inRest, parts⟩
            exact ⟨old, List.mem_cons_of_mem _ inRest, parts⟩

/-- No bucket is empty, and what it holds has its key and comes from the values. -/
theorem of_mem {bucket : κ × List α} (member : bucket ∈ buckets key values) :
    bucket.2 ≠ [] ∧ ∀ value ∈ bucket.2, key value = bucket.1 ∧ value ∈ values := by
  induction values generalizing bucket with
  | nil => exact absurd member List.not_mem_nil
  | cons value values induction =>
      rcases mem_fileUnder member with old | ⟨same, alone | ⟨old, inOld, sameOld, grown⟩⟩
      · rcases induction old with ⟨filled, keyed⟩
        exact ⟨filled, fun other inside =>
          ⟨(keyed other inside).1, List.mem_cons_of_mem _ (keyed other inside).2⟩⟩
      · rw [alone]
        refine ⟨List.cons_ne_nil _ _, fun other inside => ?_⟩
        rw [List.mem_singleton.mp inside]
        exact ⟨same.symm, List.mem_cons_self⟩
      · rw [grown]
        refine ⟨List.cons_ne_nil _ _, fun other inside => ?_⟩
        rcases List.mem_cons.mp inside with rfl | further
        · exact ⟨same.symm, List.mem_cons_self⟩
        · rcases (induction inOld).2 other further with ⟨keyed, inValues⟩
          exact ⟨keyed.trans (sameOld.trans same.symm), List.mem_cons_of_mem _ inValues⟩

end Buckets

/-! ## Values by their own key -/

section Keyed

variable {key : α → κ} {values : List α} {wanted : κ}

theorem filter_eq_toList_find? (distinct : (values.map key).Nodup) :
    values.filter (fun value => key value = wanted) =
      (values.find? fun value => key value = wanted).toList := by
  induction values with
  | nil => rfl
  | cons value values induction =>
      rw [List.map_cons, List.nodup_cons] at distinct
      by_cases same : key value = wanted
      · have others : values.filter (fun value => key value = wanted) = [] := by
          rw [List.filter_eq_nil_iff]
          intro other member found
          apply distinct.1
          rw [same, ← of_decide_eq_true found]
          exact List.mem_map_of_mem member
        rw [List.filter_cons_of_pos (by simpa using same),
          List.find?_cons_of_pos (by simpa using same), others]
        rfl
      · rw [List.filter_cons_of_neg (by simpa using same),
          List.find?_cons_of_neg (by simpa using same), induction distinct.2]

/-- Selecting from groups by their owner's key is selecting groups. -/
theorem filter_flatMap_of_owner {β : Type w} (group : α → List β) (chosen : β → Bool)
    (owned : ∀ value ∈ values, ∀ member ∈ group value,
      chosen member = decide (key value = wanted)) :
    (values.flatMap group).filter chosen =
      (values.filter fun value => key value = wanted).flatMap group := by
  induction values with
  | nil => rfl
  | cons value values induction =>
      have rest := induction fun other member => owned other (List.mem_cons_of_mem _ member)
      rw [List.flatMap_cons, List.filter_append, rest]
      by_cases same : key value = wanted
      · rw [List.filter_cons_of_pos (by simpa using same), List.flatMap_cons,
          List.filter_eq_self.mpr]
        intro member inGroup
        rw [owned value List.mem_cons_self member inGroup, decide_eq_true same]
      · rw [List.filter_cons_of_neg (by simpa using same), List.filter_eq_nil_iff.mpr,
          List.nil_append]
        intro member inGroup
        rw [owned value List.mem_cons_self member inGroup, decide_eq_false same]
        exact Bool.false_ne_true

end Keyed

theorem find?_eq_some_of_unique {values : List α} {holds : α → Bool} {value : α}
    (member : value ∈ values) (satisfies : holds value = true)
    (unique : ∀ other ∈ values, holds other = true → other = value) :
    values.find? holds = some value := by
  cases found : values.find? holds with
  | none => exact absurd satisfies (List.find?_eq_none.mp found value member)
  | some other =>
      rw [unique other (List.mem_of_find?_eq_some found) (List.find?_some found)]

end BtrfsForensic
