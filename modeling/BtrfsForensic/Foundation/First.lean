import Mathlib.Data.List.Basic
import Mathlib.Data.List.Forall2

namespace BtrfsForensic

/-! The first value of a list that answers, and the first value of each key. -/

theorem findSome?_eq_bind {α : Type u} {β : Type v} (values : List α)
    (attempt : α → Option β) :
    values.findSome? attempt =
      (values.find? fun value => (attempt value).isSome).bind attempt := by
  induction values with
  | nil => rfl
  | cons head tail induction =>
      rw [List.findSome?_cons, List.find?_cons]
      cases known : attempt head with
      | none => simpa using induction
      | some result => simp [known]

section Order

variable {α : Type u} {β : Type v} {values reordered : List α}
  {attempt : α → Option β}

theorem isSome_findSome?_of_perm (perm : values.Perm reordered) :
    (values.findSome? attempt).isSome = (reordered.findSome? attempt).isSome := by
  rw [Bool.eq_iff_iff, List.findSome?_isSome_iff, List.findSome?_isSome_iff]
  simp only [perm.mem_iff]

theorem findSome?_of_perm (perm : values.Perm reordered)
    (same : ∀ value ∈ values, ∀ other ∈ values, ∀ left right,
      attempt value = some left → attempt other = some right → left = right) :
    values.findSome? attempt = reordered.findSome? attempt := by
  have answers : (values.findSome? attempt).isSome =
      (reordered.findSome? attempt).isSome :=
    isSome_findSome?_of_perm perm
  cases found : values.findSome? attempt with
  | none =>
      rw [found, Option.isSome_none] at answers
      exact (Option.not_isSome_iff_eq_none.mp (by simp [← answers])).symm
  | some left =>
      rw [found, Option.isSome_some] at answers
      rcases Option.isSome_iff_exists.mp answers.symm with ⟨right, again⟩
      rcases List.exists_of_findSome?_eq_some found with ⟨value, member, first⟩
      rcases List.exists_of_findSome?_eq_some again with ⟨other, elsewhere, second⟩
      rw [again,
        same value member other (perm.mem_iff.mpr elsewhere) left right first second]

theorem find?_of_perm {holds : α → Bool} (perm : values.Perm reordered)
    (same : ∀ value ∈ values, ∀ other ∈ values, holds value → holds other →
      value = other) : values.find? holds = reordered.find? holds := by
  rw [← List.findSome?_guard, ← List.findSome?_guard]
  apply findSome?_of_perm perm
  intro value member other elsewhere left right first second
  rcases Option.guard_eq_some_iff.mp first with ⟨rfl, left⟩
  rcases Option.guard_eq_some_iff.mp second with ⟨rfl, right⟩
  exact same value member other elsewhere left right

end Order

variable {α : Type u} {κ : Type v} [DecidableEq κ]

/-- Appends the values whose key is new. -/
def keepFirst (key : α → κ) (kept values : List α) : List α :=
  values.foldl (fun kept value =>
    if kept.any fun known => key known = key value then kept
    else kept ++ [value]) kept

namespace KeepFirst

variable {key : α → κ} {kept values : List α} {value : α}

@[simp] theorem nil : keepFirst key kept [] = kept := rfl

theorem cons (value : α) (values : List α) :
    keepFirst key kept (value :: values) =
      keepFirst key (if kept.any fun known => key known = key value then kept
        else kept ++ [value]) values := rfl

/-- Keeping block by block is keeping from all blocks at once. -/
theorem foldl_eq {β : Type w} (blocks : List β) (values : β → List α) :
    blocks.foldl (fun kept block => keepFirst key kept (values block)) kept =
      keepFirst key kept (blocks.flatMap values) := by
  induction blocks generalizing kept with
  | nil => rfl
  | cons block blocks induction =>
      rw [List.foldl_cons, induction, List.flatMap_cons, keepFirst, keepFirst,
        keepFirst, List.foldl_append]

theorem mem_iff :
    value ∈ keepFirst key kept values ↔
      value ∈ kept ∨ (∀ known ∈ kept, key known ≠ key value) ∧
        values.find? (fun other => key other = key value) = some value := by
  induction values generalizing kept with
  | nil => simp
  | cons head values induction =>
      rw [cons, induction]
      by_cases taken : ∃ known ∈ kept, key known = key head
      · have any : (kept.any fun known => key known = key head) = true := by
          simpa using taken
        rw [if_pos any]
        by_cases same : key head = key value
        · rcases taken with ⟨known, member, equal⟩
          have blocked : ¬∀ known ∈ kept, key known ≠ key value :=
            fun free => free known member (equal.trans same)
          simp [blocked]
        · rw [List.find?_cons_of_neg (by simpa using same)]
      · have any : ¬(kept.any fun known => key known = key head) = true := by
          simpa using taken
        rw [if_neg any]
        by_cases same : key head = key value
        · have free : ∀ known ∈ kept, key known ≠ key value :=
            fun known member equal => taken ⟨known, member, equal.trans same.symm⟩
          rw [List.find?_cons_of_pos (by simpa using same)]
          have blocked : ¬∀ known ∈ kept ++ [head], key known ≠ key value :=
            fun other => other head (by simp) same
          simp only [List.mem_append, List.mem_singleton, Option.some.injEq,
            iff_true_intro free, true_and]
          constructor
          · intro either
            rcases either with (member | rfl) | ⟨other, _⟩
            · exact .inl member
            · exact .inr rfl
            · exact absurd other (by simpa using blocked)
          · intro either
            rcases either with member | rfl
            · exact .inl (.inl member)
            · exact .inl (.inr rfl)
        · rw [List.find?_cons_of_neg (by simpa using same)]
          have different : value ≠ head := fun equal => same (equal ▸ rfl)
          simp [different, same, or_imp, forall_and]

theorem nodup_map (distinct : (kept.map key).Nodup) :
    ((keepFirst key kept values).map key).Nodup := by
  induction values generalizing kept with
  | nil => exact distinct
  | cons head values induction =>
      rw [cons]
      apply induction
      split
      case isTrue => exact distinct
      case isFalse fresh =>
        rw [List.map_append, List.map_singleton, List.nodup_append]
        refine ⟨distinct, by simp, fun taken member single inHead equal => ?_⟩
        rcases List.mem_map.mp member with ⟨known, inKept, rfl⟩
        rw [List.mem_singleton.mp inHead] at equal
        exact fresh (by simpa using ⟨known, inKept, equal⟩)

/-- A question about keys alone is answered by the first value that satisfies it. -/
theorem find?_eq {holds : α → Bool}
    (respects : ∀ left right, key left = key right → holds left = holds right) :
    (keepFirst key kept values).find? holds = (kept ++ values).find? holds := by
  induction values generalizing kept with
  | nil => rw [nil, List.append_nil]
  | cons head values induction =>
      rw [cons, induction]
      split
      case isTrue taken =>
        rcases List.any_eq_true.mp taken with ⟨known, member, equal⟩
        have same : holds known = holds head := respects _ _ (by simpa using equal)
        rw [List.find?_append, List.find?_append, List.find?_cons]
        cases answer : holds head with
        | false => rfl
        | true =>
            have found : (kept.find? holds).isSome := by
              rw [List.find?_isSome]
              exact ⟨known, member, same.trans answer⟩
            rw [Option.or_of_isSome found, Option.or_of_isSome found]
      case isFalse => rw [List.append_assoc, List.singleton_append]

theorem exists_mem_iff {wanted : κ} :
    (∃ value ∈ keepFirst key [] values, key value = wanted) ↔
      ∃ value ∈ values, key value = wanted := by
  have found : (keepFirst key [] values).find? (fun value => key value = wanted) =
      values.find? fun value => key value = wanted := by
    rw [find?_eq, List.nil_append]
    intro left right equal
    rw [equal]
  have same := congrArg Option.isSome found
  rw [Bool.eq_iff_iff, List.find?_isSome, List.find?_isSome] at same
  simpa using same

/-- Starting from nothing, the first value of each key is kept. -/
theorem mem_nil_iff :
    value ∈ keepFirst key [] values ↔
      values.find? (fun other => key other = key value) = some value := by
  simp [mem_iff]

theorem rel {β : Type w} {otherKey : β → κ} {related : α → β → Prop}
    (same : ∀ left right, related left right → key left = otherKey right) {others : List β}
    (pairs : List.Forall₂ related values others) {otherKept : List β}
    (keptPairs : List.Forall₂ related kept otherKept) :
    List.Forall₂ related (keepFirst key kept values) (keepFirst otherKey otherKept others) := by
  induction pairs generalizing kept otherKept with
  | nil => exact keptPairs
  | @cons left right values others pair _ induction =>
      have known : (kept.any fun known => key known = key left) =
          otherKept.any fun known => otherKey known = otherKey right := by
        clear induction
        induction keptPairs with
        | nil => rfl
        | cons first _ rest =>
            rw [List.any_cons, List.any_cons, rest, same _ _ first, same _ _ pair]
      rw [cons, cons, known]
      apply induction
      split
      · exact keptPairs
      · exact List.rel_append keptPairs (.cons pair .nil)

end KeepFirst

/-! A list of answers, each under its own key. -/

/-- The list holds exactly the answers to every key. -/
structure Tabulates {α : Type u} {κ : Type v} (key : α → κ) (answer : κ → Option α)
    (values : List α) : Prop where
  mem_iff : ∀ value, value ∈ values ↔ answer (key value) = some value
  keyed : ∀ {wanted value}, answer wanted = some value → key value = wanted

namespace Tabulates

variable {α : Type u} {κ : Type v} {key : α → κ} {answer other : κ → Option α}
  {values others : List α}

theorem exists_mem_iff (table : Tabulates key answer values) {wanted : κ} :
    (∃ value ∈ values, key value = wanted) ↔ (answer wanted).isSome := by
  rw [Option.isSome_iff_exists]
  constructor
  · intro parts
    rcases parts with ⟨value, member, rfl⟩
    exact ⟨value, (table.mem_iff value).mp member⟩
  · intro parts
    rcases parts with ⟨value, found⟩
    have same := table.keyed found
    subst same
    exact ⟨value, (table.mem_iff value).mpr found, rfl⟩

theorem mem_iff_of_eq (table : Tabulates key answer values)
    (otherTable : Tabulates key other others) {value : α}
    (same : answer (key value) = other (key value)) :
    value ∈ values ↔ value ∈ others := by
  rw [table.mem_iff, otherTable.mem_iff, same]

theorem forall_mem_iff (table : Tabulates key answer values)
    (otherTable : Tabulates key other others) :
    (∀ value, value ∈ values ↔ value ∈ others) ↔
      ∀ wanted, answer wanted = other wanted := by
  constructor
  · intro members wanted
    apply Option.ext
    intro value
    constructor
    · intro found
      have same := table.keyed found
      subst same
      exact (otherTable.mem_iff value).mp
        ((members value).mp ((table.mem_iff value).mpr found))
    · intro found
      have same := otherTable.keyed found
      subst same
      exact (table.mem_iff value).mp
        ((members value).mpr ((otherTable.mem_iff value).mpr found))
  · intro same value
    exact table.mem_iff_of_eq otherTable (same (key value))

end Tabulates

end BtrfsForensic
