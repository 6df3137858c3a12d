import Mathlib.Data.List.Basic
import Mathlib.Data.List.Perm.Basic

namespace BtrfsForensic

/-! Finite trees of any fan-out, and the forests that a traversal still has to
visit. -/

inductive Rose (α : Type u)
  | node (value : α) (children : List (Rose α))

namespace Rose

variable {α : Type u}

def root : Rose α → α
  | node value _ => value

mutual

/-- The values of a tree, the root first. -/
def values : Rose α → List α
  | node value children => value :: forestValues children

def forestValues : List (Rose α) → List α
  | [] => []
  | tree :: forest => values tree ++ forestValues forest

end

/-- Every node of the tree stands in a relation to the roots of its
children. -/
inductive Every (holds : α → List α → Prop) : Rose α → Prop
  | node {value : α} {children : List (Rose α)}
      (own : holds value (children.map root))
      (below : ∀ child ∈ children, Every holds child) :
      Every holds (node value children)

variable {forest other : List (Rose α)} {tree : Rose α}

@[simp] theorem forestValues_nil : forestValues ([] : List (Rose α)) = [] := by
  rw [forestValues]

theorem forestValues_eq_flatMap : forestValues forest = forest.flatMap values := by
  induction forest with
  | nil => rw [forestValues, List.flatMap_nil]
  | cons tree forest induction =>
      rw [forestValues, List.flatMap_cons, induction]

@[simp] theorem forestValues_singleton : forestValues [tree] = tree.values := by
  rw [forestValues_eq_flatMap, List.flatMap_singleton]

/-- Popping a tree and pushing its children only reorders what is still to be
visited. -/
theorem forestValues_pop (value : α) (children : List (Rose α)) :
    (value :: forestValues (children.reverse ++ forest)).Perm
      (forestValues (node value children :: forest)) := by
  rw [forestValues_eq_flatMap, forestValues_eq_flatMap, List.flatMap_cons, values,
    forestValues_eq_flatMap, List.flatMap_append, List.cons_append]
  exact ((children.reverse_perm.flatMap_right values).append_right _).cons value

theorem Every.exists_of_mem {holds : α → List α → Prop} (every : Every holds tree) {value : α}
    (member : value ∈ tree.values) : ∃ children, holds value children := by
  induction every with
  | @node root children own below induction =>
      rw [values, List.mem_cons, forestValues_eq_flatMap, List.mem_flatMap] at member
      rcases member with rfl | ⟨child, among, deeper⟩
      · exact ⟨_, own⟩
      · exact induction child among deeper

end Rose

end BtrfsForensic
