import Mathlib.Algebra.BigOperators.Group.Finset.Basic
import Mathlib.Algebra.Order.BigOperators.Group.Finset
import Mathlib.Logic.Relation

namespace BtrfsForensic.Worklist

/-! A depth-first search that pops from a stack, skips what it has seen, and
stops after a fixed number of pops. Skipped pops count against the budget. -/

variable {α : Type u}

/-- Reached from some start node by following children. -/
def Reaches (children : α → List α) (starts : List α) (node : α) : Prop :=
  ∃ start ∈ starts,
    Relation.ReflTransGen (fun parent child => child ∈ children parent) start node

namespace Reaches

variable {children : α → List α} {starts more : List α} {node other : α}

theorem of_mem (member : node ∈ starts) : Reaches children starts node :=
  ⟨node, member, .refl⟩

theorem of_cons
    (reaches : Reaches children ((children node).reverse ++ starts) other) :
    Reaches children (node :: starts) other := by
  rcases reaches with ⟨start, member, path⟩
  rcases List.mem_append.mp member with child | member
  · exact ⟨node, List.mem_cons_self, .head (List.mem_reverse.mp child) path⟩
  · exact ⟨start, List.mem_cons_of_mem _ member, path⟩

theorem mono (reaches : Reaches children starts node) (subset : starts ⊆ more) :
    Reaches children more node := by
  rcases reaches with ⟨start, member, path⟩
  exact ⟨start, subset member, path⟩

/-- Whatever holds of the start nodes and passes to children holds of every
node reached. -/
theorem of_closed (holds : α → Prop) (atStart : ∀ start ∈ starts, holds start)
    (passes : ∀ parent, holds parent → ∀ child ∈ children parent, holds child)
    (reaches : Reaches children starts node) : holds node := by
  rcases reaches with ⟨start, member, path⟩
  induction path with
  | refl => exact atStart start member
  | tail _ edge induction => exact passes _ induction _ edge

end Reaches

variable [DecidableEq α]

/-- The nodes in the order in which they are first popped. The head of the
stack is popped first, and the children of a node are pushed in their order, so
that the last child is popped first. -/
def visit (children : α → List α) :
    (budget : Nat) → (stack seen : List α) → List α
  | _, [], _ => []
  | 0, _ :: _, _ => []
  | budget + 1, node :: stack, seen =>
      if node ∈ seen then
        visit children budget stack seen
      else
        node :: visit children budget ((children node).reverse ++ stack)
          (node :: seen)

variable {children : α → List α}

theorem reaches_of_mem_visit {node : α} {budget : Nat} {stack seen : List α}
    (member : node ∈ visit children budget stack seen) :
    Reaches children stack node := by
  fun_induction visit children budget stack seen with
  | case1 => cases member
  | case2 => cases member
  | case3 budget head stack seen known induction =>
      exact (induction member).mono (List.subset_cons_self _ _)
  | case4 budget head stack seen fresh induction =>
      rcases List.mem_cons.mp member with equal | later
      · exact equal ▸ .of_mem List.mem_cons_self
      · exact .of_cons (induction later)

theorem not_mem_seen_of_mem_visit {node : α} {budget : Nat} {stack seen : List α}
    (member : node ∈ visit children budget stack seen) : node ∉ seen := by
  fun_induction visit children budget stack seen with
  | case1 => cases member
  | case2 => cases member
  | case3 budget head stack seen known induction => exact induction member
  | case4 budget head stack seen fresh induction =>
      rcases List.mem_cons.mp member with rfl | later
      · exact fresh
      · exact fun known => induction later (List.mem_cons_of_mem _ known)

theorem length_visit_le (budget : Nat) (stack seen : List α) :
    (visit children budget stack seen).length ≤ budget := by
  fun_induction visit children budget stack seen with
  | case1 => exact Nat.zero_le _
  | case2 => exact Nat.zero_le _
  | case3 budget head stack seen known induction => exact Nat.le_succ_of_le induction
  | case4 budget head stack seen fresh induction =>
      rw [List.length_cons]
      exact Nat.succ_le_succ induction

theorem nodup_visit {budget : Nat} {stack seen : List α} :
    (visit children budget stack seen).Nodup := by
  fun_induction visit children budget stack seen with
  | case1 => exact List.nodup_nil
  | case2 => exact List.nodup_nil
  | case3 budget head stack seen known induction => exact induction
  | case4 budget head stack seen fresh induction =>
      refine List.nodup_cons.mpr ⟨fun again => ?_, induction⟩
      exact not_mem_seen_of_mem_visit again List.mem_cons_self

/-- Popping a node that is not yet seen pays for its children. -/
theorem sum_children_pop (children : α → List α) {nodes : Finset α} {head : α}
    {seen : List α} (inside : head ∈ nodes) (fresh : head ∉ seen) :
    (children head).length +
        ∑ node ∈ nodes with node ∉ head :: seen, (children node).length =
      ∑ node ∈ nodes with node ∉ seen, (children node).length := by
  have split : nodes.filter (· ∉ head :: seen) =
      (nodes.filter (· ∉ seen)).erase head := by
    ext node
    simp only [Finset.mem_filter, Finset.mem_erase, List.mem_cons]
    tauto
  rw [split]
  exact Finset.add_sum_erase _ (fun node => (children node).length)
    (Finset.mem_filter.mpr ⟨inside, fresh⟩)

/-- Nothing that a search still has to do is lost: every stacked node and every
child of a visited node has been seen or is visited. The budget pays for the
stack and for the children of the nodes not yet seen. -/
theorem mem_visit_of_budget {nodes : Finset α}
    (closed : ∀ node ∈ nodes, ∀ child ∈ children node, child ∈ nodes)
    {budget : Nat} {stack seen : List α} (inside : ∀ node ∈ stack, node ∈ nodes)
    (enough : stack.length +
      ∑ node ∈ nodes with node ∉ seen, (children node).length ≤ budget) :
    (∀ node ∈ stack, node ∈ seen ∨ node ∈ visit children budget stack seen) ∧
      ∀ node ∈ visit children budget stack seen, ∀ child ∈ children node,
        child ∈ seen ∨ child ∈ visit children budget stack seen := by
  fun_induction visit children budget stack seen with
  | case1 => simp
  | case2 => simp at enough
  | case3 budget head stack seen known induction =>
      rw [List.length_cons] at enough
      rcases induction (fun node member => inside node (.tail _ member))
        (by omega) with ⟨stacked, visited⟩
      refine ⟨fun node member => ?_, visited⟩
      rcases List.mem_cons.mp member with equal | member
      · exact .inl (equal ▸ known)
      · exact stacked node member
  | case4 budget head stack seen fresh induction =>
      have headInside := inside head List.mem_cons_self
      have pushedInside : ∀ node ∈ (children head).reverse ++ stack,
          node ∈ nodes := by
        intro node member
        rcases List.mem_append.mp member with child | member
        · exact closed head headInside node (List.mem_reverse.mp child)
        · exact inside node (.tail _ member)
      have left : ((children head).reverse ++ stack).length +
          ∑ node ∈ nodes with node ∉ head :: seen, (children node).length ≤
            budget := by
        have paid := sum_children_pop children headInside fresh
        rw [List.length_cons] at enough
        rw [List.length_append, List.length_reverse]
        omega
      rcases induction pushedInside left with ⟨stacked, visited⟩
      -- Seen after this pop is seen before it, or visited by it.
      have widen (node : α) (found : node ∈ head :: seen ∨
          node ∈ visit children budget ((children head).reverse ++ stack)
            (head :: seen)) :
          node ∈ seen ∨ node ∈ head :: visit children budget
            ((children head).reverse ++ stack) (head :: seen) := by
        simp only [List.mem_cons] at found ⊢
        tauto
      constructor
      · intro node member
        rcases List.mem_cons.mp member with equal | member
        · exact .inr (equal ▸ List.mem_cons_self)
        · exact widen node (stacked node (List.mem_append_right _ member))
      · intro node member child edge
        rcases List.mem_cons.mp member with equal | member
        · exact widen child (stacked child
            (List.mem_append_left _ (List.mem_reverse.mpr (equal ▸ edge))))
        · exact widen child (visited node member child edge)

/-- A search that its budget is enough for visits exactly the reachable
nodes. -/
theorem mem_visit_iff_reaches {nodes : Finset α} {budget : Nat} {starts : List α}
    (closed : ∀ node ∈ nodes, ∀ child ∈ children node, child ∈ nodes)
    (inside : ∀ node ∈ starts, node ∈ nodes)
    (enough : starts.length + ∑ node ∈ nodes, (children node).length ≤ budget)
    {node : α} :
    node ∈ visit children budget starts [] ↔ Reaches children starts node := by
  have left : starts.length +
      ∑ node ∈ nodes with node ∉ ([] : List α), (children node).length ≤ budget := by
    simpa using enough
  rcases mem_visit_of_budget closed inside left with ⟨stacked, visited⟩
  refine ⟨reaches_of_mem_visit, fun reaches => ?_⟩
  rcases reaches with ⟨start, member, path⟩
  induction path with
  | refl => exact (stacked start member).resolve_left List.not_mem_nil
  | tail _ edge induction =>
      exact (visited _ induction _ edge).resolve_left List.not_mem_nil

/-- Two searches run alike until one of them comes to `target`: if the children
of every other visited node are the same, the second search visits `target`
too. -/
theorem mem_visit_of_agree {other : α → List α} {target : α} {budget : Nat}
    {stack seen : List α}
    (agree : ∀ node ∈ visit children budget stack seen, node ≠ target →
      children node = other node)
    (member : target ∈ visit children budget stack seen) :
    target ∈ visit other budget stack seen := by
  fun_induction visit children budget stack seen with
  | case1 => cases member
  | case2 => cases member
  | case3 budget head stack seen known induction =>
      rw [visit, if_pos known]
      exact induction agree member
  | case4 budget head stack seen fresh induction =>
      rw [visit, if_neg fresh]
      by_cases equal : head = target
      · exact equal ▸ List.mem_cons_self
      · rw [← agree head List.mem_cons_self equal]
        apply List.mem_cons_of_mem
        apply induction
        · intro node visited
          exact agree node (List.mem_cons_of_mem _ visited)
        · exact (List.mem_cons.mp member).resolve_left (Ne.symm equal)

theorem visit_congr {other : α → List α} {budget : Nat} {stack seen : List α}
    (agree : ∀ node ∈ visit children budget stack seen, children node = other node) :
    visit other budget stack seen = visit children budget stack seen := by
  fun_induction visit children budget stack seen with
  | case1 => rw [visit]
  | case2 => rw [visit]
  | case3 budget head stack seen known induction =>
      rw [visit, if_pos known]
      exact induction agree
  | case4 budget head stack seen fresh induction =>
      rw [visit, if_neg fresh, ← agree head List.mem_cons_self]
      congr 1
      apply induction
      intro node visited
      exact agree node (List.mem_cons_of_mem _ visited)

/-! ## The search without a budget -/

/-- Continued without a budget, the search first comes to a node after so many
pops, skipped ones included. -/
inductive ComesTo (children : α → List α) :
    (stack seen : List α) → (pops : Nat) → (node : α) → Prop
  | here {node : α} {stack seen : List α} (fresh : node ∉ seen) :
      ComesTo children (node :: stack) seen 0 node
  | skip {head node : α} {stack seen : List α} {pops : Nat} (known : head ∈ seen)
      (later : ComesTo children stack seen pops node) :
      ComesTo children (head :: stack) seen (pops + 1) node
  | expand {head node : α} {stack seen : List α} {pops : Nat} (fresh : head ∉ seen)
      (other : head ≠ node)
      (later : ComesTo children ((children head).reverse ++ stack) (head :: seen)
        pops node) :
      ComesTo children (head :: stack) seen (pops + 1) node

namespace ComesTo

variable {node : α} {stack seen : List α} {pops more : Nat}

omit [DecidableEq α] in
theorem unique (comes : ComesTo children stack seen pops node)
    (again : ComesTo children stack seen more node) : pops = more := by
  induction comes generalizing more with
  | here fresh =>
      cases again with
      | here => rfl
      | skip known later => exact absurd known fresh
      | expand _ other later => exact absurd rfl other
  | skip known later induction =>
      cases again with
      | here fresh => exact absurd known fresh
      | skip _ later => rw [induction later]
      | expand fresh _ later => exact absurd known fresh
  | expand fresh other later induction =>
      cases again with
      | here => exact absurd rfl other
      | skip known later => exact absurd known fresh
      | expand _ _ later => rw [induction later]

end ComesTo

/-- A search with a budget visits what the search without one comes to in time. -/
theorem mem_visit_iff_comesTo {node : α} {budget : Nat} {stack seen : List α} :
    node ∈ visit children budget stack seen ↔
      ∃ pops < budget, ComesTo children stack seen pops node := by
  fun_induction visit children budget stack seen with
  | case1 =>
      simp only [List.not_mem_nil, false_iff]
      intro parts
      rcases parts with ⟨_, _, comes⟩
      cases comes
  | case2 => simp
  | case3 budget head stack seen known induction =>
      rw [induction]
      constructor
      · intro parts
        rcases parts with ⟨pops, inTime, comes⟩
        exact ⟨pops + 1, Nat.succ_lt_succ inTime, .skip known comes⟩
      · intro parts
        rcases parts with ⟨pops, inTime, comes⟩
        cases comes with
        | here fresh => exact absurd known fresh
        | @skip _ _ _ _ pops _ later => exact ⟨pops, Nat.lt_of_succ_lt_succ inTime, later⟩
        | expand fresh _ later => exact absurd known fresh
  | case4 budget head stack seen fresh induction =>
      rw [List.mem_cons, induction]
      constructor
      · intro either
        by_cases equal : node = head
        · subst equal
          exact ⟨0, Nat.succ_pos _, .here fresh⟩
        · rcases either.resolve_left equal with ⟨pops, inTime, comes⟩
          exact ⟨pops + 1, Nat.succ_lt_succ inTime, .expand fresh (Ne.symm equal) comes⟩
      · intro parts
        rcases parts with ⟨pops, inTime, comes⟩
        cases comes with
        | here => exact .inl rfl
        | skip known later => exact absurd known fresh
        | @expand _ _ _ _ pops _ _ later =>
            exact .inr ⟨pops, Nat.lt_of_succ_lt_succ inTime, later⟩

theorem exists_comesTo_iff_reaches {nodes : Finset α}
    (closed : ∀ node ∈ nodes, ∀ child ∈ children node, child ∈ nodes)
    {starts : List α} (inside : ∀ node ∈ starts, node ∈ nodes) {node : α} :
    (∃ pops, ComesTo children starts [] pops node) ↔ Reaches children starts node := by
  constructor
  · intro parts
    rcases parts with ⟨pops, comes⟩
    exact reaches_of_mem_visit
      (mem_visit_iff_comesTo.mpr ⟨pops, Nat.lt_succ_self pops, comes⟩)
  · intro reaches
    have visited := (mem_visit_iff_reaches closed inside (Nat.le_refl _)).mpr reaches
    rcases mem_visit_iff_comesTo.mp visited with ⟨pops, _, comes⟩
    exact ⟨pops, comes⟩

theorem visit_replicate_append {node : α} {seen : List α} (known : node ∈ seen)
    (copies budget : Nat) (stack : List α) :
    visit children budget (List.replicate copies node ++ stack) seen =
      visit children (budget - copies) stack seen := by
  induction copies generalizing budget with
  | zero => simp
  | succ copies induction =>
      rw [List.replicate_succ, List.cons_append]
      cases budget with
      | zero =>
          rw [visit, Nat.zero_sub]
          cases stack <;> rw [visit]
      | succ budget => rw [visit, if_pos known, induction, Nat.add_sub_add_right]

end BtrfsForensic.Worklist
