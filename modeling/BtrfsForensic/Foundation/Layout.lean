import BtrfsForensic.Foundation.Overlay
import Mathlib.Data.List.Chain

namespace BtrfsForensic

/-! What a list holds at a position. Parts that a writer laid end to end are
taken apart again by `holds_append_iff`, each at its own position. -/

/-- `part` lies at position `off`. -/
def Holds {α : Type u} (values : List α) (off : Nat) (part : List α) : Prop :=
  getRange values off (off + part.length) = some part

section Holds

variable {α : Type u} {values part : List α} {off : Nat}

theorem holds_iff :
    Holds values off part ↔
      off + part.length ≤ values.length ∧ (values.drop off).take part.length = part := by
  rw [Holds, getRange_eq_some_iff, Nat.add_sub_cancel_left]
  constructor
  · exact fun found => ⟨found.2.1, found.2.2⟩
  · exact fun found => ⟨Nat.le_add_right _ _, found.1, found.2⟩

theorem Holds.le (holds : Holds values off part) :
    off + part.length ≤ values.length :=
  (holds_iff.mp holds).1

theorem holds_of_append {before after : List α}
    (layout : values = before ++ (part ++ after)) (place : before.length = off) :
    Holds values off part := by
  rw [holds_iff, layout, List.length_append, List.length_append, List.drop_left' place,
    List.take_left' rfl]
  exact ⟨by omega, rfl⟩

theorem holds_front (part after : List α) : Holds (part ++ after) 0 part :=
  holds_of_append (List.nil_append _).symm rfl

theorem holds_of_eq (layout : values = part) : Holds values 0 part := by
  subst layout
  have whole := holds_front values []
  rwa [List.append_nil] at whole

theorem Holds.eq_of_length {other : List α} (holds : Holds values off part)
    (others : Holds values off other) (same : part.length = other.length) : part = other := by
  rw [← (holds_iff.mp holds).2, ← (holds_iff.mp others).2, same]

theorem holds_slice {width : Nat} (inside : off + width ≤ values.length) :
    ∃ part, part.length = width ∧ Holds values off part := by
  have size : ((values.drop off).take width).length = width := by
    rw [List.length_take, List.length_drop]
    omega
  refine ⟨(values.drop off).take width, size, holds_iff.mpr ?_⟩
  rw [size]
  exact ⟨inside, rfl⟩

theorem Holds.within {inner : List α} {start : Nat} (outer : Holds values start part)
    (found : Holds part off inner) : Holds values (start + off) inner := by
  rw [Holds, Nat.add_assoc, getRange_of_getRange outer (Nat.le_add_right _ _) found.le]
  exact found

theorem Holds.getRange_block {start size index : Nat} {blocks : List (List α)}
    {block : List α} (laid : Holds values start blocks.flatten)
    (sized : ∀ block ∈ blocks, block.length = size) (found : blocks[index]? = some block) :
    getRange values (start + size * index) (start + (size * index + size)) = some block := by
  have part := getRange_flatten sized found
  rw [getRange_of_getRange laid (Nat.le_add_right _ _) (stop_le_of_getRange part)]
  exact part

theorem holds_append_iff {first second : List α} :
    Holds values off (first ++ second) ↔
      Holds values off first ∧ Holds values (off + first.length) second := by
  simp only [holds_iff, List.length_append]
  constructor
  · intro whole
    rcases whole with ⟨inside, equal⟩
    have left := congrArg (List.take first.length) equal
    have right := congrArg (List.drop first.length) equal
    rw [List.take_take, Nat.min_eq_left (Nat.le_add_right _ _), List.take_left' rfl] at left
    rw [List.drop_take, List.drop_drop, Nat.add_sub_cancel_left, List.drop_left' rfl]
      at right
    exact ⟨⟨by omega, left⟩, by omega, right⟩
  · intro parts
    rcases parts with ⟨⟨_, left⟩, inside, right⟩
    refine ⟨by omega, ?_⟩
    rw [List.take_add, left, List.drop_drop, right]

@[simp] theorem holds_nil : Holds values off [] ↔ off ≤ values.length := by
  simp [holds_iff]

theorem holds_singleton_iff {value : α} :
    Holds values off [value] ↔ values[off]? = some value := by
  rw [holds_iff, List.length_singleton]
  constructor
  · intro found
    rw [← Nat.add_zero off, ← List.getElem?_drop,
      ← List.getElem?_take_of_lt Nat.zero_lt_one, found.2]
    rfl
  · intro found
    rcases List.getElem?_eq_some_iff.mp found with ⟨inside, equal⟩
    refine ⟨inside, ?_⟩
    rw [List.drop_eq_getElem_cons inside, equal, List.take_succ_cons, List.take_zero]

theorem holds_cons_iff {value : α} {rest : List α} :
    Holds values off (value :: rest) ↔
      values[off]? = some value ∧ Holds values (off + 1) rest := by
  rw [← List.singleton_append, holds_append_iff, holds_singleton_iff,
    List.length_singleton]

theorem map_range_of_holds {β : Type v} {encode : β → List α} (decode : Nat → β)
    {size : Nat} {entries : List β}
    (sized : ∀ entry ∈ entries, (encode entry).length = size)
    (decodes : ∀ entry ∈ entries, ∀ position, Holds values position (encode entry) →
      decode position = entry)
    (holds : Holds values off (entries.flatMap encode)) :
    (List.range entries.length).map (fun index => decode (off + index * size)) =
      entries := by
  induction entries generalizing off with
  | nil => rfl
  | cons entry entries induction =>
      rw [List.flatMap_cons, holds_append_iff, sized entry List.mem_cons_self] at holds
      have rest := induction (fun next member => sized next (List.mem_cons_of_mem _ member))
        (fun next member => decodes next (List.mem_cons_of_mem _ member)) holds.2
      have shifted : (fun index => decode (off + index * size)) ∘ Nat.succ =
          fun index => decode (off + size + index * size) := by
        funext index
        rw [Function.comp_apply, Nat.succ_mul]
        congr 1
        omega
      rw [List.length_cons, List.range_succ_eq_map, List.map_cons, List.map_map, shifted,
        rest, Nat.zero_mul, Nat.add_zero, decodes entry List.mem_cons_self off holds.1]

end Holds

/-! ## Patches in their order -/

/-- A patch ends where the next one begins, or before. -/
def EndsBefore {α : Type u} (first second : Nat × List α) : Prop :=
  first.1 + first.2.length ≤ second.1

instance {α : Type u} : Trans (@EndsBefore α) (@EndsBefore α) (@EndsBefore α) where
  trans earlier later :=
    Nat.le_trans earlier (Nat.le_trans (Nat.le_add_right _ _) later)

theorem holds_overlay {α : Type u} {length : Nat} {background : α}
    {patches : List (Nat × List α)} {patch : Nat × List α} (member : patch ∈ patches)
    (ordered : patches.IsChain EndsBefore) (inside : patch.1 + patch.2.length ≤ length) :
    Holds (overlay length background patches) patch.1 patch.2 := by
  rcases List.append_of_mem member with ⟨before, after, rfl⟩
  refine getRange_overlay_patch before after (fun earlier inBefore => .inr ?_) inside
  have apart := List.isChain_iff_pairwise.mp ordered
  exact (List.pairwise_append.mp apart).2.2 earlier inBefore patch List.mem_cons_self

end BtrfsForensic
