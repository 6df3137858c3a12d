import Mathlib.Data.List.Basic

namespace BtrfsForensic

/-! Records of their own lengths, packed end to end without a terminator. The walk
ends at the first place where no record parses. -/

/-- The records from position `off` on. Every step but the last moves on, so `fuel`
above what is left of the data is never spent. -/
def packedLoop {α : Type u} {β : Type v} (parse : List α → Option (β × Nat))
    (data : List α) : (fuel off : Nat) → List β
  | 0, _ => []
  | fuel + 1, off =>
      if data.length < off then
        []
      else
        match parse (data.drop off) with
        | none => []
        | some (record, consumed) =>
            if consumed = 0 then [record]
            else record :: packedLoop parse data fuel (off + consumed)

def packed {α : Type u} {β : Type v} (parse : List α → Option (β × Nat))
    (data : List α) : List β :=
  packedLoop parse data (data.length + 2) 0

section Packed

variable {α : Type u} {β : Type v} {γ : Type w} {parse : List α → Option (β × Nat)}
  {data tail : List α} {encode : γ → List α} {decoded : γ → β} {records : List γ}

/-- From where some encoded records begin, they are what is found up to a tail that
does not parse. -/
theorem packedLoop_eq
    (reads : ∀ record ∈ records, ∀ rest,
      parse (encode record ++ rest) = some (decoded record, (encode record).length))
    (filled : ∀ record ∈ records, encode record ≠ []) (stops : parse tail = none)
    {fuel off : Nat} (inside : off ≤ data.length)
    (layout : data.drop off = records.flatMap encode ++ tail)
    (enough : records.length < fuel) :
    packedLoop parse data fuel off = records.map decoded := by
  induction records generalizing fuel off with
  | nil =>
      cases fuel with
      | zero => rfl
      | succ fuel =>
          rw [packedLoop, if_neg (Nat.not_lt_of_le inside), layout, List.flatMap_nil,
            List.nil_append, stops]
          rfl
  | cons record records induction =>
      cases fuel with
      | zero => exact absurd enough (Nat.not_lt_zero _)
      | succ fuel =>
          rw [List.flatMap_cons, List.append_assoc] at layout
          have size := congrArg List.length layout
          rw [List.length_drop, List.length_append] at size
          have long : (encode record).length ≠ 0 := fun empty =>
            filled record List.mem_cons_self (List.length_eq_zero_iff.mp empty)
          have rest : packedLoop parse data fuel (off + (encode record).length) =
              records.map decoded := by
            apply induction
            · exact fun next member => reads next (List.mem_cons_of_mem _ member)
            · exact fun next member => filled next (List.mem_cons_of_mem _ member)
            · omega
            · rw [← List.drop_drop, layout, List.drop_left' rfl]
            · exact Nat.lt_of_succ_lt_succ enough
          rw [packedLoop, if_neg (Nat.not_lt_of_le inside), layout,
            reads record List.mem_cons_self]
          dsimp only
          rw [if_neg long, rest, List.map_cons]

theorem length_le_flatMap (filled : ∀ record ∈ records, encode record ≠ []) :
    records.length ≤ (records.flatMap encode).length := by
  induction records with
  | nil => exact Nat.le_refl _
  | cons record records induction =>
      have rest := induction fun next member => filled next (List.mem_cons_of_mem _ member)
      have long := List.length_pos_iff.mpr (filled record List.mem_cons_self)
      rw [List.length_cons, List.flatMap_cons, List.length_append]
      omega

/-- Packed records are all found, whatever follows them, up to a tail that does not
parse. -/
theorem packed_flatMap
    (reads : ∀ record ∈ records, ∀ rest,
      parse (encode record ++ rest) = some (decoded record, (encode record).length))
    (filled : ∀ record ∈ records, encode record ≠ []) (stops : parse tail = none) :
    packed parse (records.flatMap encode ++ tail) = records.map decoded := by
  have few := length_le_flatMap filled
  apply packedLoop_eq reads filled stops (Nat.zero_le _) (List.drop_zero)
  rw [List.length_append]
  omega

theorem packed_eq_nil_or_cons (parse : List α → Option (β × Nat)) (data : List α) :
    parse data = none ∧ packed parse data = [] ∨
      ∃ record consumed rest, parse data = some (record, consumed) ∧
        packed parse data = record :: rest := by
  rw [packed, packedLoop, if_neg (Nat.not_lt_zero _), List.drop_zero]
  cases parsed : parse data with
  | none => exact .inl ⟨rfl, rfl⟩
  | some found =>
      right
      refine ⟨found.1, found.2, ?_⟩
      dsimp only
      split
      case isTrue => exact ⟨[], rfl, rfl⟩
      case isFalse => exact ⟨_, rfl, rfl⟩

theorem exists_of_mem_packedLoop {record : β} {fuel place : Nat}
    (member : record ∈ packedLoop parse data fuel place) :
    ∃ rest consumed, parse rest = some (record, consumed) := by
  induction fuel generalizing place with
  | zero => cases member
  | succ fuel induction =>
      rw [packedLoop] at member
      split at member
      case isTrue => cases member
      case isFalse =>
        split at member
        case h_1 => cases member
        case h_2 first consumed parsed =>
          split at member
          case isTrue =>
            rw [List.mem_singleton.mp member]
            exact ⟨_, _, parsed⟩
          case isFalse =>
            rcases List.mem_cons.mp member with rfl | later
            · exact ⟨_, _, parsed⟩
            · exact induction later

end Packed

end BtrfsForensic
