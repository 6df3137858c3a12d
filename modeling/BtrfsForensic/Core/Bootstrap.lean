import BtrfsForensic.Core.Translation

namespace BtrfsForensic

/-! The `sys_chunk_array` has two readers: the bootstrap map that the walk of
the chunk tree falls back to, and the search that `readNode` falls back to. -/

/-! ## The two readers -/

def ChunkMap.ofSysChunks (chunks : List SysChunk) : ChunkMap :=
  ⟨chunks.map MapEntry.ofSysChunk⟩

theorem ChunkMap.boot_eq (sb : Superblock) : boot sb = ofSysChunks sb.sysChunks := rfl

/-- The first entry that has an answer of its own. -/
def fallbackPhysical (chunks : List SysChunk) (logical : UInt64) :
    Option (UInt64 × UInt64) :=
  chunks.findSome? fun chunk =>
    (chunk.logicalToPhysical logical).map fun phys => (0, phys)

theorem nodePhysical_eq (sb : Superblock) (map : ChunkMap) (logical : UInt64) :
    nodePhysical sb map logical =
      (map.logicalToPhysical logical).or (fallbackPhysical sb.sysChunks logical) := rfl

/-- The bootstrap map's search ends at this entry, with or without an answer. -/
def SysChunk.Stops (logical : UInt64) (chunk : SysChunk) : Prop :=
  (MapEntry.ofSysChunk chunk).Overflows ∨ (MapEntry.ofSysChunk chunk).Covers logical

instance (logical : UInt64) (chunk : SysChunk) : Decidable (chunk.Stops logical) :=
  inferInstanceAs (Decidable (_ ∨ _))

/-- This entry alone translates the address: its span fits 64 bits and contains
the address, and the sum on its first stripe fits. -/
def SysChunk.Answers (logical : UInt64) (chunk : SysChunk) : Prop :=
  ¬(MapEntry.ofSysChunk chunk).Overflows ∧
    (MapEntry.ofSysChunk chunk).Covers logical ∧
    ∃ stripe ∈ chunk.stripes.head?,
      stripe.offset.toNat + (logical.toNat - chunk.key.offset.toNat) < 2 ^ 64

instance (logical : UInt64) (chunk : SysChunk) : Decidable (chunk.Answers logical) :=
  inferInstanceAs (Decidable (_ ∧ _ ∧ _))

/-! ## Where they agree -/

theorem SysChunk.logicalToPhysical_eq_lookup (chunk : SysChunk) (logical : UInt64) :
    chunk.logicalToPhysical logical =
      (ChunkMap.lookup logical [MapEntry.ofSysChunk chunk]).map Prod.snd := by
  rw [SysChunk.logicalToPhysical, ChunkMap.lookup, ChunkMap.lookup]
  change Option.bind (checkedAdd chunk.key.offset chunk.length) _ =
    Option.map Prod.snd
      (Option.bind (checkedAdd chunk.key.offset chunk.length) _)
  cases checkedAdd chunk.key.offset chunk.length with
  | none => rfl
  | some stop =>
      rw [Option.bind_some, Option.bind_some]
      by_cases inside : chunk.key.offset ≤ logical ∧ logical < stop
      · have within : ¬(logical < chunk.key.offset ∨ stop ≤ logical) := by
          rw [not_or, UInt64.not_lt, UInt64.not_le]
          exact inside
        rw [if_neg within, if_pos (show (MapEntry.ofSysChunk chunk).logicalStart ≤
          logical ∧ logical < stop from inside)]
        cases found : chunk.stripes.head? with
        | none => simp [MapEntry.ofSysChunk, found]
        | some stripe =>
            cases sum : checkedAdd stripe.offset (logical - chunk.key.offset) <;>
              simp [MapEntry.ofSysChunk, found, sum]
      · have outside : logical < chunk.key.offset ∨ stop ≤ logical := by
          by_contra within
          rw [not_or, UInt64.not_lt, UInt64.not_le] at within
          exact inside within
        rw [if_pos outside, if_neg (show ¬((MapEntry.ofSysChunk chunk).logicalStart ≤
          logical ∧ logical < stop) from inside)]
        rfl

theorem SysChunk.logicalToPhysical_eq_ite (chunk : SysChunk) (logical : UInt64) :
    chunk.logicalToPhysical logical =
      if (MapEntry.ofSysChunk chunk).Overflows then none
      else if (MapEntry.ofSysChunk chunk).Covers logical then
        ((MapEntry.ofSysChunk chunk).target logical).map Prod.snd
      else none := by
  rw [logicalToPhysical_eq_lookup, ChunkMap.lookup_cons, ChunkMap.lookup]
  split
  · rfl
  · split <;> rfl

theorem fallbackPhysical_map_snd (chunks : List SysChunk) (logical : UInt64) :
    (fallbackPhysical chunks logical).map Prod.snd =
      chunks.findSome? fun chunk => chunk.logicalToPhysical logical := by
  induction chunks with
  | nil => rfl
  | cons chunk chunks induction =>
      rw [fallbackPhysical, List.findSome?_cons, List.findSome?_cons]
      cases chunk.logicalToPhysical logical with
      | none => exact induction
      | some phys => rfl

theorem SysChunk.isSome_logicalToPhysical_iff (chunk : SysChunk) (logical : UInt64) :
    (chunk.logicalToPhysical logical).isSome ↔ chunk.Answers logical := by
  rw [logicalToPhysical_eq_ite, Answers]
  by_cases overflows : (MapEntry.ofSysChunk chunk).Overflows
  · simp [overflows]
  · by_cases covers : (MapEntry.ofSysChunk chunk).Covers logical
    · have target {devid phys : UInt64} :
          (MapEntry.ofSysChunk chunk).target logical = some (devid, phys) ↔
            ∃ stripe ∈ chunk.stripes.head?, stripe.devid = devid ∧ phys.toNat =
              stripe.offset.toNat + (logical.toNat - chunk.key.offset.toNat) := by
        rw [MapEntry.target_eq_some_iff covers]
        simp [MapEntry.ofSysChunk, and_assoc]
      rw [if_neg overflows, if_pos covers, Option.isSome_map, Option.isSome_iff_exists]
      simp only [overflows, covers, not_false_eq_true, true_and]
      constructor
      · intro answer
        rcases answer with ⟨⟨devid, phys⟩, found⟩
        rcases target.mp found with ⟨stripe, first, _, sum⟩
        refine ⟨stripe, first, ?_⟩
        rw [← sum]
        exact phys.toNat_lt
      · intro parts
        rcases parts with ⟨stripe, first, fits⟩
        exact ⟨_, target.mpr ⟨stripe, first, rfl, UInt64.toNat_ofNat_of_lt' fits⟩⟩
    · simp [overflows, covers]

/-- The bootstrap map and the fallback of `readNode` give an address the same
physical offset exactly when no entry answers for it, or none that stops the
bootstrap map's search stands before the first that answers. -/
theorem bootstrap_agrees_iff (chunks : List SysChunk) (logical : UInt64) :
    ((ChunkMap.ofSysChunks chunks).logicalToPhysical logical).map Prod.snd =
        (fallbackPhysical chunks logical).map Prod.snd ↔
      (∀ chunk ∈ chunks, ¬chunk.Answers logical) ∨
        ∀ chunk ∈ chunks.takeWhile fun chunk => ¬chunk.Answers logical,
          ¬chunk.Stops logical := by
  rw [fallbackPhysical_map_snd, ChunkMap.logicalToPhysical, ChunkMap.ofSysChunks]
  induction chunks with
  | nil => simp [ChunkMap.lookup]
  | cons chunk chunks induction =>
      have own := chunk.logicalToPhysical_eq_ite logical
      rw [List.map_cons, ChunkMap.lookup_cons, List.findSome?_cons]
      cases answer : chunk.logicalToPhysical logical with
      | some phys =>
          -- The entry answers, so both searches end here.
          have answers : chunk.Answers logical := by
            rw [← chunk.isSome_logicalToPhysical_iff, answer]
            rfl
          rw [answer, if_neg answers.1, if_pos answers.2.1] at own
          rw [if_neg answers.1, if_pos answers.2.1]
          simp [answers, ← own]
      | none =>
          have silent : ¬chunk.Answers logical := by
            rw [← chunk.isSome_logicalToPhysical_iff, answer]
            simp
          by_cases stops : chunk.Stops logical
          · -- Only the bootstrap map's search ends here, without an answer.
            have blind : (if (MapEntry.ofSysChunk chunk).Overflows then none
                else if (MapEntry.ofSysChunk chunk).Covers logical then
                  (MapEntry.ofSysChunk chunk).target logical
                else ChunkMap.lookup logical (chunks.map MapEntry.ofSysChunk)) =
                none := by
              rw [answer] at own
              split
              case isTrue => rfl
              case isFalse clear =>
                have covers := stops.resolve_left clear
                rw [if_neg clear, if_pos covers] at own
                rw [if_pos covers]
                exact Option.map_eq_none_iff.mp own.symm
            have unanswered : (chunks.findSome? fun chunk =>
                  chunk.logicalToPhysical logical) = none ↔
                ∀ chunk ∈ chunks, ¬chunk.Answers logical := by
              simp only [List.findSome?_eq_none_iff,
                ← SysChunk.isSome_logicalToPhysical_iff, Bool.not_eq_true,
                Option.isSome_eq_false_iff, Option.isNone_iff_eq_none]
            rw [blind, Option.map_none, eq_comm, unanswered]
            simp [silent, stops]
          · have clear : ¬(MapEntry.ofSysChunk chunk).Overflows :=
              fun overflows => stops (.inl overflows)
            have outside : ¬(MapEntry.ofSysChunk chunk).Covers logical :=
              fun covers => stops (.inr covers)
            rw [if_neg clear, if_neg outside, induction]
            simp [silent, stops]

/-! An entry whose span leaves 64 bits stands before the one that maps the
address. -/

def plainSysChunk (start length physical : UInt64) : SysChunk where
  key := ⟨256, chunkItemKey, start⟩
  length := length
  owner := 2
  stripeLen := 65536
  chunkType := 2
  numStripes := 1
  subStripes := 1
  stripes := [⟨1, physical, List.Vector.replicate 16 0⟩]

/-- `[2^64 - 4096, 2^64 + 4096)`, then `[4096, 8192)` at physical 8192. -/
def overflowingArray : List SysChunk :=
  [plainSysChunk 0xFFFFFFFFFFFFF000 8192 0, plainSysChunk 4096 4096 8192]

/-- The walk cannot translate an address that the node reader reads from. -/
theorem bootstrap_disagrees_on_overflow :
    (ChunkMap.ofSysChunks overflowingArray).logicalToPhysical 4096 = none ∧
      fallbackPhysical overflowingArray 4096 = some (0, 8192) := by
  decide +kernel

end BtrfsForensic
