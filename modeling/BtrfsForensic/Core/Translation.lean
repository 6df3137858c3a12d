import BtrfsForensic.Core.ChunkMap
import BtrfsForensic.Core.Writer

namespace BtrfsForensic

/-! What a chunk map means, and where the lookup departs from it. The meaning
of a map is the first span that contains an address, taken over the naturals;
the lookup computes the ends of the spans in 64 bits and gives up at the first
end that does not fit. -/

/-! ## Spans -/

namespace MapEntry

/-- The entry's span contains the address, whatever the span's end. -/
def Covers (logical : UInt64) (entry : MapEntry) : Prop :=
  entry.logicalStart.toNat ≤ logical.toNat ∧
    logical.toNat - entry.logicalStart.toNat < entry.length.toNat

/-- The end of the span does not fit 64 bits. -/
def Overflows (entry : MapEntry) : Prop :=
  2 ^ 64 ≤ entry.logicalStart.toNat + entry.length.toNat

instance (logical : UInt64) (entry : MapEntry) :
    Decidable (entry.Covers logical) :=
  inferInstanceAs (Decidable (_ ∧ _))

instance (entry : MapEntry) : Decidable entry.Overflows :=
  inferInstanceAs (Decidable (_ ≤ _))

/-- The address on the first stripe, if there is one and the sum fits. -/
def target (logical : UInt64) (entry : MapEntry) : Option (UInt64 × UInt64) := do
  let (devid, physStart) ← entry.stripes.head?
  let phys ← checkedAdd physStart (logical - entry.logicalStart)
  some (devid, phys)

theorem target_eq_some_iff {logical : UInt64} {entry : MapEntry}
    (covers : entry.Covers logical) {devid phys : UInt64} :
    entry.target logical = some (devid, phys) ↔
      ∃ physStart, entry.stripes.head? = some (devid, physStart) ∧
        phys.toNat =
          physStart.toNat + (logical.toNat - entry.logicalStart.toNat) := by
  have delta := UInt64.toNat_sub_of_le logical entry.logicalStart
    (UInt64.le_iff_toNat_le.mpr covers.1)
  rw [target]
  cases entry.stripes.head? with
  | none => simp
  | some stripe =>
      cases stripe with
      | mk stripeDev physStart =>
          simp only [Option.bind_eq_bind, Option.bind_some,
            Option.bind_eq_some_iff, Option.some.injEq, Prod.mk.injEq,
            checkedAdd_eq_some_iff, delta]
          constructor
          · intro parts
            rcases parts with ⟨sum, sumEqual, rfl, rfl⟩
            exact ⟨physStart, ⟨rfl, rfl⟩, sumEqual.symm⟩
          · intro parts
            rcases parts with ⟨start, ⟨rfl, rfl⟩, physEqual⟩
            exact ⟨phys, physEqual.symm, rfl, rfl⟩

end MapEntry

namespace ChunkMap

/-- The meaning of a map: the target of the first entry that covers the
address. -/
def translate (logical : UInt64) (entries : List MapEntry) :
    Option (UInt64 × UInt64) :=
  (entries.find? fun entry => entry.Covers logical).bind (MapEntry.target logical)

def upToCover (logical : UInt64) : List MapEntry → List MapEntry
  | [] => []
  | entry :: rest =>
      if entry.Covers logical then [entry] else entry :: upToCover logical rest

/-- Some span that the lookup meets before it can answer has an end beyond 64
bits. -/
def Blinded (logical : UInt64) (entries : List MapEntry) : Prop :=
  ∃ entry ∈ upToCover logical entries, entry.Overflows

instance (logical : UInt64) (entries : List MapEntry) :
    Decidable (Blinded logical entries) :=
  inferInstanceAs (Decidable (∃ entry ∈ _, _))

theorem lookup_cons (logical : UInt64) (entry : MapEntry)
    (rest : List MapEntry) :
    lookup logical (entry :: rest) =
      if entry.Overflows then none
      else if entry.Covers logical then entry.target logical
      else lookup logical rest := by
  have logicalBound := logical.toNat_lt
  rw [lookup]
  by_cases overflows : entry.Overflows
  · rw [checkedAdd_eq_none_iff.mpr overflows, if_pos overflows]
    rfl
  · have fits : entry.logicalStart.toNat + entry.length.toNat < 2 ^ 64 :=
      Nat.lt_of_not_le overflows
    have sum : (entry.logicalStart + entry.length).toNat =
        entry.logicalStart.toNat + entry.length.toNat := by
      rw [UInt64.toNat_add, Nat.mod_eq_of_lt fits]
    have spans : (entry.logicalStart ≤ logical ∧
        logical < entry.logicalStart + entry.length) ↔ entry.Covers logical := by
      rw [UInt64.le_iff_toNat_le, UInt64.lt_iff_toNat_lt, sum, MapEntry.Covers]
      omega
    rw [if_neg overflows, checkedAdd_eq_some_iff.mpr sum.symm]
    simp only [Option.bind_eq_bind, Option.bind_some, spans]
    rfl

/-- The lookup computes the meaning of the map, unless it is blinded. -/
theorem lookup_eq_translate (logical : UInt64) (entries : List MapEntry) :
    lookup logical entries =
      if Blinded logical entries then none else translate logical entries := by
  induction entries with
  | nil => rfl
  | cons entry rest induction =>
      rw [lookup_cons, induction]
      by_cases covers : entry.Covers logical
      · simp [Blinded, upToCover, translate, covers]
      · by_cases overflows : entry.Overflows
        · simp [Blinded, upToCover, covers, overflows]
        · simp [Blinded, upToCover, translate, covers, overflows]
          rfl

/-! ## Inserting an entry -/

def insertAt (position : Nat) (entry : MapEntry) (map : ChunkMap) : ChunkMap :=
  ⟨map.entries.take position ++ entry :: map.entries.drop position⟩

def ofNodes (nodes : List Node) : ChunkMap := nodes.foldl addFromNode new

section Insertion

variable {logical : UInt64} {entry : MapEntry}

theorem translate_insert_of_not_covers (outside : ¬entry.Covers logical)
    (front back : List MapEntry) :
    translate logical (front ++ entry :: back) =
      translate logical (front ++ back) := by
  simp [translate, List.find?_append, outside]

theorem mem_upToCover_insert (outside : ¬entry.Covers logical)
    {front back : List MapEntry} {other : MapEntry}
    (member : other ∈ upToCover logical (front ++ back)) :
    other ∈ upToCover logical (front ++ entry :: back) := by
  induction front with
  | nil =>
      rw [List.nil_append, upToCover, if_neg outside]
      exact List.mem_cons_of_mem _ member
  | cons head tail induction =>
      rw [List.cons_append, upToCover] at member ⊢
      split at member
      case isTrue covers => rwa [if_pos covers]
      case isFalse uncovered =>
        rw [if_neg uncovered]
        rcases List.mem_cons.mp member with equal | member
        · exact equal ▸ List.mem_cons_self
        · exact List.mem_cons_of_mem _ (induction member)

end Insertion

/-- The first chunk whose span contains the address, when it has a stripe and
the sum fits, is where the map sends the address. -/
def MapsByFirstCover (map : ChunkMap) (logical : UInt64) : Prop :=
  ∀ entry, (map.entries.find? fun entry => entry.Covers logical) = some entry →
    ∀ devid physStart phys : UInt64,
      entry.stripes.head? = some (devid, physStart) →
      phys.toNat =
        physStart.toNat + (logical.toNat - entry.logicalStart.toNat) →
      map.logicalToPhysical logical = some (devid, phys)

theorem mapsByFirstCover_iff {map : ChunkMap} {logical : UInt64} :
    map.MapsByFirstCover logical ↔
      (translate logical map.entries = none ∨ ¬Blinded logical map.entries) := by
  rw [MapsByFirstCover, logicalToPhysical, lookup_eq_translate, translate]
  cases first : map.entries.find? fun entry => entry.Covers logical with
  | none => simp
  | some entry =>
      have covers : entry.Covers logical := by
        simpa using List.find?_some first
      constructor
      · intro holds
        rw [Option.bind_some]
        cases known : entry.target logical with
        | none => exact .inl rfl
        | some target =>
            rcases (MapEntry.target_eq_some_iff covers).mp known with
              ⟨physStart, stripe, sum⟩
            have mapped := holds entry rfl target.1 physStart target.2 stripe sum
            refine .inr fun blinded => ?_
            rw [if_pos blinded] at mapped
            cases mapped
      · intro either found equal devid physStart phys stripe sum
        cases equal
        have known : entry.target logical = some (devid, phys) :=
          (MapEntry.target_eq_some_iff covers).mpr ⟨physStart, stripe, sum⟩
        rw [Option.bind_some] at either ⊢
        rw [if_neg (either.resolve_left (by rw [known]; simp)), known]

/-- Inserting the entry does not change where the address goes, and the map
sends the address where its first cover says. -/
def InsertionNeutral (position : Nat) (entry : MapEntry) (map : ChunkMap)
    (logical : UInt64) : Prop :=
  (insertAt position entry map).logicalToPhysical logical =
      map.logicalToPhysical logical ∧
    map.MapsByFirstCover logical

/-- Inserting a chunk that does not contain the address is neutral exactly when
no chunk that the lookup meets in the larger map overflows, or the address has
no translation to lose. -/
theorem insertionNeutral_iff (nodes : List Node) (position : Nat)
    (logicalStart : UInt64) (chunk : Chunk) (logical : UInt64)
    (outside : ¬(MapEntry.ofChunk logicalStart chunk).Covers logical) :
    InsertionNeutral position (MapEntry.ofChunk logicalStart chunk)
        (ofNodes nodes) logical ↔
      (translate logical (ofNodes nodes).entries = none ∨
        ¬Blinded logical (insertAt position (MapEntry.ofChunk logicalStart chunk)
          (ofNodes nodes)).entries) := by
  generalize MapEntry.ofChunk logicalStart chunk = entry at outside ⊢
  generalize ofNodes nodes = map
  have split : map.entries =
      map.entries.take position ++ map.entries.drop position :=
    (List.take_append_drop position map.entries).symm
  have sameMeaning : translate logical (insertAt position entry map).entries =
      translate logical map.entries := by
    rw [insertAt, translate_insert_of_not_covers outside, ← split]
  have blindedInsert (blinded : Blinded logical map.entries) :
      Blinded logical (insertAt position entry map).entries := by
    rcases blinded with ⟨other, member, overflows⟩
    rw [split] at member
    exact ⟨other, mem_upToCover_insert outside member, overflows⟩
  rw [InsertionNeutral, mapsByFirstCover_iff, logicalToPhysical,
    logicalToPhysical, lookup_eq_translate, lookup_eq_translate, sameMeaning]
  constructor
  · intro parts
    rcases parts with ⟨sameResult, unmapped | clear⟩
    · exact .inl unmapped
    · rw [if_neg clear] at sameResult
      by_cases blinded : Blinded logical (insertAt position entry map).entries
      · exact .inl (by rw [if_pos blinded] at sameResult; exact sameResult.symm)
      · exact .inr blinded
  · intro either
    rcases either with unmapped | clear
    · exact ⟨by rw [unmapped]; split <;> split <;> rfl, .inl unmapped⟩
    · have clearBefore : ¬Blinded logical map.entries :=
        fun blinded => clear (blindedInsert blinded)
      rw [if_neg clear, if_neg clearBefore]
      exact ⟨rfl, .inr clearBefore⟩

/-- A chunk-tree leaf with one chunk: `[4096, 8192)` at physical 8192. -/
def oneChunkLeaf : Bytes :=
  Writer.leaf 256 ⟨List.Vector.replicate 16 0, 0, 1, 3⟩
    [(⟨256, chunkItemKey, 4096⟩, Writer.chunk 4096 8192)]

/-- A chunk whose span `[2^64 - 4096, 2^64 + 4096)` leaves 64 bits. -/
def overflowingStart : UInt64 := 0xFFFFFFFFFFFFF000

def overflowingChunk : Chunk := Chunk.parse (Writer.chunk 8192 0)

/-- The overflowing chunk in front blinds the lookup of an address that the
chunk behind it maps. -/
theorem insertionNeutral_fails_on_overflow :
    Node.parse Crates.withoutCodecs oneChunkLeaf =
        .ok (Node.ofBlock Crates.withoutCodecs oneChunkLeaf) ∧
      ¬(MapEntry.ofChunk overflowingStart overflowingChunk).Covers 4096 ∧
      ¬InsertionNeutral 0 (MapEntry.ofChunk overflowingStart overflowingChunk)
        (ofNodes [Node.ofBlock Crates.withoutCodecs oneChunkLeaf]) 4096 := by
  refine ⟨Node.parse_eq_ok_iff.mpr ⟨by decide +kernel, rfl⟩,
    by decide +kernel, fun neutral => ?_⟩
  have lost : (insertAt 0 (MapEntry.ofChunk overflowingStart overflowingChunk)
      (ofNodes [Node.ofBlock Crates.withoutCodecs oneChunkLeaf])).logicalToPhysical
        4096 = none := by decide +kernel
  have mapped : (ofNodes [Node.ofBlock Crates.withoutCodecs
      oneChunkLeaf]).logicalToPhysical 4096 = some (1, 8192) := by decide +kernel
  have same := neutral.1
  rw [lost, mapped] at same
  cases same

theorem insertionNeutral_iff_at_overflow :
    InsertionNeutral 0 (MapEntry.ofChunk overflowingStart overflowingChunk)
        (ofNodes [Node.ofBlock Crates.withoutCodecs oneChunkLeaf]) 4096 ↔
      (translate 4096
          (ofNodes [Node.ofBlock Crates.withoutCodecs oneChunkLeaf]).entries =
        none ∨
        ¬Blinded 4096 (insertAt 0
          (MapEntry.ofChunk overflowingStart overflowingChunk)
          (ofNodes [Node.ofBlock Crates.withoutCodecs oneChunkLeaf])).entries) :=
  insertionNeutral_iff [Node.ofBlock Crates.withoutCodecs oneChunkLeaf] 0
    overflowingStart overflowingChunk 4096 (by decide +kernel)

end ChunkMap

end BtrfsForensic
