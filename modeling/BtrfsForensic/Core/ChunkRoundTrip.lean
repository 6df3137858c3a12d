import BtrfsForensic.Core.SuperblockPrefix
import BtrfsForensic.Core.NodeRoundTrip

namespace BtrfsForensic

/-! Chunk records as they are written, into the `sys_chunk_array` and into the
items of the chunk tree, and what each of the two decoders reads of them. -/

/-- A chunk as the superblock's array stores it. `geometry` is the `io_align`,
`io_width` and `sector_size` that no decoder looks at. -/
structure ArrayEntry where
  chunk : SysChunk
  geometry : List.Vector UInt8 12
  counted : chunk.stripes.length = chunk.numStripes.toNat

/-- The chunk-tree view of a chunk of the bootstrap array. -/
def SysChunk.toChunk (chunk : SysChunk) : Chunk where
  length := chunk.length
  owner := chunk.owner
  stripeLen := chunk.stripeLen
  chunkType := chunk.chunkType
  numStripes := chunk.numStripes
  subStripes := chunk.subStripes
  stripes := chunk.stripes

namespace Writer

def stripe (placement : Stripe) : Bytes :=
  encodeLE 8 placement.devid.toNat ++
    (encodeLE 8 placement.offset.toNat ++ placement.devUuid.val)

def chunkRecord (entry : ArrayEntry) : Bytes :=
  encodeLE 8 entry.chunk.length.toNat ++ (encodeLE 8 entry.chunk.owner.toNat ++
    (encodeLE 8 entry.chunk.stripeLen.toNat ++ (encodeLE 8 entry.chunk.chunkType.toNat ++
      (entry.geometry.val ++ (encodeLE 2 entry.chunk.numStripes.toNat ++
        (encodeLE 2 entry.chunk.subStripes.toNat ++
          entry.chunk.stripes.flatMap stripe))))))

def arrayEntry (entry : ArrayEntry) : Bytes :=
  key entry.chunk.key ++ chunkRecord entry

@[simp] theorem length_stripe (placement : Stripe) :
    (stripe placement).length = stripeSize := by
  have uuid := placement.devUuid.property
  simp only [stripe, List.length_append, length_encodeLE, uuid]

theorem length_chunkRecord (entry : ArrayEntry) :
    (chunkRecord entry).length =
      chunkHeaderSize + entry.chunk.numStripes.toNat * stripeSize := by
  have geometry := entry.geometry.property
  have stripes : (entry.chunk.stripes.flatMap stripe).length =
      entry.chunk.numStripes.toNat * stripeSize := by
    rw [List.length_flatMap, List.map_congr_left fun placement _ => length_stripe placement,
      List.map_const', List.sum_replicate_nat, entry.counted]
  simp only [chunkRecord, List.length_append, length_encodeLE, geometry, stripes]
  rw [chunkHeaderSize]
  omega

theorem length_arrayEntry (entry : ArrayEntry) :
    (arrayEntry entry).length =
      diskKeySize + chunkHeaderSize + entry.chunk.numStripes.toNat * stripeSize := by
  rw [arrayEntry, List.length_append, length_key, length_chunkRecord, Nat.add_assoc]

end Writer

/-! ## One record -/

section Record

variable {block data : Bytes} {off : Nat}

theorem Stripe.parse_of_holds {placement : Stripe}
    (holds : Holds block off (Writer.stripe placement)) :
    Stripe.parse block off = placement := by
  rw [Writer.stripe, holds_append_iff, holds_append_iff, length_encodeLE,
    length_encodeLE] at holds
  rcases holds with ⟨devid, physical, uuid⟩
  rw [Stripe.parse, leU64_of_holds devid, leU64_of_holds physical, u8Array_of_holds uuid]

theorem chunkRecord_fields {entry : ArrayEntry}
    (holds : Holds block off (Writer.chunkRecord entry)) :
    leU64 block off = entry.chunk.length ∧ leU64 block (off + 8) = entry.chunk.owner ∧
      leU64 block (off + 16) = entry.chunk.stripeLen ∧
      leU64 block (off + 24) = entry.chunk.chunkType ∧
      leU16 block (off + 44) = entry.chunk.numStripes ∧
      leU16 block (off + 46) = entry.chunk.subStripes ∧
      (List.range entry.chunk.numStripes.toNat).map
          (fun index => Stripe.parse block (off + chunkHeaderSize + index * stripeSize)) =
        entry.chunk.stripes := by
  have geometrySize := entry.geometry.property
  simp only [Writer.chunkRecord, holds_append_iff, length_encodeLE, geometrySize,
    Nat.add_assoc, Nat.reduceAdd] at holds
  rcases holds with ⟨length, owner, stripeLen, chunkType, _, numStripes, subStripes, stripes⟩
  refine ⟨leU64_of_holds length, leU64_of_holds owner, leU64_of_holds stripeLen,
    leU64_of_holds chunkType, leU16_of_holds numStripes, leU16_of_holds subStripes, ?_⟩
  rw [← entry.counted]
  apply map_range_of_holds _ (fun placement _ => Writer.length_stripe placement) _ stripes
  exact fun placement _ position found => Stripe.parse_of_holds found

theorem Chunk.parse_of_holds {entry : ArrayEntry}
    (holds : Holds data 0 (Writer.chunkRecord entry)) :
    Chunk.parse data = entry.chunk.toChunk := by
  have size := holds.le
  rw [Writer.length_chunkRecord] at size
  rcases chunkRecord_fields holds with
    ⟨length, owner, stripeLen, chunkType, numStripes, subStripes, stripes⟩
  simp only [Nat.zero_add] at length owner stripeLen chunkType numStripes subStripes stripes
  have fits : min entry.chunk.numStripes.toNat
      ((data.length - chunkHeaderSize) / stripeSize) = entry.chunk.numStripes.toNat := by
    simp only [chunkHeaderSize, stripeSize] at *
    omega
  rw [Chunk.parse, SysChunk.toChunk]
  simp only [length, owner, stripeLen, chunkType, numStripes, subStripes, fits, stripes]

end Record

/-! ## The array -/

namespace SysChunk

variable {block : Bytes} {stop p : Nat} {entries : List ArrayEntry}

theorem entry_of_holds {entry : ArrayEntry} (bounded : block.length < usizeMax)
    (holds : Holds block p (Writer.arrayEntry entry)) :
    entryEnd block p = p + (Writer.arrayEntry entry).length ∧
      entryAt block p = entry.chunk := by
  have keySize : diskKeySize = 17 := rfl
  have size := holds.le
  rw [Writer.arrayEntry, holds_append_iff, Writer.length_key] at holds
  rcases holds with ⟨key, record⟩
  rcases chunkRecord_fields record with
    ⟨length, owner, stripeLen, chunkType, numStripes, subStripes, stripes⟩
  rw [Writer.length_arrayEntry] at size ⊢
  have keyEnd : saturatingAdd p diskKeySize = p + 17 := saturatingAdd_eq (by omega)
  have header : saturatingAdd (p + 17) chunkHeaderSize = p + 17 + chunkHeaderSize :=
    saturatingAdd_eq (by omega)
  have product : saturatingMul entry.chunk.numStripes.toNat stripeSize =
      entry.chunk.numStripes.toNat * stripeSize := Nat.min_eq_left (by omega)
  constructor
  · rw [entryEnd, keyEnd, header, numStripes, product, saturatingAdd_eq (by omega)]
    omega
  · rw [entryAt]
    simp only [keyEnd, header, DiskKey.parse_of_holds key, length, owner, stripeLen,
      chunkType, numStripes, subStripes, stripes]

/-- From an entry on, the loop reads as many entries as end by the stop. The
induction is on the entries; the next one that does not fit is still read far
enough to tell. -/
theorem parseArrayLoop_written (bounded : block.length < usizeMax)
    (holds : Holds block p (entries.flatMap Writer.arrayEntry)) (started : p ≤ stop)
    (declared : stop ≤ p + (entries.flatMap Writer.arrayEntry).length) {fuel : Nat}
    (enough : stop < p + fuel) :
    ∃ count ≤ entries.length,
      parseArrayLoop block stop fuel p = (entries.take count).map ArrayEntry.chunk ∧
        p + ((entries.take count).flatMap Writer.arrayEntry).length ≤ stop ∧
        (count < entries.length →
          stop < p + ((entries.take (count + 1)).flatMap Writer.arrayEntry).length) := by
  have whole := holds.le
  induction entries generalizing p fuel with
  | nil =>
      refine ⟨0, Nat.le_refl _, ?_, by simpa using started,
        fun more => absurd more (Nat.lt_irrefl _)⟩
      have past : stop < entryEnd block p := by
        by_contra accepted
        have size := add_le_entryEnd (by omega) accepted
        rw [List.flatMap_nil, List.length_nil] at declared
        omega
      cases fuel with
      | zero => rfl
      | succ fuel =>
          rw [parseArrayLoop_succ, if_pos past]
          rfl
  | cons entry entries induction =>
      rw [List.flatMap_cons, List.length_append] at declared whole
      rw [List.flatMap_cons, holds_append_iff] at holds
      rcases entry_of_holds bounded holds.1 with ⟨size, decoded⟩
      cases fuel with
      | zero => omega
      | succ fuel =>
          rw [parseArrayLoop_succ, size, decoded]
          split
          case isTrue past =>
            refine ⟨0, Nat.zero_le _, rfl, by simpa using started, fun _ => ?_⟩
            simpa using past
          case isFalse accepted =>
            have long : 0 < (Writer.arrayEntry entry).length := by
              rw [Writer.length_arrayEntry, diskKeySize]
              omega
            have left : stop < p + (Writer.arrayEntry entry).length + fuel := by omega
            rcases induction holds.2 (by omega) (by omega) left (by omega) with
              ⟨count, few, loop, fits, next⟩
            refine ⟨count + 1, Nat.succ_le_succ few, ?_, ?_, fun more => ?_⟩
            · rw [loop, List.take_succ_cons, List.map_cons]
            · rw [List.take_succ_cons, List.flatMap_cons, List.length_append]
              omega
            · have later := next (Nat.lt_of_succ_lt_succ more)
              rw [List.take_succ_cons, List.flatMap_cons, List.length_append]
              omega

theorem length_flatMap_take_mono (entries : List ArrayEntry) {few many : Nat}
    (le : few ≤ many) :
    ((entries.take few).flatMap Writer.arrayEntry).length ≤
      ((entries.take many).flatMap Writer.arrayEntry).length := by
  rw [← Nat.min_eq_left le, ← List.take_take]
  generalize entries.take many = taken
  conv_rhs => rw [← List.take_append_drop few taken]
  rw [List.flatMap_append, List.length_append]
  exact Nat.le_add_right _ _

/-- Of a written array the bootstrap decoder returns the longest run of entries
that the declared size holds, and the chunk-tree decoder reads the same from each
entry's record. -/
theorem parseArray_roundTrip (lead tail : Bytes) (entries : List ArrayEntry)
    (arraySize : UInt32)
    (declared : arraySize.toNat ≤ (entries.flatMap Writer.arrayEntry).length)
    (bounded : (lead ++ (entries.flatMap Writer.arrayEntry ++ tail)).length < usizeMax) :
    (∃ count ≤ entries.length,
      parseArray (lead ++ (entries.flatMap Writer.arrayEntry ++ tail)) lead.length
          arraySize = (entries.take count).map ArrayEntry.chunk ∧
        ((entries.take count).flatMap Writer.arrayEntry).length ≤ arraySize.toNat ∧
        ∀ more ≤ entries.length,
          ((entries.take more).flatMap Writer.arrayEntry).length ≤ arraySize.toNat →
            more ≤ count) ∧
      (arraySize.toNat = (entries.flatMap Writer.arrayEntry).length →
        parseArray (lead ++ (entries.flatMap Writer.arrayEntry ++ tail)) lead.length
          arraySize = entries.map ArrayEntry.chunk) ∧
      ∀ entry ∈ entries, ∀ rest : Bytes,
        Chunk.parse (Writer.chunkRecord entry ++ rest) = entry.chunk.toChunk := by
  have holds : Holds (lead ++ (entries.flatMap Writer.arrayEntry ++ tail)) lead.length
      (entries.flatMap Writer.arrayEntry) := holds_of_append rfl rfl
  have longest : ∃ count ≤ entries.length,
      parseArray (lead ++ (entries.flatMap Writer.arrayEntry ++ tail)) lead.length
          arraySize = (entries.take count).map ArrayEntry.chunk ∧
        ((entries.take count).flatMap Writer.arrayEntry).length ≤ arraySize.toNat ∧
        ∀ more ≤ entries.length,
          ((entries.take more).flatMap Writer.arrayEntry).length ≤ arraySize.toNat →
            more ≤ count := by
    have inside := holds.le
    generalize lead ++ (entries.flatMap Writer.arrayEntry ++ tail) = block at *
    have stop : min (saturatingAdd lead.length arraySize.toNat) block.length =
        lead.length + arraySize.toNat := by
      rw [saturatingAdd_eq (by omega), Nat.min_eq_left (by omega)]
    have started : lead.length ≤ lead.length + arraySize.toNat := Nat.le_add_right _ _
    have enough : lead.length + arraySize.toNat <
        lead.length + (lead.length + arraySize.toNat + 1) := by omega
    rcases parseArrayLoop_written bounded holds started (by omega) enough with
      ⟨count, few, loop, fits, next⟩
    refine ⟨count, few, ?_, by omega, fun more inRange fitting => ?_⟩
    · simp only [parseArray, stop, loop]
    · by_contra beyond
      have past := next (by omega)
      have step : count + 1 ≤ more := by omega
      have longer := length_flatMap_take_mono entries step
      omega
  refine ⟨longest, fun equal => ?_, fun entry _ rest => ?_⟩
  · rcases longest with ⟨count, few, parsed, _, maximal⟩
    have all := maximal entries.length (Nat.le_refl _)
      (by rw [List.take_length, equal])
    rw [parsed, List.take_of_length_le all]
  · exact Chunk.parse_of_holds (holds_front _ rest)

/-- An entry of one stripe and one of none. -/
def twoEntries : List ArrayEntry :=
  [⟨⟨⟨256, 228, 4096⟩, 8192, 2, 65536, 2, 1, 1,
      [⟨1, 4096, ⟨List.replicate 16 3, rfl⟩⟩]⟩, ⟨List.replicate 12 9, rfl⟩, rfl⟩,
    ⟨⟨⟨256, 228, 12288⟩, 4096, 2, 65536, 2, 0, 0, []⟩, ⟨List.replicate 12 0, rfl⟩, rfl⟩]

/-- Declared one byte short of the second entry, the first is returned alone. -/
theorem parseArray_roundTrip_in_twoEntries :
    parseArray ([7] ++ (twoEntries.flatMap Writer.arrayEntry ++ [5, 5])) 1 161 =
      (twoEntries.take 1).map ArrayEntry.chunk := by
  have first : ((twoEntries.take 1).flatMap Writer.arrayEntry).length = 97 := by
    simp [twoEntries, Writer.length_arrayEntry, diskKeySize, chunkHeaderSize, stripeSize]
  have both : (twoEntries.flatMap Writer.arrayEntry).length = 162 := by
    simp [twoEntries, Writer.length_arrayEntry, diskKeySize, chunkHeaderSize, stripeSize]
  rcases (parseArray_roundTrip [7] [5, 5] twoEntries 161 (by simp [both])
      (by simp [both, usizeMax])).1 with ⟨count, few, parsed, fits, maximal⟩
  have one : 1 ≤ count := maximal 1 (by decide) (by simp [first])
  have notTwo : count ≠ 2 := fun two => by
    rw [two, List.take_of_length_le (Nat.le_refl 2), both] at fits
    exact absurd fits (by decide)
  have size : twoEntries.length = 2 := rfl
  rw [show count = 1 by omega] at parsed
  exact parsed

end SysChunk

end BtrfsForensic
