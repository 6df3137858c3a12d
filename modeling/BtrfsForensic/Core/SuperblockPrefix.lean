import BtrfsForensic.Core.Superblock

namespace BtrfsForensic

/-! Parsing a superblock from a prefix of a longer block: every scalar field is
the same, and only the checksum coverage and the `sys_chunk_array` can reach
past the prefix. -/

/-! ## The entries of the `sys_chunk_array` -/

namespace SysChunk

/-- Where the entry at a position ends, by the stripe count it declares. -/
def entryEnd (block : Bytes) (p : Nat) : Nat :=
  saturatingAdd (saturatingAdd (saturatingAdd p diskKeySize) chunkHeaderSize)
    (saturatingMul (leU16 block (saturatingAdd p diskKeySize + 44)).toNat stripeSize)

def entryAt (block : Bytes) (p : Nat) : SysChunk :=
  let keyEnd := saturatingAdd p diskKeySize
  let numStripes := leU16 block (keyEnd + 44)
  let stripesStart := saturatingAdd keyEnd chunkHeaderSize
  { key := DiskKey.parse block p
    length := leU64 block keyEnd
    owner := leU64 block (keyEnd + 8)
    stripeLen := leU64 block (keyEnd + 16)
    chunkType := leU64 block (keyEnd + 24)
    numStripes := numStripes
    subStripes := leU16 block (keyEnd + 46)
    stripes := (List.range numStripes.toNat).map fun index =>
      Stripe.parse block (stripesStart + index * stripeSize) }

def entryEnds (block : Bytes) (stop : Nat) : (fuel p : Nat) → List Nat
  | 0, _ => []
  | fuel + 1, p =>
      if stop < entryEnd block p then
        []
      else
        entryEnd block p :: entryEnds block stop fuel (entryEnd block p)

def arrayEnds (block : Bytes) (arrayOff : Nat) (arraySize : UInt32) : List Nat :=
  let stop := min (saturatingAdd arrayOff arraySize.toNat) block.length
  entryEnds block stop (stop + 1) arrayOff

section Entries

variable {block : Bytes} {stop p : Nat}

theorem header_le_entryEnd :
    saturatingAdd (saturatingAdd p diskKeySize) chunkHeaderSize ≤ entryEnd block p := by
  rw [entryEnd]
  generalize saturatingAdd p diskKeySize = keyEnd
  simp only [saturatingAdd]
  omega

theorem entryEnd_eq (bounded : entryEnd block p < usizeMax) :
    saturatingAdd p diskKeySize = p + 17 ∧
      entryEnd block p = p + 65 + (leU16 block (p + 17 + 44)).toNat * 32 := by
  have keySize : diskKeySize = 17 := rfl
  have headerSize : chunkHeaderSize = 48 := rfl
  have size : stripeSize = 32 := rfl
  have header : saturatingAdd (saturatingAdd p diskKeySize) chunkHeaderSize ≤
      entryEnd block p := header_le_entryEnd
  have key : saturatingAdd p diskKeySize = p + 17 := by
    simp only [saturatingAdd] at header ⊢
    omega
  refine ⟨key, ?_⟩
  rw [entryEnd, key, headerSize, size] at bounded ⊢
  clear keySize headerSize size header key
  generalize (leU16 block (p + 17 + 44)).toNat = count at bounded ⊢
  simp only [saturatingAdd, saturatingMul] at bounded ⊢
  generalize usizeMax = limit at bounded ⊢
  omega

/-- An entry is accepted exactly when it ends by `stop`: its header ends no later
than its stripes. -/
theorem parseArrayLoop_succ (fuel : Nat) :
    parseArrayLoop block stop (fuel + 1) p =
      if stop < entryEnd block p then []
      else entryAt block p :: parseArrayLoop block stop fuel (entryEnd block p) := by
  have header : saturatingAdd (saturatingAdd p diskKeySize) chunkHeaderSize ≤
      entryEnd block p := header_le_entryEnd
  rw [parseArrayLoop]
  by_cases short : stop < saturatingAdd (saturatingAdd p diskKeySize) chunkHeaderSize
  · rw [if_pos (Nat.lt_of_lt_of_le short header)]
    exact if_pos short
  · exact if_neg short

theorem add_le_entryEnd (bounded : stop < usizeMax)
    (accepted : ¬stop < entryEnd block p) : p + 65 ≤ entryEnd block p := by
  have below : entryEnd block p < usizeMax := by omega
  have size := (entryEnd_eq below).2
  omega

theorem parseArrayLoop_fuel (bounded : stop < usizeMax) :
    ∀ {fuel more p : Nat}, stop < p + fuel → stop < p + more →
      parseArrayLoop block stop fuel p = parseArrayLoop block stop more p
  | 0, 0, _, _, _ => rfl
  | 0, more + 1, p, spent, _ => by
      have past : stop < entryEnd block p := by
        by_contra inside
        have size := add_le_entryEnd bounded inside
        omega
      rw [parseArrayLoop_succ, if_pos past, parseArrayLoop]
  | fuel + 1, 0, p, _, spent => by
      have past : stop < entryEnd block p := by
        by_contra inside
        have size := add_le_entryEnd bounded inside
        omega
      rw [parseArrayLoop_succ, if_pos past, parseArrayLoop]
  | fuel + 1, more + 1, p, enough, alsoEnough => by
      rw [parseArrayLoop_succ, parseArrayLoop_succ]
      split
      case isTrue => rfl
      case isFalse inside =>
        have size := add_le_entryEnd bounded inside
        have left : stop < entryEnd block p + fuel := by omega
        have right : stop < entryEnd block p + more := by omega
        rw [parseArrayLoop_fuel bounded left right]

/-! ## Two stops and two blocks -/

/-- An earlier stop accepts the same entries exactly when all of them end by
it. -/
theorem parseArrayLoop_eq_iff {early late : Nat} (ordered : early ≤ late) :
    ∀ {fuel p : Nat},
      parseArrayLoop block late fuel p = parseArrayLoop block early fuel p ↔
        ∀ stop ∈ entryEnds block late fuel p, stop ≤ early
  | 0, _ => by simp [parseArrayLoop, entryEnds]
  | fuel + 1, p => by
      rw [parseArrayLoop_succ, parseArrayLoop_succ, entryEnds]
      by_cases pastLate : late < entryEnd block p
      · rw [if_pos pastLate, if_pos pastLate, if_pos (by omega)]
        simp
      · rw [if_neg pastLate, if_neg pastLate, List.forall_mem_cons]
        by_cases pastEarly : early < entryEnd block p
        · rw [if_pos pastEarly]
          simp [Nat.not_le_of_lt pastEarly]
        · rw [if_neg pastEarly, List.cons.injEq, parseArrayLoop_eq_iff ordered]
          simp [Nat.le_of_not_lt pastEarly]

theorem entryEnd_take {length : Nat} (bounded : length < usizeMax)
    (accepted : entryEnd block p ≤ length ∨ entryEnd (block.take length) p ≤ length) :
    entryEnd (block.take length) p = entryEnd block p := by
  have count : leU16 (block.take length) (saturatingAdd p diskKeySize + 44) =
      leU16 block (saturatingAdd p diskKeySize + 44) := by
    apply leU16_take
    rcases accepted with inside | inside
    · have size := entryEnd_eq (Nat.lt_of_le_of_lt inside bounded)
      omega
    · have size := entryEnd_eq (Nat.lt_of_le_of_lt inside bounded)
      omega
  rw [entryEnd, entryEnd, count]

theorem entryAt_take {length : Nat} (bounded : length < usizeMax)
    (inside : entryEnd block p ≤ length) :
    entryAt (block.take length) p = entryAt block p := by
  rcases entryEnd_eq (Nat.lt_of_le_of_lt inside bounded) with ⟨key, size⟩
  have headerSize : chunkHeaderSize = 48 := rfl
  have stripe : stripeSize = 32 := rfl
  have header : saturatingAdd (p + 17) chunkHeaderSize = p + 65 := by
    rw [headerSize, saturatingAdd_eq (by omega)]
  have count : leU16 (block.take length) (p + 17 + 44) = leU16 block (p + 17 + 44) :=
    leU16_take (by omega)
  have stripes :
      (List.range (leU16 block (p + 17 + 44)).toNat).map
          (fun index =>
            Stripe.parse (block.take length) (p + 65 + index * stripeSize)) =
        (List.range (leU16 block (p + 17 + 44)).toNat).map
          (fun index => Stripe.parse block (p + 65 + index * stripeSize)) := by
    apply List.map_congr_left
    intro index member
    have bound := List.mem_range.mp member
    simp only [Stripe.parse, stripe]
    rw [leU64_take (by omega), leU64_take (by omega), u8Array_take (by omega)]
  simp only [entryAt, key, header, count, DiskKey.parse]
  rw [stripes, leU64_take (by omega), u8At_take (by omega), leU64_take (by omega),
    leU64_take (by omega), leU64_take (by omega), leU64_take (by omega),
    leU64_take (by omega), leU16_take (by omega)]

theorem parseArrayLoop_take {length : Nat} (bounded : length < usizeMax)
    (within : stop ≤ length) :
    ∀ {fuel p : Nat},
      parseArrayLoop (block.take length) stop fuel p =
        parseArrayLoop block stop fuel p
  | 0, _ => rfl
  | fuel + 1, p => by
      rw [parseArrayLoop_succ, parseArrayLoop_succ]
      by_cases accepted : entryEnd block p ≤ stop
      · have same : entryEnd (block.take length) p = entryEnd block p :=
          entryEnd_take bounded (.inl (by omega))
        rw [same, if_neg (Nat.not_lt_of_le accepted),
          if_neg (Nat.not_lt_of_le accepted), entryAt_take bounded (by omega),
          parseArrayLoop_take bounded within]
      · have refused : ¬entryEnd (block.take length) p ≤ stop := fun inside => by
          rw [entryEnd_take bounded (.inr (by omega))] at inside
          exact accepted inside
        rw [if_pos (Nat.lt_of_not_le accepted), if_pos (Nat.lt_of_not_le refused)]

theorem le_of_mem_entryEnds :
    ∀ {fuel p : Nat}, ∀ {last : Nat}, last ∈ entryEnds block stop fuel p → last ≤ stop
  | 0, _, _, member => by cases member
  | fuel + 1, p, last, member => by
      rw [entryEnds] at member
      split at member
      · cases member
      case isFalse accepted =>
        rcases List.mem_cons.mp member with rfl | later
        · exact Nat.le_of_not_lt accepted
        · exact le_of_mem_entryEnds later

/-- A prefix holds the same array exactly when every entry ends within it. -/
theorem parseArray_take_iff {length arrayOff : Nat} {arraySize : UInt32}
    (whole : length ≤ block.length) (bounded : block.length < usizeMax) :
    parseArray block arrayOff arraySize =
        parseArray (block.take length) arrayOff arraySize ↔
      ∀ last ∈ arrayEnds block arrayOff arraySize, last ≤ length := by
  rw [parseArray, parseArray, arrayEnds, List.length_take, Nat.min_eq_left whole]
  generalize saturatingAdd arrayOff arraySize.toNat = declared
  have shorter : min declared length < arrayOff + (min declared length + 1) := by omega
  have longer : min declared length < arrayOff + (min declared block.length + 1) := by
    omega
  rw [parseArrayLoop_take (by omega) (Nat.min_le_right declared length),
    parseArrayLoop_fuel (by omega) shorter longer, parseArrayLoop_eq_iff (by omega)]
  constructor
  · intro early last member
    have bound := early last member
    omega
  · intro inside last member
    have bound := inside last member
    have accepted := le_of_mem_entryEnds member
    omega

end Entries

end SysChunk

/-! ## The checksum coverage -/

section Checksum

variable {crates : Crates} {block : Bytes} {coveredLen length : Nat}

def DigestMatches (crates : Crates) (block : Bytes) (coveredLen : Nat) : Prop :=
  leBytes32 (crates.crc32c ((block.take coveredLen).drop btrfsCsumSize)) =
    block.take 4

theorem verifySuperblockCrc32c_iff (covers : btrfsCsumSize < coveredLen)
    (inside : coveredLen ≤ block.length) :
    verifySuperblockCrc32c crates block coveredLen = true ↔
      DigestMatches crates block coveredLen := by
  have csumSize : btrfsCsumSize = 32 := rfl
  have stored : getRange block 0 4 = some (block.take 4) := by
    rw [getRange_eq_some_iff]
    exact ⟨Nat.zero_le _, by omega, rfl⟩
  have covered : getRange block btrfsCsumSize coveredLen =
      some ((block.take coveredLen).drop btrfsCsumSize) := by
    rw [getRange_eq_some_iff]
    exact ⟨Nat.le_of_lt covers, inside, List.drop_take.symm⟩
  rw [verifySuperblockCrc32c, stored]
  simp only [if_neg (Nat.not_le_of_lt covers), covered, beq_iff_eq]
  exact Iff.rfl

theorem verifySuperblockCrc32c_of_le (empty : coveredLen ≤ btrfsCsumSize) :
    verifySuperblockCrc32c crates block coveredLen = false := by
  rw [verifySuperblockCrc32c]
  cases getRange block 0 4 with
  | none => rfl
  | some stored => exact if_pos empty

theorem verifySuperblockCrc32c_take (long : 4 ≤ length) (inside : coveredLen ≤ length) :
    verifySuperblockCrc32c crates (block.take length) coveredLen =
      verifySuperblockCrc32c crates block coveredLen := by
  rw [verifySuperblockCrc32c, verifySuperblockCrc32c, getRange_take long]
  cases getRange block 0 4 with
  | none => rfl
  | some stored =>
      dsimp only
      rw [getRange_take inside]

/-- The checksum is of another type, or its coverage ends within the prefix, or
both coverages verify or neither does. -/
def ChecksumAgrees (crates : Crates) (block : Bytes) (length : Nat) : Prop :=
  CsumType.fromCode (leU16 block 0xc4) ≠ .crc32c ∨
    (leU32 block 0x90).toNat ≤ length ∨
    (DigestMatches crates block (min (leU32 block 0x90).toNat block.length) ↔
      DigestMatches crates block length)

theorem crcValid_take_iff (fields : 0x22b ≤ length) (whole : length ≤ block.length) :
    (Superblock.decode crates block).crcValid =
        (Superblock.decode crates (block.take length)).crcValid ↔
      ChecksumAgrees crates block length := by
  have csumSize : btrfsCsumSize = 32 := rfl
  have csumType : leU16 (block.take length) 0xc4 = leU16 block 0xc4 :=
    leU16_take (by omega)
  have sectorsize : leU32 (block.take length) 0x90 = leU32 block 0x90 :=
    leU32_take (by omega)
  simp only [Superblock.decode, csumType]
  rw [ChecksumAgrees]
  by_cases crc32c : CsumType.fromCode (leU16 block 0xc4) = .crc32c
  · rw [crc32c, superblockCrcStatus, superblockCrcStatus, Option.some.injEq,
      Superblock.covered, Superblock.covered, sectorsize, List.length_take,
      Nat.min_eq_left whole]
    generalize (leU32 block 0x90).toNat = size
    by_cases within : size ≤ length
    · rw [verifySuperblockCrc32c_take (by omega) (by omega), Nat.min_eq_left within,
        Nat.min_eq_left (Nat.le_trans within whole)]
      simp [within]
    · rw [verifySuperblockCrc32c_take (by omega) (by omega), Nat.max_eq_left (by omega),
        Nat.max_eq_left (by omega), Nat.min_eq_right (show length ≤ size by omega),
        Bool.eq_iff_iff, verifySuperblockCrc32c_iff (by omega) (by omega),
        verifySuperblockCrc32c_iff (by omega) whole]
      simp [within]
  · rw [superblockCrcStatus_of_ne crc32c, superblockCrcStatus_of_ne crc32c]
    simp [crc32c]

end Checksum

/-! ## The whole superblock -/

namespace Superblock

variable {crates : Crates} {block : Bytes} {length : Nat}

theorem decodeLabel_take (fields : 0x22b ≤ length) (whole : length ≤ block.length) :
    decodeLabel (block.take length) 0x12b = decodeLabel block 0x12b := by
  have stop : saturatingAdd 0x12b btrfsLabelSize = 0x22b := by decide
  rw [decodeLabel, decodeLabel, stop, List.length_take, Nat.min_eq_left whole,
    Nat.min_eq_left fields, Nat.min_eq_left (Nat.le_trans fields whole),
    getRange_take fields]

theorem decode_take (fields : 0x22b ≤ length) (whole : length ≤ block.length) :
    decode crates (block.take length) =
      { decode crates block with
        sysChunks := (decode crates (block.take length)).sysChunks
        crcValid := (decode crates (block.take length)).crcValid } := by
  simp only [decode, magicOffset, btrfsFsidSize]
  simp (disch := omega) only [u8Array_take, u8At_take, leU32_take, leU64_take,
    leU16_take, decodeLabel_take fields whole]

theorem parse_take_eq_decode (fields : 0x22b ≤ length) (whole : length ≤ block.length) :
    parse crates (block.take length) =
      if u8Array block magicOffset 8 ≠ btrfsMagic then
        .error (.badMagic (u8Array block magicOffset 8))
      else .ok (decode crates (block.take length)) := by
  have magic : u8Array (block.take length) magicOffset 8 = u8Array block magicOffset 8 :=
    u8Array_take (by rw [magicOffset]; omega)
  have long : ¬(block.take length).length < sbMinLen := by
    rw [List.length_take, sbMinLen]
    omega
  rw [parse, magic, if_neg long]

/-- A prefix that holds the scalar fields parses like the whole block exactly when
there is no magic, or the checksum comes out alike and every entry of the
`sys_chunk_array` ends within the prefix. -/
theorem parse_take_iff (fields : 0x22b ≤ length) (whole : length ≤ block.length)
    (bounded : block.length < usizeMax) :
    parse crates block = parse crates (block.take length) ↔
      u8Array block magicOffset 8 ≠ btrfsMagic ∨
        ChecksumAgrees crates block length ∧
          ∀ last ∈ SysChunk.arrayEnds block sysChunkArrayOffset (leU32 block 0xa0),
            last ≤ length := by
  have sizeField : leU32 (block.take length) 0xa0 = leU32 block 0xa0 :=
    leU32_take (by omega)
  have self : parse crates block = parse crates (block.take block.length) := by
    rw [List.take_length]
  rw [self, parse_take_eq_decode (Nat.le_trans fields whole) (Nat.le_refl _),
    parse_take_eq_decode fields whole, List.take_length]
  by_cases magic : u8Array block magicOffset 8 ≠ btrfsMagic
  · rw [if_pos magic, if_pos magic]
    simp [magic]
  · rw [if_neg magic, if_neg magic, or_iff_right magic, Except.ok.injEq,
      ← crcValid_take_iff fields whole, ← SysChunk.parseArray_take_iff whole bounded,
      decode_take fields whole]
    constructor
    · intro equal
      have chunks := congrArg Superblock.sysChunks equal
      refine ⟨congrArg Superblock.crcValid equal, ?_⟩
      simpa only [decode, sizeField] using chunks
    · intro both
      rcases both with ⟨status, chunks⟩
      have sameChunks : (decode crates (block.take length)).sysChunks =
          (decode crates block).sysChunks := by
        simpa only [decode, sizeField] using chunks.symm
      rw [← status, sameChunks]

theorem parse_take (fields : 0x22b ≤ length) (whole : length ≤ block.length)
    (bounded : block.length < usizeMax) (covered : (leU32 block 0x90).toNat ≤ length)
    (array : sysChunkArrayOffset + (leU32 block 0xa0).toNat ≤ length) :
    parse crates block = parse crates (block.take length) := by
  refine (parse_take_iff fields whole bounded).mpr (.inr ⟨.inr (.inl covered), ?_⟩)
  intro last member
  have inside := SysChunk.le_of_mem_entryEnds member
  have declared := saturatingAdd_le sysChunkArrayOffset (leU32 block 0xa0).toNat
  omega

end Superblock

end BtrfsForensic
