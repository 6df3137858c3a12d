import BtrfsForensic.Core.SuperblockPrefix
import BtrfsForensic.Core.Writer

namespace BtrfsForensic

/-! Whether the bootstrap chunks depend on the bytes behind the 2048 of the
`sys_chunk_array`, where the backup roots are. Every accepted entry is read up to
its last byte, and the bytes behind the array only ever make an entry longer. -/

/-- Where the 2048 bytes of the `sys_chunk_array` end. -/
abbrev sysChunkArrayEnd : Nat := sysChunkArrayOffset + 0x800

/-! ## Clearing what lies behind a position -/

/-- A block with zeros from `limit` on. -/
def clearedFrom (block : Bytes) (limit : Nat) : Bytes :=
  block.take limit ++ List.replicate (block.length - limit) 0

section Cleared

variable {block other : Bytes} {limit off : Nat}

theorem length_clearedFrom (whole : limit ≤ block.length) :
    (clearedFrom block limit).length = block.length := by
  rw [clearedFrom, List.length_append, List.length_take, List.length_replicate]
  omega

theorem take_clearedFrom (whole : limit ≤ block.length) :
    (clearedFrom block limit).take limit = block.take limit := by
  have size : (block.take limit).length = limit := by
    rw [List.length_take, Nat.min_eq_left whole]
  rw [clearedFrom, List.take_left' size]

theorem agreeOn_clearedFrom (whole : limit ≤ block.length) :
    AgreeOn block (clearedFrom block limit) 0 limit := by
  intro index _ below
  rw [clearedFrom, List.getElem?_append_left (by rw [List.length_take]; omega),
    List.getElem?_take_of_lt below]

theorem take_eq_of_agreeOn (agree : AgreeOn block other 0 limit) :
    block.take limit = other.take limit := by
  apply List.ext_getElem?
  intro index
  rw [List.getElem?_take, List.getElem?_take]
  split
  case isTrue below => exact agree index (Nat.zero_le index) below
  case isFalse => rfl

theorem u8At_clearedFrom_le (whole : limit ≤ block.length)
    (agree : AgreeOn block other 0 limit) :
    (u8At (clearedFrom block limit) off).toNat ≤ (u8At other off).toNat := by
  by_cases below : off < limit
  · have kept : u8At (clearedFrom block limit) off = u8At other off :=
      u8At_congr ((agreeOn_clearedFrom whole off (Nat.zero_le off) below).symm.trans
        (agree off (Nat.zero_le off) below))
    rw [kept]
  · have size : (block.take limit).length = limit := by
      rw [List.length_take, Nat.min_eq_left whole]
    have zero : u8At (clearedFrom block limit) off = 0 := by
      rw [u8At, clearedFrom, List.getElem?_append_right (by omega),
        List.getElem?_replicate]
      split <;> rfl
    rw [zero]
    exact Nat.zero_le _

theorem toNat_leU16 :
    (leU16 block off).toNat =
      if off + 2 ≤ block.length then
        (u8At block off).toNat + 256 * (u8At block (off + 1)).toNat
      else 0 := by
  rw [leU16]
  by_cases inside : off + 2 ≤ block.length
  · have found : getRange block off (off + 2) = some [block[off], block[off + 1]] := by
      rw [getRange_eq_some_iff, Nat.add_sub_cancel_left,
        List.drop_eq_getElem_cons (by omega : off < block.length),
        List.drop_eq_getElem_cons (by omega : off + 1 < block.length)]
      exact ⟨Nat.le_add_right off 2, inside, rfl⟩
    have low := block[off].toNat_lt
    have high := block[off + 1].toNat_lt
    rw [if_pos inside, found, u8At, u8At,
      List.getElem?_eq_getElem (by omega : off < block.length),
      List.getElem?_eq_getElem (by omega : off + 1 < block.length)]
    simp only [decodeLE, Option.getD_some, UInt16.toNat_ofNat']
    omega
  · have missing : getRange block off (off + 2) = none := by
      rw [getRange, if_neg (fun parts => inside parts.2)]
    rw [if_neg inside, missing]
    rfl

theorem leU16_clearedFrom_le (whole : limit ≤ block.length)
    (sameLength : other.length = block.length) (agree : AgreeOn block other 0 limit) :
    (leU16 (clearedFrom block limit) off).toNat ≤ (leU16 other off).toNat := by
  have low : (u8At (clearedFrom block limit) off).toNat ≤ (u8At other off).toNat :=
    u8At_clearedFrom_le whole agree
  have high : (u8At (clearedFrom block limit) (off + 1)).toNat ≤
      (u8At other (off + 1)).toNat := u8At_clearedFrom_le whole agree
  rw [toNat_leU16, toNat_leU16, length_clearedFrom whole, sameLength]
  split
  · omega
  · exact Nat.le_refl 0

end Cleared

/-! ## What the entries of an array depend on -/

namespace SysChunk

section Reads

variable {block other : Bytes} {stop p : Nat}

/-- Entries of one value end at one place and have their last byte in common: it
belongs to the stripe count's neighbour where there is no stripe, else to the
`dev_uuid` of the last stripe. -/
theorem last_byte_eq (bounded : stop < usizeMax) (inside : stop ≤ block.length)
    (otherInside : stop ≤ other.length) (accepted : entryEnd block p ≤ stop)
    (equal : entryAt block p = entryAt other p) :
    entryEnd other p = entryEnd block p ∧
      block[entryEnd block p - 1]? = other[entryEnd block p - 1]? := by
  rcases entryEnd_eq (Nat.lt_of_le_of_lt accepted bounded) with ⟨key, size⟩
  have headerSize : chunkHeaderSize = 48 := rfl
  have stripe : stripeSize = 32 := rfl
  have header : saturatingAdd (p + 17) chunkHeaderSize = p + 65 := by
    rw [headerSize, saturatingAdd_eq (by omega)]
  have counts : leU16 block (p + 17 + 44) = leU16 other (p + 17 + 44) := by
    simpa only [entryAt, key] using congrArg SysChunk.numStripes equal
  have ends : entryEnd other p = entryEnd block p := by
    rw [entryEnd, entryEnd, key, counts]
  refine ⟨ends, ?_⟩
  rw [size] at accepted ⊢
  cases stripes : (leU16 block (p + 17 + 44)).toNat with
  | zero =>
      rw [stripes] at accepted
      have subStripes : leU16 block (p + 17 + 46) = leU16 other (p + 17 + 46) := by
        simpa only [entryAt, key] using congrArg SysChunk.subStripes equal
      have agree := (leU16_eq_iff (by omega) (by omega)).mp subStripes
      exact agree _ (by omega) (by omega)
  | succ more =>
      rw [stripes] at accepted
      have placements := congrArg (fun chunk => chunk.stripes[more]?) equal
      simp only [entryAt, key, header, ← counts, stripes, List.getElem?_map,
        List.getElem?_range (Nat.lt_succ_self more), Option.map_some,
        Option.some.injEq, stripe] at placements
      have uuids := congrArg Stripe.devUuid placements
      simp only [Stripe.parse] at uuids
      have agree := (u8Array_eq_iff (by omega) (by omega)).mp uuids
      exact agree _ (by omega) (by omega)

theorem last_bytes_eq (bounded : stop < usizeMax) (inside : stop ≤ block.length)
    (otherInside : stop ≤ other.length) :
    ∀ {fuel p : Nat},
      parseArrayLoop block stop fuel p = parseArrayLoop other stop fuel p →
        ∀ last ∈ entryEnds block stop fuel p, block[last - 1]? = other[last - 1]?
  | 0, _, _, _, member => by cases member
  | fuel + 1, p, equal, last, member => by
      rw [parseArrayLoop_succ, parseArrayLoop_succ] at equal
      rw [entryEnds] at member
      by_cases past : stop < entryEnd block p
      · rw [if_pos past] at member
        cases member
      · rw [if_neg past] at equal member
        split at equal
        · cases equal
        · rw [List.cons.injEq] at equal
          rcases last_byte_eq bounded inside otherInside (Nat.le_of_not_lt past)
            equal.1 with ⟨ends, byte⟩
          rw [ends] at equal
          rcases List.mem_cons.mp member with head | later
          · rw [head]
            exact byte
          · exact last_bytes_eq bounded inside otherInside equal.2 last later

end Reads

section Confined

variable {block other : Bytes} {limit stop p : Nat}

theorem entryEnd_clearedFrom_le (whole : limit ≤ block.length)
    (sameLength : other.length = block.length) (agree : AgreeOn block other 0 limit) :
    entryEnd (clearedFrom block limit) p ≤ entryEnd other p := by
  have counts : (leU16 (clearedFrom block limit) (saturatingAdd p diskKeySize + 44)).toNat ≤
      (leU16 other (saturatingAdd p diskKeySize + 44)).toNat :=
    leU16_clearedFrom_le whole sameLength agree
  have grows (header : Nat) {left right : Nat} (ordered : left ≤ right) :
      saturatingAdd header (min left usizeMax) ≤
        saturatingAdd header (min right usizeMax) := by
    simp only [saturatingAdd]
    omega
  rw [entryEnd, entryEnd, saturatingMul, saturatingMul]
  exact grows _ (Nat.mul_le_mul_right stripeSize counts)

theorem entry_eq_of_cleared (whole : limit ≤ block.length) (bounded : limit < usizeMax)
    (agree : AgreeOn block other 0 limit)
    (early : entryEnd (clearedFrom block limit) p ≤ limit) :
    entryEnd other p = entryEnd (clearedFrom block limit) p ∧
      entryAt other p = entryAt (clearedFrom block limit) p := by
  have prefixes : other.take limit = (clearedFrom block limit).take limit := by
    rw [take_clearedFrom whole, take_eq_of_agreeOn agree]
  have kept : entryEnd ((clearedFrom block limit).take limit) p =
      entryEnd (clearedFrom block limit) p := entryEnd_take bounded (.inl early)
  have ends : entryEnd other p = entryEnd (clearedFrom block limit) p := by
    rw [← kept, ← prefixes]
    symm
    apply entryEnd_take bounded
    right
    rw [prefixes, kept]
    exact early
  refine ⟨ends, ?_⟩
  rw [← entryAt_take bounded early, ← prefixes]
  exact (entryAt_take bounded (by rw [ends]; exact early)).symm

/-- Where no entry of the cleared block ends behind `limit`, every block that agrees
with it has its entries: the bytes behind can make an entry longer only. -/
theorem entries_eq_of_cleared (whole : limit ≤ block.length) (bounded : limit < usizeMax)
    (sameLength : other.length = block.length) (agree : AgreeOn block other 0 limit)
    {fuel : Nat}
    (early : ∀ last ∈ entryEnds (clearedFrom block limit) stop fuel p, last ≤ limit) :
    parseArrayLoop other stop fuel p =
        parseArrayLoop (clearedFrom block limit) stop fuel p ∧
      entryEnds other stop fuel p = entryEnds (clearedFrom block limit) stop fuel p := by
  induction fuel generalizing p with
  | zero => exact ⟨rfl, rfl⟩
  | succ fuel induction =>
      have shorter : entryEnd (clearedFrom block limit) p ≤ entryEnd other p :=
        entryEnd_clearedFrom_le whole sameLength agree
      rw [parseArrayLoop_succ, parseArrayLoop_succ, entryEnds, entryEnds]
      rw [entryEnds] at early
      by_cases past : stop < entryEnd (clearedFrom block limit) p
      · have otherPast : stop < entryEnd other p := Nat.lt_of_lt_of_le past shorter
        simp only [if_pos past, if_pos otherPast, and_self]
      · rw [if_neg past, List.forall_mem_cons] at early
        rcases entry_eq_of_cleared whole bounded agree early.1 with ⟨ends, entry⟩
        rcases induction early.2 with ⟨chunks, later⟩
        simp only [ends, if_neg past, entry, chunks, later, and_self]

theorem parseArray_eq_of_cleared {arrayOff : Nat} {arraySize : UInt32}
    (whole : limit ≤ block.length) (bounded : limit < usizeMax)
    (early : ∀ last ∈ arrayEnds (clearedFrom block limit) arrayOff arraySize, last ≤ limit)
    (sameLength : other.length = block.length) (agree : AgreeOn block other 0 limit) :
    parseArray other arrayOff arraySize =
        parseArray (clearedFrom block limit) arrayOff arraySize ∧
      arrayEnds other arrayOff arraySize =
        arrayEnds (clearedFrom block limit) arrayOff arraySize := by
  have cleared : (clearedFrom block limit).length = block.length :=
    length_clearedFrom whole
  rw [arrayEnds, cleared] at early
  rw [parseArray, parseArray, arrayEnds, arrayEnds, sameLength, cleared]
  exact entries_eq_of_cleared whole bounded sameLength agree early

/-- An entry that ends behind `limit` shows: the last byte of it can be exchanged. -/
theorem exists_parseArray_ne {arrayOff : Nat} {arraySize : UInt32}
    (bounded : block.length < usizeMax) {last : Nat}
    (member : last ∈ arrayEnds block arrayOff arraySize) (behind : limit < last) :
    ∃ other : Bytes, other.length = block.length ∧ AgreeOn block other 0 limit ∧
      parseArray other arrayOff arraySize ≠ parseArray block arrayOff arraySize := by
  have within := le_of_mem_entryEnds member
  have inside : last - 1 < block.length := by omega
  have sameLength : (block.set (last - 1) (block[last - 1] + 1)).length = block.length :=
    List.length_set
  refine ⟨block.set (last - 1) (block[last - 1] + 1), sameLength, ?_, fun equal => ?_⟩
  · intro index _ below
    rw [List.getElem?_set_ne (by omega)]
  · rw [parseArray, parseArray, sameLength] at equal
    have bytes := last_bytes_eq (by omega) (Nat.min_le_right _ _)
      (by rw [sameLength]; exact Nat.min_le_right _ _) equal.symm last member
    rw [List.getElem?_set_self inside, List.getElem?_eq_getElem inside,
      Option.some.injEq] at bytes
    simp at bytes

theorem parseArray_confined_iff (arrayOff : Nat) (arraySize : UInt32)
    (whole : limit ≤ block.length) (bounded : block.length < usizeMax) :
    ((∀ other : Bytes, other.length = block.length → AgreeOn block other 0 limit →
          parseArray other arrayOff arraySize = parseArray block arrayOff arraySize) ↔
        ∀ last ∈ arrayEnds (clearedFrom block limit) arrayOff arraySize,
          last ≤ limit) ∧
      ((∀ other : Bytes, other.length = block.length → AgreeOn block other 0 limit →
          ∀ last ∈ arrayEnds other arrayOff arraySize, last ≤ limit) ↔
        ∀ last ∈ arrayEnds (clearedFrom block limit) arrayOff arraySize,
          last ≤ limit) := by
  have cleared : (clearedFrom block limit).length = block.length :=
    length_clearedFrom whole
  have agreeCleared : AgreeOn block (clearedFrom block limit) 0 limit :=
    agreeOn_clearedFrom whole
  have shorter : limit < usizeMax := Nat.lt_of_le_of_lt whole bounded
  constructor
  · constructor
    · intro confined last member
      by_contra behind
      rcases exists_parseArray_ne (by rw [cleared]; exact bounded) member
        (Nat.lt_of_not_le behind) with ⟨other, sameLength, agree, differs⟩
      rw [cleared] at sameLength
      have kept : AgreeOn block other 0 limit := fun index lower upper =>
        (agreeCleared index lower upper).trans (agree index lower upper)
      rw [confined other sameLength kept, confined _ cleared agreeCleared] at differs
      exact differs rfl
    · intro early other sameLength agree
      have own : AgreeOn block block 0 limit := fun _ _ _ => rfl
      exact (parseArray_eq_of_cleared whole shorter early sameLength agree).1.trans
        (parseArray_eq_of_cleared whole shorter early rfl own).1.symm
  · constructor
    · intro confined
      exact confined (clearedFrom block limit) cleared agreeCleared
    · intro early other sameLength agree
      rw [(parseArray_eq_of_cleared whole shorter early sameLength agree).2]
      exact early

end Confined

end SysChunk

/-! ## The bootstrap chunks of a superblock -/

namespace Superblock

section Confined

variable {crates : Crates} {block other : Bytes}

theorem map_sysChunks_parse (page : block.length = btrfsSuperInfoSize) :
    (parse crates block).map sysChunks =
      if u8Array block magicOffset 8 = btrfsMagic then
        .ok (SysChunk.parseArray block sysChunkArrayOffset (leU32 block 0xa0))
      else .error (.badMagic (u8Array block magicOffset 8)) := by
  have long : sbMinLen ≤ block.length := by
    rw [page]
    decide
  split
  case isTrue magic =>
    rw [parse_eq_ok magic long]
    rfl
  case isFalse foreign =>
    rw [parse, if_pos foreign]
    rfl

theorem steering_eq (agree : AgreeOn block other 0 sysChunkArrayEnd) :
    u8Array other magicOffset 8 = u8Array block magicOffset 8 ∧
      leU32 other 0xa0 = leU32 block 0xa0 := by
  have prefixes : block.take sysChunkArrayEnd = other.take sysChunkArrayEnd :=
    take_eq_of_agreeOn agree
  have magicBefore : magicOffset + 8 ≤ sysChunkArrayEnd := by decide
  have sizeBefore : 0xa0 + 4 ≤ sysChunkArrayEnd := by decide
  constructor
  · rw [← u8Array_take magicBefore, ← prefixes, u8Array_take magicBefore]
  · rw [← leU32_take sizeBefore, ← prefixes, leU32_take sizeBefore]

theorem map_sysChunks_parse_congr (page : block.length = btrfsSuperInfoSize)
    (otherPage : other.length = btrfsSuperInfoSize)
    (agree : AgreeOn block other 0 sysChunkArrayEnd)
    (declared : (leU32 block 0xa0).toNat ≤ 0x800) :
    (parse crates other).map sysChunks = (parse crates block).map sysChunks := by
  have early : ∀ last ∈ SysChunk.arrayEnds (clearedFrom block sysChunkArrayEnd)
      sysChunkArrayOffset (leU32 block 0xa0), last ≤ sysChunkArrayEnd := by
    intro last member
    have accepted := SysChunk.le_of_mem_entryEnds member
    have start := saturatingAdd_le sysChunkArrayOffset (leU32 block 0xa0).toNat
    have arrayEnd : sysChunkArrayEnd = sysChunkArrayOffset + 0x800 := rfl
    omega
  have whole : sysChunkArrayEnd ≤ block.length := by
    rw [page]
    decide
  have confined := (SysChunk.parseArray_confined_iff _ _ whole
    (by rw [page]; decide)).1.mpr early other (otherPage.trans page.symm) agree
  rw [map_sysChunks_parse page, map_sysChunks_parse otherPage, (steering_eq agree).1,
    (steering_eq agree).2, confined]

/-- The chunks of a superblock, and the places they are decoded from, are confined to
the first 2859 bytes exactly when it has no magic, or with the bytes behind the array
cleared no entry ends behind it. -/
theorem sysChunks_confined_iff (page : block.length = btrfsSuperInfoSize) :
    (∀ other : Bytes, other.length = btrfsSuperInfoSize →
        AgreeOn block other 0 sysChunkArrayEnd →
          (parse crates other).map sysChunks = (parse crates block).map sysChunks ∧
            ∀ sb, parse crates other = .ok sb →
              ∀ last ∈ SysChunk.arrayEnds other sysChunkArrayOffset
                  sb.sysChunkArraySize,
                last ≤ sysChunkArrayEnd) ↔
      u8Array block magicOffset 8 ≠ btrfsMagic ∨
        ∀ last ∈ SysChunk.arrayEnds (clearedFrom block sysChunkArrayEnd)
            sysChunkArrayOffset (leU32 block 0xa0),
          last ≤ sysChunkArrayEnd := by
  have whole : sysChunkArrayEnd ≤ block.length := by
    rw [page]
    decide
  have bounded : block.length < usizeMax := by
    rw [page]
    decide
  have confinedIff := SysChunk.parseArray_confined_iff sysChunkArrayOffset (leU32 block 0xa0)
    whole bounded
  by_cases magic : u8Array block magicOffset 8 = btrfsMagic
  · rw [or_iff_right (not_not_intro magic)]
    constructor
    · intro confined
      apply confinedIff.1.mp
      intro other sameLength agree
      have chunks := (confined other (sameLength.trans page) agree).1
      rw [map_sysChunks_parse page, map_sysChunks_parse (sameLength.trans page),
        (steering_eq agree).1, (steering_eq agree).2, if_pos magic, if_pos magic,
        Except.ok.injEq] at chunks
      exact chunks
    · intro early other otherPage agree
      have sameLength : other.length = block.length := otherPage.trans page.symm
      constructor
      · rw [map_sysChunks_parse page, map_sysChunks_parse otherPage,
          (steering_eq agree).1, (steering_eq agree).2,
          confinedIff.1.mpr early other sameLength agree]
      · intro sb parsed
        rw [eq_decode_of_parse parsed, decode, (steering_eq agree).2]
        exact confinedIff.2.mpr early other sameLength agree
  · refine iff_of_true (fun other otherPage agree => ?_) (.inl magic)
    constructor
    · rw [map_sysChunks_parse page, map_sysChunks_parse otherPage,
        (steering_eq agree).1, if_neg magic, if_neg magic]
    · intro sb parsed
      exact absurd ((steering_eq agree).1.symm.trans (magic_of_parse parsed)) magic

end Confined

end Superblock

/-! A superblock whose array is declared to fill the page and whose first entry has 64
stripes, the last of which lies behind the 2048 bytes. -/

def spillingPage (lastByte : UInt8) : Bytes :=
  overlay btrfsSuperInfoSize 0
    [(2923, [lastByte]), (magicOffset, btrfsMagic.val), (0xa0, encodeLE 4 3285),
      (sysChunkArrayOffset + diskKeySize + 44, encodeLE 2 64)]

theorem length_spillingPage (lastByte : UInt8) :
    (spillingPage lastByte).length = btrfsSuperInfoSize := length_overlay _ _ _

theorem sysChunks_confined_iff_in_spillingPage :
    (∀ other : Bytes, other.length = btrfsSuperInfoSize →
        AgreeOn (spillingPage 0) other 0 sysChunkArrayEnd →
          (Superblock.parse Crates.withoutCodecs other).map Superblock.sysChunks =
              (Superblock.parse Crates.withoutCodecs (spillingPage 0)).map
                Superblock.sysChunks ∧
            ∀ sb, Superblock.parse Crates.withoutCodecs other = .ok sb →
              ∀ last ∈ SysChunk.arrayEnds other sysChunkArrayOffset
                  sb.sysChunkArraySize,
                last ≤ sysChunkArrayEnd) ↔
      u8Array (spillingPage 0) magicOffset 8 ≠ btrfsMagic ∨
        ∀ last ∈ SysChunk.arrayEnds (clearedFrom (spillingPage 0) sysChunkArrayEnd)
            sysChunkArrayOffset (leU32 (spillingPage 0) 0xa0),
          last ≤ sysChunkArrayEnd :=
  Superblock.sysChunks_confined_iff (length_spillingPage 0)

theorem agreeOn_spillingPage (lastByte : UInt8) :
    AgreeOn (spillingPage 0) (spillingPage lastByte) 0 sysChunkArrayEnd := by
  have arrayEnd : sysChunkArrayEnd = 2859 := rfl
  have size : btrfsSuperInfoSize = 4096 := rfl
  intro index _ below
  rw [spillingPage, spillingPage, getElem?_overlay (by omega),
    getElem?_overlay (by omega), Option.some.injEq]
  apply overlayAt_cons_congr
  · intro reached
    omega
  · rfl

theorem arrayEnds_spillingPage :
    2924 ∈ SysChunk.arrayEnds (spillingPage 0) sysChunkArrayOffset 3285 := by
  have entry : SysChunk.entryEnd (spillingPage 0) sysChunkArrayOffset = 2924 := by
    decide +kernel
  have stop : min (saturatingAdd sysChunkArrayOffset (3285 : UInt32).toNat)
      btrfsSuperInfoSize = 4096 := by decide
  rw [SysChunk.arrayEnds, length_spillingPage, stop, SysChunk.entryEnds, entry,
    if_neg (by decide)]
  exact List.mem_cons_self

/-- The byte of the backup roots shows in the chunks. -/
theorem sysChunks_spill :
    ∃ block other : Bytes, block.length = btrfsSuperInfoSize ∧
      other.length = btrfsSuperInfoSize ∧ AgreeOn block other 0 sysChunkArrayEnd ∧
      (Superblock.parse Crates.withoutCodecs block).map Superblock.sysChunks ≠
        (Superblock.parse Crates.withoutCodecs other).map Superblock.sysChunks := by
  have fields : u8Array (spillingPage 0) magicOffset 8 = btrfsMagic ∧
      leU32 (spillingPage 0) 0xa0 = 3285 := by
    decide +kernel
  have agree : AgreeOn (spillingPage 0) (spillingPage 7) 0 sysChunkArrayEnd :=
    agreeOn_spillingPage 7
  have size : (spillingPage 0).length = btrfsSuperInfoSize := length_spillingPage 0
  have otherSize : (spillingPage 7).length = btrfsSuperInfoSize := length_spillingPage 7
  refine ⟨spillingPage 0, spillingPage 7, size, otherSize, agree, fun equal => ?_⟩
  rcases Superblock.steering_eq agree with ⟨magic, arraySize⟩
  rw [Superblock.map_sysChunks_parse size, Superblock.map_sysChunks_parse otherSize,
    magic, arraySize, if_pos fields.1, if_pos fields.1, fields.2, Except.ok.injEq,
    SysChunk.parseArray, SysChunk.parseArray, size, otherSize] at equal
  have member := arrayEnds_spillingPage
  rw [SysChunk.arrayEnds, size] at member
  have bytes := SysChunk.last_bytes_eq (by decide)
    (by rw [size]; exact Nat.min_le_right _ _)
    (by rw [otherSize]; exact Nat.min_le_right _ _) equal 2924 member
  rw [spillingPage, spillingPage, getElem?_overlay (by decide),
    getElem?_overlay (by decide)] at bytes
  simp [overlayAt] at bytes

end BtrfsForensic
