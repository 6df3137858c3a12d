import BtrfsForensic.Core.Writer
import BtrfsForensic.Foundation.Layout

namespace BtrfsForensic

/-! Reading written fields back: words, the header of a node, and what a checksum
leaves as it was. -/

/-! ## Fields by their position -/

section Fields

variable {data : Bytes} {off : Nat}

theorem leU16_of_holds {value : UInt16}
    (holds : Holds data off (encodeLE 2 value.toNat)) : leU16 data off = value := by
  rw [Holds, length_encodeLE] at holds
  rw [leU16, holds]
  simp only [decodeLE_encodeLE]
  rw [show 256 ^ 2 = 2 ^ 16 by norm_num, Nat.mod_eq_of_lt value.toNat_lt,
    UInt16.ofNat_toNat]

theorem leU32_of_holds {value : Nat} (holds : Holds data off (encodeLE 4 value)) :
    leU32 data off = UInt32.ofNat value := by
  rw [Holds, length_encodeLE] at holds
  rw [leU32, holds]
  simp only [decodeLE_encodeLE]
  exact UInt32.toNat_inj.mp (by
    rw [UInt32.toNat_ofNat', UInt32.toNat_ofNat', show 256 ^ 4 = 2 ^ 32 by norm_num,
      Nat.mod_mod])

theorem leU64_of_holds {value : UInt64}
    (holds : Holds data off (encodeLE 8 value.toNat)) : leU64 data off = value := by
  rw [Holds, length_encodeLE] at holds
  rw [leU64, holds]
  simp only [decodeLE_encodeLE]
  rw [show 256 ^ 8 = 2 ^ 64 by norm_num, Nat.mod_eq_of_lt value.toNat_lt,
    UInt64.ofNat_toNat]

theorem u8At_of_getElem? {value : UInt8} (found : data[off]? = some value) :
    u8At data off = value := by
  rw [u8At, found, Option.getD_some]

theorem u8Array_of_holds {width : Nat} {value : List.Vector UInt8 width}
    (holds : Holds data off value.val) : u8Array data off width = value := by
  rw [Holds, value.property] at holds
  apply Subtype.ext
  apply List.ext_getElem?
  intro index
  rw [u8Array, getElem?_tabulate]
  split
  case isTrue inside =>
    have bound : index < value.val.length := by rwa [value.property]
    rw [u8At, ← getElem?_of_getRange holds index bound, List.getElem?_eq_getElem bound,
      Option.getD_some]
  case isFalse outside =>
    rw [List.getElem?_eq_none (by rw [value.property]; omega)]

/-! A field that is present is the encoding of its value. -/

theorem holds_leU16 (inside : off + 2 ≤ data.length) :
    Holds data off (encodeLE 2 (leU16 data off).toNat) := by
  rcases Option.isSome_iff_exists.mp
      (getRange_isSome_iff.mpr ⟨Nat.le_add_right off 2, inside⟩) with ⟨bytes, found⟩
  have width : bytes.length = 2 := by
    rw [length_of_getRange found, Nat.add_sub_cancel_left]
  have bound := decodeLE_lt bytes
  rw [width] at bound
  rw [Holds, length_encodeLE, leU16, found]
  simp only [UInt16.toNat_ofNat_of_lt' (show decodeLE bytes < UInt16.size from bound)]
  rw [← width, encodeLE_decodeLE]

theorem holds_leU64 (inside : off + 8 ≤ data.length) :
    Holds data off (encodeLE 8 (leU64 data off).toNat) := by
  rcases Option.isSome_iff_exists.mp
      (getRange_isSome_iff.mpr ⟨Nat.le_add_right off 8, inside⟩) with ⟨bytes, found⟩
  have width : bytes.length = 8 := by
    rw [length_of_getRange found, Nat.add_sub_cancel_left]
  have bound := decodeLE_lt bytes
  rw [width] at bound
  rw [Holds, length_encodeLE, leU64, found]
  simp only [UInt64.toNat_ofNat_of_lt' (show decodeLE bytes < UInt64.size from bound)]
  rw [← width, encodeLE_decodeLE]

theorem holds_u8At (inside : off < data.length) : Holds data off [u8At data off] := by
  rw [holds_singleton_iff, u8At, List.getElem?_eq_getElem inside, Option.getD_some]

end Fields

namespace Writer

variable {fields : NodeFields} {nodesize nritems : Nat} {level : UInt8}
  {children : List UInt64} {block rest : Bytes}

/-! ## The header -/

@[simp] theorem length_header : (header fields nritems level).length = 101 := by
  have fsid := fields.fsid.property
  simp only [header, List.length_append, List.length_replicate, length_encodeLE,
    List.length_singleton, fsid]

theorem decode_header (few : nritems < 2 ^ 32) :
    (Header.decode (header fields nritems level ++ rest)).fsid = fields.fsid ∧
      (Header.decode (header fields nritems level ++ rest)).bytenr = fields.bytenr ∧
      (Header.decode (header fields nritems level ++ rest)).nritems.toNat = nritems ∧
      (Header.decode (header fields nritems level ++ rest)).level = level := by
  have fsidLength := fields.fsid.property
  have whole := holds_front (header fields nritems level) rest
  generalize header fields nritems level ++ rest = block at *
  simp only [header, holds_append_iff, holds_singleton_iff, List.length_append,
    List.length_replicate, length_encodeLE, fsidLength, Nat.reduceAdd] at whole
  rcases whole with ⟨⟨⟨⟨⟨⟨⟨_, fsid⟩, bytenr⟩, _⟩, _⟩, _⟩, count⟩, last⟩
  simp only [Header.decode]
  refine ⟨u8Array_of_holds fsid, leU64_of_holds bytenr, ?_, u8At_of_getElem? last⟩
  rw [leU32_of_holds count, UInt32.toNat_ofNat', Nat.mod_eq_of_lt few]

/-! ## Checksums -/

theorem agreeOn_withChecksum (sum : UInt32) {stop : Nat} :
    AgreeOn (withChecksum sum block) block 4 stop := by
  intro index lower _
  rw [withChecksum, List.getElem?_append_right (by simpa [leBytes32] using lower),
    List.getElem?_drop, leBytes32, length_encodeLE, Nat.add_sub_of_le lower]

theorem holds_sealed_iff {crates : Crates} {part : Bytes} {off : Nat}
    (long : btrfsCsumSize < block.length) (behind : 4 ≤ off) :
    Holds (sealed crates block) off part ↔ Holds block off part := by
  have same : getRange (sealed crates block) off (off + part.length) =
      getRange block off (off + part.length) :=
    getRange_congr (length_withChecksum long) fun index above below =>
      agreeOn_withChecksum _ index (Nat.le_trans behind above) below
  rw [Holds, Holds, same]

theorem decode_withChecksum (sum : UInt32) (long : btrfsHeaderSize ≤ block.length) :
    Header.decode (withChecksum sum block) =
      { Header.decode block with csum := u8Array (withChecksum sum block) 0 4 } := by
  have headerSize : btrfsHeaderSize = 101 := rfl
  have csumSize : btrfsCsumSize = 32 := rfl
  have size : (withChecksum sum block).length = block.length := by
    apply length_withChecksum
    omega
  have agree {off stop : Nat} (lower : 4 ≤ off) :
      AgreeOn (withChecksum sum block) block off stop := fun index above below =>
    agreeOn_withChecksum sum index (Nat.le_trans lower above) below
  have word {off : Nat} (lower : 4 ≤ off) :
      leU64 (withChecksum sum block) off = leU64 block off := by
    rw [leU64, leU64, getRange_congr size (agree lower)]
  have half {off : Nat} (lower : 4 ≤ off) :
      leU32 (withChecksum sum block) off = leU32 block off := by
    rw [leU32, leU32, getRange_congr size (agree lower)]
  have fsid : u8Array (withChecksum sum block) Hdr.fsid 16 = u8Array block Hdr.fsid 16 := by
    have inside : Hdr.fsid + 16 ≤ 101 := by decide
    rw [u8Array_eq_iff (by omega) (by omega)]
    exact agree (by decide)
  have uuid : u8Array (withChecksum sum block) Hdr.chunkTreeUuid 16 =
      u8Array block Hdr.chunkTreeUuid 16 := by
    have inside : Hdr.chunkTreeUuid + 16 ≤ 101 := by decide
    rw [u8Array_eq_iff (by omega) (by omega)]
    exact agree (by decide)
  have byte {off : Nat} (lower : 4 ≤ off) :
      u8At (withChecksum sum block) off = u8At block off :=
    u8At_congr (agree lower off (Nat.le_refl off) (Nat.lt_succ_self off))
  simp (disch := decide) only [Header.decode, fsid, uuid, word, half, byte]

theorem decode_missealed {crates : Crates} (long : btrfsHeaderSize ≤ block.length) :
    (Header.decode (missealed crates block)).fsid = (Header.decode block).fsid ∧
      (Header.decode (missealed crates block)).bytenr = (Header.decode block).bytenr ∧
      (Header.decode (missealed crates block)).level = (Header.decode block).level := by
  rw [missealed, decode_withChecksum _ long]
  exact ⟨rfl, rfl, rfl⟩

end Writer

end BtrfsForensic
