import BtrfsForensic.Core.Extent
import BtrfsForensic.Core.ReadBack

namespace BtrfsForensic

/-! A btrfs LZO frame as its writer lays it out, and what the decoder makes of
it: segments may span sectors, a segment's length field never does. -/

namespace Writer

/-- Zeros to the next sector boundary, where a length field no longer fits the
current sector. -/
def lzoPadding (sectorsize cur : Nat) : Bytes :=
  if sectorsize - cur % sectorsize < lzoLen then
    List.replicate (sectorsize - cur % sectorsize) 0
  else
    []

/-- The segments from position `cur` of the frame on. -/
def lzoSegments (sectorsize : Nat) : (cur : Nat) → List Bytes → Bytes
  | _, [] => []
  | cur, segment :: rest =>
      let padding := lzoPadding sectorsize cur
      padding ++ (encodeLE 4 segment.length ++ (segment ++
        lzoSegments sectorsize (cur + padding.length + lzoLen + segment.length)
          rest))

/-- A frame: the total length, the segments and, on demand, the padding that a
further segment would need. -/
def lzoFrame (sectorsize : Nat) (segments : List Bytes) (padded : Bool) : Bytes :=
  let body := lzoSegments sectorsize lzoLen segments
  let last := if padded then lzoPadding sectorsize (lzoLen + body.length) else []
  encodeLE 4 (lzoLen + body.length + last.length) ++ (body ++ last)

theorem lzoHeaderCursor_eq {sectorsize : Nat} (sector : 0 < sectorsize) (cur : Nat) :
    lzoHeaderCursor sectorsize cur = cur + (lzoPadding sectorsize cur).length := by
  have inside : cur % sectorsize < sectorsize := Nat.mod_lt cur sector
  rw [lzoHeaderCursor, lzoPadding]
  by_cases crosses : sectorsize < cur % sectorsize + lzoLen
  · rw [if_pos crosses, if_pos (by omega), List.length_replicate]
  · rw [if_neg crosses, if_neg (by omega), List.length_nil, Nat.add_zero]

theorem length_lzoSegments_cons (sectorsize cur : Nat) (segment : Bytes)
    (rest : List Bytes) :
    (lzoSegments sectorsize cur (segment :: rest)).length =
      (lzoPadding sectorsize cur).length + (lzoLen + (segment.length +
        (lzoSegments sectorsize (cur + (lzoPadding sectorsize cur).length + lzoLen +
          segment.length) rest).length)) := by
  simp only [lzoSegments, List.length_append, length_encodeLE]

theorem length_le_lzoSegments (sectorsize : Nat) (segments : List Bytes) :
    ∀ cur, segments.length ≤ (lzoSegments sectorsize cur segments).length := by
  induction segments with
  | nil => exact fun _ => Nat.le_refl _
  | cons segment rest induction =>
      intro cur
      have tail := induction (cur + (lzoPadding sectorsize cur).length + lzoLen +
        segment.length)
      have size : lzoLen = 4 := rfl
      rw [length_lzoSegments_cons, List.length_cons]
      omega

end Writer

/-! ## Decoding -/

/-- The output buffer of one segment: a sector and the worst-case slack. -/
def lzoSegOutCap (sectorsize : Nat) : Nat :=
  saturatingAdd (saturatingAdd sectorsize (sectorsize / 16)) 64

/-- `lzo::decompress_into` decodes a segment within the per-segment buffer. -/
def LzoDecodes (crates : Crates) (sectorsize : Nat) (segment decoded : Bytes) : Prop :=
  ∃ out, crates.lzo segment (lzoSegOutCap sectorsize) = some out ∧
    out.buffer.take out.count = decoded

section Decoding

variable {crates : Crates} {src : Bytes} {cap sectorsize total cur fuel : Nat}

theorem lzoSegment_written {segment decoded out : Bytes} (sector : 0 < sectorsize)
    (decodes : LzoDecodes crates sectorsize segment decoded) (nonempty : segment ≠ [])
    (holds : Holds src cur (Writer.lzoPadding sectorsize cur ++
      (encodeLE 4 segment.length ++ segment)))
    (inside : cur + (Writer.lzoPadding sectorsize cur).length + lzoLen +
      segment.length ≤ total)
    (small : total < 2 ^ 32) :
    lzoSegment crates src cap sectorsize total cur out =
      .ok (.next (cur + (Writer.lzoPadding sectorsize cur).length + lzoLen +
        segment.length) (out ++ decoded.take (cap - out.length))) := by
  rcases decodes with ⟨output, answer, rfl⟩
  rw [holds_append_iff, holds_append_iff, length_encodeLE] at holds
  rcases holds with ⟨_, lengthField, payload⟩
  rw [Holds, length_encodeLE] at lengthField
  rw [Holds] at payload
  have positive : 0 < segment.length := List.length_pos_iff.mpr nonempty
  have limit : usizeMax = 2 ^ 64 - 1 := rfl
  have length : decodeLE (encodeLE 4 segment.length) = segment.length := by
    rw [decodeLE_encodeLE, Nat.mod_eq_of_lt]
    omega
  have next : saturatingAdd
      (cur + (Writer.lzoPadding sectorsize cur).length + lzoLen) segment.length =
        cur + (Writer.lzoPadding sectorsize cur).length + lzoLen + segment.length :=
    saturatingAdd_eq (by omega)
  have decoded : crates.lzo segment
      (saturatingAdd (saturatingAdd sectorsize (sectorsize / 16)) 64) = some output :=
    answer
  rw [lzoSegment, Writer.lzoHeaderCursor_eq sector]
  simp only [if_neg (show ¬total ≤ cur + (Writer.lzoPadding sectorsize cur).length by
    omega), lengthField, length, if_neg (Nat.ne_of_gt positive), next,
    Nat.min_eq_left (stop_le_of_getRange payload), payload, decoded, List.take_take]

/-- Bytes past the cap do not matter, wherever they are cut. -/
theorem take_append_take (out decoded rest : Bytes) (cap : Nat) :
    (out ++ decoded.take (cap - out.length) ++ rest).take cap =
      (out ++ decoded ++ rest).take cap := by
  by_cases fits : decoded.length ≤ cap - out.length
  · rw [List.take_of_length_le fits]
  · have cut : cap ≤ (out ++ decoded.take (cap - out.length)).length := by
      rw [List.length_append, List.length_take]
      omega
    rw [List.take_append_of_le_length cut, List.take_append, List.take_take,
      Nat.min_self, List.append_assoc, List.take_append, List.take_append,
      show cap - out.length - decoded.length = 0 by omega, List.take_zero,
      List.append_nil]

theorem lzoLoop_at_end {out : Bytes}
    (ends : total = cur ∨ total = lzoHeaderCursor sectorsize cur) :
    lzoLoop crates src cap sectorsize total fuel cur out = .ok out := by
  cases fuel with
  | zero => rfl
  | succ fuel =>
      rw [lzoLoop]
      split
      case isFalse => rfl
      case isTrue goesOn =>
        have padded : total = lzoHeaderCursor sectorsize cur :=
          ends.resolve_left (by omega)
        have ended : lzoSegment crates src cap sectorsize total cur out = .ok .done := by
          rw [lzoSegment, ← padded]
          simp only [Nat.le_refl, if_true]
        rw [ended]
        rfl

/-- The loop over the segments that are left. The induction is on them; the loop
goes on while the output is below the cap, and what it appends after that is
cut. -/
theorem lzoLoop_written {pairs : List (Bytes × Bytes)} (sector : 0 < sectorsize)
    (small : total < 2 ^ 32)
    (decodes : ∀ pair ∈ pairs, pair.1 ≠ [] ∧
      LzoDecodes crates sectorsize pair.1 pair.2)
    (holds : Holds src cur (Writer.lzoSegments sectorsize cur (pairs.map Prod.fst)))
    {stop : Nat} (segmentsEnd : stop = cur +
      (Writer.lzoSegments sectorsize cur (pairs.map Prod.fst)).length)
    (ends : total = stop ∨ total = lzoHeaderCursor sectorsize stop)
    (enough : pairs.length < fuel) (cap : Nat) (out : Bytes) :
    ∃ result, lzoLoop crates src cap sectorsize total fuel cur out = .ok result ∧
      result.take cap = (out ++ pairs.flatMap Prod.snd).take cap := by
  induction pairs generalizing cur fuel out with
  | nil =>
      have here : stop = cur := segmentsEnd
      subst here
      exact ⟨out, lzoLoop_at_end ends, by rw [List.flatMap_nil, List.append_nil]⟩
  | cons pair pairs induction =>
      rcases decodes pair List.mem_cons_self with ⟨nonempty, decoding⟩
      cases fuel with
      | zero => cases enough
      | succ fuel =>
          have width : lzoLen = 4 := rfl
          have reach : stop ≤ total := by
            rcases ends with rfl | rfl
            · exact Nat.le_refl _
            · rw [Writer.lzoHeaderCursor_eq sector]
              exact Nat.le_add_right _ _
          rw [List.map_cons, Writer.length_lzoSegments_cons] at segmentsEnd
          rw [List.map_cons, Writer.lzoSegments] at holds
          simp only [← List.append_assoc (encodeLE 4 pair.1.length)] at holds
          rw [← List.append_assoc, holds_append_iff, List.length_append,
            List.length_append, length_encodeLE, ← Nat.add_assoc, ← Nat.add_assoc] at holds
          rw [lzoLoop]
          split
          case isFalse stopped =>
            have full : cap ≤ out.length := by omega
            exact ⟨out, rfl, by rw [List.take_append_of_le_length full]⟩
          case isTrue goesOn =>
            rw [lzoSegment_written sector decoding nonempty holds.1 (by omega) small]
            have tail : ∀ pair ∈ pairs, pair.1 ≠ [] ∧
                LzoDecodes crates sectorsize pair.1 pair.2 := fun next member =>
              decodes next (List.mem_cons_of_mem _ member)
            have laid : Holds src (cur + (Writer.lzoPadding sectorsize cur).length + lzoLen +
                pair.1.length) (Writer.lzoSegments sectorsize (cur +
                  (Writer.lzoPadding sectorsize cur).length + lzoLen + pair.1.length)
                  (pairs.map Prod.fst)) := holds.2
            rcases induction tail laid (by omega) (Nat.lt_of_succ_lt_succ enough)
                (out ++ pair.2.take (cap - out.length)) with
              ⟨result, looped, same⟩
            refine ⟨result, looped, ?_⟩
            rw [same, List.flatMap_cons, take_append_take, List.append_assoc]

theorem leU64_le32Padded {value : Nat} (small : value < 2 ^ 32)
    (holds : Holds src 0 (encodeLE 4 value)) :
    (leU64 (le32Padded src 0) 0).toNat = value := by
  rw [Holds, length_encodeLE] at holds
  have whole : getRange (encodeLE 4 value ++ List.replicate 4 0) 0 (0 + 8) =
      some (encodeLE 4 value ++ List.replicate 4 0) := by
    rw [getRange_eq_some_iff]
    exact ⟨Nat.zero_le _, by simp, List.take_of_length_le (by simp)⟩
  rw [le32Padded, holds]
  simp only [leU64, whole, decodeLE_append, decodeLE_encodeLE, decodeLE_replicate_zero]
  rw [Nat.mul_zero, Nat.add_zero, Nat.mod_eq_of_lt (by omega),
    UInt64.toNat_ofNat_of_lt' (Nat.lt_trans small (by decide))]

/-- A written frame decodes to the first `cap` bytes of its decoded segments,
whatever follows the frame. -/
theorem decompressLzoBtrfs_lzoFrame (crates : Crates) {sectorsize : UInt32}
    (sector : 4 ≤ sectorsize.toNat) (pairs : List (Bytes × Bytes))
    (decodes : ∀ pair ∈ pairs, pair.1 ≠ [] ∧
      LzoDecodes crates sectorsize.toNat pair.1 pair.2)
    (padded : Bool)
    (small : (Writer.lzoFrame sectorsize.toNat (pairs.map Prod.fst) padded).length <
      2 ^ 32)
    (trailing : Bytes) (cap : Nat) :
    decompressLzoBtrfs crates
        (Writer.lzoFrame sectorsize.toNat (pairs.map Prod.fst) padded ++ trailing) cap
        sectorsize =
      .ok ((pairs.flatMap Prod.snd).take cap) := by
  have width : lzoLen = 4 := rfl
  have segmentsLength := Writer.length_le_lzoSegments sectorsize.toNat
    (pairs.map Prod.fst) lzoLen
  rw [List.length_map] at segmentsLength
  rw [decompressLzoBtrfs, Nat.max_eq_left (by omega : 1 ≤ sectorsize.toNat)]
  generalize sectorsize.toNat = sectorsize at *
  generalize declared : (Writer.lzoFrame sectorsize (pairs.map Prod.fst) padded).length =
    total at *
  rw [Writer.lzoFrame] at declared ⊢
  generalize body : Writer.lzoSegments sectorsize lzoLen (pairs.map Prod.fst) = segments
    at *
  generalize lastPadding : (if padded then
    Writer.lzoPadding sectorsize (lzoLen + segments.length) else []) = last at *
  have sum : lzoLen + segments.length + last.length = total := by
    rw [← declared, List.length_append, List.length_append, length_encodeLE, Nat.add_assoc]
  have ends : total = lzoLen + segments.length ∨
      total = lzoHeaderCursor sectorsize (lzoLen + segments.length) := by
    cases padded with
    | false =>
        left
        rw [← sum, ← lastPadding]
        rfl
    | true =>
        right
        rw [← sum, ← lastPadding, Writer.lzoHeaderCursor_eq (by omega)]
        rfl
  have whole := holds_front (encodeLE 4 (lzoLen + segments.length + last.length) ++
    (segments ++ last)) trailing
  generalize frame : encodeLE 4 (lzoLen + segments.length + last.length) ++
    (segments ++ last) ++ trailing = src at whole ⊢
  have size : total ≤ src.length := by
    rw [← frame, List.length_append, declared]
    exact Nat.le_add_right _ _
  rw [holds_append_iff, holds_append_iff, length_encodeLE, Nat.zero_add, ← body] at whole
  rcases whole with ⟨header, laid, _⟩
  rw [body, sum] at header
  simp only [leU64_le32Padded small header, Nat.min_eq_left size,
    Nat.max_eq_left (by omega : lzoLen ≤ total)]
  have segmentsEnd : lzoLen + segments.length = lzoLen +
      (Writer.lzoSegments sectorsize lzoLen (pairs.map Prod.fst)).length := by
    rw [body]
  have enough : pairs.length < total := by omega
  rcases lzoLoop_written (by omega) small decodes laid segmentsEnd ends enough cap [] with
    ⟨result, looped, same⟩
  rw [looped]
  exact congrArg Except.ok same

end Decoding

/-! Two segments of sector size 10, with padding between them. -/

/-- An LZO1X block that is one run of literals: its length, the literals and the
end marker. -/
def decodeLiteralRun (segment : Bytes) (size : Nat) : Option (LzoOutput size) :=
  match segment with
  | [] => none
  | lead :: rest =>
      let literals := rest.take (rest.length - 3)
      if lead.toNat = 17 + literals.length ∧ 4 ≤ literals.length ∧
          rest.drop literals.length = [0x11, 0, 0] then
        if fits : literals.length ≤ size then
          some
            { count := literals.length
              buffer := literals ++ List.replicate (size - literals.length) 0
              count_le := fits
              buffer_length := by
                rw [List.length_append, List.length_replicate, Nat.add_sub_of_le fits] }
        else
          none
      else
        none

/-- A decoder that knows runs of literals only. -/
def Crates.withLiteralRuns : Crates :=
  { Crates.withoutCodecs with lzo := decodeLiteralRun }

def literalSegments : List (Bytes × Bytes) :=
  [([0x16, 1, 2, 3, 4, 5, 0x11, 0, 0], [1, 2, 3, 4, 5]),
    ([0x15, 6, 7, 8, 9, 0x11, 0, 0], [6, 7, 8, 9])]

theorem decompressLzoBtrfs_lzoFrame_in_literalSegments :
    decompressLzoBtrfs Crates.withLiteralRuns
        (Writer.lzoFrame (10 : UInt32).toNat (literalSegments.map Prod.fst) true ++
          [7, 7]) 8 10 =
      .ok [1, 2, 3, 4, 5, 6, 7, 8] := by
  have decodes : ∀ pair ∈ literalSegments, pair.1 ≠ [] ∧
      LzoDecodes Crates.withLiteralRuns (10 : UInt32).toNat pair.1 pair.2 := by
    intro pair member
    rcases List.mem_pair.mp member with rfl | rfl
    · exact ⟨List.cons_ne_nil _ _, _, rfl, rfl⟩
    · exact ⟨List.cons_ne_nil _ _, _, rfl, rfl⟩
  rw [decompressLzoBtrfs_lzoFrame Crates.withLiteralRuns (by decide) literalSegments
    decodes true (by decide) [7, 7] 8]
  rfl

end BtrfsForensic
