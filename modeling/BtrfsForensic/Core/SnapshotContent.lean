import BtrfsForensic.Core.SnapshotRead

namespace BtrfsForensic

/-! Reading the content of a stored snapshot: one piece, then the pieces of a file in
the order of their offsets. -/

/-! ## One extent -/

section Extents

variable {crates : Crates} {image data rest : Bytes} {map : ChunkMap} {sectorsize : UInt32}
  {off ramBytes numBytes : Nat} {codec type : UInt8} {address offset : UInt64}
  {spare : ExtentSpare}

theorem leU64_of_holds_nat {value : Nat} (small : value < 2 ^ 64)
    (holds : Holds data off (encodeLE 8 value)) : leU64 data off = UInt64.ofNat value := by
  apply leU64_of_holds
  rwa [UInt64.toNat_ofNat_of_lt' small]

theorem extentHeader_fields (small : ramBytes < 2 ^ 64)
    (holds : Holds data 0 (Writer.extentHeader spare ramBytes codec type ++ rest)) :
    leU64 data ExtOff.ramBytes = UInt64.ofNat ramBytes ∧
      u8At data ExtOff.compression = codec ∧ u8At data ExtOff.type = type ∧
      Holds data extentHeaderLen rest := by
  simp only [Writer.extentHeader, holds_append_iff, holds_singleton_iff, length_encodeLE,
    spare.generation.property, spare.otherEncodings.property, List.length_append,
    List.length_cons, List.length_nil, Nat.zero_add, Nat.reduceAdd] at holds
  rcases holds with ⟨⟨_, ram, compression, _, kind⟩, behind⟩
  exact ⟨leU64_of_holds_nat small ram, u8At_of_getElem? compression, u8At_of_getElem? kind,
    behind⟩

theorem diskExtent_fields (small : numBytes < 2 ^ 64)
    (holds : Holds data extentHeaderLen (Writer.diskExtent spare address offset numBytes)) :
    leU64 data ExtOff.diskBytenr = address ∧ leU64 data ExtOff.offset = offset ∧
      leU64 data ExtOff.numBytes = UInt64.ofNat numBytes := by
  simp only [Writer.diskExtent, holds_append_iff, length_encodeLE,
    spare.diskNumBytes.property] at holds
  rcases holds with ⟨start, _, within, count⟩
  exact ⟨leU64_of_holds start, leU64_of_holds within, leU64_of_holds_nat small count⟩

theorem Codec.fromByte_byte (codec : Codec) :
    Compression.fromByte codec.byte = codec.compression := by
  cases codec <;> rfl

theorem Codec.compression_ne_none (codec : Codec) : codec.compression ≠ .none := by
  cases codec <;> exact Compression.noConfusion

theorem inline_payload {bytes : Bytes} (size : data.length = extentHeaderLen + bytes.length)
    (holds : Holds data extentHeaderLen bytes) :
    (getRange data extentHeaderLen data.length).getD [] = bytes := by
  rw [Holds, ← size] at holds
  rw [holds, Option.getD_some]

theorem length_extentHeader (spare : ExtentSpare) (ramBytes : Nat) (codec type : UInt8) :
    (Writer.extentHeader spare ramBytes codec type).length = extentHeaderLen := by
  simp only [Writer.extentHeader, List.length_append, length_encodeLE,
    spare.generation.property, spare.otherEncodings.property, List.length_cons, List.length_nil]

theorem extentContent_extent (spare : ExtentSpare) (bounded : image.length < usizeMax)
    {piece : Piece}
    (small : piece.bytes.length < 2 ^ 64)
    (backed : piece.Backed crates image map sectorsize) :
    extentContent crates image map sectorsize (max image.length logicalAllocFloor)
      (Writer.extent spare piece) = .ok piece.bytes := by
  cases piece with
  | inline bytes =>
      replace small : bytes.length < 2 ^ 64 := small
      generalize stored : Writer.extent spare (.inline bytes) = data
      have size : data.length = extentHeaderLen + bytes.length := by
        rw [← stored, Writer.extent, List.length_append, length_extentHeader]
      rcases extentHeader_fields small (holds_of_eq stored.symm) with
        ⟨ram, compression, type, payload⟩
      rw [extentContent]
      simp only [type, compression, ram, inline_payload size payload, if_true,
        Compression.fromByte, decompressExtent, Piece.bytes]
      rw [UInt64.toNat_ofNat_of_lt' small, Nat.min_self, List.take_length]
  | inlineCoded codec payload bytes =>
      generalize stored : Writer.extent spare (.inlineCoded codec payload bytes) = data
      have size : data.length = extentHeaderLen + payload.length := by
        rw [← stored, Writer.extent, List.length_append, length_extentHeader]
      rcases extentHeader_fields small (holds_of_eq stored.symm) with
        ⟨ram, compression, type, coded⟩
      rw [extentContent]
      simp only [type, compression, ram, inline_payload size coded, if_true,
        Codec.fromByte_byte]
      exact backed
  | hole length =>
      generalize stored : Writer.extent spare (.hole length) = data
      have count : length < 2 ^ 64 := by rwa [Piece.bytes, List.length_replicate] at small
      rcases extentHeader_fields spare.ramBytes.toNat_lt (holds_of_eq stored.symm) with
        ⟨ram, compression, type, body⟩
      rcases diskExtent_fields count body with ⟨start, within, number⟩
      rw [extentContent]
      simp only [type, start, number]
      rw [if_neg (by decide), if_pos (by decide), if_pos trivial,
        UInt64.toNat_ofNat_of_lt' count, guardAlloc_bind_of_fits backed, Piece.bytes]
  | disk address offset bytes =>
      replace small : bytes.length < 2 ^ 64 := small
      generalize stored : Writer.extent spare (.disk address offset bytes) = data
      rcases extentHeader_fields spare.ramBytes.toNat_lt (holds_of_eq stored.symm) with
        ⟨ram, compression, type, body⟩
      rcases diskExtent_fields small body with ⟨start, within, number⟩
      rcases backed with ⟨present, devid, phys, target, held⟩
      have inside := held.le
      have plain : Compression.fromByte 0 = .none := rfl
      rw [extentContent]
      simp only [type, start, within, number, compression]
      rw [if_neg (by decide), if_pos (by decide), if_neg present,
        readRegularExtent_plain_iff bounded plain, UInt64.toNat_ofNat_of_lt' small]
      exact ⟨by omega, devid, phys, target, held⟩
  | diskCoded codec address offset ram bytes =>
      replace small : bytes.length < 2 ^ 64 := small
      generalize stored : Writer.extent spare (.diskCoded codec address offset ram bytes) = data
      rcases extentHeader_fields ram.toNat_lt (holds_of_eq stored.symm) with
        ⟨ramRead, compression, type, body⟩
      rcases diskExtent_fields small body with ⟨start, within, number⟩
      rcases backed with ⟨present, fits, whole, decoded, held⟩
      rw [extentContent]
      simp only [type, start, within, number, compression, ramRead, Codec.fromByte_byte,
        UInt64.ofNat_toNat]
      rw [if_neg (by decide), if_pos (by decide), if_neg present,
        readRegularExtent_compressed_iff codec.compression_ne_none,
        UInt64.toNat_ofNat_of_lt' small]
      exact ⟨fits, whole, decoded, (holds_iff.mp held).2.symm⟩

end Extents

/-! ## The extents of a file -/

section Files

variable {leaf : Node} {snapshot : Snapshot} {encoding : Encoding} {ino : UInt64}
  {spare : Nat → ExtentSpare} {crates : Crates} {image : Bytes} {map : ChunkMap}
  {sectorsize : UInt32}

def placedExtents (spare : Nat → ExtentSpare) :
    (position : Nat) → List Piece → List (UInt64 × Bytes)
  | _, [] => []
  | position, piece :: rest =>
      (UInt64.ofNat position, Writer.extent (spare position) piece) ::
        placedExtents spare (position + piece.bytes.length) rest

theorem map_placed (position : Nat) (pieces : List Piece) :
    (Object.placed encoding ino position pieces).map (fun item => (item.1.offset, item.2)) =
      placedExtents (encoding.extent ino) position pieces := by
  induction pieces generalizing position with
  | nil => rfl
  | cons piece pieces induction =>
      rw [Object.placed, List.map_cons, induction]
      rfl

/-- Pieces that are not empty lie at increasing offsets. -/
theorem placedExtents_increasing (spare : Nat → ExtentSpare) {position : Nat}
    {pieces : List Piece}
    (filled : ∀ piece ∈ pieces, piece.bytes ≠ [])
    (bounded : position + (pieces.flatMap Piece.bytes).length < 2 ^ 64) :
    (placedExtents spare position pieces).Pairwise (fun left right => left.1 < right.1) ∧
      ∀ extent ∈ placedExtents spare position pieces, position ≤ extent.1.toNat := by
  induction pieces generalizing position with
  | nil => exact ⟨.nil, fun extent member => absurd member List.not_mem_nil⟩
  | cons piece pieces induction =>
      rw [List.flatMap_cons, List.length_append] at bounded
      have long := List.length_pos_of_ne_nil (filled piece List.mem_cons_self)
      have start : (UInt64.ofNat position).toNat = position :=
        UInt64.toNat_ofNat_of_lt' (show position < 2 ^ 64 by omega)
      rcases induction (fun other member => filled other (List.mem_cons_of_mem _ member))
        (show position + piece.bytes.length + _ < _ by omega) with ⟨increasing, above⟩
      rw [placedExtents]
      constructor
      · refine List.Pairwise.cons (fun extent member => ?_) increasing
        have later := above extent member
        rw [UInt64.lt_iff_toNat_lt, start]
        omega
      · intro extent member
        rcases List.mem_cons.mp member with rfl | later
        · exact Nat.le_of_eq start.symm
        · exact Nat.le_trans (Nat.le_add_right _ _) (above extent later)

/-- The extents of an inode, in the order of their offsets. -/
theorem sorted_extentItems (stored : leaf.leafItems.Perm (snapshot.items encoding))
    {object : Object} (known : snapshot.object ino = some object) :
    sortByOffset (extentItems leaf ino) = placedExtents (encoding.extent ino) 0 object.pieces := by
  have own : (snapshot.objects.filter fun object => object.ino = ino) = [object] := by
    rw [filter_eq_toList_find? snapshot.numbered, ← Snapshot.object, known]
    rfl
  have selected : (snapshot.items encoding).filter (fun item =>
      item.1.objectid = ino ∧ item.1.keyType = extentDataKey) = object.extents encoding := by
    have owned : ∀ object ∈ snapshot.objects, ∀ item ∈ object.extents encoding,
        decide (item.1.objectid = ino) = decide (object.ino = ino) := by
      intro object _ item member
      rw [(key_of_mem_placed member).1]
    have parts := filter_flatMap_of_owner (Object.extents encoding) _ owned
    rw [own, List.flatMap_singleton, ← filter_extent_items, List.filter_filter] at parts
    rw [← parts]
    apply List.filter_congr
    intro item _
    rw [Bool.decide_and]
  have perm : (extentItems leaf ino).Perm
      (placedExtents (encoding.extent ino) 0 object.pieces) := by
    have listed : (extentItems leaf ino).Perm
        ((object.extents encoding).map fun item => (item.1.offset, item.2)) := by
      rw [← selected]
      exact (stored.filter _).map _
    rwa [Object.extents, map_placed, (of_object known).2] at listed
  have short : 0 + (object.pieces.flatMap Piece.bytes).length < 2 ^ 64 := by
    rw [Nat.zero_add]
    exact object.bounded
  have increasing := (placedExtents_increasing (encoding.extent ino) object.filled short).1
  have distinct : ((placedExtents (encoding.extent ino) 0 object.pieces).map
      Prod.fst).Nodup := by
    rw [List.Nodup, List.pairwise_map]
    exact increasing.imp fun below => UInt64.ne_of_lt below
  rw [sortByOffset_of_perm perm
    ((perm.map Prod.fst).nodup_iff.mpr distinct), sortByOffset]
  exact List.Pairwise.insertionSort_eq (increasing.imp fun below => UInt64.le_of_lt below)

theorem appendExtents_placed (bounded : image.length < usizeMax) {pieces : List Piece}
    (small : (pieces.flatMap Piece.bytes).length < 2 ^ 64)
    (backed : ∀ piece ∈ pieces, piece.Backed crates image map sectorsize) (position : Nat)
    (out : Bytes) :
    appendExtents crates image map sectorsize (max image.length logicalAllocFloor)
      (placedExtents spare position pieces) out =
        .ok (out ++ pieces.flatMap Piece.bytes) := by
  induction pieces generalizing position out with
  | nil => rw [placedExtents, appendExtents, List.flatMap_nil, List.append_nil]
  | cons piece pieces induction =>
      rw [List.flatMap_cons, List.length_append] at small
      have read := extentContent_extent (spare position) bounded
        (Nat.lt_of_le_of_lt (Nat.le_add_right _ _) small) (backed piece List.mem_cons_self)
      rw [placedExtents, appendExtents, read, List.flatMap_cons, ← List.append_assoc]
      exact induction (Nat.lt_of_le_of_lt (Nat.le_add_left _ _) small)
        (fun other member => backed other (List.mem_cons_of_mem _ member)) _ _

theorem readFileFromLeaf_backed (stored : leaf.leafItems.Perm (snapshot.items encoding))
    (bounded : image.length < usizeMax) {object : Object}
    (known : snapshot.object ino = some object)
    (fits : object.inode.size.toNat ≤ max image.length logicalAllocFloor)
    (backed : ∀ piece ∈ object.pieces, piece.Backed crates image map sectorsize) :
    readFileFromLeaf crates leaf image map sectorsize ino = .ok object.content := by
  have size : inodeSize leaf ino = some object.inode.size := by
    rw [inodeSize_eq, readInode_stored stored, known]
    rfl
  rw [readFileFromLeaf_eq_ok_iff]
  refine ⟨_, _, size, fits, ?_, rfl⟩
  rw [sorted_extentItems stored known]
  exact appendExtents_placed bounded object.bounded backed 0 []

theorem readFileFromLeaf_stored (stored : leaf.leafItems.Perm (snapshot.items encoding))
    (bounded : image.length < usizeMax) (backed : snapshot.Backed crates image map sectorsize)
    {object : Object} (known : snapshot.object ino = some object) :
    readFileFromLeaf crates leaf image map sectorsize ino = .ok object.content :=
  have own := backed object (of_object known).1
  readFileFromLeaf_backed stored bounded known own.1 own.2

end Files

end BtrfsForensic
