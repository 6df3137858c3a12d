import BtrfsForensic.Core.Attributes
import BtrfsForensic.Core.Extent
import BtrfsForensic.Core.OpenedDisk
import BtrfsForensic.Foundation.Windows

namespace BtrfsForensic

/-! The data streams of an inode: its content, and one stream for each of its extended
attributes. Listing and reading find the attributes anew and meet in a 16-bit index. -/

/-- The identity of a stream; a kind that btrfs does not have is kept as its debug text. -/
inductive StreamId
  | default
  | xattr (index : UInt16)
  | other (scheme : String)
  deriving DecidableEq

def StreamId.debug : StreamId → String
  | default => "Default"
  | xattr index => s!"Xattr({index.toNat})"
  | other scheme => scheme

inductive ResidencyKind
  | nonResident
  | resident (inlineLen : UInt32)
  deriving DecidableEq

inductive StreamKind
  | data
  | xattr
  deriving DecidableEq

structure StreamInfo where
  id : StreamId
  name : Option Bytes
  size : UInt64
  residency : ResidencyKind
  kind : StreamKind
  deriving DecidableEq

/-- `u16::try_from(i).unwrap_or(u16::MAX)`. -/
def xattrIndex (index : Nat) : UInt16 := UInt16.ofNat (min index (2 ^ 16 - 1))

def StreamInfo.ofXattr (index : Nat) (x : Xattr) : StreamInfo where
  id := .xattr (xattrIndex index)
  name := some (nameBytes x.name)
  size := UInt64.ofNat x.value.length
  residency := .resident (UInt32.ofNat (min x.value.length (2 ^ 32 - 1)))
  kind := .xattr

def StreamInfo.ofContent (size : UInt64) : StreamInfo where
  id := .default
  name := none
  size := size
  residency := .nonResident
  kind := .data

def requireDefaultStream : StreamId → Except VfsError Unit
  | .default => .ok ()
  | other => .error (.unsupported "btrfs stream" other.debug)

def fsTreeLeaf (crates : Crates) (image : Bytes) (sb : Superblock) (map : ChunkMap) :
    Except BtrfsError Node := do
  let root ← fsTreeRoot crates image sb map
  readNode crates image sb map root.bytenr

/-- The content of an inode; the leaf is read again from the image. -/
def readFile (crates : Crates) (image : Bytes) (sb : Superblock) (map : ChunkMap)
    (ino : UInt64) : Except BtrfsError Bytes := do
  let leaf ← fsTreeLeaf crates image sb map
  readFileFromLeaf crates leaf image map sb.sectorsize ino

namespace BtrfsFs

def dataStreams (fs : BtrfsFs) (ino : FileId) : Except VfsError (List StreamInfo) := do
  let oid ← oidOf ino
  let size := ((readInode fs.leaf oid).map Inode.size).getD 0
  .ok (StreamInfo.ofContent size :: (listXattrs fs.leaf oid).mapIdx StreamInfo.ofXattr)

/-- The count of a read and the buffer it leaves. Attributes come before the guard that
refuses the streams btrfs does not have. -/
def readAt (crates : Crates) (fs : BtrfsFs) (ino : FileId) (stream : StreamId) (off : UInt64)
    (buf : Bytes) : Except VfsError (Nat × Bytes) := do
  let oid ← oidOf ino
  match stream with
  | .xattr idx =>
      let all := listXattrs fs.leaf oid
      match all[idx.toNat]? with
      | none =>
          .error (.unsupported "btrfs xattr index" s!"attribute {idx.toNat} of {all.length}")
      | some x =>
          match getRange x.value off.toNat x.value.length with
          | none => .ok (0, buf)
          | some avail =>
              let n := min avail.length buf.length
              .ok (n, avail.take n ++ buf.drop n)
  | stream => do
      requireDefaultStream stream
      let data ← (readFile crates fs.image fs.sb fs.map oid).mapError mapBtrfsErr
      let start := min off.toNat data.length
      match getRange data start data.length with
      | none => .ok (0, buf)
      | some avail =>
          let n := min avail.length buf.length
          .ok (n, avail.take n ++ buf.drop n)

/-- A stream read through consecutive buffers from the start. -/
def readStream (crates : Crates) (fs : BtrfsFs) (ino : FileId) (stream : StreamId)
    (bufs : List Bytes) : Except VfsError Bytes :=
  readThrough (fun off buf => fs.readAt crates ino stream (UInt64.ofNat off) buf) 0 bufs

end BtrfsFs

/-! ## What is read -/

theorem mapError_eq_ok_iff {ε ε' α : Type} {result : Except ε α} {convert : ε → ε'} {value : α} :
    result.mapError convert = .ok value ↔ result = .ok value := by
  cases result <;> simp [Except.mapError]

section Reading

variable {crates : Crates} {fs : BtrfsFs} {image : Bytes} {oid off : UInt64} {buf : Bytes}

theorem fsTreeLeaf_of_opened (opened : BtrfsFs.ofImage crates image = .ok fs) :
    fsTreeLeaf crates fs.image fs.sb fs.map = .ok fs.leaf := by
  rw [BtrfsFs.ofImage] at opened
  split at opened
  case h_1 => cases opened
  case h_2 slice _ =>
    simp only [bind_eq_ok_iff, mapError_eq_ok_iff] at opened
    rcases opened with ⟨sb, _, map, _, root, found, leaf, read, same⟩
    cases same
    rw [fsTreeLeaf, bind_eq_ok_iff]
    exact ⟨root, found, read⟩

theorem readFile_of_opened (opened : BtrfsFs.ofImage crates image = .ok fs) :
    readFile crates fs.image fs.sb fs.map oid =
      readFileFromLeaf crates fs.leaf fs.image fs.map fs.sb.sectorsize oid := by
  rw [readFile, fsTreeLeaf_of_opened opened]
  rfl

theorem readAt_xattr {idx : UInt16} {x : Xattr}
    (found : (listXattrs fs.leaf oid)[idx.toNat]? = some x) :
    fs.readAt crates (.objectid oid) (.xattr idx) off buf =
      .ok (window x.value off.toNat buf) := by
  rw [BtrfsFs.readAt]
  simp only [oidOf, bind, Except.bind, found, getRange_to_end]
  by_cases inside : off.toNat ≤ x.value.length
  · simp only [if_pos inside, window]
  · simp only [if_neg inside, window_past (Nat.le_of_not_le inside)]

theorem readAt_default {content : Bytes}
    (read : readFile crates fs.image fs.sb fs.map oid = .ok content) :
    fs.readAt crates (.objectid oid) .default off buf =
      .ok (window content off.toNat buf) := by
  have drop : content.drop (min off.toNat content.length) = content.drop off.toNat := by
    rcases Nat.le_total off.toNat content.length with inside | past
    · rw [Nat.min_eq_left inside]
    · rw [Nat.min_eq_right past, List.drop_length, List.drop_eq_nil_of_le past]
  rw [BtrfsFs.readAt]
  simp only [oidOf, bind, Except.bind, requireDefaultStream, read, Except.mapError,
    getRange_to_end, if_pos (Nat.min_le_right off.toNat content.length), drop, window]

theorem readFile_of_readAt {answer : Nat × Bytes}
    (read : fs.readAt crates (.objectid oid) .default off buf = .ok answer) :
    ∃ content, readFile crates fs.image fs.sb fs.map oid = .ok content := by
  cases result : readFile crates fs.image fs.sb fs.map oid with
  | ok content => exact ⟨content, rfl⟩
  | error error =>
      rw [BtrfsFs.readAt] at read
      simp only [oidOf, bind, Except.bind, requireDefaultStream, result, Except.mapError] at read
      cases read

/-! ## Sizes -/

theorem inodeSize_eq (leaf : Node) (ino : UInt64) :
    inodeSize leaf ino = (readInode leaf ino).map Inode.size := by
  rw [inodeSize, readInode, Option.map_map]
  rfl

theorem length_value_lt {leaf : Node} {x : Xattr} (member : x ∈ listXattrs leaf oid) :
    x.value.length < 2 ^ 16 := by
  rcases List.mem_flatMap.mp member with ⟨item, _, listed⟩
  split at listed
  case isTrue => cases listed
  case isFalse =>
    rcases exists_of_mem_packedLoop listed with ⟨data, consumed, parsed⟩
    have accepted : ¬parseXattrItem data = none := by
      intro refused
      cases refused.symm.trans parsed
    rw [parseXattrItem_eq_none_iff] at accepted
    simp only [not_forall, not_not] at accepted
    rcases accepted with ⟨record, named, holds⟩
    cases (parseXattrItem_of_holds named holds).symm.trans parsed
    exact record.valueFits

end Reading

/-! ## Listing against reading -/

/-- The bytes that the stream at a position of the listing stands for. -/
def StreamContent (crates : Crates) (fs : BtrfsFs) (oid : UInt64) :
    (position : Nat) → Bytes → Prop
  | 0, content => readFile crates fs.image fs.sb fs.map oid = .ok content
  | index + 1, content => ∃ x, (listXattrs fs.leaf oid)[index]? = some x ∧ x.value = content

/-- The listed streams of an inode have ids of their own. One that can be read is as long as
it is listed, reads as its bytes however it is cut into windows, and is empty past its end. -/
def StreamsServed (crates : Crates) (fs : BtrfsFs) (oid : UInt64) : Prop :=
  ∀ streams, fs.dataStreams (.objectid oid) = .ok streams →
    (streams.map StreamInfo.id).Nodup ∧
      ∀ position info, streams[position]? = some info →
        ∀ off buf answer, fs.readAt crates (.objectid oid) info.id off buf = .ok answer →
          ∃ content, StreamContent crates fs oid position content ∧
            content.length = info.size.toNat ∧
            (∀ bufs : List Bytes, (bufs.map List.length).sum = info.size.toNat →
              fs.readStream crates (.objectid oid) info.id bufs = .ok content) ∧
            ∀ (off : UInt64) (buf : Bytes), info.size.toNat ≤ off.toNat →
              fs.readAt crates (.objectid oid) info.id off buf = .ok (0, buf)

section Served

variable {crates : Crates} {fs : BtrfsFs} {image : Bytes} {oid : UInt64} {stream : StreamId}
  {content : Bytes} {size : UInt64}

theorem served_of_window (crates : Crates) (sized : content.length = size.toNat)
    (reads : ∀ off buf, fs.readAt crates (.objectid oid) stream off buf =
      .ok (window content off.toNat buf)) :
    (∀ bufs : List Bytes, (bufs.map List.length).sum = size.toNat →
        fs.readStream crates (.objectid oid) stream bufs = .ok content) ∧
      ∀ (off : UInt64) (buf : Bytes), size.toNat ≤ off.toNat →
        fs.readAt crates (.objectid oid) stream off buf = .ok (0, buf) := by
  constructor
  · intro bufs total
    have bound := size.toNat_lt
    rw [BtrfsFs.readStream, readThrough_eq, List.drop_zero]
    · intro off inside buf
      rw [reads, UInt64.toNat_ofNat_of_lt' (show off < 2 ^ 64 by omega)]
    · rw [Nat.zero_add, total, sized]
  · intro off buf past
    rw [reads, window_past (by omega)]

theorem toNat_xattrIndex {index : Nat} (few : index < 2 ^ 16) :
    (xattrIndex index).toNat = index := by
  rw [xattrIndex, Nat.min_eq_left (by omega), UInt16.toNat_ofNat_of_lt' few]

theorem xattrIndex_of_le {index : Nat} (many : 2 ^ 16 - 1 ≤ index) :
    xattrIndex index = 65535 := by
  rw [xattrIndex, Nat.min_eq_right many]
  rfl

theorem map_id_mapIdx (attributes : List Xattr) :
    (attributes.mapIdx StreamInfo.ofXattr).map StreamInfo.id =
      (List.range attributes.length).map fun index => .xattr (xattrIndex index) := by
  apply List.ext_getElem?
  intro index
  rw [List.getElem?_map, List.getElem?_mapIdx, List.getElem?_map]
  by_cases inside : index < attributes.length
  · rw [List.getElem?_eq_getElem inside, List.getElem?_range inside]
    rfl
  · rw [List.getElem?_eq_none (Nat.le_of_not_lt inside), List.getElem?_eq_none (by
      rw [List.length_range]
      exact Nat.le_of_not_lt inside)]
    rfl

/-- Attributes have indices of their own exactly as long as 16 bits number them. -/
theorem nodup_ids_iff {size : UInt64} (attributes : List Xattr) :
    ((StreamInfo.ofContent size :: attributes.mapIdx StreamInfo.ofXattr).map
        StreamInfo.id).Nodup ↔ attributes.length ≤ 2 ^ 16 := by
  rw [List.map_cons, map_id_mapIdx, List.nodup_cons]
  constructor
  · intro distinct
    by_contra many
    have same : StreamId.xattr (xattrIndex 65535) = .xattr (xattrIndex 65536) := by
      rw [xattrIndex_of_le (by decide), xattrIndex_of_le (by decide)]
    have equal := List.inj_on_of_nodup_map distinct.2 (List.mem_range.mpr (by omega))
      (List.mem_range.mpr (by omega)) same
    cases equal
  · intro few
    constructor
    · intro member
      rcases List.mem_map.mp member with ⟨_, _, same⟩
      cases same
    · apply List.Nodup.map_on ?_ List.nodup_range
      intro left inLeft right inRight same
      have leftBound := List.mem_range.mp inLeft
      have rightBound := List.mem_range.mp inRight
      have numbers := congrArg UInt16.toNat (StreamId.xattr.inj same)
      rwa [toNat_xattrIndex (by omega), toNat_xattrIndex (by omega)] at numbers

/-- A default stream that can be read is as long as it is listed. -/
theorem served_default (opened : BtrfsFs.ofImage crates image = .ok fs) {off : UInt64}
    {buf : Bytes} {answer : Nat × Bytes}
    (read : fs.readAt crates (.objectid oid) .default off buf = .ok answer) :
    ∃ content, readFile crates fs.image fs.sb fs.map oid = .ok content ∧
      content.length = (((readInode fs.leaf oid).map Inode.size).getD 0).toNat := by
  rcases readFile_of_readAt read with ⟨content, found⟩
  have assembled := found
  rw [readFile_of_opened opened] at assembled
  rcases readFileFromLeaf_eq_ok_iff.mp assembled with ⟨size, _, known, _⟩
  refine ⟨content, found, ?_⟩
  rw [length_of_readFileFromLeaf known assembled, ← inodeSize_eq, known, Option.getD_some]

/-- Every stream of an opened image is served as it is listed, under an id of its own,
exactly when 16 bits number the attributes of the inode. -/
theorem streamsServed_iff (opened : BtrfsFs.ofImage crates image = .ok fs) (oid : UInt64) :
    StreamsServed crates fs oid ↔ (listXattrs fs.leaf oid).length ≤ 2 ^ 16 := by
  constructor
  · intro served
    exact (nodup_ids_iff _).mp (served _ rfl).1
  · intro few streams listed
    cases listed
    refine ⟨(nodup_ids_iff _).mpr few, fun position info found off buf answer read => ?_⟩
    cases position with
    | zero =>
        cases found
        rcases served_default opened read with ⟨content, found, sized⟩
        have windows := served_of_window crates sized fun off buf => readAt_default found
        exact ⟨content, found, sized, windows.1, windows.2⟩
    | succ index =>
        rw [List.getElem?_cons_succ, List.getElem?_mapIdx] at found
        rcases Option.map_eq_some_iff.mp found with ⟨x, known, rfl⟩
        have inside := (List.getElem?_eq_some_iff.mp known).1
        have valueLength := length_value_lt (List.mem_of_getElem? known)
        have sized : x.value.length = (StreamInfo.ofXattr index x).size.toNat :=
          (UInt64.toNat_ofNat_of_lt' (show x.value.length < 2 ^ 64 by omega)).symm
        have numbered : (listXattrs fs.leaf oid)[(xattrIndex index).toNat]? = some x := by
          rwa [toNat_xattrIndex (by omega)]
        have windows := served_of_window crates sized fun off buf => readAt_xattr numbered
        exact ⟨x.value, ⟨x, known, rfl⟩, sized, windows.1, windows.2⟩

end Served

theorem itemsFit_collidingAttributes :
    Disk.ItemsFit [collidingAttributes.item Writer.dirRecord] :=
  show btrfsHeaderSize + _ ≤ 1024 by decide +kernel

theorem streamsServed_iff_in_collidingAttributes :
    ∃ fs, BtrfsFs.ofImage Crates.withoutCodecs (Disk.ofItems
        [collidingAttributes.item Writer.dirRecord] itemsFit_collidingAttributes).image = .ok fs ∧
      StreamsServed Crates.withoutCodecs fs 256 := by
  rcases Disk.ofImage_ofItems itemsFit_collidingAttributes with ⟨fs, opened, _, items⟩
  refine ⟨fs, opened, (streamsServed_iff opened 256).mpr ?_⟩
  rw [listXattrs, listPacked, items]
  decide +kernel

/-! ## More attributes than indices -/

/-- 257 attributes, of which the first alone has the value 1. -/
def manyRecords : List DirRecord :=
  attributeRecord [97] [1] (by decide) (by decide) ::
    List.replicate 256 (attributeRecord [97] [2] (by decide) (by decide))

/-- The records, shared by 256 items of an inode. -/
def manyItem : PackedItem DirRecord := ⟨⟨256, xattrItemKey, 7⟩, manyRecords, []⟩

def manyLeaf : Bytes :=
  Writer.sharedLeaf 0x4000 ⟨Disk.fsid, 0x108000, 9, fsTreeObjectid⟩ 256 manyItem.key
    (manyItem.item Writer.dirRecord).2

theorem manyItem_fits :
    101 + 25 * 256 + (manyItem.item Writer.dirRecord).2.length ≤ 0x4000 := by
  rw [PackedItem.item, manyItem, manyRecords, List.append_nil, List.flatMap_cons,
    List.length_append, List.length_flatMap, List.map_replicate, List.sum_replicate_nat,
    Writer.length_dirRecord, Writer.length_dirRecord]
  decide

theorem leafItems_manyLeaf :
    (Node.ofBlock Crates.withoutCodecs manyLeaf).leafItems =
      List.replicate 256 (manyItem.item Writer.dirRecord) :=
  Writer.leafItems_sharedLeaf (by decide) manyItem_fits

namespace Disk

def manyBlocks : List Bytes :=
  [Writer.leaf 0x4000 (chunkNode logical) [chunkItem],
    Writer.leaf 0x4000 ⟨fsid, 0x104000, 9, 1⟩ [fsRootItem (address 0x4000 2)], manyLeaf]

theorem sized_manyBlocks : ∀ block ∈ manyBlocks, block.length = (0x4000 : UInt32).toNat := by
  intro block member
  simp only [manyBlocks, List.mem_cons, List.not_mem_nil, or_false] at member
  rcases member with rfl | rfl | rfl
  · exact Writer.length_leaf (by decide +kernel)
  · exact Writer.length_leaf (by decide +kernel)
  · exact Writer.length_sharedLeaf manyItem_fits

theorem manyBlocks_fit :
    physical + (0x4000 : UInt32).toNat * manyBlocks.length ≤ 0x1E000 := by
  decide

theorem many_short : 0x1E000 < usizeMax := by decide

end Disk

def manyAttributes : Disk where
  length := 0x1E000
  root := 0x104000
  nodesize := 0x4000
  blocks := Disk.manyBlocks
  magic := Disk.magic_writeSuperblock _ _
  describes := Disk.describes_writeSuperblock _ _
  sized := Disk.sized_manyBlocks
  fits := Disk.manyBlocks_fit
  short := Disk.many_short

theorem ofImage_manyAttributes :
    ∃ fs, BtrfsFs.ofImage Crates.withoutCodecs manyAttributes.image = .ok fs ∧
      fs.leaf = Node.ofBlock Crates.withoutCodecs manyLeaf := by
  have rooted : manyAttributes.root = Disk.address 0x4000 1 :=
    show (0x104000 : UInt64) = Disk.address 0x4000 1 by decide
  have covered : (0x4000 : UInt32).toNat * 2 < Disk.span.toNat := by decide
  have long : btrfsHeaderSize ≤ (0x4000 : UInt32).toNat := by decide
  rcases Disk.ofImage_leaves rfl rooted covered long
      (Writer.leafItems_leaf (by decide) (by decide +kernel))
      (Writer.leafItems_leaf (by decide) (by decide +kernel)) with ⟨fs, opened, _, leaf⟩
  exact ⟨fs, opened, leaf⟩

theorem listXattrs_manyLeaf :
    listXattrs (Node.ofBlock Crates.withoutCodecs manyLeaf) 256 =
      (List.replicate 256 manyItem).flatMap fun item => item.records.map Xattr.ofRecord := by
  apply listXattrs_eq
  · rw [leafItems_manyLeaf, List.map_replicate, List.filter_replicate_of_pos rfl]
  · intro item inItems record member
    rw [(List.mem_replicate.mp inItems).2] at member
    rcases List.mem_cons.mp member with rfl | other
    · decide
    · rw [(List.mem_replicate.mp other).2]
      decide
  · intro item inItems
    rw [(List.mem_replicate.mp inItems).2]
    exact parseXattrItem_eq_none_iff.mp rfl

theorem drop_listXattrs_manyLeaf :
    (listXattrs (Node.ofBlock Crates.withoutCodecs manyLeaf) 256).drop 65535 =
      manyRecords.map Xattr.ofRecord := by
  have before : ((List.replicate 255 manyItem).flatMap fun item =>
      item.records.map Xattr.ofRecord).length = 65535 := by
    rw [List.length_flatMap, List.map_replicate, List.sum_replicate_nat, List.length_map,
      manyItem, manyRecords, List.length_cons, List.length_replicate]
  rw [listXattrs_manyLeaf, List.replicate_succ', List.flatMap_append, List.drop_left' before,
    List.flatMap_singleton]
  rfl

/-- An inode with 65792 attributes lists two streams under one id, and one of them reads as
the other. -/
theorem attributes_past_the_last_index :
    ∃ fs, BtrfsFs.ofImage Crates.withoutCodecs manyAttributes.image = .ok fs ∧
      ¬StreamsServed Crates.withoutCodecs fs 256 ∧
      ∃ streams info, fs.dataStreams (.objectid 256) = .ok streams ∧
        streams[65537]? = some info ∧ info.id = .xattr 65535 ∧
        StreamContent Crates.withoutCodecs fs 256 65537 [2] ∧
        fs.readAt Crates.withoutCodecs (.objectid 256) info.id 0 [0] = .ok (1, [1]) := by
  rcases ofImage_manyAttributes with ⟨fs, opened, leaf⟩
  have later := drop_listXattrs_manyLeaf
  rw [← leaf] at later
  have first : (listXattrs fs.leaf 256)[65535]? = some ⟨fromUtf8Lossy [97], [1]⟩ := by
    rw [← Nat.add_zero 65535, ← List.getElem?_drop, later]
    rfl
  have second : (listXattrs fs.leaf 256)[65536]? = some ⟨fromUtf8Lossy [97], [2]⟩ := by
    rw [show 65536 = 65535 + 1 from rfl, ← List.getElem?_drop, later]
    rfl
  have many : 65536 < (listXattrs fs.leaf 256).length :=
    (List.getElem?_eq_some_iff.mp second).1
  have shared : (StreamInfo.ofXattr 65536 ⟨fromUtf8Lossy [97], [2]⟩).id = .xattr 65535 :=
    congrArg StreamId.xattr (xattrIndex_of_le (by decide))
  refine ⟨fs, opened, fun served => ?_, _, StreamInfo.ofXattr 65536 _, rfl, ?_, shared,
    ⟨_, second, rfl⟩, ?_⟩
  · have few := (nodup_ids_iff _).mp (served _ rfl).1
    omega
  · rw [List.getElem?_cons_succ, List.getElem?_mapIdx, second]
    rfl
  · rw [shared, readAt_xattr first]
    rfl

end BtrfsForensic
