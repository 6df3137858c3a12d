import BtrfsForensic.Core.FormattedRead
import BtrfsForensic.Core.SnapshotServed
import Mathlib.Data.List.Forall2

namespace BtrfsForensic

/-! Filesystems to be written: the content of their files is given, and where it is
stored is decided when a volume is formatted. -/

/-! ## Content without addresses -/

/-- Content to be stored in an item, nowhere, or among the data of the volume. -/
inductive Fragment
  | inline (bytes : Bytes)
  | inlineCoded (codec : Codec) (payload bytes : Bytes)
  | hole (length : Nat)
  | stored (bytes : Bytes)
  | coded (codec : Codec) (payload bytes : Bytes)
  deriving DecidableEq

namespace Fragment

def bytes : Fragment → Bytes
  | inline bytes => bytes
  | inlineCoded _ _ bytes => bytes
  | hole length => List.replicate length 0
  | stored bytes => bytes
  | coded _ _ bytes => bytes

def data : Fragment → Bytes
  | stored bytes => bytes
  | coded _ payload _ => payload
  | _ => []

def piece (address : UInt64) : Fragment → Piece
  | inline bytes => .inline bytes
  | inlineCoded codec payload bytes => .inlineCoded codec payload bytes
  | hole length => .hole length
  | stored bytes => .disk address 0 bytes
  | coded codec _ bytes => .diskCoded codec address 0 (UInt64.ofNat bytes.length) bytes

@[simp] theorem bytes_piece (address : UInt64) (fragment : Fragment) :
    (fragment.piece address).bytes = fragment.bytes := by
  cases fragment <;> rfl

/-- The extents of fragments whose data is laid end to end from a position on. -/
def lay (place : Nat → UInt64) : (position : Nat) → List Fragment → List Piece
  | _, [] => []
  | position, fragment :: rest =>
      fragment.piece (place position) :: lay place (position + fragment.data.length) rest

variable {place : Nat → UInt64} {position : Nat} {fragments : List Fragment}

theorem map_bytes_lay :
    (lay place position fragments).map Piece.bytes = fragments.map Fragment.bytes := by
  induction fragments generalizing position with
  | nil => rfl
  | cons fragment fragments induction =>
      rw [lay, List.map_cons, List.map_cons, bytes_piece, induction]

theorem exists_of_mem_lay {piece : Piece} (member : piece ∈ lay place position fragments) :
    ∃ before fragment after, fragments = before ++ fragment :: after ∧
      piece = fragment.piece (place (position + (before.flatMap data).length)) := by
  induction fragments generalizing position with
  | nil => cases member
  | cons fragment fragments induction =>
      rcases List.mem_cons.mp member with rfl | member
      · exact ⟨[], fragment, fragments, rfl, rfl⟩
      · rcases induction member with ⟨before, found, after, split, rfl⟩
        refine ⟨fragment :: before, found, after, by rw [split, List.cons_append], ?_⟩
        rw [List.flatMap_cons, List.length_append, Nat.add_assoc]

end Fragment

/-! ## Filesystems without addresses -/

structure DraftObject where
  inode : Inode
  fragments : List Fragment
  filled : ∀ fragment ∈ fragments, fragment.bytes ≠ []
  bounded : (fragments.flatMap Fragment.bytes).length < 2 ^ 64

namespace DraftObject

def data (draft : DraftObject) : Bytes := draft.fragments.flatMap Fragment.data

def content (draft : DraftObject) : Bytes :=
  fitToSize draft.inode.size.toNat (draft.fragments.flatMap Fragment.bytes)

def object (place : Nat → UInt64) (position : Nat) (draft : DraftObject) : Object where
  inode := draft.inode
  pieces := Fragment.lay place position draft.fragments
  filled := by
    intro piece member
    rcases Fragment.exists_of_mem_lay member with ⟨before, fragment, after, split, rfl⟩
    rw [Fragment.bytes_piece]
    apply draft.filled
    rw [split]
    exact List.mem_append_right _ List.mem_cons_self
  bounded := by
    rw [List.flatMap, Fragment.map_bytes_lay]
    exact draft.bounded

variable {place : Nat → UInt64} {position : Nat}

theorem content_object (draft : DraftObject) :
    (draft.object place position).content = draft.content := by
  rw [Object.content, content, object, List.flatMap, Fragment.map_bytes_lay]
  rfl

def lay (place : Nat → UInt64) : (position : Nat) → List DraftObject → List Object
  | _, [] => []
  | position, draft :: rest =>
      draft.object place position :: lay place (position + draft.data.length) rest

variable {drafts : List DraftObject}

theorem map_ino_lay :
    (lay place position drafts).map Object.ino = drafts.map fun draft => draft.inode.objectid := by
  induction drafts generalizing position with
  | nil => rfl
  | cons draft drafts induction =>
      rw [lay, List.map_cons, List.map_cons, induction]
      rfl

theorem exists_of_mem_lay {object : Object} (member : object ∈ lay place position drafts) :
    ∃ before draft after, drafts = before ++ draft :: after ∧
      object = draft.object place (position + (before.flatMap data).length) := by
  induction drafts generalizing position with
  | nil => cases member
  | cons draft drafts induction =>
      rcases List.mem_cons.mp member with rfl | member
      · exact ⟨[], draft, drafts, rfl, rfl⟩
      · rcases induction member with ⟨before, found, after, split, rfl⟩
        refine ⟨draft :: before, found, after, by rw [split, List.cons_append], ?_⟩
        rw [List.flatMap_cons, List.length_append, Nat.add_assoc]

/-- An object among others is that of a draft, wherever its data is laid. -/
def LaidIn (place : Nat → UInt64) (objects : List Object) (draft : DraftObject)
    (object : Object) : Prop :=
  object ∈ objects ∧ ∃ position, object = draft.object place position

theorem LaidIn.fields {objects : List Object} {draft : DraftObject} {object : Object}
    (laid : draft.LaidIn place objects object) :
    object.inode = draft.inode ∧ object.content = draft.content ∧
      (object.pieces ≠ [] ↔ draft.fragments ≠ []) := by
  rcases laid with ⟨_, position, rfl⟩
  refine ⟨rfl, content_object draft, ?_⟩
  have pieces : (draft.object place position).pieces = Fragment.lay place position
      draft.fragments :=
    rfl
  rw [pieces]
  cases draft.fragments with
  | nil => exact iff_of_false (fun filled => filled rfl) fun filled => filled rfl
  | cons fragment fragments => exact iff_of_true (List.cons_ne_nil _ _) (List.cons_ne_nil _ _)

theorem forall₂_lay {objects : List Object}
    (among : ∀ object ∈ lay place position drafts, object ∈ objects) :
    List.Forall₂ (LaidIn place objects) drafts (lay place position drafts) := by
  induction drafts generalizing position with
  | nil => exact .nil
  | cons draft drafts induction =>
      refine .cons ⟨among _ List.mem_cons_self, position, rfl⟩ (induction ?_)
      exact fun object member => among object (List.mem_cons_of_mem _ member)

theorem exists_of_mem_pieces {object : Object} (member : object ∈ lay place position drafts)
    {piece : Piece} (among : piece ∈ object.pieces) :
    ∃ draft ∈ drafts, ∃ fragment ∈ draft.fragments, ∃ offset,
      piece = fragment.piece (place (position + offset)) ∧
        Holds (drafts.flatMap data) offset fragment.data := by
  rcases exists_of_mem_lay member with ⟨before, draft, after, split, rfl⟩
  rcases Fragment.exists_of_mem_lay among with ⟨first, fragment, last, parts, rfl⟩
  refine ⟨draft, by rw [split]; simp, fragment, by rw [parts]; simp,
    (before.flatMap data).length + (first.flatMap Fragment.data).length,
    by rw [Nat.add_assoc], ?_⟩
  have layout : drafts.flatMap data = (before.flatMap data ++ first.flatMap Fragment.data) ++
      (fragment.data ++ (last.flatMap Fragment.data ++ after.flatMap data)) := by
    rw [split, List.flatMap_append, List.flatMap_cons]
    conv_lhs => rw [data, parts, List.flatMap_append, List.flatMap_cons]
    simp only [List.append_assoc]
  exact holds_of_append layout List.length_append

end DraftObject

structure Draft where
  objects : List DraftObject
  dentries : List Dentry
  backrefs : List Backref
  attributes : List Attribute
  orphans : List UInt64
  numbered : (objects.map fun draft => draft.inode.objectid).Nodup
  named : (dentries.map fun dentry => (dentry.dir, dentry.name.text)).Nodup

namespace Draft

def data (draft : Draft) : Bytes := draft.objects.flatMap DraftObject.data

def snapshot (place : Nat → UInt64) (draft : Draft) : Snapshot where
  objects := DraftObject.lay place 0 draft.objects
  dentries := draft.dentries
  backrefs := draft.backrefs
  attributes := draft.attributes
  orphans := draft.orphans
  numbered := by
    rw [DraftObject.map_ino_lay]
    exact draft.numbered
  named := draft.named

end Draft

/-! ## What can be read back -/

/-- What the reader allows on an image of a length, and what the decoders make of coded
content. A decoder is handed the rest of the image behind the payload. -/
def Fragment.Readable (crates : Crates) (length : Nat) : Fragment → Prop
  | .inline _ => True
  | .inlineCoded codec payload bytes =>
      decompressExtent crates codec.compression payload (UInt64.ofNat bytes.length) 4096 =
        .ok bytes
  | .hole size => size ≤ max length logicalAllocFloor
  | .stored _ => True
  | .coded codec payload bytes => payload ≠ [] ∧ bytes.length ≤ length ∧ ∀ rest,
      decompressExtent crates codec.compression (payload ++ rest) (UInt64.ofNat bytes.length)
        4096 = .ok bytes

def Draft.Readable (crates : Crates) (length : Nat) (draft : Draft) : Prop :=
  ∀ object ∈ draft.objects, object.inode.size.toNat ≤ max length logicalAllocFloor ∧
    ∀ fragment ∈ object.fragments, fragment.Readable crates length

namespace Formatted

variable {disk : Formatted} {crates : Crates} {encoding : Encoding} {start : Nat}
  {draft : Draft} {items : List (DiskKey × Bytes)}

def dataStart (disk : Formatted) : Nat :=
  disk.nodesize.toNat * (2 * disk.older.length + 3)

/-- The filesystem of a draft whose data begins at a position of the volume's data. -/
def snapshot (disk : Formatted) (start : Nat) (draft : Draft) : Snapshot :=
  draft.snapshot fun position => disk.place (disk.dataStart + (start + position))

/-- Items and data of the volume store a draft, the inodes in the order of the draft. -/
structure Stores (disk : Formatted) (encoding : Encoding) (start : Nat) (draft : Draft)
    (items : List (DiskKey × Bytes)) : Prop where
  stored : items.Perm ((disk.snapshot start draft).items encoding)
  ordered : items.filter (fun item => item.1.keyType = inodeItemKey) =
    (disk.snapshot start draft).objects.map (Object.inodeItem encoding)
  data : Holds disk.data start draft.data

theorem backed_piece {fragment : Fragment} {offset : Nat}
    (found : Holds disk.data offset fragment.data)
    (readable : fragment.Readable crates disk.length) (filled : fragment.bytes ≠ []) :
    (fragment.piece (disk.place (disk.dataStart + offset))).Backed crates (disk.image crates)
      disk.map 4096 := by
  have length := disk.length_image crates
  have roomy := disk.roomy
  have covered := disk.covered
  have inside := found.le
  have placed : Holds (disk.image crates) (disk.physical.toNat + disk.dataStart + offset)
      fragment.data :=
    (disk.holds_chunk crates).2.within found
  have translated (some : fragment.data ≠ []) :
      ∃ phys, disk.map.logicalToPhysical (disk.place (disk.dataStart + offset)) =
          Option.some (1, phys) ∧
        phys.toNat = disk.physical.toNat + disk.dataStart + offset := by
    have long := List.length_pos_iff.mpr some
    rw [Nat.add_assoc]
    apply disk.logicalToPhysical_place
    rw [dataStart]
    omega
  have nonzero : disk.place (disk.dataStart + offset) ≠ 0 := by
    intro zero
    have position := disk.toNat_place (show disk.dataStart + offset ≤ disk.span.toNat by
      rw [dataStart]
      omega)
    rw [zero, dataStart, Nat.mul_add] at position
    change 0 = _ at position
    omega
  cases fragment with
  | inline bytes => trivial
  | inlineCoded codec payload bytes => exact readable
  | hole size =>
      rw [Fragment.piece, Piece.Backed, length]
      exact readable
  | stored bytes =>
      rcases translated filled with ⟨phys, target, position⟩
      refine ⟨nonzero, 1, phys, target, ?_⟩
      rw [position]
      exact placed
  | coded codec payload bytes =>
      rcases readable with ⟨present, short, decodes⟩
      rcases translated present with ⟨phys, target, position⟩
      have front := holds_iff.mp placed
      have rest : (disk.image crates).drop phys.toNat = payload ++
          ((disk.image crates).drop phys.toNat).drop payload.length := by
        conv_lhs => rw [← List.take_append_drop payload.length
          ((disk.image crates).drop phys.toNat)]
        rw [position]
        exact congrArg (· ++ _) front.2
      refine ⟨nonzero, by rwa [length], bytes, ?_, holds_of_eq rfl⟩
      have reached : phys.toNat ≤ (disk.image crates).length := by
        rw [position]
        omega
      rw [decodedStream, target]
      simp only [if_pos reached]
      rw [rest, decodes]
      rfl

theorem backed_snapshot (stored : Holds disk.data start draft.data)
    (readable : draft.Readable crates disk.length) :
    (disk.snapshot start draft).Backed crates (disk.mount crates).image (disk.mount crates).map
      (disk.mount crates).sb.sectorsize := by
  have sectorsize : (disk.mount crates).sb.sectorsize = 4096 :=
    (disk.describes_sb crates).2.2.2.1
  rw [sectorsize]
  intro object member
  rcases DraftObject.exists_of_mem_lay member with ⟨before, own, after, split, equal⟩
  have among : own ∈ draft.objects := by
    rw [split]
    exact List.mem_append_right _ List.mem_cons_self
  constructor
  · have size := (readable own among).1
    rw [← disk.length_image crates] at size
    rw [equal]
    exact size
  · intro piece pieceMember
    rcases DraftObject.exists_of_mem_pieces member pieceMember with
      ⟨other, otherAmong, fragment, fragmentAmong, offset, rfl, found⟩
    rw [Nat.zero_add]
    exact backed_piece (stored.within found) ((readable other otherAmong).2 fragment fragmentAmong)
      (other.filled fragment fragmentAmong)

theorem length_mount_lt : (disk.mount crates).image.length < usizeMax := by
  have short := disk.short
  rwa [← disk.length_image crates] at short

/-- A formatted volume opens as a mount of the filesystem it was formatted with. -/
theorem mounts_of_stores (stores : disk.Stores encoding start draft disk.current)
    (readable : draft.Readable crates disk.length) :
    Mounts crates (disk.image crates) (disk.mount crates) encoding (disk.snapshot start draft) where
  opened := disk.ofImage_image crates
  stored := by rw [leafItems_mount]; exact stores.stored
  bounded := length_mount_lt
  backed := backed_snapshot stores.data readable

end Formatted

/-! ## A volume of two files -/

namespace Sample

def inode (ino size : UInt64) (mode : UInt32) : Inode where
  objectid := ino
  generation := 9
  transid := 9
  size := size
  nbytes := size
  nlink := 1
  uid := 1000
  gid := 1000
  mode := mode
  flags := 0
  atime := ⟨1700000000, 0⟩
  ctime := ⟨1700000000, 0⟩
  mtime := ⟨1700000000, 0⟩
  otime := ⟨0, 0⟩

/-- `log` holds data, a hole and data again. -/
def logFragments : List Fragment := [.stored [104, 105], .hole 3, .stored [33]]

theorem logFragments_filled : ∀ fragment ∈ logFragments, fragment.bytes ≠ [] := by decide

theorem logFragments_bounded : (logFragments.flatMap Fragment.bytes).length < 2 ^ 64 := by
  decide

def linkFragments : List Fragment := [.inline [108, 111, 103]]

theorem linkFragments_filled : ∀ fragment ∈ linkFragments, fragment.bytes ≠ [] := by decide

theorem linkFragments_bounded : (linkFragments.flatMap Fragment.bytes).length < 2 ^ 64 := by
  decide

def rootObject : DraftObject := ⟨inode 256 0 0o40755, [], by simp, by simp⟩

def objects : List DraftObject :=
  [rootObject, ⟨inode 257 6 0o100644, logFragments, logFragments_filled, logFragments_bounded⟩,
    ⟨inode 258 3 0o120777, linkFragments, linkFragments_filled, linkFragments_bounded⟩]

theorem log_present : nameBytes "log" ≠ [] := by decide +kernel

theorem log_fits : (nameBytes "log").length < 2 ^ 16 := by decide +kernel

theorem link_present : nameBytes "link" ≠ [] := by decide +kernel

theorem link_fits : (nameBytes "link").length < 2 ^ 16 := by decide +kernel

def dentries : List Dentry :=
  [⟨256, 2, ⟨"log", log_present, log_fits⟩, 257, 1⟩,
    ⟨256, 3, ⟨"link", link_present, link_fits⟩, 258, 7⟩]

theorem dots_present : nameBytes ".." ≠ [] := by decide +kernel

theorem dots_fits : (nameBytes "..").length < 2 ^ 16 := by decide +kernel

def rootBackref : Backref := ⟨256, 256, 0, ⟨"..", dots_present, dots_fits⟩⟩

theorem value_fits : ([1, 2, 3] : Bytes).length < 2 ^ 16 := by decide

theorem numbered : (objects.map fun draft => draft.inode.objectid).Nodup := by decide

theorem named : (dentries.map fun dentry => (dentry.dir, dentry.name.text)).Nodup := by decide

def draft : Draft where
  objects := objects
  dentries := dentries
  backrefs := rootBackref :: dentries.map Dentry.backref
  attributes := [⟨257, ⟨"log", log_present, log_fits⟩, [1, 2, 3], value_fits⟩]
  orphans := [300]
  numbered := numbered
  named := named

/-- A second name of `log`, in an item of a type that is not read. -/
def others : List (DiskKey × Bytes) := [(⟨257, 13, 5⟩, [0, 1, 0, 0])]

theorem unread : ∀ item ∈ others, item.1.keyType ∉ readKeyTypes := by decide

/-- All names are of one hash. -/
def encoding : Encoding where
  hash := fun _ => 7
  inode := fun ino =>
    ⟨.replicate 8 0, .replicate 8 0, .replicate 8 (UInt8.ofNat ino.toNat), .replicate 32 0⟩
  extent := fun _ position =>
    ⟨.replicate 8 9, .replicate 3 0, .replicate 8 16, UInt64.ofNat (4096 + position), 0, 0⟩
  itemTransid := fun dentry => dentry.index
  indexTransid := fun _ => 9
  xattr := fun _ => ⟨⟨0, 0, 0⟩, 9, 8⟩
  others := others
  unread := unread

/-- The items of the volume, whose data begins behind three nodes. -/
def items : List (DiskKey × Bytes) :=
  (draft.snapshot fun position => UInt64.ofNat
    ((0x100000 : UInt64).toNat + ((4096 : UInt32).toNat * (2 * 0 + 3) +
      (0 + position)))).items encoding

theorem items_fit : btrfsHeaderSize + Writer.itemsSize items ≤ (4096 : UInt32).toNat := by
  decide +kernel

theorem bounded : (0x100000 : UInt64).toNat + (0x200000 : UInt64).toNat < 2 ^ 64 := by decide

theorem covered : (4096 : UInt32).toNat * (2 * 0 + 3) + draft.data.length ≤
    (0x200000 : UInt64).toNat := by
  decide +kernel

theorem fits : (0x12000 : UInt64).toNat +
    ((4096 : UInt32).toNat * (2 * 0 + 3) + draft.data.length) ≤ 0x20000 := by
  decide +kernel

theorem short : 0x20000 < usizeMax := by decide

theorem behind : 69632 ≤ (0x12000 : UInt64).toNat := by decide

theorem roomy : 365 ≤ (4096 : UInt32).toNat := by decide

def disk : Formatted where
  logical := 0x100000
  physical := 0x12000
  span := 0x200000
  nodesize := 4096
  fsid := List.Vector.replicate 16 7
  generation := 9
  backups := []
  current := items
  older := []
  data := draft.data
  length := 0x20000
  behind := behind
  bounded := bounded
  roomy := roomy
  currentFits := items_fit
  olderFits := fun _ member => absurd member List.not_mem_nil
  covered := covered
  fits := fits
  short := short

theorem stores : disk.Stores encoding 0 draft disk.current where
  stored := .refl _
  ordered := filter_inode_items
  data := holds_of_eq rfl

theorem readable : draft.Readable Crates.withoutCodecs disk.length := by
  intro object member
  replace member : object ∈ objects := member
  simp only [objects, List.mem_cons, List.not_mem_nil, or_false] at member
  rcases member with rfl | rfl | rfl
  · exact ⟨by decide, fun _ among => absurd among List.not_mem_nil⟩
  · refine ⟨by decide, fun fragment among => ?_⟩
    replace among : fragment ∈ logFragments := among
    simp only [logFragments, List.mem_cons, List.not_mem_nil, or_false] at among
    rcases among with rfl | rfl | rfl
    · trivial
    · exact Nat.le_trans (by decide) (Nat.le_max_right _ _)
    · trivial
  · refine ⟨by decide, fun fragment among => ?_⟩
    rw [List.mem_singleton.mp among]
    trivial

end Sample

theorem mounts_of_stores_in_sample :
    Mounts Crates.withoutCodecs (Sample.disk.image Crates.withoutCodecs)
      (Sample.disk.mount Crates.withoutCodecs) Sample.encoding
      (Sample.disk.snapshot 0 Sample.draft) :=
  Formatted.mounts_of_stores Sample.stores Sample.readable

end BtrfsForensic
