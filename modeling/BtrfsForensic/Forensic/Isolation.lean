import BtrfsForensic.Core.ExtentLocality
import BtrfsForensic.Core.Metadata
import BtrfsForensic.Forensic.Footprint
import BtrfsForensic.Forensic.HistoryRecovery

namespace BtrfsForensic

/-! Images that share their metadata: what the mount and the recovery show of a file
depends on the extents of that file alone. -/

section Extents

variable {crates : Crates} {image other : Bytes} {map : ChunkMap} {sectorsize : UInt32}
  {leaf : Node} {ino : UInt64}

theorem readFileFromLeaf_of_agree (sameLength : image.length = other.length)
    (agree : AgreeOnExtents image other map (extentItems leaf ino)) :
    readFileFromLeaf crates leaf other map sectorsize ino =
      readFileFromLeaf crates leaf image map sectorsize ino := by
  have appended : appendExtents crates image map sectorsize
      (max image.length logicalAllocFloor) (sortByOffset (extentItems leaf ino)) [] =
        appendExtents crates other map sectorsize
          (max image.length logicalAllocFloor) (sortByOffset (extentItems leaf ino)) [] :=
    appendExtents_congr sameLength agree.sorted []
  rw [readFileFromLeaf, readFileFromLeaf, ← sameLength]
  cases inodeSize leaf ino with
  | none => rfl
  | some size => simp only [appended]

end Extents

/-! ## The mount -/

section Mount

variable {crates : Crates} {image other sbBlock : Bytes} {sb : Superblock} {fs : BtrfsFs}

theorem ofImage_onImage (agree : AgreeOnMetadata crates image other)
    (short : image.length < usizeMax) (parses : ParsesSuperblock crates image sbBlock sb)
    (confined : sb.Confined) (opened : BtrfsFs.ofImage crates image = .ok fs) :
    BtrfsFs.ofImage crates other = .ok (fs.onImage other) := by
  rcases BtrfsFs.exists_of_ofImage opened with
    ⟨_, slice, root, found, parsed, walked, located, read, rootDirid⟩
  rcases parse_openSlice_of_confined short parses.block parses.parsed confined with
    ⟨_, again, parsedAgain⟩
  rw [found] at again
  cases again
  rw [parsed] at parsedAgain
  have same : fs.sb = sb := Except.ok.inj parsedAgain
  have map : auditMap crates image fs.sb = fs.map := by rw [auditMap, walked]
  rw [← same] at parses confined
  have otherParses := agree.parsesSuperblock parses
  have otherShort : other.length < usizeMax := by rwa [← agree.sameLength]
  rcases parse_openSlice_of_confined otherShort otherParses.block otherParses.parsed confined with
    ⟨otherSlice, otherFound, otherParsed⟩
  have otherWalked : ChunkMap.walk crates other fs.sb = .ok fs.map := by
    rw [agree.walk_eq parses, walked]
  have otherLocated : fsTreeRoot crates other fs.sb fs.map = .ok root := by
    have equal := agree.fsTreeRoot_eq parses
    rwa [map, located] at equal
  have otherRead : readNode crates other fs.sb fs.map root.bytenr = .ok fs.leaf := by
    have scanned : root.bytenr ∈ orphanRoots crates image fs.sb (auditMap crates image fs.sb) := by
      rw [mem_orphanRoots_iff parses.block, map]
      exact .inl ⟨root, located, rfl⟩
    have equal := agree.readNode_eq parses (.tail _ (.tail _ (List.mem_append_right _ scanned)))
    rwa [map, read] at equal
  rw [BtrfsFs.ofImage_eq_ok otherFound otherParsed otherWalked otherLocated otherRead,
    ← rootDirid]
  rfl

theorem readFile_onImage (opened : BtrfsFs.ofImage crates image = .ok fs)
    (openedOver : BtrfsFs.ofImage crates other = .ok (fs.onImage other))
    (sameLength : image.length = other.length) {ino : UInt64}
    (agree : AgreeOnExtents image other fs.map (extentItems fs.leaf ino)) :
    readFile crates (fs.onImage other).image (fs.onImage other).sb (fs.onImage other).map ino =
      readFile crates fs.image fs.sb fs.map ino := by
  rw [readFile_of_opened openedOver, readFile_of_opened opened,
    (BtrfsFs.exists_of_ofImage opened).1]
  exact readFileFromLeaf_of_agree sameLength agree

/-- An image that differs from an opened one outside the metadata opens as the same trees,
and a file reads alike wherever the images agree on its extents. -/
theorem mount_isolated (agree : AgreeOnMetadata crates image other)
    (short : image.length < usizeMax) (parses : ParsesSuperblock crates image sbBlock sb)
    (confined : sb.Confined) (opened : BtrfsFs.ofImage crates image = .ok fs) :
    BtrfsFs.ofImage crates other = .ok (fs.onImage other) ∧
      ∀ ino, AgreeOnExtents image other fs.map (extentItems fs.leaf ino) →
        (∀ stream off buf, (fs.onImage other).readAt crates (.objectid ino) stream off buf =
          fs.readAt crates (.objectid ino) stream off buf) ∧
        (∀ cap, (fs.onImage other).readLink crates (.objectid ino) cap =
          fs.readLink crates (.objectid ino) cap) ∧
        ∀ path inode, readByPath fs.leaf path = some (ino, inode) →
          readByPathContent crates other fs.sb fs.map path =
            readByPathContent crates image fs.sb fs.map path := by
  have openedOver := ofImage_onImage agree short parses confined opened
  refine ⟨openedOver, fun ino extents => ?_⟩
  have file := readFile_onImage opened openedOver agree.sameLength extents
  refine ⟨fun stream off buf => ?_, fun cap => ?_, fun path inode found => ?_⟩
  · simp only [BtrfsFs.readAt, oidOf, bind, Except.bind, file]
    rfl
  · simp only [BtrfsFs.readLink, oidOf, bind, Except.bind, file]
    rfl
  · have leaf := fsTreeLeaf_of_opened opened
    rw [(BtrfsFs.exists_of_ofImage opened).1] at leaf
    have leafOver : fsTreeLeaf crates other fs.sb fs.map = .ok fs.leaf :=
      fsTreeLeaf_of_opened openedOver
    rw [readByPathContent, readByPathContent, leaf, leafOver]
    simp only [bind, Except.bind, found]
    exact readFileFromLeaf_of_agree agree.sameLength extents

end Mount

theorem Sample.agreeOnExtents_spoiled {position : Nat} {extents : List (UInt64 × Bytes)}
    {windows : List (Option (Nat × Nat))}
    (listed : extents.map (fun extent =>
      extentWindow (history.mount Crates.withoutCodecs).map 0x20000 extent.2) = windows)
    (outside : ∀ window, some window ∈ windows → position < window.1 ∨ window.2 ≤ position) :
    AgreeOnExtents (history.image Crates.withoutCodecs) (spoiled position)
      (history.mount Crates.withoutCodecs).map extents := by
  intro extent member window found
  apply agreeOn_spoiled
  apply outside
  rw [Formatted.length_image] at found
  rw [← listed, ← found]
  exact List.mem_map_of_mem member

/-- The byte behind the data of `log` was overwritten. -/
theorem Sample.agreeOnExtents_log :
    AgreeOnExtents (history.image Crates.withoutCodecs) (spoiled 0x17003)
      (history.mount Crates.withoutCodecs).map
      (extentItems (history.mount Crates.withoutCodecs).leaf 257) := by
  have items : extentItems (history.mount Crates.withoutCodecs).leaf 257 =
      (historyItems.filter fun item =>
        item.1.objectid = 257 ∧ item.1.keyType = extentDataKey).map
          fun item => (item.1.offset, item.2) := by
    rw [extentItems, Formatted.leafItems_mount]
    rfl
  have windows : ((historyItems.filter fun item =>
      item.1.objectid = 257 ∧ item.1.keyType = extentDataKey).map
        fun item => (item.1.offset, item.2)).map (fun extent =>
          extentWindow (history.mount Crates.withoutCodecs).map 0x20000 extent.2) =
            [some (0x17000, 0x17002), none, some (0x17002, 0x17003)] := by
    decide +kernel
  rw [items]
  exact agreeOnExtents_spoiled windows (by simp)

theorem mount_isolated_in_spoiled :
    BtrfsFs.ofImage Crates.withoutCodecs (Sample.spoiled 0x17003) =
        .ok ((Sample.history.mount Crates.withoutCodecs).onImage (Sample.spoiled 0x17003)) ∧
      ∀ stream off buf,
        ((Sample.history.mount Crates.withoutCodecs).onImage (Sample.spoiled 0x17003)).readAt
            Crates.withoutCodecs (.objectid 257) stream off buf =
          (Sample.history.mount Crates.withoutCodecs).readAt Crates.withoutCodecs
            (.objectid 257) stream off buf := by
  have short : (Sample.history.image Crates.withoutCodecs).length < usizeMax := by
    rw [Formatted.length_image]
    exact Sample.short
  have behind : 0x17000 ≤ 0x17003 := by decide
  have isolated := mount_isolated (Sample.agreeOnMetadata_spoiled behind) short
    (Sample.history.parsesSuperblock Crates.withoutCodecs)
    (Sample.history.confined_sb Crates.withoutCodecs)
    (Sample.history.ofImage_image Crates.withoutCodecs)
  exact ⟨isolated.1, (isolated.2 257 Sample.agreeOnExtents_log).1⟩

/-! ## The recovery -/

/-- Records of one file, as one tree describes it. -/
structure RecoveredFile.SameFile (record other : RecoveredFile) : Prop where
  path : other.path = record.path
  inode : other.inode = record.inode
  generation : other.generation = record.generation
  size : other.size = record.size

section Recovery

variable {crates : Crates} {image other sbBlock : Bytes} {sb : Superblock}
  {currentRoot : FsTreeRoot} {current : Node}

theorem RecoverySetup.unique {otherBlock : Bytes} {otherSb : Superblock}
    {otherRoot : FsTreeRoot} {otherCurrent : Node}
    (setup : RecoverySetup crates image sbBlock sb currentRoot current)
    (again : RecoverySetup crates image otherBlock otherSb otherRoot otherCurrent) :
    sbBlock = otherBlock ∧ sb = otherSb ∧ currentRoot = otherRoot ∧ current = otherCurrent := by
  rcases setup.parses.unique again.parses with ⟨rfl, rfl⟩
  cases setup.located.symm.trans again.located
  cases setup.read.symm.trans again.read
  exact ⟨rfl, rfl, rfl, rfl⟩

theorem RecoverySetup.onImage_iff (agree : AgreeOnMetadata crates image other) :
    RecoverySetup crates other sbBlock sb currentRoot current ↔
      RecoverySetup crates image sbBlock sb currentRoot current := by
  have parses : ParsesSuperblock crates other sbBlock sb ↔
      ParsesSuperblock crates image sbBlock sb :=
    ⟨fun known => ⟨agree.superblockBlock_eq.symm.trans known.block, known.parsed⟩,
      agree.parsesSuperblock⟩
  have scanned (known : ParsesSuperblock crates image sbBlock sb)
      (located : fsTreeRoot crates image sb (auditMap crates image sb) = .ok currentRoot) :
      currentRoot.bytenr ∈ auditedAddresses crates image sb := by
    apply List.mem_cons_of_mem
    apply List.mem_cons_of_mem
    apply List.mem_append_right
    rw [mem_orphanRoots_iff known.block]
    exact .inl ⟨currentRoot, located, rfl⟩
  constructor
  · intro setup
    have known := parses.mp setup.parses
    have located := setup.located
    have read := setup.read
    rw [agree.auditMap_eq known, agree.fsTreeRoot_eq known] at located
    rw [agree.auditMap_eq known, agree.readNode_eq known (scanned known located)] at read
    exact ⟨known, located, read⟩
  · intro setup
    have known := setup.parses
    refine ⟨parses.mpr known, ?_, ?_⟩
    · rw [agree.auditMap_eq known, agree.fsTreeRoot_eq known]
      exact setup.located
    · rw [agree.auditMap_eq known, agree.readNode_eq known (scanned known setup.located)]
      exact setup.read

theorem backupNodes_onImage (setup : RecoverySetup crates image sbBlock sb currentRoot current)
    (agree : AgreeOnMetadata crates image other) :
    backupNodes crates other sbBlock sb currentRoot =
      backupNodes crates image sbBlock sb currentRoot := by
  rw [backupNodes, backupNodes, agree.auditMap_eq setup.parses, oldNodes_eq_filterMap,
    oldNodes_eq_filterMap]
  apply List.filterMap_congr
  intro slot listed
  rw [slotNode, slotNode]
  by_cases blank : slot.fsRoot = 0
  · rw [if_pos (.inl blank), if_pos (.inl blank)]
  · have scanned : slot.fsRoot ∈ orphanRoots crates image sb (auditMap crates image sb) := by
      rw [mem_orphanRoots_iff setup.parses.block]
      exact .inr ⟨slot, listed, blank, rfl⟩
    rw [agree.readNode_eq setup.parses (.tail _ (.tail _ (List.mem_append_right _ scanned)))]

/-- The same files are recovered from images that share their metadata, and each with the
same content when the images agree on its extents in the older trees. -/
theorem recovery_isolated (agree : AgreeOnMetadata crates image other) :
    List.Forall₂ (fun record again => record.SameFile again ∧
        ((∀ sbBlock sb currentRoot current,
          RecoverySetup crates image sbBlock sb currentRoot current →
            ∀ old ∈ backupNodes crates image sbBlock sb currentRoot,
              AgreeOnExtents image other (auditMap crates image sb)
                (extentItems old record.inode)) → again = record))
      (recoverDeleted crates image) (recoverDeleted crates other) := by
  by_cases known : ∃ sbBlock sb currentRoot current,
      RecoverySetup crates image sbBlock sb currentRoot current
  case neg =>
    -- Nothing is recovered from either image.
    have none (record : RecoveredFile) : record ∉ recoverDeleted crates image := fun member =>
      known (exists_recoverySetup member)
    have noneOther (record : RecoveredFile) : record ∉ recoverDeleted crates other := by
      intro member
      rcases exists_recoverySetup member with ⟨sbBlock, sb, root, current, setup⟩
      exact known ⟨sbBlock, sb, root, current, (RecoverySetup.onImage_iff agree).mp setup⟩
    rw [List.eq_nil_iff_forall_not_mem.mpr none, List.eq_nil_iff_forall_not_mem.mpr noneOther]
    exact .nil
  rcases known with ⟨sbBlock, sb, currentRoot, current, setup⟩
  rw [recoverDeleted_eq setup, recoverDeleted_eq ((RecoverySetup.onImage_iff agree).mpr setup),
    backupNodes_onImage setup agree, agree.auditMap_eq setup.parses]
  refine KeepFirst.rel (fun _ _ related => related.1.inode.symm) ?_ .nil
  have paired : List.Forall₂ (fun old again => again = old ∧
      old ∈ backupNodes crates image sbBlock sb currentRoot)
      (backupNodes crates image sbBlock sb currentRoot)
      (backupNodes crates image sbBlock sb currentRoot) :=
    List.forall₂_same.mpr fun old listed => ⟨rfl, listed⟩
  refine List.rel_flatMap paired fun old again both => ?_
  rcases both with ⟨rfl, listed⟩
  rw [recoverDeletedFromLeaves, recoverDeletedFromLeaves]
  split
  case isTrue => exact .nil
  case isFalse =>
    rw [List.forall₂_map_left_iff, List.forall₂_map_right_iff]
    apply List.forall₂_same.mpr
    intro item _
    refine ⟨⟨rfl, rfl, rfl, rfl⟩, fun extents => ?_⟩
    have own : AgreeOnExtents image other (auditMap crates image sb)
        (extentItems again item.1.objectid) :=
      extents sbBlock sb currentRoot current setup again listed
    have content : carvedContent crates again other (auditMap crates image sb) sb.sectorsize
        item.1.objectid =
        carvedContent crates again image (auditMap crates image sb) sb.sectorsize
          item.1.objectid := by
      rw [carvedContent, carvedContent,
        readFileFromLeaf_of_agree agree.sameLength own]
    rw [carve, carve, content]

end Recovery

/-- The first byte of `log` was overwritten; `notes` is recovered as before. -/
theorem Sample.agreeOnExtents_notes {sbBlock : Bytes} {sb : Superblock} {root : FsTreeRoot}
    {current old : Node}
    (setup : RecoverySetup Crates.withoutCodecs (history.image Crates.withoutCodecs) sbBlock sb
      root current)
    (listed : old ∈ backupNodes Crates.withoutCodecs (history.image Crates.withoutCodecs)
      sbBlock sb root) :
    AgreeOnExtents (history.image Crates.withoutCodecs) (spoiled 0x17000)
      (auditMap Crates.withoutCodecs (history.image Crates.withoutCodecs) sb)
      (extentItems old 259) := by
  rcases setup.unique (history.recoverySetup Crates.withoutCodecs) with ⟨rfl, rfl, rfl, rfl⟩
  rw [keeps.backupNodes_eq] at listed
  rcases List.mem_map.mp listed with ⟨⟨kept, slot⟩, member, rfl⟩
  have found := List.mem_zipIdx_iff_getElem?.mp member
  have only : kept = version := List.mem_singleton.mp (List.mem_of_getElem? found)
  have items := keeps.leafItems_version Crates.withoutCodecs found
  have windows : ((pastItems.filter fun item =>
      item.1.objectid = 259 ∧ item.1.keyType = extentDataKey).map
        fun item => (item.1.offset, item.2)).map (fun extent =>
          extentWindow (history.mount Crates.withoutCodecs).map 0x20000 extent.2) =
            [some (0x17003, 0x17005), none] := by
    decide +kernel
  rw [Formatted.auditMap_image, extentItems, items, only]
  exact agreeOnExtents_spoiled windows (by simp)

theorem recovery_isolated_in_spoiled :
    List.Forall₂ (fun record again => record.SameFile again ∧
        (record.inode = 259 → again = record))
      (recoverDeleted Crates.withoutCodecs (Sample.history.image Crates.withoutCodecs))
      (recoverDeleted Crates.withoutCodecs (Sample.spoiled 0x17000)) := by
  have isolated := recovery_isolated (Sample.agreeOnMetadata_spoiled (Nat.le_refl 0x17000))
  refine isolated.imp fun record again related => ⟨related.1, fun notes => ?_⟩
  apply related.2
  intro sbBlock sb root current setup old listed
  rw [notes]
  exact Sample.agreeOnExtents_notes setup listed

end BtrfsForensic
