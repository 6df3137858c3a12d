import BtrfsForensic.Core.Bootstrap
import BtrfsForensic.Core.ChunkWalk
import BtrfsForensic.Core.Draft

namespace BtrfsForensic

/-! An image that was cut short. Of its chunk tree only a part may be left, but what a part
of the tree translates, the whole tree translates alike. -/

theorem getRange_of_begins {α : Type u} {values cut block : List α} {start stop : Nat}
    (begins : cut <+: values) (found : getRange cut start stop = some block) :
    getRange values start stop = some block := by
  have inside := stop_le_of_getRange found
  rw [List.prefix_iff_eq_take.mp begins, getRange_take inside] at found
  exact found

namespace ChunkMap

/-! ## Translations that agree -/

/-- The chunks fit 64 bits, and all that cover an address put it in one place, the entries
of the `sys_chunk_array` included. -/
structure Coherent (sb : Superblock) (entries : List MapEntry) : Prop where
  bounded : ∀ entry ∈ entries, ¬entry.Overflows
  agree : ∀ entry ∈ entries, ∀ other ∈ entries, ∀ logical, entry.Covers logical →
    other.Covers logical → entry.target logical = other.target logical
  system : ∀ entry ∈ entries, ∀ chunk ∈ sb.sysChunks, ∀ logical, entry.Covers logical →
    (MapEntry.ofSysChunk chunk).Covers logical → ∀ devid phys,
    (MapEntry.ofSysChunk chunk).target logical = some (devid, phys) →
    ∃ own, entry.target logical = some (own, phys)

section Coherent

variable {sb : Superblock} {entries : List MapEntry} {part whole : ChunkMap}
  {logical devid phys : UInt64}

theorem Coherent.target_of_boot (coherent : Coherent sb entries) {entry : MapEntry}
    (member : entry ∈ entries) (covers : entry.Covers logical)
    (mapped : (boot sb).logicalToPhysical logical = some (devid, phys)) :
    ∃ own, entry.target logical = some (own, phys) := by
  rcases exists_entry_of_logicalToPhysical mapped with ⟨other, listed, otherCovers, target⟩
  rcases List.mem_map.mp listed with ⟨chunk, among, rfl⟩
  exact coherent.system entry member chunk among logical covers otherCovers devid phys target

theorem Coherent.target_of_fallback (coherent : Coherent sb entries) {entry : MapEntry}
    (member : entry ∈ entries) (covers : entry.Covers logical)
    (mapped : fallbackPhysical sb.sysChunks logical = some (devid, phys)) :
    ∃ own, entry.target logical = some (own, phys) := by
  rcases List.exists_of_findSome?_eq_some mapped with ⟨chunk, among, answer⟩
  rcases Option.map_eq_some_iff.mp answer with ⟨offset, found, same⟩
  cases same
  rw [SysChunk.logicalToPhysical_eq_ite] at found
  split at found
  · cases found
  · split at found
    case isFalse => cases found
    case isTrue _ chunkCovers =>
      rcases Option.map_eq_some_iff.mp found with ⟨⟨stripe, offset⟩, target, rfl⟩
      exact coherent.system entry member chunk among logical covers chunkCovers stripe offset
        target

/-- A map of coherent chunks answers an address as each of its chunks that covers it. -/
theorem Coherent.logicalToPhysical_eq (coherent : Coherent sb entries)
    (known : whole.entries ⊆ entries) {entry : MapEntry} (member : entry ∈ whole.entries)
    (covers : entry.Covers logical) : whole.logicalToPhysical logical = entry.target logical := by
  have clear : ¬Blinded logical whole.entries := by
    intro blinded
    rcases blinded with ⟨other, among, overflows⟩
    have listed : other ∈ whole.entries := by
      generalize whole.entries = chunks at among
      induction chunks with
      | nil => cases among
      | cons head tail induction =>
          rw [upToCover] at among
          split at among
          · rw [List.mem_singleton.mp among]
            exact List.mem_cons_self
          · rcases List.mem_cons.mp among with rfl | later
            · exact List.mem_cons_self
            · exact List.mem_cons_of_mem _ (induction later)
    exact coherent.bounded other (known listed) overflows
  rw [logicalToPhysical, lookup_eq_translate, if_neg clear, translate]
  cases first : whole.entries.find? fun entry => entry.Covers logical with
  | none =>
      rw [List.find?_eq_none] at first
      exact absurd (decide_eq_true covers) (first entry member)
  | some other =>
      have otherCovers : other.Covers logical := by simpa using List.find?_some first
      rw [Option.bind_some]
      exact coherent.agree other (known (List.mem_of_find?_eq_some first)) entry (known member)
        logical otherCovers covers

theorem Coherent.logicalToPhysical_of_part (coherent : Coherent sb entries)
    (known : whole.entries ⊆ entries) (subset : part.entries ⊆ whole.entries)
    (mapped : part.logicalToPhysical logical = some (devid, phys)) :
    whole.logicalToPhysical logical = some (devid, phys) := by
  rcases exists_entry_of_logicalToPhysical mapped with ⟨entry, member, covers, target⟩
  rw [coherent.logicalToPhysical_eq known (subset member) covers, target]

theorem Coherent.nodePhysical_of_part (coherent : Coherent sb entries)
    (known : whole.entries ⊆ entries) (subset : part.entries ⊆ whole.entries)
    (mapped : nodePhysical sb part logical = some (devid, phys)) :
    ∃ own, nodePhysical sb whole logical = some (own, phys) := by
  rw [nodePhysical_eq] at mapped ⊢
  cases direct : part.logicalToPhysical logical with
  | some target =>
      rw [direct, Option.some_or] at mapped
      cases mapped
      exact ⟨devid, by rw [coherent.logicalToPhysical_of_part known subset direct, Option.some_or]⟩
  | none =>
      rw [direct, Option.none_or] at mapped
      by_cases covered : ∃ entry ∈ whole.entries, entry.Covers logical
      · rcases covered with ⟨entry, member, covers⟩
        rcases coherent.target_of_fallback (known member) covers mapped with ⟨own, target⟩
        refine ⟨own, ?_⟩
        rw [coherent.logicalToPhysical_eq known member covers, target, Option.some_or]
      · refine ⟨devid, ?_⟩
        cases direct : whole.logicalToPhysical logical with
        | none => rw [Option.none_or, mapped]
        | some target =>
            rcases exists_entry_of_logicalToPhysical direct with ⟨entry, member, covers, _⟩
            exact absurd ⟨entry, member, covers⟩ covered

end Coherent

/-! ## The walk of what is left -/

section Walk

variable {crates : Crates} {image cut : Bytes} {boot map part : ChunkMap} {nodesize budget : Nat}
  {entries : List MapEntry} {addresses : List UInt64}

/-- The walk of a cut image reads the nodes that are left of a forest and passes the others
over, so it ends with chunk items of the forest. -/
theorem walkLoop_cut (begins : cut <+: image) (agrees : AgreesWithBoot boot entries addresses)
    {forest : List (Rose UInt64)} {bootstrappedRoot : Bool}
    (trees : ∀ tree ∈ forest, IsChunkTree crates image boot nodesize tree)
    (known : map.entries ⊆ entries)
    (items : (Rose.forestValues forest).flatMap (entriesAt crates image boot nodesize) ⊆ entries)
    (inside : Rose.forestValues forest ⊆ addresses)
    (walked : walkLoop crates cut boot nodesize budget (forest.map Rose.root) map
      bootstrappedRoot = .ok part) : part.entries ⊆ entries := by
  induction budget generalizing forest map bootstrappedRoot with
  | zero =>
      cases forest with
      | nil => cases walked; exact known
      | cons tree forest => cases walked; exact known
  | succ budget induction =>
      cases forest with
      | nil => cases walked; exact known
      | cons tree forest =>
          cases trees tree List.mem_cons_self with
          | @node logical children own below =>
              rcases own with ⟨node, read, pointers⟩
              have pop : (logical :: Rose.forestValues (children.reverse ++ forest)).Perm
                  (Rose.forestValues (.node logical children :: forest)) :=
                Rose.forestValues_pop logical children
              have itemsPop := pop.flatMap_right (entriesAt crates image boot nodesize)
              rw [List.flatMap_cons] at itemsPop
              rcases bootNode_eq_some_iff.mp read with
                ⟨devid, phys, block, mapped, found, long, rfl⟩
              rcases target_of_agrees agrees known (inside (pop.subset List.mem_cons_self))
                mapped with ⟨walkDevid, target⟩
              rw [List.map_cons, Rose.root] at walked
              cases left : getRange cut phys.toNat (saturatingAdd phys.toNat nodesize) with
              | none =>
                  -- The subtree is skipped, unless it is the root that is gone.
                  rw [walkLoop, target] at walked
                  simp only [left] at walked
                  split at walked
                  · cases walked
                  · have rest : Rose.forestValues forest ⊆
                        Rose.forestValues (.node logical children :: forest) := by
                      rw [Rose.forestValues]
                      exact List.subset_append_right _ _
                    apply induction _ known _ _ walked
                    · exact fun tree member => trees tree (List.mem_cons_of_mem _ member)
                    · intro entry member
                      rcases List.mem_flatMap.mp member with ⟨address, among, listed⟩
                      exact items (List.mem_flatMap.mpr ⟨address, rest among, listed⟩)
                    · exact fun address member => inside (rest member)
              | some again =>
                  have same := getRange_of_begins begins left
                  rw [found] at same
                  cases same
                  rw [walkLoop_step target left long, pointers, ← List.map_reverse,
                    ← List.map_append] at walked
                  apply induction _ _ _ _ walked
                  · intro tree member
                    rcases List.mem_append.mp member with child | rest
                    · exact below tree (List.mem_reverse.mp child)
                    · exact trees tree (List.mem_cons_of_mem _ rest)
                  · rw [addFromNode_entries read]
                    exact List.append_subset.mpr ⟨known, fun entry member =>
                      items (itemsPop.subset (List.mem_append_left _ member))⟩
                  · exact fun entry member =>
                      items (itemsPop.subset (List.mem_append_right _ member))
                  · exact fun address member =>
                      inside (pop.subset (List.mem_cons_of_mem _ member))

end Walk

/-- A chunk tree that the walk's budget pays for and whose chunks are coherent. -/
structure CoherentTree (crates : Crates) (image : Bytes) (sb : Superblock)
    (tree : Rose UInt64) : Prop where
  root : tree.root = sb.chunkRoot
  isTree : IsChunkTree crates image (boot sb) sb.nodesize.toNat tree
  few : tree.values.length ≤ 4096
  coherent : Coherent sb (tree.values.flatMap
    (entriesAt crates image (boot sb) sb.nodesize.toNat))

namespace CoherentTree

variable {crates : Crates} {image cut : Bytes} {sb : Superblock} {tree : Rose UInt64}
  {part : ChunkMap}

theorem agreesWithBoot (coherentTree : CoherentTree crates image sb tree) :
    AgreesWithBoot (boot sb) (tree.values.flatMap
      (entriesAt crates image (boot sb) sb.nodesize.toNat)) tree.values := by
  intro entry member address inside covers devid phys target
  rcases coherentTree.isTree.exists_of_mem inside with ⟨children, node, read, _⟩
  rcases bootNode_eq_some_iff.mp read with ⟨bootDevid, bootPhys, _, mapped, _⟩
  rcases coherentTree.coherent.target_of_boot member covers mapped with ⟨own, again⟩
  rw [target] at again
  cases again
  exact ⟨bootDevid, mapped⟩

theorem walk_cut (coherentTree : CoherentTree crates image sb tree) (begins : cut <+: image)
    (walked : walk crates cut sb = .ok part) :
    ∃ whole, walk crates image sb = .ok whole ∧
      whole.entries ⊆ tree.values.flatMap
        (entriesAt crates image (boot sb) sb.nodesize.toNat) ∧
      part.entries ⊆ whole.entries := by
  have trees : ∀ member ∈ [tree], IsChunkTree crates image (boot sb) sb.nodesize.toNat member := by
    simpa using coherentTree.isTree
  have items : (Rose.forestValues [tree]).flatMap
      (entriesAt crates image (boot sb) sb.nodesize.toNat) ⊆
        tree.values.flatMap (entriesAt crates image (boot sb) sb.nodesize.toNat) := by
    rw [Rose.forestValues_singleton]
    exact List.Subset.refl _
  have inside : Rose.forestValues [tree] ⊆ tree.values := by
    rw [Rose.forestValues_singleton]
    exact List.Subset.refl _
  have enough : (Rose.forestValues [tree]).length ≤ 4096 := by
    rw [Rose.forestValues_singleton]
    exact coherentTree.few
  have singleton : [tree].map Rose.root = [sb.chunkRoot] := by
    rw [List.map_singleton, coherentTree.root]
  rcases walkLoop_forest coherentTree.agreesWithBoot trees
    (List.nil_subset _) items inside enough with ⟨whole, wholeWalked, entries⟩
  rw [singleton] at wholeWalked
  rw [Rose.forestValues_singleton] at entries
  refine ⟨whole, wholeWalked, entries.subset, ?_⟩
  rw [walk, ← singleton] at walked
  have found := walkLoop_cut begins coherentTree.agreesWithBoot trees (List.nil_subset _) items
    inside walked
  exact fun entry member => entries.symm.subset (found member)

end CoherentTree

end ChunkMap

/-! ## What is left of a file -/

/-- An extent that is not handed to a decoder with the rest of the image. -/
def Steady (data : Bytes) : Prop :=
  u8At data ExtOff.type = extentTypeInline ∨ leU64 data ExtOff.diskBytenr = 0 ∨
    Compression.fromByte (u8At data ExtOff.compression) = .none

section Reading

variable {crates : Crates} {image cut : Bytes} {sb : Superblock} {part whole : ChunkMap}
  {sectorsize : UInt32} {entries : List MapEntry}

theorem readNode_of_cut (coherent : ChunkMap.Coherent sb entries)
    (known : whole.entries ⊆ entries) (subset : part.entries ⊆ whole.entries)
    (begins : cut <+: image) {logical : UInt64} {node : Node}
    (read : readNode crates cut sb part logical = .ok node) :
    readNode crates image sb whole logical = .ok node := by
  rcases readNode_eq_ok_iff.mp read with ⟨devid, phys, block, mapped, found, long, same⟩
  rcases coherent.nodePhysical_of_part known subset mapped with ⟨own, target⟩
  exact readNode_eq_ok_iff.mpr
    ⟨own, phys, block, target, getRange_of_begins begins found, long, same⟩

theorem fsTreeRoot_of_cut (coherent : ChunkMap.Coherent sb entries)
    (known : whole.entries ⊆ entries) (subset : part.entries ⊆ whole.entries)
    (begins : cut <+: image) {root : FsTreeRoot}
    (located : fsTreeRoot crates cut sb part = .ok root) :
    fsTreeRoot crates image sb whole = .ok root := by
  rw [fsTreeRoot, bind_eq_ok_iff] at located ⊢
  rcases located with ⟨node, read, found⟩
  exact ⟨node, readNode_of_cut coherent known subset begins read, found⟩

theorem extentContent_of_cut (coherent : ChunkMap.Coherent sb entries)
    (known : whole.entries ⊆ entries) (subset : part.entries ⊆ whole.entries)
    (begins : cut <+: image) {bound larger : Nat} (grows : bound ≤ larger)
    {data content : Bytes} (steady : Steady data)
    (read : extentContent crates cut part sectorsize bound data = .ok content) :
    extentContent crates image whole sectorsize larger data = .ok content := by
  rw [extentContent] at read ⊢
  dsimp only at read ⊢
  split at read
  case isTrue inline => rwa [if_pos inline]
  case isFalse onDisk =>
    rw [if_neg onDisk]
    split at read
    case isFalse => cases read
    case isTrue regular =>
      rw [if_pos regular]
      split at read
      case isTrue hole =>
        rw [guardAlloc_bind_eq_ok_iff] at read
        rw [if_pos hole, guardAlloc_bind_eq_ok_iff]
        exact ⟨read.1.trans grows, read.2⟩
      case isFalse present =>
        have plain : Compression.fromByte (u8At data ExtOff.compression) = .none :=
          (steady.resolve_left onDisk).resolve_left present
        rw [plain, readRegularExtent_none_eq_ok_iff] at read
        rw [if_neg present, plain, readRegularExtent_none_eq_ok_iff]
        rcases read with ⟨small, devid, phys, mapped, found⟩
        exact ⟨small.trans begins.length_le, devid, phys,
          coherent.logicalToPhysical_of_part known subset mapped,
          getRange_of_begins begins found⟩

theorem appendExtents_of_cut (coherent : ChunkMap.Coherent sb entries)
    (known : whole.entries ⊆ entries) (subset : part.entries ⊆ whole.entries)
    (begins : cut <+: image) {bound larger : Nat} (grows : bound ≤ larger)
    {extents : List (UInt64 × Bytes)} (steady : ∀ extent ∈ extents, Steady extent.2)
    {out content : Bytes}
    (appended : appendExtents crates cut part sectorsize bound extents out = .ok content) :
    appendExtents crates image whole sectorsize larger extents out = .ok content := by
  induction extents generalizing out with
  | nil => exact appended
  | cons extent extents induction =>
      rw [appendExtents, bind_eq_ok_iff] at appended ⊢
      rcases appended with ⟨bytes, read, rest⟩
      exact ⟨bytes, extentContent_of_cut coherent known subset begins grows
          (steady extent List.mem_cons_self) read,
        induction (fun other member => steady other (List.mem_cons_of_mem _ member)) rest⟩

theorem readFileFromLeaf_of_cut (coherent : ChunkMap.Coherent sb entries)
    (known : whole.entries ⊆ entries) (subset : part.entries ⊆ whole.entries)
    (begins : cut <+: image) {leaf : Node} {ino : UInt64}
    (steady : ∀ extent ∈ extentItems leaf ino, Steady extent.2) {content : Bytes}
    (read : readFileFromLeaf crates leaf cut part sectorsize ino = .ok content) :
    readFileFromLeaf crates leaf image whole sectorsize ino = .ok content := by
  have grows : max cut.length logicalAllocFloor ≤ max image.length logicalAllocFloor :=
    max_le_max_right _ begins.length_le
  have sorted : ∀ extent ∈ sortByOffset (extentItems leaf ino), Steady extent.2 :=
    fun extent member => steady extent ((List.perm_insertionSort _ _).mem_iff.mp member)
  rw [readFileFromLeaf_eq_ok_iff] at read ⊢
  rcases read with ⟨size, out, sized, small, appended, fitted⟩
  exact ⟨size, out, sized, small.trans grows,
    appendExtents_of_cut coherent known subset begins grows sorted appended, fitted⟩

end Reading

/-! ## The mount of what is left -/

section Mount

variable {crates : Crates} {image cut sbBlock : Bytes} {sb : Superblock} {tree : Rose UInt64}
  {fs : BtrfsFs}

theorem ofImage_of_cut (coherentTree : ChunkMap.CoherentTree crates image fs.sb tree)
    (begins : cut <+: image) (short : image.length < usizeMax)
    (block : getRange cut btrfsSuperInfoOffset.toNat
      (saturatingAdd btrfsSuperInfoOffset.toNat btrfsSuperInfoSize) = some sbBlock)
    (parsed : Superblock.parse crates sbBlock = .ok sb) (confined : sb.Confined)
    (opened : BtrfsFs.ofImage crates cut = .ok fs) :
    ∃ whole, BtrfsFs.ofImage crates image = .ok { fs with image := image, map := whole } ∧
      whole.entries ⊆ tree.values.flatMap (ChunkMap.entriesAt crates image
        (ChunkMap.boot fs.sb) fs.sb.nodesize.toNat) ∧
      fs.map.entries ⊆ whole.entries := by
  rcases BtrfsFs.exists_of_ofImage opened with
    ⟨_, slice, root, found, sliceParsed, walked, located, read, rootDirid⟩
  have cutShort : cut.length < usizeMax := begins.length_le.trans_lt short
  rcases parse_openSlice_of_confined cutShort block parsed confined with
    ⟨_, again, parsedAgain⟩
  rw [found] at again
  cases again
  rw [sliceParsed] at parsedAgain
  have same : fs.sb = sb := Except.ok.inj parsedAgain
  rw [← same] at parsed confined
  rcases parse_openSlice_of_confined short (getRange_of_begins begins block) parsed confined
    with ⟨wholeSlice, wholeFound, wholeParsed⟩
  rcases coherentTree.walk_cut begins walked with ⟨whole, wholeWalked, known, subset⟩
  have wholeLocated :=
    fsTreeRoot_of_cut coherentTree.coherent known subset begins located
  have wholeRead := readNode_of_cut coherentTree.coherent known subset begins read
  refine ⟨whole, ?_, known, subset⟩
  rw [BtrfsFs.ofImage_eq_ok wholeFound wholeParsed wholeWalked wholeLocated wholeRead,
    ← rootDirid]

/-- Whatever an image that was cut short still opens as and still yields, the whole image
opens as and yields too. -/
theorem cut_sound (coherentTree : ChunkMap.CoherentTree crates image fs.sb tree)
    (begins : cut <+: image) (short : image.length < usizeMax)
    (block : getRange cut btrfsSuperInfoOffset.toNat
      (saturatingAdd btrfsSuperInfoOffset.toNat btrfsSuperInfoSize) = some sbBlock)
    (parsed : Superblock.parse crates sbBlock = .ok sb) (confined : sb.Confined)
    (opened : BtrfsFs.ofImage crates cut = .ok fs) :
    ∃ intact, BtrfsFs.ofImage crates image = .ok intact ∧ intact.leaf = fs.leaf ∧
      intact.rootDirid = fs.rootDirid ∧
      ∀ ino, (∀ extent ∈ extentItems fs.leaf ino, Steady extent.2) →
        (∀ stream off buf answer,
          fs.readAt crates (.objectid ino) stream off buf = .ok answer →
          intact.readAt crates (.objectid ino) stream off buf = .ok answer) ∧
        ∀ cap target, fs.readLink crates (.objectid ino) cap = .ok target →
          intact.readLink crates (.objectid ino) cap = .ok target := by
  rcases ofImage_of_cut coherentTree begins short block parsed confined opened with
    ⟨whole, openedWhole, known, subset⟩
  refine ⟨_, openedWhole, rfl, rfl, fun ino steady => ?_⟩
  have file {content : Bytes} (read : readFile crates fs.image fs.sb fs.map ino = .ok content) :
      readFile crates image fs.sb whole ino = .ok content := by
    rw [readFile_of_opened opened, (BtrfsFs.exists_of_ofImage opened).1] at read
    have intact : readFile crates image fs.sb whole ino =
        readFileFromLeaf crates fs.leaf image whole fs.sb.sectorsize ino :=
      readFile_of_opened openedWhole
    rw [intact]
    exact readFileFromLeaf_of_cut coherentTree.coherent known subset begins steady read
  constructor
  · intro stream off buf answer read
    cases stream with
    | xattr index => exact read
    | other scheme =>
        simp only [BtrfsFs.readAt, oidOf, requireDefaultStream, bind, Except.bind] at read
        cases read
    | default =>
        simp only [BtrfsFs.readAt, oidOf, requireDefaultStream, bind, Except.bind] at read ⊢
        cases found : readFile crates fs.image fs.sb fs.map ino with
        | error error =>
            rw [found] at read
            cases read
        | ok content =>
            rw [found] at read
            rw [file found]
            exact read
  · intro cap target read
    simp only [BtrfsFs.readLink, oidOf, bind, Except.bind] at read ⊢
    split at read
    case h_1 => exact read
    case h_2 inode found =>
      split at read
      case isTrue other => rwa [if_pos other]
      case isFalse symlink =>
        rw [if_neg symlink]
        cases found : readFile crates fs.image fs.sb fs.map ino with
        | error error =>
            rw [found] at read
            cases read
        | ok content =>
            rw [found] at read
            rw [file found]
            exact read

end Mount

/-! ## Formatted volumes -/

namespace Formatted

variable {disk : Formatted} {crates : Crates} {image : Bytes}

theorem Carries.coherentTree (carries : disk.Carries crates image) :
    ChunkMap.CoherentTree crates image (disk.sb crates) (.node (disk.sb crates).chunkRoot []) := by
  rcases carries.exists_chunkNode with ⟨phys, _, known, read, long⟩
  have bootNode : ChunkMap.bootNode crates image (ChunkMap.boot (disk.sb crates))
      (disk.sb crates).nodesize.toNat (disk.sb crates).chunkRoot =
        some (Node.ofBlock crates (disk.block crates disk.chunkNode 0)) :=
    ChunkMap.bootNode_eq_some_iff.mpr ⟨1, phys, _, known, read, long, rfl⟩
  have entries : (Rose.node (disk.sb crates).chunkRoot []).values.flatMap
      (ChunkMap.entriesAt crates image (ChunkMap.boot (disk.sb crates))
        (disk.sb crates).nodesize.toNat) = [⟨disk.logical, disk.span, [(1, disk.physical)]⟩] := by
    rw [Rose.values, Rose.forestValues_nil, List.flatMap_singleton, ChunkMap.entriesAt, bootNode]
    exact (ChunkMap.map_chunkItems _).symm.trans (disk.entries_chunkNode crates)
  refine ⟨rfl, .node ⟨_, bootNode, ?_⟩ fun _ member => absurd member List.not_mem_nil, ?_, ?_⟩
  · rw [Node.keyPtrs_of_isLeaf (disk.isLeaf_chunkNode crates)]
    rfl
  · rw [Rose.values, Rose.forestValues_nil, List.length_singleton]
    decide
  · rw [entries]
    constructor
    · intro entry member overflows
      rw [List.mem_singleton.mp member, MapEntry.Overflows] at overflows
      exact Nat.not_le_of_lt disk.bounded overflows
    · intro entry member other among logical _ _
      rw [List.mem_singleton.mp member, List.mem_singleton.mp among]
    · intro entry member chunk among logical _ _ devid phys target
      rw [(disk.describes_sb crates).2.2.2.2.2.2] at among
      rw [List.mem_singleton.mp among] at target
      rw [List.mem_singleton.mp member]
      exact ⟨devid, target⟩

theorem carries_take {length : Nat} (behind : disk.physical.toNat + disk.dataStart ≤ length) :
    disk.Carries crates ((disk.image crates).take length) where
  short := by
    rw [List.length_take, length_image]
    exact (Nat.min_le_right _ _).trans_lt disk.short
  superblock := by
    have size : btrfsSuperInfoSize = 4096 := rfl
    have start := disk.behind
    rw [getRange_take (by omega)]
    exact disk.superblockBlock_image crates
  node := by
    intro index node found
    have inside := disk.node_inside found
    rw [dataStart] at behind
    rw [getRange_take (by omega)]
    exact disk.getRange_image crates found

end Formatted

/-! The last byte of the data is lost. -/

theorem cut_sound_in_sample :
    ∃ intact, BtrfsFs.ofImage Crates.withoutCodecs (Sample.disk.image Crates.withoutCodecs) =
        .ok intact ∧
      ∀ ino, (∀ extent ∈ extentItems (Sample.disk.mount Crates.withoutCodecs).leaf ino,
          Steady extent.2) →
        ∀ off buf answer,
          ((Sample.disk.mount Crates.withoutCodecs).onImage
            ((Sample.disk.image Crates.withoutCodecs).take 0x15002)).readAt
              Crates.withoutCodecs (.objectid ino) .default off buf = .ok answer →
          intact.readAt Crates.withoutCodecs (.objectid ino) .default off buf = .ok answer := by
  have sound {disk : Formatted} {crates : Crates} {length : Nat}
      (behind : disk.physical.toNat + disk.dataStart ≤ length) :
      ∃ intact, BtrfsFs.ofImage crates (disk.image crates) = .ok intact ∧
        ∀ ino, (∀ extent ∈ extentItems (disk.mount crates).leaf ino, Steady extent.2) →
          ∀ off buf answer,
            ((disk.mount crates).onImage ((disk.image crates).take length)).readAt crates
              (.objectid ino) .default off buf = .ok answer →
            intact.readAt crates (.objectid ino) .default off buf = .ok answer := by
    have carries : disk.Carries crates ((disk.image crates).take length) :=
      Formatted.carries_take behind
    have offset : btrfsSuperInfoOffset.toNat = 65536 := by decide
    have stop : saturatingAdd 65536 btrfsSuperInfoSize = 65536 + btrfsSuperInfoSize := by decide
    have block := carries.superblock
    rw [← stop, ← offset] at block
    rcases cut_sound (disk.carries_image crates).coherentTree (List.take_prefix _ _)
      (disk.carries_image crates).short block (disk.parse_superblock crates)
      (disk.confined_sb crates) carries.ofImage with ⟨intact, opened, _, _, served⟩
    exact ⟨intact, opened, fun ino steady => (served ino steady).1 .default⟩
  have behind : Sample.disk.physical.toNat + Sample.disk.dataStart ≤ 0x15002 := by
    decide +kernel
  exact sound behind

end BtrfsForensic
