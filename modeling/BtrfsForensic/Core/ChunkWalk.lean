import BtrfsForensic.Core.Disk
import BtrfsForensic.Core.Translation
import BtrfsForensic.Foundation.Rose

namespace BtrfsForensic.ChunkMap

/-! The walk of a well-formed chunk tree returns every chunk item of the tree,
whatever its shape. -/

/-! ## Nodes by way of the bootstrap map -/

section Bootstrap

variable (crates : Crates) (image : Bytes) (boot : ChunkMap) (nodesize : Nat)

/-- The block that the bootstrap map alone leads to. -/
def bootBlock (logical : UInt64) : Option Bytes :=
  (boot.logicalToPhysical logical).bind fun target =>
    getRange image target.2.toNat (saturatingAdd target.2.toNat nodesize)

def bootNode (logical : UInt64) : Option Node :=
  (bootBlock image boot nodesize logical).bind fun block =>
    (Node.parse crates block).toOption

/-- The span that a `CHUNK_ITEM` maps, with the device and the offset of each stripe
that its data holds. -/
def entryOfItem (item : DiskKey × Bytes) : MapEntry where
  logicalStart := item.1.offset
  length := leU64 item.2 0
  stripes := (List.range (min (leU16 item.2 44).toNat ((item.2.length - 48) / 32))).map
    fun index => (leU64 item.2 (48 + index * 32), leU64 item.2 (48 + index * 32 + 8))

/-- What the chunk items at an address map; an interior node has none. -/
def entriesAt (logical : UInt64) : List MapEntry :=
  match bootNode crates image boot nodesize logical with
  | some node => (node.leafItems.filter fun item => item.1.keyType = 228).map entryOfItem
  | none => []

/-- A finite chunk tree: every address leads to a node whose key-pointers are
the addresses of its children. -/
def IsChunkTree : Rose UInt64 → Prop :=
  Rose.Every fun logical children => ∃ node,
    bootNode crates image boot nodesize logical = some node ∧
      node.keyPtrs.map KeyPtr.blockptr = children

end Bootstrap

/-! ## One step of the walk -/

section Step

variable {crates : Crates} {image : Bytes} {boot map : ChunkMap}
  {nodesize budget : Nat} {logical : UInt64} {stack : List UInt64}
  {bootstrappedRoot : Bool} {node : Node}

theorem bootNode_eq_some_iff :
    bootNode crates image boot nodesize logical = some node ↔
      ∃ devid phys block, boot.logicalToPhysical logical = some (devid, phys) ∧
        getRange image phys.toNat (saturatingAdd phys.toNat nodesize) = some block ∧
        btrfsHeaderSize ≤ block.length ∧ node = Node.ofBlock crates block := by
  rw [bootNode, bootBlock]
  cases boot.logicalToPhysical logical with
  | none => simp
  | some target =>
      cases target with
      | mk devid phys =>
          cases found : getRange image phys.toNat
              (saturatingAdd phys.toNat nodesize) with
          | none => simp [found]
          | some block =>
              cases parsed : Node.parse crates block with
              | error error =>
                  have short : ¬(btrfsHeaderSize ≤ block.length) := fun long => by
                    rw [Node.parse_eq_ok_iff.mpr ⟨long, rfl⟩] at parsed
                    cases parsed
                  simp [found, parsed, short, Except.toOption]
              | ok known =>
                  rcases Node.parse_eq_ok_iff.mp parsed with ⟨long, rfl⟩
                  simp [found, parsed, long, Except.toOption, eq_comm]

/-- Reading a node adds its chunk items and pushes its key-pointers: a leaf has
no key-pointers and an interior node no chunk items. -/
theorem walkLoop_step {devid phys : UInt64} {block : Bytes}
    (target : (map.logicalToPhysical logical).or (boot.logicalToPhysical logical) =
      some (devid, phys))
    (found : getRange image phys.toNat (saturatingAdd phys.toNat nodesize) =
      some block)
    (long : btrfsHeaderSize ≤ block.length) :
    walkLoop crates image boot nodesize (budget + 1) (logical :: stack) map
        bootstrappedRoot =
      walkLoop crates image boot nodesize budget
        (((Node.ofBlock crates block).keyPtrs.map KeyPtr.blockptr).reverse ++ stack)
        (map.addFromNode (Node.ofBlock crates block)) true := by
  have parsed : Node.parse crates block = .ok (Node.ofBlock crates block) :=
    Node.parse_eq_ok_iff.mpr ⟨long, rfl⟩
  rw [walkLoop, target]
  simp only [found, parsed]
  split
  case isTrue leaf => rw [Node.keyPtrs_of_isLeaf leaf]; rfl
  case isFalse interior =>
    have unchanged : map.addFromNode (Node.ofBlock crates block) = map := by
      rw [addFromNode, Node.chunkItems, Node.leafItems_of_not_isLeaf interior]
      simp
    rw [unchanged]

theorem map_chunkItems (node : Node) :
    node.chunkItems.map (fun item => MapEntry.ofChunk item.1 item.2) =
      (node.leafItems.filter fun item => item.1.keyType = 228).map entryOfItem := by
  rw [Node.chunkItems, List.map_map]
  apply List.map_congr_left
  intro item _
  simp only [Function.comp_apply, MapEntry.ofChunk, Chunk.parse, List.map_map, entryOfItem]
  rfl

theorem addFromNode_entries
    (read : bootNode crates image boot nodesize logical = some node) :
    (map.addFromNode node).entries =
      map.entries ++ entriesAt crates image boot nodesize logical := by
  rw [addFromNode, entriesAt, read, map_chunkItems]

end Step

/-! ## A well-formed chunk tree -/

/-- The entries translate the addresses as the bootstrap map does, as far as
they translate them at all. -/
def AgreesWithBoot (boot : ChunkMap) (entries : List MapEntry)
    (addresses : List UInt64) : Prop :=
  ∀ entry ∈ entries, ∀ address ∈ addresses, entry.Covers address →
    ∀ devid phys, entry.target address = some (devid, phys) →
      ∃ bootDevid, boot.logicalToPhysical address = some (bootDevid, phys)

section Tree

variable {crates : Crates} {image : Bytes} {boot map : ChunkMap}
  {nodesize budget : Nat} {entries : List MapEntry} {addresses : List UInt64}

theorem exists_entry_of_logicalToPhysical {logical devid phys : UInt64}
    (mapped : map.logicalToPhysical logical = some (devid, phys)) :
    ∃ entry ∈ map.entries, entry.Covers logical ∧
      entry.target logical = some (devid, phys) := by
  rw [logicalToPhysical, lookup_eq_translate] at mapped
  split at mapped
  · cases mapped
  · rw [translate, Option.bind_eq_some_iff] at mapped
    rcases mapped with ⟨entry, found, target⟩
    exact ⟨entry, List.mem_of_find?_eq_some found, by
      simpa using List.find?_some found, target⟩

/-- Whatever part of the map is built, the walk reads an address of the tree
from where the bootstrap map puts it. -/
theorem target_of_agrees (agrees : AgreesWithBoot boot entries addresses)
    (known : map.entries ⊆ entries) {logical : UInt64}
    (member : logical ∈ addresses) {devid phys : UInt64}
    (mapped : boot.logicalToPhysical logical = some (devid, phys)) :
    ∃ walkDevid, (map.logicalToPhysical logical).or
      (boot.logicalToPhysical logical) = some (walkDevid, phys) := by
  cases direct : map.logicalToPhysical logical with
  | none => exact ⟨devid, mapped⟩
  | some target =>
      cases target with
      | mk walkDevid walkPhys =>
          rcases exists_entry_of_logicalToPhysical direct with
            ⟨entry, entryMember, covers, entryTarget⟩
          rcases agrees entry (known entryMember) logical member covers walkDevid
            walkPhys entryTarget with ⟨bootDevid, again⟩
          rw [mapped] at again
          cases again
          exact ⟨walkDevid, rfl⟩

/-- The walk works off any forest of chunk trees that its budget pays for, one
node a step. -/
theorem walkLoop_forest (agrees : AgreesWithBoot boot entries addresses)
    {forest : List (Rose UInt64)} {bootstrappedRoot : Bool}
    (trees : ∀ tree ∈ forest, IsChunkTree crates image boot nodesize tree)
    (known : map.entries ⊆ entries)
    (items : (Rose.forestValues forest).flatMap
      (entriesAt crates image boot nodesize) ⊆ entries)
    (inside : Rose.forestValues forest ⊆ addresses)
    (enough : (Rose.forestValues forest).length ≤ budget) :
    ∃ result, walkLoop crates image boot nodesize budget (forest.map Rose.root) map
        bootstrappedRoot = .ok result ∧
      result.entries.Perm (map.entries ++ (Rose.forestValues forest).flatMap
        (entriesAt crates image boot nodesize)) := by
  induction budget generalizing forest map bootstrappedRoot with
  | zero =>
      cases forest with
      | nil => exact ⟨map, rfl, by simp⟩
      | cons tree forest =>
          cases tree with
          | node logical children =>
              rw [Rose.forestValues, Rose.values] at enough
              cases enough
  | succ budget induction =>
      cases forest with
      | nil => exact ⟨map, rfl, by simp⟩
      | cons tree forest =>
          cases trees tree List.mem_cons_self with
          | @node logical children own below =>
              rcases own with ⟨node, read, pointers⟩
              have pop : (logical :: Rose.forestValues (children.reverse ++ forest)).Perm
                  (Rose.forestValues (.node logical children :: forest)) :=
                Rose.forestValues_pop logical children
              have itemsPop := pop.flatMap_right
                (entriesAt crates image boot nodesize)
              rw [List.flatMap_cons] at itemsPop
              have added : (map.addFromNode node).entries =
                  map.entries ++ entriesAt crates image boot nodesize logical :=
                addFromNode_entries read
              have rest : ∃ result,
                  walkLoop crates image boot nodesize budget
                      ((children.reverse ++ forest).map Rose.root)
                      (map.addFromNode node) true = .ok result ∧
                    result.entries.Perm ((map.addFromNode node).entries ++
                      (Rose.forestValues (children.reverse ++ forest)).flatMap
                        (entriesAt crates image boot nodesize)) := by
                apply induction
                · intro tree member
                  rcases List.mem_append.mp member with child | rest
                  · exact below tree (List.mem_reverse.mp child)
                  · exact trees tree (List.mem_cons_of_mem _ rest)
                · rw [added]
                  exact List.append_subset.mpr ⟨known, fun entry member =>
                    items (itemsPop.subset (List.mem_append_left _ member))⟩
                · exact fun entry member =>
                    items (itemsPop.subset (List.mem_append_right _ member))
                · exact fun address member =>
                    inside (pop.subset (List.mem_cons_of_mem _ member))
                · have size := pop.length_eq
                  rw [List.length_cons] at size
                  omega
              rcases rest with ⟨result, walked, entriesPerm⟩
              rcases bootNode_eq_some_iff.mp read with
                ⟨devid, phys, block, mapped, found, long, rfl⟩
              rcases target_of_agrees agrees known
                  (inside (pop.subset List.mem_cons_self)) mapped with
                ⟨walkDevid, target⟩
              refine ⟨result, ?_, ?_⟩
              · rw [List.map_cons, Rose.root, walkLoop_step target found long,
                  pointers, ← List.map_reverse, ← List.map_append]
                exact walked
              · rw [added, List.append_assoc] at entriesPerm
                exact entriesPerm.trans (itemsPop.append_left _)

/-- The walk of a chunk tree of at most 4096 nodes, whose chunk items put the
tree where the bootstrap map does, finds exactly the chunk items of the
tree. -/
theorem walk_entries_perm {sb : Superblock} {tree : Rose UInt64}
    (root : tree.root = sb.chunkRoot)
    (isTree : IsChunkTree crates image (ChunkMap.boot sb) sb.nodesize.toNat tree)
    (few : tree.values.length ≤ 4096)
    (agrees : AgreesWithBoot (ChunkMap.boot sb)
      (tree.values.flatMap
        (entriesAt crates image (ChunkMap.boot sb) sb.nodesize.toNat)) tree.values) :
    ∃ map, walk crates image sb = .ok map ∧
      map.entries.Perm (tree.values.flatMap
        (entriesAt crates image (ChunkMap.boot sb) sb.nodesize.toNat)) := by
  have walked : ∃ map,
      walkLoop crates image (ChunkMap.boot sb) sb.nodesize.toNat 4096
          ([tree].map Rose.root) new false = .ok map ∧
        map.entries.Perm (new.entries ++ (Rose.forestValues [tree]).flatMap
          (entriesAt crates image (ChunkMap.boot sb) sb.nodesize.toNat)) := by
    apply walkLoop_forest agrees
    · simpa using isTree
    · exact List.nil_subset _
    · rw [Rose.forestValues_singleton]
      exact List.Subset.refl _
    · rw [Rose.forestValues_singleton]
      exact List.Subset.refl _
    · rwa [Rose.forestValues_singleton]
  rw [Rose.forestValues_singleton] at walked
  rw [walk, ← root]
  exact walked

/-- The check is over the lists, not over all addresses. -/
theorem agreesWithBoot_of_all
    (same : (entries.all fun entry => addresses.all fun address =>
      decide (entry.Covers address → (entry.target address).map Prod.snd =
        (boot.logicalToPhysical address).map Prod.snd)) = true) :
    AgreesWithBoot boot entries addresses := by
  intro entry entryMember address member covers devid phys target
  have checked := List.all_eq_true.mp same entry entryMember
  have equal := of_decide_eq_true (List.all_eq_true.mp checked address member) covers
  rw [target, eq_comm, Option.map_some, Option.map_eq_some_iff] at equal
  rcases equal with ⟨⟨bootDevid, bootPhys⟩, mapped, rfl⟩
  exact ⟨bootDevid, mapped⟩

end Tree

theorem bootNode_disk {disk : Disk} {block : Bytes} (index : Nat)
    {address : UInt64} (phys : UInt64) (found : disk.blocks[index]? = some block)
    (long : btrfsHeaderSize ≤ block.length)
    (target : (ChunkMap.boot disk.sb).logicalToPhysical address = some (1, phys))
    (place : phys.toNat = Disk.physical + disk.nodesize.toNat * index) :
    bootNode Crates.withoutCodecs disk.image (boot disk.sb) disk.sb.nodesize.toNat
      address = some (Node.ofBlock Crates.withoutCodecs block) :=
  bootNode_eq_some_iff.mpr
    ⟨1, phys, block, target, Disk.getRange_image found place, long, rfl⟩

/-! A chunk tree of an interior root and two leaves, the first of which maps the
chunk that the tree lies in. -/

def branchedRoot : Bytes :=
  Writer.interior 512 (Disk.chunkNode 0x100000) 1 [0x100200, 0x100400]

def branchedLeaf : Bytes :=
  Writer.leaf 512 (Disk.chunkNode 0x100200) [Disk.chunkItem]

def branchedOther : Bytes :=
  Writer.leaf 512 (Disk.chunkNode 0x100400)
    [(⟨256, chunkItemKey, 0x400000⟩, Writer.chunk 0x1000 0x300000)]

def branched : Disk where
  length := 0x14000
  root := 0
  nodesize := 512
  blocks := [branchedRoot, branchedLeaf, branchedOther]
  magic := Disk.magic_writeSuperblock _ _
  describes := Disk.describes_writeSuperblock _ _
  sized := by decide +kernel
  fits := by decide +kernel
  short := Disk.small_short

def branchedTree : Rose UInt64 :=
  .node 0x100000 [.node 0x100200 [], .node 0x100400 []]

theorem bootNode_branched :
    bootNode Crates.withoutCodecs branched.image (boot branched.sb)
        branched.sb.nodesize.toNat 0x100000 =
      some (Node.ofBlock Crates.withoutCodecs branchedRoot) ∧
    bootNode Crates.withoutCodecs branched.image (boot branched.sb)
        branched.sb.nodesize.toNat 0x100200 =
      some (Node.ofBlock Crates.withoutCodecs branchedLeaf) ∧
    bootNode Crates.withoutCodecs branched.image (boot branched.sb)
        branched.sb.nodesize.toNat 0x100400 =
      some (Node.ofBlock Crates.withoutCodecs branchedOther) := by
  refine ⟨bootNode_disk 0 0x12000 rfl (by decide +kernel) ?_ rfl,
    bootNode_disk 1 0x12200 rfl (by decide +kernel) ?_ rfl,
    bootNode_disk 2 0x12400 rfl (by decide +kernel) ?_ rfl⟩
  · rw [Disk.boot_sb]
    rfl
  · rw [Disk.boot_sb]
    rfl
  · rw [Disk.boot_sb]
    rfl

theorem branched_keyPtrs :
    (Node.ofBlock Crates.withoutCodecs branchedRoot).keyPtrs.map KeyPtr.blockptr =
        [0x100200, 0x100400] ∧
      (Node.ofBlock Crates.withoutCodecs branchedLeaf).keyPtrs = [] ∧
      (Node.ofBlock Crates.withoutCodecs branchedOther).keyPtrs = [] := by
  decide +kernel

theorem isChunkTree_branched :
    IsChunkTree Crates.withoutCodecs branched.image (boot branched.sb)
      branched.sb.nodesize.toNat branchedTree := by
  apply Rose.Every.node
  · exact ⟨_, bootNode_branched.1, branched_keyPtrs.1⟩
  · intro child member
    rcases List.mem_pair.mp member with rfl | rfl
    · exact .node ⟨_, bootNode_branched.2.1, congrArg _ branched_keyPtrs.2.1⟩
        (fun _ below => absurd below List.not_mem_nil)
    · exact .node ⟨_, bootNode_branched.2.2, congrArg _ branched_keyPtrs.2.2⟩
        (fun _ below => absurd below List.not_mem_nil)

theorem entriesAt_branched :
    branchedTree.values.flatMap (entriesAt Crates.withoutCodecs branched.image
        (boot branched.sb) branched.sb.nodesize.toNat) =
      [⟨0x100000, 0x200000, [(1, 0x12000)]⟩, ⟨0x400000, 0x1000, [(1, 0x300000)]⟩] := by
  have items :
      ((Node.ofBlock Crates.withoutCodecs branchedRoot).leafItems.filter
          fun item => item.1.keyType = 228).map entryOfItem = [] ∧
        ((Node.ofBlock Crates.withoutCodecs branchedLeaf).leafItems.filter
          fun item => item.1.keyType = 228).map entryOfItem =
            [⟨0x100000, 0x200000, [(1, 0x12000)]⟩] ∧
        ((Node.ofBlock Crates.withoutCodecs branchedOther).leafItems.filter
          fun item => item.1.keyType = 228).map entryOfItem =
            [⟨0x400000, 0x1000, [(1, 0x300000)]⟩] := by
    decide +kernel
  have values : branchedTree.values = [0x100000, 0x100200, 0x100400] := rfl
  rw [values, List.flatMap_cons, List.flatMap_cons, List.flatMap_singleton,
    entriesAt, entriesAt, entriesAt, bootNode_branched.1, bootNode_branched.2.1,
    bootNode_branched.2.2]
  simp only [items]
  rfl

theorem walk_entries_perm_in_branched :
    ∃ map, walk Crates.withoutCodecs branched.image branched.sb = .ok map ∧
      map.entries.Perm (branchedTree.values.flatMap
        (entriesAt Crates.withoutCodecs branched.image (boot branched.sb)
          branched.sb.nodesize.toNat)) := by
  have root : branchedTree.root = branched.sb.chunkRoot :=
    branched.describes.2.1.symm
  apply walk_entries_perm root isChunkTree_branched (by decide)
  apply agreesWithBoot_of_all
  rw [entriesAt_branched, Disk.boot_sb]
  decide

end BtrfsForensic.ChunkMap
