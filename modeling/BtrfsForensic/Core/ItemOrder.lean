import BtrfsForensic.Core.FileAssembly
import BtrfsForensic.Core.NodeRoundTrip
import BtrfsForensic.Foundation.First

namespace BtrfsForensic

/-! Whether a file depends on the slots its items are in. The inode item is searched
and the extent items are sorted, so it does not while no two of them compete. -/

/-- No key is used twice, and no objectid has two inode items. -/
structure Keyed (items : List (DiskKey × Bytes)) : Prop where
  keys : (items.map Prod.fst).Nodup
  inodes : ∀ item ∈ items, ∀ other ∈ items, item.1.keyType = inodeItemKey →
    other.1.keyType = inodeItemKey → item.1.objectid = other.1.objectid → item = other

section Order

variable {leaf reordered : Node} {ino : UInt64}

theorem inodeSize_of_perm (perm : leaf.leafItems.Perm reordered.leafItems)
    (keyed : Keyed leaf.leafItems) : inodeSize leaf ino = inodeSize reordered ino := by
  rw [inodeSize, inodeSize, find?_of_perm perm]
  intro item member other elsewhere first second
  simp only [decide_eq_true_eq] at first second
  exact keyed.inodes item member other elsewhere first.2 second.2
    (first.1.trans second.1.symm)

theorem extentItems_perm (perm : leaf.leafItems.Perm reordered.leafItems) :
    (extentItems leaf ino).Perm (extentItems reordered ino) :=
  (perm.filter _).map _

theorem extentItems_offsets_nodup (keyed : Keyed leaf.leafItems) :
    ((extentItems leaf ino).map Prod.fst).Nodup := by
  have keys := keyed.keys
  rw [List.Nodup, List.pairwise_map] at keys ⊢
  rw [extentItems, List.pairwise_map]
  apply (keys.filter _).imp_of_mem
  intro item other member elsewhere differ sameOffset
  have own := (List.mem_filter.mp member).2
  have otherOwn := (List.mem_filter.mp elsewhere).2
  simp only [decide_eq_true_eq] at own otherOwn
  rcases item with ⟨⟨objectid, keyType, offset⟩, data⟩
  rcases other with ⟨⟨otherObjectid, otherType, otherOffset⟩, otherData⟩
  apply differ
  rw [DiskKey.mk.injEq]
  exact ⟨own.1.trans otherOwn.1.symm, own.2.trans otherOwn.2.symm, sameOffset⟩

/-- A sort by distinct offsets forgets the order it is given. -/
theorem sortByOffset_of_perm {extents shuffled : List (UInt64 × Bytes)}
    (perm : extents.Perm shuffled) (distinct : (extents.map Prod.fst).Nodup) :
    sortByOffset extents = sortByOffset shuffled := by
  have sorted : (sortByOffset extents).Perm extents := List.perm_insertionSort _ _
  have otherSorted : (sortByOffset shuffled).Perm shuffled := List.perm_insertionSort _ _
  apply List.Perm.eq_of_pairwise _ (sortByOffset_sorted extents)
    (sortByOffset_sorted shuffled) (sorted.trans (perm.trans otherSorted.symm))
  intro extent other member elsewhere below above
  have inside : extent ∈ extents := sorted.mem_iff.mp member
  have otherInside : other ∈ extents :=
    perm.mem_iff.mpr (otherSorted.mem_iff.mp elsewhere)
  exact List.inj_on_of_nodup_map distinct inside otherInside
    (UInt64.le_antisymm below above)

/-- Leaves that hold the same items in different slots hold the same files: what is
read, or the error met first, does not depend on the order of the slots. -/
theorem read_independent_of_slots (perm : leaf.leafItems.Perm reordered.leafItems)
    (keyed : Keyed leaf.leafItems) (crates : Crates) (image : Bytes) (map : ChunkMap)
    (sectorsize : UInt32) (ino : UInt64) :
    readFileFromLeaf crates leaf image map sectorsize ino =
      readFileFromLeaf crates reordered image map sectorsize ino := by
  rw [readFileFromLeaf, readFileFromLeaf, inodeSize_of_perm perm keyed,
    sortByOffset_of_perm (extentItems_perm perm) (extentItems_offsets_nodup keyed)]

end Order

/-! A file of two inline extents, its items in key order and in reverse. -/

def slotExtent (payload : Bytes) : Bytes :=
  List.replicate extentHeaderLen 0 ++ payload

def slotItems : List (DiskKey × Bytes) :=
  [(⟨257, inodeItemKey, 0⟩, overlay 160 0 [(inodeSizeOffset, encodeLE 8 4)]),
    (⟨257, extentDataKey, 0⟩, slotExtent [1, 2]),
    (⟨257, extentDataKey, 4096⟩, slotExtent [3, 4])]

def slotLeaf (items : List (DiskKey × Bytes)) : Node :=
  Node.ofBlock Crates.withoutCodecs
    (Writer.leaf 1024 ⟨List.Vector.replicate 16 0, 4096, 1, fsTreeObjectid⟩ items)

theorem leafItems_slotLeaf :
    (slotLeaf slotItems).leafItems = slotItems ∧
      (slotLeaf slotItems.reverse).leafItems = slotItems.reverse :=
  ⟨Writer.leafItems_leaf (by decide) (by decide +kernel),
    Writer.leafItems_leaf (by decide) (by decide +kernel)⟩

theorem read_independent_of_slots_in_slotLeaf :
    (slotLeaf slotItems).leafItems ≠ (slotLeaf slotItems.reverse).leafItems ∧
      readFileFromLeaf Crates.withoutCodecs (slotLeaf slotItems) [] ChunkMap.new 4096
          257 =
        readFileFromLeaf Crates.withoutCodecs (slotLeaf slotItems.reverse) []
          ChunkMap.new 4096 257 := by
  have keyed : Keyed slotItems := by
    constructor
    · decide
    · decide +kernel
  constructor
  · rw [leafItems_slotLeaf.1, leafItems_slotLeaf.2]
    decide +kernel
  · apply read_independent_of_slots
    · rw [leafItems_slotLeaf.1, leafItems_slotLeaf.2]
      exact (List.reverse_perm slotItems).symm
    · rw [leafItems_slotLeaf.1]
      exact keyed

end BtrfsForensic
