import BtrfsForensic.Core.Extent
import BtrfsForensic.Core.Writer
import BtrfsForensic.Foundation.Segments

namespace BtrfsForensic

/-! Where the bytes of a file's extents end up: extents are joined end to end,
so a gap between two of them moves everything behind it. -/

section Assembly

variable {crates : Crates} {image : Bytes} {map : ChunkMap} {sectorsize : UInt32}

/-- An extent item as a segment of the file: its file offset and the bytes it
contributes. -/
def fileSegment (crates : Crates) (image : Bytes) (map : ChunkMap)
    (sectorsize : UInt32) (extent : UInt64 × Bytes) : Nat × Bytes :=
  (extent.1.toNat,
    match extentContent crates image map sectorsize
        (max image.length logicalAllocFloor) extent.2 with
    | .ok bytes => bytes
    | .error _ => [])

def fileSegments (crates : Crates) (leaf : Node) (image : Bytes) (map : ChunkMap)
    (sectorsize : UInt32) (ino : UInt64) : List (Nat × Bytes) :=
  (extentItems leaf ino).map (fileSegment crates image map sectorsize)

def sortedSegments (crates : Crates) (leaf : Node) (image : Bytes) (map : ChunkMap)
    (sectorsize : UInt32) (ino : UInt64) : List (Nat × Bytes) :=
  (sortByOffset (extentItems leaf ino)).map
    (fileSegment crates image map sectorsize)

theorem sortByOffset_sorted (extents : List (UInt64 × Bytes)) :
    (sortByOffset extents).Pairwise fun left right => left.1 ≤ right.1 := by
  have total : Std.Total fun left right : UInt64 × Bytes => left.1 ≤ right.1 :=
    ⟨fun left right => UInt64.le_total left.1 right.1⟩
  have trans : IsTrans (UInt64 × Bytes) fun left right => left.1 ≤ right.1 :=
    ⟨fun _ _ _ first second => UInt64.le_trans first second⟩
  exact List.pairwise_insertionSort _ _

theorem sortedSegments_sorted (leaf : Node) (ino : UInt64) :
    (sortedSegments crates leaf image map sectorsize ino).Pairwise
      fun first second => first.1 ≤ second.1 := by
  rw [sortedSegments, List.pairwise_map]
  exact (sortByOffset_sorted _).imp fun ordered => UInt64.le_iff_toNat_le.mp ordered

/-- Appending extents joins their segments. -/
theorem appendExtents_eq_ok {extents : List (UInt64 × Bytes)} {out content : Bytes}
    (appended : appendExtents crates image map sectorsize
      (max image.length logicalAllocFloor) extents out = .ok content) :
    content = out ++
      Segments.joined (extents.map (fileSegment crates image map sectorsize)) := by
  induction extents generalizing out with
  | nil =>
      cases appended
      simp
  | cons extent extents induction =>
      cases extent with
      | mk offset data =>
          rw [appendExtents, bind_eq_ok_iff] at appended
          rcases appended with ⟨bytes, read, appended⟩
          have rest := induction appended
          rw [rest, List.map_cons, Segments.joined_cons, List.append_assoc]
          simp only [fileSegment, read]

theorem fitToSize_padded (size : Nat) (out : Bytes) :
    Segments.Padded 0 size out (fitToSize size out) := by
  refine ⟨length_fitToSize size out, fun position visible => ?_⟩
  rw [fitToSize]
  split
  case isTrue longer =>
    rw [List.getElem?_take_of_lt visible, List.getElem?_eq_getElem (by omega),
      Option.getD_some]
  case isFalse =>
    by_cases inside : position < out.length
    · rw [List.getElem?_append_left inside, List.getElem?_eq_getElem inside,
        Option.getD_some]
    · rw [List.getElem?_append_right (by omega), List.getElem?_replicate,
        if_pos (by omega), List.getElem?_eq_none (by omega), Option.getD_none]

section Reading

variable {leaf : Node} {ino size : UInt64} {content : Bytes}

theorem readFileFromLeaf_padded
    (read : readFileFromLeaf crates leaf image map sectorsize ino = .ok content)
    (known : inodeSize leaf ino = some size) :
    Segments.Padded 0 size.toNat
      (Segments.joined (sortedSegments crates leaf image map sectorsize ino))
      content := by
  rcases readFileFromLeaf_eq_ok_iff.mp read with ⟨_, out, again, _, appended, rfl⟩
  rw [known, Option.some.injEq] at again
  have joined := appendExtents_eq_ok appended
  rw [List.nil_append] at joined
  rw [sortedSegments, ← joined, ← again]
  exact fitToSize_padded size.toNat out

/-- A file that is read successfully has every byte of its extents at its file
offset, and zeros elsewhere, exactly when no extent is visibly joined too
early. -/
theorem readFileFromLeaf_placed_iff
    (read : readFileFromLeaf crates leaf image map sectorsize ino = .ok content)
    (known : inodeSize leaf ino = some size)
    (disjoint : (fileSegments crates leaf image map sectorsize ino).Pairwise
      Segments.Apart) :
    Segments.Placed 0 size.toNat
        (fileSegments crates leaf image map sectorsize ino) content ↔
      Segments.NoVisibleGap 0 size.toNat
        (sortedSegments crates leaf image map sectorsize ino) := by
  have perm := (List.perm_insertionSort
    (fun left right : UInt64 × Bytes => left.1 ≤ right.1) (extentItems leaf ino)).map
      (fileSegment crates image map sectorsize)
  have apart : (sortedSegments crates leaf image map sectorsize ino).Pairwise
      Segments.Apart :=
    (perm.pairwise_iff Segments.apart_symm).mpr disjoint
  rw [fileSegments, ← Segments.placed_perm perm]
  exact Segments.placed_iff_noVisibleGap (sortedSegments_sorted leaf ino) apart
    (readFileFromLeaf_padded read known)

end Reading

end Assembly

/-! A file of six bytes with a hole of two in the middle that has no extent. -/

def gapLeaf : Node :=
  Node.ofBlock Crates.withoutCodecs <| Writer.leaf 512
    ⟨List.Vector.replicate 16 0, 0, 0, fsTreeObjectid⟩
    [(⟨257, inodeItemKey, 0⟩, overlay 160 0 [(inodeSizeOffset, encodeLE 8 6)]),
      (⟨257, extentDataKey, 0⟩, overlay 53 0
        [(ExtOff.type, [extentTypeReg]), (ExtOff.diskBytenr, encodeLE 8 4096),
          (ExtOff.numBytes, encodeLE 8 2)]),
      (⟨257, extentDataKey, 4⟩, overlay 53 0
        [(ExtOff.type, [extentTypeReg]), (ExtOff.diskBytenr, encodeLE 8 4098),
          (ExtOff.numBytes, encodeLE 8 2)])]

def gapMap : ChunkMap := ⟨[⟨4096, 4096, [(1, 0)]⟩]⟩

def gapImage : Bytes := [1, 2, 3, 4]

theorem readFileFromLeaf_gapLeaf :
    inodeSize gapLeaf 257 = some 6 ∧
      fileSegments Crates.withoutCodecs gapLeaf gapImage gapMap 4096 257 =
        [(0, [1, 2]), (4, [3, 4])] ∧
      readFileFromLeaf Crates.withoutCodecs gapLeaf gapImage gapMap 4096 257 =
        .ok [1, 2, 3, 4, 0, 0] := by
  decide +kernel

theorem apart_gapLeaf :
    (fileSegments Crates.withoutCodecs gapLeaf gapImage gapMap 4096 257).Pairwise
      Segments.Apart := by
  rw [readFileFromLeaf_gapLeaf.2.1, List.pairwise_pair]
  intro position both
  rcases both with ⟨first, second⟩
  have upper : position < 0 + 2 := first.2
  have lower : 4 ≤ position := second.1
  omega

/-- The second extent is found where the hole should be. -/
theorem gap_not_placed :
    (fileSegments Crates.withoutCodecs gapLeaf gapImage gapMap 4096 257).Pairwise
        Segments.Apart ∧
      inodeSize gapLeaf 257 = some 6 ∧
      readFileFromLeaf Crates.withoutCodecs gapLeaf gapImage gapMap 4096 257 =
        .ok [1, 2, 3, 4, 0, 0] ∧
      ¬Segments.Placed 0 (6 : UInt64).toNat
        (fileSegments Crates.withoutCodecs gapLeaf gapImage gapMap 4096 257)
        [1, 2, 3, 4, 0, 0] := by
  refine ⟨apart_gapLeaf, readFileFromLeaf_gapLeaf.1, readFileFromLeaf_gapLeaf.2.2,
    fun placed => ?_⟩
  rw [readFileFromLeaf_gapLeaf.2.1] at placed
  have second := placed.1 (4, [3, 4]) (by decide) 0 3 rfl (by decide)
  exact absurd second (by decide)

theorem readFileFromLeaf_placed_iff_in_gapLeaf :
    Segments.Placed 0 (6 : UInt64).toNat
        (fileSegments Crates.withoutCodecs gapLeaf gapImage gapMap 4096 257)
        [1, 2, 3, 4, 0, 0] ↔
      Segments.NoVisibleGap 0 (6 : UInt64).toNat
        (sortedSegments Crates.withoutCodecs gapLeaf gapImage gapMap 4096 257) :=
  readFileFromLeaf_placed_iff readFileFromLeaf_gapLeaf.2.2
    readFileFromLeaf_gapLeaf.1 apart_gapLeaf

end BtrfsForensic
