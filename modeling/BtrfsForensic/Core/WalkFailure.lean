import BtrfsForensic.Core.ChunkWalk

namespace BtrfsForensic.ChunkMap

/-! How the walk of a broken chunk tree ends: which pointers turn it into an
error, and when it succeeds without having read the root. -/

/-! ## When the walk fails -/

section Failure

variable {crates : Crates} {image : Bytes} {boot map : ChunkMap}
  {nodesize budget : Nat} {logical : UInt64} {stack : List UInt64}
  {bootstrappedRoot : Bool}

/-- A translated address is read alike, whatever the flag says. -/
theorem walkLoop_of_mapped {target : UInt64 × UInt64}
    (mapped : (map.logicalToPhysical logical).or (boot.logicalToPhysical logical) =
      some target) :
    walkLoop crates image boot nodesize (budget + 1) (logical :: stack) map
        bootstrappedRoot =
      walkLoop crates image boot nodesize (budget + 1) (logical :: stack) map
        true := by
  rw [walkLoop, walkLoop, mapped]

/-- With something in the map no pointer can fail the walk any more. -/
theorem walkLoop_ok_of_entries (nonempty : map.entries ≠ []) :
    ∃ result, walkLoop crates image boot nodesize budget stack map true =
      .ok result := by
  induction budget generalizing stack map with
  | zero => cases stack <;> exact ⟨map, by rw [walkLoop]⟩
  | succ budget induction =>
      cases stack with
      | nil => exact ⟨map, by rw [walkLoop]⟩
      | cons logical stack =>
          rw [walkLoop]
          cases (map.logicalToPhysical logical).or
              (boot.logicalToPhysical logical) with
          | none => exact induction nonempty
          | some target =>
              cases target with
              | mk devid phys =>
                  dsimp only
                  cases getRange image phys.toNat
                      (saturatingAdd phys.toNat nodesize) with
                  | none =>
                      dsimp only
                      rw [if_neg (by simpa using nonempty)]
                      exact induction nonempty
                  | some block =>
                      dsimp only
                      cases Node.parse crates block with
                      | error error => exact induction nonempty
                      | ok node =>
                          dsimp only
                          split
                          · exact induction (by simp [addFromNode, nonempty])
                          · exact induction nonempty

/-- The addresses that are popped before the first chunk item is read. Until
then the map is empty, so the bootstrap map alone translates. -/
def popsBeforeChunk (crates : Crates) (image : Bytes) (boot : ChunkMap)
    (nodesize : Nat) : (budget : Nat) → (stack : List UInt64) → List UInt64
  | _, [] => []
  | 0, _ :: _ => []
  | budget + 1, logical :: stack =>
      logical ::
        match bootNode crates image boot nodesize logical with
        | none => popsBeforeChunk crates image boot nodesize budget stack
        | some node =>
            if node.chunkItems = [] then
              popsBeforeChunk crates image boot nodesize budget
                ((node.keyPtrs.map KeyPtr.blockptr).reverse ++ stack)
            else
              []

/-- The bootstrap map leads out of the image. -/
def LeavesImage (image : Bytes) (boot : ChunkMap) (nodesize : Nat)
    (logical : UInt64) : Prop :=
  (boot.logicalToPhysical logical).isSome ∧
    bootBlock image boot nodesize logical = none

/-- Once the root is read, the walk fails exactly when it pops a pointer out of
the image before the first chunk item. -/
theorem walkLoop_error_iff :
    (∃ error, walkLoop crates image boot nodesize budget stack new true =
        .error error) ↔
      ∃ logical ∈ popsBeforeChunk crates image boot nodesize budget stack,
        LeavesImage image boot nodesize logical := by
  induction budget generalizing stack with
  | zero => cases stack <;> simp [walkLoop, popsBeforeChunk]
  | succ budget induction =>
      cases stack with
      | nil => simp [walkLoop, popsBeforeChunk]
      | cons logical stack =>
          have unmapped : new.logicalToPhysical logical = none := rfl
          rw [popsBeforeChunk, List.exists_mem_cons_iff]
          cases read : bootNode crates image boot nodesize logical with
          | some node =>
              rcases bootNode_eq_some_iff.mp read with
                ⟨devid, phys, block, mapped, found, long, rfl⟩
              have stays : ¬LeavesImage image boot nodesize logical := by
                rw [LeavesImage, bootBlock, mapped]
                simp [found]
              rw [walkLoop_step (by rw [unmapped, Option.none_or, mapped]) found long,
                or_iff_right stays]
              dsimp only
              split
              case isTrue noItems =>
                have unchanged : new.addFromNode (Node.ofBlock crates block) = new := by
                  rw [addFromNode, noItems]
                  rfl
                rw [unchanged]
                exact induction
              case isFalse items =>
                have nonempty : (new.addFromNode (Node.ofBlock crates block)).entries ≠
                    [] := by
                  simpa [addFromNode, new] using items
                rcases walkLoop_ok_of_entries nonempty with ⟨result, walked⟩
                rw [walked]
                simp
          | none =>
              rw [walkLoop, unmapped, Option.none_or]
              cases mapped : boot.logicalToPhysical logical with
              | none =>
                  have stays : ¬LeavesImage image boot nodesize logical := by
                    simp [LeavesImage, mapped]
                  rw [or_iff_right stays]
                  exact induction
              | some target =>
                  cases target with
                  | mk devid phys =>
                      dsimp only
                      cases found : getRange image phys.toNat
                          (saturatingAdd phys.toNat nodesize) with
                      | none =>
                          have leaves : LeavesImage image boot nodesize logical := by
                            rw [LeavesImage, bootBlock, mapped]
                            exact ⟨rfl, found⟩
                          simp [new, leaves]
                      | some block =>
                          have stays : ¬LeavesImage image boot nodesize logical := by
                            rw [LeavesImage, bootBlock, mapped]
                            simp [found]
                          rw [or_iff_right stays]
                          dsimp only
                          cases parsed : Node.parse crates block with
                          | error error => exact induction
                          | ok node =>
                              rw [bootNode, bootBlock, mapped] at read
                              simp [found, parsed, Except.toOption] at read

end Failure

/-! ## The root of the chunk tree -/

def rootBlock (image : Bytes) (sb : Superblock) : Option Bytes :=
  bootBlock image (boot sb) sb.nodesize.toNat sb.chunkRoot

/-- The bootstrap map translates `chunk_root`, its `nodesize` bytes lie inside the
image, and they parse. -/
def ReadsRoot (crates : Crates) (image : Bytes) (sb : Superblock) : Prop :=
  ∃ devid phys block node,
    (boot sb).logicalToPhysical sb.chunkRoot = some (devid, phys) ∧
      getRange image phys.toNat (phys.toNat + sb.nodesize.toNat) = some block ∧
      Node.parse crates block = .ok node

section Root

variable {crates : Crates} {image : Bytes} {sb : Superblock}

theorem rootBlock_eq_some_iff {block : Bytes} :
    rootBlock image sb = some block ↔
      ∃ devid phys, (boot sb).logicalToPhysical sb.chunkRoot = some (devid, phys) ∧
        getRange image phys.toNat
          (saturatingAdd phys.toNat sb.nodesize.toNat) = some block := by
  rw [rootBlock, bootBlock, Option.bind_eq_some_iff]
  constructor
  · intro parts
    rcases parts with ⟨⟨devid, phys⟩, mapped, found⟩
    exact ⟨devid, phys, mapped, found⟩
  · intro parts
    rcases parts with ⟨devid, phys, mapped, found⟩
    exact ⟨(devid, phys), mapped, found⟩

theorem walk_eq_of_boot {target : UInt64 × UInt64}
    (mapped : (boot sb).logicalToPhysical sb.chunkRoot = some target) :
    walk crates image sb =
      walkLoop crates image (boot sb) sb.nodesize.toNat 4096 [sb.chunkRoot] new
        true :=
  walkLoop_of_mapped mapped

theorem walk_error_of_rootBlock (missing : rootBlock image sb = none) :
    ∃ error, walk crates image sb = .error error := by
  have unmapped : new.logicalToPhysical sb.chunkRoot = none := rfl
  rw [walk, walkLoop, unmapped, Option.none_or]
  cases mapped : (boot sb).logicalToPhysical sb.chunkRoot with
  | none => exact ⟨_, rfl⟩
  | some target =>
      rw [rootBlock, bootBlock, mapped, Option.bind_some] at missing
      simp only [missing]
      exact ⟨_, rfl⟩

theorem walk_eq_new_of_short {block : Bytes} (found : rootBlock image sb = some block)
    (short : block.length < btrfsHeaderSize) : walk crates image sb = .ok new := by
  have unmapped : new.logicalToPhysical sb.chunkRoot = none := rfl
  rcases rootBlock_eq_some_iff.mp found with ⟨devid, phys, mapped, inside⟩
  rw [walk, walkLoop, unmapped, Option.none_or, mapped]
  simp only [inside, Node.parse, Header.parse, if_pos short]
  rw [walkLoop]

/-- A successful walk has read the root of the chunk tree exactly when a root
block inside the image implies a node size of at least a header. -/
theorem walk_ok_reads_root_iff (bounded : image.length < usizeMax) :
    (∀ map, walk crates image sb = .ok map → ReadsRoot crates image sb) ↔
      rootBlock image sb = none ∨ btrfsHeaderSize ≤ sb.nodesize.toNat := by
  constructor
  · intro reads
    cases found : rootBlock image sb with
    | none => exact .inl rfl
    | some block =>
        right
        rcases rootBlock_eq_some_iff.mp found with ⟨_, phys, mapped, inside⟩
        rw [getRange_saturating bounded] at inside
        have size := length_of_getRange inside
        rw [Nat.add_sub_cancel_left] at size
        by_contra small
        rcases reads new (walk_eq_new_of_short found (by omega)) with
          ⟨_, _, again, node, mappedAgain, insideAgain, parsed⟩
        rw [mapped] at mappedAgain
        cases mappedAgain
        have long := (Node.parse_eq_ok_iff.mp parsed).1
        rw [length_of_getRange insideAgain, Nat.add_sub_cancel_left] at long
        exact small long
  · intro either map walked
    cases found : rootBlock image sb with
    | none =>
        have failure : ∃ error, walk crates image sb = .error error :=
          walk_error_of_rootBlock found
        rcases failure with ⟨error, failed⟩
        rw [walked] at failed
        cases failed
    | some block =>
        rcases rootBlock_eq_some_iff.mp found with ⟨devid, phys, mapped, inside⟩
        rw [getRange_saturating bounded] at inside
        have long := either.resolve_left (by rw [found]; simp)
        have size := length_of_getRange inside
        rw [Nat.add_sub_cancel_left] at size
        exact ⟨devid, phys, block, _, mapped, inside,
          Node.parse_eq_ok_iff.mpr ⟨by rwa [size], rfl⟩⟩

end Root

/-! A disk whose node size is below the size of a header. -/

def tiny : Disk where
  length := 0x14000
  root := 0
  nodesize := 64
  blocks := [List.replicate 64 0]
  magic := Disk.magic_writeSuperblock _ _
  describes := Disk.describes_writeSuperblock _ _
  sized := by decide +kernel
  fits := by decide +kernel
  short := Disk.small_short

theorem rootBlock_disk {disk : Disk} {block : Bytes} {rest : List Bytes}
    (first : disk.blocks = block :: rest) :
    rootBlock disk.image disk.sb = some block := by
  have chunkRoot : disk.sb.chunkRoot = 0x100000 := disk.describes.2.1
  have zeroth : disk.blocks[0]? = some block := by
    rw [first]
    rfl
  rw [rootBlock_eq_some_iff, Disk.boot_sb, chunkRoot]
  exact ⟨1, 0x12000, rfl, Disk.getRange_image zeroth rfl⟩

theorem nodesize_tiny : tiny.sb.nodesize = 64 := tiny.describes.2.2.1

theorem length_image_tiny : tiny.image.length < usizeMax := by
  rw [Disk.length_image]
  exact tiny.short

theorem walk_ok_reads_root_iff_in_tiny :
    (∀ map, walk Crates.withoutCodecs tiny.image tiny.sb = .ok map →
        ReadsRoot Crates.withoutCodecs tiny.image tiny.sb) ↔
      rootBlock tiny.image tiny.sb = none ∨
        btrfsHeaderSize ≤ tiny.sb.nodesize.toNat :=
  walk_ok_reads_root_iff length_image_tiny

/-- The walk of the disk yields an empty map, with no node read. -/
theorem walk_ok_without_root :
    Superblock.parse Crates.withoutCodecs tiny.superblock = .ok tiny.sb ∧
      walk Crates.withoutCodecs tiny.image tiny.sb = .ok new ∧
      ¬ReadsRoot Crates.withoutCodecs tiny.image tiny.sb := by
  have walked : walk Crates.withoutCodecs tiny.image tiny.sb = .ok new :=
    walk_eq_new_of_short (rootBlock_disk rfl) (by decide)
  refine ⟨tiny.parse_superblock, walked, fun reads => ?_⟩
  rcases reads with ⟨_, _, block, node, _, inside, parsed⟩
  have long := (Node.parse_eq_ok_iff.mp parsed).1
  rw [length_of_getRange inside, Nat.add_sub_cancel_left, nodesize_tiny] at long
  exact absurd long (by decide)

/-! ## Pointers below the root -/

/-- Only a missing root fails the walk, exactly when the root is missing or no
address out of the image is popped before the first chunk item. -/
theorem walk_error_only_root_iff {crates : Crates} {image : Bytes}
    {sb : Superblock} :
    (∀ error, walk crates image sb = .error error → rootBlock image sb = none) ↔
      rootBlock image sb = none ∨
        ∀ logical ∈ popsBeforeChunk crates image (boot sb) sb.nodesize.toNat 4096
            [sb.chunkRoot],
          ¬LeavesImage image (boot sb) sb.nodesize.toNat logical := by
  cases found : rootBlock image sb with
  | none => simp
  | some block =>
      rcases rootBlock_eq_some_iff.mp found with ⟨devid, phys, mapped, _⟩
      have failure : (∃ error, walk crates image sb = .error error) ↔
          ∃ logical ∈ popsBeforeChunk crates image (boot sb) sb.nodesize.toNat 4096
              [sb.chunkRoot],
            LeavesImage image (boot sb) sb.nodesize.toNat logical := by
        rw [walk_eq_of_boot mapped]
        exact walkLoop_error_iff
      simp only [reduceCtorEq, false_or, imp_false, ← not_exists, failure]
      simp

/-! The chunk tree of an interior root and a leaf, and a pointer out of the image
next to the leaf. -/

def strayRoot : Bytes :=
  Writer.interior 512 (Disk.chunkNode 0x100000) 1 [0x100200, 0x110000]

theorem sized_stray :
    ∀ block ∈ [strayRoot, branchedLeaf], block.length = (512 : UInt32).toNat := by
  decide +kernel

theorem stray_fits :
    Disk.physical + (512 : UInt32).toNat * [strayRoot, branchedLeaf].length ≤ 0x14000 :=
  show Disk.physical + 512 * 2 ≤ 0x14000 by decide

def stray : Disk where
  length := 0x14000
  root := 0
  nodesize := 512
  blocks := [strayRoot, branchedLeaf]
  magic := branched.magic
  describes := branched.describes
  sized := sized_stray
  fits := stray_fits
  short := Disk.small_short

theorem strayRoot_keyPtrs :
    (Node.ofBlock Crates.withoutCodecs strayRoot).chunkItems = [] ∧
      ((Node.ofBlock Crates.withoutCodecs strayRoot).keyPtrs.map
        KeyPtr.blockptr).reverse = [0x110000, 0x100200] := by
  decide +kernel

theorem leavesImage_stray :
    0x110000 ∈ popsBeforeChunk Crates.withoutCodecs stray.image (boot stray.sb)
        stray.sb.nodesize.toNat 4096 [stray.sb.chunkRoot] ∧
      LeavesImage stray.image (boot stray.sb) stray.sb.nodesize.toNat 0x110000 := by
  have chunkRoot : stray.sb.chunkRoot = 0x100000 := stray.describes.2.1
  have nodesize : stray.sb.nodesize = 512 := stray.describes.2.2.1
  have root : bootNode Crates.withoutCodecs stray.image (boot stray.sb)
      stray.sb.nodesize.toNat 0x100000 =
        some (Node.ofBlock Crates.withoutCodecs strayRoot) := by
    apply bootNode_disk 0 0x12000 rfl (by decide +kernel) ?_ rfl
    rw [Disk.boot_sb]
    rfl
  have mapped : (boot stray.sb).logicalToPhysical 0x110000 = some (1, 0x22000) := by
    rw [Disk.boot_sb]
    rfl
  constructor
  · rw [chunkRoot, popsBeforeChunk, root]
    simp only [strayRoot_keyPtrs, if_true]
    rw [List.cons_append, popsBeforeChunk]
    exact List.mem_cons_of_mem _ List.mem_cons_self
  · refine ⟨by rw [mapped]; rfl, ?_⟩
    rw [bootBlock, mapped, Option.bind_some, nodesize, getRange, if_neg]
    rw [Disk.length_image]
    decide

/-- The root can be read, and the walk fails. -/
theorem walk_error_on_stray_pointer :
    (rootBlock stray.image stray.sb).isSome ∧
      ∃ error, walk Crates.withoutCodecs stray.image stray.sb = .error error := by
  have found : rootBlock stray.image stray.sb = some strayRoot := rootBlock_disk rfl
  rcases rootBlock_eq_some_iff.mp found with ⟨_, _, mapped, _⟩
  refine ⟨by rw [found]; rfl, ?_⟩
  rw [walk_eq_of_boot mapped, walkLoop_error_iff]
  exact ⟨0x110000, leavesImage_stray⟩

end BtrfsForensic.ChunkMap
