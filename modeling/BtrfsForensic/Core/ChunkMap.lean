import BtrfsForensic.Core.Node
import BtrfsForensic.Core.Superblock

namespace BtrfsForensic

/-! Logical to physical translation: the chunk map, its construction from the
chunk tree, and reading a node by its logical address. -/

/-- A chunk's logical span and the `(devid, physical offset)` of its
stripes. -/
structure MapEntry where
  logicalStart : UInt64
  length : UInt64
  stripes : List (UInt64 × UInt64)
  deriving DecidableEq

def MapEntry.ofChunk (logicalStart : UInt64) (chunk : Chunk) : MapEntry where
  logicalStart := logicalStart
  length := chunk.length
  stripes := chunk.stripes.map fun stripe => (stripe.devid, stripe.offset)

def MapEntry.ofSysChunk (chunk : SysChunk) : MapEntry where
  logicalStart := chunk.key.offset
  length := chunk.length
  stripes := chunk.stripes.map fun stripe => (stripe.devid, stripe.offset)

structure ChunkMap where
  entries : List MapEntry
  deriving DecidableEq

namespace ChunkMap

def new : ChunkMap := ⟨[]⟩

def addFromNode (map : ChunkMap) (node : Node) : ChunkMap :=
  ⟨map.entries ++ node.chunkItems.map fun item => MapEntry.ofChunk item.1 item.2⟩

/-- The loop of `logicalToPhysical`. An entry whose end overflows ends the
search, as do a covering entry without a stripe and an overflowing sum. -/
def lookup (logical : UInt64) : List MapEntry → Option (UInt64 × UInt64)
  | [] => none
  | entry :: rest => do
      let stop ← checkedAdd entry.logicalStart entry.length
      if entry.logicalStart ≤ logical ∧ logical < stop then
        let (devid, physStart) ← entry.stripes.head?
        let delta := logical - entry.logicalStart
        let phys ← checkedAdd physStart delta
        some (devid, phys)
      else
        lookup logical rest

/-- The device and physical byte of a logical address. -/
def logicalToPhysical (map : ChunkMap) (logical : UInt64) :
    Option (UInt64 × UInt64) :=
  lookup logical map.entries

/-! ## Walking the chunk tree -/

/-- The map that seeds the walk: the entries of the `sys_chunk_array`. -/
def boot (sb : Superblock) : ChunkMap := ⟨sb.sysChunks.map MapEntry.ofSysChunk⟩

/-- `boot` is the bootstrap map; the head of `stack` is popped first. -/
def walkLoop (crates : Crates) (image : Bytes) (boot : ChunkMap)
    (nodesize : Nat) : (budget : Nat) → (stack : List UInt64) →
    (map : ChunkMap) → (bootstrappedRoot : Bool) → Except BtrfsError ChunkMap
  | _, [], map, _ => .ok map
  | 0, _ :: _, map, _ => .ok map
  | budget + 1, logical :: stack, map, bootstrappedRoot =>
      match (map.logicalToPhysical logical).or (boot.logicalToPhysical logical) with
      | none =>
          if !bootstrappedRoot then
            .error (.truncated "chunk_root logical (sys_chunk_array bootstrap)"
              logical.toNat 0)
          else
            walkLoop crates image boot nodesize budget stack map bootstrappedRoot
      | some (_, phys) =>
          let start := phys.toNat
          let stop := saturatingAdd start nodesize
          match getRange image start stop with
          | none =>
              if map.entries.isEmpty then
                .error (.truncated "chunk_root node (out of image)" stop
                  image.length)
              else
                walkLoop crates image boot nodesize budget stack map true
          | some block =>
              match Node.parse crates block with
              | .error _ =>
                  walkLoop crates image boot nodesize budget stack map true
              | .ok node =>
                  if node.isLeaf then
                    walkLoop crates image boot nodesize budget stack
                      (map.addFromNode node) true
                  else
                    walkLoop crates image boot nodesize budget
                      ((node.keyPtrs.map KeyPtr.blockptr).reverse ++ stack) map true

def walk (crates : Crates) (image : Bytes) (sb : Superblock) :
    Except BtrfsError ChunkMap :=
  walkLoop crates image (boot sb) sb.nodesize.toNat 4096 [sb.chunkRoot] new false

theorem walk_eq_of_leaf {crates : Crates} {image block : Bytes} {sb : Superblock}
    {devid phys : UInt64}
    (target : (boot sb).logicalToPhysical sb.chunkRoot = some (devid, phys))
    (found : getRange image phys.toNat
      (saturatingAdd phys.toNat sb.nodesize.toNat) = some block)
    (long : btrfsHeaderSize ≤ block.length)
    (leaf : (Node.ofBlock crates block).isLeaf) :
    walk crates image sb = .ok (new.addFromNode (Node.ofBlock crates block)) := by
  have unmapped : new.logicalToPhysical sb.chunkRoot = none := rfl
  have parsed : Node.parse crates block = .ok (Node.ofBlock crates block) :=
    Node.parse_eq_ok_iff.mpr ⟨long, rfl⟩
  rw [walk, walkLoop, unmapped, Option.none_or, target]
  simp only [found, parsed, leaf, if_true]
  rw [walkLoop]

end ChunkMap

/-! ## Reading a node -/

/-- The address `readNode` reads from: the chunk map's translation, else that
of the first `sys_chunk_array` entry that has one. -/
def nodePhysical (sb : Superblock) (chunkMap : ChunkMap) (logical : UInt64) :
    Option (UInt64 × UInt64) :=
  (chunkMap.logicalToPhysical logical).or <|
    sb.sysChunks.findSome? fun chunk =>
      (chunk.logicalToPhysical logical).map fun phys => (0, phys)

def readNode (crates : Crates) (image : Bytes) (sb : Superblock)
    (chunkMap : ChunkMap) (logical : UInt64) : Except BtrfsError Node :=
  match nodePhysical sb chunkMap logical with
  | none =>
      .error (.truncated "logical address (no chunk mapping)" logical.toNat 0)
  | some (_, phys) =>
      let start := phys.toNat
      let stop := saturatingAdd start sb.nodesize.toNat
      match getRange image start stop with
      | none =>
          .error (.truncated "node block (out of image)" stop image.length)
      | some block => Node.parse crates block

/-- A node is read exactly when its address translates to a block inside the
image that is long enough for a header. -/
theorem readNode_eq_ok_iff {crates : Crates} {image : Bytes} {sb : Superblock}
    {chunkMap : ChunkMap} {logical : UInt64} {node : Node} :
    readNode crates image sb chunkMap logical = .ok node ↔
      ∃ devid phys block, nodePhysical sb chunkMap logical = some (devid, phys) ∧
        getRange image phys.toNat
          (saturatingAdd phys.toNat sb.nodesize.toNat) = some block ∧
        btrfsHeaderSize ≤ block.length ∧ node = Node.ofBlock crates block := by
  rw [readNode]
  cases nodePhysical sb chunkMap logical with
  | none => simp
  | some target =>
      cases target with
      | mk devid phys =>
          cases found : getRange image phys.toNat
              (saturatingAdd phys.toNat sb.nodesize.toNat) with
          | none => simp [found]
          | some block => simp [found, Node.parse_eq_ok_iff]

end BtrfsForensic
