import BtrfsForensic.Core.FsTree
import BtrfsForensic.Foundation.Worklist
import BtrfsForensic.Forensic.Anomaly

namespace BtrfsForensic

/-! The image auditor: superblock checksum, root reachability, the node
checksum sweep, backup-root divergence and the orphan scan. -/

abbrev orphanObjectid : UInt64 := 0xFFFFFFFFFFFFFFFF - 4
abbrev orphanItemKey : UInt8 := 48

def superblockBlock (image : Bytes) : Option Bytes :=
  getRange image btrfsSuperInfoOffset.toNat
    (saturatingAdd btrfsSuperInfoOffset.toNat btrfsSuperInfoSize)

structure ParsesSuperblock (crates : Crates) (image sbBlock : Bytes)
    (sb : Superblock) : Prop where
  block : superblockBlock image = some sbBlock
  parsed : Superblock.parse crates sbBlock = .ok sb

theorem ParsesSuperblock.unique {crates : Crates} {image sbBlock otherBlock : Bytes}
    {sb otherSb : Superblock} (parses : ParsesSuperblock crates image sbBlock sb)
    (again : ParsesSuperblock crates image otherBlock otherSb) :
    sbBlock = otherBlock ∧ sb = otherSb := by
  cases parses.block.symm.trans again.block
  cases parses.parsed.symm.trans again.parsed
  exact ⟨rfl, rfl⟩

/-! ## Root reachability -/

/-- Address zero means "none" and is not a geometry error. -/
def checkRootReachable (crates : Crates) (out : List Anomaly) (image : Bytes)
    (sb : Superblock) (map : ChunkMap) (field : String) (logical : UInt64) :
    List Anomaly :=
  if logical = 0 then
    out
  else
    match readNode crates image sb map logical with
    | .error _ =>
        out ++ [Anomaly.new (.impossibleGeometry field logical image.length)]
    | .ok _ => out

/-! ## Backup roots -/

/-- The first of the three divergences a slot shows. The last compares a
logical address with the length of the image. -/
def backupDivergence (slot : Nat) (backup : RootBackup) (currentGen : UInt64)
    (imageLen : Nat) : List Anomaly :=
  if currentGen < backup.treeRootGen then
    [Anomaly.new (.backupRootDivergence slot
      "tree_root generation newer than the current committed generation"
      backup.treeRootGen currentGen)]
  else if currentGen < backup.fsRootGen then
    [Anomaly.new (.backupRootDivergence slot
      "fs_root generation newer than the current committed generation"
      backup.fsRootGen currentGen)]
  else if backup.treeRoot ≠ 0 ∧ imageLen ≤ backup.treeRoot.toNat then
    [Anomaly.new (.backupRootDivergence slot
      "tree_root logical address lies past the end of the image"
      backup.treeRootGen currentGen)]
  else
    []

def checkBackupRoots (out : List Anomaly) (sbBlock : Bytes) (currentGen : UInt64)
    (imageLen : Nat) : List Anomaly :=
  out ++ (parseBackupRoots sbBlock).zipIdx.flatMap fun (backup, slot) =>
    backupDivergence slot backup currentGen imageLen

/-! ## The node checksum sweep -/

/-- `root` and `chunk_root`, then both roots of every backup slot; the last
one pushed is the head of the stack. -/
def sweepSeeds (image : Bytes) (sb : Superblock) : List UInt64 :=
  let live := [sb.root, sb.chunkRoot]
  let backups := match superblockBlock image with
    | some sbBlock => (parseBackupRoots sbBlock).flatMap fun backup =>
        [backup.treeRoot, backup.fsRoot]
    | none => []
  ((live ++ backups).filter (· ≠ 0)).reverse

/-- A block counts as a node of this filesystem when it names itself. -/
def Node.namesItself (sb : Superblock) (logical : UInt64) (node : Node) : Prop :=
  node.header.bytenr = logical ∧ node.header.fsid = sb.fsid

instance (sb : Superblock) (logical : UInt64) (node : Node) :
    Decidable (node.namesItself sb logical) :=
  inferInstanceAs (Decidable (_ ∧ _))

/-- The offset a mismatch is reported at: the chunk map's translation, else
the logical address itself. -/
def sweepOffset (map : ChunkMap) (logical : UInt64) : UInt64 :=
  match map.logicalToPhysical logical with
  | some (_, phys) => phys
  | none => logical

def sweepLoop (crates : Crates) (image : Bytes) (sb : Superblock)
    (map : ChunkMap) : (budget : Nat) → (stack seen : List UInt64) →
    (out : List Anomaly) → List Anomaly
  | _, [], _, out => out
  | 0, _ :: _, _, out => out
  | budget + 1, logical :: stack, seen, out =>
      if logical ∈ seen then
        sweepLoop crates image sb map budget stack seen out
      else
        match readNode crates image sb map logical with
        | .error _ =>
            sweepLoop crates image sb map budget stack (logical :: seen) out
        | .ok node =>
            if ¬node.namesItself sb logical then
              sweepLoop crates image sb map budget stack (logical :: seen) out
            else
              let offset := sweepOffset map logical
              let out :=
                if node.crcValid = some false then
                  out ++ [Anomaly.new (.nodeCrcMismatch node.header.bytenr offset)]
                else
                  out
              let stack :=
                if ¬node.isLeaf then
                  ((node.keyPtrs.map KeyPtr.blockptr).filter (· ≠ 0)).reverse ++
                    stack
                else
                  stack
              sweepLoop crates image sb map budget stack (logical :: seen) out

abbrev sweepBudget : Nat := 8192

def sweepNodeCrcs (crates : Crates) (out : List Anomaly) (image : Bytes)
    (sb : Superblock) (map : ChunkMap) : List Anomaly :=
  sweepLoop crates image sb map sweepBudget (sweepSeeds image sb) [] out

/-! ## The orphan scan -/

/-- Appends the values that are not yet in the list, in order. -/
def appendNew (known : List UInt64) (values : List UInt64) : List UInt64 :=
  values.foldl (fun known value =>
    if value ∈ known then known else known ++ [value]) known

def orphanRoots (crates : Crates) (image : Bytes) (sb : Superblock)
    (map : ChunkMap) : List UInt64 :=
  let live := match fsTreeRoot crates image sb map with
    | .ok rootItem => [rootItem.bytenr]
    | .error _ => []
  match superblockBlock image with
  | some sbBlock => appendNew live
      (((parseBackupRoots sbBlock).map RootBackup.fsRoot).filter (· ≠ 0))
  | none => live

def orphansAt (crates : Crates) (image : Bytes) (sb : Superblock)
    (map : ChunkMap) (logical : UInt64) : List UInt64 :=
  match readNode crates image sb map logical with
  | .error _ => []
  | .ok leaf =>
      if leaf.header.owner ≠ fsTreeObjectid then
        []
      else
        (leaf.leafItems.filter fun item =>
          item.1.objectid = orphanObjectid ∧ item.1.keyType = orphanItemKey).map
            fun item => item.1.offset

def scanOrphans (crates : Crates) (out : List Anomaly) (image : Bytes)
    (sb : Superblock) (map : ChunkMap) : List Anomaly :=
  let inodes := (orphanRoots crates image sb map).flatMap
    (orphansAt crates image sb map)
  out ++ (appendNew [] inodes).map fun inode => Anomaly.new (.orphanedInode inode)

/-! ## The audit -/

/-- `ChunkMap::walk(..).unwrap_or_default()`: an empty map when the walk
fails. -/
def auditMap (crates : Crates) (image : Bytes) (sb : Superblock) : ChunkMap :=
  match ChunkMap.walk crates image sb with
  | .ok map => map
  | .error _ => ChunkMap.new

def auditImage (crates : Crates) (image : Bytes) : List Anomaly :=
  match superblockBlock image with
  | none => []
  | some sbBlock =>
      match Superblock.parse crates sbBlock with
      | .error _ => []
      | .ok sb =>
          let out :=
            if sb.crcValid = some false then
              [Anomaly.new (.superblockCrcMismatch btrfsSuperInfoOffset)]
            else
              []
          let map := auditMap crates image sb
          let out := checkRootReachable crates out image sb map "root" sb.root
          let out := checkRootReachable crates out image sb map "chunk_root"
            sb.chunkRoot
          let out := sweepNodeCrcs crates out image sb map
          let out := checkBackupRoots out sbBlock sb.generation image.length
          scanOrphans crates out image sb map

end BtrfsForensic
