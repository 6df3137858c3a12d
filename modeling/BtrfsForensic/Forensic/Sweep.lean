import BtrfsForensic.Forensic.Audit

namespace BtrfsForensic

/-! The node checksum sweep is a search of a graph: the addresses that hold a
node naming itself, and the key-pointers between them. -/

/-! ## The graph -/

section Graph

variable (crates : Crates) (image : Bytes) (sb : Superblock) (map : ChunkMap)

/-- The node at an address, when the sweep takes it for one. -/
def acceptedNode (logical : UInt64) : Option Node :=
  match readNode crates image sb map logical with
  | .ok node => if node.namesItself sb logical then some node else none
  | .error _ => none

def sweepChildren (logical : UInt64) : List UInt64 :=
  match acceptedNode crates image sb map logical with
  | some node => (node.keyPtrs.map KeyPtr.blockptr).filter (· ≠ 0)
  | none => []

/-- What the sweep reports when it first comes to an address. -/
def sweepReports (logical : UInt64) : List Anomaly :=
  match acceptedNode crates image sb map logical with
  | some node =>
      if node.crcValid = some false then
        [Anomaly.new (.nodeCrcMismatch logical (sweepOffset map logical))]
      else
        []
  | none => []

def sweepVisits : List UInt64 :=
  Worklist.visit (sweepChildren crates image sb map) sweepBudget
    (sweepSeeds image sb) []

end Graph

section Refinement

variable {crates : Crates} {image : Bytes} {sb : Superblock} {map : ChunkMap}

theorem acceptedNode_eq_some_iff {logical : UInt64} {node : Node} :
    acceptedNode crates image sb map logical = some node ↔
      readNode crates image sb map logical = .ok node ∧
        node.namesItself sb logical := by
  rw [acceptedNode]
  cases readNode crates image sb map logical with
  | error error => simp
  | ok found =>
      simp only [Except.ok.injEq]
      split
      case isTrue names =>
        simp only [Option.some.injEq]
        exact ⟨fun equal => ⟨equal, equal ▸ names⟩, fun parts => parts.1⟩
      case isFalse other =>
        simp only [reduceCtorEq, false_iff]
        exact fun parts => other (parts.1 ▸ parts.2)

theorem sweepChildren_of_isLeaf {logical : UInt64} {node : Node}
    (read : readNode crates image sb map logical = .ok node)
    (leaf : node.isLeaf = true) : sweepChildren crates image sb map logical = [] := by
  rw [sweepChildren, acceptedNode, read]
  dsimp only
  split
  case h_1 accepted =>
    split at accepted
    · cases accepted
      rw [Node.keyPtrs_of_isLeaf leaf]
      rfl
    · cases accepted
  case h_2 => rfl

/-- One pop of an address not seen before. -/
theorem sweepLoop_step {budget : Nat} {logical : UInt64} {stack seen : List UInt64}
    {out : List Anomaly} (fresh : logical ∉ seen) :
    sweepLoop crates image sb map (budget + 1) (logical :: stack) seen out =
      sweepLoop crates image sb map budget
        ((sweepChildren crates image sb map logical).reverse ++ stack)
        (logical :: seen) (out ++ sweepReports crates image sb map logical) := by
  rw [sweepLoop, if_neg fresh]
  cases read : readNode crates image sb map logical with
  | error error =>
      have rejected : acceptedNode crates image sb map logical = none := by
        rw [acceptedNode, read]
      simp [sweepReports, sweepChildren, rejected]
  | ok node =>
      by_cases names : node.namesItself sb logical
      · have accepted : acceptedNode crates image sb map logical = some node :=
          acceptedNode_eq_some_iff.mpr ⟨read, names⟩
        have pushed : (if ¬node.isLeaf then
              ((node.keyPtrs.map KeyPtr.blockptr).filter (· ≠ 0)).reverse ++ stack
            else stack) =
            (sweepChildren crates image sb map logical).reverse ++ stack := by
          rw [sweepChildren, accepted]
          dsimp only
          split
          case isTrue => rfl
          case isFalse leaf =>
            -- The code does not look at a leaf's key-pointers; it has none.
            rw [Node.keyPtrs_of_isLeaf (by simpa using leaf)]
            rfl
        have reported : (if node.crcValid = some false then
              out ++ [Anomaly.new (.nodeCrcMismatch node.header.bytenr
                (sweepOffset map logical))]
            else out) = out ++ sweepReports crates image sb map logical := by
          rw [sweepReports, accepted, names.1]
          dsimp only
          split
          · rfl
          · rw [List.append_nil]
        simp only [if_neg (not_not_intro names)]
        rw [pushed, reported]
      · have rejected : acceptedNode crates image sb map logical = none := by
          rw [acceptedNode, read]
          exact if_neg names
        simp [sweepReports, sweepChildren, rejected, names]

/-- The accumulating loop reports what the search visits. -/
theorem sweepLoop_eq_visit :
    ∀ (budget : Nat) (stack seen : List UInt64) (out : List Anomaly),
      sweepLoop crates image sb map budget stack seen out =
        out ++ (Worklist.visit (sweepChildren crates image sb map) budget stack
          seen).flatMap (sweepReports crates image sb map)
  | 0, [], _, out => by simp [sweepLoop, Worklist.visit]
  | 0, _ :: _, _, out => by simp [sweepLoop, Worklist.visit]
  | _ + 1, [], _, out => by simp [sweepLoop, Worklist.visit]
  | budget + 1, logical :: stack, seen, out => by
      by_cases known : logical ∈ seen
      · rw [sweepLoop, Worklist.visit, if_pos known, if_pos known]
        exact sweepLoop_eq_visit budget stack seen out
      · rw [sweepLoop_step known, Worklist.visit, if_neg known, List.flatMap_cons,
          ← List.append_assoc]
        exact sweepLoop_eq_visit budget _ (logical :: seen) _

theorem sweepNodeCrcs_eq (out : List Anomaly) :
    sweepNodeCrcs crates out image sb map =
      out ++ (sweepVisits crates image sb map).flatMap
        (sweepReports crates image sb map) :=
  sweepLoop_eq_visit _ _ _ _

theorem mem_sweepReports_iff {logical : UInt64} {anomaly : Anomaly} :
    anomaly ∈ sweepReports crates image sb map logical ↔
      (∃ node, acceptedNode crates image sb map logical = some node ∧
        node.crcValid = some false) ∧
      anomaly = Anomaly.new (.nodeCrcMismatch logical (sweepOffset map logical)) := by
  rw [sweepReports]
  cases acceptedNode crates image sb map logical with
  | none => simp
  | some node =>
      dsimp only
      split
      case isTrue invalid => simp [invalid]
      case isFalse valid => simp [valid]

end Refinement

/-! ## The audit and the sweep -/

/-- What the superblock's own checksum adds to the audit. -/
def superblockReports (sb : Superblock) : List Anomaly :=
  if sb.crcValid = some false then
    [Anomaly.new (.superblockCrcMismatch btrfsSuperInfoOffset)]
  else
    []

section Audit

variable {crates : Crates} {image sbBlock : Bytes} {sb : Superblock}
  {map : ChunkMap}

theorem checkRootReachable_eq (out : List Anomaly) (field : String)
    (logical : UInt64) :
    checkRootReachable crates out image sb map field logical =
      out ++ checkRootReachable crates [] image sb map field logical := by
  rw [checkRootReachable, checkRootReachable]
  split
  · rw [List.append_nil]
  · cases readNode crates image sb map logical with
    | error error => rfl
    | ok node => exact (List.append_nil out).symm

/-- The five checks are independent: the audit is what they report, in
order. -/
theorem auditImage_eq (parses : ParsesSuperblock crates image sbBlock sb) :
    auditImage crates image =
      superblockReports sb ++
        checkRootReachable crates [] image sb (auditMap crates image sb) "root"
          sb.root ++
        checkRootReachable crates [] image sb (auditMap crates image sb)
          "chunk_root" sb.chunkRoot ++
        (sweepVisits crates image sb (auditMap crates image sb)).flatMap
          (sweepReports crates image sb (auditMap crates image sb)) ++
        checkBackupRoots [] sbBlock sb.generation image.length ++
        scanOrphans crates [] image sb (auditMap crates image sb) := by
  rw [auditImage, parses.block]
  simp only [parses.parsed]
  rw [scanOrphans, checkBackupRoots, sweepNodeCrcs_eq, checkRootReachable_eq,
    checkRootReachable_eq (if sb.crcValid = some false then _ else _)]
  rw [checkBackupRoots, scanOrphans, List.nil_append, List.nil_append,
    superblockReports]

theorem kind_of_mem_checkRootReachable {field : String} {logical : UInt64}
    {anomaly : Anomaly}
    (member : anomaly ∈ checkRootReachable crates [] image sb map field logical) :
    anomaly.kind = .impossibleGeometry field logical image.length := by
  rw [checkRootReachable] at member
  split at member
  · cases member
  · cases read : readNode crates image sb map logical with
    | error error =>
        rw [read] at member
        simp only [List.nil_append, List.mem_singleton] at member
        rw [member]
        rfl
    | ok node =>
        rw [read] at member
        cases member

theorem kind_of_mem_checkBackupRoots {currentGen : UInt64} {imageLen : Nat}
    {anomaly : Anomaly}
    (member : anomaly ∈ checkBackupRoots [] sbBlock currentGen imageLen) :
    ∃ slot reason backupGen,
      anomaly.kind = .backupRootDivergence slot reason backupGen currentGen := by
  rw [checkBackupRoots, List.nil_append, List.mem_flatMap] at member
  rcases member with ⟨⟨backup, slot⟩, _, member⟩
  simp only [backupDivergence] at member
  split at member
  · exact ⟨slot, _, _, by rw [List.mem_singleton.mp member]; rfl⟩
  · split at member
    · exact ⟨slot, _, _, by rw [List.mem_singleton.mp member]; rfl⟩
    · split at member
      · exact ⟨slot, _, _, by rw [List.mem_singleton.mp member]; rfl⟩
      · cases member

theorem kind_of_mem_scanOrphans {anomaly : Anomaly}
    (member : anomaly ∈ scanOrphans crates [] image sb map) :
    ∃ inode, anomaly.kind = .orphanedInode inode := by
  rw [scanOrphans, List.nil_append, List.mem_map] at member
  rcases member with ⟨inode, _, rfl⟩
  exact ⟨inode, rfl⟩

/-- Only the superblock check and the sweep report checksum mismatches. -/
theorem checksumMismatch_mem_auditImage_iff
    (parses : ParsesSuperblock crates image sbBlock sb) {anomaly : Anomaly}
    (mismatch : anomaly.kind.IsChecksumMismatch) :
    anomaly ∈ auditImage crates image ↔
      anomaly ∈ superblockReports sb ∨
        ∃ logical ∈ sweepVisits crates image sb (auditMap crates image sb),
          anomaly ∈ sweepReports crates image sb (auditMap crates image sb)
            logical := by
  rw [auditImage_eq parses]
  simp only [List.mem_append, List.mem_flatMap]
  constructor
  · intro either
    rcases either with ((((own | root) | chunkRoot) | swept) | backup) | orphan
    · exact .inl own
    · rw [kind_of_mem_checkRootReachable root] at mismatch
      cases mismatch
    · rw [kind_of_mem_checkRootReachable chunkRoot] at mismatch
      cases mismatch
    · exact .inr swept
    · rcases kind_of_mem_checkBackupRoots backup with ⟨_, _, _, kind⟩
      rw [kind] at mismatch
      cases mismatch
    · rcases kind_of_mem_scanOrphans orphan with ⟨_, kind⟩
      rw [kind] at mismatch
      cases mismatch
  · intro either
    rcases either with own | swept
    · exact .inl (.inl (.inl (.inl (.inl own))))
    · exact .inl (.inl (.inr swept))

theorem superblockCrcMismatch_mem_auditImage_iff
    (parses : ParsesSuperblock crates image sbBlock sb) {offset : UInt64} :
    Anomaly.new (.superblockCrcMismatch offset) ∈ auditImage crates image ↔
      sb.crcValid = some false ∧ offset = btrfsSuperInfoOffset := by
  rw [checksumMismatch_mem_auditImage_iff parses (by trivial), superblockReports]
  have unswept : ¬∃ logical ∈ sweepVisits crates image sb (auditMap crates image sb),
      Anomaly.new (.superblockCrcMismatch offset) ∈
        sweepReports crates image sb (auditMap crates image sb) logical := by
    intro parts
    rcases parts with ⟨_, _, reported⟩
    cases congrArg Anomaly.kind (mem_sweepReports_iff.mp reported).2
  rw [or_iff_left unswept]
  split
  case isTrue invalid =>
    rw [List.mem_singleton]
    constructor
    · intro equal
      have kinds := congrArg Anomaly.kind equal
      simp only [Anomaly.new_kind, AnomalyKind.superblockCrcMismatch.injEq] at kinds
      exact ⟨invalid, kinds⟩
    · intro both
      rw [both.2]
  case isFalse valid => simp [valid]

/-- A node is reported exactly when the sweep comes to its address, takes it
for a node and finds its checksum wrong. -/
theorem nodeCrcMismatch_mem_auditImage_iff
    (parses : ParsesSuperblock crates image sbBlock sb) {bytenr offset : UInt64} :
    Anomaly.new (.nodeCrcMismatch bytenr offset) ∈ auditImage crates image ↔
      bytenr ∈ sweepVisits crates image sb (auditMap crates image sb) ∧
      offset = sweepOffset (auditMap crates image sb) bytenr ∧
      ∃ node, acceptedNode crates image sb (auditMap crates image sb) bytenr =
          some node ∧ node.crcValid = some false := by
  rw [checksumMismatch_mem_auditImage_iff parses (by trivial)]
  constructor
  · intro either
    rcases either with own | ⟨logical, visited, reported⟩
    · rw [superblockReports] at own
      split at own
      · cases congrArg Anomaly.kind (List.mem_singleton.mp own)
      · cases own
    · rcases mem_sweepReports_iff.mp reported with ⟨invalid, equal⟩
      have kinds := congrArg Anomaly.kind equal
      simp only [Anomaly.new_kind, AnomalyKind.nodeCrcMismatch.injEq] at kinds
      rw [kinds.1, kinds.2]
      exact ⟨visited, rfl, invalid⟩
  · intro parts
    rcases parts with ⟨visited, rfl, invalid⟩
    exact .inr ⟨bytenr, visited, mem_sweepReports_iff.mpr ⟨invalid, rfl⟩⟩

end Audit

end BtrfsForensic
