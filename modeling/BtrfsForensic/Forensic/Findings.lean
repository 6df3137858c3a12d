import BtrfsForensic.Forensic.Orphans

namespace BtrfsForensic

/-! What the audit shows of an anomaly, and the audit as a whole: no two anomalies show
alike, and they come check by check. -/

/-! ## Evidence -/

inductive Location
  | byteOffset (offset : UInt64)
  | other (space : String) (value : UInt64)
  deriving DecidableEq

structure Evidence where
  field : String
  value : String
  location : Option Location
  deriving DecidableEq

namespace AnomalyKind

def evidence : AnomalyKind → List Evidence
  | .superblockCrcMismatch offset =>
      [⟨"superblock", "crc32c mismatch", some (.byteOffset offset)⟩]
  | .nodeCrcMismatch bytenr offset =>
      [⟨"node", s!"logical {bytenr}", some (.byteOffset offset)⟩]
  | .backupRootDivergence slot reason backupGen currentGen =>
      [⟨"btrfs_root_backup", s!"slot {slot}: {reason} gen={backupGen} current={currentGen}",
        some (.other "btrfs:backup_root" (UInt64.ofNat slot))⟩]
  | .orphanedInode inode =>
      [⟨"orphan_item", s!"inode {inode}", some (.other "btrfs:inode" inode)⟩]
  | .impossibleGeometry field value limit => [⟨field, s!"{value} (limit {limit})", none⟩]

/-- The check that reports a kind, by its place in the audit. -/
def check : AnomalyKind → Nat
  | .superblockCrcMismatch _ => 0
  | .impossibleGeometry .. => 1
  | .nodeCrcMismatch .. => 2
  | .backupRootDivergence .. => 3
  | .orphanedInode _ => 4

theorem evidence_ne_of_check {first second : AnomalyKind} (apart : first.check ≠ second.check) :
    first.evidence ≠ second.evidence := by
  intro same
  cases first <;> cases second <;> first | exact apart rfl | simp [evidence] at same

theorem bytenr_of_evidence {bytenr other offset otherOffset : UInt64}
    (same : (nodeCrcMismatch bytenr offset).evidence =
      (nodeCrcMismatch other otherOffset).evidence) : bytenr = other := by
  have head := (List.cons.inj same).1
  have texts : "logical " ++ toString bytenr = "logical " ++ toString other := by
    simpa using congrArg Evidence.value head
  have digits : bytenr.toNat.repr = other.toNat.repr := (String.append_right_inj _).mp texts
  -- A number is the value of its digits.
  have value := congrArg (fun text : String => Nat.ofDigitChars 10 text.toList 0) digits
  simp only [Nat.toList_repr, Nat.ofDigitChars_ten_toDigits] at value
  exact UInt64.toNat_inj.mp value

end AnomalyKind

/-! ## The checks -/

/-- The order of the audit's anomalies: by check, and each with evidence of its own. -/
def Anomaly.Before (first second : Anomaly) : Prop :=
  first.kind.check ≤ second.kind.check ∧ first.kind.evidence ≠ second.kind.evidence

theorem Anomaly.before_of_check {first second : Anomaly}
    (earlier : first.kind.check < second.kind.check) : first.Before second :=
  ⟨Nat.le_of_lt earlier, AnomalyKind.evidence_ne_of_check (Nat.ne_of_lt earlier)⟩

theorem length_flatMap_le {α β : Type} {values : List α} {part : α → List β}
    (few : ∀ value, (part value).length ≤ 1) : (values.flatMap part).length ≤ values.length := by
  induction values with
  | nil => exact Nat.le_refl _
  | cons value values induction =>
      have own := few value
      rw [List.flatMap_cons, List.length_append, List.length_cons]
      omega

section Checks

variable {crates : Crates} {image sbBlock : Bytes} {sb : Superblock} {map : ChunkMap}

theorem length_checkRootReachable_le (field : String) (logical : UInt64) :
    (checkRootReachable crates [] image sb map field logical).length ≤ 1 := by
  rw [checkRootReachable]
  split
  · exact Nat.zero_le _
  · split
    · exact Nat.le_refl _
    · exact Nat.zero_le _

theorem pairwise_of_length_le {α : Type} {holds : α → α → Prop} {values : List α}
    (few : values.length ≤ 1) : values.Pairwise holds := by
  cases values with
  | nil => exact .nil
  | cons value values =>
      rw [List.eq_nil_of_length_eq_zero (Nat.le_zero.mp (Nat.le_of_succ_le_succ few))]
      exact List.pairwise_singleton _ _

theorem length_superblockReports_le : (superblockReports sb).length ≤ 1 := by
  rw [superblockReports]
  split
  · exact Nat.le_refl _
  · exact Nat.zero_le _

theorem pairwise_roots :
    (checkRootReachable crates [] image sb map "root" sb.root ++
      checkRootReachable crates [] image sb map "chunk_root" sb.chunkRoot).Pairwise
        Anomaly.Before := by
  refine List.pairwise_append.mpr
    ⟨pairwise_of_length_le (length_checkRootReachable_le _ _),
      pairwise_of_length_le (length_checkRootReachable_le _ _), ?_⟩
  intro first inRoot second inChunkRoot
  rw [Anomaly.Before, kind_of_mem_checkRootReachable inRoot,
    kind_of_mem_checkRootReachable inChunkRoot]
  refine ⟨Nat.le_refl _, fun same => ?_⟩
  have fields : "root" = "chunk_root" := congrArg Evidence.field (List.cons.inj same).1
  exact absurd fields (by decide)

theorem length_sweepReports_le (logical : UInt64) :
    (sweepReports crates image sb map logical).length ≤ 1 := by
  rw [sweepReports]
  split
  · split
    · exact Nat.le_refl _
    · exact Nat.zero_le _
  · exact Nat.zero_le _

theorem pairwise_sweep {visits : List UInt64} (distinct : visits.Nodup) :
    (visits.flatMap (sweepReports crates image sb map)).Pairwise Anomaly.Before := by
  rw [List.pairwise_flatMap]
  constructor
  · intro logical _
    exact pairwise_of_length_le (length_sweepReports_le logical)
  · apply distinct.imp
    intro logical other apart first inFirst second inSecond
    rw [(mem_sweepReports_iff.mp inFirst).2, (mem_sweepReports_iff.mp inSecond).2]
    exact ⟨Nat.le_refl _, fun same => apart (AnomalyKind.bytenr_of_evidence same)⟩

theorem length_parseBackupRootsFrom_le (remaining slot : Nat) :
    (parseBackupRootsFrom sbBlock remaining slot).length ≤ remaining := by
  induction remaining generalizing slot with
  | zero => exact Nat.le_refl _
  | succ remaining induction =>
      rw [parseBackupRootsFrom]
      split
      · exact Nat.zero_le _
      · exact Nat.succ_le_succ (induction _)

theorem length_backupDivergence_le (slot : Nat) (backup : RootBackup) (currentGen : UInt64)
    (imageLen : Nat) : (backupDivergence slot backup currentGen imageLen).length ≤ 1 := by
  rw [backupDivergence]
  split
  · exact Nat.le_refl _
  · split
    · exact Nat.le_refl _
    · split
      · exact Nat.le_refl _
      · exact Nat.zero_le _

theorem location_of_mem_backupDivergence {slot : Nat} {backup : RootBackup}
    {currentGen : UInt64} {imageLen : Nat} {anomaly : Anomaly}
    (member : anomaly ∈ backupDivergence slot backup currentGen imageLen) :
    anomaly.kind.check = 3 ∧ anomaly.kind.evidence.map Evidence.location =
      [some (.other "btrfs:backup_root" (UInt64.ofNat slot))] := by
  rw [backupDivergence] at member
  split at member
  · rw [List.mem_singleton.mp member]
    exact ⟨rfl, rfl⟩
  · split at member
    · rw [List.mem_singleton.mp member]
      exact ⟨rfl, rfl⟩
    · split at member
      · rw [List.mem_singleton.mp member]
        exact ⟨rfl, rfl⟩
      · cases member

theorem pairwise_backups (currentGen : UInt64) (imageLen : Nat) :
    (checkBackupRoots [] sbBlock currentGen imageLen).Pairwise Anomaly.Before := by
  rw [checkBackupRoots, List.nil_append, List.pairwise_flatMap]
  constructor
  · intro entry _
    exact pairwise_of_length_le (length_backupDivergence_le _ _ _ _)
  · have few : (parseBackupRoots sbBlock).length ≤ 4 := length_parseBackupRootsFrom_le _ _
    rw [List.pairwise_iff_getElem]
    intro slot later slotInside laterInside earlier first inFirst second inSecond
    rw [List.length_zipIdx] at slotInside laterInside
    rw [List.getElem_zipIdx] at inFirst inSecond
    rcases location_of_mem_backupDivergence inFirst with ⟨firstCheck, firstLocation⟩
    rcases location_of_mem_backupDivergence inSecond with ⟨secondCheck, secondLocation⟩
    refine ⟨by rw [firstCheck, secondCheck], fun same => ?_⟩
    rw [same, secondLocation] at firstLocation
    have slots := congrArg UInt64.toNat
      (Location.other.inj (Option.some.inj (List.cons.inj firstLocation).1)).2
    rw [UInt64.toNat_ofNat_of_lt' (show 0 + later < 2 ^ 64 by omega),
      UInt64.toNat_ofNat_of_lt' (show 0 + slot < 2 ^ 64 by omega)] at slots
    omega

theorem pairwise_orphans :
    (scanOrphans crates [] image sb map).Pairwise Anomaly.Before := by
  rw [scanOrphans, List.nil_append, List.pairwise_map]
  apply (nodup_appendNew List.nodup_nil).imp
  intro inode other apart
  refine ⟨Nat.le_refl _, fun same => apart ?_⟩
  have locations := congrArg Evidence.location (List.cons.inj same).1
  exact (Location.other.inj (Option.some.inj locations)).2

end Checks

/-! ## The audit -/

theorem check_superblockReports {sb : Superblock} {anomaly : Anomaly}
    (member : anomaly ∈ superblockReports sb) : anomaly.kind.check = 0 := by
  rw [superblockReports] at member
  split at member
  · rw [List.mem_singleton.mp member]
    rfl
  · cases member

section Audit

variable {crates : Crates} {image sbBlock : Bytes} {sb : Superblock} {map : ChunkMap}

theorem check_roots {anomaly : Anomaly}
    (member : anomaly ∈ checkRootReachable crates [] image sb map "root" sb.root ++
      checkRootReachable crates [] image sb map "chunk_root" sb.chunkRoot) :
    anomaly.kind.check = 1 := by
  rcases List.mem_append.mp member with root | chunkRoot
  · rw [kind_of_mem_checkRootReachable root]
    rfl
  · rw [kind_of_mem_checkRootReachable chunkRoot]
    rfl

theorem check_sweep {visits : List UInt64} {anomaly : Anomaly}
    (member : anomaly ∈ visits.flatMap (sweepReports crates image sb map)) :
    anomaly.kind.check = 2 := by
  rcases List.mem_flatMap.mp member with ⟨_, _, reported⟩
  rw [(mem_sweepReports_iff.mp reported).2]
  rfl

theorem check_backups {currentGen : UInt64} {imageLen : Nat} {anomaly : Anomaly}
    (member : anomaly ∈ checkBackupRoots [] sbBlock currentGen imageLen) :
    anomaly.kind.check = 3 := by
  rcases kind_of_mem_checkBackupRoots member with ⟨_, _, _, kind⟩
  rw [kind]
  rfl

theorem check_orphans {anomaly : Anomaly}
    (member : anomaly ∈ scanOrphans crates [] image sb map) : anomaly.kind.check = 4 := by
  rcases kind_of_mem_scanOrphans member with ⟨_, kind⟩
  rw [kind]
  rfl

theorem pairwise_append_of_check {early late : List Anomaly} {place : Nat}
    (inEarly : early.Pairwise Anomaly.Before) (inLate : late.Pairwise Anomaly.Before)
    (upTo : ∀ anomaly ∈ early, anomaly.kind.check < place)
    (here : ∀ anomaly ∈ late, anomaly.kind.check = place) :
    (early ++ late).Pairwise Anomaly.Before ∧
      ∀ anomaly ∈ early ++ late, anomaly.kind.check < place + 1 := by
  constructor
  · refine List.pairwise_append.mpr ⟨inEarly, inLate, fun first inFirst second inSecond => ?_⟩
    apply Anomaly.before_of_check
    rw [here second inSecond]
    exact upTo first inFirst
  · intro anomaly member
    rcases List.mem_append.mp member with first | second
    · exact Nat.lt_succ_of_lt (upTo anomaly first)
    · rw [here anomaly second]
      exact Nat.lt_succ_self _

theorem pairwise_checks (crates : Crates) (image sbBlock : Bytes) (sb : Superblock)
    (map : ChunkMap) :
    (superblockReports sb ++
      (checkRootReachable crates [] image sb map "root" sb.root ++
        checkRootReachable crates [] image sb map "chunk_root" sb.chunkRoot) ++
      (sweepVisits crates image sb map).flatMap (sweepReports crates image sb map) ++
      checkBackupRoots [] sbBlock sb.generation image.length ++
      scanOrphans crates [] image sb map).Pairwise Anomaly.Before := by
  have superblock : (superblockReports sb).Pairwise Anomaly.Before :=
    pairwise_of_length_le length_superblockReports_le
  have own : ∀ anomaly ∈ superblockReports sb, anomaly.kind.check < 1 := by
    intro anomaly member
    rw [check_superblockReports member]
    exact Nat.zero_lt_one
  have sweep : ((sweepVisits crates image sb map).flatMap
      (sweepReports crates image sb map)).Pairwise Anomaly.Before :=
    pairwise_sweep Worklist.nodup_visit
  rcases pairwise_append_of_check superblock pairwise_roots own fun _ member =>
    check_roots member with ⟨upToRoots, roots⟩
  rcases pairwise_append_of_check upToRoots sweep roots fun _ member =>
    check_sweep member with ⟨upToSweep, swept⟩
  rcases pairwise_append_of_check upToSweep (pairwise_backups _ _) swept fun _ member =>
    check_backups member with ⟨upToBackups, backups⟩
  exact (pairwise_append_of_check upToBackups pairwise_orphans backups fun _ member =>
    check_orphans member).1

theorem length_sweep_le :
    ((sweepVisits crates image sb map).flatMap (sweepReports crates image sb map)).length ≤
      sweepBudget := by
  have visits : (sweepVisits crates image sb map).length ≤ sweepBudget := by
    rw [sweepVisits]
    exact Worklist.length_visit_le _ _ _
  exact Nat.le_trans (length_flatMap_le fun logical => length_sweepReports_le logical) visits

theorem length_backups_le (currentGen : UInt64) (imageLen : Nat) :
    (checkBackupRoots [] sbBlock currentGen imageLen).length ≤ numBackupRoots := by
  have slots : (parseBackupRoots sbBlock).zipIdx.length ≤ numBackupRoots := by
    rw [List.length_zipIdx]
    exact length_parseBackupRootsFrom_le _ _
  rw [checkBackupRoots, List.nil_append]
  exact Nat.le_trans (length_flatMap_le fun entry => length_backupDivergence_le _ _ _ _) slots

end Audit

/-- No two anomalies of an audit show the same evidence, they come check by check, and but for
the orphans there are never more than the checks can make: one of the superblock, one of
each root, one of each node that the sweep's budget pays for, one of each backup slot. -/
theorem auditImage_distinct (crates : Crates) (image : Bytes) :
    ((auditImage crates image).map fun anomaly => anomaly.kind.evidence).Nodup ∧
      ((auditImage crates image).Pairwise fun first second =>
        first.kind.check ≤ second.kind.check) ∧
      ((auditImage crates image).filter fun anomaly => anomaly.kind.check < 4).length ≤
        1 + (1 + 1) + sweepBudget + numBackupRoots := by
  cases block : superblockBlock image with
  | none =>
      rw [auditImage, block]
      exact ⟨.nil, .nil, Nat.zero_le _⟩
  | some sbBlock =>
      cases parsed : Superblock.parse crates sbBlock with
      | error error =>
          rw [auditImage, block]
          simp only [parsed]
          exact ⟨.nil, .nil, Nat.zero_le _⟩
      | ok sb =>
          have ordered := pairwise_checks crates image sbBlock sb (auditMap crates image sb)
          have orphans : (scanOrphans crates [] image sb (auditMap crates image sb)).filter
              (fun anomaly => anomaly.kind.check < 4) = [] := by
            rw [List.filter_eq_nil_iff]
            intro anomaly member
            rw [check_orphans member]
            decide
          rw [auditImage_eq ⟨block, parsed⟩, List.append_assoc (superblockReports sb)]
          refine ⟨?_, ordered.imp fun before => before.1, ?_⟩
          · rw [List.Nodup, List.pairwise_map]
            exact ordered.imp fun before => before.2
          · rw [List.filter_append, orphans, List.append_nil]
            refine Nat.le_trans (List.length_filter_le _ _) ?_
            simp only [List.length_append]
            exact Nat.add_le_add (Nat.add_le_add (Nat.add_le_add length_superblockReports_le
              (Nat.add_le_add (length_checkRootReachable_le _ _)
                (length_checkRootReachable_le _ _))) length_sweep_le)
              (length_backups_le sb.generation image.length)

end BtrfsForensic
