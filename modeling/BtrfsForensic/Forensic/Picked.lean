import BtrfsForensic.Forensic.Sweep

namespace BtrfsForensic

/-! The anomalies of one kind: each check of the audit reports one kind only, so that
what the audit says in a kind is what one check says. -/

/-- The values that a list of anomalies names in the kinds picked. -/
def pickAnomalies {α : Type} (pick : AnomalyKind → Option α) (out : List Anomaly) :
    List α :=
  out.filterMap fun anomaly => pick anomaly.kind

section Picked

variable {α : Type} {pick : AnomalyKind → Option α} {out : List Anomaly} {value : α}

theorem pickAnomalies_append (first second : List Anomaly) :
    pickAnomalies pick (first ++ second) =
      pickAnomalies pick first ++ pickAnomalies pick second :=
  List.filterMap_append

theorem pickAnomalies_eq_nil (silent : ∀ anomaly ∈ out, pick anomaly.kind = none) :
    pickAnomalies pick out = [] :=
  List.filterMap_eq_nil_iff.mpr silent

theorem mem_pickAnomalies_iff :
    value ∈ pickAnomalies pick out ↔ ∃ anomaly ∈ out, pick anomaly.kind = some value :=
  List.mem_filterMap

/-! ## Silent checks -/

variable (pick) {crates : Crates} {image sbBlock : Bytes} {sb : Superblock}
  {map : ChunkMap}

theorem pick_superblockReports
    (silent : ∀ offset, pick (.superblockCrcMismatch offset) = none) :
    pickAnomalies pick (superblockReports sb) = [] := by
  apply pickAnomalies_eq_nil
  intro anomaly member
  rw [superblockReports] at member
  split at member
  · rw [List.mem_singleton.mp member]
    exact silent _
  · cases member

theorem pick_checkRootReachable {field : String} {logical : UInt64}
    (silent : ∀ field value limit, pick (.impossibleGeometry field value limit) = none) :
    pickAnomalies pick (checkRootReachable crates [] image sb map field logical) = [] := by
  apply pickAnomalies_eq_nil
  intro anomaly member
  rw [kind_of_mem_checkRootReachable member]
  exact silent _ _ _

theorem pick_sweepReports {visits : List UInt64}
    (silent : ∀ bytenr offset, pick (.nodeCrcMismatch bytenr offset) = none) :
    pickAnomalies pick (visits.flatMap (sweepReports crates image sb map)) = [] := by
  apply pickAnomalies_eq_nil
  intro anomaly member
  rcases List.mem_flatMap.mp member with ⟨logical, _, reported⟩
  rw [(mem_sweepReports_iff.mp reported).2]
  exact silent _ _

theorem pick_checkBackupRoots {currentGen : UInt64} {imageLen : Nat}
    (silent : ∀ slot reason backupGen currentGen,
      pick (.backupRootDivergence slot reason backupGen currentGen) = none) :
    pickAnomalies pick (checkBackupRoots [] sbBlock currentGen imageLen) = [] := by
  apply pickAnomalies_eq_nil
  intro anomaly member
  rcases kind_of_mem_checkBackupRoots member with ⟨_, _, _, kind⟩
  rw [kind]
  exact silent _ _ _ _

theorem pick_scanOrphans (silent : ∀ inode, pick (.orphanedInode inode) = none) :
    pickAnomalies pick (scanOrphans crates [] image sb map) = [] := by
  apply pickAnomalies_eq_nil
  intro anomaly member
  rcases kind_of_mem_scanOrphans member with ⟨_, kind⟩
  rw [kind]
  exact silent _

end Picked

/-! ## The kinds of three checks -/

def orphanInode : AnomalyKind → Option UInt64
  | .orphanedInode inode => some inode
  | _ => none

def divergentSlot : AnomalyKind → Option Nat
  | .backupRootDivergence slot _ _ _ => some slot
  | _ => none

def mismatchBytenr : AnomalyKind → Option UInt64
  | .nodeCrcMismatch bytenr _ => some bytenr
  | _ => none

section Kinds

variable {crates : Crates} {image sbBlock : Bytes} {sb : Superblock}

theorem orphans_auditImage (parses : ParsesSuperblock crates image sbBlock sb) :
    pickAnomalies orphanInode (auditImage crates image) =
      pickAnomalies orphanInode
        (scanOrphans crates [] image sb (auditMap crates image sb)) := by
  rw [auditImage_eq parses]
  simp only [pickAnomalies_append]
  rw [pick_superblockReports orphanInode fun _ => rfl,
    pick_checkRootReachable orphanInode fun _ _ _ => rfl,
    pick_checkRootReachable orphanInode fun _ _ _ => rfl,
    pick_sweepReports orphanInode fun _ _ => rfl,
    pick_checkBackupRoots orphanInode fun _ _ _ _ => rfl]
  simp only [List.nil_append]

theorem divergences_auditImage (parses : ParsesSuperblock crates image sbBlock sb) :
    pickAnomalies divergentSlot (auditImage crates image) =
      pickAnomalies divergentSlot
        (checkBackupRoots [] sbBlock sb.generation image.length) := by
  rw [auditImage_eq parses]
  simp only [pickAnomalies_append]
  rw [pick_superblockReports divergentSlot fun _ => rfl,
    pick_checkRootReachable divergentSlot fun _ _ _ => rfl,
    pick_checkRootReachable divergentSlot fun _ _ _ => rfl,
    pick_sweepReports divergentSlot fun _ _ => rfl,
    pick_scanOrphans divergentSlot fun _ => rfl]
  simp only [List.nil_append, List.append_nil]

theorem mismatches_auditImage (parses : ParsesSuperblock crates image sbBlock sb) :
    pickAnomalies mismatchBytenr (auditImage crates image) =
      pickAnomalies mismatchBytenr
        (sweepNodeCrcs crates [] image sb (auditMap crates image sb)) := by
  rw [auditImage_eq parses, sweepNodeCrcs_eq]
  simp only [pickAnomalies_append]
  rw [pick_superblockReports mismatchBytenr fun _ => rfl,
    pick_checkRootReachable mismatchBytenr fun _ _ _ => rfl,
    pick_checkRootReachable mismatchBytenr fun _ _ _ => rfl,
    pick_checkBackupRoots mismatchBytenr fun _ _ _ _ => rfl,
    pick_scanOrphans mismatchBytenr fun _ => rfl]
  simp only [List.nil_append, List.append_nil]
  rfl

end Kinds

end BtrfsForensic
