import BtrfsForensic.Forensic.Evidence
import BtrfsForensic.Forensic.Picked
import BtrfsForensic.Forensic.Recovery

namespace BtrfsForensic

/-! The node checksum sweep ends and is sound, whatever graph the key-pointers make:
each node is reported once, when it is reached, read and found wrong. -/

/-! ## The run of the loop -/

structure SweepState where
  budget : Nat
  stack : List UInt64
  seen : List UInt64
  out : List Anomaly

section Run

variable (crates : Crates) (image : Bytes) (sb : Superblock) (map : ChunkMap)

/-- One iteration, or `none` where the loop is left: the stack is empty or the budget
spent. -/
def sweepStep (state : SweepState) : Option SweepState :=
  match state.stack, state.budget with
  | [], _ => none
  | _ :: _, 0 => none
  | logical :: stack, budget + 1 =>
      if logical ∈ state.seen then
        some ⟨budget, stack, state.seen, state.out⟩
      else
        some ⟨budget, (sweepChildren crates image sb map logical).reverse ++ stack,
          logical :: state.seen, state.out ++ sweepReports crates image sb map logical⟩

def sweepSteps : (count : Nat) → SweepState → Option SweepState
  | 0, state => some state
  | count + 1, state => (sweepStep crates image sb map state).bind (sweepSteps count)

/-- The loop is left after so many iterations, with the given anomalies. -/
def SweepEnds (count : Nat) (start : SweepState) (out : List Anomaly) : Prop :=
  ∃ last, sweepSteps crates image sb map count start = some last ∧
    sweepStep crates image sb map last = none ∧ last.out = out

end Run

section Soundness

variable {crates : Crates} {image sbBlock : Bytes} {sb : Superblock} {map : ChunkMap}

theorem SweepEnds.succ {count : Nat} {start next : SweepState} {out : List Anomaly}
    (step : sweepStep crates image sb map start = some next)
    (ends : SweepEnds crates image sb map count next out) :
    SweepEnds crates image sb map (count + 1) start out := by
  rcases ends with ⟨last, steps, left, same⟩
  exact ⟨last, by rw [sweepSteps, step, Option.bind_some, steps], left, same⟩

/-- Each iteration spends the budget, so the loop is left with what it returns. -/
theorem exists_sweepEnds (budget : Nat) (stack seen : List UInt64)
    (out : List Anomaly) :
    ∃ count ≤ budget, SweepEnds crates image sb map count ⟨budget, stack, seen, out⟩
      (sweepLoop crates image sb map budget stack seen out) := by
  induction budget generalizing stack seen out with
  | zero =>
      cases stack with
      | nil => exact ⟨0, Nat.le_refl _, _, rfl, rfl, rfl⟩
      | cons logical stack => exact ⟨0, Nat.le_refl _, _, rfl, rfl, rfl⟩
  | succ budget induction =>
      cases stack with
      | nil => exact ⟨0, Nat.zero_le _, _, rfl, rfl, rfl⟩
      | cons logical stack =>
          by_cases known : logical ∈ seen
          · rcases induction stack seen out with ⟨count, within, ends⟩
            refine ⟨count + 1, Nat.succ_le_succ within, ?_⟩
            rw [sweepLoop, if_pos known]
            exact ends.succ (by simp [sweepStep, known])
          · rcases induction ((sweepChildren crates image sb map logical).reverse ++ stack)
              (logical :: seen) (out ++ sweepReports crates image sb map logical) with
              ⟨count, within, ends⟩
            refine ⟨count + 1, Nat.succ_le_succ within, ?_⟩
            rw [sweepLoop_step known]
            exact ends.succ (by simp [sweepStep, known])

/-! ## What is reported -/

theorem pick_sweepReports_sublist (logical : UInt64) :
    (pickAnomalies mismatchBytenr (sweepReports crates image sb map logical)).Sublist
      [logical] := by
  rw [sweepReports]
  split
  · split
    · exact List.Sublist.refl _
    · exact List.nil_sublist _
  · exact List.nil_sublist _

theorem mem_pick_sweepReports_iff {logical bytenr : UInt64} :
    bytenr ∈ pickAnomalies mismatchBytenr (sweepReports crates image sb map logical) ↔
      CorruptNode crates image sb map logical ∧ bytenr = logical := by
  rw [mem_pickAnomalies_iff]
  simp only [mem_sweepReports_iff]
  constructor
  · intro found
    rcases found with ⟨_, ⟨corrupt, rfl⟩, names⟩
    exact ⟨corrupt, (Option.some.inj names).symm⟩
  · intro parts
    rcases parts with ⟨corrupt, rfl⟩
    exact ⟨_, ⟨corrupt, rfl⟩, rfl⟩

theorem mismatches_eq (parses : ParsesSuperblock crates image sbBlock sb) :
    pickAnomalies mismatchBytenr (auditImage crates image) =
      (sweepVisits crates image sb (auditMap crates image sb)).flatMap fun logical =>
        pickAnomalies mismatchBytenr
          (sweepReports crates image sb (auditMap crates image sb) logical) := by
  rw [mismatches_auditImage parses, sweepNodeCrcs_eq, List.nil_append]
  exact List.filterMap_flatMap

theorem mismatches_sublist (parses : ParsesSuperblock crates image sbBlock sb) :
    (pickAnomalies mismatchBytenr (auditImage crates image)).Sublist
      (sweepVisits crates image sb (auditMap crates image sb)) := by
  rw [mismatches_eq parses]
  induction sweepVisits crates image sb (auditMap crates image sb) with
  | nil => exact List.Sublist.refl _
  | cons logical visits induction =>
      rw [List.flatMap_cons]
      exact (pick_sweepReports_sublist logical).append induction

theorem mem_mismatches_iff (parses : ParsesSuperblock crates image sbBlock sb)
    {bytenr : UInt64} :
    bytenr ∈ pickAnomalies mismatchBytenr (auditImage crates image) ↔
      bytenr ∈ sweepVisits crates image sb (auditMap crates image sb) ∧
        CorruptNode crates image sb (auditMap crates image sb) bytenr := by
  rw [mismatches_eq parses, List.mem_flatMap]
  simp only [mem_pick_sweepReports_iff]
  constructor
  · intro found
    rcases found with ⟨_, visited, corrupt, rfl⟩
    exact ⟨visited, corrupt⟩
  · intro parts
    exact ⟨bytenr, parts.1, parts.2, rfl⟩

/-- The sweep leaves its loop after at most 8192 iterations; it reports no node
twice; and a node that it reports is reached from the seeds through nodes that name
themselves, can be read, and has a wrong checksum. -/
theorem sweep_sound (parses : ParsesSuperblock crates image sbBlock sb) :
    (∃ count ≤ sweepBudget,
      SweepEnds crates image sb (auditMap crates image sb) count
        ⟨sweepBudget, sweepSeeds image sb, [], []⟩
        (sweepNodeCrcs crates [] image sb (auditMap crates image sb))) ∧
    (pickAnomalies mismatchBytenr (auditImage crates image)).Nodup ∧
    ∀ bytenr ∈ pickAnomalies mismatchBytenr (auditImage crates image),
      Worklist.Reaches (sweepChildren crates image sb (auditMap crates image sb))
          (sweepSeeds image sb) bytenr ∧
        ∃ node, readNode crates image sb (auditMap crates image sb) bytenr = .ok node ∧
          node.crcValid = some false := by
  refine ⟨exists_sweepEnds _ _ _ _,
    (mismatches_sublist parses).nodup Worklist.nodup_visit, ?_⟩
  intro bytenr reported
  rcases (mem_mismatches_iff parses).mp reported with ⟨visited, node, accepted, invalid⟩
  exact ⟨Worklist.reaches_of_mem_visit visited, node,
    (acceptedNode_eq_some_iff.mp accepted).1, invalid⟩

end Soundness

/-! A volume whose old `FS_TREE` root points to itself, and twice to a leaf with a
wrong checksum. -/

def loopRoot : Bytes :=
  Volume.interior 0x100600 fsTreeObjectid 8 [0x100600, 0x100800, 0x100800]

def corruptLoopLeaf : Bytes :=
  Writer.missealed Crates.withoutCodecs
    (Volume.unsealedLeaf 0x100800 fsTreeObjectid 8 [])

def loopVolume : Volume :=
  Volume.backedUp [Volume.rootLeaf, emptyLeaf, loopRoot, corruptLoopLeaf]
    (by decide +kernel) (by decide)

theorem loopVolume_nodes :
    (Node.ofBlock Crates.withoutCodecs loopRoot).namesItself loopVolume.sb 0x100600 ∧
      (Node.ofBlock Crates.withoutCodecs loopRoot).keyPtrs.map KeyPtr.blockptr =
        [0x100600, 0x100800, 0x100800] ∧
      (Node.ofBlock Crates.withoutCodecs corruptLoopLeaf).namesItself loopVolume.sb
        0x100800 := by
  decide +kernel

theorem sweepChildren_loopRoot :
    sweepChildren Crates.withoutCodecs loopVolume.image loopVolume.sb Volume.map
      0x100600 = [0x100600, 0x100800, 0x100800] := by
  have accepted : acceptedNode Crates.withoutCodecs loopVolume.image loopVolume.sb
      Volume.map 0x100600 = some (Node.ofBlock Crates.withoutCodecs loopRoot) :=
    acceptedNode_eq_some_iff.mpr
      ⟨Volume.readNode_image 3 0x12600 rfl (by decide) (by decide), loopVolume_nodes.1⟩
  rw [sweepChildren, accepted]
  simp only [loopVolume_nodes.2.1]
  decide

theorem corruptNode_loopVolume :
    CorruptNode Crates.withoutCodecs loopVolume.image loopVolume.sb Volume.map
      0x100800 :=
  ⟨_, acceptedNode_eq_some_iff.mpr
      ⟨Volume.readNode_image 4 0x12800 rfl (by decide) (by decide),
        loopVolume_nodes.2.2⟩,
    congrArg some (Writer.verify_missealed (by decide +kernel))⟩

theorem mem_sweepVisits_loopVolume :
    0x100800 ∈ sweepVisits Crates.withoutCodecs loopVolume.image loopVolume.sb
      Volume.map := by
  have seeds : sweepSeeds loopVolume.image loopVolume.sb =
      [0x100600, 0x100200, 0x100000, 0x100200] := loopVolume.sweepSeeds_image
  rw [sweepVisits, seeds, Worklist.mem_visit_iff_comesTo]
  refine ⟨1, by decide, .expand List.not_mem_nil (by decide) ?_⟩
  rw [sweepChildren_loopRoot]
  exact .here (by decide)

/-- The corrupt leaf is reported once. -/
theorem sweep_sound_in_loopVolume :
    (pickAnomalies mismatchBytenr
        (auditImage Crates.withoutCodecs loopVolume.image)).Nodup ∧
      0x100800 ∈ pickAnomalies mismatchBytenr
        (auditImage Crates.withoutCodecs loopVolume.image) := by
  refine ⟨(sweep_sound loopVolume.parsesSuperblock).2.1,
    (mem_mismatches_iff loopVolume.parsesSuperblock).mpr ?_⟩
  rw [Volume.auditMap_image]
  exact ⟨mem_sweepVisits_loopVolume, corruptNode_loopVolume⟩

end BtrfsForensic
