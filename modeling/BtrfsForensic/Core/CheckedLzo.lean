import BtrfsForensic.Core.CheckedParsing
import BtrfsForensic.Core.LzoFrame
import Mathlib.Data.List.GetD

namespace BtrfsForensic

/-! The LZO decoder with its arithmetic checked and its cursors and slices recorded. -/

/-- A decoding: the cursor at every test of the loop, the ranges of the source that were
sliced, and what is returned. -/
structure LzoRun where
  cursors : List Nat
  slices : List (Nat × Nat)
  outcome : Except BtrfsError Bytes

/-- The slices of one pass, and its outcome. -/
structure LzoPass where
  slices : List (Nat × Nat)
  step : Except BtrfsError LzoStep

namespace Checked

def le32Padded (src : Bytes) (off : Nat) : Checked Bytes := do
  let stop ← add off 4
  match getRange src off stop with
  | some bytes => return (← copied 4 bytes) ++ List.replicate 4 0
  | none => return List.replicate 8 0

/-- The cursor behind the padding, unless that runs off the end. -/
def lzoHeaderCursor (sectorsize total cur : Nat) : Checked (Option Nat) := do
  if sectorsize < (← add (← rem cur sectorsize) lzoLen) then
    let skip ← sub sectorsize (← rem cur sectorsize)
    let next := if cur + skip ≤ usizeMax then cur + skip else total
    return if total ≤ next then none else some next
  else
    return some cur

/-- The segment behind a header. -/
def lzoSegment (crates : Crates) (src : Bytes) (cap sectorsize total cur : Nat)
    (out : Bytes) : Checked LzoPass := do
  let segOutCap := saturatingAdd (saturatingAdd sectorsize (sectorsize / 16)) 64
  match ← lzoHeaderCursor sectorsize total cur with
  | none => return ⟨[], .ok .done⟩
  | some cur =>
      let stop ← add cur lzoLen
      match getRange src cur stop with
      | none => return ⟨[], .ok .done⟩
      | some segLenBytes =>
          let segLen := decodeLE (← (List.range lzoLen).mapM (get segLenBytes))
          let start ← add cur lzoLen
          if segLen = 0 then
            return ⟨[(cur, stop)], .ok .done⟩
          else
            let segStop := min (saturatingAdd start segLen) src.length
            match getRange src start segStop with
            | none => return ⟨[(cur, stop)], .ok .done⟩
            | some segment =>
                let taken := [(cur, stop), (start, segStop)]
                match crates.lzo segment segOutCap with
                | none =>
                    return ⟨taken, .error (.truncated
                      "LZO extent segment (decompression failed)" segLen out.length)⟩
                | some decoded =>
                    let want := min (← sub cap out.length) decoded.count
                    let whole ← slice decoded.buffer 0 decoded.count
                    let part := (getRange decoded.buffer 0 want).getD whole
                    return ⟨taken, .ok (.next (saturatingAdd start segLen) (out ++ part))⟩

def lzoLoop (crates : Crates) (src : Bytes) (cap sectorsize total : Nat) :
    (fuel cur : Nat) → (out : Bytes) → Checked LzoRun
  | 0, _, _ => .error .unfinished
  | fuel + 1, cur, out =>
      if cur < total ∧ out.length < cap then do
        let pass ← lzoSegment crates src cap sectorsize total cur out
        match pass.step with
        | .error error => return ⟨[cur], pass.slices, .error error⟩
        | .ok .done => return ⟨[cur], pass.slices, .ok out⟩
        | .ok (.next next out) =>
            let rest ← lzoLoop crates src cap sectorsize total fuel next out
            return ⟨cur :: rest.cursors, pass.slices ++ rest.slices, rest.outcome⟩
      else
        return ⟨[cur], [], .ok out⟩

def decompressLzoBtrfs (crates : Crates) (src : Bytes) (cap : Nat) (sectorsize : UInt32) :
    Checked LzoRun := do
  let sectorsize := max sectorsize.toNat 1
  let total := (← leU64 (← le32Padded src 0) 0).toNat
  let total := max (min total src.length) lzoLen
  let run ← lzoLoop crates src cap sectorsize total total lzoLen []
  return { run with outcome := run.outcome.map fun out => out.take cap }

section Lzo

variable {crates : Crates} {src out : Bytes} {cap sectorsize total cur : Nat}

theorem le32Padded_eq (src : Bytes) :
    le32Padded src 0 = .ok (BtrfsForensic.le32Padded src 0) := by
  rw [le32Padded, add_eq (by decide), bind_ok, BtrfsForensic.le32Padded]
  cases found : getRange src 0 (0 + 4) with
  | none => rfl
  | some bytes =>
      have size := length_of_getRange found
      have sized : copied 4 bytes = .ok bytes := copied_eq size
      simp only [sized, bind_ok]
      rfl

theorem lzoHeaderCursor_eq (sector : 0 < sectorsize) (narrow : sectorsize ≤ 2 ^ 32)
    (small : total < 2 ^ 63) (below : cur < total) :
    lzoHeaderCursor sectorsize total cur =
      .ok (if total ≤ BtrfsForensic.lzoHeaderCursor sectorsize cur then none
        else some (BtrfsForensic.lzoHeaderCursor sectorsize cur)) := by
  have limit : usizeMax = 2 ^ 64 - 1 := rfl
  have width : lzoLen = 4 := rfl
  have inside : cur % sectorsize < sectorsize := Nat.mod_lt cur sector
  rw [lzoHeaderCursor, rem_eq sector, bind_ok, add_eq (by omega), bind_ok,
    BtrfsForensic.lzoHeaderCursor]
  by_cases crosses : sectorsize < cur % sectorsize + lzoLen
  · rw [if_pos crosses, if_pos crosses, bind_ok, sub_eq (Nat.le_of_lt inside), bind_ok]
    simp only [if_pos (show cur + (sectorsize - cur % sectorsize) ≤ usizeMax by omega)]
    rfl
  · rw [if_neg crosses, if_neg crosses, if_neg (Nat.not_le_of_lt below)]
    rfl

theorem le_lzoHeaderCursor (sectorsize cur : Nat) :
    cur ≤ BtrfsForensic.lzoHeaderCursor sectorsize cur := by
  rw [BtrfsForensic.lzoHeaderCursor]
  split
  case isTrue => exact Nat.le_add_right _ _
  case isFalse => exact Nat.le_refl _

theorem mapM_get {bytes : Bytes} (size : bytes.length = lzoLen) :
    (List.range lzoLen).mapM (get bytes) = .ok bytes := by
  have each : ∀ index ∈ List.range lzoLen, get bytes index = .ok (bytes.getD index 0) := by
    intro index member
    have inside : index < bytes.length := by
      rw [size]
      exact List.mem_range.mp member
    rw [get_eq inside, List.getD_eq_getElem _ _ inside]
  rw [mapM_eq each]
  congr 1
  apply List.ext_getElem
  · rw [List.length_map, List.length_range, size]
  · intro index _ inside
    rw [List.getElem_map, List.getElem_range, List.getD_eq_getElem _ _ inside]

theorem done_ne_next {next : Nat} {result : Bytes} :
    (.ok .done : Except BtrfsError LzoStep) ≠ .ok (.next next result) := by
  intro same
  cases same

theorem error_ne_next {error : BtrfsError} {next : Nat} {result : Bytes} :
    (.error error : Except BtrfsError LzoStep) ≠ .ok (.next next result) := by
  intro same
  cases same

/-- What a pass does: it faults nowhere, its slices lie in the source, and when it completes
the cursor has moved forward and the output is within the cap. -/
theorem lzoSegment_eq (sector : 0 < sectorsize) (narrow : sectorsize ≤ 2 ^ 32)
    (small : src.length < 2 ^ 63) (bounded : total ≤ src.length) (below : cur < total)
    (room : out.length < cap) :
    ∃ pass, lzoSegment crates src cap sectorsize total cur out = .ok pass ∧
      pass.step = BtrfsForensic.lzoSegment crates src cap sectorsize total cur out ∧
      (∀ taken ∈ pass.slices, taken.1 ≤ taken.2 ∧ taken.2 ≤ src.length) ∧
      ∀ next result, pass.step = .ok (.next next result) →
        cur < next ∧ result.length ≤ cap := by
  have limit : usizeMax = 2 ^ 64 - 1 := rfl
  have width : lzoLen = 4 := rfl
  have forward := le_lzoHeaderCursor sectorsize cur
  rw [lzoSegment, lzoHeaderCursor_eq sector narrow (by omega) below, bind_ok,
    BtrfsForensic.lzoSegment]
  generalize BtrfsForensic.lzoHeaderCursor sectorsize cur = header at forward ⊢
  by_cases ended : total ≤ header
  · simp only [if_pos ended]
    exact ⟨_, rfl, rfl, fun _ member => absurd member List.not_mem_nil,
      fun _ _ completed => absurd completed done_ne_next⟩
  · simp only [if_neg ended]
    rw [add_eq (by omega), bind_ok]
    cases field : getRange src header (header + lzoLen) with
    | none =>
        exact ⟨_, rfl, rfl, fun _ member => absurd member List.not_mem_nil,
          fun _ _ completed => absurd completed done_ne_next⟩
    | some segLenBytes =>
        have within := stop_le_of_getRange field
        have size := length_of_getRange field
        dsimp only
        rw [mapM_get (by omega), bind_ok, bind_ok]
        have lengthField : ∀ taken ∈ [(header, header + lzoLen)],
            taken.1 ≤ taken.2 ∧ taken.2 ≤ src.length := by
          intro taken member
          rw [List.mem_singleton.mp member]
          exact ⟨Nat.le_add_right _ _, within⟩
        by_cases empty : decodeLE segLenBytes = 0
        · simp only [if_pos empty]
          exact ⟨_, rfl, rfl, lengthField, fun _ _ completed => absurd completed done_ne_next⟩
        · simp only [if_neg empty]
          have ordered : header + lzoLen ≤
              min (saturatingAdd (header + lzoLen) (decodeLE segLenBytes)) src.length := by
            rw [saturatingAdd]
            omega
          cases payload : getRange src (header + lzoLen)
              (min (saturatingAdd (header + lzoLen) (decodeLE segLenBytes)) src.length) with
          | none =>
              exact ⟨_, rfl, rfl, lengthField, fun _ _ completed => absurd completed done_ne_next⟩
          | some segment =>
              have both : ∀ taken ∈ [(header, header + lzoLen), (header + lzoLen,
                  min (saturatingAdd (header + lzoLen) (decodeLE segLenBytes)) src.length)],
                  taken.1 ≤ taken.2 ∧ taken.2 ≤ src.length := by
                intro taken member
                rcases List.mem_pair.mp member with rfl | rfl
                · exact lengthField _ List.mem_cons_self
                · exact ⟨ordered, Nat.min_le_right _ _⟩
              dsimp only
              cases answer : crates.lzo segment
                  (saturatingAdd (saturatingAdd sectorsize (sectorsize / 16)) 64) with
              | none =>
                  exact ⟨_, rfl, rfl, both, fun _ _ completed => absurd completed error_ne_next⟩
              | some decoded =>
                  have fits : decoded.count ≤ decoded.buffer.length := by
                    rw [decoded.buffer_length]
                    exact decoded.count_le
                  have part : getRange decoded.buffer 0
                      (min (cap - out.length) decoded.count) =
                        some (decoded.buffer.take (min (cap - out.length) decoded.count)) := by
                    rw [getRange, if_pos ⟨Nat.zero_le _, by omega⟩, List.drop_zero, Nat.sub_zero]
                  dsimp only
                  rw [sub_eq (Nat.le_of_lt room), bind_ok, slice_front fits, bind_ok, part]
                  refine ⟨_, rfl, rfl, both, fun next result completed => ?_⟩
                  cases completed
                  constructor
                  · rw [saturatingAdd]
                    omega
                  · rw [Option.getD_some, List.length_append, List.length_take]
                    omega

theorem cursors_singleton (cur : Nat) :
    (∀ later ∈ [cur], cur ≤ later) ∧ [cur].Pairwise (· < ·) :=
  ⟨fun _ member => Nat.le_of_eq (List.mem_singleton.mp member).symm, List.pairwise_singleton _ _⟩

/-- Every completed pass moves the cursor forward, so fuel for what is left of the frame is
never spent. -/
theorem lzoLoop_runs (crates : Crates) (sector : 0 < sectorsize) (narrow : sectorsize ≤ 2 ^ 32)
    (small : src.length < 2 ^ 63) {fuel : Nat} (bounded : total ≤ src.length ∨ total ≤ cur)
    (enough : total ≤ cur + fuel) (room : out.length ≤ cap) :
    ∃ run, lzoLoop crates src cap sectorsize total (fuel + 1) cur out = .ok run ∧
      (∀ later ∈ run.cursors, cur ≤ later) ∧ run.cursors.Pairwise (· < ·) ∧
      (∀ taken ∈ run.slices, taken.1 ≤ taken.2 ∧ taken.2 ≤ src.length) ∧
      run.outcome = BtrfsForensic.lzoLoop crates src cap sectorsize total (fuel + 1) cur out ∧
      ∀ result, run.outcome = .ok result → result.length ≤ cap := by
  have alone := cursors_singleton
  induction fuel generalizing cur out with
  | zero =>
      have ended : ¬(cur < total ∧ out.length < cap) := by omega
      rw [lzoLoop, if_neg ended, BtrfsForensic.lzoLoop, if_neg ended]
      refine ⟨_, rfl, (alone cur).1, (alone cur).2,
        fun _ member => absurd member List.not_mem_nil, rfl, ?_⟩
      intro result same
      cases same
      exact room
  | succ fuel induction =>
      rw [lzoLoop, BtrfsForensic.lzoLoop]
      by_cases goesOn : cur < total ∧ out.length < cap
      · rw [if_pos goesOn, if_pos goesOn]
        rcases lzoSegment_eq sector narrow small (bounded.resolve_right (by omega)) goesOn.1
          goesOn.2 with ⟨pass, passed, step, slices, completes⟩
        rw [passed, bind_ok, ← step]
        cases outcome : pass.step with
        | error error =>
            refine ⟨_, rfl, (alone cur).1, (alone cur).2, slices, rfl, ?_⟩
            intro result same
            cases same
        | ok ended =>
            cases ended with
            | done =>
                refine ⟨_, rfl, (alone cur).1, (alone cur).2, slices, rfl, ?_⟩
                intro result same
                cases same
                exact room
            | next next result =>
                rcases completes next result outcome with ⟨forward, within⟩
                have inside := bounded.resolve_right (Nat.not_le_of_lt goesOn.1)
                rcases induction (.inl inside) (show total ≤ next + fuel by omega) within with
                  ⟨rest, looped, later, increasing, restSlices, same, capped⟩
                dsimp only
                rw [looped, bind_ok]
                refine ⟨_, rfl, ?_, ?_, ?_, same, capped⟩
                · intro cursor member
                  rcases List.mem_cons.mp member with rfl | member
                  · exact Nat.le_refl _
                  · exact Nat.le_of_lt (Nat.lt_of_lt_of_le forward (later cursor member))
                · exact List.pairwise_cons.mpr
                    ⟨fun cursor member => Nat.lt_of_lt_of_le forward (later cursor member),
                      increasing⟩
                · intro taken member
                  rcases List.mem_append.mp member with member | member
                  · exact slices taken member
                  · exact restSlices taken member
      · rw [if_neg goesOn, if_neg goesOn]
        refine ⟨_, rfl, (alone cur).1, (alone cur).2,
        fun _ member => absurd member List.not_mem_nil, rfl, ?_⟩
        intro result same
        cases same
        exact room

end Lzo

end Checked

/-- For every source, cap and sector size the decoder ends without a fault: its cursor
strictly increases from test to test, it slices inside the source, and what it returns is
what the unchecked decoder returns, within the cap. -/
theorem decompressLzoBtrfs_runs (crates : Crates) {src : Bytes} (small : src.length < 2 ^ 63)
    (cap : Nat) (sectorsize : UInt32) :
    ∃ run, Checked.decompressLzoBtrfs crates src cap sectorsize = .ok run ∧
      run.cursors.Pairwise (· < ·) ∧
      (∀ taken ∈ run.slices, taken.1 ≤ taken.2 ∧ taken.2 ≤ src.length) ∧
      run.outcome = decompressLzoBtrfs crates src cap sectorsize ∧
      ∀ out, run.outcome = .ok out → out.length ≤ cap := by
  have width : lzoLen = 4 := rfl
  have narrow := sectorsize.toNat_lt
  rw [Checked.decompressLzoBtrfs, decompressLzoBtrfs, Checked.le32Padded_eq, Checked.bind_ok,
    Checked.leU64_eq (by decide), Checked.bind_ok]
  generalize (leU64 (le32Padded src 0) 0).toNat = declared
  dsimp only
  generalize sized : max (min declared src.length) lzoLen = total
  rcases Nat.exists_eq_add_one_of_ne_zero (by omega : total ≠ 0) with ⟨fuel, rfl⟩
  rcases Checked.lzoLoop_runs crates (by omega : 0 < max sectorsize.toNat 1) (by omega) small
    (by omega : fuel + 1 ≤ src.length ∨ fuel + 1 ≤ lzoLen)
    (show fuel + 1 ≤ lzoLen + fuel by omega) (show ([] : Bytes).length ≤ cap by simp) with
    ⟨run, looped, _, increasing, slices, same, capped⟩
  rw [looped, Checked.bind_ok, ← same]
  refine ⟨_, rfl, increasing, slices, ?_⟩
  cases result : run.outcome with
  | error error =>
      refine ⟨rfl, fun out returned => ?_⟩
      cases returned
  | ok out =>
      refine ⟨rfl, fun cut returned => ?_⟩
      cases returned
      exact Nat.le_trans (List.length_take_le' _ _) (capped out result)

theorem decompressLzoBtrfs_runs_in_literalSegments :
    ∃ run, Checked.decompressLzoBtrfs Crates.withLiteralRuns
        (Writer.lzoFrame 10 (literalSegments.map Prod.fst) true) 8 10 = .ok run ∧
      run.cursors = [4, 17, 32] ∧ run.cursors.Pairwise (· < ·) ∧
      run.slices = [(4, 8), (8, 17), (20, 24), (24, 32)] ∧
      run.outcome = .ok [1, 2, 3, 4, 5, 6, 7, 8] := by
  have small : (Writer.lzoFrame 10 (literalSegments.map Prod.fst) true).length < 2 ^ 63 := by
    decide
  rcases decompressLzoBtrfs_runs Crates.withLiteralRuns small 8 10 with
    ⟨run, ran, increasing, _⟩
  have computed : Checked.decompressLzoBtrfs Crates.withLiteralRuns
      (Writer.lzoFrame 10 (literalSegments.map Prod.fst) true) 8 10 =
        .ok ⟨[4, 17, 32], [(4, 8), (8, 17), (20, 24), (24, 32)],
          .ok [1, 2, 3, 4, 5, 6, 7, 8]⟩ := rfl
  have same := Except.ok.inj (ran.symm.trans computed)
  refine ⟨run, ran, ?_, increasing, ?_, ?_⟩
  · rw [same]
  · rw [same]
  · rw [same]

end BtrfsForensic
