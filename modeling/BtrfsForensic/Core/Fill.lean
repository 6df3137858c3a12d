import BtrfsForensic.Core.Vfs

namespace BtrfsForensic

/-! Buffering a source that may answer every read with fewer bytes than were asked for. -/

/-- What a call leaves behind: the state of the source, the result, and the buffer. -/
structure Answer (State α : Type) where
  next : State
  result : Except VfsError α
  buf : Bytes

/-- A byte source of the adapter. How it answers may depend on a state of its own; the
buffer it is lent keeps its length. -/
structure ImageSource (State : Type) where
  len : UInt64
  readAt : State → UInt64 → Bytes → Answer State Nat
  length_readAt : ∀ state off buf, (readAt state off buf).buf.length = buf.length

section Fill

variable {State : Type} (source : ImageSource State)

/-- One pass a unit of fuel; `none` when it runs out. The buffer is what is left to fill. -/
def fillLoop : (fuel : Nat) → State → UInt64 → Bytes → Option (Answer State Unit)
  | 0, _, _, _ => none
  | fuel + 1, state, off, buf =>
      if buf = [] then
        some ⟨state, .ok (), buf⟩
      else
        let answer := source.readAt state off buf
        match answer.result with
        | .error error => some ⟨answer.next, .error error, answer.buf⟩
        | .ok n =>
            if n = 0 then
              some ⟨answer.next, .ok (), answer.buf⟩
            else
              let off := UInt64.ofNat (saturatingAdd off.toNat n)
              match getRange answer.buf n answer.buf.length with
              | none => some ⟨answer.next, .ok (), answer.buf⟩
              | some rest =>
                  (fillLoop fuel answer.next off rest).map fun filled =>
                    { filled with buf := answer.buf.take n ++ filled.buf }

/-- Every pass but the last fills a byte at least. -/
def fill (state : State) (off : UInt64) (buf : Bytes) : Option (Answer State Unit) :=
  fillLoop source (buf.length + 1) state off buf

/-- The reads that filling a buffer makes, each by the state, the offset and the buffer it
is made with. -/
inductive FillReads : State → UInt64 → Bytes → State → UInt64 → Bytes → Prop
  | first {state off buf} (unfilled : buf ≠ []) : FillReads state off buf state off buf
  | later {state off buf n rest reader place window} (unfilled : buf ≠ [])
      (read : (source.readAt state off buf).result = .ok n) (some : n ≠ 0)
      (left : getRange (source.readAt state off buf).buf n
        (source.readAt state off buf).buf.length = .some rest)
      (reads : FillReads (source.readAt state off buf).next
        (UInt64.ofNat (saturatingAdd off.toNat n)) rest reader place window) :
      FillReads state off buf reader place window

def FailsWith (state : State) (off : UInt64) (buf : Bytes) (error : VfsError) : Prop :=
  ∃ reader place window, FillReads source state off buf reader place window ∧
    (source.readAt reader place window).result = .error error

/-- What is documented of a source: it copies bytes that the data holds at the offset, none
only into an empty buffer or at the end of the data. -/
structure Serves (data : Bytes) : Prop where
  copies : ∀ {state off buf n}, (source.readAt state off buf).result = .ok n →
    n ≤ buf.length ∧ n ≤ data.length - off.toNat ∧
      (source.readAt state off buf).buf = (data.drop off.toNat).take n ++ buf.drop n
  ends : ∀ {state off buf}, (source.readAt state off buf).result = .ok 0 →
    buf = [] ∨ data.length ≤ off.toNat

end Fill

namespace BtrfsFs

/-- Buffers a whole source and parses it. -/
def openSource {State : Type} (crates : Crates) (source : ImageSource State) (state : State) :
    Option (Except VfsError BtrfsFs) :=
  (fill source state 0 (List.replicate source.len.toNat 0)).map fun filled => do
    let () ← filled.result
    ofImage crates filled.buf

end BtrfsFs

section Filling

variable {State : Type} {source : ImageSource State} {state : State} {off : UInt64}
  {buf data rest : Bytes} {n : Nat} {error : VfsError} {answer : Answer State Unit}

/-! ## The reads of a filling -/

theorem not_failsWith_nil : ¬FailsWith source state off [] error := by
  intro fails
  rcases fails with ⟨reader, place, window, reads, _⟩
  cases reads with
  | first unfilled => exact unfilled rfl
  | later unfilled => exact unfilled rfl

theorem failsWith_of_error {failure : VfsError} (unfilled : buf ≠ [])
    (read : (source.readAt state off buf).result = .error failure) :
    FailsWith source state off buf error ↔ failure = error := by
  constructor
  · intro fails
    rcases fails with ⟨reader, place, window, reads, failed⟩
    cases reads with
    | first =>
        rw [read] at failed
        exact Except.error.inj failed
    | later _ answered =>
        rw [read] at answered
        cases answered
  · intro same
    exact ⟨state, off, buf, .first unfilled, by rw [read, same]⟩

theorem failsWith_of_ok (unfilled : buf ≠ [])
    (read : (source.readAt state off buf).result = .ok n) :
    FailsWith source state off buf error ↔
      n ≠ 0 ∧ ∃ rest, getRange (source.readAt state off buf).buf n
          (source.readAt state off buf).buf.length = some rest ∧
        FailsWith source (source.readAt state off buf).next
          (UInt64.ofNat (saturatingAdd off.toNat n)) rest error := by
  constructor
  · intro fails
    rcases fails with ⟨reader, place, window, reads, failed⟩
    cases reads with
    | first =>
        rw [read] at failed
        cases failed
    | later _ answered some left reads =>
        rw [read] at answered
        cases answered
        exact ⟨some, _, left, reader, place, window, reads, failed⟩
  · intro parts
    rcases parts with ⟨some, rest, left, reader, place, window, reads, failed⟩
    exact ⟨reader, place, window, .later unfilled read some left reads, failed⟩

/-! ## Passes -/

section Pass

variable {fuel : Nat}

theorem fillLoop_nil :
    fillLoop source (fuel + 1) state off [] = some ⟨state, .ok (), []⟩ := by
  rw [fillLoop, if_pos rfl]

theorem fillLoop_of_error {failure : VfsError} (unfilled : buf ≠ [])
    (read : (source.readAt state off buf).result = .error failure) :
    fillLoop source (fuel + 1) state off buf =
      some ⟨(source.readAt state off buf).next, .error failure,
        (source.readAt state off buf).buf⟩ := by
  rw [fillLoop, if_neg unfilled]
  simp only [read]

theorem fillLoop_of_stop (unfilled : buf ≠ [])
    (read : (source.readAt state off buf).result = .ok n)
    (stops : n = 0 ∨ getRange (source.readAt state off buf).buf n
      (source.readAt state off buf).buf.length = none) :
    fillLoop source (fuel + 1) state off buf =
      some ⟨(source.readAt state off buf).next, .ok (), (source.readAt state off buf).buf⟩ := by
  rw [fillLoop, if_neg unfilled]
  rcases stops with nothing | outside
  · simp only [read, if_pos nothing]
  · simp only [read, outside, ite_self]

theorem fillLoop_of_left (unfilled : buf ≠ [])
    (read : (source.readAt state off buf).result = .ok n) (some : n ≠ 0)
    (left : getRange (source.readAt state off buf).buf n
      (source.readAt state off buf).buf.length = .some rest) :
    fillLoop source (fuel + 1) state off buf =
      (fillLoop source fuel (source.readAt state off buf).next
        (UInt64.ofNat (saturatingAdd off.toNat n)) rest).map fun filled =>
          { filled with buf := (source.readAt state off buf).buf.take n ++ filled.buf } := by
  rw [fillLoop, if_neg unfilled]
  simp only [read, if_neg some, left]

end Pass

theorem fillInduction (source : ImageSource State) {motive : State → UInt64 → Bytes → Prop}
    (filled : ∀ state off, motive state off [])
    (fails : ∀ state off buf failure, buf ≠ [] →
      (source.readAt state off buf).result = .error failure → motive state off buf)
    (stops : ∀ state off buf n, buf ≠ [] → (source.readAt state off buf).result = .ok n →
      (n = 0 ∨ getRange (source.readAt state off buf).buf n
        (source.readAt state off buf).buf.length = none) → motive state off buf)
    (goesOn : ∀ state off buf n rest, buf ≠ [] →
      (source.readAt state off buf).result = .ok n → n ≠ 0 →
      getRange (source.readAt state off buf).buf n
        (source.readAt state off buf).buf.length = some rest →
      rest.length < buf.length →
      motive (source.readAt state off buf).next (UInt64.ofNat (saturatingAdd off.toNat n)) rest →
      motive state off buf) (state : State) (off : UInt64) (buf : Bytes) :
    motive state off buf := by
  generalize size : buf.length = length
  induction length using Nat.strong_induction_on generalizing state off buf with
  | _ length induction =>
      by_cases empty : buf = []
      · rw [empty]
        exact filled state off
      · cases read : (source.readAt state off buf).result with
        | error failure => exact fails state off buf failure empty read
        | ok n =>
            cases left : getRange (source.readAt state off buf).buf n
                (source.readAt state off buf).buf.length with
            | none => exact stops state off buf n empty read (.inr left)
            | some rest =>
                by_cases nothing : n = 0
                · exact stops state off buf n empty read (.inl nothing)
                · have positive := List.length_pos_iff.mpr empty
                  have shorter : rest.length < buf.length := by
                    have left := length_of_getRange left
                    rw [source.length_readAt] at left
                    omega
                  exact goesOn state off buf n rest empty read nothing left shorter
                    (induction rest.length (size ▸ shorter) _ _ rest rfl)

/-- The loop ends, whatever the source answers, and a read that fails is its result. -/
theorem fillLoop_terminates (source : ImageSource State) (state : State) (off : UInt64)
    (buf : Bytes) :
    ∃ answer,
      (∀ fuel, buf.length ≤ fuel → fillLoop source (fuel + 1) state off buf = some answer) ∧
      ∀ error, answer.result = .error error ↔ FailsWith source state off buf error := by
  induction state, off, buf using fillInduction source with
  | filled state off =>
      refine ⟨⟨state, .ok (), []⟩, fun fuel _ => fillLoop_nil, fun error => ?_⟩
      simp [not_failsWith_nil]
  | fails state off buf failure unfilled read =>
      refine ⟨⟨(source.readAt state off buf).next, .error failure,
        (source.readAt state off buf).buf⟩, fun fuel _ => fillLoop_of_error unfilled read,
        fun error => ?_⟩
      rw [failsWith_of_error unfilled read, Except.error.injEq]
  | stops state off buf n unfilled read stops =>
      refine ⟨⟨(source.readAt state off buf).next, .ok (), (source.readAt state off buf).buf⟩,
        fun fuel _ => fillLoop_of_stop unfilled read stops, fun error => ?_⟩
      rw [failsWith_of_ok unfilled read]
      rcases stops with nothing | outside
      · simp [nothing]
      · simp [outside]
  | goesOn state off buf n rest unfilled read some left shorter induction =>
      rcases induction with ⟨answer, ends, fails⟩
      refine ⟨{ answer with buf := (source.readAt state off buf).buf.take n ++ answer.buf },
        fun fuel enough => ?_, fun error => ?_⟩
      · rcases Nat.exists_eq_succ_of_ne_zero (by omega : fuel ≠ 0) with ⟨fuel, rfl⟩
        rw [fillLoop_of_left unfilled read some left, ends fuel (by omega), Option.map_some]
      · rw [failsWith_of_ok unfilled read, left]
        simpa [some] using fails error

/-! ## The bytes of a filling -/

/-- Each pass takes the bytes at its offset and leaves the rest to the next one; the offset,
the buffer that is left and the bytes filled so far stay aligned. -/
theorem fillLoop_of_serves (serves : Serves source data)
    (fits : off.toNat + buf.length ≤ usizeMax)
    (ends : ∀ fuel, buf.length ≤ fuel → fillLoop source (fuel + 1) state off buf = some answer)
    (succeeded : answer.result = .ok ()) :
    answer.buf = (data.drop off.toNat).take buf.length ++ buf.drop (data.length - off.toNat) := by
  induction state, off, buf using fillInduction source generalizing answer with
  | filled state off =>
      have same := Option.some.inj ((fillLoop_nil).symm.trans (ends 0 (Nat.le_refl _)))
      rw [← same]
      simp
  | fails state off buf failure unfilled read =>
      have same := (fillLoop_of_error unfilled read).symm.trans (ends _ (Nat.le_refl _))
      cases same
      cases succeeded
  | stops state off buf n unfilled read stops =>
      have same := (fillLoop_of_stop unfilled read stops).symm.trans (ends _ (Nat.le_refl _))
      cases same
      rcases serves.copies read with ⟨within, _, copied⟩
      rcases stops with rfl | outside
      · rw [copied, List.take_zero, List.drop_zero, List.nil_append]
        have past := (serves.ends read).resolve_left unfilled
        rw [List.drop_eq_nil_of_le past, List.take_nil, Nat.sub_eq_zero_of_le past,
          List.drop_zero, List.nil_append]
      · rw [getRange_to_end, if_pos (by rwa [source.length_readAt])] at outside
        cases outside
  | goesOn state off buf n rest unfilled read some left shorter induction =>
      rcases serves.copies read with ⟨within, present, copied⟩
      rcases fillLoop_terminates source (source.readAt state off buf).next
        (UInt64.ofNat (saturatingAdd off.toNat n)) rest with ⟨answer, again, _⟩
      have same := ends buf.length (Nat.le_refl _)
      rcases Nat.exists_eq_succ_of_ne_zero (Nat.ne_of_gt (Nat.zero_lt_of_lt shorter)) with
        ⟨fuel, size⟩
      rw [fillLoop_of_left unfilled read some left, size, again fuel (by omega)] at same
      cases same
      have limit : usizeMax = 2 ^ 64 - 1 := rfl
      have next : (UInt64.ofNat (saturatingAdd off.toNat n)).toNat = off.toNat + n := by
        have bound : off.toNat + n < 2 ^ 64 := by omega
        rw [saturatingAdd_eq (by omega), UInt64.toNat_ofNat_of_lt' bound]
      have front : ((data.drop off.toNat).take n).length = n := by
        rw [List.length_take, List.length_drop, Nat.min_eq_left present]
      have left : buf.drop n = rest := by
        rw [getRange_to_end, if_pos (by rwa [source.length_readAt]), copied,
          List.drop_left' front] at left
        exact Option.some.inj left
      have restSize : rest.length = buf.length - n := by
        rw [← left, List.length_drop]
      have tail := induction (by omega) again succeeded
      rw [next, restSize, ← left, ← List.drop_drop] at tail
      dsimp only
      rw [tail, copied, List.take_left' front, ← List.append_assoc, ← List.take_add,
        Nat.add_sub_of_le within, List.drop_drop]
      congr 2
      omega

/-- However a source splits its answers, filling from its start ends. The error of a read is
the result; without one the buffer holds the data, untouched past its end. An image is opened
from the data and the declared length alone. -/
theorem fill_of_serves (serves : Serves source data) :
    (∀ (state : State) (buf : Bytes), buf.length ≤ usizeMax →
      ∃ answer, fill source state 0 buf = some answer ∧
        (∀ error, answer.result = .error error ↔ FailsWith source state 0 buf error) ∧
        (answer.result = .ok () → answer.buf = data.take buf.length ++ buf.drop data.length)) ∧
      ∀ (crates : Crates) (state : State),
        (∀ error, FailsWith source state 0 (List.replicate source.len.toNat 0) error →
          BtrfsFs.openSource crates source state = some (.error error)) ∧
        ((∀ error, ¬FailsWith source state 0 (List.replicate source.len.toNat 0) error) →
          BtrfsFs.openSource crates source state =
            some (BtrfsFs.ofImage crates (data.take source.len.toNat ++
              List.replicate (source.len.toNat - data.length) 0))) := by
  have fills (state : State) (buf : Bytes) (fits : buf.length ≤ usizeMax) :
      ∃ answer, fill source state 0 buf = some answer ∧
        (∀ error, answer.result = .error error ↔ FailsWith source state 0 buf error) ∧
        (answer.result = .ok () →
          answer.buf = data.take buf.length ++ buf.drop data.length) := by
    rcases fillLoop_terminates source state 0 buf with ⟨answer, ends, fails⟩
    refine ⟨answer, ends buf.length (Nat.le_refl _), fails, fun succeeded => ?_⟩
    have bytes := fillLoop_of_serves serves (by simpa using fits) ends succeeded
    simpa using bytes
  refine ⟨fills, fun crates state => ?_⟩
  have length : (List.replicate source.len.toNat (0 : UInt8)).length = source.len.toNat :=
    List.length_replicate
  have fits : source.len.toNat ≤ usizeMax := Nat.le_sub_one_of_lt source.len.toNat_lt
  rcases fills state _ (length.trans_le fits) with ⟨answer, filled, fails, bytes⟩
  rw [BtrfsFs.openSource, filled]
  constructor
  · intro error failed
    rw [Option.map_some, (fails error).mpr failed]
    rfl
  · intro flawless
    cases result : answer.result with
    | error error => exact absurd ((fails error).mp result) (flawless error)
    | ok value =>
        rw [Option.map_some, result, bytes result, length, List.drop_replicate]
        rfl

/-- A source whose reads are as short as a schedule says. -/
def shortReads (data : Bytes) (len : UInt64) (sizes : Nat → Nat) : ImageSource Nat where
  len := len
  readAt step off buf :=
    let n := min (sizes step + 1) (min buf.length (data.length - off.toNat))
    ⟨step + 1, .ok n, (data.drop off.toNat).take n ++ buf.drop n⟩
  length_readAt := by
    intro step off buf
    simp only [List.length_append, List.length_take, List.length_drop]
    omega

theorem serves_shortReads (data : Bytes) (len : UInt64) (sizes : Nat → Nat) :
    Serves (shortReads data len sizes) data where
  copies := by
    intro step off buf n read
    cases read
    exact ⟨by omega, by omega, rfl⟩
  ends := by
    intro step off buf read
    have none := Except.ok.inj read
    rw [← List.length_eq_zero_iff]
    omega

theorem fill_of_serves_in_shortReads :
    ∃ answer, fill (shortReads [1, 2, 3, 4, 5] 7 id) 0 0 [9, 9, 9, 9, 9, 9, 9] = some answer ∧
      answer.buf = [1, 2, 3, 4, 5, 9, 9] := by
  rcases (fill_of_serves (serves_shortReads [1, 2, 3, 4, 5] 7 id)).1 0
    [9, 9, 9, 9, 9, 9, 9] (by decide) with ⟨answer, filled, _, bytes⟩
  have result : (fill (shortReads [1, 2, 3, 4, 5] 7 id) 0 0 [9, 9, 9, 9, 9, 9, 9]).map
      Answer.result = some (.ok ()) := rfl
  rw [filled] at result
  exact ⟨answer, filled, bytes (Option.some.inj result)⟩

end Filling

end BtrfsForensic
