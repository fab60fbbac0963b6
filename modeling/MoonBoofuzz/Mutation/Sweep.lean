import MoonBoofuzz.Mutation.Positions

namespace MoonBoofuzz

namespace CaseStream

/-! A stream called until it has nothing left. -/

inductive Delivers : CaseStream → List MutationCase → CaseStream → Prop
  | nil (stream : CaseStream) : Delivers stream [] stream
  | cons {stream middle after : CaseStream} {case : MutationCase}
      {cases : List MutationCase}
      (hanswer : Answers stream (.done (some case)) middle)
      (hrest : Delivers middle cases after) : Delivers stream (case :: cases) after

def Hangs (stream : CaseStream) : Prop :=
  ∀ fuel found, (next fuel stream).1 ≠ .done found

section

variable {request : CompiledRequest} {vars : Option Vars}

theorem hangs_of_ahead {stream : CaseStream} {raw : List Parts}
    (hstands : Stands request vars raw stream) (hskip : stream.skip ≤ raw.length)
    (hroom : stream.ordinal + raw.length < stream.skip + 2147483647)
    (hahead : Slot.ahead
      (request.slotsFrom vars stream.ordinal (raw.drop stream.skip)) = none) :
    Hangs stream := by
  intro fuel found hnext
  have hcount := hstands.emitted
  have hanswers : Answers stream (.done found) (next fuel stream).2 :=
    ⟨fuel, Prod.ext hnext rfl, by simp⟩
  obtain ⟨count, hsome, -⟩ := hanswers.ahead hstands hskip (fun _ => by omega)
  rw [hahead] at hsome
  cases hsome

theorem Stands.answers {stream : CaseStream} {raw : List Parts}
    {found : Option MutationCase} {count : Nat}
    (hstands : Stands request vars raw stream) (hskip : stream.skip ≤ raw.length)
    (hroom : stream.ordinal + raw.length < stream.skip + 2147483647)
    (hahead : Slot.ahead
      (request.slotsFrom vars stream.ordinal (raw.drop stream.skip)) =
        some (found, count)) :
    ∃ after, Answers stream (.done found) after := by
  have hcount := hstands.emitted
  have hle := Slot.ahead_le hahead
  rw [CompiledRequest.length_slotsFrom, List.length_drop] at hle
  exact answers_of_ahead hstands hskip (by omega) (by omega) (fun _ => by omega) hahead

/-- A stream delivers the cases ahead of it.  It then ends where they end, or hangs
at the position it does not get past. -/
theorem Stands.sweeps (bound : Nat) : ∀ {raw : List Parts} {stream : CaseStream},
    Stands request vars raw stream → stream.skip ≤ raw.length →
    stream.ordinal + raw.length < stream.skip + 2147483647 →
    (raw.drop stream.skip).length ≤ bound →
    ∃ middle,
      Delivers stream
          (Slot.kept (request.slotsFrom vars stream.ordinal (raw.drop stream.skip)))
          middle ∧
        (Slot.Clear (request.slotsFrom vars stream.ordinal (raw.drop stream.skip)) →
          ∃ after, Answers middle (.done none) after ∧
            after.ordinal = stream.ordinal + (raw.drop stream.skip).length ∧
            after.skip = 0) ∧
        (¬ Slot.Clear (request.slotsFrom vars stream.ordinal (raw.drop stream.skip)) →
          Hangs middle) := by
  induction bound with
  | zero =>
      intro raw stream hstands hskip hroom hbound
      have hcount := hstands.emitted
      have hnil : raw.drop stream.skip = [] := List.length_eq_zero_iff.mp (by omega)
      have hahead : Slot.ahead
          (request.slotsFrom vars stream.ordinal (raw.drop stream.skip)) =
            some (none, 0) := by rw [hnil]; rfl
      obtain ⟨after, hanswers⟩ := hstands.answers hskip hroom hahead
      obtain ⟨count, hsame, hordinal, hzero, -⟩ :=
        hanswers.ahead hstands hskip (fun _ => by omega)
      rw [hahead] at hsame
      cases hsame
      rw [hnil]
      refine ⟨stream, .nil stream, fun _ => ⟨after, hanswers, hordinal, hzero⟩, ?_⟩
      intro hstuck
      exact absurd (by simp [CompiledRequest.slotsFrom, Slot.Clear]) hstuck
  | succ bound ih =>
      intro raw stream hstands hskip hroom hbound
      have hemitted := hstands.emitted
      have hlength : (request.slotsFrom vars stream.ordinal
          (raw.drop stream.skip)).length = (raw.drop stream.skip).length :=
        CompiledRequest.length_slotsFrom _ _
      cases hahead : Slot.ahead
          (request.slotsFrom vars stream.ordinal (raw.drop stream.skip)) with
      | none =>
          obtain ⟨hkept, hstuck⟩ := Slot.ahead_stuck hahead
          rw [hkept]
          exact ⟨stream, .nil stream, fun hclear => absurd hclear hstuck,
            fun _ => hangs_of_ahead hstands hskip hroom hahead⟩
      | some answer =>
          obtain ⟨found, count⟩ := answer
          obtain ⟨after, hanswers⟩ := hstands.answers hskip hroom hahead
          obtain ⟨steps, hsame, hordinal, hzero, hnext⟩ :=
            hanswers.ahead hstands hskip (fun _ => by omega)
          rw [hahead] at hsame
          cases hsame
          cases found with
          | none =>
              obtain ⟨rfl, hkept, hclear⟩ := Slot.ahead_none hahead
              rw [hkept]
              rw [hlength] at hordinal
              exact ⟨stream, .nil stream, fun _ => ⟨after, hanswers, hordinal, hzero⟩,
                fun hstuck => absurd hclear hstuck⟩
          | some case =>
              obtain ⟨hpositive, hle, hkept, -, hbefore⟩ := Slot.ahead_some hahead
              rw [hlength] at hle
              have hslots : request.slotsFrom vars after.ordinal
                  (((raw.drop stream.skip).drop count).drop after.skip) =
                  (request.slotsFrom vars stream.ordinal
                    (raw.drop stream.skip)).drop count := by
                rw [hzero, List.drop_zero, CompiledRequest.drop_slotsFrom, hordinal]
              have hleft := List.length_drop (i := stream.skip) (l := raw)
              obtain ⟨middle, hdelivers, hends, hhangs⟩ := ih (hnext rfl)
                (by omega) (by rw [List.length_drop]; omega)
                (by rw [hzero, List.drop_zero, List.length_drop]; omega)
              rw [hslots] at hdelivers hends hhangs
              rw [hkept, Slot.clear_iff_drop hbefore]
              refine ⟨middle, .cons hanswers hdelivers, ?_, hhangs⟩
              intro hclear
              obtain ⟨last, hlast, hposition, hskip'⟩ := hends hclear
              refine ⟨last, hlast, ?_, hskip'⟩
              rw [hposition, hzero, List.drop_zero, List.length_drop]
              omega

theorem answers_past {stream : CaseStream} {raw : List Parts}
    (hstands : Stands request vars raw stream) (hskip : raw.length < stream.skip) :
    ∃ after, Answers stream (.done none) after := by
  obtain ⟨cursor, hlands⟩ := lands_of_lt hstands.drains hskip
  rw [← hstands.sameRequest] at hlands
  exact ⟨_, (answers_running hstands.running).mpr
    ⟨_, cursor, hlands, .ended (by omega)⟩⟩

/-- A fresh stream delivers the cases from its start offset on; what it leaves of
the offset is what lies past its candidates. -/
theorem enumerate_sweeps {mode : CompiledRequest.Mode} {start : Int32}
    {stream : CaseStream} {raw : List Parts}
    (hdrains : Walker.Drains request.cursorTurn (request.initialCursor mode) raw)
    (hroom : raw.length < 2147483647)
    (hstream : request.enumerate mode vars start 2147483647 = .ok stream) :
    ∃ middle,
      Delivers stream
          (Slot.kept ((request.slotsFrom vars 0 raw).drop start.toInt.toNat)) middle ∧
        (Slot.Clear ((request.slotsFrom vars 0 raw).drop start.toInt.toNat) →
          ∃ after, Answers middle (.done none) after ∧
            after.skip = start.toInt.toNat - raw.length ∧
            after.ordinal = after.skip + raw.length) ∧
        (¬ Slot.Clear ((request.slotsFrom vars 0 raw).drop start.toInt.toNat) →
          Hangs middle) := by
  obtain ⟨hstands, hordinal, hskip⟩ := enumerate_stands hdrains hstream
  rw [CompiledRequest.drop_slotsFrom, Nat.zero_add]
  by_cases hpast : raw.length < stream.skip
  · have hnil : raw.drop start.toInt.toNat = [] :=
      List.drop_eq_nil_of_le (by omega)
    obtain ⟨after, hanswers⟩ := answers_past hstands hpast
    obtain ⟨-, hordinal', hskip'⟩ := answers_beyond hstands hpast hanswers
    rw [hnil]
    refine ⟨stream, .nil stream, fun _ => ⟨after, hanswers, by omega, by omega⟩, ?_⟩
    intro hstuck
    exact absurd (by simp [CompiledRequest.slotsFrom, Slot.Clear]) hstuck
  · obtain ⟨middle, hdelivers, hends, hhangs⟩ :=
      hstands.sweeps _ (by omega) (by omega) (le_refl _)
    rw [hordinal, hskip] at hdelivers hends hhangs
    refine ⟨middle, hdelivers, fun hclear => ?_, hhangs⟩
    obtain ⟨after, hanswers, hposition, hzero⟩ := hends hclear
    rw [List.length_drop] at hposition
    exact ⟨after, hanswers, by omega, by omega⟩

/-- The stream has taken part of the candidates, and its start offset is what is left
to pass over. -/
structure At (request : CompiledRequest) (vars : Option Vars) (raw : List Parts)
    (stream : CaseStream) : Prop where
  stands : Stands request vars (raw.drop (stream.ordinal - stream.skip)) stream
  read : stream.ordinal - stream.skip ≤ raw.length

theorem enumerate_at {mode : CompiledRequest.Mode} {start : Int32}
    {stream : CaseStream} {raw : List Parts}
    (hdrains : Walker.Drains request.cursorTurn (request.initialCursor mode) raw)
    (hstream : request.enumerate mode vars start 2147483647 = .ok stream) :
    At request vars raw stream ∧ stream.ordinal = start.toInt.toNat := by
  obtain ⟨hstands, hordinal, hskip⟩ := enumerate_stands hdrains hstream
  have hzero : stream.ordinal - stream.skip = 0 := by omega
  exact ⟨⟨by rwa [hzero], by omega⟩, hordinal⟩

theorem At.left {raw : List Parts} {stream : CaseStream} (hat : At request vars raw stream) :
    (raw.drop (stream.ordinal - stream.skip)).drop stream.skip =
      raw.drop stream.ordinal := by
  have hle := hat.stands.skipped
  rw [List.drop_drop, Nat.sub_add_cancel hle]

theorem At.answers {raw : List Parts} {stream after : CaseStream}
    {found : Option MutationCase} (hat : At request vars raw stream)
    (hanswers : Answers stream (.done found) after) (hle : stream.ordinal ≤ raw.length)
    (hample : found = none → stream.emitted < 2147483647) :
    ∃ count,
      Slot.ahead ((request.slotsFrom vars 0 raw).drop stream.ordinal) =
          some (found, count) ∧
        after.ordinal = stream.ordinal + count ∧ after.skip = 0 ∧
        (found.isSome → At request vars raw after) := by
  have hread := hat.read
  have hskipped := hat.stands.skipped
  obtain ⟨count, hahead, hordinal, hskip, hnext⟩ := hanswers.ahead hat.stands
    (by rw [List.length_drop]; omega) hample
  rw [hat.left] at hahead hnext
  have hslots : request.slotsFrom vars stream.ordinal (raw.drop stream.ordinal) =
      (request.slotsFrom vars 0 raw).drop stream.ordinal := by
    rw [CompiledRequest.drop_slotsFrom, Nat.zero_add]
  rw [hslots] at hahead
  refine ⟨count, hahead, hordinal, hskip, fun hsome => ⟨?_, ?_⟩⟩
  · have hstands := hnext hsome
    rwa [List.drop_drop, ← hordinal, ← Nat.sub_zero after.ordinal, ← hskip] at hstands
  · cases found with
    | none => cases hsome
    | some case =>
        have hcount := (Slot.ahead_some hahead).2.1
        rw [List.length_drop, CompiledRequest.length_slotsFrom] at hcount
        omega

theorem At.answers_beyond {raw : List Parts} {stream after : CaseStream}
    {found : Option MutationCase} (hat : At request vars raw stream)
    (hanswers : Answers stream (.done found) after) (hlt : raw.length < stream.ordinal) :
    found = none ∧ after.ordinal = stream.ordinal ∧
      after.skip = stream.ordinal - raw.length := by
  have hread := hat.read
  have hskipped := hat.stands.skipped
  obtain ⟨hnone, hordinal, hskip⟩ := CaseStream.answers_beyond hat.stands
    (by rw [List.length_drop]; omega) hanswers
  rw [List.length_drop] at hskip
  refine ⟨by simpa using hnone, hordinal, by omega⟩

theorem Emits.idle {stream after : CaseStream} {answer : Answer}
    (hemits : Emits stream answer after) (hnone : answer = .done none) :
    after.state ≠ .running := by
  induction hemits with
  | exhausted _ _ => simp
  | oversized _ _ _ _ ih => exact ih hnone
  | _ => cases hnone

theorem Answers.idle {stream after : CaseStream}
    (hanswers : Answers stream (.done none) after) : after.state ≠ .running := by
  by_cases hrunning : stream.state = .running
  · obtain ⟨left, cursor, -, hproceeds⟩ := (answers_running hrunning).mp hanswers
    cases hproceeds with
    | ended _ => simp
    | limited _ _ => simp
    | emits _ _ hemits => exact hemits.idle rfl
  · obtain ⟨-, rfl⟩ := (answers_idle hrunning).mp hanswers
    exact hrunning

end

end CaseStream

end MoonBoofuzz
