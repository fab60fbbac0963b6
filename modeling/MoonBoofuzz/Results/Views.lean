import MoonBoofuzz.Records.Jsonl
import MoonBoofuzz.Results.Throttled

namespace MoonBoofuzz

/-! The live session, the database and the file of records show the same results. -/

namespace CaseRecord

def failures (record : CaseRecord) : List (Int × Text) :=
  if record.reported then [(record.ordinal, record.detail)] else []

theorem reported_of_passed {record : CaseRecord} (hpassed : record.passed = true) :
    record.reported = false := by
  have houtcome : record.outcome = passedName := of_decide_eq_true hpassed
  exact decide_eq_false fun h => h.1 houtcome

end CaseRecord

def FailureMap.addAll (map : FailureMap) (failures : List (Int × Text)) : FailureMap :=
  failures.foldl (fun map failure => map.add failure.1 failure.2) map

theorem foldl_addFailure (records : List CaseRecord) (map : FailureMap) :
    records.foldl addFailure map = map.addAll (records.flatMap CaseRecord.failures) := by
  induction records generalizing map with
  | nil => rfl
  | cons record rest ih =>
      rw [List.foldl_cons, ih, FailureMap.addAll, FailureMap.addAll, List.flatMap_cons,
        List.foldl_append]
      congr 1
      unfold addFailure CaseRecord.failures
      split <;> rfl

theorem flatMap_failures (records : List CaseRecord) :
    records.flatMap CaseRecord.failures =
      (records.filter CaseRecord.reported).map fun record =>
        (record.ordinal, record.detail) := by
  induction records with
  | nil => rfl
  | cons record rest ih =>
      rw [List.flatMap_cons, ih, CaseRecord.failures, List.filter_cons]
      split <;> rfl

namespace ThrottledWriter

variable {writer : ThrottledWriter}

theorem filter_passed {records : List CaseRecord}
    (hpassed : ∀ record ∈ records, record.passed = true) :
    records.filter CaseRecord.reported = [] := by
  rw [List.filter_eq_nil_iff]
  intro record hrecord
  rw [CaseRecord.reported_of_passed (hpassed record hrecord)]
  exact Bool.false_ne_true

theorem retained_push (writer : ThrottledWriter) (record : CaseRecord) :
    ∃ kept, (writer.push record).retained = kept ++ [record] ∧ kept.Sublist writer.buffer := by
  unfold retained
  split
  · rename_i hkeep
    have hstays : (decide ((writer.push record).keep ≤
        wrap32 ((writer.push record).currentOrdinal - record.ordinal))) = false := by
      have hzero : wrap32 ((writer.push record).currentOrdinal - record.ordinal) = 0 := by
        rw [show (writer.push record).currentOrdinal = record.ordinal from rfl, Int.sub_self]
        rfl
      rw [hzero]
      exact decide_eq_false (not_le.mpr hkeep)
    change ∃ kept, (writer.buffer ++ [record]).dropWhile _ = kept ++ [record] ∧ _
    rw [List.dropWhile_append, List.dropWhile_cons_of_neg (by simp only [hstays]; simp)]
    split
    · exact ⟨[], rfl, List.nil_sublist _⟩
    · exact ⟨_, rfl, List.dropWhile_sublist _⟩
  · exact ⟨writer.buffer, rfl, List.Sublist.refl _⟩

theorem written_append (hquiet : writer.Quiet) (record : CaseRecord) :
    (writer.append record).written.filter CaseRecord.reported =
      writer.written.filter CaseRecord.reported ++ [record].filter CaseRecord.reported := by
  obtain ⟨kept, hkept, hsublist⟩ := writer.retained_push record
  have hnone : kept.filter CaseRecord.reported = [] :=
    filter_passed fun other hother => hquiet.passed other (hsublist.subset hother)
  unfold append flush
  rw [if_neg (by simp [push])]
  split
  · rw [hkept, List.filter_append, List.filter_append, hnone, List.nil_append]
    rfl
  · rename_i hholds
    have hpassed : record.passed = true := by
      cases hpassed : record.passed with
      | true => rfl
      | false =>
          have hdetected : (writer.push record).failDetected = true := by
            change (writer.failDetected || decide (record.outcome ≠ passedName)) = true
            rw [decide_not, show decide (record.outcome = passedName) = false from hpassed]
            exact Bool.or_true _
          exact absurd (.inr (.inr (.inl hdetected))) hholds
    have hlast : [record].filter CaseRecord.reported = [] :=
      filter_passed (by simpa using hpassed)
    rw [hlast, List.append_nil]
    rfl

theorem written_closeTest (hquiet : writer.Quiet) :
    writer.closeTest.written.filter CaseRecord.reported =
      writer.written.filter CaseRecord.reported := by
  unfold closeTest flush
  split
  · rfl
  · rw [if_pos (.inl rfl), List.filter_append, filter_passed fun record hrecord =>
      hquiet.passed record (writer.retained_sublist.subset hrecord), List.append_nil]

theorem written_run (keep : Int) (records : List CaseRecord) :
    (run keep records).written.filter CaseRecord.reported =
      records.filter CaseRecord.reported := by
  induction records using List.reverseRecOn with
  | nil => rfl
  | append_singleton records record ih =>
      have hquiet := (run_agrees keep (fun _ => []) records).2
      rw [run, List.foldl_append, List.foldl_cons, List.foldl_nil]
      rw [show records.foldl ThrottledWriter.append (new keep) = run keep records from rfl,
        written_append hquiet, ih, List.filter_append]

theorem closeTest_failures (keep : Int) (records : List CaseRecord) :
    jsonlFailures (run keep records).closeTest.written = jsonlFailures records := by
  have hquiet := (run_agrees keep (fun _ => []) records).2
  rw [jsonlFailures, jsonlFailures, foldl_addFailure, foldl_addFailure, flatMap_failures,
    flatMap_failures, written_closeTest hquiet, written_run]

end ThrottledWriter

def failKind : Text := Text.ofAscii "fail"

namespace CaseRecord

theorem stepCases_kind {step : RecordedStep} {row : DbStep} (hrow : row ∈ stepCases step) :
    row.stepType ≠ failKind := by
  have hkinds : Text.ofAscii "step" ≠ failKind ∧ sendKind ≠ failKind ∧
      Text.ofAscii "receive" ≠ failKind := by decide +kernel
  simp only [stepCases, List.mem_cons, List.not_mem_nil, or_false] at hrow
  rcases hrow with rfl | rfl | rfl
  · exact hkinds.1
  · exact hkinds.2.1
  · exact hkinds.2.2

theorem verdict_fail (record : CaseRecord) :
    record.verdict = failKind ↔ record.reported = true := by
  have hkinds : Text.ofAscii "pass" ≠ failKind ∧ Text.ofAscii "error" ≠ failKind := by
    decide +kernel
  rw [reported, decide_eq_true_eq, verdict]
  split
  · rename_i hpassed
    exact ⟨fun h => absurd h hkinds.1, fun h => absurd hpassed h.1⟩
  · split
    · rename_i herror
      exact ⟨fun h => absurd h hkinds.2, fun h => absurd herror h.2⟩
    · rename_i hfailed herror
      exact ⟨fun _ => ⟨hfailed, herror⟩, fun _ => rfl⟩

theorem stepRows_failures (record : CaseRecord) :
    (record.stepRows.filter fun row => row.kind = failKind).map
        (fun row => (row.testCaseIndex, row.description)) = record.failures := by
  have hsteps : ((record.steps.flatMap stepCases).map (DbStep.row record.ordinal)).filter
      (fun row => row.kind = failKind) = [] := by
    rw [List.filter_eq_nil_iff]
    intro row hrow
    obtain ⟨step, hstep, rfl⟩ := List.mem_map.mp hrow
    obtain ⟨recorded, -, hmem⟩ := List.mem_flatMap.mp hstep
    rw [decide_eq_true_eq]
    exact stepCases_kind hmem
  rw [stepRows, recordCase, List.map_append, List.filter_append, hsteps, List.nil_append,
    List.map_singleton, List.filter_singleton, failures]
  have hverdict : (DbStep.row record.ordinal
      ⟨record.verdict, record.detail, [], [], false⟩).kind = record.verdict := rfl
  rw [hverdict]
  by_cases hreported : record.reported = true
  · rw [if_pos hreported, decide_eq_true (record.verdict_fail.mpr hreported)]
    rfl
  · rw [if_neg hreported, decide_eq_false (mt record.verdict_fail.mp hreported)]
    rfl

end CaseRecord

theorem Stored.failures {record : CaseRecord} {block : List StepsRow}
    (hstored : Stored record block) :
    (block.filter fun row => row.kind = failKind).map
        (fun row => (row.testCaseIndex, row.description)) = record.failures := by
  rw [← record.stepRows_failures]
  have hrows : ∀ {rows expected : List StepsRow},
      List.Forall₂ (StepsRow.Shows record.passed) rows expected →
      (rows.filter fun row => row.kind = failKind).map
          (fun row => (row.testCaseIndex, row.description)) =
        (expected.filter fun row => row.kind = failKind).map
          (fun row => (row.testCaseIndex, row.description)) := by
    intro rows expected hshows
    induction hshows with
    | nil => rfl
    | @cons row wanted rows expected hshown _ ih =>
        rw [List.filter_cons, List.filter_cons, hshown.kind]
        split
        · rw [List.map_cons, List.map_cons, ih, hshown.testCaseIndex, hshown.description]
        · exact ih
  exact hrows hstored

theorem Database.Holds.failureMap {db : Database} {records : List CaseRecord}
    (hholds : db.Holds records) : db.failureMap = jsonlFailures records := by
  have hpairs : (db.steps.filter fun row => row.kind = failKind).map
      (fun row => (row.testCaseIndex, row.description)) =
        records.flatMap CaseRecord.failures := by
    apply Blocks.flatMap_eq
    refine hholds.steps.collect (fun rows =>
      (rows.filter fun row => row.kind = failKind).map
        fun row => (row.testCaseIndex, row.description)) rfl ?_ ?_
    · intro first second
      rw [List.filter_append, List.map_append]
    · exact fun record _ block hstored => Stored.failures hstored
  rw [jsonlFailures, foldl_addFailure, ← hpairs, FailureMap.addAll, List.foldl_map]
  rfl

/-- A step as the case inspector shows it. -/
structure DbStep.Shows (passed : Bool) (step expected : DbStep) : Prop where
  stepType : step.stepType = expected.stepType
  description : step.description = expected.description
  data : (step.data = expected.data ∧ step.truncated = expected.truncated) ∨
    (passed = true ∧ expected.stepType = sendKind ∧
      dataTruncateLength < expected.data.length ∧
      step.data = expected.data.take dataTruncateLength ∧ step.truncated = true)

structure DbCase.Shows (case : DbCase) (record : CaseRecord) : Prop where
  name : case.name = record.recordCase.name
  index : case.index = record.recordCase.index
  steps : List.Forall₂ (DbStep.Shows record.passed) case.steps record.recordCase.steps

theorem Stored.shows {record : CaseRecord} {block : List StepsRow}
    (hstored : Stored record block) :
    List.Forall₂ (DbStep.Shows record.passed) (block.map Database.readStep)
      record.recordCase.steps := by
  rw [Stored, CaseRecord.stepRows, List.forall₂_map_right_iff] at hstored
  rw [List.forall₂_map_left_iff]
  exact hstored.imp fun row step hshown =>
    ⟨hshown.kind, hshown.description, hshown.data⟩

theorem Database.Holds.case {db : Database} {records : List CaseRecord}
    (hholds : db.Holds records) (hnodup : (records.map (·.ordinal)).Nodup) {index : Int}
    {case : DbCase} (hcase : db.getTestCaseData index = .ok case) :
    ∃ record ∈ records, record.ordinal = index ∧ case.Shows record := by
  unfold Database.getTestCaseData at hcase
  split at hcase
  · cases hcase
  · rename_i row rows hrows
    cases hcase
    have hfound : row ∈ db.cases.filter fun row => row.number = index := by
      rw [hrows]
      exact List.mem_cons_self
    obtain ⟨hrow, hnumber⟩ := List.mem_filter.mp hfound
    have hpair : (row.name, row.number) ∈
        records.map fun record => (record.requestName, record.ordinal) := by
      rw [← hholds.cases]
      exact List.mem_map_of_mem hrow
    obtain ⟨record, hrecord, hsame⟩ := List.mem_map.mp hpair
    have hordinal : record.ordinal = index :=
      (congrArg Prod.snd hsame).trans (of_decide_eq_true hnumber)
    refine ⟨record, hrecord, hordinal, (congrArg Prod.fst hsame).symm, hordinal.symm, ?_⟩
    obtain ⟨block, hstored, hblock⟩ := hholds.steps.filter_key
      (fun record _ block hstored row hrow => Stored.index hstored row hrow) hnodup hrecord
    rw [← hordinal, hblock]
    exact hstored.shows

theorem crashes_eq (hasReader : Bool) (records : List CaseRecord) :
    (records.foldl LiveSession.observe (LiveSession.new hasReader)).crashes =
      jsonlFailures records := by
  have hsteps : ∀ (records : List CaseRecord) (session : LiveSession),
      (records.foldl LiveSession.observe session).failures =
        records.foldl addFailure session.failures := by
    intro records
    induction records with
    | nil => exact fun _ => rfl
    | cons record rest ih => exact fun session => ih (session.observe record)
  exact hsteps records (LiveSession.new hasReader)

end MoonBoofuzz
