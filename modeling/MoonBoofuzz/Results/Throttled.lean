import MoonBoofuzz.Data.Blocks
import MoonBoofuzz.Web.Session

namespace MoonBoofuzz

/-! The logger and the throttled writer keep the same cases. -/

def DbStep.row (index : Int) (step : DbStep) : StepsRow :=
  ⟨index, step.stepType, step.description, step.data, [], step.truncated⟩

namespace CaseRecord

def stepRows (record : CaseRecord) : List StepsRow :=
  record.recordCase.steps.map (DbStep.row record.ordinal)

end CaseRecord

def StepsRow.unstamped (row : StepsRow) : StepsRow := { row with timestamp := [] }

def Queued (record : CaseRecord) (block : List DbLogEntry) : Prop :=
  ∃ (stamp : Text) (rows : List StepsRow),
    block = .casesEntry ⟨record.requestName, record.ordinal, stamp⟩ ::
      rows.map .stepsEntry ∧ rows.map StepsRow.unstamped = record.stepRows

/-- A stored row: cut only if it holds data that was sent in a case that passed. -/
structure StepsRow.Shows (passed : Bool) (row expected : StepsRow) : Prop where
  testCaseIndex : row.testCaseIndex = expected.testCaseIndex
  kind : row.kind = expected.kind
  description : row.description = expected.description
  data : (row.data = expected.data ∧ row.isTruncated = expected.isTruncated) ∨
    (passed = true ∧ expected.kind = sendKind ∧ dataTruncateLength < expected.data.length ∧
      row.data = expected.data.take dataTruncateLength ∧ row.isTruncated = true)

def CaseRecord.passed (record : CaseRecord) : Bool := decide (record.outcome = passedName)

def Stored (record : CaseRecord) (block : List StepsRow) : Prop :=
  List.Forall₂ (StepsRow.Shows record.passed) block record.stepRows

/-- The database holds the cases of the records with all their rows. -/
structure Database.Holds (db : Database) (records : List CaseRecord) : Prop where
  cases : db.cases.map (fun row => (row.name, row.number)) =
    records.map fun record => (record.requestName, record.ordinal)
  steps : Blocks Stored records db.steps

structure Agrees (writer : ThrottledWriter) (logger : DbLogger) : Prop where
  queue : Blocks Queued writer.buffer logger.queue
  currentIndex : logger.currentIndex = writer.currentOrdinal
  queueMaxLen : logger.queueMaxLen = writer.keep
  failDetected : logger.failDetected = writer.failDetected
  firstCase : logger.firstCase = writer.firstCase
  db : logger.db.Holds writer.written

namespace CaseRecord

theorem stepRows_index {record : CaseRecord} {row : StepsRow} (hrow : row ∈ record.stepRows) :
    row.testCaseIndex = record.ordinal := by
  obtain ⟨step, -, rfl⟩ := List.mem_map.mp hrow
  rfl

end CaseRecord

namespace Queued

variable {record : CaseRecord} {block : List DbLogEntry}

theorem ne_nil (hqueued : Queued record block) : block ≠ [] := by
  obtain ⟨stamp, rows, rfl, -⟩ := hqueued
  simp

theorem caseIndex (hqueued : Queued record block) {entry : DbLogEntry}
    (hentry : entry ∈ block) : entry.caseIndex = record.ordinal := by
  obtain ⟨stamp, rows, rfl, hrows⟩ := hqueued
  rcases List.mem_cons.mp hentry with rfl | hrow
  · rfl
  · obtain ⟨row, hmem, rfl⟩ := List.mem_map.mp hrow
    have hexpected : row.unstamped ∈ record.stepRows := by
      rw [← hrows]
      exact List.mem_map_of_mem hmem
    have hindex := CaseRecord.stepRows_index hexpected
    exact hindex

theorem casesRows (hqueued : Queued record block) :
    (block.filterMap DbLogEntry.casesRow).map (fun row => (row.name, row.number)) =
      [(record.requestName, record.ordinal)] := by
  obtain ⟨stamp, rows, rfl, -⟩ := hqueued
  have hnone : (rows.map DbLogEntry.stepsEntry).filterMap DbLogEntry.casesRow = [] := by
    rw [List.filterMap_eq_nil_iff]
    intro entry hentry
    obtain ⟨row, -, rfl⟩ := List.mem_map.mp hentry
    rfl
  rw [List.filterMap_cons, hnone]
  rfl

theorem filterMap_stepsRow (rows : List StepsRow) :
    (rows.map DbLogEntry.stepsEntry).filterMap DbLogEntry.stepsRow = rows := by
  rw [List.filterMap_map]
  exact List.filterMap_some

theorem stored (hqueued : Queued record block) :
    Stored record (block.filterMap DbLogEntry.stepsRow) := by
  obtain ⟨stamp, rows, rfl, hrows⟩ := hqueued
  change Stored record ((rows.map DbLogEntry.stepsEntry).filterMap DbLogEntry.stepsRow)
  rw [filterMap_stepsRow, Stored, ← hrows, List.forall₂_map_right_iff, List.forall₂_same]
  exact fun row _ => ⟨rfl, rfl, rfl, .inl ⟨rfl, rfl⟩⟩

theorem stored_truncate (hqueued : Queued record block) (hpassed : record.passed = true) :
    Stored record ((block.map DbLogEntry.truncate).filterMap DbLogEntry.stepsRow) := by
  obtain ⟨stamp, rows, rfl, hrows⟩ := hqueued
  have htruncate : (rows.map DbLogEntry.stepsEntry).map DbLogEntry.truncate =
      (rows.map StepsRow.truncate).map DbLogEntry.stepsEntry := by
    rw [List.map_map, List.map_map]
    rfl
  change Stored record
    (((rows.map DbLogEntry.stepsEntry).map DbLogEntry.truncate).filterMap DbLogEntry.stepsRow)
  rw [htruncate, filterMap_stepsRow, Stored, ← hrows, List.forall₂_map_left_iff,
    List.forall₂_map_right_iff, List.forall₂_same]
  intro row _
  unfold StepsRow.truncate
  split
  · rename_i hlong
    exact ⟨rfl, rfl, rfl, .inr ⟨hpassed, hlong.1, hlong.2, rfl, rfl⟩⟩
  · exact ⟨rfl, rfl, rfl, .inl ⟨rfl, rfl⟩⟩

end Queued

namespace Agrees

variable {writer : ThrottledWriter} {logger : DbLogger}

theorem retained (hagrees : Agrees writer logger) :
    Blocks Queued writer.retained logger.retained := by
  unfold ThrottledWriter.retained DbLogger.retained
  rw [hagrees.queueMaxLen, hagrees.currentIndex]
  split
  · apply hagrees.queue.dropWhile
    intro record _ block hqueued
    refine ⟨hqueued.ne_nil, fun entry hentry => ?_⟩
    rw [hqueued.caseIndex hentry]
  · exact hagrees.queue

end Agrees

theorem foldl_execute (entries : List DbLogEntry) (db : Database) :
    entries.foldl Database.execute db =
      ⟨db.cases ++ entries.filterMap DbLogEntry.casesRow,
        db.steps ++ entries.filterMap DbLogEntry.stepsRow⟩ := by
  induction entries generalizing db with
  | nil => simp
  | cons entry rest ih =>
      rw [List.foldl_cons, ih]
      cases entry with
      | casesEntry row =>
          rw [Database.execute, List.append_assoc, List.singleton_append]
          rfl
      | stepsEntry row =>
          rw [Database.execute, List.append_assoc, List.singleton_append]
          rfl

theorem Database.Holds.write {db : Database} {records added : List CaseRecord}
    {entries : List DbLogEntry} {whole : Bool} (hholds : db.Holds records)
    (hentries : Blocks Queued added entries)
    (hpassed : whole = false → ∀ record ∈ added, record.passed = true) :
    Database.Holds ((if whole then entries
      else entries.map DbLogEntry.truncate).foldl Database.execute db) (records ++ added) := by
  rw [foldl_execute]
  have hcases : ∀ entries : List DbLogEntry,
      (entries.map DbLogEntry.truncate).filterMap DbLogEntry.casesRow =
        entries.filterMap DbLogEntry.casesRow := by
    intro entries
    rw [List.filterMap_map]
    congr 1
    funext entry
    cases entry <;> rfl
  constructor
  · have hrows : (entries.filterMap DbLogEntry.casesRow).map
        (fun row => (row.name, row.number)) =
          added.flatMap fun record => [(record.requestName, record.ordinal)] := by
      apply Blocks.flatMap_eq
      refine hentries.collect (fun entries =>
        (entries.filterMap DbLogEntry.casesRow).map fun row => (row.name, row.number))
        rfl ?_ ?_
      · intro first second
        rw [List.filterMap_append, List.map_append]
      · exact fun record _ block hqueued => hqueued.casesRows
    have hwritten : (if whole then entries
        else entries.map DbLogEntry.truncate).filterMap DbLogEntry.casesRow =
          entries.filterMap DbLogEntry.casesRow := by
      cases whole
      · exact hcases entries
      · rfl
    rw [List.map_append, List.map_append, hholds.cases, hwritten, hrows,
      ← List.map_eq_flatMap]
  · apply hholds.steps.append
    cases hwhole : whole with
    | true =>
        refine hentries.collect (List.filterMap DbLogEntry.stepsRow) rfl ?_ ?_
        · exact fun first second => List.filterMap_append
        · exact fun record _ block hqueued => hqueued.stored
    | false =>
        refine hentries.collect (fun entries =>
          (entries.map DbLogEntry.truncate).filterMap DbLogEntry.stepsRow) rfl ?_ ?_
        · intro first second
          rw [List.map_append, List.filterMap_append]
        · exact fun record hrecord block hqueued =>
            hqueued.stored_truncate (hpassed hwhole record hrecord)

namespace ThrottledWriter

variable {writer : ThrottledWriter}

theorem retained_sublist (writer : ThrottledWriter) : writer.retained.Sublist writer.buffer := by
  unfold retained
  split
  · exact List.dropWhile_sublist _
  · exact List.Sublist.refl _

/-- Between two records only cases that passed are buffered. -/
structure Quiet (writer : ThrottledWriter) : Prop where
  failDetected : writer.failDetected = false
  passed : ∀ record ∈ writer.buffer, record.passed = true

theorem Quiet.push (hquiet : writer.Quiet) {record : CaseRecord}
    (hdetected : (writer.push record).failDetected = false) :
    ∀ other ∈ (writer.push record).buffer, other.passed = true := by
  simp only [ThrottledWriter.push, hquiet.failDetected, Bool.false_or, decide_eq_false_iff_not,
    not_not] at hdetected
  intro other hother
  rcases List.mem_append.mp hother with hbefore | hlast
  · exact hquiet.passed other hbefore
  · rw [List.mem_singleton] at hlast
    subst hlast
    exact decide_eq_true hdetected

theorem quiet_flush {force : Bool}
    (hpassed : writer.failDetected = false → ∀ record ∈ writer.buffer, record.passed = true)
    (hbuffer : writer.buffer = [] → writer.failDetected = false) :
    (writer.flush force).Quiet := by
  unfold flush
  split
  · rename_i hempty
    exact ⟨hbuffer hempty, hpassed (hbuffer hempty)⟩
  · split
    · exact ⟨rfl, fun record hrecord => by cases hrecord⟩
    · rename_i hkeeps
      have hdetected : writer.failDetected = false := by
        cases hdetected : writer.failDetected with
        | false => rfl
        | true => exact absurd (.inr (.inr (.inl hdetected))) hkeeps
      exact ⟨hdetected, fun record hrecord =>
        hpassed hdetected record (writer.retained_sublist.subset hrecord)⟩

theorem Quiet.append (hquiet : writer.Quiet) (record : CaseRecord) :
    (writer.append record).Quiet :=
  quiet_flush hquiet.push fun hempty => absurd hempty (by simp [ThrottledWriter.push])

end ThrottledWriter

namespace DbLogger

theorem foldl_logStep (steps : List RecordedStep) (logger : DbLogger) :
    ∃ (rows : List StepsRow) (ticks : Nat), steps.foldl logStep logger =
        { logger with queue := logger.queue ++ rows.map .stepsEntry, ticks := ticks } ∧
      rows.map StepsRow.unstamped =
        (steps.flatMap CaseRecord.stepCases).map (DbStep.row logger.currentIndex) := by
  induction steps generalizing logger with
  | nil => exact ⟨[], logger.ticks, by simp, rfl⟩
  | cons step rest ih =>
      obtain ⟨rows, ticks, hfold, hrows⟩ := ih (logger.logStep step)
      have hindex : (logger.logStep step).currentIndex = logger.currentIndex := rfl
      refine ⟨⟨logger.currentIndex, Text.ofAscii "step", step.requestName, [],
          logger.now logger.ticks, false⟩ ::
        ⟨logger.currentIndex, sendKind, [], step.sent, logger.now (logger.ticks + 1),
          false⟩ ::
        ⟨logger.currentIndex, Text.ofAscii "receive", [], step.received,
          logger.now (logger.ticks + 1 + 1), false⟩ :: rows, ticks, ?_, ?_⟩
      · rw [List.foldl_cons, hfold]
        simp [logStep, openStep, logSend, logRecv, pushStep, push]
      · rw [List.map_cons, List.map_cons, List.map_cons, hrows, hindex]
        rfl

def queueing (logger : DbLogger) (record : CaseRecord) (block : List DbLogEntry)
    (ticks : Nat) : DbLogger :=
  { logger with
    queue := logger.queue ++ block
    currentIndex := record.ordinal
    failDetected := logger.failDetected || !record.passed
    ticks := ticks }

theorem writeLog_failed {logger : DbLogger} (hfailed : logger.failDetected = true)
    (force force' : Bool) : (logger.writeLog force).writeLog force' = logger.writeLog force := by
  rw [writeLog, if_pos (queue_writeLog hfailed force)]

theorem logRecord_eq (logger : DbLogger) (record : CaseRecord) :
    ∃ block ticks, Queued record block ∧
      logger.logRecord record = (logger.queueing record block ticks).writeLog false := by
  obtain ⟨rows, ticks, hfold, hrows⟩ :=
    foldl_logStep record.steps (logger.openTestCase record.requestName record.ordinal)
  let verdict : StepsRow := ⟨record.ordinal, record.verdict, record.detail, [],
    logger.now ticks, false⟩
  let entries : List DbLogEntry :=
    .casesEntry ⟨record.requestName, record.ordinal, logger.now logger.ticks⟩ ::
      (rows ++ [verdict]).map .stepsEntry
  have hqueued : Queued record entries := by
    refine ⟨_, _, rfl, ?_⟩
    rw [List.map_append, hrows, CaseRecord.stepRows, CaseRecord.recordCase, List.map_append]
    rfl
  have hentries : logger.queue ++ entries = (logger.queue ++
      .casesEntry ⟨record.requestName, record.ordinal, logger.now logger.ticks⟩ ::
        rows.map .stepsEntry) ++ [.stepsEntry verdict] := by
    simp [entries]
  have hopened : record.steps.foldl logStep
      (logger.openTestCase record.requestName record.ordinal) =
        { logger with
          queue := logger.queue ++
            .casesEntry ⟨record.requestName, record.ordinal, logger.now logger.ticks⟩ ::
              rows.map .stepsEntry
          currentIndex := record.ordinal
          ticks := ticks } := by
    rw [hfold]
    simp [openTestCase, push]
  refine ⟨entries, ticks + 1, hqueued, ?_⟩
  change ((record.steps.foldl logStep
    (logger.openTestCase record.requestName record.ordinal)).logOutcome record).closeTestCase =
      _
  rw [hopened, queueing, hentries]
  unfold logOutcome
  split
  · rename_i hpassed
    have hverdict : record.verdict = Text.ofAscii "pass" := if_pos hpassed
    have hpass : record.passed = true := decide_eq_true hpassed
    simp only [verdict, hverdict, hpass, Bool.not_true, Bool.or_false]
    rfl
  · rename_i hfailed
    have hpass : record.passed = false := decide_eq_false hfailed
    split
    · rename_i herror
      have hverdict : record.verdict = Text.ofAscii "error" := by
        rw [CaseRecord.verdict, if_neg hfailed, if_pos herror]
      simp only [verdict, hverdict, hpass, Bool.not_false, Bool.or_true]
      exact writeLog_failed rfl false false
    · rename_i herror
      have hverdict : record.verdict = Text.ofAscii "fail" := by
        rw [CaseRecord.verdict, if_neg hfailed, if_neg herror]
      simp only [verdict, hverdict, hpass, Bool.not_false, Bool.or_true]
      rfl

end DbLogger

namespace Agrees

variable {writer : ThrottledWriter} {logger : DbLogger}

theorem flush (hagrees : Agrees writer logger)
    (hpassed : writer.failDetected = false → ∀ record ∈ writer.buffer, record.passed = true)
    (force : Bool) : Agrees (writer.flush force) (logger.writeLog force) := by
  have hempty : logger.queue = [] ↔ writer.buffer = [] :=
    hagrees.queue.eq_nil_iff fun record _ block hqueued => hqueued.ne_nil
  unfold ThrottledWriter.flush DbLogger.writeLog
  by_cases hbuffer : writer.buffer = []
  · rw [if_pos hbuffer, if_pos (hempty.mpr hbuffer)]
    exact hagrees
  · rw [if_neg hbuffer, if_neg (mt hempty.mp hbuffer), hagrees.queueMaxLen,
      hagrees.failDetected, hagrees.firstCase]
    split
    · exact {
        queue := .nil
        currentIndex := hagrees.currentIndex
        queueMaxLen := rfl
        failDetected := rfl
        firstCase := rfl
        db := hagrees.db.write hagrees.retained fun hdetected record hrecord =>
          hpassed hdetected record (writer.retained_sublist.subset hrecord) }
    · exact ⟨hagrees.retained, hagrees.currentIndex, rfl, rfl, rfl, hagrees.db⟩

theorem push (hagrees : Agrees writer logger) {record : CaseRecord}
    {block : List DbLogEntry} (hqueued : Queued record block) (ticks : Nat) :
    Agrees (writer.push record) (logger.queueing record block ticks) where
  queue := hagrees.queue.append (.single hqueued)
  currentIndex := rfl
  queueMaxLen := hagrees.queueMaxLen
  failDetected := by
    change (logger.failDetected || !record.passed) =
      (writer.failDetected || decide (record.outcome ≠ passedName))
    rw [hagrees.failDetected, CaseRecord.passed, decide_not]
  firstCase := hagrees.firstCase
  db := hagrees.db

theorem append (hagrees : Agrees writer logger) (hquiet : writer.Quiet)
    (record : CaseRecord) : Agrees (writer.append record) (logger.logRecord record) := by
  obtain ⟨block, ticks, hqueued, hlogged⟩ := logger.logRecord_eq record
  rw [hlogged]
  exact (hagrees.push hqueued ticks).flush hquiet.push false

end Agrees

def ThrottledWriter.run (keep : Int) (records : List CaseRecord) : ThrottledWriter :=
  records.foldl append (new keep)

def DbLogger.run (keep : Int) (now : Nat → Text) (records : List CaseRecord) : DbLogger :=
  records.foldl logRecord (openWithClock keep now)

theorem run_agrees (keep : Int) (now : Nat → Text) (records : List CaseRecord) :
    Agrees (ThrottledWriter.run keep records) (DbLogger.run keep now records) ∧
      (ThrottledWriter.run keep records).Quiet := by
  have hsteps : ∀ (records : List CaseRecord) (writer : ThrottledWriter) (logger : DbLogger),
      Agrees writer logger → writer.Quiet →
        Agrees (records.foldl ThrottledWriter.append writer)
            (records.foldl DbLogger.logRecord logger) ∧
          (records.foldl ThrottledWriter.append writer).Quiet := by
    intro records
    induction records with
    | nil => exact fun _ _ hagrees hquiet => ⟨hagrees, hquiet⟩
    | cons record rest ih =>
        intro writer logger hagrees hquiet
        exact ih _ _ (hagrees.append hquiet record) (hquiet.append record)
  exact hsteps records _ _
    ⟨.nil, rfl, rfl, rfl, rfl, ⟨rfl, .nil⟩⟩ ⟨rfl, fun record hrecord => by cases hrecord⟩

/-- What is written and what is still buffered are records that were fed, in order. -/
theorem flush_sublist {writer : ThrottledWriter} {records : List CaseRecord}
    (hsublist : (writer.written ++ writer.buffer).Sublist records) (force : Bool) :
    ((writer.flush force).written ++ (writer.flush force).buffer).Sublist records := by
  have hretained : (writer.written ++ writer.retained).Sublist
      (writer.written ++ writer.buffer) :=
    (List.Sublist.refl _).append writer.retained_sublist
  unfold ThrottledWriter.flush
  split
  · exact hsublist
  · split
    · rw [List.append_nil]
      exact hretained.trans hsublist
    · exact hretained.trans hsublist

theorem run_sublist (keep : Int) (records : List CaseRecord) :
    ((ThrottledWriter.run keep records).written ++
      (ThrottledWriter.run keep records).buffer).Sublist records := by
  induction records using List.reverseRecOn with
  | nil => exact List.Sublist.refl _
  | append_singleton records record ih =>
      rw [ThrottledWriter.run, List.foldl_append, List.foldl_cons, List.foldl_nil]
      apply flush_sublist
      rw [ThrottledWriter.push, ← List.append_assoc]
      exact ih.append (List.Sublist.refl _)

/-- The file and the database hold the same cases, and the database holds all rows of
each of them. -/
structure SameCases (writer : ThrottledWriter) (logger : DbLogger) : Prop where
  ordinals : writer.written.map (·.ordinal) = logger.db.cases.map (·.number)
  cases : ∀ record ∈ writer.written, ∃ row ∈ logger.db.cases,
    row.name = record.requestName ∧ row.number = record.ordinal
  steps : ∀ record ∈ writer.written,
    Stored record (logger.db.steps.filter fun row => row.testCaseIndex = record.ordinal)

theorem Stored.index {record : CaseRecord} {block : List StepsRow}
    (hstored : Stored record block) : ∀ row ∈ block, row.testCaseIndex = record.ordinal := by
  have hall : ∀ {rows expected : List StepsRow},
      List.Forall₂ (StepsRow.Shows record.passed) rows expected →
      (∀ row ∈ expected, row.testCaseIndex = record.ordinal) →
      ∀ row ∈ rows, row.testCaseIndex = record.ordinal := by
    intro rows expected hshows hexpected
    induction hshows with
    | nil => exact fun row hrow => by cases hrow
    | cons hshown _ ih =>
        rw [List.forall_mem_cons] at hexpected ⊢
        exact ⟨hshown.testCaseIndex.trans hexpected.1, ih hexpected.2⟩
  exact hall hstored fun row hrow => CaseRecord.stepRows_index hrow

theorem Agrees.sameCases {writer : ThrottledWriter} {logger : DbLogger}
    (hagrees : Agrees writer logger) (hnodup : (writer.written.map (·.ordinal)).Nodup) :
    SameCases writer logger := by
  have hcases := hagrees.db.cases
  constructor
  · have hnumbers := congrArg (List.map Prod.snd) hcases
    rw [List.map_map, List.map_map] at hnumbers
    exact hnumbers.symm
  · intro record hrecord
    have hmem : (record.requestName, record.ordinal) ∈
        logger.db.cases.map fun row => (row.name, row.number) := by
      rw [hcases]
      exact List.mem_map_of_mem hrecord
    obtain ⟨row, hrow, hsame⟩ := List.mem_map.mp hmem
    exact ⟨row, hrow, congrArg Prod.fst hsame, congrArg Prod.snd hsame⟩
  · intro record hrecord
    obtain ⟨block, hstored, hblock⟩ := hagrees.db.steps.filter_key
      (fun record _ block hstored row hrow => Stored.index hstored row hrow) hnodup hrecord
    rw [hblock]
    exact hstored

theorem Increasing.nodup {records written : List CaseRecord}
    (hordinals : records.Pairwise fun first second => first.ordinal < second.ordinal)
    (hsublist : written.Sublist records) : (written.map (·.ordinal)).Nodup := by
  rw [List.Nodup, List.pairwise_map]
  exact (hordinals.sublist hsublist).imp fun hlt => ne_of_lt hlt

theorem throttles_agree (keep : Int) (now : Nat → Text) {records : List CaseRecord}
    (hordinals : records.Pairwise fun first second => first.ordinal < second.ordinal)
    {fed : List CaseRecord} (hfed : fed <+: records) :
    SameCases (ThrottledWriter.run keep fed) (DbLogger.run keep now fed) ∧
      SameCases (ThrottledWriter.run keep fed).closeTest
        (DbLogger.run keep now fed).closeTest := by
  obtain ⟨hagrees, hquiet⟩ := run_agrees keep now fed
  have hsublist := run_sublist keep fed
  have hincreasing := hordinals.sublist hfed.sublist
  constructor
  · exact hagrees.sameCases (Increasing.nodup hincreasing
      ((List.sublist_append_left _ _).trans hsublist))
  · exact (hagrees.flush (fun _ => hquiet.passed) true).sameCases
      (Increasing.nodup hincreasing
        ((List.sublist_append_left _ _).trans (flush_sublist hsublist true)))

def sampleRun : List CaseRecord :=
  [(0, passedName, none), (1, passedName, none),
      (3, Text.ofAscii "peer_closed", some 0)].map fun (ordinal, outcome, failedStep) =>
    { formatVersion := 1
      caseId := Text.ofAscii "case"
      generatorVersion := Text.ofAscii "v1"
      requestName := Text.ofAscii "r"
      fieldPath := Text.ofAscii "r.x"
      mutationIndex := 0
      ordinal := ordinal
      path := [Text.ofAscii "r"]
      config := .object [(Text.ofAscii "transport", .string (Text.ofAscii "custom"))]
      steps := [⟨Text.ofAscii "r", [0x00, 0xff], [0xfe, 0x00], true⟩]
      outcome := outcome
      detail := Text.ofAscii "text"
      failedStep := failedStep }

theorem sampleRun_increasing :
    sampleRun.Pairwise fun first second => first.ordinal < second.ordinal := by
  have hpairs : (sampleRun.map (·.ordinal)).Pairwise (· < ·) := by decide
  exact List.pairwise_map.mp hpairs

theorem sampleRun_sameCases :
    SameCases (ThrottledWriter.run 1 sampleRun)
      (DbLogger.run 1 (fun _ => []) sampleRun) :=
  (throttles_agree 1 (fun _ => []) sampleRun_increasing (List.prefix_refl _)).1

end MoonBoofuzz
