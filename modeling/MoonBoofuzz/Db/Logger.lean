import MoonBoofuzz.Recordio.Throttle

namespace MoonBoofuzz

/-! The results database and its logger. -/

/-- A row of the table `cases`. -/
structure CasesRow where
  name : Text
  number : Int
  timestamp : Text
  deriving Repr, DecidableEq

/-- A row of the table `steps`. -/
structure StepsRow where
  testCaseIndex : Int
  kind : Text
  description : Text
  data : Bytes
  timestamp : Text
  isTruncated : Bool
  deriving Repr, DecidableEq

structure Database where
  cases : List CasesRow
  steps : List StepsRow
  deriving Repr, DecidableEq

inductive DbLogEntry where
  | casesEntry (row : CasesRow)
  | stepsEntry (row : StepsRow)
  deriving Repr, DecidableEq

def dataTruncateLength : Nat := 512

def sendKind : Text := Text.ofAscii "send"

namespace StepsRow

/-- Only rows of sent data are cut. -/
def truncate (row : StepsRow) : StepsRow :=
  if row.kind = sendKind ∧ dataTruncateLength < row.data.length then
    { row with data := row.data.take dataTruncateLength, isTruncated := true }
  else row

end StepsRow

namespace DbLogEntry

def caseIndex : DbLogEntry → Int
  | .casesEntry row => row.number
  | .stepsEntry row => row.testCaseIndex

/-- `truncate_entry`. -/
def truncate : DbLogEntry → DbLogEntry
  | .casesEntry row => .casesEntry row
  | .stepsEntry row => .stepsEntry row.truncate

def casesRow : DbLogEntry → Option CasesRow
  | .casesEntry row => some row
  | .stepsEntry _ => none

def stepsRow : DbLogEntry → Option StepsRow
  | .casesEntry _ => none
  | .stepsEntry row => some row

end DbLogEntry

/-- `execute_entry`. -/
def Database.execute (db : Database) : DbLogEntry → Database
  | .casesEntry row => { db with cases := db.cases ++ [row] }
  | .stepsEntry row => { db with steps := db.steps ++ [row] }

structure DbLogger where
  db : Database
  queue : List DbLogEntry
  currentIndex : Int
  queueMaxLen : Int
  failDetected : Bool
  firstCase : Bool
  /-- The answers of the clock, and how many have been taken. -/
  now : Nat → Text
  ticks : Nat

namespace DbLogger

/-- `DbLogger::open_with_clock`, on a new database. -/
def openWithClock (numLogCases : Int) (now : Nat → Text) : DbLogger where
  db := ⟨[], []⟩
  queue := []
  currentIndex := 0
  queueMaxLen := numLogCases
  failDetected := false
  firstCase := true
  now := now
  ticks := 0

def retained (logger : DbLogger) : List DbLogEntry :=
  if 0 < logger.queueMaxLen then
    logger.queue.dropWhile fun entry =>
      logger.queueMaxLen ≤ wrap32 (logger.currentIndex - entry.caseIndex)
  else logger.queue

def writeLog (logger : DbLogger) (force : Bool) : DbLogger :=
  if logger.queue = [] then logger
  else if force ∨ logger.queueMaxLen ≤ 0 ∨ logger.failDetected ∨ logger.firstCase then
    { logger with
      db := (if logger.failDetected then logger.retained
        else logger.retained.map DbLogEntry.truncate).foldl Database.execute logger.db
      queue := []
      failDetected := false
      firstCase := false }
  else { logger with queue := logger.retained }

def push (logger : DbLogger) (entry : Text → DbLogEntry) : DbLogger :=
  { logger with
    queue := logger.queue ++ [entry (logger.now logger.ticks)]
    ticks := logger.ticks + 1 }

def pushStep (logger : DbLogger) (kind description : Text) (data : Bytes) : DbLogger :=
  logger.push fun stamp =>
    .stepsEntry ⟨logger.currentIndex, kind, description, data, stamp, false⟩

def openTestCase (logger : DbLogger) (name : Text) (index : Int) : DbLogger :=
  { logger.push (fun stamp => .casesEntry ⟨name, index, stamp⟩) with
    currentIndex := index }

def openStep (logger : DbLogger) (description : Text) : DbLogger :=
  logger.pushStep (Text.ofAscii "step") description []

def logSend (logger : DbLogger) (data : Bytes) : DbLogger :=
  logger.pushStep sendKind [] data

def logRecv (logger : DbLogger) (data : Bytes) : DbLogger :=
  logger.pushStep (Text.ofAscii "receive") [] data

def logPass (logger : DbLogger) (description : Text) : DbLogger :=
  logger.pushStep (Text.ofAscii "pass") description []

def logFail (logger : DbLogger) (description : Text) : DbLogger :=
  { logger.pushStep (Text.ofAscii "fail") description [] with failDetected := true }

/-- An error is written at once. -/
def logError (logger : DbLogger) (description : Text) : DbLogger :=
  { logger.pushStep (Text.ofAscii "error") description [] with
    failDetected := true }.writeLog false

theorem queue_writeLog {logger : DbLogger} (hfailed : logger.failDetected = true)
    (force : Bool) : (logger.writeLog force).queue = [] := by
  unfold writeLog
  split
  · assumption
  · rw [if_pos (.inr (.inr (.inl hfailed)))]

def closeTestCase (logger : DbLogger) : DbLogger := logger.writeLog false

def closeTest (logger : DbLogger) : DbLogger := logger.writeLog true

def logStep (logger : DbLogger) (step : RecordedStep) : DbLogger :=
  ((logger.openStep step.requestName).logSend step.sent).logRecv step.received

def logOutcome (logger : DbLogger) (record : CaseRecord) : DbLogger :=
  if record.outcome = passedName then logger.logPass record.detail
  else if record.failedStep = some (-1) then logger.logError record.detail
  else logger.logFail record.detail

def logRecord (logger : DbLogger) (record : CaseRecord) : DbLogger :=
  let opened := logger.openTestCase record.requestName record.ordinal
  ((record.steps.foldl logStep opened).logOutcome record).closeTestCase

end DbLogger

end MoonBoofuzz
