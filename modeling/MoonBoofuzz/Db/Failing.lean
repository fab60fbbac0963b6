import MoonBoofuzz.Data.Attempts
import MoonBoofuzz.Db.Logger

namespace MoonBoofuzz

/-! The database logger over a database whose statements may raise. -/

structure FailingLogger where
  /-- Its `db` is what is committed. -/
  logger : DbLogger
  working : Option Database
  /-- The statements of `write_log` so far. -/
  statements : Nat

inductive LogAction where
  | push (entry : Int → Text → DbLogEntry)
  | adopt (index : Int)
  | fail
  | write (force : Bool)

namespace LogAction

def step (kind description : Text) (data : Bytes) : LogAction :=
  .push fun index stamp => .stepsEntry ⟨index, kind, description, data, stamp, false⟩

end LogAction

inductive LogCall where
  | openTestCase (name : Text) (index : Int)
  | openStep (description : Text)
  | logCheck (description : Text)
  | logError (description : Text)
  | logRecv (data : Bytes)
  | logSend (data : Bytes)
  | logInfo (description : Text)
  | logFail (description : Text)
  | logPass (description : Text)
  | closeTestCase
  | closeTest
  | logRecord (record : CaseRecord)

namespace LogCall

def openTestCaseActions (name : Text) (index : Int) : List LogAction :=
  [.push fun _ stamp => .casesEntry ⟨name, index, stamp⟩, .adopt index]

def openStepAction (description : Text) : LogAction :=
  .step (Text.ofAscii "step") description []

def logSendAction (data : Bytes) : LogAction := .step sendKind [] data

def logRecvAction (data : Bytes) : LogAction := .step (Text.ofAscii "receive") [] data

def logPassAction (description : Text) : LogAction :=
  .step (Text.ofAscii "pass") description []

def logFailActions (description : Text) : List LogAction :=
  [.step (Text.ofAscii "fail") description [], .fail]

def logErrorActions (description : Text) : List LogAction :=
  [.step (Text.ofAscii "error") description [], .fail, .write false]

def logStepActions (step : RecordedStep) : List LogAction :=
  [openStepAction step.requestName, logSendAction step.sent, logRecvAction step.received]

def logOutcomeActions (record : CaseRecord) : List LogAction :=
  if record.outcome = passedName then [logPassAction record.detail]
  else if record.failedStep = some (-1) then logErrorActions record.detail
  else logFailActions record.detail

def actions : LogCall → List LogAction
  | .openTestCase name index => openTestCaseActions name index
  | .openStep description => [openStepAction description]
  | .logCheck description => [.step (Text.ofAscii "check") description []]
  | .logError description => logErrorActions description
  | .logRecv data => [logRecvAction data]
  | .logSend data => [logSendAction data]
  | .logInfo description => [.step (Text.ofAscii "info") description []]
  | .logFail description => logFailActions description
  | .logPass description => [logPassAction description]
  | .closeTestCase => [.write false]
  | .closeTest => [.write true]
  | .logRecord record =>
      openTestCaseActions record.requestName record.ordinal ++
        record.steps.flatMap logStepActions ++ logOutcomeActions record ++ [.write false]

end LogCall

namespace FailingLogger

def writes (logger : DbLogger) (force : Bool) : Prop :=
  logger.queue ≠ [] ∧
    (force = true ∨ logger.queueMaxLen ≤ 0 ∨ logger.failDetected = true ∨
      logger.firstCase = true)

instance (logger : DbLogger) (force : Bool) : Decidable (writes logger force) :=
  inferInstanceAs (Decidable (_ ∧ _))

/-- The rows a flush inserts: whole ones only after a failure. -/
def rows (logger : DbLogger) : List DbLogEntry :=
  if logger.failDetected then logger.retained else logger.retained.map DbLogEntry.truncate

def store (failing : FailingLogger) : Store Database :=
  { committed := failing.logger.db, working := failing.working }

/-- `write_log`, with the pattern of the statements that raise. -/
def writeLog (fails : Nat → Bool) (force : Bool) (failing : FailingLogger) :
    FailingLogger × Bool :=
  let logger := failing.logger
  if writes logger force then
    let tried := failing.store.transact Database.execute fails failing.statements (rows logger)
    let trimmed := { logger with db := tried.store.committed, queue := logger.retained }
    ({ logger := if tried.raised then trimmed
        else { trimmed with queue := [], firstCase := false, failDetected := false }
       working := tried.store.working
       statements := tried.attempts }, tried.raised)
  else if logger.queue = [] then (failing, false)
  else ({ failing with logger := { logger with queue := logger.retained } }, false)

def act (fails : Nat → Bool) (failing : FailingLogger) : LogAction → FailingLogger × Bool
  | .push entry =>
      ({ failing with logger := failing.logger.push (entry failing.logger.currentIndex) }, false)
  | .adopt index =>
      ({ failing with logger := { failing.logger with currentIndex := index } }, false)
  | .fail => ({ failing with logger := { failing.logger with failDetected := true } }, false)
  | .write force => failing.writeLog fails force

/-- The actions of a call, up to the first that raises. -/
def perform (fails : Nat → Bool) (failing : FailingLogger) : List LogAction → FailingLogger × Bool
  | [] => (failing, false)
  | action :: rest =>
      let acted := failing.act fails action
      if acted.2 then acted else acted.1.perform fails rest

end FailingLogger

namespace FailingLogger

def trim (logger : DbLogger) : DbLogger := { logger with queue := logger.retained }

def flushed (logger : DbLogger) : DbLogger :=
  { logger with
    db := (rows logger).foldl Database.execute logger.db
    queue := []
    firstCase := false
    failDetected := false }

variable {fails : Nat → Bool} {force : Bool} {failing : FailingLogger}

theorem writeLog_of_empty (hempty : failing.logger.queue = []) :
    failing.writeLog fails force = (failing, false) := by
  rw [writeLog, if_neg fun hwrites => hwrites.1 hempty, if_pos hempty]

theorem writeLog_of_not_writes (hqueue : failing.logger.queue ≠ [])
    (hwrites : ¬ writes failing.logger force) :
    failing.writeLog fails force = ({ failing with logger := trim failing.logger }, false) := by
  rw [writeLog, if_neg hwrites, if_neg hqueue]
  rfl

/-- A flush that writes commits everything, or it raises and has only trimmed. -/
theorem writeLog_of_writes (fails : Nat → Bool) (hworking : failing.working = none)
    (hwrites : writes failing.logger force) :
    ∃ statements,
      failing.writeLog fails force = ({
          logger := flushed failing.logger, working := none, statements := statements }, false) ∨
      failing.writeLog fails force = ({
          logger := trim failing.logger, working := none, statements := statements }, true) := by
  refine ⟨(failing.store.transact Database.execute fails failing.statements
    (rows failing.logger)).attempts, ?_⟩
  rw [writeLog, if_pos hwrites]
  rcases Store.transact_cases Database.execute fails failing.statements
    (rows failing.logger) (show failing.store.working = none from hworking) with
    ⟨hraised, hstore⟩ | ⟨hraised, hstore⟩
  · left
    simp only [hraised, hstore, Bool.false_eq_true, if_false]
    rfl
  · right
    simp only [hraised, hstore, if_true]
    rw [show failing.store.working = none from hworking]
    rfl

theorem writeLog_never (hworking : failing.working = none) :
    (failing.writeLog never force).2 = false ∧
      (failing.writeLog never force).1.working = none ∧
      (failing.writeLog never force).1.logger = failing.logger.writeLog force := by
  rw [DbLogger.writeLog]
  by_cases hempty : failing.logger.queue = []
  · rw [writeLog_of_empty hempty, if_pos hempty]
    exact ⟨rfl, hworking, rfl⟩
  · rw [if_neg hempty]
    by_cases hcause : force = true ∨ failing.logger.queueMaxLen ≤ 0 ∨
        failing.logger.failDetected = true ∨ failing.logger.firstCase = true
    · have hraised : (failing.writeLog never force).2 = false := by
        rw [writeLog, if_pos ⟨hempty, hcause⟩]
        exact Store.transact_never Database.execute failing.statements (rows failing.logger)
          failing.store
      obtain ⟨statements, hflushed | htrimmed⟩ :=
        writeLog_of_writes never hworking ⟨hempty, hcause⟩
      · rw [hflushed, if_pos hcause]
        exact ⟨rfl, rfl, rfl⟩
      · rw [htrimmed] at hraised
        cases hraised
    · rw [writeLog_of_not_writes hempty fun hwrites => hcause hwrites.2, if_neg hcause]
      exact ⟨rfl, hworking, rfl⟩

/-- What an action does to the logger when nothing raises. -/
def effect (logger : DbLogger) : LogAction → DbLogger
  | .push entry => logger.push (entry logger.currentIndex)
  | .adopt index => { logger with currentIndex := index }
  | .fail => { logger with failDetected := true }
  | .write force => logger.writeLog force

theorem perform_never (actions : List LogAction) : ∀ {failing : FailingLogger},
    failing.working = none →
      (failing.perform never actions).2 = false ∧
        (failing.perform never actions).1.working = none ∧
        (failing.perform never actions).1.logger = actions.foldl effect failing.logger := by
  induction actions with
  | nil => exact fun hworking => ⟨rfl, hworking, rfl⟩
  | cons action rest ih =>
      intro failing hworking
      have hact : (failing.act never action).2 = false ∧
          (failing.act never action).1.working = none ∧
          (failing.act never action).1.logger = effect failing.logger action := by
        cases action with
        | push entry => exact ⟨rfl, hworking, rfl⟩
        | adopt index => exact ⟨rfl, hworking, rfl⟩
        | fail => exact ⟨rfl, hworking, rfl⟩
        | write force => exact writeLog_never hworking
      obtain ⟨hraised, hworking', hlogger⟩ := hact
      rw [perform, hraised, List.foldl_cons, ← hlogger]
      exact ih hworking'

theorem perform_logRecord_never (hworking : failing.working = none) (record : CaseRecord) :
    (failing.perform never (LogCall.logRecord record).actions).1.logger =
      failing.logger.logRecord record := by
  have hsteps : ∀ (steps : List RecordedStep) (logger : DbLogger),
      (steps.flatMap LogCall.logStepActions).foldl effect logger =
        steps.foldl DbLogger.logStep logger := by
    intro steps
    induction steps with
    | nil => exact fun _ => rfl
    | cons step rest ih =>
        intro logger
        rw [List.flatMap_cons, List.foldl_append, ih, List.foldl_cons]
        rfl
  have houtcome : ∀ logger : DbLogger,
      (LogCall.logOutcomeActions record).foldl effect logger = logger.logOutcome record := by
    intro logger
    rw [LogCall.logOutcomeActions, DbLogger.logOutcome]
    split
    · rfl
    · split
      · rfl
      · rfl
  rw [(perform_never _ hworking).2.2]
  change ((LogCall.openTestCaseActions record.requestName record.ordinal ++
    record.steps.flatMap LogCall.logStepActions ++ LogCall.logOutcomeActions record ++
      [LogAction.write false]).foldl effect failing.logger) = _
  rw [List.foldl_append, List.foldl_append, List.foldl_append, hsteps, houtcome]
  rfl

end FailingLogger

/-- A logger with what has been queued so far, in queue order, and the current indices of the
flushes so far. -/
structure LogHistory where
  state : FailingLogger
  queued : List DbLogEntry
  windows : List Int

namespace LogHistory

/-- The entries a logger holds when a history begins count as queued. -/
def start (state : FailingLogger) : LogHistory :=
  { state := state, queued := state.logger.queue, windows := [] }

def act (fails : Nat → Bool) (history : LogHistory) (action : LogAction) : LogHistory × Bool :=
  let logger := history.state.logger
  let acted := history.state.act fails action
  ({ state := acted.1
     queued := match action with
      | .push entry => history.queued ++ [entry logger.currentIndex (logger.now logger.ticks)]
      | _ => history.queued
     windows := match action with
      | .write _ => history.windows ++ [logger.currentIndex]
      | _ => history.windows }, acted.2)

def perform (fails : Nat → Bool) (history : LogHistory) : List LogAction → LogHistory × Bool
  | [] => (history, false)
  | action :: rest =>
      let acted := history.act fails action
      if acted.2 then acted else acted.1.perform fails rest

/-- Calls go on after a raise. -/
def run (fails : Nat → Bool) (history : LogHistory) (calls : List LogCall) : LogHistory :=
  calls.foldl (fun history call => (history.perform fails call.actions).1) history

variable {fails : Nat → Bool} {history : LogHistory}

/-- What has become of an entry that has left the queue. -/
inductive Fate where
  | committed (whole : Bool)
  | trimmed
  deriving Repr, DecidableEq

def Fate.row? (settled : DbLogEntry × Fate) : Option DbLogEntry :=
  match settled.2 with
  | .committed true => some settled.1
  | .committed false => some settled.1.truncate
  | .trimmed => none

/-- The account of a history: every queued entry has left the queue, with one fate, or is
still in it; the database holds the committed ones in queue order; and an entry was trimmed by
a flush whose window it was outside of. -/
structure Accounted (database : Database) (keep : Int) (history : LogHistory)
    (settled : List (DbLogEntry × Fate)) : Prop where
  working : history.state.working = none
  keep_eq : history.state.logger.queueMaxLen = keep
  queued : history.queued = settled.map Prod.fst ++ history.state.logger.queue
  database : history.state.logger.db = (settled.filterMap Fate.row?).foldl Database.execute database
  trimmed : ∀ entry, (entry, Fate.trimmed) ∈ settled → 0 < keep ∧
    ∃ index ∈ history.windows, keep ≤ wrap32 (index - entry.caseIndex)

variable {database : Database} {keep : Int} {settled : List (DbLogEntry × Fate)}

theorem exists_dropped (logger : DbLogger) :
    ∃ dropped, logger.queue = dropped ++ logger.retained ∧ ∀ entry ∈ dropped,
      0 < logger.queueMaxLen ∧
        logger.queueMaxLen ≤ wrap32 (logger.currentIndex - entry.caseIndex) := by
  rw [DbLogger.retained]
  split
  · rename_i hkeep
    let outside : DbLogEntry → Bool := fun entry =>
      decide (logger.queueMaxLen ≤ wrap32 (logger.currentIndex - entry.caseIndex))
    refine ⟨logger.queue.takeWhile outside, List.takeWhile_append_dropWhile.symm,
      fun entry hentry => ⟨hkeep, ?_⟩⟩
    have houtside : outside entry = true :=
      List.all_eq_true.mp List.all_takeWhile entry hentry
    exact of_decide_eq_true houtside
  · exact ⟨[], rfl, List.forall_mem_nil _⟩

theorem filterMap_trimmed (dropped : List DbLogEntry) :
    (dropped.map fun entry => (entry, Fate.trimmed)).filterMap Fate.row? = [] := by
  rw [List.filterMap_map, List.filterMap_eq_nil_iff]
  exact fun _ _ => rfl

theorem filterMap_committed (entries : List DbLogEntry) (whole : Bool) :
    (entries.map fun entry => (entry, Fate.committed whole)).filterMap Fate.row? =
      if whole then entries else entries.map DbLogEntry.truncate := by
  rw [List.filterMap_map]
  cases whole with
  | true => exact List.filterMap_some
  | false => exact congrFun List.filterMap_eq_map entries

theorem Accounted.trim (haccounted : Accounted database keep history settled)
    (statements : Nat) : ∃ settled', Accounted database keep
      { state :=
          { logger := FailingLogger.trim history.state.logger
            working := none
            statements := statements }
        queued := history.queued
        windows := history.windows ++ [history.state.logger.currentIndex] } settled' ∧
      settled'.filterMap Fate.row? = settled.filterMap Fate.row? := by
  obtain ⟨dropped, hsplit, hdropped⟩ := exists_dropped history.state.logger
  rw [haccounted.keep_eq] at hdropped
  refine ⟨settled ++ dropped.map fun entry => (entry, Fate.trimmed), ?_, ?_⟩
  · exact {
      working := rfl
      keep_eq := haccounted.keep_eq
      queued := by
        rw [haccounted.queued, hsplit, List.map_append, List.map_map, List.append_assoc]
        congr 2
        exact (List.map_id' dropped).symm
      database := by
        rw [List.filterMap_append, filterMap_trimmed, List.append_nil]
        exact haccounted.database
      trimmed := by
        intro entry hentry
        rcases List.mem_append.mp hentry with hold | hnew
        · obtain ⟨hkeep, index, hindex, houtside⟩ := haccounted.trimmed entry hold
          exact ⟨hkeep, index, List.mem_append_left _ hindex, houtside⟩
        · obtain ⟨other, hother, hsame⟩ := List.mem_map.mp hnew
          obtain rfl : other = entry := congrArg Prod.fst hsame
          obtain ⟨hkeep, houtside⟩ := hdropped other hother
          exact ⟨hkeep, _, List.mem_append_right _ List.mem_cons_self, houtside⟩ }
  · rw [List.filterMap_append, filterMap_trimmed, List.append_nil]

theorem Accounted.commit (haccounted : Accounted database keep history settled)
    (statements : Nat) : ∃ settled', Accounted database keep
      { state :=
          { logger := FailingLogger.flushed history.state.logger
            working := none
            statements := statements }
        queued := history.queued
        windows := history.windows ++ [history.state.logger.currentIndex] } settled' := by
  obtain ⟨settled', htrimmed, hrows⟩ := haccounted.trim statements
  have hnone : ∀ entry, (entry, Fate.trimmed) ∉ history.state.logger.retained.map
      fun entry => (entry, Fate.committed history.state.logger.failDetected) := by
    intro entry hmem
    obtain ⟨_, -, hsame⟩ := List.mem_map.mp hmem
    cases congrArg Prod.snd hsame
  refine ⟨settled' ++ history.state.logger.retained.map
    fun entry => (entry, Fate.committed history.state.logger.failDetected), ?_⟩
  exact {
    working := rfl
    keep_eq := haccounted.keep_eq
    queued := by
      have hqueued := htrimmed.queued
      change history.queued = settled'.map Prod.fst ++ history.state.logger.retained at hqueued
      rw [hqueued, List.map_append, List.map_map, List.append_assoc]
      congr 1
      exact ((List.append_nil _).trans (List.map_id' _)).symm
    database := by
      rw [List.filterMap_append, filterMap_committed, hrows, List.foldl_append,
        ← haccounted.database]
      rfl
    trimmed := by
      intro entry hentry
      rcases List.mem_append.mp hentry with hold | hnew
      · exact htrimmed.trimmed entry hold
      · exact absurd hnew (hnone entry) }

theorem Accounted.act (haccounted : Accounted database keep history settled)
    (fails : Nat → Bool) (action : LogAction) :
    ∃ settled', Accounted database keep (history.act fails action).1 settled' := by
  cases action with
  | push entry =>
      refine ⟨settled, haccounted.working, haccounted.keep_eq, ?_, haccounted.database,
        haccounted.trimmed⟩
      change history.queued ++ [_] = settled.map Prod.fst ++ (history.state.logger.queue ++ [_])
      rw [haccounted.queued, List.append_assoc]
  | adopt index =>
      exact ⟨settled, haccounted.working, haccounted.keep_eq, haccounted.queued,
        haccounted.database, haccounted.trimmed⟩
  | fail =>
      exact ⟨settled, haccounted.working, haccounted.keep_eq, haccounted.queued,
        haccounted.database, haccounted.trimmed⟩
  | write force =>
      have hresult : ∀ failing, (history.state.writeLog fails force).1 = failing →
          (history.act fails (.write force)).1 =
            { state := failing
              queued := history.queued
              windows := history.windows ++ [history.state.logger.currentIndex] } := by
        rintro _ rfl
        rfl
      by_cases hempty : history.state.logger.queue = []
      · rw [hresult _ (congrArg Prod.fst (FailingLogger.writeLog_of_empty hempty))]
        refine ⟨settled, haccounted.working, haccounted.keep_eq, haccounted.queued,
          haccounted.database, fun entry hentry => ?_⟩
        obtain ⟨hkeep, index, hindex, houtside⟩ := haccounted.trimmed entry hentry
        exact ⟨hkeep, index, List.mem_append_left _ hindex, houtside⟩
      · by_cases hwrites : FailingLogger.writes history.state.logger force
        · obtain ⟨statements, hflushed | htrimmed⟩ :=
            FailingLogger.writeLog_of_writes fails haccounted.working hwrites
          · rw [hresult _ (congrArg Prod.fst hflushed)]
            exact haccounted.commit statements
          · rw [hresult _ (congrArg Prod.fst htrimmed)]
            obtain ⟨settled', haccounted', -⟩ := haccounted.trim statements
            exact ⟨settled', haccounted'⟩
        · rw [hresult _ (congrArg Prod.fst
            (FailingLogger.writeLog_of_not_writes hempty hwrites))]
          obtain ⟨settled', haccounted', -⟩ := haccounted.trim history.state.statements
          rw [← haccounted.working] at haccounted'
          exact ⟨settled', haccounted'⟩

theorem Accounted.perform (fails : Nat → Bool) (actions : List LogAction) : ∀ {history : LogHistory}
    {settled : List (DbLogEntry × Fate)}, Accounted database keep history settled →
      ∃ settled', Accounted database keep (history.perform fails actions).1 settled' := by
  induction actions with
  | nil => exact fun haccounted => ⟨_, haccounted⟩
  | cons action rest ih =>
      intro history settled haccounted
      obtain ⟨settled', haccounted'⟩ := haccounted.act fails action
      rw [LogHistory.perform]
      split
      · exact ⟨settled', haccounted'⟩
      · exact ih haccounted'

theorem Accounted.run (fails : Nat → Bool) (calls : List LogCall) : ∀ {history : LogHistory}
    {settled : List (DbLogEntry × Fate)}, Accounted database keep history settled →
      ∃ settled', Accounted database keep (history.run fails calls) settled' := by
  induction calls with
  | nil => exact fun haccounted => ⟨_, haccounted⟩
  | cons call rest ih =>
      intro history settled haccounted
      obtain ⟨settled', haccounted'⟩ := haccounted.perform fails call.actions
      exact ih haccounted'

end LogHistory

theorem flush_all_or_nothing (fails : Nat → Bool) (failing : FailingLogger)
    (hworking : failing.working = none) :
    (∀ force, (failing.writeLog fails force).2 = true →
      (failing.writeLog fails force).1.logger.db = failing.logger.db ∧
      (failing.writeLog fails force).1.logger.queue = failing.logger.retained ∧
      (failing.writeLog fails force).1.logger.failDetected = failing.logger.failDetected ∧
      (failing.writeLog fails force).1.logger.firstCase = failing.logger.firstCase ∧
      (failing.writeLog fails force).1.working = none) ∧
    ∀ calls, ∃ settled : List (DbLogEntry × LogHistory.Fate),
      ((LogHistory.start failing).run fails calls).queued =
        settled.map Prod.fst ++ ((LogHistory.start failing).run fails calls).state.logger.queue ∧
      ((LogHistory.start failing).run fails calls).state.logger.db =
        (settled.filterMap LogHistory.Fate.row?).foldl Database.execute failing.logger.db ∧
      ∀ entry, (entry, LogHistory.Fate.trimmed) ∈ settled →
        0 < failing.logger.queueMaxLen ∧
          ∃ index ∈ ((LogHistory.start failing).run fails calls).windows,
            failing.logger.queueMaxLen ≤ wrap32 (index - entry.caseIndex) := by
  constructor
  · intro force hraised
    by_cases hempty : failing.logger.queue = []
    · rw [FailingLogger.writeLog_of_empty hempty] at hraised
      cases hraised
    by_cases hwrites : FailingLogger.writes failing.logger force
    · obtain ⟨statements, hflushed | htrimmed⟩ :=
        FailingLogger.writeLog_of_writes fails hworking hwrites
      · rw [hflushed] at hraised
        cases hraised
      · rw [htrimmed]
        exact ⟨rfl, rfl, rfl, rfl, rfl⟩
    · rw [FailingLogger.writeLog_of_not_writes hempty hwrites] at hraised
      cases hraised
  · intro calls
    have hstart : LogHistory.Accounted failing.logger.db failing.logger.queueMaxLen
        (LogHistory.start failing) [] :=
      ⟨hworking, rfl, rfl, rfl, fun entry hentry => absurd hentry List.not_mem_nil⟩
    obtain ⟨settled, haccounted⟩ := hstart.run fails calls
    exact ⟨settled, haccounted.queued, haccounted.database, haccounted.trimmed⟩

def queuedLogger : FailingLogger where
  logger := (DbLogger.openWithClock 2 fun _ => []).openTestCase (Text.ofAscii "r") 0
  working := none
  statements := 0

theorem flush_all_or_nothing_queued :
    (queuedLogger.writeLog (fun statement => statement == 2) true).1.logger.db =
        queuedLogger.logger.db ∧
      (queuedLogger.writeLog (fun statement => statement == 2) true).1.logger.queue =
        queuedLogger.logger.retained := by
  have hflush := (flush_all_or_nothing (fun statement => statement == 2) queuedLogger rfl).1
    true rfl
  exact ⟨hflush.1, hflush.2.1⟩

end MoonBoofuzz
