import MoonBoofuzz.Db.Failing
import MoonBoofuzz.Recordio.Failing

namespace MoonBoofuzz

/-! What a call leaves behind in the file and in the database, whether it raises or not. -/

namespace FailingWriter

variable {fails : Nat → Bool} {failing : FailingWriter}

/-- `Writer::append`, past the throttle. -/
def put (fails : Nat → Bool) (failing : FailingWriter) (record : CaseRecord) :
    FailingWriter × Bool :=
  if fails failing.attempts then ({ failing with attempts := failing.attempts + 1 }, true)
  else
    ({ writer := { failing.writer with written := failing.writer.written ++ [record] }
       attempts := failing.attempts + 1 }, false)

theorem flush_settles (fails : Nat → Bool) (failing : FailingWriter) (force : Bool) :
    ((failing.flush fails force).2 = false ∧
      (failing.flush fails force).1.writer = failing.writer.flush force) ∨
    ((failing.flush fails force).2 = true ∧
      failing.writer.written <+: (failing.flush fails force).1.writer.written ∧
      (failing.flush fails force).1.writer.written <+: (failing.writer.flush force).written) := by
  rw [flush, ThrottledWriter.flush]
  by_cases hempty : failing.writer.buffer = []
  · rw [if_neg (fun hwrites => hwrites.1 hempty), if_pos hempty, if_pos hempty]
    exact .inl ⟨rfl, rfl⟩
  · by_cases hcause : force = true ∨ failing.writer.keep ≤ 0 ∨
        failing.writer.failDetected = true ∨ failing.writer.firstCase = true
    · rw [if_pos ⟨hempty, hcause⟩, if_neg hempty, if_pos hcause]
      cases hraised : (attemptAll fails failing.attempts failing.writer.retained).raised with
      | false =>
          simp only [hraised, Bool.false_eq_true, if_false, attemptAll_done hraised]
          exact .inl ⟨trivial, trivial⟩
      | true =>
          simp only [hraised, if_true]
          refine .inr ⟨trivial, List.prefix_append _ _, ?_⟩
          exact (List.prefix_append_right_inj _).mpr (attemptAll_beginning _ _ _)
    · rw [if_neg (fun hwrites => hcause hwrites.2), if_neg hempty, if_neg hempty,
        if_neg hcause]
      exact .inl ⟨rfl, rfl⟩

end FailingWriter

namespace FailingLogger

variable {fails : Nat → Bool} {failing : FailingLogger}

theorem writeLog_settles (fails : Nat → Bool) (force : Bool) (hworking : failing.working = none) :
    ((failing.writeLog fails force).2 = false ∧
      (failing.writeLog fails force).1.working = none ∧
      (failing.writeLog fails force).1.logger = failing.logger.writeLog force) ∨
    ((failing.writeLog fails force).2 = true ∧
      (failing.writeLog fails force).1.logger.db = failing.logger.db) := by
  by_cases hempty : failing.logger.queue = []
  · rw [writeLog_of_empty hempty, DbLogger.writeLog, if_pos hempty]
    exact .inl ⟨rfl, hworking, rfl⟩
  · by_cases hwrites : writes failing.logger force
    · obtain ⟨statements, hflushed | htrimmed⟩ := writeLog_of_writes fails hworking hwrites
      · rw [hflushed, DbLogger.writeLog, if_neg hempty, if_pos hwrites.2]
        exact .inl ⟨rfl, rfl, rfl⟩
      · rw [htrimmed]
        exact .inr ⟨rfl, rfl⟩
    · rw [writeLog_of_not_writes hempty hwrites, DbLogger.writeLog, if_neg hempty,
        if_neg fun hcause => hwrites ⟨hempty, hcause⟩]
      exact .inl ⟨rfl, hworking, rfl⟩

theorem perform_append (first second : List LogAction) : ∀ failing : FailingLogger,
    failing.perform fails (first ++ second) =
      if (failing.perform fails first).2 then failing.perform fails first
      else (failing.perform fails first).1.perform fails second := by
  induction first with
  | nil => exact fun _ => rfl
  | cons action rest ih =>
      intro failing
      rw [List.cons_append, perform, perform]
      cases hraised : (failing.act fails action).2 with
      | true => simp only [hraised, if_true]
      | false =>
          simp only [Bool.false_eq_true, if_false]
          exact ih _

theorem perform_quiet {actions : List LogAction}
    (hquiet : ∀ action ∈ actions, ∀ force, action ≠ .write force) : ∀ failing : FailingLogger,
    failing.perform fails actions =
        ({ failing with logger := actions.foldl effect failing.logger }, false) ∧
      (actions.foldl effect failing.logger).db = failing.logger.db := by
  induction actions with
  | nil => exact fun _ => ⟨rfl, rfl⟩
  | cons action rest ih =>
      intro failing
      obtain ⟨hfirst, hrest⟩ := List.forall_mem_cons.mp hquiet
      have hact : failing.act fails action =
          ({ failing with logger := effect failing.logger action }, false) ∧
            (effect failing.logger action).db = failing.logger.db := by
        cases action with
        | push entry => exact ⟨rfl, rfl⟩
        | adopt index => exact ⟨rfl, rfl⟩
        | fail => exact ⟨rfl, rfl⟩
        | write force => exact absurd rfl (hfirst force)
      obtain ⟨hperform, hdb⟩ := ih hrest { failing with logger := effect failing.logger action }
      rw [perform, hact.1, List.foldl_cons]
      simp only [Bool.false_eq_true, if_false]
      exact ⟨hperform, hdb.trans hact.2⟩

/-- The actions of a record: those before its writes, and one write, or two of which the first
finds a failure. -/
theorem logRecord_actions (record : CaseRecord) :
    ∃ quiet : List LogAction, (∀ action ∈ quiet, ∀ force, action ≠ .write force) ∧
      ((LogCall.logRecord record).actions = quiet ++ [.write false] ∨
        (LogCall.logRecord record).actions = quiet ++ [.write false, .write false] ∧
          ∀ logger, (quiet.foldl effect logger).failDetected = true) := by
  let opened : List LogAction := LogCall.openTestCaseActions record.requestName record.ordinal ++
    record.steps.flatMap LogCall.logStepActions
  have hopened : ∀ action ∈ opened, ∀ force, action ≠ .write force := by
    intro action hmem force
    rcases List.mem_append.mp hmem with hopen | hstep
    · simp only [LogCall.openTestCaseActions, List.mem_cons, List.not_mem_nil, or_false] at hopen
      rcases hopen with rfl | rfl
      · exact LogAction.noConfusion
      · exact LogAction.noConfusion
    · obtain ⟨step, -, hmem⟩ := List.mem_flatMap.mp hstep
      simp only [LogCall.logStepActions, LogCall.openStepAction, LogCall.logSendAction,
        LogCall.logRecvAction, LogAction.step, List.mem_cons, List.not_mem_nil, or_false] at hmem
      rcases hmem with rfl | rfl | rfl
      · exact LogAction.noConfusion
      · exact LogAction.noConfusion
      · exact LogAction.noConfusion
  have hactions : (LogCall.logRecord record).actions =
      opened ++ LogCall.logOutcomeActions record ++ [.write false] := rfl
  have hquiet : ∀ {more : List LogAction}, (∀ action ∈ more, ∀ force, action ≠ .write force) →
      ∀ action ∈ opened ++ more, ∀ force, action ≠ .write force := by
    intro more hmore action hmem
    exact (List.mem_append.mp hmem).elim (hopened action) (hmore action)
  have hverdict : ∀ (kind : Text), ∀ action ∈ [LogAction.step kind record.detail [], .fail],
      ∀ force, action ≠ .write force := by
    intro kind action hmem force
    simp only [LogAction.step, List.mem_cons, List.not_mem_nil, or_false] at hmem
    rcases hmem with rfl | rfl
    · exact LogAction.noConfusion
    · exact LogAction.noConfusion
  rw [hactions, LogCall.logOutcomeActions]
  split
  · refine ⟨opened ++ [LogCall.logPassAction record.detail], hquiet ?_, .inl rfl⟩
    intro action hmem force
    obtain rfl := List.mem_singleton.mp hmem
    exact LogAction.noConfusion
  · split
    · refine ⟨opened ++ [.step (Text.ofAscii "error") record.detail [], .fail],
        hquiet (hverdict _), .inr ⟨?_, fun logger => ?_⟩⟩
      · simp only [LogCall.logErrorActions, List.append_assoc, List.cons_append, List.nil_append]
      · rw [List.foldl_append]
        rfl
    · exact ⟨_, hquiet (hverdict _), .inl rfl⟩

theorem logRecord_settles (fails : Nat → Bool) (record : CaseRecord)
    (hworking : failing.working = none) :
    ((failing.perform fails (LogCall.logRecord record).actions).2 = false ∧
      (failing.perform fails (LogCall.logRecord record).actions).1.working = none ∧
      (failing.perform fails (LogCall.logRecord record).actions).1.logger =
        failing.logger.logRecord record) ∨
    ((failing.perform fails (LogCall.logRecord record).actions).2 = true ∧
      (failing.perform fails (LogCall.logRecord record).actions).1.logger.db =
        failing.logger.db) := by
  have hlogged := (perform_never (LogCall.logRecord record).actions hworking).2.2
  rw [perform_logRecord_never hworking record] at hlogged
  obtain ⟨quiet, hquiet, hactions⟩ := logRecord_actions record
  obtain ⟨hperform, hdb⟩ := @perform_quiet fails quiet hquiet failing
  have hworking' : ({ failing with logger := quiet.foldl effect failing.logger } :
      FailingLogger).working = none := hworking
  rcases hactions with hone | ⟨htwo, hfailed⟩
  · rw [hone, List.foldl_append] at hlogged
    rw [hone, perform_append, hperform, hlogged]
    simp only [Bool.false_eq_true, if_false, perform]
    rcases writeLog_settles fails false hworking' with hkept | hraised
    · left
      simp only [act, hkept.1, Bool.false_eq_true, if_false]
      exact ⟨trivial, hkept.2⟩
    · right
      simp only [act, hraised.1, if_true]
      exact ⟨trivial, hraised.2.trans hdb⟩
  · rw [htwo, List.foldl_append] at hlogged
    rw [htwo, perform_append, hperform, hlogged]
    simp only [Bool.false_eq_true, if_false, perform]
    rcases writeLog_settles fails false hworking' with hkept | hraised
    · left
      have hqueue := DbLogger.queue_writeLog (hfailed failing.logger) false
      have hagain : ((quiet.foldl effect failing.logger).writeLog false).writeLog false =
          (quiet.foldl effect failing.logger).writeLog false := by
        rw [DbLogger.writeLog, if_pos hqueue]
      have hempty := hqueue
      rw [← hkept.2.2] at hempty
      simp only [act, hkept.1, Bool.false_eq_true, if_false, writeLog_of_empty hempty]
      exact ⟨trivial, hkept.2.1, hkept.2.2.trans hagain.symm⟩
    · right
      simp only [act, hraised.1, if_true]
      exact ⟨trivial, hraised.2.trans hdb⟩

end FailingLogger

end MoonBoofuzz
