import MoonBoofuzz.Results.Raised
import MoonBoofuzz.Results.Retention
import MoonBoofuzz.Results.Views
import MoonBoofuzz.Runner.Ordinals

namespace MoonBoofuzz

namespace Cmd

open Runner ProtocolDefinition

/-! The capture loop of `run`: every case goes to the file of records, to the database and to the
live session. -/

inductive CaptureError where
  | serve (message : Text)
  | run (error : ModelError)
  | file
  | database
  deriving Repr, DecidableEq

/-- The web interface beside a run: serving a request may change its pause flag. -/
structure WebUi (ω : Type) where
  serve : LiveSession → ω → Except Text Unit × ω
  isPaused : ω → Bool
  sleepMs : Int → ω → ω

variable {ω : Type}

/-- `WebUi::gate`: serves requests, and goes on doing so while the run is paused. -/
def WebUi.gate (ui : WebUi ω) (session : LiveSession) : Nat → Act CaptureError ω Unit
  | 0 => Act.ofEval .pending
  | loops + 1 => fun world =>
      match ui.serve session world with
      | (.error message, after) => (.raised (.serve message), after)
      | (.ok (), after) =>
          if ui.isPaused after then ui.gate session loops (ui.sleepMs 50 after)
          else (.done (), after)

structure Faults where
  file : Nat → Bool
  db : Nat → Bool

structure Capture (ω : Type) where
  runner : Runner ω
  world : ω
  file : FailingWriter
  logger : FailingLogger
  session : LiveSession
  count : Nat

namespace Capture

def start (runner : Runner ω) (world : ω) (recordPasses : Int) (now : Nat → Text) :
    Capture ω where
  runner := runner
  world := world
  file := .new recordPasses
  logger := { logger := .openWithClock recordPasses now, working := none, statements := 0 }
  session := .new true
  count := 0

/-- The throttle is used for a positive number of passing cases only. -/
def appendRecord (faults : Faults) (recordPasses : Int) (record : CaseRecord)
    (file : FailingWriter) : FailingWriter × Bool :=
  if 0 < recordPasses then file.call faults.file (.append record) else file.put faults.file record

/-- Stores a record: in the file, in the database, and in the session at last. -/
def save (faults : Faults) (recordPasses : Int) (record : CaseRecord) (capture : Capture ω) :
    Eval CaptureError Bool × Capture ω :=
  let appended := appendRecord faults recordPasses record capture.file
  if appended.2 then (.raised .file, { capture with file := appended.1 })
  else
    let logged := capture.logger.perform faults.db (LogCall.logRecord record).actions
    if logged.2 then
      (.raised .database, { capture with file := appended.1, logger := logged.1 })
    else (.done true, { capture with
      file := appended.1
      logger := logged.1
      session := capture.session.observe record
      count := capture.count + 1 })

def turn (ui : WebUi ω) (faults : Faults) (recordPasses : Int) (fuel : Nat)
    (capture : Capture ω) : Eval CaptureError Bool × Capture ω :=
  match ui.gate capture.session fuel capture.world with
  | (.pending, world) => (.pending, { capture with world := world })
  | (.raised error, world) => (.raised error, { capture with world := world })
  | (.done (), world) =>
      match capture.runner.next fuel world with
      | (.pending, runner, world) => (.pending, { capture with runner := runner, world := world })
      | (.raised error, runner, world) =>
          (.raised (.run error), { capture with runner := runner, world := world })
      | (.done none, runner, world) =>
          (.done false, { capture with runner := runner, world := world })
      | (.done (some result), runner, world) =>
          save faults recordPasses (runner.settings.record result)
            { capture with runner := runner, world := world }

def loop (ui : WebUi ω) (faults : Faults) (recordPasses : Int) (fuel : Nat) :
    Nat → Capture ω → Eval CaptureError Unit × Capture ω
  | 0, capture => (.pending, capture)
  | loops + 1, capture =>
      match capture.turn ui faults recordPasses fuel with
      | (.done true, after) => loop ui faults recordPasses fuel loops after
      | (.done false, after) => (.done (), after)
      | (.raised error, after) => (.raised error, after)
      | (.pending, after) => (.pending, after)

def stop (capture : Capture ω) : Capture ω :=
  { capture with runner := { capture.runner with state := .stopped } }

/-- `capture_all`. -/
def captureAll (ui : WebUi ω) (faults : Faults) (recordPasses : Int) (fuel : Nat)
    (capture : Capture ω) : Eval CaptureError Nat × Capture ω :=
  match loop ui faults recordPasses fuel fuel capture with
  | (.pending, after) => (.pending, after)
  | (.raised error, after) => (.raised error, after.stop)
  | (.done (), after) =>
      if 0 < recordPasses then
        let closed := after.file.call faults.file .closeTest
        if closed.2 then (.raised .file, stop { after with file := closed.1 })
        else (.done after.count, { after with file := closed.1 })
      else (.done after.count, after)

/-- The run as a whole: what the logger still holds is flushed at the end. -/
def captureRun (ui : WebUi ω) (faults : Faults) (recordPasses : Int) (fuel : Nat)
    (capture : Capture ω) : Eval CaptureError Nat × Capture ω :=
  match captureAll ui faults recordPasses fuel capture with
  | (.pending, after) => (.pending, after)
  | (.raised error, after) => (.raised error, after)
  | (.done count, after) =>
      let closed := after.logger.perform faults.db LogCall.closeTest.actions
      if closed.2 then (.raised .database, { after with logger := closed.1 })
      else (.done count, { after with logger := closed.1 })

/-! What is kept of the results so far. -/

variable {ui : WebUi ω} {faults : Faults} {recordPasses : Int} {now : Nat → Text}
  {records : List CaseRecord} {capture after : Capture ω} {record : CaseRecord}

/-- The file, the database and the session hold what they are to hold of the records. -/
structure Kept (recordPasses : Int) (now : Nat → Text) (records : List CaseRecord)
    (capture : Capture ω) : Prop where
  count : capture.count = records.length
  file : 0 < recordPasses → capture.file.writer = ThrottledWriter.run recordPasses records
  written : capture.file.writer.written = (ThrottledWriter.run recordPasses records).written
  working : capture.logger.working = none
  logger : capture.logger.logger = DbLogger.run recordPasses now records
  session : capture.session = records.foldl LiveSession.observe (LiveSession.new true)

/-- However a capture ends, the file lies between what is due for the records that were counted
and what is due for all, the database holds what is due for the counted ones, and at most one
record has not been counted. -/
structure Left (recordPasses : Int) (now : Nat → Text) (records : List CaseRecord)
    (capture : Capture ω) : Prop where
  count_le : capture.count ≤ records.length
  le_count : records.length ≤ capture.count + 1
  lower : (ThrottledWriter.run recordPasses (records.take capture.count)).written <+:
    capture.file.writer.written
  upper : capture.file.writer.written <+:
    (ThrottledWriter.run recordPasses records).closeTest.written
  db : capture.logger.logger.db =
    (DbLogger.run recordPasses now (records.take capture.count)).db
  session : capture.session =
    (records.take capture.count).foldl LiveSession.observe (LiveSession.new true)

theorem written_flush (writer : ThrottledWriter) (force : Bool) :
    writer.written <+: (writer.flush force).written := by
  unfold ThrottledWriter.flush
  split
  · exact List.prefix_refl _
  · split
    · exact List.prefix_append _ _
    · exact List.prefix_refl _

theorem run_snoc (recordPasses : Int) (records : List CaseRecord) (record : CaseRecord) :
    ThrottledWriter.run recordPasses (records ++ [record]) =
      (ThrottledWriter.run recordPasses records).append record := by
  rw [ThrottledWriter.run, List.foldl_append]
  rfl

theorem start_kept (runner : Runner ω) (world : ω) (recordPasses : Int) (now : Nat → Text) :
    Kept recordPasses now [] (start runner world recordPasses now) :=
  ⟨rfl, fun _ => rfl, rfl, rfl, rfl, rfl⟩

theorem Kept.left (hkept : Kept recordPasses now records capture) :
    Left recordPasses now records capture := by
  have hwhole : records.take capture.count = records := List.take_of_length_le hkept.count.ge
  refine ⟨hkept.count.le, hkept.count ▸ Nat.le_succ _, ?_, ?_, ?_, ?_⟩
  · rw [hwhole, hkept.written]
  · rw [hkept.written]
    exact written_flush _ true
  · rw [hwhole, hkept.logger]
  · rw [hwhole, hkept.session]

/-- A write that fails leaves at most a beginning of what was to be written. -/
theorem Kept.append (hkept : Kept recordPasses now records capture) (record : CaseRecord) :
    let appended := appendRecord faults recordPasses record capture.file
    (appended.2 = false ∧
      (0 < recordPasses →
        appended.1.writer = ThrottledWriter.run recordPasses (records ++ [record])) ∧
      appended.1.writer.written =
        (ThrottledWriter.run recordPasses (records ++ [record])).written) ∨
    (appended.2 = true ∧
      (ThrottledWriter.run recordPasses records).written <+: appended.1.writer.written ∧
      appended.1.writer.written <+:
        (ThrottledWriter.run recordPasses (records ++ [record])).written) := by
  intro appended
  by_cases hkeep : 0 < recordPasses
  · have happended : appended = capture.file.call faults.file (.append record) := if_pos hkeep
    rw [happended, run_snoc, ← hkept.file hkeep]
    rcases FailingWriter.flush_settles faults.file
        (capture.file.prepare (.append record)).1 false with hsaved | hraised
    · exact .inl ⟨hsaved.1, fun _ => hsaved.2, congrArg ThrottledWriter.written hsaved.2⟩
    · exact .inr hraised
  · have hwritten : ∀ fed, (ThrottledWriter.run recordPasses fed).written = fed :=
      fun fed => (ThrottledWriter.run_of_nonpos (Int.not_lt.mp hkeep) fed).2.2
    have happended : appended = capture.file.put faults.file record := if_neg hkeep
    have hfile := hkept.written
    rw [hwritten] at hfile
    rw [happended, hwritten, hwritten, FailingWriter.put]
    split
    · refine .inr ⟨rfl, ?_, ?_⟩
      · rw [hfile]
      · rw [hfile]
        exact List.prefix_append _ _
    · exact .inl ⟨rfl, fun h => absurd h hkeep, by rw [hfile]⟩

theorem Kept.save {answer : Eval CaptureError Bool}
    (hkept : Kept recordPasses now records capture)
    (hsave : save faults recordPasses record capture = (answer, after)) :
    (answer = .done true ∧ Kept recordPasses now (records ++ [record]) after) ∨
    ((answer = .raised .file ∨ answer = .raised .database) ∧
      Left recordPasses now (records ++ [record]) after) := by
  have htake : (records ++ [record]).take capture.count = records := by
    rw [hkept.count, List.take_left]
  have hlength : (records ++ [record]).length = capture.count + 1 := by
    rw [List.length_append, hkept.count, List.length_singleton]
  have hsession : capture.session =
      ((records ++ [record]).take capture.count).foldl LiveSession.observe
        (LiveSession.new true) := by
    rw [htake, hkept.session]
  simp only [Capture.save] at hsave
  rcases @Kept.append _ faults _ _ _ _ hkept record with
    ⟨hraised, hfile, hwritten⟩ | ⟨hraised, hlower, hupper⟩
  · simp only [hraised, Bool.false_eq_true, if_false] at hsave
    rcases FailingLogger.logRecord_settles faults.db record hkept.working with
      ⟨hlogged, hworking, hlogger⟩ | ⟨hlogged, hdb⟩
    · simp only [hlogged, Bool.false_eq_true, if_false, Prod.mk.injEq] at hsave
      obtain ⟨rfl, rfl⟩ := hsave
      refine .inl ⟨rfl, hlength.symm, hfile, hwritten, hworking, ?_, ?_⟩
      · rw [hlogger, hkept.logger, DbLogger.run, DbLogger.run, List.foldl_append]
        rfl
      · rw [hkept.session, List.foldl_append]
        rfl
    · simp only [hlogged, if_true, Prod.mk.injEq] at hsave
      obtain ⟨rfl, rfl⟩ := hsave
      refine .inr ⟨.inr rfl, hlength ▸ Nat.le_succ _, hlength.le, ?_, ?_, ?_, hsession⟩
      · change (ThrottledWriter.run recordPasses ((records ++ [record]).take capture.count)).written
          <+: _
        rw [htake, hwritten, run_snoc]
        have hgrows :=
          written_flush ((ThrottledWriter.run recordPasses records).push record) false
        exact hgrows
      · rw [hwritten]
        exact written_flush _ true
      · change _ = (DbLogger.run recordPasses now ((records ++ [record]).take capture.count)).db
        rw [htake, hdb, hkept.logger]
  · simp only [hraised, if_true, Prod.mk.injEq] at hsave
    obtain ⟨rfl, rfl⟩ := hsave
    refine .inr ⟨.inl rfl, hlength ▸ Nat.le_succ _, hlength.le, ?_, ?_, ?_, hsession⟩
    · change (ThrottledWriter.run recordPasses ((records ++ [record]).take capture.count)).written
        <+: _
      rw [htake]
      exact hlower
    · exact hupper.trans (written_flush _ true)
    · change _ = (DbLogger.run recordPasses now ((records ++ [record]).take capture.count)).db
      rw [htake, hkept.logger]

/-! Whole captures. -/

theorem gate_open {session : LiveSession} {opened : ω} : ∀ {loops : Nat} {world : ω},
    ui.gate session loops world = (.done (), opened) → ui.isPaused opened = false := by
  intro loops
  induction loops with
  | zero =>
      intro world hgate
      cases hgate
  | succ loops ih =>
      intro world hgate
      rw [WebUi.gate] at hgate
      dsimp only at hgate
      split at hgate
      · cases hgate
      · split at hgate
        · exact ih hgate
        · rename_i hopened
          cases hgate
          exact Bool.not_eq_true _ ▸ hopened

theorem seekCase_idle {fuel : Nat} {last : Runner ω} : ∀ {loops : Nat} {runner : Runner ω},
    runner.seekCase fuel loops = (.done none, last) → last.state ≠ .running := by
  intro loops
  induction loops with
  | zero =>
      intro runner hseek
      cases hseek
  | succ loops ih =>
      intro runner hseek
      rw [Runner.seekCase] at hseek
      split at hseek
      · cases hseek
        exact EnumerationState.noConfusion
      · split at hseek
        · cases hseek
          exact EnumerationState.noConfusion
        · split at hseek
          · cases hseek
            exact EnumerationState.noConfusion
          · split at hseek
            · cases hseek
            · exact ih hseek
            · split at hseek
              · cases hseek
              · cases hseek
              · exact ih hseek
              · split at hseek
                · cases hseek
                  exact EnumerationState.noConfusion
                · cases hseek

theorem next_idle {runner last : Runner ω} {world left : ω} {fuel : Nat}
    (hnext : runner.next fuel world = (.done none, last, left)) : last.state ≠ .running := by
  by_cases hrunning : runner.state = .running
  · exact seekCase_idle (next_none hrunning hnext)
  · rw [Runner.next, if_neg hrunning] at hnext
    cases hnext
    exact hrunning

variable {paths : List (SessionPath (EdgeCallback ω))} {settings : Settings ω} {fuel : Nat}

/-- The turns that executed a case, one after the other: the gate opens in the world that the
turn before has left, and the runner that it has left gives the next result. -/
inductive Turns (ui : WebUi ω) (settings : Settings ω) (fuel : Nat) :
    LiveSession → Runner ω → ω → List CaseResult → LiveSession → Runner ω → ω → Prop
  | nil (session : LiveSession) (runner : Runner ω) (world : ω) :
      Turns ui settings fuel session runner world [] session runner world
  | cons {session shown : LiveSession} {runner middle last : Runner ω}
      {world opened between left : ω} {result : CaseResult} {results : List CaseResult}
      (hgate : ui.gate session fuel world = (.done (), opened))
      (hopened : ui.isPaused opened = false)
      (hcall : runner.next fuel opened = (.done (some result), middle, between))
      (hrest : Turns ui settings fuel (session.observe (settings.record result)) middle between
        results shown last left) :
      Turns ui settings fuel session runner world (result :: results) shown last left

/-- What comes after the last of these turns: nothing, or a gate that does not open, or a call
without a result. -/
inductive Rests (ui : WebUi ω) (fuel : Nat) (session : LiveSession) (runner : Runner ω)
    (world : ω) : Runner ω → ω → Prop
  | held : Rests ui fuel session runner world runner world
  | shut {answer : Eval CaptureError Unit} {opened : ω}
      (hgate : ui.gate session fuel world = (answer, opened)) (hanswer : answer ≠ .done ()) :
      Rests ui fuel session runner world runner opened
  | called {answer : Run (Option CaseResult)} {opened left : ω} {last : Runner ω}
      (hgate : ui.gate session fuel world = (.done (), opened))
      (hcall : runner.next fuel opened = (answer, last, left))
      (hanswer : ∀ result, answer ≠ .done (some result)) :
      Rests ui fuel session runner world last left

inductive Turned (ui : WebUi ω) (settings : Settings ω) (recordPasses : Int) (now : Nat → Text)
    (fuel : Nat) (records : List CaseRecord) (capture : Capture ω) :
    Eval CaptureError Bool → Capture ω → Prop
  | ended {after : Capture ω} {opened : ω}
      (hgate : ui.gate capture.session fuel capture.world = (.done (), opened))
      (hcall : capture.runner.next fuel opened = (.done none, after.runner, after.world))
      (hkept : Kept recordPasses now records after) :
      Turned ui settings recordPasses now fuel records capture (.done false) after
  | failed {answer : Eval CaptureError Bool} {after : Capture ω}
      (hanswer : ∀ goesOn, answer ≠ .done goesOn)
      (hrests : Rests ui fuel capture.session capture.runner capture.world after.runner
        after.world) (hkept : Kept recordPasses now records after) :
      Turned ui settings recordPasses now fuel records capture answer after
  | saved {after : Capture ω} {result : CaseResult} {opened : ω}
      (hgate : ui.gate capture.session fuel capture.world = (.done (), opened))
      (hcall : capture.runner.next fuel opened =
        (.done (some result), after.runner, after.world))
      (hkept : Kept recordPasses now (records ++ [settings.record result]) after) :
      Turned ui settings recordPasses now fuel records capture (.done true) after
  | lost {answer : Eval CaptureError Bool} {after : Capture ω} {result : CaseResult} {opened : ω}
      (hgate : ui.gate capture.session fuel capture.world = (.done (), opened))
      (hcall : capture.runner.next fuel opened =
        (.done (some result), after.runner, after.world))
      (hanswer : answer = .raised .file ∨ answer = .raised .database)
      (hleft : Left recordPasses now (records ++ [settings.record result]) after) :
      Turned ui settings recordPasses now fuel records capture answer after

theorem Turns.calls {session shown : LiveSession} {runner last : Runner ω} {world left : ω}
    {results : List CaseResult}
    (hturns : Turns ui settings fuel session runner world results shown last left) :
    Calls (fun _ => True) runner results last := by
  induction hturns with
  | nil session runner world => exact .nil runner
  | cons _ _ hcall _ ih => exact .cons trivial hcall ih

theorem Kept.elsewhere (hkept : Kept recordPasses now records capture) (runner : Runner ω)
    (world : ω) :
    Kept recordPasses now records { capture with runner := runner, world := world } :=
  ⟨hkept.count, hkept.file, hkept.written, hkept.working, hkept.logger, hkept.session⟩

theorem save_elsewhere {answer : Eval CaptureError Bool}
    (hsave : save faults recordPasses record capture = (answer, after)) :
    after.runner = capture.runner ∧ after.world = capture.world := by
  simp only [save] at hsave
  split at hsave
  · cases hsave
    exact ⟨rfl, rfl⟩
  · split at hsave
    · cases hsave
      exact ⟨rfl, rfl⟩
    · cases hsave
      exact ⟨rfl, rfl⟩

theorem Kept.turn {answer : Eval CaptureError Bool}
    (hkept : Kept recordPasses now records capture)
    (hfurnished : Furnished paths settings capture.runner)
    (hturn : capture.turn ui faults recordPasses fuel = (answer, after)) :
    Turned ui settings recordPasses now fuel records capture answer after := by
  rw [Capture.turn] at hturn
  split at hturn
  · rename_i hgate
    cases hturn
    exact .failed nofun (.shut hgate nofun) (hkept.elsewhere _ _)
  · rename_i hgate
    cases hturn
    exact .failed nofun (.shut hgate nofun) (hkept.elsewhere _ _)
  · rename_i opened hgate
    split at hturn
    · rename_i hnext
      cases hturn
      exact .failed nofun (.called hgate hnext nofun) (hkept.elsewhere _ _)
    · rename_i hnext
      cases hturn
      exact .failed nofun (.called hgate hnext nofun) (hkept.elsewhere _ _)
    · rename_i hnext
      cases hturn
      exact .ended hgate hnext (hkept.elsewhere _ _)
    · rename_i result runner left hnext
      have hsettings : runner.settings = settings := (hfurnished.next hnext).settings_eq
      rw [hsettings] at hturn
      obtain ⟨hrunner, hworld⟩ := save_elsewhere hturn
      have hcall : capture.runner.next fuel opened =
          (.done (some result), after.runner, after.world) := by
        rw [hrunner, hworld]
        exact hnext
      rcases (hkept.elsewhere runner left).save hturn with ⟨rfl, hkept'⟩ | ⟨hanswer, hleft⟩
      · exact .saved hgate hcall hkept'
      · exact .lost hgate hcall hanswer hleft

/-- What the loop comes to: the turns that executed a case and what came after them, and what is
left of their records. -/
structure Looped (ui : WebUi ω) (settings : Settings ω) (recordPasses : Int) (now : Nat → Text)
    (fuel : Nat) (records : List CaseRecord) (capture : Capture ω)
    (answer : Eval CaptureError Unit) (after : Capture ω) (results : List CaseResult)
    (shown : LiveSession) (last : Runner ω) (left : ω) : Prop where
  turns : Turns ui settings fuel capture.session capture.runner capture.world results shown last
    left
  rests : Rests ui fuel shown last left after.runner after.world
  ended : answer = .done () → ∃ opened, ui.gate shown fuel left = (.done (), opened) ∧
    last.next fuel opened = (.done none, after.runner, after.world)
  leaves : Kept recordPasses now (records ++ results.map settings.record) after ∨
    (answer = .raised .file ∨ answer = .raised .database) ∧
      Left recordPasses now (records ++ results.map settings.record) after

theorem Kept.looped_nil {answer : Eval CaptureError Unit}
    (hkept : Kept recordPasses now records after)
    (hrests : Rests ui fuel capture.session capture.runner capture.world after.runner after.world)
    (hended : answer = .done () → ∃ opened,
      ui.gate capture.session fuel capture.world = (.done (), opened) ∧
        capture.runner.next fuel opened = (.done none, after.runner, after.world)) :
    Looped ui settings recordPasses now fuel records capture answer after [] capture.session
      capture.runner capture.world where
  turns := .nil _ _ _
  rests := hrests
  ended := hended
  leaves := .inl (by rwa [List.map_nil, List.append_nil])

theorem Kept.loop {answer : Eval CaptureError Unit} : ∀ {loops : Nat} {records : List CaseRecord}
    {capture : Capture ω}, Kept recordPasses now records capture →
    Furnished paths settings capture.runner →
    Capture.loop ui faults recordPasses fuel loops capture = (answer, after) →
    ∃ results shown last left, Looped ui settings recordPasses now fuel records capture answer
      after results shown last left := by
  intro loops
  induction loops with
  | zero =>
      intro records capture hkept _ hloop
      cases hloop
      exact ⟨[], _, _, _, hkept.looped_nil .held nofun⟩
  | succ loops ih =>
      intro records capture hkept hfurnished hloop
      rw [Capture.loop] at hloop
      cases hturn : capture.turn ui faults recordPasses fuel with
      | mk turned middle =>
          rw [hturn] at hloop
          cases hkept.turn hfurnished hturn with
          | @ended _ opened hgate hcall hkept' =>
              cases hloop
              exact ⟨[], _, _, _, hkept'.looped_nil (.called hgate hcall nofun)
                fun _ => ⟨opened, hgate, hcall⟩⟩
          | failed hanswer hrests hkept' =>
              cases turned with
              | done goesOn => exact absurd rfl (hanswer goesOn)
              | raised error =>
                  cases hloop
                  exact ⟨[], _, _, _, hkept'.looped_nil hrests nofun⟩
              | pending =>
                  cases hloop
                  exact ⟨[], _, _, _, hkept'.looped_nil hrests nofun⟩
          | @saved _ result opened hgate hcall hkept' =>
              obtain ⟨results, shown, last, left, hlooped⟩ :=
                ih hkept' (hfurnished.next hcall) hloop
              have hsession : middle.session =
                  capture.session.observe (settings.record result) := by
                rw [hkept'.session, hkept.session, List.foldl_append]
                rfl
              have hturns := hlooped.turns
              have hends := hlooped.leaves
              rw [hsession] at hturns
              rw [List.append_assoc, List.singleton_append] at hends
              exact ⟨result :: results, shown, last, left,
                .cons hgate (gate_open hgate) hcall hturns, hlooped.rests, hlooped.ended, hends⟩
          | @lost _ _ result opened hgate hcall hanswer hleft =>
              have hturns : Turns ui settings fuel capture.session capture.runner capture.world
                  [result] (capture.session.observe (settings.record result)) middle.runner
                  middle.world := .cons hgate (gate_open hgate) hcall (.nil _ _ _)
              rcases hanswer with rfl | rfl
              · cases hloop
                exact ⟨[result], _, _, _, hturns, .held, nofun, .inr ⟨.inl rfl, hleft⟩⟩
              · cases hloop
                exact ⟨[result], _, _, _, hturns, .held, nofun, .inr ⟨.inr rfl, hleft⟩⟩

theorem Left.stop (hleft : Left recordPasses now records capture) :
    Left recordPasses now records capture.stop :=
  ⟨hleft.count_le, hleft.le_count, hleft.lower, hleft.upper, hleft.db, hleft.session⟩

/-- Without a throttle the file lacks at most the last record. -/
theorem Left.unthrottled (hleft : Left recordPasses now records capture)
    (hkeep : recordPasses ≤ 0) :
    capture.file.writer.written <+: records ∧
      records.length ≤ capture.file.writer.written.length + 1 := by
  have hwritten : ∀ fed, (ThrottledWriter.run recordPasses fed).written = fed :=
    fun fed => (ThrottledWriter.run_of_nonpos hkeep fed).2.2
  have hbuffer := (ThrottledWriter.run_of_nonpos hkeep records).2.1
  have hlower := hleft.lower
  have hupper := hleft.upper
  rw [ThrottledWriter.closeTest, ThrottledWriter.flush, if_pos hbuffer, hwritten] at hupper
  rw [hwritten] at hlower
  have hlength := hlower.length_le
  have hcount := hleft.count_le
  have hnext := hleft.le_count
  rw [List.length_take] at hlength
  exact ⟨hupper, by omega⟩

theorem Kept.close (hkept : Kept recordPasses now records capture) (hkeep : 0 < recordPasses) :
    let closed := capture.file.call faults.file .closeTest
    (closed.2 = false ∧ closed.1.writer.written =
        (ThrottledWriter.run recordPasses records).closeTest.written) ∨
      (closed.2 = true ∧ Left recordPasses now records { capture with file := closed.1 }) := by
  intro closed
  have hwhole : records.take capture.count = records := List.take_of_length_le hkept.count.ge
  rcases FailingWriter.flush_settles faults.file capture.file true with hsaved | hraised
  · rw [hkept.file hkeep] at hsaved
    exact .inl ⟨hsaved.1, congrArg ThrottledWriter.written hsaved.2⟩
  · rw [hkept.file hkeep] at hraised
    refine .inr ⟨hraised.1, { hkept.left with lower := ?_, upper := hraised.2.2 }⟩
    change (ThrottledWriter.run recordPasses (records.take capture.count)).written <+: _
    rw [hwhole]
    exact hraised.2.1

structure Closed (recordPasses : Int) (now : Nat → Text) (records : List CaseRecord)
    (capture : Capture ω) : Prop where
  count : capture.count = records.length
  written : capture.file.writer.written =
    (ThrottledWriter.run recordPasses records).closeTest.written
  working : capture.logger.working = none
  logger : capture.logger.logger = DbLogger.run recordPasses now records
  session : capture.session = records.foldl LiveSession.observe (LiveSession.new true)

theorem Closed.left (hclosed : Closed recordPasses now records capture) :
    Left recordPasses now records capture := by
  have hwhole : records.take capture.count = records :=
    List.take_of_length_le hclosed.count.ge
  refine ⟨hclosed.count.le, hclosed.count ▸ Nat.le_succ _, ?_, ?_, ?_, ?_⟩
  · rw [hwhole, hclosed.written]
    exact written_flush _ true
  · rw [hclosed.written]
  · rw [hwhole, hclosed.logger]
  · rw [hwhole, hclosed.session]

/-- What a capture comes to: the turns that executed a case and what came after them, and what
it leaves of their records. -/
structure Captured (ui : WebUi ω) (settings : Settings ω) (recordPasses : Int) (now : Nat → Text)
    (fuel : Nat) (runner : Runner ω) (world : ω) (answer : Eval CaptureError Nat)
    (after : Capture ω) (results : List CaseResult) (shown : LiveSession)
    (last ending : Runner ω) (left : ω) : Prop where
  turns : Turns ui settings fuel (.new true) runner world results shown last left
  rests : Rests ui fuel shown last left ending after.world
  stopped : ∀ error, answer = .raised error → after.runner = { ending with state := .stopped }
  same : (∀ error, answer ≠ .raised error) → after.runner = ending
  leaves : Left recordPasses now (results.map settings.record) after
  counted : after.count = results.length ∨ answer = .raised .file ∨ answer = .raised .database
  closed : ∀ count, answer = .done count →
    count = results.length ∧ Closed recordPasses now (results.map settings.record) after ∧
      ∃ opened, ui.gate shown fuel left = (.done (), opened) ∧
        last.next fuel opened = (.done none, after.runner, after.world)

theorem captureAll_cases {runner : Runner ω} {world : ω} {answer : Eval CaptureError Nat}
    (hnew : withDialer paths settings = .ok runner)
    (hcapture : captureAll ui faults recordPasses fuel (start runner world recordPasses now) =
      (answer, after)) :
    ∃ results shown last ending left, Captured ui settings recordPasses now fuel runner world
      answer after results shown last ending left := by
  rw [captureAll] at hcapture
  cases hloop : loop ui faults recordPasses fuel fuel (start runner world recordPasses now) with
  | mk ended middle =>
      rw [hloop] at hcapture
      obtain ⟨results, shown, last, left, hturns, hrests, hended, hends⟩ :=
        (start_kept runner world recordPasses now).loop (withDialer_furnished hnew) hloop
      rw [List.nil_append] at hends
      refine ⟨results, shown, last, middle.runner, left, ?_⟩
      have hcounted : ∀ {capture : Capture ω},
          Kept recordPasses now (results.map settings.record) capture →
          capture.count = results.length :=
        fun hkept => hkept.count.trans (List.length_map _)
      cases ended with
      | pending =>
          cases hcapture
          obtain hkept | ⟨hraised, -⟩ := hends
          · exact ⟨hturns, hrests, nofun, fun _ => rfl, hkept.left, .inl (hcounted hkept), nofun⟩
          · rcases hraised with h | h
            · cases h
            · cases h
      | raised error =>
          cases hcapture
          have hstopped : ∀ raised, (.raised error : Eval CaptureError Nat) = .raised raised →
              middle.stop.runner = { middle.runner with state := .stopped } := fun _ _ => rfl
          have hraises : ¬ ∀ raised, (.raised error : Eval CaptureError Nat) ≠ .raised raised :=
            fun hnever => hnever error rfl
          obtain hkept | ⟨hraised, hleft⟩ := hends
          · have hsame := hcounted hkept
            exact ⟨hturns, hrests, hstopped, fun hnever => absurd hnever hraises,
              hkept.left.stop, .inl hsame, nofun⟩
          · refine ⟨hturns, hrests, hstopped, fun hnever => absurd hnever hraises, hleft.stop,
              .inr (hraised.imp ?_ ?_), nofun⟩
            · rintro ⟨⟩
              rfl
            · rintro ⟨⟩
              rfl
      | done finished =>
          obtain hkept | ⟨hraised, -⟩ := hends
          · have hlast := hended rfl
            dsimp only at hcapture
            split at hcapture
            · rename_i hkeep
              rcases @Kept.close _ faults _ _ _ _ hkept hkeep with
                ⟨hsaved, hwritten⟩ | ⟨hraised, hleft⟩
              · rw [if_neg (by rw [hsaved]; exact Bool.false_ne_true)] at hcapture
                cases hcapture
                have hclosed : Closed recordPasses now (results.map settings.record)
                    { middle with file := (middle.file.call faults.file .closeTest).1 } :=
                  ⟨hkept.count, hwritten, hkept.working, hkept.logger, hkept.session⟩
                have hsame := hcounted hkept
                refine ⟨hturns, hrests, nofun, fun _ => rfl, hclosed.left, .inl hsame, ?_⟩
                rintro _ ⟨⟩
                exact ⟨hsame, hclosed, hlast⟩
              · rw [if_pos hraised] at hcapture
                cases hcapture
                exact ⟨hturns, hrests, fun _ _ => rfl, fun hnever => absurd rfl (hnever .file),
                  hleft.stop, .inr (.inl rfl), nofun⟩
            · rename_i hkeep
              have hwritten : middle.file.writer.written =
                  (ThrottledWriter.run recordPasses
                    (results.map settings.record)).closeTest.written := by
                have hbuffer := (ThrottledWriter.run_of_nonpos (Int.not_lt.mp hkeep)
                  (results.map settings.record)).2.1
                rw [ThrottledWriter.closeTest, ThrottledWriter.flush, if_pos hbuffer]
                exact hkept.written
              have hclosed : Closed recordPasses now (results.map settings.record) middle :=
                ⟨hkept.count, hwritten, hkept.working, hkept.logger, hkept.session⟩
              cases hcapture
              refine ⟨hturns, hrests, nofun, fun _ => rfl, hclosed.left, .inl (hcounted hkept),
                ?_⟩
              rintro _ ⟨⟩
              exact ⟨hcounted hkept, hclosed, hlast⟩
          · rcases hraised with h | h
            · cases h
            · cases h

/-- However a capture ends, the cases it has executed are those of its turns: the runner it leaves
is the one the last turn has left, but for a call without a result and for being stopped by an
error.  At most one of them is not counted, and only after a write or a statement that failed; the
file and the database hold what is due for the counted records, the file at most what is due for
all. -/
theorem captureAll_leaves {runner : Runner ω} {world : ω} {answer : Eval CaptureError Nat}
    (hnew : withDialer paths settings = .ok runner)
    (hcapture : captureAll ui faults recordPasses fuel (start runner world recordPasses now) =
      (answer, after)) :
    ∃ results shown last ending left,
      Turns ui settings fuel (.new true) runner world results shown last left ∧
      Rests ui fuel shown last left ending after.world ∧
      (∀ error, answer = .raised error → after.runner = { ending with state := .stopped }) ∧
      ((∀ error, answer ≠ .raised error) → after.runner = ending) ∧
      Left recordPasses now (results.map settings.record) after ∧
      (after.count = results.length ∨ answer = .raised .file ∨ answer = .raised .database) ∧
      (recordPasses ≤ 0 → after.file.writer.written <+: results.map settings.record ∧
        results.length ≤ after.file.writer.written.length + 1) := by
  obtain ⟨results, shown, last, ending, left, hcaptured⟩ := captureAll_cases hnew hcapture
  refine ⟨results, shown, last, ending, left, hcaptured.turns, hcaptured.rests, hcaptured.stopped,
    hcaptured.same, hcaptured.leaves, hcaptured.counted, fun hkeep => ?_⟩
  obtain ⟨hbeginning, hlength⟩ := hcaptured.leaves.unthrottled hkeep
  rw [List.length_map] at hlength
  exact ⟨hbeginning, hlength⟩

/-- An interface that nobody uses. -/
def quietUi : WebUi (List Call) where
  serve _ calls := (.ok (), calls)
  isPaused _ := false
  sleepMs _ calls := calls

/-- A capture of two failing cases whose second write fails. -/
def brokenCapture : Eval CaptureError Nat × Capture (List Call) :=
  captureAll quietUi ⟨fun attempt => attempt == 1, never⟩ 0 20
    (start rejectingRunner [] 0 fun _ => [])

theorem captureAll_leaves_broken :
    brokenCapture.1 = .raised .file ∧ brokenCapture.2.count = 1 ∧
      brokenCapture.2.runner.state = .stopped ∧
      ∃ results shown last left,
        Turns quietUi rejectingSettings 20 (.new true) rejectingRunner [] results shown last
          left ∧ results.length ≤ 2 ∧
        brokenCapture.2.file.writer.written <+: results.map rejectingSettings.record := by
  have hanswer : brokenCapture.1 = .raised .file := by decide +kernel
  have hcount : brokenCapture.2.count = 1 := by decide +kernel
  cases hcapture : brokenCapture with
  | mk answer final =>
      rw [hcapture] at hanswer hcount
      rw [brokenCapture] at hcapture
      obtain ⟨results, _, _, ending, _, hturns, -, hstops, -, hleft, -, hfile⟩ :=
        captureAll_leaves rejectingRunner_new hcapture
      have hlength := hleft.le_count
      rw [List.length_map] at hlength
      dsimp only at hanswer hcount
      rw [hcount] at hlength
      have hstopped : final.runner.state = .stopped := by rw [hstops _ hanswer]
      exact ⟨hanswer, hcount, hstopped, results, _, _, _, hturns, hlength,
        (hfile (le_refl 0)).1⟩

/-- A run that returns: its cases are those of its turns, after which the runner had no other,
taken while the session was not paused and in strictly rising ordinals;
every record passes its check; the file and the database hold the same cases, those that the
throttle keeps; and the failures of the file, of the database and of the live session are the
same. -/
theorem captureRun_agrees {runner : Runner ω} {world : ω} {count : Nat}
    (hnew : withDialer paths settings = .ok runner)
    (hpaths : ∀ path ∈ paths, path.requests ≠ [] ∧ path.target.Compiles)
    (htotal : total (candidatesOf settings.mode paths) < 2147483647)
    (hrun : captureRun ui faults recordPasses fuel (start runner world recordPasses now) =
      (.done count, after)) :
    ∃ results shown last left opened,
      Turns ui settings fuel (.new true) runner world results shown last left ∧
      ui.gate shown fuel left = (.done (), opened) ∧
      last.next fuel opened = (.done none, after.runner, after.world) ∧
      count = results.length ∧ after.runner.state ≠ .running ∧
      ((results.map settings.record).Pairwise fun first second =>
        first.ordinal < second.ordinal) ∧
      (∀ record ∈ results.map settings.record, record.validate = .ok ()) ∧
      after.file.writer.written =
        (ThrottledWriter.run recordPasses (results.map settings.record)).closeTest.written ∧
      (recordPasses ≤ 0 → after.file.writer.written = results.map settings.record) ∧
      SameCases after.file.writer after.logger.logger ∧
      jsonlFailures after.file.writer.written = after.session.crashes ∧
      after.logger.logger.db.failureMap = after.session.crashes := by
  rw [captureRun] at hrun
  cases hcapture : captureAll ui faults recordPasses fuel
      (start runner world recordPasses now) with
  | mk answer middle =>
      rw [hcapture] at hrun
      obtain ⟨results, shown, last, ending, left, hcaptured⟩ := captureAll_cases hnew hcapture
      have hturns := hcaptured.turns
      cases answer with
      | pending => cases hrun
      | raised error => cases hrun
      | done returned =>
          obtain ⟨hcount, hclosed, opened, hgate, hlast⟩ := hcaptured.closed returned rfl
          obtain ⟨hincreasing, -, hresults⟩ := hturns.calls.ordered hnew hpaths htotal
          let records := results.map settings.record
          have hordinals : records.Pairwise fun first second =>
              first.ordinal < second.ordinal := List.pairwise_map.mpr hincreasing
          have hvalid : ∀ record ∈ records, record.validate = .ok () := by
            intro record hrecord
            obtain ⟨result, hresult, rfl⟩ := List.mem_map.mp hrecord
            exact (hresults result hresult).2
          obtain ⟨hagrees, hquiet⟩ := run_agrees recordPasses now records
          have hsublist : (ThrottledWriter.run recordPasses records).closeTest.written.Sublist
              records :=
            (List.sublist_append_left _ _).trans
              (flush_sublist (run_sublist recordPasses records) true)
          have hflushed := hagrees.flush (fun _ => hquiet.passed) true
          have hsame := hflushed.sameCases (Increasing.nodup hordinals hsublist)
          have hcrashes : middle.session.crashes = jsonlFailures records := by
            rw [hclosed.session]
            exact crashes_eq true records
          have hfailures : jsonlFailures
              (ThrottledWriter.run recordPasses records).closeTest.written =
                jsonlFailures records := ThrottledWriter.closeTest_failures recordPasses records
          dsimp only at hrun
          have hactions : LogCall.closeTest.actions = [LogAction.write true] := rfl
          rw [hactions, FailingLogger.perform] at hrun
          rcases FailingLogger.writeLog_settles faults.db true hclosed.working with
            ⟨hraised, -, hlogger⟩ | ⟨hraised, -⟩
          · simp only [FailingLogger.act, hraised, Bool.false_eq_true, if_false,
              FailingLogger.perform, Prod.mk.injEq, Eval.done.injEq] at hrun
            obtain ⟨rfl, rfl⟩ := hrun
            rw [hclosed.logger] at hlogger
            refine ⟨results, shown, last, left, opened, hturns, hgate, hlast, hcount,
              next_idle hlast, hordinals, hvalid, hclosed.written, fun hkeep => ?_, ?_, ?_, ?_⟩
            · rw [hclosed.written, ThrottledWriter.closeTest, ThrottledWriter.flush,
                if_pos (ThrottledWriter.run_of_nonpos hkeep records).2.1]
              exact (ThrottledWriter.run_of_nonpos hkeep records).2.2
            · constructor
              · rw [hclosed.written, hlogger]
                exact hsame.ordinals
              · rw [hclosed.written, hlogger]
                exact hsame.cases
              · rw [hclosed.written, hlogger]
                exact hsame.steps
            · change _ = middle.session.crashes
              rw [hcrashes, hclosed.written]
              exact hfailures
            · change _ = middle.session.crashes
              rw [hcrashes, hlogger, ← hfailures]
              exact hflushed.db.failureMap
          · simp only [FailingLogger.act, hraised, if_true, Prod.mk.injEq] at hrun
            cases hrun.1

/-- A capture of two failing cases, of which the throttle keeps one passing case each. -/
def wholeCapture : Eval CaptureError Nat × Capture (List Call) :=
  captureRun quietUi ⟨never, never⟩ 1 20 (start rejectingRunner [] 1 fun _ => [])

theorem captureRun_agrees_whole :
    wholeCapture.1 = .done 2 ∧ ∃ results : List CaseResult, results.length = 2 ∧
      SameCases wholeCapture.2.file.writer wholeCapture.2.logger.logger ∧
      wholeCapture.2.logger.logger.db.failureMap = wholeCapture.2.session.crashes := by
  have hanswer : wholeCapture.1 = .done 2 := by decide +kernel
  cases hrun : wholeCapture with
  | mk answer final =>
      rw [hrun] at hanswer
      rw [wholeCapture] at hrun
      dsimp only at hanswer
      rw [hanswer] at hrun
      obtain ⟨results, _, _, _, _, -, -, -, hcount, -, -, -, -, -, hsame, -, hcrashes⟩ :=
        captureRun_agrees rejectingRunner_new
        (List.forall_mem_singleton.mpr linerPath_compiles) pairedRequest_length hrun
      exact ⟨hanswer, results, hcount.symm, hsame, hcrashes⟩

end Capture

end Cmd

end MoonBoofuzz
