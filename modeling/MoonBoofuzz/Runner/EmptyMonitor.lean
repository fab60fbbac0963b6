import MoonBoofuzz.Runner.Combine
import MoonBoofuzz.Runner.Record
import MoonBoofuzz.Runner.Redial
import MoonBoofuzz.Runner.Thresholds

namespace MoonBoofuzz

variable {ω : Type}

structure SameCase (result other : CaseResult) : Prop where
  id : other.id = result.id
  case : other.case = result.case
  path : other.path = result.path
  steps : other.steps = result.steps
  failedStep : other.failedStep = result.failedStep
  outcome : other.outcome.name = result.outcome.name
  counted : isFailure other.outcome = isFailure result.outcome

theorem SameCase.refl (result : CaseResult) : SameCase result result :=
  ⟨rfl, rfl, rfl, rfl, rfl, rfl, rfl⟩

theorem sameCase_recoveryFailed (result : CaseResult) (left right : Text) :
    SameCase { result with outcome := .recoveryFailed left }
      { result with outcome := .recoveryFailed right } :=
  ⟨rfl, rfl, rfl, rfl, rfl, rfl, rfl⟩

/-- Ends of an attempt; a text differs only where the run stops. -/
inductive SameEnd :
    Eval ModelError (CaseResult × Bool) × ω → Eval ModelError (CaseResult × Bool) × ω → Prop
  | done {result other : CaseResult} {stop : Bool} {world : ω} (hsame : SameCase result other)
      (hequal : stop = false → other = result) :
      SameEnd (.done (result, stop), world) (.done (other, stop), world)
  | raised {error : ModelError} {world : ω} : SameEnd (.raised error, world) (.raised error, world)
  | pending {world : ω} : SameEnd (.pending, world) (.pending, world)

theorem SameEnd.refl (ended : Eval ModelError (CaseResult × Bool) × ω) :
    SameEnd ended ended := by
  cases ended with
  | mk answer world =>
      cases answer with
      | done value => exact .done (SameCase.refl value.1) fun _ => rfl
      | raised error => exact .raised
      | pending => exact .pending

namespace Settings

variable {settings : Settings ω} {path : SessionPath (EdgeCallback ω)} {case : MutationCase}
  {fuel : Nat} {world : ω}

/-! What follows an execution. -/

theorem finish_combined (settings : Settings ω) (result : CaseResult) (world : ω) :
    SameEnd (settings.finish result world) (settings.combined.finish result world) := by
  have hafter : settings.combined.monitor.after = settings.monitor.after :=
    settings.monitor.combine_new_after
  have hfault : settings.combined.monitor.fault = settings.monitor.fault :=
    settings.monitor.combine_new_fault
  have hjudge : settings.combined.judge = settings.judge := rfl
  rw [finish, finish, hafter, Act.bind_perform, Act.bind_perform]
  cases hjudged : settings.monitor.after result world with
  | mk answer judged =>
      dsimp only
      rw [hjudge]
      cases hfailure : isFailure (settings.judge result answer).outcome with
      | false => exact SameEnd.refl _
      | true =>
          rw [if_pos rfl, if_pos rfl, hfault, Act.bind_perform, Act.bind_perform,
            Act.bind_perform, Act.bind_perform]
          have hrecover := settings.monitor.combine_new_recover (settings.judge result answer)
            (settings.monitor.fault (settings.judge result answer) judged).2
          rw [show settings.combined.monitor = settings.monitor.combine Monitor.new from rfl,
            hrecover]
          cases hrecovered : settings.monitor.recover (settings.judge result answer)
              (settings.monitor.fault (settings.judge result answer) judged).2 with
          | mk recovered last =>
              cases recovered with
              | error error =>
                  exact .done (sameCase_recoveryFailed _ _ _) (fun hgoes => by cases hgoes)
              | ok flag =>
                  cases flag with
                  | false => exact SameEnd.refl _
                  | true => exact SameEnd.refl _

/-- An execution is the same, and so is what comes after it, if what comes after a failed dial
is. -/
theorem follow_combined {again other : CaseResult → Act ModelError ω (CaseResult × Bool)}
    (hquiet : settings.Quiet path case fuel world)
    (hagain : ∀ raw last, settings.execute path case fuel world = (.done raw, last) →
      isDialFailure raw = true → SameEnd (again raw last) (other raw last)) :
    SameEnd
      ((settings.execute path case fuel >>= fun raw =>
        if isDialFailure raw then again raw else settings.finish raw) world)
      ((settings.combined.execute path case fuel >>= fun raw =>
        if isDialFailure raw then other raw else settings.combined.finish raw) world) := by
  have hsame := execute_combined hquiet
  cases hexecute : settings.execute path case fuel world with
  | mk answer last =>
      rw [hexecute] at hsame
      cases answer with
      | raised error =>
          rw [Act.bind_raised hsame, Act.bind_raised hexecute]
          exact .raised
      | pending =>
          rw [Act.bind_pending hsame, Act.bind_pending hexecute]
          exact .pending
      | done raw =>
          rw [Act.bind_done hsame, Act.bind_done hexecute]
          cases hdial : isDialFailure raw with
          | true => exact hagain raw last hexecute hdial
          | false => exact finish_combined settings raw last

def QuietRetries (settings : Settings ω) (path : SessionPath (EdgeCallback ω))
    (case : MutationCase) (started : Int) (fuel : Nat) : Nat → CaseResult → Nat → ω → Prop
  | 0, _, _, _ => True
  | loops + 1, current, restarts, world =>
      ∀ asked recovered, settings.givesUp restarts = false →
        settings.expired started world = (.done false, asked) →
        settings.monitor.recover current asked = (.ok true, recovered) →
        settings.Quiet path case fuel (settings.pause settings.restartSleepMs recovered) ∧
        ∀ retried last,
          settings.execute path case fuel (settings.pause settings.restartSleepMs recovered) =
            (.done retried, last) → isDialFailure retried = true →
          QuietRetries settings path case started fuel loops retried (restarts + 1) last

theorem retryLoop_combined {started : Int} : ∀ {loops restarts : Nat} {current : CaseResult}
    {world : ω}, settings.QuietRetries path case started fuel loops current restarts world →
    SameEnd (settings.retryLoop path case started fuel loops current restarts world)
      (settings.combined.retryLoop path case started fuel loops current restarts world) := by
  intro loops
  induction loops with
  | zero => exact fun _ => .pending
  | succ loops ih =>
      intro restarts current world hquiet
      have hgivesUp : settings.combined.givesUp restarts = settings.givesUp restarts := rfl
      have hexpired : settings.combined.expired started = settings.expired started := rfl
      rw [retryLoop, retryLoop, hgivesUp]
      cases hrestarts : settings.givesUp restarts with
      | true => exact SameEnd.refl _
      | false =>
          rw [if_neg Bool.false_ne_true, if_neg Bool.false_ne_true, hexpired]
          cases hasked : settings.expired started world with
          | mk answer asked =>
              cases answer with
              | raised error =>
                  rw [Act.bind_raised hasked, Act.bind_raised hasked]
                  exact .raised
              | pending =>
                  rw [Act.bind_pending hasked, Act.bind_pending hasked]
                  exact .pending
              | done late =>
                  rw [Act.bind_done hasked, Act.bind_done hasked]
                  cases late with
                  | true => exact SameEnd.refl _
                  | false =>
                      rw [if_neg Bool.false_ne_true, if_neg Bool.false_ne_true,
                        Act.bind_perform, Act.bind_perform]
                      have hrecover := settings.monitor.combine_new_recover current asked
                      rw [show settings.combined.monitor =
                        settings.monitor.combine Monitor.new from rfl, hrecover]
                      cases hrecovered : settings.monitor.recover current asked with
                      | mk recovered ready =>
                          have hnext := hquiet asked ready hrestarts hasked
                          cases recovered with
                          | error error => exact SameEnd.refl _
                          | ok flag =>
                              cases flag with
                              | false => exact SameEnd.refl _
                              | true =>
                                  obtain ⟨hexecution, hrest⟩ := hnext hrecovered
                                  exact follow_combined hexecution fun retried last hrun hdial =>
                                    ih (hrest retried last hrun hdial)

def QuietAttempt (settings : Settings ω) (path : SessionPath (EdgeCallback ω))
    (case : MutationCase) (fuel : Nat) (world : ω) : Prop :=
  settings.Quiet path case fuel world ∧
    ∀ raw last, settings.execute path case fuel world = (.done raw, last) →
      isDialFailure raw = true →
      settings.QuietRetries path case (settings.clock.monotonicMs last).1 fuel fuel raw 0
        (settings.clock.monotonicMs last).2

theorem attempt_combined (hquiet : settings.QuietAttempt path case fuel world) :
    SameEnd (settings.attempt path case fuel world)
      (settings.combined.attempt path case fuel world) :=
  follow_combined hquiet.1 fun raw last hexecute hdial =>
    retryLoop_combined (hquiet.2 raw last hexecute hdial)

end Settings

namespace Runner

/-! Runners that differ in the empty monitor. -/

def combined (runner : Runner ω) : Runner ω :=
  { runner with settings := runner.settings.combined }

theorem withDialer_combined {paths : List (SessionPath (EdgeCallback ω))}
    {settings : Settings ω} {runner : Runner ω} (hbuilt : withDialer paths settings = .ok runner) :
    withDialer paths settings.combined = .ok runner.combined := by
  have hpolicies : ∀ policies names, checkPolicies settings.combined names policies =
      checkPolicies settings names policies := by
    intro policies names
    induction policies with
    | nil => rfl
    | cons policy rest ih =>
        obtain ⟨name, policy⟩ := policy
        rw [checkPolicies, checkPolicies, ih]
        rfl
  rw [withDialer] at hbuilt ⊢
  split at hbuilt
  · rename_i hlimits
    obtain ⟨token, hchecked, hrunner⟩ := exceptBind_eq_ok_iff.mp hbuilt
    rw [Except.ok.injEq] at hrunner
    have hcombined : 0 ≤ settings.combined.limit.toInt ∧
        0 < settings.combined.receiveLimit.toInt ∧
        settings.combined.receiveLimit.toInt ≤ 1048576 ∧
        0 < settings.combined.receiveTimeout.toInt := hlimits
    rw [if_pos hcombined, ← hrunner]
    refine exceptBind_eq_ok_iff.mpr ⟨token, ?_, rfl⟩
    exact (hpolicies _ _).trans hchecked
  · cases hbuilt

variable {runner : Runner ω} {fuel : Nat}

theorem pull_combined : runner.combined.pull fuel =
    ((runner.pull fuel).1, (runner.pull fuel).2.combined) := by
  have hstream : runner.combined.stream = runner.stream := rfl
  have hpending : runner.combined.pending = runner.pending := rfl
  rw [pull, pull, hpending, hstream]
  cases runner.pending with
  | some saved => rfl
  | none =>
      cases runner.stream with
      | none => rfl
      | some stream =>
          dsimp only
          cases stream.next fuel with
          | mk found after =>
              cases found with
              | pending => rfl
              | raised error => rfl
              | done found => rfl

theorem drainElement_combined {element : Text} : ∀ {loops : Nat} {runner : Runner ω},
    drainElement element fuel loops runner.combined =
      ((drainElement element fuel loops runner).1,
        (drainElement element fuel loops runner).2.combined) := by
  intro loops
  induction loops with
  | zero => exact fun {runner} => rfl
  | succ loops ih =>
      intro runner
      rw [drainElement, drainElement, pull_combined]
      cases runner.pull fuel with
      | mk found after =>
          cases found with
          | pending => rfl
          | raised error => rfl
          | done found =>
              cases found with
              | none => rfl
              | some case =>
                  dsimp only
                  split
                  · exact ih
                  · rfl

theorem drainPath_combined : ∀ {loops : Nat} {runner : Runner ω},
    drainPath fuel loops runner.combined =
      ((drainPath fuel loops runner).1, (drainPath fuel loops runner).2.combined) := by
  intro loops
  induction loops with
  | zero => exact fun {runner} => rfl
  | succ loops ih =>
      intro runner
      rw [drainPath, drainPath, pull_combined]
      cases runner.pull fuel with
      | mk found after =>
          cases found with
          | pending => rfl
          | raised error => rfl
          | done found =>
              cases found with
              | none => rfl
              | some case => exact ih

theorem prepare_combined (path : SessionPath (EdgeCallback ω)) :
    runner.combined.prepare path =
      (runner.prepare path).map fun prepared => (prepared.1, prepared.2.combined) := by
  have hstream : runner.combined.stream = runner.stream := rfl
  rw [prepare, prepare, hstream]
  cases runner.stream with
  | some stream => rfl
  | none =>
      dsimp only
      change (if ProtocolDefinition.skipsPath runner.settings.mode path.target runner.skip then _
        else _) = _
      split
      · rfl
      · change (path.target.enumerate runner.settings.mode runner.settings.vars runner.skip
          2147483647 >>= _) = _
        cases path.target.enumerate runner.settings.mode runner.settings.vars runner.skip
          2147483647 with
        | error error => rfl
        | ok stream => rfl

theorem seekCase_combined : ∀ {loops : Nat} {runner : Runner ω},
    runner.combined.seekCase fuel loops =
      ((runner.seekCase fuel loops).1, (runner.seekCase fuel loops).2.combined) := by
  intro loops
  induction loops with
  | zero => exact fun {runner} => rfl
  | succ loops ih =>
      intro runner
      have hpath : runner.combined.paths[runner.combined.index]? =
          runner.paths[runner.index]? := rfl
      have hend : runner.combined.reachesEnd runner.combined.position =
          runner.reachesEnd runner.position := rfl
      rw [seekCase, seekCase, hpath, hend]
      cases runner.paths[runner.index]? with
      | none => rfl
      | some path =>
          dsimp only
          split
          · rfl
          · change (if runner.settings.limit.toInt ≤ runner.executed then _ else _) = _
            split
            · rfl
            · rw [prepare_combined]
              cases runner.prepare path with
              | error error => rfl
              | ok prepared =>
                  obtain ⟨ready, middle⟩ := prepared
                  cases ready with
                  | false => exact ih
                  | true =>
                      dsimp only [Except.map]
                      rw [pull_combined]
                      cases middle.pull fuel with
                      | mk found after =>
                          cases found with
                          | pending => rfl
                          | raised error => rfl
                          | done found =>
                              cases found with
                              | none => exact @ih after.nextPath
                              | some case =>
                                  dsimp only
                                  have hlast : after.combined.reachesEnd
                                      (after.combined.position - 1) =
                                        after.reachesEnd (after.position - 1) := rfl
                                  rw [hlast]
                                  split
                                  · rfl
                                  · rfl

def elementDrained (fuel : Nat) (runner : Runner ω) (element : Text) : Run Unit × Runner ω :=
  if runner.settings.crashThresholdElement ≤
      ((runner.elementFailures.lookup element).getD 0 : Int) + 1 then
    drainElement element fuel fuel (runner.tally element)
  else (.done (), runner.tally element)

def pathDrained (fuel : Nat) (threshold : Int) (drained : Run Unit × Runner ω) :
    Run Unit × Runner ω :=
  match drained with
  | (.done (), after) =>
      if threshold ≤ after.pathFailures.getD after.index 0 then drainPath fuel fuel after
      else (.done (), after)
  | _ => drained

theorem countFailure_eq (runner : Runner ω) (result : CaseResult) :
    runner.countFailure fuel result =
      if isFailure result.outcome then
        pathDrained fuel runner.settings.crashThresholdRequest
          (elementDrained fuel runner result.case.fieldPath)
      else (.done (), runner) := rfl

theorem elementDrained_combined (runner : Runner ω) (element : Text) :
    elementDrained fuel runner.combined element =
      ((elementDrained fuel runner element).1,
        (elementDrained fuel runner element).2.combined) := by
  have htally : runner.combined.tally element = (runner.tally element).combined := rfl
  have hfailures : runner.combined.elementFailures = runner.elementFailures := rfl
  have hthreshold : runner.combined.settings.crashThresholdElement =
      runner.settings.crashThresholdElement := rfl
  rw [elementDrained, elementDrained, htally, hfailures, hthreshold]
  split
  · exact drainElement_combined
  · rfl

theorem pathDrained_combined (threshold : Int) (drained : Run Unit × Runner ω) :
    pathDrained fuel threshold (drained.1, drained.2.combined) =
      ((pathDrained fuel threshold drained).1,
        (pathDrained fuel threshold drained).2.combined) := by
  obtain ⟨answer, after⟩ := drained
  cases answer with
  | pending => rfl
  | raised error => rfl
  | done token =>
      have hfailures : after.combined.pathFailures.getD after.combined.index 0 =
          after.pathFailures.getD after.index 0 := rfl
      rw [pathDrained, pathDrained]
      dsimp only
      rw [hfailures]
      split
      · exact drainPath_combined
      · rfl

theorem countFailure_combined (runner : Runner ω) (result : CaseResult) :
    runner.combined.countFailure fuel result =
      ((runner.countFailure fuel result).1, (runner.countFailure fuel result).2.combined) := by
  rw [countFailure_eq, countFailure_eq, elementDrained_combined]
  split
  · exact pathDrained_combined _ _
  · rfl

/-! Calls of `next`. -/

inductive SameAnswer : Run (Option CaseResult) → Run (Option CaseResult) → Prop
  | case {result other : CaseResult} (hsame : SameCase result other) :
      SameAnswer (.done (some result)) (.done (some other))
  | ended : SameAnswer (.done none) (.done none)
  | raised {error : ModelError} : SameAnswer (.raised error) (.raised error)
  | pending : SameAnswer .pending .pending

def QuietNext (fuel : Nat) (runner : Runner ω) (world : ω) : Prop :=
  ∀ case after, runner.state = .running →
    runner.seekCase fuel fuel = (.done (some case), after) →
    after.settings.QuietAttempt (after.paths.getD after.index ⟨[], []⟩) case fuel world

theorem next_combined {world : ω} (hquiet : runner.QuietNext fuel world) :
    SameAnswer (runner.next fuel world).1 (runner.combined.next fuel world).1 ∧
      (runner.combined.next fuel world).2 =
        ((runner.next fuel world).2.1.combined, (runner.next fuel world).2.2) := by
  have hstate : runner.combined.state = runner.state := rfl
  rw [next, next, hstate]
  split
  · rename_i hrunning
    rw [seekCase_combined]
    cases hseek : runner.seekCase fuel fuel with
    | mk found after =>
        cases found with
        | pending => exact ⟨.pending, rfl⟩
        | raised error => exact ⟨.raised, rfl⟩
        | done found =>
            cases found with
            | none => exact ⟨.ended, rfl⟩
            | some case =>
                dsimp only
                have hattempt := Settings.attempt_combined (hquiet case after hrunning hseek)
                change SameEnd _ (after.combined.settings.attempt
                  (after.combined.paths.getD after.combined.index ⟨[], []⟩) case fuel world)
                  at hattempt
                generalize after.combined.settings.attempt
                  (after.combined.paths.getD after.combined.index ⟨[], []⟩) case fuel world =
                    other at hattempt ⊢
                generalize after.settings.attempt (after.paths.getD after.index ⟨[], []⟩) case
                  fuel world = ended at hattempt ⊢
                cases hattempt with
                | raised => exact ⟨.raised, rfl⟩
                | pending => exact ⟨.pending, rfl⟩
                | @done result other stop last hsame hequal =>
                    cases stop with
                    | true => exact ⟨.case hsame, rfl⟩
                    | false =>
                        rw [hequal rfl]
                        dsimp only
                        rw [countFailure_combined]
                        cases after.countFailure fuel result with
                        | mk counted final =>
                            cases counted with
                            | pending => exact ⟨.pending, rfl⟩
                            | raised error => exact ⟨.raised, rfl⟩
                            | done token => exact ⟨.case (SameCase.refl result), rfl⟩
  · exact ⟨.ended, rfl⟩

def calls (fuel : Nat) : Nat → Runner ω → ω → List (Run (Option CaseResult)) × Runner ω × ω
  | 0, runner, world => ([], runner, world)
  | count + 1, runner, world =>
      let (answer, middle, between) := runner.next fuel world
      let (answers, after) := calls fuel count middle between
      (answer :: answers, after)

/-- Every attempt of a run asks the monitor without an error. -/
def QuietRun (fuel : Nat) : Nat → Runner ω → ω → Prop
  | 0, _, _ => True
  | count + 1, runner, world =>
      runner.QuietNext fuel world ∧
        QuietRun fuel count (runner.next fuel world).2.1 (runner.next fuel world).2.2

theorem calls_combined : ∀ {count : Nat} {runner : Runner ω} {world : ω},
    QuietRun fuel count runner world →
    List.Forall₂ SameAnswer (calls fuel count runner world).1
        (calls fuel count runner.combined world).1 ∧
      (calls fuel count runner.combined world).2 =
        ((calls fuel count runner world).2.1.combined, (calls fuel count runner world).2.2) := by
  intro count
  induction count with
  | zero => exact fun _ => ⟨.nil, rfl⟩
  | succ count ih =>
      intro runner world hquiet
      obtain ⟨hsame, hafter⟩ := next_combined hquiet.1
      obtain ⟨hanswers, hlast⟩ := ih hquiet.2
      have hmiddle : (runner.combined.next fuel world).2.1 =
          (runner.next fuel world).2.1.combined := by rw [hafter]
      have hworld : (runner.combined.next fuel world).2.2 = (runner.next fuel world).2.2 := by
        rw [hafter]
      rw [calls, calls]
      dsimp only
      rw [hmiddle, hworld]
      exact ⟨.cons hsame hanswers, hlast⟩

/-- Behind a monitor whose checks raise nothing during a run, the empty monitor changes no
answer but for the text of a failed recovery, and neither the runner nor the world. -/
theorem empty_monitor_unit (paths : List (SessionPath (EdgeCallback ω))) (settings : Settings ω)
    (runner : Runner ω) (hbuilt : withDialer paths settings = .ok runner) (fuel count : Nat)
    (world : ω) (hquiet : QuietRun fuel count runner world) :
    ∃ paired, withDialer paths
        { settings with monitor := settings.monitor.combine Monitor.new } = .ok paired ∧
      List.Forall₂ SameAnswer (calls fuel count runner world).1
        (calls fuel count paired world).1 ∧
      (calls fuel count paired world).2.1 = (calls fuel count runner world).2.1.combined ∧
      (calls fuel count paired world).2.2 = (calls fuel count runner world).2.2 := by
  obtain ⟨hanswers, hlast⟩ := calls_combined hquiet
  have hrunner : (calls fuel count runner.combined world).2.1 =
      (calls fuel count runner world).2.1.combined := by rw [hlast]
  have hworld : (calls fuel count runner.combined world).2.2 =
      (calls fuel count runner world).2.2 := by rw [hlast]
  exact ⟨runner.combined, withDialer_combined hbuilt, hanswers, hrunner, hworld⟩

/-! Monitors whose checks never raise. -/

theorem quietSteps_of_check {settings : Settings ω} {channel : Channel ω}
    {path : SessionPath (EdgeCallback ω)} {case : MutationCase}
    (hcheck : ∀ name bytes world error,
      (settings.monitor.check name bytes world).1 ≠ .error error) :
    ∀ {requests : List CompiledRequest} {index : Nat}
      {transitions : List (Option (EdgeCallback ω))} {exchange : Settings.Exchange} {world : ω},
      settings.QuietSteps channel path case fuel index requests transitions exchange world := by
  intro requests
  induction requests with
  | nil => exact trivial
  | cons request rest ih =>
      exact ⟨fun received asked error _ => hcheck request.name received asked error,
        fun _ _ _ => ih⟩

theorem quietRetries_of_check {settings : Settings ω} {path : SessionPath (EdgeCallback ω)}
    {case : MutationCase} {started : Int}
    (hcheck : ∀ name bytes world error,
      (settings.monitor.check name bytes world).1 ≠ .error error) :
    ∀ {loops restarts : Nat} {current : CaseResult} {world : ω},
      settings.QuietRetries path case started fuel loops current restarts world := by
  intro loops
  induction loops with
  | zero => exact trivial
  | succ loops ih =>
      exact fun _ _ _ _ _ =>
        ⟨fun _ _ _ _ _ _ _ => quietSteps_of_check hcheck, fun _ _ _ _ => ih⟩

theorem quietAttempt_of_check {settings : Settings ω} {path : SessionPath (EdgeCallback ω)}
    {case : MutationCase} {world : ω}
    (hcheck : ∀ name bytes world error,
      (settings.monitor.check name bytes world).1 ≠ .error error) :
    settings.QuietAttempt path case fuel world :=
  ⟨fun _ _ _ _ _ _ _ => quietSteps_of_check hcheck,
    fun _ _ _ _ => quietRetries_of_check hcheck⟩

theorem quietNext_of_check {world : ω}
    (hcheck : ∀ name bytes world error,
      (runner.settings.monitor.check name bytes world).1 ≠ .error error) :
    runner.QuietNext fuel world := by
  intro case after _ hseek
  have hsettings := (seekCase_sameCourse hseek).settings
  exact quietAttempt_of_check (by rw [hsettings]; exact hcheck)

def refusingSettings : Settings (List Call) :=
  { Settings.linerSettings with
    monitor :=
      { Settings.linerSettings.monitor with
        recover := fun _ calls => (.error (.other (Text.ofAscii "no target")), calls) } }

theorem empty_monitor_unit_refusing : ∃ runner paired,
    withDialer [Settings.linerPath] refusingSettings = .ok runner ∧
      withDialer [Settings.linerPath]
        { refusingSettings with
          monitor := refusingSettings.monitor.combine Monitor.new } = .ok paired ∧
      List.Forall₂ SameAnswer (calls 20 1 runner []).1 (calls 20 1 paired []).1 ∧
      (calls 20 1 paired []).2.1 = (calls 20 1 runner []).2.1.combined := by
  obtain ⟨runner, hbuilt⟩ : ∃ runner,
      withDialer [Settings.linerPath] refusingSettings = .ok runner := ⟨_, rfl⟩
  have hsettings : runner.settings = refusingSettings := by
    cases hbuilt
    rfl
  have hquiet : QuietRun 20 1 runner [] :=
    ⟨quietNext_of_check (by rw [hsettings]; exact fun _ _ _ _ => by simp [refusingSettings,
      Settings.linerSettings]), trivial⟩
  obtain ⟨paired, hpaired, hanswers, hrunner, -⟩ :=
    empty_monitor_unit [Settings.linerPath] refusingSettings runner hbuilt 20 1 [] hquiet
  exact ⟨runner, paired, hbuilt, hpaired, hanswers, hrunner⟩

def raisingSettings : Settings (List Call) :=
  { Settings.linerSettings with
    monitor :=
      { Settings.linerSettings.monitor with
        check := fun _ _ calls => (.error (.other (Text.ofAscii "parse")), calls) } }

def raisedResult (outcome : Outcome) : CaseResult :=
  Settings.report Settings.linerPath (acceptedCase "r.a" 0 0 [0x32, 0x34])
    [⟨Text.ofAscii "r", [0x32, 0x34], [0x41, 10], false⟩] outcome (some 0)

/-- Alone the error is no failure of the case; behind the empty monitor it is one. -/
theorem raising_check_counts : ∃ runner paired result other,
    withDialer [Settings.linerPath] raisingSettings = .ok runner ∧
      withDialer [Settings.linerPath]
        { raisingSettings with
          monitor := raisingSettings.monitor.combine Monitor.new } = .ok paired ∧
      (calls 20 1 runner []).1 = [.done (some result)] ∧
      (calls 20 1 paired []).1 = [.done (some other)] ∧
      isFailure result.outcome = false ∧ isFailure other.outcome = true ∧
      ¬ SameCase result other := by
  obtain ⟨runner, hbuilt⟩ : ∃ runner,
      withDialer [Settings.linerPath] raisingSettings = .ok runner := ⟨_, rfl⟩
  refine ⟨runner, runner.combined,
    raisedResult (.callbackFailed (Text.ofAscii "response check: ")),
    raisedResult .responseMismatch, hbuilt, withDialer_combined hbuilt, ?_, ?_, rfl, rfl, ?_⟩
  · cases hbuilt
    decide +kernel
  · cases hbuilt
    decide +kernel
  · intro hsame
    exact absurd hsame.counted (by decide)

end Runner

end MoonBoofuzz
