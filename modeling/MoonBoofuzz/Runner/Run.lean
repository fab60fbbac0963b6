import MoonBoofuzz.Runner.Execute

namespace MoonBoofuzz

namespace Settings

variable {ω : Type}

/-! What follows the execution of a case. -/

def judge (settings : Settings ω) (result : CaseResult) :
    Except CallbackError Unit → CaseResult
  | .ok () => result
  | .error (.targetFailed reason) => { result with outcome := .monitorFailed reason }
  | .error error => { result with
      outcome := .callbackFailed (Text.ofAscii "after: " ++ settings.debug.error error ++
        Text.ofAscii "; prior: " ++ settings.debug.outcome result.outcome) }

/-- `finish`: the final result, and whether the run is to stop. -/
def finish (settings : Settings ω) (result : CaseResult) :
    Act ModelError ω (CaseResult × Bool) := do
  let answer ← Act.perform (settings.monitor.after result)
  let judged := settings.judge result answer
  if isFailure judged.outcome then do
    -- An error of the fault callback is dropped.
    let _ ← Act.perform (settings.monitor.fault judged)
    match ← Act.perform (settings.monitor.recover judged) with
    | .error error => pure ({ judged with
        outcome := .recoveryFailed (settings.debug.error error ++
          Text.ofAscii "; prior: " ++ settings.debug.outcome judged.outcome) }, true)
    | .ok false => pure ({ judged with
        outcome := .recoveryFailed (Text.ofAscii "recovery returned false; prior: " ++
          settings.debug.outcome judged.outcome) }, true)
    | .ok true => pure (judged, false)
  else pure (judged, false)

/-- A positive threshold bounds the restarts. -/
def givesUp (settings : Settings ω) (restarts : Nat) : Bool :=
  match settings.restartThreshold with
  | some threshold => decide (0 < threshold ∧ threshold ≤ restarts)
  | none => false

def expired (settings : Settings ω) (started : Int) : Act ModelError ω Bool :=
  match settings.restartTimeoutMs with
  | some timeout => do
      let now ← Act.perform settings.clock.monotonicMs
      pure (decide (timeout ≤ wrap64 (now - started)))
  | none => pure false

def pause (settings : Settings ω) (milliseconds : Int) (world : ω) : ω :=
  if 0 < milliseconds then settings.clock.sleepMs milliseconds world else world

/-- The loop of `recover_and_retry`. -/
def retryLoop (settings : Settings ω) (path : SessionPath (EdgeCallback ω))
    (case : MutationCase) (started : Int) (fuel : Nat) :
    Nat → CaseResult → Nat → Act ModelError ω (CaseResult × Bool)
  | 0, _, _ => Act.ofEval .pending
  | loops + 1, current, restarts =>
      if settings.givesUp restarts then pure (current, true)
      else do
        if ← settings.expired started then pure (current, true)
        else do
          match ← Act.perform (settings.monitor.recover current) with
          | .ok true => do
              Act.perform fun world => ((), settings.pause settings.restartSleepMs world)
              let retried ← settings.execute path case fuel
              if isDialFailure retried then
                settings.retryLoop path case started fuel loops retried (restarts + 1)
              else settings.finish retried
          | _ => pure (current, true)

/-- `recover_and_retry`. -/
def recoverAndRetry (settings : Settings ω) (path : SessionPath (EdgeCallback ω))
    (case : MutationCase) (first : CaseResult) (fuel : Nat) :
    Act ModelError ω (CaseResult × Bool) := do
  let started ← Act.perform settings.clock.monotonicMs
  settings.retryLoop path case started fuel fuel first 0

def attempt (settings : Settings ω) (path : SessionPath (EdgeCallback ω))
    (case : MutationCase) (fuel : Nat) : Act ModelError ω (CaseResult × Bool) := do
  let raw ← settings.execute path case fuel
  if isDialFailure raw then settings.recoverAndRetry path case raw fuel
  else settings.finish raw

theorem execute_dialed {settings : Settings ω} {path : SessionPath (EdgeCallback ω)}
    {case : MutationCase} {fuel : Nat} {world : ω}
    (hdialed : ∀ raw last, settings.execute path case fuel world = (.done raw, last) →
      isDialFailure raw = false)
    (again : CaseResult → Act ModelError ω (CaseResult × Bool)) :
    (settings.execute path case fuel >>= fun raw =>
        if isDialFailure raw then again raw else settings.finish raw) world =
      (settings.execute path case fuel >>= settings.finish) world := by
  cases hexecute : settings.execute path case fuel world with
  | mk answer last =>
      cases answer with
      | done raw =>
          rw [Act.bind_done hexecute, Act.bind_done hexecute, hdialed raw last hexecute]
          rfl
      | raised error => rw [Act.bind_raised hexecute, Act.bind_raised hexecute]
      | pending => rw [Act.bind_pending hexecute, Act.bind_pending hexecute]

end Settings

structure Runner (ω : Type) where
  paths : List (SessionPath (EdgeCallback ω))
  settings : Settings ω
  /-- Streams are built when their path is reached. -/
  streams : List (Option CaseStream)
  pathFailures : List Nat
  elementFailures : List (Text × Nat)
  /-- A case that was pulled but belongs to a later call. -/
  pending : Option MutationCase
  /-- The start offset that no stream has taken yet. -/
  skip : Int32
  /-- The global ordinal of the next candidate. -/
  position : Int32
  index : Nat
  executed : Nat
  state : EnumerationState

namespace Runner

variable {ω : Type}

def checkPolicies (settings : Settings ω) (names : List Text) :
    List (Text × ReadPolicy) → Except RunError Unit
  | [] => .ok ()
  | (name, policy) :: rest =>
      if name ∈ names then do
        validatePolicy policy settings.receiveLimit.toInt
        checkPolicies settings names rest
      else .error (.invalid
        (Text.ofAscii "response policy names unknown request: " ++ name))

/-- `Runner::with_dialer`. -/
def withDialer (paths : List (SessionPath (EdgeCallback ω))) (settings : Settings ω) :
    Except RunError (Runner ω) :=
  if 0 ≤ settings.limit.toInt ∧ 0 < settings.receiveLimit.toInt ∧
      settings.receiveLimit.toInt ≤ 1048576 ∧ 0 < settings.receiveTimeout.toInt then do
    checkPolicies settings (paths.flatMap (·.names)) settings.policies
    .ok {
      paths := paths
      settings := settings
      streams := paths.map fun _ => none
      pathFailures := paths.map fun _ => 0
      elementFailures := []
      pending := none
      skip := settings.start
      position := settings.start
      index := 0
      executed := 0
      state := .running }
  else .error (.invalid (Text.ofAscii "invalid runner limits"))

def stream (runner : Runner ω) : Option CaseStream :=
  runner.streams.getD runner.index none

def setStream (runner : Runner ω) (stream : CaseStream) : Runner ω :=
  { runner with streams := runner.streams.set runner.index (some stream) }

/-- `pull`: the next case of the current path, from the lookahead first. -/
def pull (fuel : Nat) (runner : Runner ω) : Run (Option MutationCase) × Runner ω :=
  match runner.pending with
  | some saved =>
      (.done (some saved),
        { runner with pending := none, position := runner.position + 1 })
  | none =>
      match runner.stream with
      | none => (.done none, runner)
      | some stream =>
          match stream.next fuel with
          | (.pending, _) => (.pending, runner)
          | (.raised error, after) => (.raised error, runner.setStream after)
          | (.done found, after) =>
              (.done found, { runner.setStream after with
                position := runner.position +
                  Int32.ofInt ((after.position : Int) - stream.position) })

/-- `drain_element`: passes over the cases of one element.  The first case of another
one stays pending. -/
def drainElement (element : Text) (fuel : Nat) :
    Nat → Runner ω → Run Unit × Runner ω
  | 0, runner => (.pending, runner)
  | loops + 1, runner =>
      match runner.pull fuel with
      | (.pending, after) => (.pending, after)
      | (.raised error, after) => (.raised error, after)
      | (.done none, after) => (.done (), after)
      | (.done (some case), after) =>
          if case.fieldPath = element then drainElement element fuel loops after
          else (.done (),
            { after with position := after.position - 1, pending := some case })

/-- `drain_path`. -/
def drainPath (fuel : Nat) : Nat → Runner ω → Run Unit × Runner ω
  | 0, runner => (.pending, runner)
  | loops + 1, runner =>
      match runner.pull fuel with
      | (.pending, after) => (.pending, after)
      | (.raised error, after) => (.raised error, after)
      | (.done none, after) => (.done (), after)
      | (.done (some _), after) => drainPath fuel loops after

/-- Makes the stream of a path ready.  The flag is false when the start offset lies
beyond the path, and the next one is to be taken. -/
def prepare (runner : Runner ω) (path : SessionPath (EdgeCallback ω)) :
    Except ModelError (Bool × Runner ω) :=
  match runner.stream with
  | some _ => .ok (true, runner)
  | none =>
      if ProtocolDefinition.skipsPath runner.settings.mode path.target runner.skip then
        .ok (false, { runner with
          skip := runner.skip - Int32.ofInt path.target.rawMutationCount
          index := runner.index + 1 })
      else do
        let stream ← path.target.enumerate runner.settings.mode runner.settings.vars
          runner.skip 2147483647
        .ok (true, { runner.setStream stream with skip := 0 })

/-- The start offset that an exhausted stream leaves for the next path. -/
def leftover (runner : Runner ω) : Int32 :=
  match runner.settings.mode, runner.stream with
  | .combinatorial _, some stream =>
      if 0 < stream.remainingSkip then Int32.ofNat stream.remainingSkip else runner.skip
  | _, _ => runner.skip

def nextPath (runner : Runner ω) : Runner ω :=
  { runner with skip := runner.leftover, index := runner.index + 1 }

def reachesEnd (runner : Runner ω) (position : Int32) : Bool :=
  match runner.settings.endIndex with
  | some last => decide (last.toInt ≤ position.toInt)
  | none => false

/-- The part of the loop of `next` that looks for the case to execute. -/
def seekCase (fuel : Nat) : Nat → Runner ω → Run (Option MutationCase) × Runner ω
  | 0, runner => (.pending, runner)
  | loops + 1, runner =>
      match runner.paths[runner.index]? with
      | none => (.done none, { runner with state := .exhausted })
      | some path =>
          if runner.reachesEnd runner.position then
            (.done none, { runner with state := .limited })
          else if runner.settings.limit.toInt ≤ runner.executed then
            (.done none, { runner with state := .limited })
          else
            match runner.prepare path with
            | .error error => (.raised error, { runner with skip := 0 })
            | .ok (false, runner) => seekCase fuel loops runner
            | .ok (true, runner) =>
                match runner.pull fuel with
                | (.pending, after) => (.pending, after)
                | (.raised error, after) => (.raised error, after)
                | (.done none, after) => seekCase fuel loops after.nextPath
                | (.done (some case), after) =>
                    if after.reachesEnd (after.position - 1) then
                      (.done none, { after with state := .limited })
                    else
                      (.done (some
                        { case with ordinal := (after.position - 1).toInt }), after)

def countFailure (fuel : Nat) (runner : Runner ω) (result : CaseResult) :
    Run Unit × Runner ω :=
  if isFailure result.outcome then
    let element := result.case.fieldPath
    let current := (runner.elementFailures.lookup element).getD 0
    let counted := { runner with
      pathFailures := runner.pathFailures.modify runner.index (· + 1)
      elementFailures := (element, current + 1) :: runner.elementFailures }
    let drained :=
      if runner.settings.crashThresholdElement ≤ current + 1 then
        drainElement element fuel fuel counted
      else (.done (), counted)
    match drained with
    | (.done (), after) =>
        if runner.settings.crashThresholdRequest ≤
            after.pathFailures.getD after.index 0 then
          drainPath fuel fuel after
        else (.done (), after)
    | _ => drained
  else (.done (), runner)

/-- `next`; an error stops the run. -/
def next (fuel : Nat) (runner : Runner ω) (world : ω) :
    Run (Option CaseResult) × Runner ω × ω :=
  if runner.state = .running then
    match runner.seekCase fuel fuel with
    | (.pending, _) => (.pending, runner, world)
    | (.raised error, after) => (.raised error, { after with state := .stopped }, world)
    | (.done none, after) => (.done none, after, world)
    | (.done (some case), after) =>
        let path := after.paths.getD after.index ⟨[], []⟩
        match after.settings.attempt path case fuel world with
        | (.pending, world) => (.pending, runner, world)
        | (.raised error, world) =>
            (.raised error, { after with state := .stopped }, world)
        | (.done (result, true), world) =>
            (.done (some result),
              { after with state := .stopped, executed := after.executed + 1 }, world)
        | (.done (result, false), world) =>
            match after.countFailure fuel result with
            | (.pending, _) => (.pending, runner, world)
            | (.raised error, last) =>
                (.raised error, { last with state := .stopped }, world)
            | (.done (), last) =>
                (.done (some result), { last with executed := last.executed + 1 },
                  last.settings.pause last.settings.sleepBetweenMs world)
  else (.done none, runner, world)

end Runner

end MoonBoofuzz
