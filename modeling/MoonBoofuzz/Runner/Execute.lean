import MoonBoofuzz.Definition.Generate
import MoonBoofuzz.Runner.Channel

namespace MoonBoofuzz

inductive Outcome where
  | passed
  | connectFailed (code : Int)
  | sendFailed (code : Int)
  | receiveFailed (code : Int)
  | connectTimedOut
  | sendTimedOut
  | receiveTimedOut
  | configurationFailed (message : Text)
  | datagramTooLarge
  | peerClosed
  | responseMismatch
  | callbackFailed (message : Text)
  /-- A monitor detected a failure of the target after the case ran. -/
  | monitorFailed (reason : Text)
  | recoveryFailed (message : Text)
  | nothingReceived
  | connectionIgnored (message : Text)
  deriving Repr, DecidableEq

structure StepResult where
  requestName : Text
  sent : Bytes
  received : Bytes
  completed : Bool
  deriving Repr, DecidableEq

structure CaseResult where
  id : Text
  case : MutationCase
  path : List Text
  steps : List StepResult
  outcome : Outcome
  failedStep : Option Int
  deriving Repr, DecidableEq

structure CaseContext where
  id : Text
  case : MutationCase
  path : List Text
  deriving Repr, DecidableEq

/-- An error of a monitor callback.  It is known by its text, except for the signal
that the target has failed. -/
inductive CallbackError where
  | targetFailed (reason : Text)
  | other (text : Text)
  deriving Repr, DecidableEq

/-- The callbacks around a case. -/
structure Monitor (ω : Type) where
  before : CaseContext → Attempt CallbackError ω Unit
  after : CaseResult → Attempt CallbackError ω Unit
  fault : CaseResult → Attempt CallbackError ω Unit
  recover : CaseResult → Attempt CallbackError ω Bool
  check : Text → Bytes → Attempt CallbackError ω Bool

/-- The texts that derived `Debug` gives. -/
structure DebugText where
  error : CallbackError → Text
  outcome : Outcome → Text

structure StepContext where
  vars : Vars
  received : List Bytes
  request : Text

/-- A callback on an edge may write session variables, and may answer with data that
replaces the rendered request. -/
abbrev EdgeCallback (ω : Type) := StepContext → ω → (Option Bytes × Vars) × ω

/-- The arguments of `Runner::with_dialer` other than the paths. -/
structure Settings (ω : Type) where
  dial : Attempt TransportError ω (Channel ω)
  clock : Clock ω
  debug : DebugText
  policies : List (Text × ReadPolicy)
  receiveLimit : Int32
  receiveTimeout : Int32
  limit : Int32
  monitor : Monitor ω
  mode : CompiledRequest.Mode
  vars : Option Vars
  checkDataReceived : Bool
  receiveDataAfterFuzz : Bool
  ignoreConnectionReset : Bool
  ignoreConnectionAborted : Bool
  ignoreConnectionIssuesWhenSendingFuzzData : Bool
  restartThreshold : Option Int
  restartTimeoutMs : Option Int
  restartSleepMs : Int
  sleepBetweenMs : Int
  crashThresholdRequest : Int
  crashThresholdElement : Int
  start : Int32
  endIndex : Option Int32
  udpServer : Bool

def transportOutcome : TransportError → Outcome
  | .invalidConfiguration message => .configurationFailed message
  | .connectFailure code => .connectFailed code
  | .sendFailure code => .sendFailed code
  | .receiveFailure code => .receiveFailed code
  | .timeout .connect => .connectTimedOut
  | .timeout .send => .sendTimedOut
  | .timeout .receive => .receiveTimedOut
  | .datagramTooLarge => .datagramTooLarge

/-- Whether an outcome counts as a failure of the case. -/
def isFailure : Outcome → Bool
  | .passed | .connectionIgnored _ | .callbackFailed _ | .receiveTimedOut
  | .peerClosed => false
  | _ => true

/-- The connection was never established.  The receive before the first send of a UDP
server shares the failed step, but not the outcomes. -/
def isDialFailure (result : CaseResult) : Bool :=
  result.failedStep == some (-1) &&
    match result.outcome with
    | .connectFailed _ | .connectTimedOut => true
    | _ => false

namespace Settings

variable {ω : Type}

def report (path : SessionPath (EdgeCallback ω)) (case : MutationCase)
    (steps : List StepResult) (outcome : Outcome) (failedStep : Option Int) :
    CaseResult where
  id := path.caseId case
  case := case
  path := path.names
  steps := steps
  outcome := outcome
  failedStep := failedStep

structure Exchange where
  steps : List StepResult
  receivedAll : List Bytes
  vars : Vars
  pending : Bytes

/-- Whether a failed send only means that the target dropped the connection, and is
to be ignored. -/
def ignoresSend (settings : Settings ω) (fuzzNode : Bool) (error : TransportError) :
    Bool :=
  match error with
  | .sendFailure code =>
      match classifySocketFailure code with
      | .reset =>
          if fuzzNode then settings.ignoreConnectionIssuesWhenSendingFuzzData
          else settings.ignoreConnectionReset
      | .aborted =>
          if fuzzNode then settings.ignoreConnectionIssuesWhenSendingFuzzData
          else settings.ignoreConnectionAborted
      | _ => false
  | _ => false

/-- The bytes to send at a step: the edge callback runs first and may replace them. -/
def stepBytes (request : CompiledRequest) (transition : Option (EdgeCallback ω))
    (parts : Option (List (Text × Nat))) (exchange : Exchange) (fuel : Nat) :
    Act ModelError ω (Bytes × Vars) := do
  let (replacement, vars) ←
    match transition with
    | some callback => Act.perform (callback
        ⟨exchange.vars, exchange.receivedAll, request.name⟩)
    | none => pure (none, exchange.vars)
  let rendered ← Act.ofEval (match parts with
    | some parts => request.renderCase parts (some vars) fuel
    | none => request.renderWith (some vars) fuel)
  match replacement with
  | some data => pure (if 0 < data.length then data else rendered, vars)
  | none => pure (rendered, vars)

/-- The classification of a failed receive. -/
def readFailure : TransportError → ReadOutcome
  | .timeout .receive => .timedOut
  | .receiveFailure code =>
      match classifySocketFailure code with
      | .reset | .aborted => .resetAborted code
      | _ => .failed (.receiveFailure code)
  | error => .failed error

/-- The receive stage: its classified result, the received bytes and the bytes that
are left for the next step. -/
def receiveStage (settings : Settings ω) (channel : Channel ω) (policy : ReadPolicy)
    (fuzzNode : Bool) (pending : Bytes) (fuel : Nat) :
    Act ModelError ω (ReadOutcome × Bytes × Bytes) :=
  if policy = .noResponse then
    if fuzzNode && settings.receiveDataAfterFuzz then do
      let answer ← Act.perform (channel.receive settings.receiveLimit.toInt
        settings.receiveTimeout.toInt)
      match answer with
      | .error error => pure (readFailure error, [], pending)
      | .ok .closed => pure (.closed, [], pending)
      | .ok (.data bytes) => pure (.complete, bytes, pending)
    else pure (.complete, [], pending)
  else do
    let response ← readResponse channel settings.clock policy pending
      settings.receiveLimit.toInt settings.receiveTimeout.toInt fuel
    match response.completed with
    | .error error => pure (readFailure error, response.received, response.pending)
    | .ok true => pure (.complete, response.received, response.pending)
    | .ok false => pure (.closed, response.received, response.pending)

def readOutcome (settings : Settings ω) (index : Nat) (received : Bytes) :
    ReadOutcome → Option Outcome
  | .complete => none
  | .timedOut => some (upgrade .receiveTimedOut)
  | .closed => some (upgrade .peerClosed)
  | .resetAborted code => some (upgrade (.connectionIgnored
      (Text.ofAscii "receive reset (" ++ Text.integer code ++ Text.ofAscii ") at step " ++
        Text.decimal index)))
  | .failed error => some (transportOutcome error)
where
  /-- An empty read is a failure when data is asked for. -/
  upgrade (outcome : Outcome) : Outcome :=
    if settings.checkDataReceived && received.isEmpty then .nothingReceived else outcome

/-- One request of a case: the result that ends the case, or what the next request
starts from. -/
def executeStep (settings : Settings ω) (channel : Channel ω)
    (path : SessionPath (EdgeCallback ω)) (case : MutationCase) (index : Nat)
    (request : CompiledRequest) (transition : Option (EdgeCallback ω))
    (fuzzNode : Bool) (exchange : Exchange) (fuel : Nat) :
    Act ModelError ω (CaseResult ⊕ Exchange) := do
  let parts := if fuzzNode then some case.parts else none
  let (bytes, vars) ← stepBytes request transition parts exchange fuel
  let policy := (settings.policies.lookup request.name).getD .noResponse
  match ← Act.perform (channel.send bytes) with
  | .error error => do
      let accepted ← Act.perform fun world => (channel.lastSentLen world, world)
      let steps := exchange.steps ++
        [⟨request.name, bytes.take accepted.toNat, [], false⟩]
      let outcome := if settings.ignoresSend fuzzNode error then
          .connectionIgnored
            (Text.ofAscii "send reset/aborted at step " ++ Text.decimal index)
        else transportOutcome error
      pure (.inl (report path case steps outcome (some index)))
  | .ok () => do
      let (read, received, pending) ←
        settings.receiveStage channel policy fuzzNode exchange.pending fuel
      let record (completed : Bool) : List StepResult :=
        exchange.steps ++ [⟨request.name, bytes, received, completed⟩]
      match settings.readOutcome index received read with
      | some outcome =>
          pure (.inl (report path case (record false) outcome (some index)))
      | none => do
          match ← Act.perform (settings.monitor.check request.name received) with
          | .error error =>
              pure (.inl (report path case (record false)
                (.callbackFailed (Text.ofAscii "response check: " ++
                  settings.debug.error error)) (some index)))
          | .ok false =>
              pure (.inl (report path case (record false) .responseMismatch
                (some index)))
          | .ok true =>
              pure (.inr ⟨record true, exchange.receivedAll ++ [received], vars,
                pending⟩)

def executeSteps (settings : Settings ω) (channel : Channel ω)
    (path : SessionPath (EdgeCallback ω)) (case : MutationCase) (fuel : Nat) :
    Nat → List CompiledRequest → List (Option (EdgeCallback ω)) → Exchange →
      Act ModelError ω CaseResult
  | _, [], _, exchange => pure (report path case exchange.steps .passed none)
  | index, request :: rest, transitions, exchange => do
      match ← settings.executeStep channel path case index request
          (transitions.head?.join) rest.isEmpty exchange fuel with
      | .inl result => pure result
      | .inr exchange =>
          settings.executeSteps channel path case fuel (index + 1) rest
            transitions.tail exchange

/-- `execute`. -/
def execute (settings : Settings ω) (path : SessionPath (EdgeCallback ω))
    (case : MutationCase) (fuel : Nat) : Act ModelError ω CaseResult := do
  match ← Act.perform (settings.monitor.before ⟨path.caseId case, case, path.names⟩) with
  | .error error =>
      pure (report path case []
        (.callbackFailed (Text.ofAscii "before: " ++ settings.debug.error error)) none)
  | .ok () => do
      match ← Act.perform settings.dial with
      | .error error => pure (report path case [] (transportOutcome error) (some (-1)))
      | .ok channel =>
          let exchange : Exchange := ⟨[], [], settings.vars.getD [], []⟩
          let run := settings.executeSteps channel path case fuel 0 path.requests
            path.transitions exchange
          Act.deferring (do
            if settings.udpServer then
              -- A server answers a request of its peer, which is not recorded.
              match ← Act.perform (channel.receive settings.receiveLimit.toInt
                  settings.receiveTimeout.toInt) with
              | .error error =>
                  pure (report path case [] (transportOutcome error) (some (-1)))
              | .ok _ => run
            else run) channel.close

end Settings

end MoonBoofuzz
