import MoonBoofuzz.Runner.Config
import MoonBoofuzz.Runner.Record
import MoonBoofuzz.Runner.Replay

namespace MoonBoofuzz

/-! Runners over network connections, and the configuration they record. -/

structure Platform (ω : Type) where
  tcp : Endpoint → Attempt TransportError ω (Channel ω)
  udp : Endpoint → Attempt TransportError ω (Channel ω)
  udpServer : Endpoint → Attempt TransportError ω (Channel ω)
  udpBroadcast : Endpoint → Attempt TransportError ω (Channel ω)
  clock : Clock ω
  debug : DebugText

/-- The optional arguments of `Runner::new`. -/
structure Options (ω : Type) where
  udp : Bool
  udpServer : Bool
  udpBroadcast : Bool
  policies : List (Text × ReadPolicy)
  limit : Int32
  monitor : Monitor ω
  combinatorial : Bool
  maxDepth : Option Int32
  vars : Option Vars
  checkDataReceived : Bool
  receiveDataAfterFuzz : Bool
  ignoreConnectionReset : Bool
  ignoreConnectionAborted : Bool
  ignoreConnectionIssuesWhenSendingFuzzData : Bool
  restartThreshold : Option Int32
  restartTimeoutMs : Option Int32
  restartSleepMs : Int32
  sleepBetweenMs : Int32
  crashThresholdRequest : Int32
  crashThresholdElement : Int32
  start : Int32
  endIndex : Option Int32

namespace Options

variable {ω : Type}

def dial (options : Options ω) (platform : Platform ω) (endpoint : Endpoint) :
    Attempt TransportError ω (Channel ω) :=
  if options.udpServer then platform.udpServer endpoint
  else if options.udpBroadcast then platform.udpBroadcast endpoint
  else if options.udp then platform.udp endpoint
  else platform.tcp endpoint

def settings (options : Options ω) (platform : Platform ω) (endpoint : Endpoint) :
    Settings ω where
  dial := options.dial platform endpoint
  clock := platform.clock
  debug := platform.debug
  policies := options.policies
  receiveLimit := endpoint.maxReceive
  receiveTimeout := endpoint.receiveTimeoutMs
  limit := options.limit
  monitor := options.monitor
  mode := if options.combinatorial then .combinatorial (options.maxDepth.map Int32.toInt)
    else .sequential
  vars := options.vars
  checkDataReceived := options.checkDataReceived
  receiveDataAfterFuzz := options.receiveDataAfterFuzz
  ignoreConnectionReset := options.ignoreConnectionReset
  ignoreConnectionAborted := options.ignoreConnectionAborted
  ignoreConnectionIssuesWhenSendingFuzzData :=
    options.ignoreConnectionIssuesWhenSendingFuzzData
  restartThreshold := options.restartThreshold.map Int32.toInt
  restartTimeoutMs := options.restartTimeoutMs.map Int32.toInt
  restartSleepMs := options.restartSleepMs.toInt
  sleepBetweenMs := options.sleepBetweenMs.toInt
  crashThresholdRequest := options.crashThresholdRequest.toInt
  crashThresholdElement := options.crashThresholdElement.toInt
  start := options.start
  endIndex := options.endIndex
  udpServer := options.udpServer

def setting (name : String) (value default : Int32) : List (Text × Json) :=
  if value ≠ default then [(Text.ofAscii name, .ofInt value)] else []

def transport (options : Options ω) : Text :=
  if options.udpServer then Text.ofAscii "udp-server"
  else if options.udpBroadcast then Text.ofAscii "udp-broadcast"
  else if options.udp then Text.ofAscii "udp"
  else Text.ofAscii "tcp"

def enumeration (options : Options ω) : List (Text × Json) :=
  if options.combinatorial then
    (Text.ofAscii "combinatorial", .bool true) ::
      (options.maxDepth.map fun depth =>
        (Text.ofAscii "max_depth", Json.ofInt depth)).toList
  else []

def leading (options : Options ω) (endpoint : Endpoint) : List (Text × Json) :=
  [(Text.ofAscii "transport", .string options.transport),
    (Text.ofAscii "endpoint", endpoint.toJson),
    (Text.ofAscii "policies", Settings.policyConfig options.policies),
    (Text.ofAscii "case_limit", .ofInt options.limit)]

def configMap (options : Options ω) (endpoint : Endpoint) : List (Text × Json) :=
  options.leading endpoint ++ options.enumeration ++
  setting "sleep_between_ms" options.sleepBetweenMs 0 ++
  setting "crash_threshold_request" options.crashThresholdRequest 12 ++
  setting "crash_threshold_element" options.crashThresholdElement 3

end Options

namespace Runner

variable {ω : Type}

def checkKinds (udp : Bool) : List (Text × ReadPolicy) → Except RunError Unit
  | [] => .ok ()
  | (_, policy) :: rest =>
      if udp = false ∨ policy = .noResponse ∨ policy = .datagram then
        if udp = true ∨ policy ≠ .datagram then checkKinds udp rest
        else .error (.invalid (Text.ofAscii "Datagram policy requires UDP"))
      else .error (.invalid
        (Text.ofAscii "UDP requires NoResponse or Datagram policy"))

/-- A runner with the configuration it records. -/
structure Configured (ω : Type) where
  runner : Runner ω
  config : Json

/-- `Runner::new`. -/
def new (platform : Platform ω) (paths : List (SessionPath (EdgeCallback ω)))
    (endpoint : Endpoint) (options : Options ω) : Except RunError (Configured ω) := do
  checkKinds options.udp options.policies
  let runner ← withDialer paths (options.settings platform endpoint)
  .ok ⟨runner, .object (options.configMap endpoint)⟩

/-- `Runner::record`, with the configuration of `Runner::new`. -/
def Configured.record (self : Configured ω) (result : CaseResult) : CaseRecord :=
  { self.runner.settings.record result with config := self.config }

end Runner

namespace CaseRecord

variable {ω : Type}

def retarget (endpoint : Endpoint) :
    Option (Text × Int32) → Except TransportError Endpoint
  | some (host, port) => endpoint.retarget host port
  | none => .ok endpoint

/-- What `replay` runs the record under. -/
def replayConfig (config : ExecutionConfig) (endpoint : Endpoint) : ReplayConfig where
  policies := config.policies
  receiveLimit := endpoint.maxReceive.toInt
  receiveTimeout := endpoint.receiveTimeoutMs.toInt

/-- `replay`. -/
def replay (record : CaseRecord) (reader : EndpointReader) (platform : Platform ω)
    (overrideTarget : Option (Text × Int32)) (fuel : Nat) :
    Act ModelError ω (Except ConfigError ReplayResult) :=
  let prepared : Except ConfigError (ExecutionConfig × Endpoint) := do
    ExecutionConfig.lift record.validate .record
    let original ← ExecutionConfig.parse reader record.config
    let endpoint ← ExecutionConfig.lift (retarget original.endpoint overrideTarget)
      .transport
    .ok (original, endpoint)
  match prepared with
  | .error error => pure (.error error)
  | .ok (original, endpoint) => do
      let dial := if original.udp then platform.udp endpoint else platform.tcp endpoint
      let result ← record.replaySequence (replayConfig original endpoint) dial
        platform.clock fuel
      pure (ExecutionConfig.lift result .record)

end CaseRecord

end MoonBoofuzz
