import MoonBoofuzz.Records.Hex
import MoonBoofuzz.Runner.Endpoint

namespace MoonBoofuzz

/-! Reading the configuration of a run. -/

structure ExecutionConfig where
  endpoint : Endpoint
  udp : Bool
  udpServer : Bool
  udpBroadcast : Bool
  policies : List (Text × ReadPolicy)
  limit : Int32
  combinatorial : Bool
  maxDepth : Option Int32
  vars : List (Text × Bytes)
  checkDataReceived : Bool
  receiveDataAfterFuzz : Bool
  ignoreConnectionReset : Bool
  ignoreConnectionAborted : Bool
  ignoreConnectionIssuesWhenSendingFuzzData : Bool
  restartThreshold : Option Int32
  restartTimeoutMs : Option Int32
  restartSleepMs : Int32
  sleepBetweenMs : Int32
  crashThresholdRequest : Int32
  crashThresholdElement : Int32
  targetCommand : Option Text
  targetStartDelayMs : Int32
  targetStopDelayMs : Int32
  filePath : Option Text
  deriving Repr, DecidableEq

inductive ConfigError where
  | run (error : RunError)
  | record (error : RecordError)
  | transport (error : TransportError)
  /-- `from_json` met a value of another kind. -/
  | decode
  deriving Repr, DecidableEq

namespace ExecutionConfig

def noCaseLimit : Int32 := 2147483647

def invalid (message : Text) : Except ConfigError α := .error (.run (.invalid message))

def decoded : Option α → Except ConfigError α
  | some value => .ok value
  | none => .error .decode

def keys : List Text :=
  ["transport", "endpoint", "policies", "case_limit", "combinatorial", "max_depth",
    "variables", "check_data_received", "receive_data_after_fuzz", "sleep_between_ms",
    "crash_threshold_request", "crash_threshold_element", "ignore_connection_reset",
    "target_command", "target_start_delay_ms", "target_stop_delay_ms", "path",
    "ignore_connection_aborted", "ignore_connection_issues_when_sending_fuzz_data",
    "restart_threshold", "restart_timeout_ms", "restart_sleep_ms", "udp_server",
    "udp_broadcast"].map Text.ofAscii

/-- `boolean_json_or`; `boolean_json` has the default `false`. -/
def booleanJson (json : Json) (name : String) (default : Bool) : Except ConfigError Bool :=
  match json.field (Text.ofAscii name) with
  | some flag => decoded flag.toBool
  | none => .ok default

def jsonInt (reader : IntReader) (json : Json) (name : String) (default : Int32) :
    Except ConfigError Int32 :=
  match json.field (Text.ofAscii name) with
  | some item => decoded (item.toInt reader)
  | none => .ok default

/-- A number that may be left out but must be at least `least`. -/
def optionalInt (reader : IntReader) (json : Json) (name : String) (least : Int)
    (refusal : Text) : Except ConfigError (Option Int32) :=
  match json.field (Text.ofAscii name) with
  | some item => do
      let parsed ← decoded (item.toInt reader)
      if least ≤ parsed.toInt then .ok (some parsed) else invalid refusal
  | none => .ok none

/-- A threshold of zero means none. -/
def restartThresholdConfig (reader : IntReader) (json : Json) :
    Except ConfigError (Option Int32) := do
  let threshold ← optionalInt reader json "restart_threshold" 0
    (Text.ofAscii "negative restart_threshold")
  if threshold = some 0 then .ok none else .ok threshold

def optionalText (json : Json) (name : String) : Except ConfigError (Option Text) :=
  match json.field (Text.ofAscii name) with
  | some item => do
      let parsed ← decoded item.toText
      if parsed ≠ [] then .ok (some parsed)
      else invalid (Text.ofAscii name ++ Text.ofAscii " must not be empty")
  | none => .ok none

def parseKind (json : Json) : Except ConfigError Text :=
  match json.field (Text.ofAscii "transport") with
  | some (.string kind) =>
      if kind = Text.ofAscii "tcp" ∨ kind = Text.ofAscii "udp" ∨
          kind = Text.ofAscii "file" then .ok kind
      else invalid (Text.ofAscii "unsupported recorded transport: " ++ kind)
  | _ => invalid (Text.ofAscii "execution config requires transport and endpoint")

def parseFilePath (json : Json) (kind : Text) : Except ConfigError (Option Text) :=
  if kind = Text.ofAscii "file" then
    match json.field (Text.ofAscii "path") with
    | some item => do
        let path ← decoded item.toText
        if path ≠ [] then .ok (some path)
        else invalid (Text.ofAscii "file path must not be empty")
    | none => invalid (Text.ofAscii "file transport requires path")
  else .ok none

def lift (result : Except ε α) (wrap : ε → ConfigError) : Except ConfigError α :=
  result.mapError wrap

def parseEndpoint (reader : EndpointReader) (json : Json) (kind : Text) (server : Bool) :
    Except ConfigError Endpoint :=
  if kind = Text.ofAscii "file" then
    -- The file dialer does not look at it.
    lift (Endpoint.new (Text.ofAscii "file") 1 5000 5000 5000 65536 false) .transport
  else
    match json.field (Text.ofAscii "endpoint") with
    | some endpoint => do
        lift (endpoint.requireKeys WireEndpoint.keys) .record
        let wire ← decoded (reader.endpoint endpoint)
        lift (Endpoint.new wire.host wire.port (wire.connectTimeoutMs.getD 5000)
          (wire.sendTimeoutMs.getD 5000) (wire.receiveTimeoutMs.getD 5000)
          (wire.maxReceive.getD 65536) server) .transport
    | none => invalid (Text.ofAscii "execution config requires transport and endpoint")

def parseLimit (reader : IntReader) (json : Json) : Except ConfigError Int32 := do
  let limit ← jsonInt reader json "case_limit" noCaseLimit
  if 0 ≤ limit.toInt then .ok limit else invalid (Text.ofAscii "negative case limit")

def requirePolicyKeys (policy : Json) (names : List String) : Except ConfigError Unit :=
  lift (policy.requireKeys (names.map Text.ofAscii)) .record

def parsePolicy (reader : IntReader) (policy : Json) : Except ConfigError ReadPolicy :=
  match policy.field (Text.ofAscii "kind") with
  | some (.string kind) =>
      if kind = Text.ofAscii "none" then do
        requirePolicyKeys policy ["kind"]
        .ok .noResponse
      else if kind = Text.ofAscii "datagram" then do
        requirePolicyKeys policy ["kind"]
        .ok .datagram
      else if kind = Text.ofAscii "fixed" then do
        requirePolicyKeys policy ["kind", "length"]
        match policy.field (Text.ofAscii "length") with
        | some length => do
            let parsed ← decoded (length.toInt reader)
            .ok (.fixed parsed.toInt)
        | none => invalid (Text.ofAscii "missing fixed length")
      else if kind = Text.ofAscii "until" then do
        requirePolicyKeys policy ["kind", "delimiter_hex"]
        match policy.field (Text.ofAscii "delimiter_hex") with
        | some (.string hex) => do
            let delimiter ← lift (Bytes.hexDecode hex) .record
            .ok (.untilDelimiter delimiter)
        | _ => invalid (Text.ofAscii "missing delimiter hex")
      else invalid (Text.ofAscii "unsupported read policy: " ++ kind)
  | _ => invalid (Text.ofAscii "missing read policy kind")

/-- Whether a policy fits the transport. -/
def checkTransport (kind : Text) (policy : ReadPolicy) : Except ConfigError Unit :=
  if kind = Text.ofAscii "udp" → policy = .datagram ∨ policy = .noResponse then
    if kind = Text.ofAscii "tcp" → policy ≠ .datagram then
      if kind = Text.ofAscii "file" → policy = .noResponse then .ok ()
      else invalid (Text.ofAscii "file transport requires none read policies")
    else invalid (Text.ofAscii "TCP cannot use datagram policy")
  else invalid (Text.ofAscii "UDP requires datagram read policy")

def parsePolicies (reader : IntReader) (kind : Text) (receiveLimit : Int) :
    List (Text × Json) → Except ConfigError (List (Text × ReadPolicy))
  | [] => .ok []
  | (name, policy) :: rest => do
      let parsed ← parsePolicy reader policy
      lift (validatePolicy parsed receiveLimit) .run
      checkTransport kind parsed
      let policies ← parsePolicies reader kind receiveLimit rest
      .ok ((name, parsed) :: policies)

def policiesConfig (reader : IntReader) (json : Json) (kind : Text) (receiveLimit : Int) :
    Except ConfigError (List (Text × ReadPolicy)) :=
  match json.field (Text.ofAscii "policies") with
  | some (.object fields) => parsePolicies reader kind receiveLimit fields
  | some _ => invalid (Text.ofAscii "policies must be an object")
  | none => .ok []

def parseVars : List (Text × Json) → Except ConfigError (List (Text × Bytes))
  | [] => .ok []
  | (name, item) :: rest => do
      let hex ← decoded item.toText
      let value ← lift (Bytes.hexDecode hex) .record
      let vars ← parseVars rest
      .ok ((name, value) :: vars)

def varsConfig (json : Json) : Except ConfigError (List (Text × Bytes)) :=
  match json.field (Text.ofAscii "variables") with
  | some (.object fields) => parseVars fields
  | some _ => invalid (Text.ofAscii "variables must be an object")
  | none => .ok []

/-- `ExecutionConfig::parse`. -/
def parse (reader : EndpointReader) (json : Json) : Except ConfigError ExecutionConfig := do
  lift (json.requireKeys keys) .record
  let kind ← parseKind json
  let filePath ← parseFilePath json kind
  let server ← booleanJson json "udp_server" false
  let broadcast ← booleanJson json "udp_broadcast" false
  if kind = Text.ofAscii "udp" ∨ (server = false ∧ broadcast = false) then pure ()
  else invalid (Text.ofAscii "udp_server/udp_broadcast require the udp transport")
  if server = false ∨ broadcast = false then pure ()
  else invalid (Text.ofAscii "udp_server and udp_broadcast are mutually exclusive")
  let endpoint ← parseEndpoint reader json kind server
  let limit ← parseLimit reader.toIntReader json
  let policies ← policiesConfig reader.toIntReader json kind endpoint.maxReceive.toInt
  let combinatorial ← booleanJson json "combinatorial" true
  let maxDepth ← optionalInt reader.toIntReader json "max_depth" 1
    (Text.ofAscii "max_depth must be at least 1")
  let vars ← varsConfig json
  let checkDataReceived ← booleanJson json "check_data_received" false
  let receiveDataAfterFuzz ← booleanJson json "receive_data_after_fuzz" false
  let ignoreConnectionReset ← booleanJson json "ignore_connection_reset" false
  let ignoreConnectionAborted ← booleanJson json "ignore_connection_aborted" false
  let ignoreConnectionIssuesWhenSendingFuzzData ←
    booleanJson json "ignore_connection_issues_when_sending_fuzz_data" true
  let restartThreshold ← restartThresholdConfig reader.toIntReader json
  let restartTimeoutMs ← optionalInt reader.toIntReader json "restart_timeout_ms" 1
    (Text.ofAscii "restart_timeout_ms must be positive")
  let restartSleepMs ← jsonInt reader.toIntReader json "restart_sleep_ms" 5000
  let sleepBetweenMs ← jsonInt reader.toIntReader json "sleep_between_ms" 0
  let crashThresholdRequest ← jsonInt reader.toIntReader json "crash_threshold_request" 12
  let crashThresholdElement ← jsonInt reader.toIntReader json "crash_threshold_element" 3
  let targetCommand ← optionalText json "target_command"
  let targetStartDelayMs ← jsonInt reader.toIntReader json "target_start_delay_ms" 1000
  let targetStopDelayMs ← jsonInt reader.toIntReader json "target_stop_delay_ms" 500
  .ok {
    endpoint := endpoint
    udp := kind = Text.ofAscii "udp"
    udpServer := server
    udpBroadcast := broadcast
    policies := policies
    limit := limit
    combinatorial := combinatorial
    maxDepth := maxDepth
    vars := vars
    checkDataReceived := checkDataReceived
    receiveDataAfterFuzz := receiveDataAfterFuzz
    ignoreConnectionReset := ignoreConnectionReset
    ignoreConnectionAborted := ignoreConnectionAborted
    ignoreConnectionIssuesWhenSendingFuzzData := ignoreConnectionIssuesWhenSendingFuzzData
    restartThreshold := restartThreshold
    restartTimeoutMs := restartTimeoutMs
    restartSleepMs := restartSleepMs
    sleepBetweenMs := sleepBetweenMs
    crashThresholdRequest := crashThresholdRequest
    crashThresholdElement := crashThresholdElement
    targetCommand := targetCommand
    targetStartDelayMs := targetStartDelayMs
    targetStopDelayMs := targetStopDelayMs
    filePath := filePath }

end ExecutionConfig

end MoonBoofuzz
