import MoonBoofuzz.Records.Record
import MoonBoofuzz.Runner.Run
import MoonBoofuzz.Runner.Steps

namespace MoonBoofuzz

namespace Outcome

def name : Outcome → Text
  | .passed => Text.ofAscii "passed"
  | .connectFailed _ => Text.ofAscii "connect_failed"
  | .sendFailed _ => Text.ofAscii "send_failed"
  | .receiveFailed _ => Text.ofAscii "receive_failed"
  | .connectTimedOut => Text.ofAscii "connect_timeout"
  | .sendTimedOut => Text.ofAscii "send_timeout"
  | .receiveTimedOut => Text.ofAscii "receive_timeout"
  | .configurationFailed _ => Text.ofAscii "configuration_failed"
  | .datagramTooLarge => Text.ofAscii "datagram_too_large"
  | .peerClosed => Text.ofAscii "peer_closed"
  | .responseMismatch => Text.ofAscii "response_mismatch"
  | .callbackFailed _ => Text.ofAscii "callback_failed"
  | .monitorFailed _ => Text.ofAscii "monitor_failed"
  | .recoveryFailed _ => Text.ofAscii "recovery_failed"
  | .nothingReceived => Text.ofAscii "nothing_received"
  | .connectionIgnored _ => Text.ofAscii "connection_ignored"

theorem name_mem (outcome : Outcome) : outcome.name ∈ CaseRecord.outcomes := by
  cases outcome <;> simp only [name] <;> decide +kernel

theorem name_eq_passed {outcome : Outcome} :
    outcome.name = Text.ofAscii "passed" ↔ outcome = .passed := by
  constructor
  · intro hname
    cases outcome <;> simp only [name] at hname <;>
      first | rfl | exact absurd hname (by decide +kernel)
  · rintro rfl
    rfl

end Outcome

def StepResult.recorded (step : StepResult) : RecordedStep :=
  ⟨step.requestName, step.sent, step.received, step.completed⟩

namespace Settings

variable {ω : Type}

def policyConfig (policies : List (Text × ReadPolicy)) : Json :=
  .object (policies.map fun entry => (entry.1, match entry.2 with
    | .noResponse => .object [(Text.ofAscii "kind", .string (Text.ofAscii "none"))]
    | .fixed length => .object [(Text.ofAscii "kind", .string (Text.ofAscii "fixed")),
        (Text.ofAscii "length", .number (Text.integer length))]
    | .untilDelimiter delimiter =>
        .object [(Text.ofAscii "kind", .string (Text.ofAscii "until")),
          (Text.ofAscii "delimiter_hex", .string (Bytes.hexEncode delimiter))]
    | .datagram => .object [(Text.ofAscii "kind", .string (Text.ofAscii "datagram"))]))

/-- The execution settings that `Runner::with_dialer` keeps for the records. -/
def config (settings : Settings ω) : Json :=
  .object
    [(Text.ofAscii "transport", .string (Text.ofAscii "custom")),
     (Text.ofAscii "max_receive", .number (Text.integer settings.receiveLimit.toInt)),
     (Text.ofAscii "receive_timeout_ms",
       .number (Text.integer settings.receiveTimeout.toInt)),
     (Text.ofAscii "policies", policyConfig settings.policies),
     (Text.ofAscii "case_limit", .number (Text.integer settings.limit.toInt))]

/-- `Runner::record`. -/
def record (settings : Settings ω) (result : CaseResult) : CaseRecord where
  formatVersion := 1
  caseId := result.id
  generatorVersion := Text.ofAscii "moon-boofuzz-v1"
  requestName := result.case.requestName
  fieldPath := result.case.fieldPath
  mutationIndex := result.case.mutationIndex
  ordinal := result.case.ordinal
  path := result.path
  config := settings.config
  steps := result.steps.map StepResult.recorded
  outcome := result.outcome.name
  detail := settings.debug.outcome result.outcome
  failedStep := result.failedStep

end Settings

end MoonBoofuzz
