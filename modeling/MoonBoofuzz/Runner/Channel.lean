import MoonBoofuzz.Data.Act
import MoonBoofuzz.Data.Machine
import MoonBoofuzz.Data.Search
import MoonBoofuzz.Model.Node

namespace MoonBoofuzz

inductive Phase where
  | connect
  | send
  | receive
  deriving Repr, DecidableEq

inductive TransportError where
  | invalidConfiguration (message : Text)
  | connectFailure (code : Int)
  | sendFailure (code : Int)
  | receiveFailure (code : Int)
  | timeout (phase : Phase)
  | datagramTooLarge
  deriving Repr, DecidableEq

inductive Received where
  | data (bytes : Bytes)
  | closed
  deriving Repr, DecidableEq

inductive SocketFailure where
  | reset
  | aborted
  | refused
  | timedOut
  | addressInUse
  | other
  deriving Repr, DecidableEq

def classifySocketFailure (code : Int) : SocketFailure :=
  if code ∈ [104, 102, 110, 32, 10054, 10052, 10060] then .reset
  else if code ∈ [103, 10053] then .aborted
  else if code ∈ [111, 115, 10061, 10036] then .refused
  else if code ∈ [11, 10035] then .timedOut
  else if code ∈ [98, 10048] then .addressInUse
  else .other

abbrev Attempt (ε ω α : Type) := ω → Except ε α × ω

structure Channel (ω : Type) where
  send : Bytes → Attempt TransportError ω Unit
  receive : Int → Int → Attempt TransportError ω Received
  lastSentLen : ω → Int
  close : ω → ω

/-- `monotonic_ms` and `sleep_ms`. -/
structure Clock (ω : Type) where
  monotonicMs : ω → Int × ω
  sleepMs : Int → ω → ω

inductive ReadPolicy where
  | noResponse
  | fixed (length : Int)
  | untilDelimiter (delimiter : Bytes)
  | datagram
  deriving Repr, DecidableEq

inductive RunError where
  | invalid (message : Text)
  deriving Repr, DecidableEq

def validatePolicy (policy : ReadPolicy) (limit : Int) : Except RunError Unit :=
  match policy with
  | .fixed length =>
      if 0 ≤ length ∧ length ≤ limit then .ok ()
      else .error (.invalid (Text.ofAscii "fixed response length exceeds bound"))
  | .untilDelimiter delimiter =>
      if delimiter ≠ [] ∧ delimiter.length ≤ limit then .ok ()
      else .error (.invalid (Text.ofAscii "invalid response delimiter"))
  | .noResponse => .ok ()
  | .datagram => .ok ()

inductive ReadOutcome where
  | complete
  | closed
  | timedOut
  | resetAborted (code : Int)
  | failed (error : TransportError)
  deriving Repr, DecidableEq

/-- The bytes that `read_response` has taken for its step and those it has left for
the next one, and whether the response is complete. -/
structure Response where
  received : Bytes
  pending : Bytes
  completed : Except TransportError Bool
  deriving Repr, DecidableEq

/-- The number of pending bytes that make up a response, once they are there. -/
def ReadPolicy.enough (policy : ReadPolicy) (pending : Bytes) : Option Nat :=
  match policy with
  | .fixed length => if length ≤ pending.length then some length.toNat else none
  | .untilDelimiter delimiter =>
      (Bytes.find pending delimiter).map fun i => i + delimiter.length
  | _ => none

/-- The loop of `read_response`. -/
def readLoop (channel : Channel ω) (clock : Clock ω) (policy : ReadPolicy)
    (deadline limit : Int) : Nat → Bytes → Act ModelError ω Response
  | 0, _ => Act.ofEval .pending
  | fuel + 1, pending =>
      match policy.enough pending with
      | some count => pure ⟨pending.take count, pending.drop count, .ok true⟩
      | none =>
          if pending.length < limit then do
            let now ← Act.perform clock.monotonicMs
            let left := wrap64 (deadline - now)
            if 0 < left then do
              let answer ← Act.perform (channel.receive (limit - pending.length)
                (wrap32 left))
              match answer with
              | .error error => pure ⟨pending, pending, .error error⟩
              | .ok .closed => pure ⟨pending, pending, .ok false⟩
              | .ok (.data bytes) =>
                  if bytes = [] then pure ⟨pending, pending, .ok false⟩
                  else readLoop channel clock policy deadline limit fuel (pending ++ bytes)
            else pure ⟨pending, pending, .error (.timeout .receive)⟩
          else pure ⟨pending, pending, .error (.invalidConfiguration
            (Text.ofAscii "response limit reached before delimiter"))⟩

/-- `read_response`. -/
def readResponse (channel : Channel ω) (clock : Clock ω) (policy : ReadPolicy)
    (pending : Bytes) (limit timeout : Int) (fuel : Nat) : Act ModelError ω Response :=
  match policy with
  | .noResponse => pure ⟨[], pending, .ok true⟩
  | .datagram => do
      let _ ← Act.perform clock.monotonicMs
      let answer ← Act.perform (channel.receive limit timeout)
      match answer with
      | .error error => pure ⟨[], pending, .error error⟩
      | .ok .closed => pure ⟨[], pending, .ok false⟩
      | .ok (.data bytes) => pure ⟨bytes, pending, .ok true⟩
  | policy => do
      let now ← Act.perform clock.monotonicMs
      readLoop channel clock policy (wrap64 (now + timeout)) limit fuel pending

end MoonBoofuzz
