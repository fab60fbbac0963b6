import MoonBoofuzz.Records.Fields
import MoonBoofuzz.Runner.Channel

namespace MoonBoofuzz

/-! The address of the target and the bounds on talking to it. -/

structure Endpoint where
  host : Text
  port : Int32
  connectTimeoutMs : Int32
  sendTimeoutMs : Int32
  receiveTimeoutMs : Int32
  maxReceive : Int32
  deriving Repr, DecidableEq

namespace Endpoint

/-- What `Endpoint::new` demands.  Only a UDP server may leave the host and the port
open. -/
structure Accepted (endpoint : Endpoint) (udpServer : Bool) : Prop where
  host : 0 ∉ endpoint.host ∧ (udpServer = true ∨ endpoint.host ≠ [])
  port : 0 ≤ endpoint.port.toInt ∧ endpoint.port.toInt ≤ 65535 ∧
    (udpServer = true ∨ 0 < endpoint.port.toInt)
  bounds : 0 < endpoint.connectTimeoutMs.toInt ∧ 0 < endpoint.sendTimeoutMs.toInt ∧
    0 < endpoint.receiveTimeoutMs.toInt ∧ 0 < endpoint.maxReceive.toInt ∧
    endpoint.maxReceive.toInt ≤ 1048576

def unexpected : TransportError :=
  .invalidConfiguration (Text.ofAscii "expected hostname/IPv4/IPv6 and port 1..65535")

/-- `Endpoint::new`. -/
def new (host : Text) (port connectTimeoutMs sendTimeoutMs receiveTimeoutMs
    maxReceive : Int32) (udpServer : Bool) : Except TransportError Endpoint :=
  if 0 ∉ host ∧ (udpServer = true ∨ host ≠ []) then
    if 0 ≤ port.toInt ∧ port.toInt ≤ 65535 ∧ (udpServer = true ∨ 0 < port.toInt) then
      if 0 < connectTimeoutMs.toInt ∧ 0 < sendTimeoutMs.toInt ∧
          0 < receiveTimeoutMs.toInt ∧ 0 < maxReceive.toInt ∧
          maxReceive.toInt ≤ 1048576 then
        .ok ⟨host, port, connectTimeoutMs, sendTimeoutMs, receiveTimeoutMs, maxReceive⟩
      else .error (.invalidConfiguration
        (Text.ofAscii "invalid timeout or receive bound (1..1048576)"))
    else .error unexpected
  else .error unexpected

/-- `retarget`. -/
def retarget (endpoint : Endpoint) (host : Text) (port : Int32) :
    Except TransportError Endpoint :=
  new host port endpoint.connectTimeoutMs endpoint.sendTimeoutMs
    endpoint.receiveTimeoutMs endpoint.maxReceive false

def toJson (endpoint : Endpoint) : Json :=
  .object
    [(Text.ofAscii "host", .string endpoint.host),
     (Text.ofAscii "port", .ofInt endpoint.port),
     (Text.ofAscii "connect_timeout_ms", .ofInt endpoint.connectTimeoutMs),
     (Text.ofAscii "send_timeout_ms", .ofInt endpoint.sendTimeoutMs),
     (Text.ofAscii "receive_timeout_ms", .ofInt endpoint.receiveTimeoutMs),
     (Text.ofAscii "max_receive", .ofInt endpoint.maxReceive)]

theorem new_ok {host : Text} {port connectTimeoutMs sendTimeoutMs receiveTimeoutMs
    maxReceive : Int32} {udpServer : Bool} {endpoint : Endpoint} :
    new host port connectTimeoutMs sendTimeoutMs receiveTimeoutMs maxReceive udpServer =
        .ok endpoint ↔
      endpoint = ⟨host, port, connectTimeoutMs, sendTimeoutMs, receiveTimeoutMs,
        maxReceive⟩ ∧ endpoint.Accepted udpServer := by
  unfold new
  constructor
  · intro hnew
    split at hnew
    · rename_i hhost
      split at hnew
      · rename_i hport
        split at hnew
        · rename_i hbounds
          cases hnew
          exact ⟨rfl, hhost, hport, hbounds⟩
        · cases hnew
      · cases hnew
    · cases hnew
  · rintro ⟨rfl, haccepted⟩
    rw [if_pos haccepted.host, if_pos haccepted.port, if_pos haccepted.bounds]

end Endpoint

structure WireEndpoint where
  host : Text
  port : Int32
  connectTimeoutMs : Option Int32
  sendTimeoutMs : Option Int32
  receiveTimeoutMs : Option Int32
  maxReceive : Option Int32
  deriving Repr, DecidableEq

namespace WireEndpoint

def keys : List Text :=
  ["host", "port", "connect_timeout_ms", "send_timeout_ms", "receive_timeout_ms",
    "max_receive"].map Text.ofAscii

end WireEndpoint

structure EndpointReader extends IntReader where
  endpoint : Json → Option WireEndpoint
  /-- The reader undoes the writer. -/
  endpoint_toJson : ∀ endpoint' : Endpoint, endpoint endpoint'.toJson = some
    ⟨endpoint'.host, endpoint'.port, some endpoint'.connectTimeoutMs,
      some endpoint'.sendTimeoutMs, some endpoint'.receiveTimeoutMs,
      some endpoint'.maxReceive⟩

namespace EndpointReader

def optional (json : Json) (name : Text) : Option (Option Int32) :=
  match json.field name with
  | some value => (value.toInt .plain).map some
  | none => some none

def plain : EndpointReader where
  toIntReader := .plain
  endpoint json := do
    let host ← (json.field (Text.ofAscii "host")).bind Json.toText
    let port ← (json.field (Text.ofAscii "port")).bind (Json.toInt .plain)
    let connect ← optional json (Text.ofAscii "connect_timeout_ms")
    let send ← optional json (Text.ofAscii "send_timeout_ms")
    let receive ← optional json (Text.ofAscii "receive_timeout_ms")
    let maxReceive ← optional json (Text.ofAscii "max_receive")
    some ⟨host, port, connect, send, receive, maxReceive⟩
  endpoint_toJson endpoint := by
    have hport : (endpoint.toJson.field (Text.ofAscii "port")).bind (Json.toInt .plain) =
        some endpoint.port :=
      Json.toInt_ofInt .plain endpoint.port
    have hoptional : ∀ name value, endpoint.toJson.field name = some (.ofInt value) →
        optional endpoint.toJson name = some (some value) := by
      intro name value hfield
      rw [optional, hfield]
      exact congrArg (Option.map some) (Json.toInt_ofInt .plain value)
    rw [hport, hoptional _ endpoint.connectTimeoutMs rfl,
      hoptional _ endpoint.sendTimeoutMs rfl, hoptional _ endpoint.receiveTimeoutMs rfl,
      hoptional _ endpoint.maxReceive rfl]
    rfl

end EndpointReader

end MoonBoofuzz
