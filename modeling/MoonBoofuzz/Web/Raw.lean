import MoonBoofuzz.Data.Arrivals
import MoonBoofuzz.Data.Text

namespace MoonBoofuzz

namespace Web

/-! A connection of the raw server, as what its socket meets. -/

inductive WebError where
  | bindFailure (code : Int)
  | serveFailure (code : Int)
  deriving Repr, DecidableEq

abbrev RawConn := Arrivals WebError UInt8

namespace RawConn

def wait (conn : RawConn) : Except WebError Bool × RawConn := Arrivals.await conn

def recv (length offset : Nat) (conn : RawConn) : Except WebError Bytes × RawConn :=
  if offset ≤ length then
    if length - offset = 0 then (.ok [], conn) else Arrivals.receive (length - offset) conn
  else (.error (.serveFailure (-1)), conn)

theorem recv_eq {length offset : Nat} (hroom : offset < length) (conn : RawConn) :
    recv length offset conn = Arrivals.receive (length - offset) conn := by
  rw [recv, if_pos (Nat.le_of_lt hroom), if_neg (by omega)]

theorem recv_weight {length offset : Nat} {conn rest : RawConn} {bytes : Bytes}
    (hrecv : recv length offset conn = (.ok bytes, rest)) (hfilled : bytes ≠ []) :
    Arrivals.weight rest < Arrivals.weight conn := by
  unfold recv at hrecv
  split at hrecv
  · split at hrecv
    · obtain ⟨hbytes, -⟩ := Prod.mk.inj hrecv
      exact absurd (Except.ok.inj hbytes).symm hfilled
    · exact Arrivals.receive_weight hrecv hfilled
  · cases hrecv

end RawConn

end Web

end MoonBoofuzz
