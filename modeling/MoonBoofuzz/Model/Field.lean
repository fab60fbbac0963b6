import MoonBoofuzz.Data.Eval
import MoonBoofuzz.Data.Text

namespace MoonBoofuzz

inductive ModelError where
  | invalid (message : Text)
  | limit (message : Text)
  deriving Repr, DecidableEq

namespace ModelError

def invalidText (literal : String) : ModelError := .invalid (Text.ofAscii literal)

def limitText (literal : String) : ModelError := .limit (Text.ofAscii literal)

end ModelError

abbrev Run := Eval ModelError

/-- A field definition with indexed, on-demand mutation generation.  `candidate`
and `candidateLength` are meant for indices below `count`. -/
structure Field where
  value : Bytes
  count : Nat
  candidate : Nat → Bytes
  candidateLength : Nat → Int

namespace Field

/-- Appends user-supplied values after the built-in candidates, with continuous
mutation indices. -/
def withFuzzValues (base : Field) (extra : List Bytes) (fuzzable : Bool) : Field :=
  if !fuzzable || extra.isEmpty then base
  else
    { value := base.value
      count := base.count + extra.length
      candidate := fun i =>
        if i < base.count then base.candidate i
        else extra.getD (i - base.count) []
      candidateLength := fun i =>
        if i < base.count then base.candidateLength i
        else (extra.getD (i - base.count) []).length }

def simple (value : Bytes) (values : List Bytes) (fuzzable : Bool := true)
    (fuzzValues : List Bytes := []) : Field :=
  let saved := values ++ fuzzValues
  { value := value
    count := if fuzzable then saved.length else 0
    candidate := fun i => saved.getD i []
    candidateLength := fun i => (saved.getD i []).length }

def group (values : List Bytes) (default : Option Bytes := none)
    (fuzzable : Bool := true) (fuzzValues : List Bytes := []) :
    Except ModelError Field :=
  match values with
  | [] => .error (.invalidText "empty group")
  | first :: _ =>
      let value := default.getD first
      let base := simple value (values.erase value) fuzzable
      .ok (base.withFuzzValues fuzzValues fuzzable)

end Field

end MoonBoofuzz
