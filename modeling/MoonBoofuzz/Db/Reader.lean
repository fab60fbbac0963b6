import MoonBoofuzz.Db.Logger

namespace MoonBoofuzz

structure DbStep where
  stepType : Text
  description : Text
  data : Bytes
  timestamp : Text
  truncated : Bool
  deriving Repr, DecidableEq

structure DbCase where
  name : Text
  index : Int
  timestamp : Text
  steps : List DbStep
  deriving Repr, DecidableEq

inductive DbError where
  | noSuchCase (index : Int)
  deriving Repr, DecidableEq

/-- Failure descriptions for each case, in insertion order. -/
abbrev FailureMap := List (Int × List Text)

def FailureMap.add (map : FailureMap) (index : Int) (description : Text) : FailureMap :=
  match map with
  | [] => [(index, [description])]
  | (key, descriptions) :: rest =>
      if key = index then (key, descriptions ++ [description]) :: rest
      else (key, descriptions) :: FailureMap.add rest index description

namespace Database

def readStep (row : StepsRow) : DbStep :=
  ⟨row.kind, row.description, row.data, row.timestamp, row.isTruncated⟩

def getTestCaseData (db : Database) (index : Int) : Except DbError DbCase :=
  match db.cases.filter fun row => row.number = index with
  | [] => .error (.noSuchCase index)
  | row :: _ => .ok ⟨row.name, index, row.timestamp,
      (db.steps.filter fun row => row.testCaseIndex = index).map readStep⟩

def failureMap (db : Database) : FailureMap :=
  (db.steps.filter fun row => row.kind = Text.ofAscii "fail").foldl
    (fun map row => map.add row.testCaseIndex row.description) []

end Database

end MoonBoofuzz
