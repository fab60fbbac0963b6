import MoonBoofuzz.Db.Reader

namespace MoonBoofuzz

namespace CaseRecord

/-- Whether a record counts as a failure of the target. -/
def reported (record : CaseRecord) : Bool :=
  decide (record.outcome ≠ passedName ∧ record.failedStep ≠ some (-1))

def verdict (record : CaseRecord) : Text :=
  if record.outcome = passedName then Text.ofAscii "pass"
  else if record.failedStep = some (-1) then Text.ofAscii "error"
  else Text.ofAscii "fail"

def stepCases (step : RecordedStep) : List DbStep :=
  [⟨Text.ofAscii "step", step.requestName, [], [], false⟩,
    ⟨sendKind, [], step.sent, [], false⟩,
    ⟨Text.ofAscii "receive", [], step.received, [], false⟩]

def recordCase (record : CaseRecord) : DbCase :=
  ⟨record.requestName, record.ordinal, [],
    record.steps.flatMap stepCases ++ [⟨record.verdict, record.detail, [], [], false⟩]⟩

end CaseRecord

def addFailure (map : FailureMap) (record : CaseRecord) : FailureMap :=
  if record.reported then map.add record.ordinal record.detail else map

def jsonlFailures (records : List CaseRecord) : FailureMap :=
  records.foldl addFailure []

/-- What `LiveSession` keeps of the records it has seen. -/
structure LiveSession where
  executed : Nat
  currentName : Text
  failures : FailureMap
  cases : List (Int × CaseRecord)
  /-- Whether the details are read from a database. -/
  hasReader : Bool

namespace LiveSession

def put (ordinal : Int) (record : CaseRecord) :
    List (Int × CaseRecord) → List (Int × CaseRecord)
  | [] => [(ordinal, record)]
  | (key, other) :: rest =>
      if key = ordinal then (key, record) :: rest
      else (key, other) :: put ordinal record rest

def new (hasReader : Bool) : LiveSession := ⟨0, [], [], [], hasReader⟩

def observe (session : LiveSession) (record : CaseRecord) : LiveSession where
  executed := session.executed + 1
  currentName := record.requestName
  failures := addFailure session.failures record
  cases := if session.hasReader then session.cases
    else put record.ordinal record session.cases
  hasReader := session.hasReader

def crashes (session : LiveSession) : FailureMap := session.failures

end LiveSession

end MoonBoofuzz
