import MoonBoofuzz.Runner.Schedule

namespace MoonBoofuzz

/-! What the crash thresholds are for: a process over the cases of the paths. -/

/-- The cases of a path that are to come, and the failures counted on it. -/
structure Segment (ω : Type) where
  path : SessionPath (EdgeCallback ω)
  cases : List MutationCase
  failures : Nat

/-- The segments that are to come and the failures counted on each element. -/
structure Reference (ω : Type) where
  queue : List (Segment ω)
  elements : Text → Nat

namespace Reference

variable {ω : Type}

def first : List (Segment ω) → Option (MutationCase × Segment ω × List (Segment ω))
  | [] => none
  | segment :: rest =>
      match segment.cases with
      | [] => first rest
      | case :: cases => some (case, { segment with cases := cases }, rest)

/-- The cases that are left of a path after a case that may have failed. -/
def remaining (settings : Settings ω) (failed : Bool) (element : Text)
    (elementTotal pathTotal : Nat) (cases : List MutationCase) : List MutationCase :=
  if failed then
    if settings.crashThresholdRequest ≤ pathTotal then []
    else if settings.crashThresholdElement ≤ elementTotal then
      cases.dropWhile fun case => case.fieldPath = element
    else cases
  else cases

def taken (settings : Settings ω) (state : Reference ω) (failed : Bool)
    (case : MutationCase) (segment : Segment ω) (rest : List (Segment ω)) : Reference ω where
  queue :=
    ⟨segment.path,
      remaining settings failed case.fieldPath
        (state.elements case.fieldPath + failed.toNat) (segment.failures + failed.toNat)
        segment.cases,
      segment.failures + failed.toNat⟩ :: rest
  elements element :=
    state.elements element + if element = case.fieldPath then failed.toNat else 0

def step (settings : Settings ω) (state : Reference ω) (failed : Bool) :
    Option ((SessionPath (EdgeCallback ω) × MutationCase) × Reference ω) :=
  match first state.queue with
  | none => none
  | some (case, segment, rest) =>
      some ((segment.path, case), taken settings state failed case segment rest)

/-- Takes as many cases as outcomes are given; each tells whether its case fails. -/
def process (settings : Settings ω) : Reference ω → List Bool →
    Option (List (SessionPath (EdgeCallback ω) × MutationCase) × Reference ω)
  | state, [] => some ([], state)
  | state, failed :: rest => do
      let (taken, middle) ← step settings state failed
      let (more, last) ← process settings middle rest
      some (taken :: more, last)

end Reference

end MoonBoofuzz
