import MoonBoofuzz.Data.Json

namespace MoonBoofuzz

structure RecordedStep where
  requestName : Text
  sent : Bytes
  received : Bytes
  completed : Bool
  deriving Repr, DecidableEq

structure CaseRecord where
  formatVersion : Int
  caseId : Text
  generatorVersion : Text
  requestName : Text
  fieldPath : Text
  mutationIndex : Int
  ordinal : Int
  path : List Text
  config : Json
  steps : List RecordedStep
  outcome : Text
  detail : Text
  failedStep : Option Int

inductive RecordError where
  | invalid (message : Text)
  | unsupportedVersion (version : Int)
  deriving Repr, DecidableEq

namespace CaseRecord

def invalid (message : String) : Except RecordError Unit :=
  .error (.invalid (Text.ofAscii message))

/-- The loop of `validate` over the steps from an index on. -/
def validateSteps (record : CaseRecord) : Nat → List RecordedStep → Except RecordError Unit
  | _, [] => .ok ()
  | index, step :: rest =>
      if step.requestName = record.path.getD index [] then
        if step.completed ∨ index = record.steps.length - 1 then
          record.validateSteps (index + 1) rest
        else invalid "execution continued after failed step"
      else invalid "recorded step/path mismatch"

def validateFailure (record : CaseRecord) : Except RecordError Unit :=
  match record.failedStep with
  | none => .ok ()
  | some index =>
      if -1 ≤ index ∧ index < record.steps.length then
        if index ≠ -1 ∨ record.steps = [] then .ok ()
        else invalid "connect failure has sent steps"
      else invalid "invalid failure step"

def outcomes : List Text :=
  ["passed", "connect_failed", "send_failed", "receive_failed", "connect_timeout",
    "send_timeout", "receive_timeout", "configuration_failed", "datagram_too_large",
    "peer_closed", "response_mismatch", "callback_failed", "monitor_failed",
    "recovery_failed", "nothing_received", "connection_ignored"].map Text.ofAscii

/-- `validate`. -/
def validate (record : CaseRecord) : Except RecordError Unit :=
  if record.formatVersion = 1 then
    if record.caseId ≠ [] ∧ record.generatorVersion ≠ [] ∧ record.requestName ≠ [] ∧
        record.fieldPath ≠ [] then
      if 0 ≤ record.mutationIndex ∧ 0 ≤ record.ordinal ∧
          record.path.getLast? = some record.requestName then
        if record.steps.length ≤ record.path.length then do
          record.validateSteps 0 record.steps
          record.validateFailure
          if record.outcome ∈ outcomes then
            if record.outcome = Text.ofAscii "passed" → record.failedStep = none ∧
                record.steps.length = record.path.length ∧
                ∀ step ∈ record.steps, step.completed = true then
              if record.config.isObject then .ok ()
              else invalid "execution config must be an object"
            else invalid "incomplete successful record"
          else invalid "unknown outcome"
        else invalid "too many recorded steps"
      else invalid "invalid case index or request path"
    else invalid "missing case identity"
  else .error (.unsupportedVersion record.formatVersion)

/-- The steps are those of the start of the path, and only the last one may have
failed. -/
def Aligned (record : CaseRecord) : Prop :=
  ∀ index step, record.steps[index]? = some step →
    record.path[index]? = some step.requestName ∧
      (step.completed = true ∨ index + 1 = record.steps.length)

structure Valid (record : CaseRecord) : Prop where
  version : record.formatVersion = 1
  caseId : record.caseId ≠ []
  generatorVersion : record.generatorVersion ≠ []
  requestName : record.requestName ≠ []
  fieldPath : record.fieldPath ≠ []
  mutationIndex : 0 ≤ record.mutationIndex
  ordinal : 0 ≤ record.ordinal
  path : record.path.getLast? = some record.requestName
  aligned : record.Aligned
  failure : ∀ index, record.failedStep = some index → -1 ≤ index ∧
    index < record.steps.length ∧ (index = -1 → record.steps = [])
  outcome : record.outcome ∈ outcomes
  passed : record.outcome = Text.ofAscii "passed" → record.failedStep = none ∧
    record.steps.length = record.path.length ∧
    ∀ step ∈ record.steps, step.completed = true
  config : record.config.isObject = true

theorem validateSteps_ok {record : CaseRecord} :
    ∀ {rest : List RecordedStep} {index : Nat}, record.steps.drop index = rest →
      index + rest.length = record.steps.length →
      record.steps.length ≤ record.path.length →
      (record.validateSteps index rest = .ok () ↔
        ∀ later step, index ≤ later → record.steps[later]? = some step →
          record.path[later]? = some step.requestName ∧
            (step.completed = true ∨ later + 1 = record.steps.length)) := by
  intro rest
  induction rest with
  | nil =>
      intro index _ hlength _
      simp only [validateSteps, true_iff]
      intro later step hle hstep
      have hlt := (List.getElem?_eq_some_iff.mp hstep).1
      simp only [List.length_nil] at hlength
      omega
  | cons step rest ih =>
      intro index hdrop hlength hpath
      simp only [List.length_cons] at hlength
      have hstep : record.steps[index]? = some step := by
        rw [← List.head?_drop, hdrop, List.head?_cons]
      have hdrop' : record.steps.drop (index + 1) = rest := by
        rw [← List.tail_drop, hdrop, List.tail_cons]
      have hname : step.requestName = record.path.getD index [] ↔
          record.path[index]? = some step.requestName := by
        rw [List.getD_eq_getElem?_getD, List.getElem?_eq_getElem (by omega)]
        simp [eq_comm]
      have hrest := ih hdrop' (by omega) hpath
      have hsplit : (∀ later other, index ≤ later → record.steps[later]? = some other →
            record.path[later]? = some other.requestName ∧
              (other.completed = true ∨ later + 1 = record.steps.length)) ↔
          (record.path[index]? = some step.requestName ∧
            (step.completed = true ∨ index + 1 = record.steps.length)) ∧
          ∀ later other, index + 1 ≤ later → record.steps[later]? = some other →
            record.path[later]? = some other.requestName ∧
              (other.completed = true ∨ later + 1 = record.steps.length) := by
        constructor
        · intro hall
          exact ⟨hall index step (le_refl _) hstep,
            fun later other hle => hall later other (by omega)⟩
        · rintro ⟨hhere, hlater⟩ later other hle hother
          rcases Nat.eq_or_lt_of_le hle with rfl | hlt
          · rw [hstep] at hother
            cases hother
            exact hhere
          · exact hlater later other hlt hother
      have hlast : index = record.steps.length - 1 ↔ index + 1 = record.steps.length := by
        omega
      rw [hsplit, ← hrest, ← hname, ← hlast, validateSteps]
      split
      · split
        · rename_i hnamed hcompleted
          simp [hnamed, hcompleted]
        · rename_i hnamed hcompleted
          simp [invalid, hcompleted]
      · rename_i hnamed
        simp only [invalid, reduceCtorEq, false_iff]
        exact fun h => hnamed h.1.1

theorem validateFailure_ok {record : CaseRecord} :
    record.validateFailure = .ok () ↔ ∀ index, record.failedStep = some index →
      -1 ≤ index ∧ index < record.steps.length ∧ (index = -1 → record.steps = []) := by
  unfold validateFailure
  cases record.failedStep with
  | none => simp
  | some index =>
      simp only [Option.some.injEq, forall_eq']
      split
      · split
        · rename_i hbounds hempty
          simp only [true_iff]
          exact ⟨hbounds.1, hbounds.2, fun hneg => hempty.resolve_left (by simpa)⟩
        · rename_i hbounds hempty
          push Not at hempty
          simp [invalid, hempty]
      · rename_i hbounds
        simp only [invalid, reduceCtorEq, false_iff]
        exact fun h => hbounds ⟨h.1, h.2.1⟩

theorem Aligned.length_le {record : CaseRecord} (haligned : record.Aligned) :
    record.steps.length ≤ record.path.length := by
  by_contra hlong
  have hlt : record.path.length < record.steps.length := by omega
  have hstep := (haligned record.path.length _ (List.getElem?_eq_getElem hlt)).1
  rw [List.getElem?_eq_none (le_refl _)] at hstep
  cases hstep

theorem validate_ok {record : CaseRecord} : record.validate = .ok () ↔ record.Valid := by
  have hsteps : record.steps.length ≤ record.path.length →
      (record.validateSteps 0 record.steps = .ok () ↔ record.Aligned) := by
    intro hle
    rw [validateSteps_ok (List.drop_zero) (Nat.zero_add _) hle]
    exact forall_congr' fun index => forall_congr' fun step => by simp
  constructor
  · intro hvalidate
    unfold validate at hvalidate
    split at hvalidate
    case isFalse => cases hvalidate
    rename_i hversion
    split at hvalidate
    case isFalse => cases hvalidate
    rename_i hidentity
    split at hvalidate
    case isFalse => cases hvalidate
    rename_i hindex
    split at hvalidate
    case isFalse => cases hvalidate
    rename_i hle
    cases hstep : record.validateSteps 0 record.steps with
    | error error =>
        rw [hstep] at hvalidate
        cases hvalidate
    | ok token =>
        rw [hstep] at hvalidate
        cases hfailure : record.validateFailure with
        | error error =>
            rw [hfailure] at hvalidate
            cases hvalidate
        | ok token' =>
            rw [hfailure] at hvalidate
            change (if _ then _ else _) = _ at hvalidate
            split at hvalidate
            case isFalse => cases hvalidate
            rename_i houtcome
            split at hvalidate
            case isFalse => cases hvalidate
            rename_i hpassed
            split at hvalidate
            case isFalse => cases hvalidate
            rename_i hconfig
            exact {
              version := hversion
              caseId := hidentity.1
              generatorVersion := hidentity.2.1
              requestName := hidentity.2.2.1
              fieldPath := hidentity.2.2.2
              mutationIndex := hindex.1
              ordinal := hindex.2.1
              path := hindex.2.2
              aligned := (hsteps hle).mp hstep
              failure := validateFailure_ok.mp hfailure
              outcome := houtcome
              passed := hpassed
              config := hconfig }
  · intro hvalid
    have hle := hvalid.aligned.length_le
    unfold validate
    rw [if_pos hvalid.version, if_pos ⟨hvalid.caseId, hvalid.generatorVersion,
      hvalid.requestName, hvalid.fieldPath⟩, if_pos ⟨hvalid.mutationIndex, hvalid.ordinal,
      hvalid.path⟩, if_pos hle, (hsteps hle).mpr hvalid.aligned,
      validateFailure_ok.mpr hvalid.failure, if_pos hvalid.outcome, if_pos hvalid.passed,
      if_pos hvalid.config]
    rfl

end CaseRecord

end MoonBoofuzz
