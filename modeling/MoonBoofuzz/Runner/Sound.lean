import MoonBoofuzz.Runner.Record

namespace MoonBoofuzz

namespace Settings

variable {ω : Type}

/-! What every result of a case has in common. -/

/-- The steps follow the path, all but the last one are completed, and the outcome
fits them. -/
structure Sound (path : SessionPath (EdgeCallback ω)) (case : MutationCase)
    (result : CaseResult) : Prop where
  id : result.id = path.caseId case
  case : result.case = case
  path : result.path = path.names
  aligned : ∀ index step, result.steps[index]? = some step →
    result.path[index]? = some step.requestName ∧
      (step.completed = true ∨ index + 1 = result.steps.length)
  failure : ∀ index, result.failedStep = some index → -1 ≤ index ∧
    index < result.steps.length ∧ (index = -1 → result.steps = [])
  passed : result.outcome = .passed → result.failedStep = none ∧
    result.steps.length = result.path.length ∧
    ∀ step ∈ result.steps, step.completed = true

/-- The steps of the requests so far: each is named after its request, and is
completed. -/
def Complete (before : List CompiledRequest) (steps : List StepResult) : Prop :=
  steps.map (·.requestName) = before.map (·.name) ∧ ∀ step ∈ steps, step.completed = true

section

variable {settings : Settings ω} {channel : Channel ω}
  {path : SessionPath (EdgeCallback ω)} {case : MutationCase} {fuel : Nat}

theorem sound_start {outcome : Outcome} {failedStep : Option Int}
    (houtcome : outcome ≠ .passed)
    (hfailed : ∀ index, failedStep = some index → index = -1) :
    Sound path case (report path case [] outcome failedStep) where
  id := rfl
  case := rfl
  path := rfl
  aligned := by simp [report]
  failure := by
    intro index hindex
    have hneg := hfailed index hindex
    simp [report, hneg]
  passed := fun hpassed => absurd hpassed houtcome

theorem Complete.aligned {before : List CompiledRequest} {steps : List StepResult}
    (hcomplete : Complete before steps) {rest : List CompiledRequest}
    (hrequests : path.requests = before ++ rest) {index : Nat} {step : StepResult}
    (hstep : steps[index]? = some step) : path.names[index]? = some step.requestName := by
  have hname : (steps.map (·.requestName))[index]? = some step.requestName := by
    rw [List.getElem?_map, hstep]
    rfl
  rw [hcomplete.1] at hname
  rw [SessionPath.names, hrequests, List.map_append]
  exact List.getElem?_append_left (List.getElem?_eq_some_iff.mp hname).1 ▸ hname

theorem Complete.length {before : List CompiledRequest} {steps : List StepResult}
    (hcomplete : Complete before steps) : steps.length = before.length := by
  have hlength := congrArg List.length hcomplete.1
  simpa using hlength

theorem sound_step {before rest : List CompiledRequest} {request : CompiledRequest}
    (hrequests : path.requests = before ++ request :: rest) {steps : List StepResult}
    (hcomplete : Complete before steps) {step : StepResult}
    (hname : step.requestName = request.name) {outcome : Outcome}
    (houtcome : outcome ≠ .passed) :
    Sound path case (report path case (steps ++ [step]) outcome (some before.length)) where
  id := rfl
  case := rfl
  path := rfl
  aligned := by
    intro index other hother
    simp only [report] at hother ⊢
    have hlength := hcomplete.length
    by_cases hlast : index < steps.length
    · rw [List.getElem?_append_left hlast] at hother
      exact ⟨hcomplete.aligned hrequests hother,
        Or.inl (hcomplete.2 other (List.mem_of_getElem? hother))⟩
    · rw [List.getElem?_append_right (by omega)] at hother
      have hzero : index - steps.length = 0 := by
        by_contra hpositive
        rw [List.getElem?_eq_none (by simp; omega)] at hother
        cases hother
      have hindex : index = before.length := by omega
      rw [hzero, List.getElem?_cons_zero, Option.some.injEq] at hother
      subst hother
      refine ⟨?_, Or.inr (by simp; omega)⟩
      rw [SessionPath.names, hrequests, hindex, List.getElem?_map,
        List.getElem?_append_right (le_refl _), Nat.sub_self, hname]
      rfl
  failure := by
    intro index hindex
    have hlength := hcomplete.length
    simp only [report, Option.some.injEq] at hindex
    subst hindex
    refine ⟨by omega, ?_, by omega⟩
    simp only [report, List.length_append, List.length_singleton]
    omega
  passed := fun hpassed => absurd hpassed houtcome

theorem sound_end {steps : List StepResult} (hcomplete : Complete path.requests steps) :
    Sound path case (report path case steps .passed none) where
  id := rfl
  case := rfl
  path := rfl
  aligned := by
    intro index step hstep
    exact ⟨hcomplete.aligned (List.append_nil _).symm hstep,
      Or.inl (hcomplete.2 step (List.mem_of_getElem? hstep))⟩
  failure := by simp [report]
  passed := fun _ => ⟨rfl, by simp [report, SessionPath.names, hcomplete.length], hcomplete.2⟩

theorem transportOutcome_ne (error : TransportError) : transportOutcome error ≠ .passed := by
  unfold transportOutcome
  split <;> simp

theorem readOutcome_ne {index : Nat} {received : Bytes} {read : ReadOutcome}
    {outcome : Outcome} (hread : settings.readOutcome index received read = some outcome) :
    outcome ≠ .passed := by
  have hupgrade : ∀ other : Outcome, other ≠ .passed →
      readOutcome.upgrade settings received other ≠ .passed := by
    intro other hother
    unfold readOutcome.upgrade
    split
    · simp
    · exact hother
  cases read with
  | complete => cases hread
  | timedOut =>
      cases hread
      exact hupgrade _ (by simp)
  | closed =>
      cases hread
      exact hupgrade _ (by simp)
  | resetAborted code =>
      cases hread
      exact hupgrade _ (by simp)
  | failed error =>
      cases hread
      exact transportOutcome_ne error

theorem refusal_ne (answer : Except CallbackError Bool) :
    settings.refusal answer ≠ .passed := by
  cases answer <;> simp [refusal]

theorem stepped_sound : StepRule settings channel path case fuel
    (fun before exchange _ => Complete before exchange.steps)
    (fun result _ => Sound path case result) := by
  intro before request rest transition exchange world answer last hrequests _ hcomplete
    hstepped
  cases hstepped with
  | unsent hsent =>
      refine ⟨fun result hresult => ?_, by simp⟩
      cases hresult
      refine sound_step hrequests hcomplete rfl ?_
      split
      · simp
      · exact transportOutcome_ne _
  | unread hsent hread houtcome =>
      refine ⟨fun result hresult => ?_, by simp⟩
      cases hresult
      exact sound_step hrequests hcomplete rfl (readOutcome_ne houtcome)
  | refused hsent hread houtcome hcheck hanswer =>
      refine ⟨fun result hresult => ?_, by simp⟩
      cases hresult
      exact sound_step hrequests hcomplete rfl (refusal_ne _)
  | accepted hsent hread houtcome hcheck =>
      refine ⟨by simp, fun exchange' hexchange => ?_⟩
      cases hexchange
      constructor
      · simp [hcomplete.1]
      · rw [List.forall_mem_append]
        exact ⟨hcomplete.2, by simp⟩

theorem execute_sound :
    Act.Always (Sound path case) (settings.execute path case fuel) := by
  intro world result last hexecute
  cases execute_cases hexecute with
  | barred hbefore => exact sound_start (by simp) (by simp)
  | undialed hbefore hdial => exact sound_start (transportOutcome_ne _) (by simp)
  | unheard hbefore hdial hserver hheard =>
      exact sound_start (transportOutcome_ne _) (by simp)
  | ran hbefore hdial hserver hrun =>
      exact executeSteps_rule (fun before exchange _ => Complete before exchange.steps)
        (fun result _ => Sound path case result) stepped_sound
        (fun exchange _ hcomplete => sound_end hcomplete) ⟨rfl, by simp [Exchange.start]⟩
        hrun

def Survives (good : CaseResult → Prop) : Prop :=
  ∀ result outcome, good result → outcome ≠ .passed → good { result with outcome := outcome }

theorem sound_survives : Survives (Sound path case) :=
  fun _ _ hsound houtcome =>
    { hsound with passed := fun hpassed => absurd hpassed houtcome }

section

variable {good : CaseResult → Prop}

theorem judge_keeps (settings : Settings ω) (hsurvives : Survives good) {result : CaseResult}
    (hgood : good result) (answer : Except CallbackError Unit) :
    good (settings.judge result answer) := by
  unfold judge
  split
  · exact hgood
  · exact hsurvives result _ hgood (by simp)
  · exact hsurvives result _ hgood (by simp)

theorem finish_keeps (hsurvives : Survives good) {result : CaseResult} (hgood : good result) :
    Act.Always (fun answer => good answer.1) (settings.finish result) := by
  unfold finish
  apply Act.always_bind
  intro answer
  have hjudged := judge_keeps settings hsurvives hgood answer
  dsimp only
  split
  · apply Act.always_bind
    intro _
    apply Act.always_bind
    intro recovered
    cases recovered with
    | error error => exact Act.always_pure (hsurvives _ _ hjudged (by simp))
    | ok flag =>
        cases flag with
        | false => exact Act.always_pure (hsurvives _ _ hjudged (by simp))
        | true => exact Act.always_pure hjudged
  · exact Act.always_pure hjudged

theorem retryLoop_keeps (hsurvives : Survives good)
    (hexecute : Act.Always good (settings.execute path case fuel)) {started : Int} :
    ∀ {loops : Nat} {current : CaseResult} {restarts : Nat}, good current →
      Act.Always (fun answer => good answer.1)
        (settings.retryLoop path case started fuel loops current restarts) := by
  intro loops
  induction loops with
  | zero =>
      intro current restarts _ world answer last hdone
      cases hdone
  | succ loops ih =>
      intro current restarts hgood
      unfold retryLoop
      split
      · exact Act.always_pure hgood
      · apply Act.always_bind
        intro expired
        cases expired with
        | true => exact Act.always_pure hgood
        | false =>
            apply Act.always_bind
            intro recovered
            cases recovered with
            | error error => exact Act.always_pure hgood
            | ok flag =>
                cases flag with
                | false => exact Act.always_pure hgood
                | true =>
                    apply Act.always_bind
                    intro _ world answer last hdone
                    obtain ⟨retried, middle, hretried, hdone⟩ := Act.bind_eq_done.mp hdone
                    have hgood' := hexecute _ _ _ hretried
                    split at hdone
                    · exact ih hgood' _ _ _ hdone
                    · exact finish_keeps hsurvives hgood' _ _ _ hdone

theorem attempt_keeps (hsurvives : Survives good)
    (hexecute : Act.Always good (settings.execute path case fuel)) :
    Act.Always (fun answer => good answer.1) (settings.attempt path case fuel) := by
  intro world answer last hdone
  obtain ⟨raw, middle, hraw, hdone⟩ := Act.bind_eq_done.mp hdone
  have hgood := hexecute _ _ _ hraw
  split at hdone
  · obtain ⟨started, later, hstarted, hdone⟩ := Act.bind_eq_done.mp hdone
    exact retryLoop_keeps hsurvives hexecute hgood _ _ _ hdone
  · exact finish_keeps hsurvives hgood _ _ _ hdone

end

theorem attempt_sound :
    Act.Always (fun answer => Sound path case answer.1)
      (settings.attempt path case fuel) :=
  attempt_keeps sound_survives execute_sound

end

/-- The case is one that the target of the path can have given. -/
structure Belongs (path : SessionPath (EdgeCallback ω)) (case : MutationCase) : Prop where
  requestName : path.names.getLast? = some case.requestName
  name_ne : case.requestName ≠ []
  fieldPath_ne : case.fieldPath ≠ []
  ordinal : 0 ≤ case.ordinal

theorem record_valid {path : SessionPath (EdgeCallback ω)} {case : MutationCase}
    {result : CaseResult} (hsound : Sound path case result) (hbelongs : Belongs path case)
    (settings : Settings ω) : (settings.record result).Valid where
  version := rfl
  caseId := by
    rw [record, hsound.id, SessionPath.caseId]
    simp
  generatorVersion := (by decide : Text.ofAscii "moon-boofuzz-v1" ≠ [])
  requestName := by rw [record, hsound.case]; exact hbelongs.name_ne
  fieldPath := by rw [record, hsound.case]; exact hbelongs.fieldPath_ne
  mutationIndex := Int.natCast_nonneg _
  ordinal := by rw [record, hsound.case]; exact hbelongs.ordinal
  path := by rw [record, hsound.path, hsound.case]; exact hbelongs.requestName
  aligned := by
    intro index step hstep
    simp only [record, List.getElem?_map, Option.map_eq_some_iff] at hstep
    obtain ⟨original, horiginal, rfl⟩ := hstep
    simpa [record, StepResult.recorded] using hsound.aligned index original horiginal
  failure := by
    intro index hindex
    simpa [record] using hsound.failure index hindex
  outcome := Outcome.name_mem _
  passed := by
    intro hpassed
    simpa [record, StepResult.recorded] using hsound.passed (Outcome.name_eq_passed.mp hpassed)
  config := rfl

end Settings

end MoonBoofuzz
