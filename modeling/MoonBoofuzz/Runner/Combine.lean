import MoonBoofuzz.Runner.Run
import MoonBoofuzz.Runner.Steps

namespace MoonBoofuzz

variable {ω : Type}

namespace Monitor

/-! Two monitors in one. -/

/-- `Monitor::new` without arguments. -/
def new : Monitor ω where
  before _ world := (.ok (), world)
  after _ world := (.ok (), world)
  fault _ world := (.ok (), world)
  recover _ world := (.ok true, world)
  check _ _ world := (.ok true, world)

/-- The second callback runs when the first one has raised nothing. -/
def inOrder (first second : Attempt CallbackError ω Unit) : Attempt CallbackError ω Unit :=
  fun world =>
    match first world with
    | (.error error, middle) => (.error error, middle)
    | (.ok (), middle) => second middle

/-- An error counts as a refusal. -/
def caught : Except CallbackError Bool → Bool
  | .ok flag => flag
  | .error _ => false

def both (first second : Attempt CallbackError ω Bool) : Attempt CallbackError ω Bool :=
  fun world =>
    let (okFirst, middle) := first world
    let (okSecond, last) := second middle
    (.ok (caught okFirst && caught okSecond), last)

def combine (first second : Monitor ω) : Monitor ω where
  before context := inOrder (first.before context) (second.before context)
  after result := inOrder (first.after result) (second.after result)
  fault result := inOrder (first.fault result) (second.fault result)
  recover result := both (first.recover result) (second.recover result)
  check name bytes := both (first.check name bytes) (second.check name bytes)

theorem inOrder_ok (first : Attempt CallbackError ω Unit) :
    inOrder first (fun world => (.ok (), world)) = first := by
  funext world
  rw [inOrder]
  cases hfirst : first world with
  | mk answer middle =>
      cases answer with
      | error error => rfl
      | ok token => rfl

theorem both_ok (first : Attempt CallbackError ω Bool) (world : ω) :
    both first (fun world => (.ok true, world)) world =
      (.ok (caught (first world).1), (first world).2) := by
  change (Except.ok (caught (first world).1 && true), (first world).2) = _
  rw [Bool.and_true]

variable (monitor : Monitor ω)

@[simp] theorem combine_new_before : (monitor.combine new).before = monitor.before := by
  funext context
  exact inOrder_ok (monitor.before context)

@[simp] theorem combine_new_after : (monitor.combine new).after = monitor.after := by
  funext result
  exact inOrder_ok (monitor.after result)

@[simp] theorem combine_new_fault : (monitor.combine new).fault = monitor.fault := by
  funext result
  exact inOrder_ok (monitor.fault result)

theorem combine_new_recover (result : CaseResult) (world : ω) :
    (monitor.combine new).recover result world =
      (.ok (caught (monitor.recover result world).1), (monitor.recover result world).2) :=
  both_ok (monitor.recover result) world

theorem combine_new_check (name : Text) (bytes : Bytes) (world : ω) :
    (monitor.combine new).check name bytes world =
      (.ok (caught (monitor.check name bytes world).1), (monitor.check name bytes world).2) :=
  both_ok (monitor.check name bytes) world

end Monitor

namespace Settings

def combined (settings : Settings ω) : Settings ω :=
  { settings with monitor := settings.monitor.combine Monitor.new }

/-- What a step received, and the world in which it asks the monitor. -/
def Asks (settings : Settings ω) (channel : Channel ω) (case : MutationCase) (index : Nat)
    (request : CompiledRequest) (transition : Option (EdgeCallback ω)) (fuzzNode : Bool)
    (exchange : Exchange) (fuel : Nat) (world : ω) (received : Bytes) (asked : ω) : Prop :=
  ∃ bytes vars middle read pending,
    Sent channel request transition (if fuzzNode then some case.parts else none) exchange fuel
      world bytes vars (.ok ()) middle ∧
    settings.receiveStage channel (settings.policyOf request) fuzzNode exchange.pending fuel
      middle = (.done (read, received, pending), asked) ∧
    settings.readOutcome index received read = none

def QuietSteps (settings : Settings ω) (channel : Channel ω)
    (path : SessionPath (EdgeCallback ω)) (case : MutationCase) (fuel : Nat) :
    Nat → List CompiledRequest → List (Option (EdgeCallback ω)) → Exchange → ω → Prop
  | _, [], _, _, _ => True
  | index, request :: rest, transitions, exchange, world =>
      (∀ received asked error,
        settings.Asks channel case index request transitions.head?.join rest.isEmpty exchange
          fuel world received asked →
        (settings.monitor.check request.name received asked).1 ≠ .error error) ∧
      ∀ next middle,
        settings.executeStep channel path case index request transitions.head?.join
          rest.isEmpty exchange fuel world = (.done (.inr next), middle) →
        QuietSteps settings channel path case fuel (index + 1) rest transitions.tail next middle

def Quiet (settings : Settings ω) (path : SessionPath (EdgeCallback ω)) (case : MutationCase)
    (fuel : Nat) (world : ω) : Prop :=
  ∀ ready channel dialed started,
    settings.monitor.before ⟨path.caseId case, case, path.names⟩ world = (.ok (), ready) →
    settings.dial ready = (.ok channel, dialed) →
    (if settings.udpServer then ∃ received, channel.receive settings.receiveLimit.toInt
        settings.receiveTimeout.toInt dialed = (.ok received, started)
      else started = dialed) →
    settings.QuietSteps channel path case fuel 0 path.requests path.transitions
      (Exchange.start settings.vars) started

section

variable {settings : Settings ω} {channel : Channel ω} {path : SessionPath (EdgeCallback ω)}
  {case : MutationCase} {index fuel : Nat} {request : CompiledRequest}
  {transition : Option (EdgeCallback ω)} {fuzzNode : Bool} {exchange : Exchange} {world : ω}

theorem combined_receiveStage : settings.combined.receiveStage = settings.receiveStage := rfl

theorem combined_readOutcome : settings.combined.readOutcome = settings.readOutcome := rfl

theorem combined_check (name : Text) (bytes : Bytes) :
    settings.combined.monitor.check name bytes world =
      (.ok (Monitor.caught (settings.monitor.check name bytes world).1),
        (settings.monitor.check name bytes world).2) :=
  settings.monitor.combine_new_check name bytes world

/-- A step whose question raises nothing is the same with the empty monitor. -/
theorem executeStep_combined (path : SessionPath (EdgeCallback ω))
    (hquiet : ∀ received asked error,
      settings.Asks channel case index request transition fuzzNode exchange fuel world received
        asked →
      (settings.monitor.check request.name received asked).1 ≠ .error error) :
    settings.combined.executeStep channel path case index request transition fuzzNode exchange
        fuel world =
      settings.executeStep channel path case index request transition fuzzNode exchange fuel
        world := by
  rw [executeStep, executeStep]
  refine Act.bind_congr fun bytes before hbytes => ?_
  dsimp only
  rw [Act.bind_perform, Act.bind_perform]
  cases hsend : channel.send bytes.1 before with
  | mk sent middle =>
      cases sent with
      | error error => rfl
      | ok token =>
          dsimp only
          rw [combined_receiveStage]
          refine Act.bind_congr fun staged asked hread => ?_
          rw [combined_readOutcome]
          cases houtcome : settings.readOutcome index staged.2.1 staged.1 with
          | some outcome => rfl
          | none =>
              dsimp only
              rw [Act.bind_perform, Act.bind_perform, combined_check]
              have hraised := hquiet staged.2.1 asked
              cases hcheck : settings.monitor.check request.name staged.2.1 asked with
              | mk answer last =>
                  cases answer with
                  | error error =>
                      refine absurd (congrArg Prod.fst hcheck) (hraised error ?_)
                      exact ⟨bytes.1, bytes.2, middle, staged.1, staged.2.2,
                        ⟨before, hbytes, hsend⟩, hread, houtcome⟩
                  | ok flag => rfl

theorem executeSteps_combined : ∀ {requests : List CompiledRequest} {index : Nat}
    {transitions : List (Option (EdgeCallback ω))} {exchange : Exchange} {world : ω},
    settings.QuietSteps channel path case fuel index requests transitions exchange world →
    settings.combined.executeSteps channel path case fuel index requests transitions exchange
        world =
      settings.executeSteps channel path case fuel index requests transitions exchange
        world := by
  intro requests
  induction requests with
  | nil => exact fun _ => rfl
  | cons request rest ih =>
      intro index transitions exchange world hquiet
      obtain ⟨hstep, hrest⟩ := hquiet
      have hsame := executeStep_combined path hstep
      rw [executeSteps, executeSteps]
      cases hrun : settings.executeStep channel path case index request transitions.head?.join
          rest.isEmpty exchange fuel world with
      | mk answer middle =>
          rw [hrun] at hsame
          cases answer with
          | done next =>
              rw [Act.bind_done hsame, Act.bind_done hrun]
              cases next with
              | inl result => rfl
              | inr next => exact ih (hrest next middle hrun)
          | raised error => rw [Act.bind_raised hsame, Act.bind_raised hrun]
          | pending => rw [Act.bind_pending hsame, Act.bind_pending hrun]

theorem execute_combined (hquiet : settings.Quiet path case fuel world) :
    settings.combined.execute path case fuel world =
      settings.execute path case fuel world := by
  have hbefore : settings.combined.monitor.before = settings.monitor.before :=
    settings.monitor.combine_new_before
  rw [execute, execute, hbefore, Act.bind_perform, Act.bind_perform]
  cases hready : settings.monitor.before ⟨path.caseId case, case, path.names⟩ world with
  | mk answer ready =>
      cases answer with
      | error error => rfl
      | ok token =>
          dsimp only
          change (Act.perform settings.dial >>= _) ready = _
          rw [Act.bind_perform, Act.bind_perform]
          cases hdial : settings.dial ready with
          | mk dialled dialed =>
              cases dialled with
              | error error => rfl
              | ok channel =>
                  have hsteps := fun started => hquiet ready channel dialed started hready hdial
                  have hclosed : ∀ {run other : Act ModelError ω CaseResult},
                      run dialed = other dialed →
                      Act.deferring run channel.close dialed =
                        Act.deferring other channel.close dialed := by
                    intro run other hsame
                    rw [Act.deferring, Act.deferring, hsame]
                  refine hclosed ?_
                  cases hserver : settings.udpServer with
                  | false =>
                      rw [hserver] at hsteps
                      rw [show settings.combined.udpServer = false from hserver]
                      exact executeSteps_combined (hsteps dialed rfl)
                  | true =>
                      rw [hserver] at hsteps
                      rw [show settings.combined.udpServer = true from hserver, if_pos rfl,
                        if_pos rfl]
                      refine Act.bind_congr fun heard started hheard => ?_
                      rw [Act.perform_run, Prod.mk.injEq, Eval.done.injEq] at hheard
                      cases heard with
                      | error error => rfl
                      | ok received =>
                          exact executeSteps_combined (hsteps started
                            ⟨received, Prod.ext hheard.1 hheard.2⟩)

end

end Settings

end MoonBoofuzz
