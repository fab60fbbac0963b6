import MoonBoofuzz.Runner.Execute

namespace MoonBoofuzz

namespace Settings

variable {ω : Type}

/-! What one request of a case can come to. -/

structure Sent (channel : Channel ω) (request : CompiledRequest)
    (transition : Option (EdgeCallback ω)) (parts : Option (List (Text × Nat)))
    (exchange : Exchange) (fuel : Nat) (world : ω) (bytes : Bytes) (vars : Vars)
    (answer : Except TransportError Unit) (after : ω) : Prop where
  bytes : ∃ before, stepBytes request transition parts exchange fuel world =
    (.done (bytes, vars), before) ∧ channel.send bytes before = (answer, after)

def refusal (settings : Settings ω) : Except CallbackError Bool → Outcome
  | .error error =>
      .callbackFailed (Text.ofAscii "response check: " ++ settings.debug.error error)
  | .ok _ => .responseMismatch

def tablePolicy (policies : List (Text × ReadPolicy)) (request : CompiledRequest) :
    ReadPolicy :=
  (policies.lookup request.name).getD .noResponse

def policyOf (settings : Settings ω) (request : CompiledRequest) : ReadPolicy :=
  tablePolicy settings.policies request

/-- The ends of `executeStep`. -/
inductive Stepped (settings : Settings ω) (channel : Channel ω)
    (path : SessionPath (EdgeCallback ω)) (case : MutationCase) (index : Nat)
    (request : CompiledRequest) (transition : Option (EdgeCallback ω)) (fuzzNode : Bool)
    (exchange : Exchange) (fuel : Nat) (world : ω) : CaseResult ⊕ Exchange → ω → Prop
  | unsent {bytes : Bytes} {vars : Vars} {error : TransportError} {last : ω}
      (hsent : Sent channel request transition (if fuzzNode then some case.parts else none)
        exchange fuel world bytes vars (.error error) last) :
      Stepped settings channel path case index request transition fuzzNode exchange fuel
        world
        (.inl (report path case (exchange.steps ++ [⟨request.name,
            bytes.take (channel.lastSentLen last).toNat, [], false⟩])
          (if settings.ignoresSend fuzzNode error then
            .connectionIgnored
              (Text.ofAscii "send reset/aborted at step " ++ Text.decimal index)
            else transportOutcome error) (some index))) last
  | unread {bytes received pending : Bytes} {vars : Vars} {read : ReadOutcome}
      {outcome : Outcome} {middle last : ω}
      (hsent : Sent channel request transition (if fuzzNode then some case.parts else none)
        exchange fuel world bytes vars (.ok ()) middle)
      (hread : settings.receiveStage channel (settings.policyOf request) fuzzNode
        exchange.pending fuel middle = (.done (read, received, pending), last))
      (houtcome : settings.readOutcome index received read = some outcome) :
      Stepped settings channel path case index request transition fuzzNode exchange fuel
        world
        (.inl (report path case
          (exchange.steps ++ [⟨request.name, bytes, received, false⟩]) outcome
          (some index))) last
  | refused {bytes received pending : Bytes} {vars : Vars} {read : ReadOutcome}
      {answer : Except CallbackError Bool} {middle later last : ω}
      (hsent : Sent channel request transition (if fuzzNode then some case.parts else none)
        exchange fuel world bytes vars (.ok ()) middle)
      (hread : settings.receiveStage channel (settings.policyOf request) fuzzNode
        exchange.pending fuel middle = (.done (read, received, pending), later))
      (houtcome : settings.readOutcome index received read = none)
      (hcheck : settings.monitor.check request.name received later = (answer, last))
      (hanswer : answer ≠ .ok true) :
      Stepped settings channel path case index request transition fuzzNode exchange fuel
        world
        (.inl (report path case
          (exchange.steps ++ [⟨request.name, bytes, received, false⟩])
          (settings.refusal answer) (some index))) last
  | accepted {bytes received pending : Bytes} {vars : Vars} {read : ReadOutcome}
      {middle later last : ω}
      (hsent : Sent channel request transition (if fuzzNode then some case.parts else none)
        exchange fuel world bytes vars (.ok ()) middle)
      (hread : settings.receiveStage channel (settings.policyOf request) fuzzNode
        exchange.pending fuel middle = (.done (read, received, pending), later))
      (houtcome : settings.readOutcome index received read = none)
      (hcheck : settings.monitor.check request.name received later = (.ok true, last)) :
      Stepped settings channel path case index request transition fuzzNode exchange fuel
        world
        (.inr ⟨exchange.steps ++ [⟨request.name, bytes, received, true⟩],
          exchange.receivedAll ++ [received], vars, pending⟩) last

section

variable {settings : Settings ω} {channel : Channel ω}
  {path : SessionPath (EdgeCallback ω)} {case : MutationCase} {index fuel : Nat}
  {request : CompiledRequest} {transition : Option (EdgeCallback ω)} {fuzzNode : Bool}
  {exchange : Exchange} {world last : ω}

theorem executeStep_cases {answer : CaseResult ⊕ Exchange}
    (hstep : settings.executeStep channel path case index request transition fuzzNode
      exchange fuel world = (.done answer, last)) :
    Stepped settings channel path case index request transition fuzzNode exchange fuel
      world answer last := by
  unfold executeStep at hstep
  obtain ⟨⟨bytes, vars⟩, before, hbytes, hstep⟩ := Act.bind_eq_done.mp hstep
  dsimp only at hstep
  rw [Act.bind_perform] at hstep
  cases hsend : channel.send bytes before with
  | mk sent middle =>
      rw [hsend] at hstep
      have hsent : Sent channel request transition
          (if fuzzNode then some case.parts else none) exchange fuel world bytes vars sent
          middle := ⟨before, hbytes, hsend⟩
      cases sent with
      | error error =>
          cases hstep
          exact .unsent hsent
      | ok token =>
          obtain ⟨⟨read, received, pending⟩, later, hread, hstep⟩ :=
            Act.bind_eq_done.mp hstep
          dsimp only at hstep
          cases houtcome : settings.readOutcome index received read with
          | some outcome =>
              rw [houtcome] at hstep
              cases hstep
              exact .unread hsent hread houtcome
          | none =>
              rw [houtcome] at hstep
              dsimp only at hstep
              rw [Act.bind_perform] at hstep
              cases hcheck : settings.monitor.check request.name received later with
              | mk accepted final =>
                  rw [hcheck] at hstep
                  cases accepted with
                  | error error =>
                      cases hstep
                      exact .refused hsent hread houtcome hcheck (by simp)
                  | ok flag =>
                      cases flag with
                      | false =>
                          cases hstep
                          exact .refused hsent hread houtcome hcheck (by simp)
                      | true =>
                          cases hstep
                          exact .accepted hsent hread houtcome hcheck

theorem executeStep_accepted {bytes received pending : Bytes} {vars : Vars}
    {read : ReadOutcome} {middle later : ω}
    (hsent : Sent channel request transition (if fuzzNode then some case.parts else none)
      exchange fuel world bytes vars (.ok ()) middle)
    (hread : settings.receiveStage channel (settings.policyOf request) fuzzNode
      exchange.pending fuel middle = (.done (read, received, pending), later))
    (houtcome : settings.readOutcome index received read = none)
    (hcheck : settings.monitor.check request.name received later = (.ok true, last)) :
    settings.executeStep channel path case index request transition fuzzNode exchange fuel
        world =
      (.done (.inr ⟨exchange.steps ++ [⟨request.name, bytes, received, true⟩],
        exchange.receivedAll ++ [received], vars, pending⟩), last) := by
  obtain ⟨before, hbytes, hsend⟩ := hsent.bytes
  rw [policyOf, tablePolicy] at hread
  rw [executeStep, Act.bind_done hbytes]
  dsimp only
  rw [Act.bind_perform, hsend]
  dsimp only
  rw [Act.bind_done hread]
  dsimp only
  rw [houtcome]
  dsimp only
  rw [Act.bind_perform, hcheck]
  rfl

def rendering (request : CompiledRequest) (parts : Option (List (Text × Nat)))
    (vars : Vars) (fuel : Nat) : Run Bytes :=
  match parts with
  | some parts => request.renderCase parts (some vars) fuel
  | none => request.renderWith (some vars) fuel

def crossed (request : CompiledRequest) (transition : Option (EdgeCallback ω))
    (exchange : Exchange) (world : ω) : (Option Bytes × Vars) × ω :=
  match transition with
  | some callback => callback ⟨exchange.vars, exchange.receivedAll, request.name⟩ world
  | none => ((none, exchange.vars), world)

theorem stepBytes_eq_done {parts : Option (List (Text × Nat))} {bytes : Bytes}
    {vars : Vars} :
    stepBytes request transition parts exchange fuel world = (.done (bytes, vars), last) ↔
      ∃ rendered replacement,
        crossed request transition exchange world = ((replacement, vars), last) ∧
        rendering request parts vars fuel = .done rendered ∧
        bytes = match replacement with
          | some data => if 0 < data.length then data else rendered
          | none => rendered := by
  have hrun : ∀ (replacement : Option Bytes) (vars' : Vars) (middle : ω),
      ((Act.ofEval (rendering request parts vars' fuel) >>= fun rendered =>
          match replacement with
          | some data => pure (if 0 < data.length then data else rendered, vars')
          | none => pure (rendered, vars')) : Act ModelError ω (Bytes × Vars)) middle =
        (.done (bytes, vars), last) ↔
      ∃ rendered, ((replacement, vars'), middle) = ((replacement, vars), last) ∧
        rendering request parts vars fuel = .done rendered ∧
        bytes = match replacement with
          | some data => if 0 < data.length then data else rendered
          | none => rendered := by
    intro replacement vars' middle
    rw [Act.bind_eq_done]
    constructor
    · rintro ⟨rendered, after, hrendered, hbytes⟩
      rw [Act.ofEval_run, Prod.mk.injEq] at hrendered
      obtain ⟨hrendered, rfl⟩ := hrendered
      cases replacement with
      | none =>
          cases hbytes
          exact ⟨_, rfl, hrendered, rfl⟩
      | some data =>
          cases hbytes
          exact ⟨_, rfl, hrendered, rfl⟩
    · rintro ⟨rendered, hsame, hrendered, rfl⟩
      cases hsame
      refine ⟨rendered, last, by rw [Act.ofEval_run, hrendered], ?_⟩
      cases replacement <;> rfl
  unfold stepBytes crossed
  cases transition with
  | none =>
      change ((Act.ofEval (rendering request parts exchange.vars fuel) >>= _) : Act ModelError
        ω (Bytes × Vars)) world = _ ↔ _
      rw [hrun none exchange.vars world]
      constructor
      · rintro ⟨rendered, hsame, hrendered, hbytes⟩
        exact ⟨rendered, none, hsame, hrendered, hbytes⟩
      · rintro ⟨rendered, replacement, hsame, hrendered, hbytes⟩
        cases hsame
        exact ⟨rendered, rfl, hrendered, hbytes⟩
  | some callback =>
      dsimp only
      rw [Act.bind_perform]
      generalize callback ⟨exchange.vars, exchange.receivedAll, request.name⟩ world = answer
      obtain ⟨⟨replacement, vars'⟩, middle⟩ := answer
      refine (hrun replacement vars' middle).trans ?_
      constructor
      · rintro ⟨rendered, hsame, hrendered, hbytes⟩
        exact ⟨rendered, replacement, hsame, hrendered, hbytes⟩
      · rintro ⟨rendered, replacement', hsame, hrendered, hbytes⟩
        cases hsame
        exact ⟨rendered, rfl, hrendered, hbytes⟩

theorem stepBytes_keeps (observe : ω → β) {parts : Option (List (Text × Nat))}
    {bytes : Bytes} {vars : Vars}
    (htransition : ∀ callback, transition = some callback →
      ∀ context world, observe (callback context world).2 = observe world)
    (hbytes : stepBytes request transition parts exchange fuel world =
      (.done (bytes, vars), last)) : observe last = observe world := by
  obtain ⟨rendered, replacement, hcrossed, -, -⟩ := stepBytes_eq_done.mp hbytes
  cases transition with
  | none =>
      cases hcrossed
      rfl
  | some callback =>
      have hkept := htransition callback rfl
        ⟨exchange.vars, exchange.receivedAll, request.name⟩ world
      rwa [show callback _ world = _ from hcrossed] at hkept

theorem readFailure_ne (error : TransportError) : readFailure error ≠ .complete := by
  unfold readFailure
  split
  · simp
  · split <;> simp
  · simp

theorem readOutcome_none {index : Nat} {received : Bytes} {read : ReadOutcome}
    (hread : settings.readOutcome index received read = none) : read = .complete := by
  cases read with
  | complete => rfl
  | closed => cases hread
  | timedOut => cases hread
  | resetAborted code => cases hread
  | failed error => cases hread

theorem executeSteps_inr {rest : List CompiledRequest}
    {left : List (Option (EdgeCallback ω))} {exchange' : Exchange}
    (hstep : settings.executeStep channel path case index request left.head?.join
      rest.isEmpty exchange fuel world = (.done (.inr exchange'), last)) :
    settings.executeSteps channel path case fuel index (request :: rest) left exchange
        world =
      settings.executeSteps channel path case fuel (index + 1) rest left.tail exchange'
        last := by
  rw [executeSteps, Act.bind_done hstep]

theorem mem_of_head {left transitions : List (Option (EdgeCallback ω))}
    (hleft : left ⊆ transitions) (callback : EdgeCallback ω)
    (hcallback : left.head?.join = some callback) : some callback ∈ transitions := by
  cases left with
  | nil => cases hcallback
  | cons head tail =>
      simp only [List.head?_cons, Option.join_some] at hcallback
      subst hcallback
      exact hleft List.mem_cons_self

/-- One request keeps what holds before it, or decides the result. -/
def StepRule (settings : Settings ω) (channel : Channel ω)
    (path : SessionPath (EdgeCallback ω)) (case : MutationCase) (fuel : Nat)
    (inv : List CompiledRequest → Exchange → ω → Prop) (post : CaseResult → ω → Prop) :
    Prop :=
  ∀ before request rest transition exchange world answer last,
    path.requests = before ++ request :: rest →
    (∀ callback, transition = some callback → some callback ∈ path.transitions) →
    inv before exchange world →
    Stepped settings channel path case before.length request transition rest.isEmpty
      exchange fuel world answer last →
    (∀ result, answer = .inl result → post result last) ∧
      ∀ exchange', answer = .inr exchange' → inv (before ++ [request]) exchange' last

theorem executeSteps_from {inv : List CompiledRequest → Exchange → ω → Prop}
    {post : CaseResult → ω → Prop}
    (hstep : StepRule settings channel path case fuel inv post)
    (hend : ∀ exchange world, inv path.requests exchange world →
      post (report path case exchange.steps .passed none) world) :
    ∀ {rest before : List CompiledRequest} {left : List (Option (EdgeCallback ω))}
      {exchange : Exchange} {world last : ω} {result : CaseResult},
      path.requests = before ++ rest → left ⊆ path.transitions →
      inv before exchange world →
      settings.executeSteps channel path case fuel before.length rest left exchange world =
        (.done result, last) →
      post result last := by
  intro rest
  induction rest with
  | nil =>
      intro before left exchange world last result hrequests _ hinv hrun
      cases hrun
      rw [List.append_nil] at hrequests
      exact hend exchange world (hrequests ▸ hinv)
  | cons request rest ih =>
      intro before left exchange world last result hrequests hleft hinv hrun
      rw [executeSteps] at hrun
      obtain ⟨answer, middle, hanswer, hrun⟩ := Act.bind_eq_done.mp hrun
      obtain ⟨hresult, hnext⟩ := hstep before request rest _ exchange world answer middle
        hrequests (mem_of_head hleft) hinv (executeStep_cases hanswer)
      cases answer with
      | inl result' =>
          cases hrun
          exact hresult _ rfl
      | inr exchange' =>
          have hlength : before.length + 1 = (before ++ [request]).length := by simp
          rw [hlength] at hrun
          refine ih ?_ ?_ (hnext exchange' rfl) hrun
          · simpa using hrequests
          · exact List.Subset.trans (List.tail_subset left) hleft

/-- What holds before every request of a case and decides its result holds of the
result. -/
theorem executeSteps_rule (inv : List CompiledRequest → Exchange → ω → Prop)
    (post : CaseResult → ω → Prop) {result : CaseResult}
    (hstep : StepRule settings channel path case fuel inv post)
    (hend : ∀ exchange world, inv path.requests exchange world →
      post (report path case exchange.steps .passed none) world)
    (hstart : inv [] exchange world)
    (hrun : settings.executeSteps channel path case fuel 0 path.requests path.transitions
      exchange world = (.done result, last)) : post result last :=
  @executeSteps_from _ _ _ _ _ _ _ _ hstep hend path.requests [] path.transitions exchange
    world last result rfl (List.Subset.refl _) hstart hrun

theorem stepped_dialed :
    StepRule settings channel path case fuel (fun _ _ _ => True)
      (fun result _ => result.failedStep ≠ some (-1)) := by
  intro before request rest transition exchange world answer last _ _ _ hstepped
  have hindex : some (before.length : Int) ≠ some (-1) := by
    intro hsame
    have hneg := Option.some.inj hsame
    omega
  refine ⟨fun result hresult => ?_, fun _ _ => trivial⟩
  cases hstepped <;> cases hresult <;> exact hindex

def Exchange.start (vars : Option Vars) : Exchange := ⟨[], [], vars.getD [], []⟩

/-- The ends of `execute`. -/
inductive Executed (settings : Settings ω) (path : SessionPath (EdgeCallback ω))
    (case : MutationCase) (fuel : Nat) (world : ω) : CaseResult → ω → Prop
  | barred {error : CallbackError} {last : ω}
      (hbefore : settings.monitor.before ⟨path.caseId case, case, path.names⟩ world =
        (.error error, last)) :
      Executed settings path case fuel world (report path case []
        (.callbackFailed (Text.ofAscii "before: " ++ settings.debug.error error)) none)
        last
  | undialed {error : TransportError} {ready last : ω}
      (hbefore : settings.monitor.before ⟨path.caseId case, case, path.names⟩ world =
        (.ok (), ready))
      (hdial : settings.dial ready = (.error error, last)) :
      Executed settings path case fuel world
        (report path case [] (transportOutcome error) (some (-1))) last
  | unheard {channel : Channel ω} {error : TransportError} {ready dialed last : ω}
      (hbefore : settings.monitor.before ⟨path.caseId case, case, path.names⟩ world =
        (.ok (), ready))
      (hdial : settings.dial ready = (.ok channel, dialed))
      (hserver : settings.udpServer = true)
      (hheard : channel.receive settings.receiveLimit.toInt settings.receiveTimeout.toInt
        dialed = (.error error, last)) :
      Executed settings path case fuel world
        (report path case [] (transportOutcome error) (some (-1))) (channel.close last)
  | ran {channel : Channel ω} {result : CaseResult} {ready dialed started last : ω}
      (hbefore : settings.monitor.before ⟨path.caseId case, case, path.names⟩ world =
        (.ok (), ready))
      (hdial : settings.dial ready = (.ok channel, dialed))
      (hserver : if settings.udpServer then ∃ received,
          channel.receive settings.receiveLimit.toInt settings.receiveTimeout.toInt
            dialed = (.ok received, started)
        else started = dialed)
      (hrun : settings.executeSteps channel path case fuel 0 path.requests path.transitions
        (Exchange.start settings.vars) started = (.done result, last)) :
      Executed settings path case fuel world result (channel.close last)

theorem execute_ran {result : CaseResult} {ready dialed : ω}
    (hbefore : settings.monitor.before ⟨path.caseId case, case, path.names⟩ world =
      (.ok (), ready))
    (hdial : settings.dial ready = (.ok channel, dialed))
    (hserver : settings.udpServer = false)
    (hrun : settings.executeSteps channel path case fuel 0 path.requests path.transitions
      (Exchange.start settings.vars) dialed = (.done result, last)) :
    settings.execute path case fuel world = (.done result, channel.close last) := by
  rw [Exchange.start] at hrun
  rw [execute, Act.bind_perform, hbefore]
  dsimp only
  rw [Act.bind_perform, hdial]
  simp only [hserver, Bool.false_eq_true, if_false, Act.deferring]
  rw [hrun]

theorem execute_cases {result : CaseResult}
    (hexecute : settings.execute path case fuel world = (.done result, last)) :
    Executed settings path case fuel world result last := by
  unfold execute at hexecute
  rw [Act.bind_perform] at hexecute
  cases hbefore : settings.monitor.before ⟨path.caseId case, case, path.names⟩ world with
  | mk answer ready =>
      rw [hbefore] at hexecute
      cases answer with
      | error error =>
          cases hexecute
          exact .barred hbefore
      | ok token =>
          dsimp only at hexecute
          rw [Act.bind_perform] at hexecute
          cases hdial : settings.dial ready with
          | mk dialled dialed =>
              rw [hdial] at hexecute
              cases dialled with
              | error error =>
                  cases hexecute
                  exact .undialed hbefore hdial
              | ok channel =>
                  simp only [Act.deferring, Prod.mk.injEq] at hexecute
                  obtain ⟨hresult, rfl⟩ := hexecute
                  cases hserver : settings.udpServer with
                  | false =>
                      simp only [hserver, Bool.false_eq_true, if_false] at hresult ⊢
                      exact .ran hbefore hdial (by simp [hserver]) (Prod.ext hresult rfl)
                  | true =>
                      simp only [hserver, if_true, Act.bind_perform] at hresult ⊢
                      cases hheard : channel.receive settings.receiveLimit.toInt
                          settings.receiveTimeout.toInt dialed with
                      | mk heard started =>
                          rw [hheard] at hresult
                          cases heard with
                          | error error =>
                              cases hresult
                              exact .unheard hbefore hdial hserver hheard
                          | ok received =>
                              refine .ran hbefore hdial ?_ (Prod.ext hresult rfl)
                              rw [if_pos hserver]
                              exact ⟨received, hheard⟩

end

end Settings

end MoonBoofuzz
