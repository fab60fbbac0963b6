import MoonBoofuzz.Definition.Identity
import MoonBoofuzz.Mutation.Replay
import MoonBoofuzz.Runner.Connection
import MoonBoofuzz.Runner.Frame
import MoonBoofuzz.Runner.Ordinals

namespace MoonBoofuzz

/-! The sent bytes of a case against the bytes that its socket accepted. -/

structure SendCall (ω : Type) where
  payload : Bytes
  before : ω
  answer : Except TransportError Unit
  after : ω

namespace Settings

section

variable {ω : Type}

def sendCalls (settings : Settings ω) (channel : Channel ω)
    (path : SessionPath (EdgeCallback ω)) (case : MutationCase) (fuel : Nat) :
    Nat → List CompiledRequest → List (Option (EdgeCallback ω)) → Exchange → ω →
      List (SendCall ω)
  | _, [], _, _, _ => []
  | index, request :: rest, transitions, exchange, world =>
      match stepBytes request transitions.head?.join
          (if rest.isEmpty then some case.parts else none) exchange fuel world with
      | (.done (bytes, _), before) =>
          let (answer, after) := channel.send bytes before
          ⟨bytes, before, answer, after⟩ ::
            match settings.executeStep channel path case index request
                transitions.head?.join rest.isEmpty exchange fuel world with
            | (.done (.inr exchange), last) =>
                settings.sendCalls channel path case fuel (index + 1) rest transitions.tail
                  exchange last
            | _ => []
      | _ => []

/-- The sends of `execute`. -/
def caseCalls (settings : Settings ω) (path : SessionPath (EdgeCallback ω))
    (case : MutationCase) (fuel : Nat) (world : ω) : List (SendCall ω) :=
  match settings.monitor.before ⟨path.caseId case, case, path.names⟩ world with
  | (.error _, _) => []
  | (.ok (), ready) =>
      match settings.dial ready with
      | (.error _, _) => []
      | (.ok channel, dialed) =>
          let run := settings.sendCalls channel path case fuel 0 path.requests
            path.transitions (Exchange.start settings.vars)
          if settings.udpServer then
            match channel.receive settings.receiveLimit.toInt settings.receiveTimeout.toInt
                dialed with
            | (.error _, _) => []
            | (.ok _, started) => run started
          else run dialed

end

variable {σ : Type}

/-- Every channel of a case is over a connection that is open, and nothing else closes
it. -/
structure OverTcp (settings : Settings (Net σ)) (path : SessionPath (EdgeCallback (Net σ)))
    (socket : Socket σ) (endpoint : Endpoint) : Prop
    extends settings.Leaves path Net.closed where
  dial : ∀ {world last : Net σ} {channel : Channel (Net σ)},
    settings.dial world = (.ok channel, last) →
      last.closed = false ∧ channel.OverTcp socket endpoint

/-- The step has the bytes that the socket accepted during its send, which are the whole
payload exactly when the send returned normally. -/
structure SentAs (step : StepResult) (call : SendCall (Net σ)) : Prop where
  accepted : call.after.accepted = call.before.accepted ++ step.sent
  normal : call.answer = .ok () ↔ step.sent = call.payload

section

variable {settings : Settings (Net σ)} {path : SessionPath (EdgeCallback (Net σ))}
  {socket : Socket σ} {endpoint : Endpoint} {channel : Channel (Net σ)}
  {case : MutationCase} {fuel : Nat}

theorem sendCalls_cons {request : CompiledRequest} {rest : List CompiledRequest}
    {index : Nat} {left : List (Option (EdgeCallback (Net σ)))} {exchange : Exchange}
    {world after last : Net σ} {bytes : Bytes} {vars : Vars}
    {sent : Except TransportError Unit} {answer : CaseResult ⊕ Exchange}
    (hsent : Sent channel request left.head?.join
      (if rest.isEmpty then some case.parts else none) exchange fuel world bytes vars sent
      after)
    (hanswer : settings.executeStep channel path case index request left.head?.join
      rest.isEmpty exchange fuel world = (.done answer, last)) :
    ∃ before, stepBytes request left.head?.join
        (if rest.isEmpty then some case.parts else none) exchange fuel world =
          (.done (bytes, vars), before) ∧
      channel.send bytes before = (sent, after) ∧
      settings.sendCalls channel path case fuel index (request :: rest) left exchange world =
        ⟨bytes, before, sent, after⟩ ::
          match answer with
          | .inl _ => []
          | .inr exchange' =>
              settings.sendCalls channel path case fuel (index + 1) rest left.tail exchange'
                last := by
  obtain ⟨before, hbytes, hsend⟩ := hsent.bytes
  refine ⟨before, hbytes, hsend, ?_⟩
  rw [sendCalls, hbytes]
  simp only [hsend, hanswer]
  cases answer <;> rfl

theorem sentAs_of_returns {bytes : Bytes} {before after : Net σ} {sent : Except TransportError Unit}
    (hchannel : channel.OverTcp socket endpoint) (hbounded : socket.Bounded)
    (hopen : before.closed = false) (hsend : channel.send bytes before = (sent, after))
    (hreturns : ∃ answer last,
      Connection.Returns socket endpoint bytes before answer last) :
    after.closed = false ∧ ∀ name received completed,
      (sent = .ok () → SentAs ⟨name, bytes, received, completed⟩ ⟨bytes, before, sent, after⟩) ∧
        SentAs ⟨name, bytes.take (channel.lastSentLen after).toNat, received, completed⟩
          ⟨bytes, before, sent, after⟩ := by
  obtain ⟨answer, last, hreturns⟩ := hreturns
  cases (hchannel.send hreturns).symm.trans hsend
  obtain ⟨hclosed, haccepted, hnormal⟩ := hreturns.accepted hbounded hopen
  rw [hchannel.lastSentLen]
  refine ⟨hclosed, fun _ _ _ => ⟨fun hok => ⟨?_, by simp [hok]⟩, haccepted, hnormal⟩⟩
  rw [haccepted, hnormal.mp hok]

theorem sendCalls_sentAs (hover : settings.OverTcp path socket endpoint)
    (hchannel : channel.OverTcp socket endpoint) (hbounded : socket.Bounded)
    {request : CompiledRequest} {rest : List CompiledRequest} {index : Nat}
    {left : List (Option (EdgeCallback (Net σ)))} {exchange : Exchange}
    {world after last : Net σ} {bytes : Bytes} {vars : Vars}
    {sent : Except TransportError Unit} {answer : CaseResult ⊕ Exchange}
    (hleft : left ⊆ path.transitions) (hopen : world.closed = false)
    (hreturns : ∀ call ∈ settings.sendCalls channel path case fuel index (request :: rest) left
      exchange world, ∃ answer after,
        Connection.Returns socket endpoint call.payload call.before answer after)
    (hsent : Sent channel request left.head?.join
      (if rest.isEmpty then some case.parts else none) exchange fuel world bytes vars sent
      after)
    (hanswer : settings.executeStep channel path case index request left.head?.join
      rest.isEmpty exchange fuel world = (.done answer, last)) :
    ∃ call, settings.sendCalls channel path case fuel index (request :: rest) left exchange
        world = call ::
          (match answer with
          | .inl _ => []
          | .inr exchange' =>
              settings.sendCalls channel path case fuel (index + 1) rest left.tail exchange'
                last) ∧
      after.closed = false ∧ ∀ received completed,
        (sent = .ok () → SentAs ⟨request.name, bytes, received, completed⟩ call) ∧
          SentAs ⟨request.name, bytes.take (channel.lastSentLen after).toNat, received,
            completed⟩ call := by
  obtain ⟨before, hbytes, hsend, hcalls⟩ := sendCalls_cons hsent hanswer
  have hbefore : before.closed = false := by
    rw [← hopen]
    exact stepBytes_keeps Net.closed
      (fun callback hcallback => hover.transition (mem_of_head hleft callback hcallback)) hbytes
  have hcall := hreturns ⟨bytes, before, sent, after⟩ (hcalls ▸ List.mem_cons_self)
  refine ⟨_, hcalls, ?_, fun received completed => ?_⟩
  · exact (sentAs_of_returns hchannel hbounded hbefore hsend hcall).1
  · exact (sentAs_of_returns hchannel hbounded hbefore hsend hcall).2 _ received completed

theorem executeSteps_sentAs (hover : settings.OverTcp path socket endpoint)
    (hchannel : channel.OverTcp socket endpoint) (hbounded : socket.Bounded)
    {result : CaseResult} {last : Net σ} : ∀ {rest : List CompiledRequest} {index : Nat}
    {left : List (Option (EdgeCallback (Net σ)))} {exchange : Exchange} {world : Net σ},
    left ⊆ path.transitions → world.closed = false →
    (∀ call ∈ settings.sendCalls channel path case fuel index rest left exchange world,
      ∃ answer after,
        Connection.Returns socket endpoint call.payload call.before answer after) →
    settings.executeSteps channel path case fuel index rest left exchange world =
      (.done result, last) →
    ∃ steps, result.steps = exchange.steps ++ steps ∧
      List.Forall₂ SentAs steps
        (settings.sendCalls channel path case fuel index rest left exchange world) := by
  intro rest
  induction rest with
  | nil =>
      intro index left exchange world _ _ _ hrun
      cases hrun
      exact ⟨[], (List.append_nil _).symm, .nil⟩
  | cons request rest ih =>
      intro index left exchange world hleft hopen hreturns hrun
      rw [executeSteps] at hrun
      obtain ⟨answer, middle, hanswer, hrun⟩ := Act.bind_eq_done.mp hrun
      cases executeStep_cases hanswer with
      | unsent hsent =>
          obtain ⟨call, hcalls, -, hsentAs⟩ := sendCalls_sentAs hover hchannel hbounded hleft
            hopen hreturns hsent hanswer
          rw [hcalls]
          cases hrun
          exact ⟨_, rfl, .cons (hsentAs _ _).2 .nil⟩
      | unread hsent hread houtcome =>
          obtain ⟨call, hcalls, -, hsentAs⟩ := sendCalls_sentAs hover hchannel hbounded hleft
            hopen hreturns hsent hanswer
          rw [hcalls]
          cases hrun
          exact ⟨_, rfl, .cons ((hsentAs _ _).1 rfl) .nil⟩
      | refused hsent hread houtcome hcheck _ =>
          obtain ⟨call, hcalls, -, hsentAs⟩ := sendCalls_sentAs hover hchannel hbounded hleft
            hopen hreturns hsent hanswer
          rw [hcalls]
          cases hrun
          exact ⟨_, rfl, .cons ((hsentAs _ _).1 rfl) .nil⟩
      | @accepted bytes received _ _ _ sent later _ hsent hread houtcome hcheck =>
          obtain ⟨call, hcalls, hclosed, hsentAs⟩ := sendCalls_sentAs hover hchannel hbounded
            hleft hopen hreturns hsent hanswer
          rw [hcalls] at hreturns ⊢
          have hlater : (settings.receiveStage channel (settings.policyOf request)
              rest.isEmpty exchange.pending fuel sent).2.closed = sent.closed :=
            receiveStage_unchanged hover.toLeaves hchannel.receive _ _ _ sent
          rw [hread] at hlater
          have hmiddle := hover.check request.name received later
          rw [hcheck] at hmiddle
          obtain ⟨steps, hsteps, hall⟩ := ih
            (List.Subset.trans (List.tail_subset left) hleft)
            ((hmiddle.trans hlater).trans hclosed)
            (fun call hcall => hreturns call (List.mem_cons_of_mem _ hcall)) hrun
          refine ⟨⟨request.name, bytes, received, true⟩ :: steps, ?_,
            .cons ((hsentAs _ _).1 rfl) hall⟩
          rw [hsteps, List.append_assoc]
          rfl

/-- What the steps of a case record as sent is what the socket accepted. -/
theorem execute_sentAs (hover : settings.OverTcp path socket endpoint)
    (hbounded : socket.Bounded) {world last : Net σ} {result : CaseResult}
    (hreturns : ∀ call ∈ settings.caseCalls path case fuel world, ∃ answer after,
      Connection.Returns socket endpoint call.payload call.before answer after)
    (hexecute : settings.execute path case fuel world = (.done result, last)) :
    List.Forall₂ SentAs result.steps (settings.caseCalls path case fuel world) := by
  unfold caseCalls at hreturns ⊢
  cases execute_cases hexecute with
  | barred hbefore =>
      rw [hbefore]
      exact .nil
  | undialed hbefore hdial =>
      rw [hbefore]
      dsimp only
      rw [hdial]
      exact .nil
  | unheard hbefore hdial hserver hheard =>
      rw [hbefore]
      dsimp only
      rw [hdial]
      simp only [hserver, if_true, hheard]
      exact .nil
  | @ran channel _ ready dialed started _ hbefore hdial hserver hrun =>
      rw [hbefore] at hreturns ⊢
      dsimp only at hreturns ⊢
      rw [hdial] at hreturns ⊢
      dsimp only at hreturns ⊢
      obtain ⟨hopen, hchannel⟩ := hover.dial hdial
      split at hserver
      · rename_i hwaits
        obtain ⟨received, hheard⟩ := hserver
        have hkept := hchannel.receive settings.receiveLimit.toInt
          settings.receiveTimeout.toInt dialed
        rw [hheard] at hkept
        simp only [hwaits, if_true, hheard] at hreturns ⊢
        obtain ⟨steps, hsteps, hall⟩ := executeSteps_sentAs hover hchannel hbounded
          (List.Subset.refl _) (hkept.trans hopen) hreturns hrun
        rw [hsteps]
        exact hall
      · rename_i hwaits
        subst hserver
        simp only [hwaits] at hreturns ⊢
        obtain ⟨steps, hsteps, hall⟩ := executeSteps_sentAs hover hchannel hbounded
          (List.Subset.refl _) hopen hreturns hrun
        rw [hsteps]
        exact hall

end

/-! A socket that accepts as many bytes as a script says, and fails at its end. -/

def dripSocket : Socket (List Int) where
  nowMs script := (0, script)
  wait _ _ script := (1, script)
  send _ _ length
    | [] => (-1, [])
    | count :: rest => (min count length, rest)
  error _ := 104

def dripEndpoint : Endpoint := ⟨[], 80, 5000, 5000, 5000, 64⟩

theorem dripSocket_bounded : dripSocket.Bounded := by
  intro bytes offset length script
  cases script with
  | nil =>
      change (-1 : Int) ≤ length
      omega
  | cons count rest => exact min_le_right _ _

theorem dripSocket_settled {bytes : Bytes} {deadline : Int} : ∀ {fuel offset : Nat}
    {net : Net (List Int)}, net.outside.length < fuel →
    (Connection.sendLoop dripSocket bytes deadline fuel offset net).1.Settled := by
  intro fuel
  induction fuel with
  | zero =>
      intro offset net hlt
      exact absurd hlt (Nat.not_lt_zero _)
  | succ fuel ih =>
      intro offset net hlt
      rw [Connection.sendLoop]
      split
      · have hwait : ∃ answer, Connection.waitReady dripSocket .send deadline net =
            (answer, net) ∧ answer.Settled := by
          change ∃ answer, (if 0 < wrap64 (deadline - 0) then _ else _ : Act _ _ Unit) net = _ ∧ _
          split
          · exact ⟨.done (), rfl, by simp⟩
          · exact ⟨.raised (.timeout .send), rfl, by simp⟩
        obtain ⟨answer, hwait, hsettled⟩ := hwait
        cases answer with
        | pending => exact absurd rfl hsettled
        | raised error =>
            rw [Act.bind_raised hwait]
            simp
        | done token =>
            rw [Act.bind_done hwait]
            obtain ⟨script, closed, lastSent, accepted⟩ := net
            cases script with
            | nil => exact Eval.raised_settled _
            | cons count script =>
                have hlater : ∀ {offset : Nat} {net : Net (List Int)}, net.outside = script →
                    (Connection.sendLoop dripSocket bytes deadline fuel offset
                      net).1.Settled := by
                  intro offset net hrest
                  apply ih
                  rw [hrest]
                  exact Nat.lt_of_succ_lt_succ hlt
                obtain ⟨sent, next, hoffer, hrest⟩ : ∃ sent next,
                    Connection.socketSend dripSocket bytes offset
                        (min (bytes.length - offset) 16384)
                        ⟨count :: script, closed, lastSent, accepted⟩ = (.done sent, next) ∧
                      next.outside = script := ⟨_, _, rfl, rfl⟩
                rw [Act.bind_done hoffer]
                split
                · exact hlater hrest
                · split
                  · rw [Act.bind_perform]
                    exact hlater hrest
                  · exact Eval.raised_settled _
      · simp

def dripSend (bytes : Bytes) (net : Net (List Int)) :
    Eval TransportError Unit × Net (List Int) :=
  Connection.send dripSocket dripEndpoint bytes (net.outside.length + 1) net

theorem dripSend_settled (bytes : Bytes) (net : Net (List Int)) :
    (dripSend bytes net).1.Settled := by
  rw [dripSend, Connection.send, Act.bind_perform, Act.bind_perform]
  split
  · exact Eval.raised_settled _
  · exact dripSocket_settled (Nat.lt_succ_self _)

def dripChannel : Channel (Net (List Int)) where
  send bytes net :=
    match dripSend bytes net with
    | (.done (), last) => (.ok (), last)
    | (.raised error, last) => (.error error, last)
    | (.pending, last) => (.error (.timeout .send), last)
  receive _ _ net := (.ok .closed, net)
  lastSentLen net := net.lastSent
  close net := { net with closed := true }

theorem dripChannel_overTcp : dripChannel.OverTcp dripSocket dripEndpoint where
  send := by
    intro bytes net last answer hreturns
    have hsend : dripSend bytes net = (Eval.ofExcept answer, last) :=
      hreturns.answer (dripSend_settled bytes net)
    simp only [dripChannel, hsend]
    cases answer <;> rfl
  lastSentLen _ := rfl
  receive _ _ _ := rfl

theorem dripSocket_returns (bytes : Bytes) (net : Net (List Int)) : ∃ answer last,
    Connection.Returns dripSocket dripEndpoint bytes net answer last := by
  have hsettled := dripSend_settled bytes net
  cases hsend : dripSend bytes net with
  | mk answer last =>
      rw [hsend] at hsettled
      cases answer with
      | done token => exact ⟨.ok (), last, _, hsend⟩
      | raised error => exact ⟨.error error, last, _, hsend⟩
      | pending => exact absurd rfl hsettled

def dripSettings : Settings (Net (List Int)) where
  dial net := (.ok dripChannel, { net with closed := false })
  clock := ⟨fun net => (0, net), fun _ net => net⟩
  debug := ⟨fun _ => [], fun _ => []⟩
  policies := []
  receiveLimit := 64
  receiveTimeout := 1000
  limit := 1
  monitor :=
    ⟨fun _ net => (.ok (), net), fun _ net => (.ok (), net), fun _ net => (.ok (), net),
      fun _ net => (.ok true, net), fun _ _ net => (.ok true, net)⟩
  mode := .sequential
  vars := none
  checkDataReceived := false
  receiveDataAfterFuzz := false
  ignoreConnectionReset := false
  ignoreConnectionAborted := false
  ignoreConnectionIssuesWhenSendingFuzzData := false
  restartThreshold := none
  restartTimeoutMs := none
  restartSleepMs := 0
  sleepBetweenMs := 0
  crashThresholdRequest := 1
  crashThresholdElement := 1
  start := 0
  endIndex := none
  udpServer := false

def dripPath : SessionPath (EdgeCallback (Net (List Int))) :=
  ⟨[CompiledRequest.pairedRequest], [none]⟩

theorem dripSettings_overTcp :
    dripSettings.OverTcp dripPath dripSocket dripEndpoint where
  check _ _ _ := rfl
  clock _ := rfl
  transition := by simp [dripPath]
  dial := by
    intro world last channel hdial
    cases hdial
    exact ⟨rfl, dripChannel_overTcp⟩

/-- A socket that would block, accepts one byte of two and fails. -/
theorem dripSettings_sentAs : ∃ result last,
    dripSettings.execute dripPath CaseStream.pairedCase 9 ⟨[-2, 1], true, 0, []⟩ =
        (.done result, last) ∧
      result.steps.map (·.sent) = [[0x33]] ∧
      List.Forall₂ SentAs result.steps
        (dripSettings.caseCalls dripPath CaseStream.pairedCase 9
          ⟨[-2, 1], true, 0, []⟩) :=
  ⟨_, _, rfl, rfl, execute_sentAs dripSettings_overTcp dripSocket_bounded
    (fun call _ => dripSocket_returns call.payload call.before) rfl⟩

end Settings

/-! What a run sends beside what `generate` emits. -/

namespace Settings

variable {ω : Type} {settings : Settings ω} {channel : Channel ω}
  {path : SessionPath (EdgeCallback ω)} {case : MutationCase} {fuel : Nat}
  {messages : List Bytes}

/-- Whatever the variables of the session are, the requests of the path render to these
messages, the last one with the parts of the case. -/
def Renders (path : SessionPath (EdgeCallback ω)) (case : MutationCase)
    (messages : List Bytes) : Prop :=
  ∀ before request rest, path.requests = before ++ request :: rest →
    ∀ vars fuel bytes, rendering request (if rest.isEmpty then some case.parts else none) vars
      fuel = .done bytes → messages[before.length]? = some bytes

/-- A result that is passed has sent these messages, one at each step. -/
def Sends (messages : List Bytes) (result : CaseResult) : Prop :=
  result.outcome = .passed → result.steps.map (·.sent) = messages

theorem sends_of_ne {result : CaseResult} (houtcome : result.outcome ≠ .passed) :
    Sends messages result := fun hpassed => absurd hpassed houtcome

theorem stepped_sends (hrenders : Renders path case messages)
    (hbare : ∀ callback, some callback ∉ path.transitions) :
    StepRule settings channel path case fuel
      (fun before exchange _ => exchange.steps.map (·.sent) = messages.take before.length)
      (fun result _ => Sends messages result) := by
  intro before request rest transition exchange world answer last hrequests htransition hsent
    hstepped
  refine ⟨fun result hresult => ?_, fun exchange' hexchange => ?_⟩
  · cases hstepped with
    | unsent hsend =>
        cases hresult
        apply sends_of_ne
        dsimp only [report]
        split
        · simp
        · exact transportOutcome_ne _
    | unread hsend hread houtcome =>
        cases hresult
        exact sends_of_ne (readOutcome_ne houtcome)
    | refused hsend hread houtcome hcheck hanswer =>
        cases hresult
        exact sends_of_ne (refusal_ne _)
    | accepted => cases hresult
  · cases hstepped with
    | accepted hsend hread houtcome hcheck =>
        cases hexchange
        obtain ⟨ready, hbytes, -⟩ := hsend.bytes
        obtain ⟨rendered, replacement, hcrossed, hrendered, rfl⟩ := stepBytes_eq_done.mp hbytes
        cases transition with
        | some callback => exact absurd (htransition callback rfl) (hbare callback)
        | none =>
            cases hcrossed
            have hmessage := hrenders before request rest hrequests _ _ _ hrendered
            rw [List.map_append, hsent, List.length_append, List.length_singleton,
              List.take_add_one, hmessage]
            rfl
    | _ => cases hexchange

theorem execute_sends (hrenders : Renders path case messages)
    (hbare : ∀ callback, some callback ∉ path.transitions)
    (hlength : messages.length = path.requests.length) :
    Act.Always (Sends messages) (settings.execute path case fuel) := by
  intro world result last hexecute
  cases execute_cases hexecute with
  | barred hbefore => exact sends_of_ne (by simp [report])
  | undialed hbefore hdial => exact sends_of_ne (transportOutcome_ne _)
  | unheard hbefore hdial hserver hheard => exact sends_of_ne (transportOutcome_ne _)
  | ran hbefore hdial hserver hrun =>
      refine executeSteps_rule _ (fun result _ => Sends messages result)
        (stepped_sends hrenders hbare) (fun exchange world hend _ => ?_) rfl hrun
      rw [← hlength, List.take_length] at hend
      exact hend

theorem attempt_sends (hrenders : Renders path case messages)
    (hbare : ∀ callback, some callback ∉ path.transitions)
    (hlength : messages.length = path.requests.length) :
    Act.Always (fun answer => Sends messages answer.1) (settings.attempt path case fuel) :=
  attempt_keeps (fun _ _ _ houtcome => sends_of_ne houtcome)
    (execute_sends hrenders hbare hlength)

theorem renders_prefixes {prefixes : List Bytes} (hne : path.requests ≠ [])
    (hstatic : ∀ request ∈ path.requests, request.Static)
    (hprefixes : Eval.Returns path.prefixes prefixes)
    (hpayload : Eval.Returns (path.target.renderCase case.parts none) case.payload) :
    Renders path case (prefixes ++ [case.payload]) ∧
      (prefixes ++ [case.payload]).length = path.requests.length := by
  obtain ⟨hlength, hmessages⟩ := SessionPath.prefixes_getElem hprefixes
  have hpositive := List.length_pos_of_ne_nil hne
  rw [List.length_dropLast] at hlength
  refine ⟨fun before request rest hrequests vars fuel bytes hrendered => ?_, ?_⟩
  · have hrequest : request.Static := hstatic request (by rw [hrequests]; simp)
    cases rest with
    | nil =>
        have htarget : path.target = request := by
          rw [SessionPath.target, hrequests, List.getLastD_concat]
        have hsame : prefixes.length = before.length := by
          rw [hlength, hrequests, List.length_append]
          rfl
        change request.renderCase case.parts (some vars) fuel = .done bytes at hrendered
        rw [hrequest.renderCase] at hrendered
        rw [htarget] at hpayload
        obtain rfl := hpayload.unique (request.renderCase_mono case.parts none) ⟨fuel, hrendered⟩
        rw [← hsame, List.getElem?_append_right (le_refl _), Nat.sub_self]
        rfl
    | cons next later =>
        change request.renderWith (some vars) fuel = .done bytes at hrendered
        rw [hrequest.renderWith] at hrendered
        have hat : path.requests.dropLast[before.length]? = some request := by
          rw [hrequests, List.dropLast_append_cons, List.dropLast_cons_cons,
            List.getElem?_append_right (le_refl _), Nat.sub_self]
          rfl
        obtain ⟨message, hmessage, hreturns⟩ := hmessages _ _ hat
        obtain rfl := hreturns.unique request.render_mono ⟨fuel, hrendered⟩
        exact List.getElem?_append_left (List.getElem?_eq_some_iff.mp hmessage).1 ▸ hmessage
  · rw [List.length_append, hlength, List.length_singleton]
    omega

end Settings

theorem ProtocolDefinition.Parsed.target_compiles {κ : Type} {definition : ProtocolDefinition κ}
    (hparsed : Parsed definition) {path : SessionPath κ} (hpath : path ∈ definition.paths) :
    path.requests ≠ [] ∧ path.target.Compiles := by
  obtain ⟨hne, hrequests⟩ := hparsed.requests path hpath
  exact ⟨hne, hparsed.compiled _ (hrequests _ (target_mem hne))⟩

/-- The messages that a generated case stands for: the prefixes and its payload. -/
def GeneratedCase.messages (item : GeneratedCase) : List Bytes :=
  item.prefixes ++ [item.case.payload]

namespace Runner

open CaseStream ProtocolDefinition

variable {ω : Type} {paths : List (SessionPath (EdgeCallback ω))} {settings : Settings ω}
  {runner last : Runner ω} {world after : ω} {results : List CaseResult}

theorem Runs.attempts {holds : Runner ω → Prop} (hruns : Runs holds runner world results last after)
    (hfurnished : Furnished paths settings runner) :
    ∀ result ∈ results, ∃ index fuel world stop between,
      settings.attempt (paths.getD index ⟨[], []⟩) result.case fuel world =
        (.done (result, stop), between) := by
  induction hruns with
  | nil runner world => exact List.forall_mem_nil _
  | cons hcall _ _ ih =>
      obtain ⟨found, middle, stop, hround⟩ := next_some hcall
      obtain ⟨between, hattempt⟩ := hround.attempt
      have hmiddle := hfurnished.seekCase hround.seek
      rw [hmiddle.settings_eq, hmiddle.paths_eq] at hattempt
      obtain rfl : _ = found := (Settings.attempt_sound _ _ _ hattempt).case
      exact List.forall_mem_cons.mpr
        ⟨⟨middle.index, _, _, stop, between, hattempt⟩, ih (hfurnished.next hcall)⟩

variable {definition : ProtocolDefinition (EdgeCallback ω)}

/-- A result that is passed has sent, step by step, the messages of any case with its identity
that `generate` emits. -/
theorem passed_sends (hparsed : Parsed definition)
    (hstatic : ∀ request ∈ definition.requests, request.Static)
    (hsingle : settings.mode = .sequential →
      ∀ request ∈ definition.requests, request.SinglyGrouped)
    (hbare : ∀ path ∈ definition.paths, ∀ callback, some callback ∉ path.transitions)
    (hnew : withDialer definition.paths settings = .ok runner)
    (htotal : total (candidatesOf settings.mode definition.paths) < 2147483647)
    (hruns : Runs (fun _ => True) runner world results last after)
    {result : CaseResult} (hmem : result ∈ results) (hpassed : result.outcome = .passed)
    {start : Int32} {cases : List GeneratedCase}
    (hgenerates : definition.Generates settings.mode start cases) {item : GeneratedCase}
    (hitem : item ∈ cases) (hid : result.id = item.caseId) :
    result.steps.map (·.sent) = item.messages := by
  obtain ⟨-, -, hordered⟩ := hruns.calls.ordered hnew
    (fun path hpath => hparsed.target_compiles hpath) htotal
  obtain ⟨path, hgiven, hsound⟩ := (hordered result hmem).1.given
  obtain ⟨hne, hrequests⟩ := hparsed.requests path hgiven.mem
  have htarget := hrequests _ (target_mem hne)
  obtain ⟨index, fuel, before, stop, between, hattempt⟩ :=
    hruns.attempts (withDialer_furnished hnew) result hmem
  have hnames : (definition.paths.getD index ⟨[], []⟩).names = path.names :=
    (Settings.attempt_sound _ _ _ hattempt).path.symm.trans hsound.path
  have hpath : definition.paths.getD index ⟨[], []⟩ = path := by
    rw [List.getD_eq_getElem?_getD] at hnames ⊢
    cases hfound : definition.paths[index]? with
    | none =>
        rw [hfound] at hnames
        exact absurd (List.map_eq_nil_iff.mp hnames.symm) hne
    | some other =>
        rw [hfound] at hnames
        exact hparsed.path_eq (List.mem_of_getElem? hfound) hgiven.mem hnames
  rw [hpath] at hattempt
  obtain ⟨path', hpath', case, hhands, horiginates⟩ := hgenerates.hands hitem
  rw [hsound.id, hhands.caseId, SessionPath.caseId, SessionPath.caseId, List.append_assoc,
    List.append_assoc] at hid
  obtain ⟨hsame, htail⟩ := Json.stringify_append_inj hid
  obtain rfl := hparsed.path_eq hpath' hgiven.mem hsame.symm
  obtain ⟨root, maxBytes, enough, hcompile⟩ := hparsed.compiled _ htarget
  have hassembled := (CompiledRequest.compile_eq_done hcompile).assembled
  obtain ⟨position, front, leaf, hcount, hsettles, hbuild⟩ :=
    horiginates.settles hassembled fun hmode _ hparts =>
      hassembled.settles (hsingle hmode _ htarget) (List.mem_of_getElem? hparts)
  obtain ⟨raw, first, skip, henumerates, hkept⟩ := hgiven.kept
  obtain ⟨position', parts, inner, hparts, hbuilt, hcase⟩ := mem_slots hkept
  obtain ⟨hparts_ne, hexist⟩ := henumerates.exist (hparsed.target_compiles hpath').2 hparts
  have hids : path'.target.caseId parts = path'.target.caseId (front ++ [leaf]) := by
    rw [← buildCase_id hbuilt, ← buildCase_id hbuild]
    rw [hcase] at htail
    exact List.append_cancel_left htail
  obtain rfl := CompiledRequest.caseId_inj hassembled.table hparts_ne (by simp)
    (fun part hpart => CompiledRequest.lt_of_count (hexist part hpart))
    (fun part hpart => CompiledRequest.lt_of_count (hcount part hpart)) hids
  obtain ⟨hsameParts, hsamePayload⟩ := (hstatic _ htarget).buildCase_same hbuilt hbuild
  have hpayload := CompiledRequest.renderCase_parts hassembled.table hcount hsettles hbuild
  have hshown : result.case.parts = case.parts ∧ result.case.payload = case.payload := by
    rw [hcase]
    exact ⟨hsameParts, hsamePayload⟩
  rw [← hshown.1, ← hshown.2] at hpayload
  obtain ⟨hrenders, hlength⟩ := Settings.renders_prefixes hne
    (fun request hrequest => hstatic _ (hrequests _ hrequest)) hhands.prefixes hpayload
  rw [GeneratedCase.messages, hhands.case.2, ← hshown.2]
  exact Settings.attempt_sends hrenders (hbare path' hpath') hlength _ _ _ hattempt hpassed

/-- The cases that are due: those before the end, as many as the limit lets through. -/
def dueCases (settings : Settings ω) (cases : List GeneratedCase) : List GeneratedCase :=
  (cases.filter fun item => beforeEnd settings.endIndex item.case.ordinal).take
    settings.limit.toInt.toNat

/-- What the result has sent is the case that was generated. -/
structure Sends (result : CaseResult) (item : GeneratedCase) : Prop where
  pair : result.pair = item.pair
  sent : result.steps.map (·.sent) = item.messages

/-- A run all of whose cases pass sends what `generate` emits from the start offset on, case by
case and step by step; and all that is due when it has come to its end. -/
theorem runs_send (hparsed : Parsed definition)
    (hstatic : ∀ request ∈ definition.requests, request.Static)
    (hsingle : settings.mode = .sequential →
      ∀ request ∈ definition.requests, request.SinglyGrouped)
    (hbare : ∀ path ∈ definition.paths, ∀ callback, some callback ∉ path.transitions)
    (hnew : withDialer definition.paths settings = .ok runner)
    (htotal : total (candidatesOf settings.mode definition.paths) < 2147483647)
    (hstart : 0 ≤ settings.start.toInt)
    (hruns : Runs (fun _ => True) runner world results last after)
    (hpassed : ∀ result ∈ results, result.outcome = .passed) :
    ∃ cases, definition.Generates settings.mode settings.start cases ∧
      List.Forall₂ Sends results ((dueCases settings cases).take results.length) ∧
      (last.state = .running → ∀ fuel world stopped after,
        last.next fuel world = (.done none, stopped, after) →
          (dueCases settings cases).length = results.length) := by
  have hcompiles : ∀ path ∈ definition.paths, ∀ request ∈ path.requests, request.Compiles :=
    fun path hpath request hrequest =>
      hparsed.compiled _ ((hparsed.requests path hpath).2 request hrequest)
  have hignores : ∀ path ∈ definition.paths, path.target.Ignores settings.vars := by
    intro path hpath
    obtain ⟨hne, hrequests⟩ := hparsed.requests path hpath
    exact (hstatic _ (hrequests _ (target_mem hne))).ignores settings.vars
  obtain ⟨cases, rest, hgenerates, hkept, hcount, hends⟩ :=
    runs_due hnew hcompiles hignores htotal hstart hruns
      fun result hmem => by rw [hpassed result hmem]; rfl
  have hpairs : (dueCases settings cases).map GeneratedCase.pair =
      results.map CaseResult.pair ++
        (Slot.kept rest).take (settings.limit.toInt.toNat - results.length) := by
    rw [dueCases, List.map_take]
    have hfiltered : (cases.filter fun item =>
        beforeEnd settings.endIndex item.case.ordinal).map GeneratedCase.pair =
          results.map CaseResult.pair ++ Slot.kept rest := by
      rw [← hkept, List.filter_map]
      rfl
    rw [hfiltered, List.take_append, List.length_map, List.take_of_length_le]
    rwa [List.length_map]
  refine ⟨cases, hgenerates, ?_, fun hstate fuel world stopped after hnext => ?_⟩
  · have hshown : ((dueCases settings cases).take results.length).map GeneratedCase.pair =
        results.map CaseResult.pair := by
      rw [List.map_take, hpairs, ← List.length_map CaseResult.pair, List.take_left]
    have haligned : List.Forall₂ (fun result item => result.pair = GeneratedCase.pair item) results
        ((dueCases settings cases).take results.length) := by
      rw [← List.forall₂_eq_eq_eq, List.forall₂_map_left_iff, List.forall₂_map_right_iff] at hshown
      exact hshown.flip.imp fun _ _ hpair => hpair.symm
    have hresults := (List.forall₂_and_left results _).mpr ⟨fun _ hmem => hmem, haligned⟩
    have hboth := (List.forall₂_and_left _ results).mpr
      ⟨fun (item : GeneratedCase) hmem => hmem, hresults.flip⟩
    refine hboth.flip.imp fun result item hshared => ?_
    obtain ⟨hitem, hmem, hpair⟩ := hshared
    have hcase : item ∈ cases :=
      List.mem_of_mem_filter (List.mem_of_mem_take (List.mem_of_mem_take hitem))
    exact ⟨hpair, passed_sends hparsed hstatic hsingle hbare hnew htotal hruns hmem
      (hpassed result hmem) hgenerates hcase (congrArg Prod.fst hpair)⟩
  · have hlength := congrArg List.length hpairs
    rw [List.length_append, List.length_map, List.length_map, List.length_take] at hlength
    rcases hends hstate fuel world stopped after hnext with hfull | hdone
    · omega
    · rw [hdone.kept, List.length_nil] at hlength
      omega

theorem Sends.messages {items : List GeneratedCase} (hsends : List.Forall₂ Sends results items) :
    (results.flatMap fun result => result.steps.map (·.sent)) =
      items.flatMap GeneratedCase.messages := by
  induction hsends with
  | nil => rfl
  | cons hfirst _ ih => rw [List.flatMap_cons, List.flatMap_cons, hfirst.sent, ih]

/-- The stream of messages of a run all of whose cases pass, whatever the channel is, is a
beginning of the messages that `generate` emits from the start offset on; and all of those that
are due when the run has come to its end. -/
theorem sends_generated (hparsed : Parsed definition)
    (hstatic : ∀ request ∈ definition.requests, request.Static)
    (hsingle : settings.mode = .sequential →
      ∀ request ∈ definition.requests, request.SinglyGrouped)
    (hbare : ∀ path ∈ definition.paths, ∀ callback, some callback ∉ path.transitions)
    (hnew : withDialer definition.paths settings = .ok runner)
    (htotal : total (candidatesOf settings.mode definition.paths) < 2147483647)
    (hstart : 0 ≤ settings.start.toInt)
    (hruns : Runs (fun _ => True) runner world results last after)
    (hpassed : ∀ result ∈ results, result.outcome = .passed) :
    ∃ cases, definition.Generates settings.mode settings.start cases ∧
      (results.flatMap fun result => result.steps.map (·.sent)) <+:
        (dueCases settings cases).flatMap GeneratedCase.messages ∧
      (last.state = .running → ∀ fuel world stopped after,
        last.next fuel world = (.done none, stopped, after) →
          (results.flatMap fun result => result.steps.map (·.sent)) =
            (dueCases settings cases).flatMap GeneratedCase.messages) := by
  obtain ⟨cases, hgenerates, hsends, hends⟩ :=
    runs_send hparsed hstatic hsingle hbare hnew htotal hstart hruns hpassed
  have hmessages := Sends.messages hsends
  refine ⟨cases, hgenerates, ?_, fun hstate fuel world stopped after hnext => ?_⟩
  · rw [hmessages]
    exact (List.take_prefix _ _).flatMap _
  · rw [hmessages, ← hends hstate fuel world stopped after hnext, List.take_length]

theorem pairedRequest_parsed {path : SessionPath (EdgeCallback ω)}
    (hrequests : path.requests = [CompiledRequest.pairedRequest]) :
    Parsed ⟨[CompiledRequest.pairedRequest], [path]⟩ where
  compiled := by
    intro request hrequest
    obtain rfl := List.mem_singleton.mp hrequest
    exact ⟨_, _, 4, CompiledRequest.pairedRoot_compiles⟩
  requests := by
    intro other hother
    obtain rfl := List.mem_singleton.mp hother
    rw [hrequests]
    exact ⟨by simp, fun request hrequest => hrequest⟩
  distinct := List.nodup_singleton _

theorem sends_generated_paired :
    ∃ cases, ProtocolDefinition.Generates
        ⟨[CompiledRequest.pairedRequest], [Settings.linerPath]⟩ .sequential 0 cases ∧
      [[0x32, 0x34], [0x33, 0x34], [0x31, 0x35]] <+:
        (dueCases (pairedSettings 0 none) cases).flatMap GeneratedCase.messages := by
  obtain ⟨runner, last, world, middle, hnew, hruns⟩ := paired_runs
  have hbare : ∀ path ∈ [Settings.linerPath], ∀ callback, some callback ∉ path.transitions := by
    intro path hpath callback
    obtain rfl := List.mem_singleton.mp hpath
    simp [Settings.linerPath]
  obtain ⟨cases, hgenerates, hprefix, -⟩ := sends_generated (pairedRequest_parsed rfl)
    pairedRequest_static (fun _ => pairedRequest_singlyGrouped) hbare hnew pairedRequest_length
    (by decide) hruns (by decide)
  exact ⟨cases, hgenerates, hprefix⟩

end Runner

end MoonBoofuzz
