import MoonBoofuzz.Runner.Reading
import MoonBoofuzz.Runner.Sound
import MoonBoofuzz.Mutation.Replay

namespace MoonBoofuzz

structure ReplayResult where
  caseId : Text
  steps : List StepResult
  outcome : Outcome
  failedStep : Option Int
  deriving Repr, DecidableEq

structure ReplayConfig where
  policies : List (Text × ReadPolicy)
  receiveLimit : Int
  receiveTimeout : Int

namespace CaseRecord

variable {ω : Type}

def replayFailed (record : CaseRecord) (channel : Channel ω) (index : Nat)
    (original : RecordedStep) (steps : List StepResult) (received : Bytes)
    (error : TransportError) (world : ω) : ReplayResult where
  caseId := record.caseId
  steps := steps ++ [⟨original.requestName,
    original.sent.take (channel.lastSentLen world).toNat, received, false⟩]
  outcome := transportOutcome error
  failedStep := some index

def replaySteps (record : CaseRecord) (config : ReplayConfig) (channel : Channel ω)
    (clock : Clock ω) (fuel : Nat) : Nat → List RecordedStep → List StepResult → Bytes →
      Act ModelError ω ReplayResult
  | _, [], steps, _ => pure ⟨record.caseId, steps, .passed, none⟩
  | index, original :: rest, steps, pending => do
      match ← Act.perform (channel.send original.sent) with
      | .error error => fun world =>
          (.done (record.replayFailed channel index original steps [] error world), world)
      | .ok () => do
          let policy := (config.policies.lookup original.requestName).getD .noResponse
          let response ← readResponse channel clock policy pending config.receiveLimit
            config.receiveTimeout fuel
          match response.completed with
          | .error error => fun world =>
              (.done (record.replayFailed channel index original steps response.received
                error world), world)
          | .ok true =>
              record.replaySteps config channel clock fuel (index + 1) rest
                (steps ++ [⟨original.requestName, original.sent, response.received, true⟩])
                response.pending
          | .ok false =>
              pure ⟨record.caseId,
                steps ++ [⟨original.requestName, original.sent, response.received, false⟩],
                .peerClosed, some index⟩

/-- `replay_sequence`; a record that is not valid is refused. -/
def replaySequence (record : CaseRecord) (config : ReplayConfig)
    (dial : Attempt TransportError ω (Channel ω)) (clock : Clock ω) (fuel : Nat) :
    Act ModelError ω (Except RecordError ReplayResult) :=
  match record.validate with
  | .error error => pure (.error error)
  | .ok () => do
      match ← Act.perform dial with
      | .error error =>
          pure (.ok ⟨record.caseId, [], transportOutcome error, some (-1)⟩)
      | .ok channel =>
          Act.deferring (do
            let result ← record.replaySteps config channel clock fuel 0 record.steps [] []
            pure (.ok result)) channel.close

end CaseRecord

/-! A target that answers by what has been sent to it and asked of it. -/

inductive Call where
  | send (bytes : Bytes)
  | receive (size : Int)
  deriving Repr, DecidableEq

/-- The answer to each call, given the calls before it. -/
structure Peer where
  send : List Call → Bytes → Except TransportError Unit
  receive : List Call → Int → Except TransportError Received

/-- The channel answers as the peer does, a send that succeeds is accepted as a whole,
and the deadlines do not expire. -/
structure Channel.Follows (channel : Channel ω) (clock : Clock ω) (peer : Peer)
    (history : ω → List Call) (timeout : Int) : Prop where
  send : ∀ bytes world, (channel.send bytes world).1 = peer.send (history world) bytes
  sending : ∀ bytes world,
    history (channel.send bytes world).2 = history world ++ [.send bytes]
  receive : ∀ size timeout world,
    (channel.receive size timeout world).1 = peer.receive (history world) size
  receiving : ∀ size timeout world,
    history (channel.receive size timeout world).2 = history world ++ [.receive size]
  close : ∀ world, history (channel.close world) = history world
  sent : ∀ {bytes : Bytes} {world last : ω}, channel.send bytes world = (.ok (), last) →
    channel.lastSentLen last = bytes.length
  sentKept : ∀ size timeout world,
    channel.lastSentLen (channel.receive size timeout world).2 = channel.lastSentLen world
  clockKept : ∀ world, history (clock.monotonicMs world).2 = history world ∧
    channel.lastSentLen (clock.monotonicMs world).2 = channel.lastSentLen world
  patient : ∀ start now,
    0 < wrap64 (wrap64 ((clock.monotonicMs start).1 + timeout) - (clock.monotonicMs now).1)

section

variable {ω ω' : Type} {channel : Channel ω} {clock : Clock ω} {channel' : Channel ω'}
  {clock' : Clock ω'} {peer : Peer} {history : ω → List Call} {history' : ω' → List Call}
  {timeout : Int}

structure SameRead (channel : Channel ω) (history : ω → List Call) (world : ω)
    (answer : Eval ModelError Response × ω) (response : Response) (calls : List Call) :
    Prop where
  done : answer.1 = .done response
  calls : history answer.2 = calls
  sent : channel.lastSentLen answer.2 = channel.lastSentLen world

theorem receive_same (hfirst : channel.Follows clock peer history timeout)
    (hsecond : channel'.Follows clock' peer history' timeout) {world : ω} {world' : ω'}
    (hhistory : history' world' = history world) (size limit limit' : Int) :
    ∃ answer after after', channel.receive size limit world = (answer, after) ∧
      channel'.receive size limit' world' = (answer, after') ∧
      history' after' = history after ∧
      channel'.lastSentLen after' = channel'.lastSentLen world' := by
  refine ⟨_, _, _, rfl, Prod.ext ?_ rfl, ?_, hsecond.sentKept size limit' world'⟩
  · rw [hsecond.receive, hfirst.receive, hhistory]
  · rw [hsecond.receiving, hfirst.receiving, hhistory]

theorem readLoop_same (hfirst : channel.Follows clock peer history timeout)
    (hsecond : channel'.Follows clock' peer history' timeout) {policy : ReadPolicy}
    {deadline deadline' limit : Int}
    (hpatient : ∀ now, 0 < wrap64 (deadline - (clock.monotonicMs now).1))
    (hpatient' : ∀ now, 0 < wrap64 (deadline' - (clock'.monotonicMs now).1)) :
    ∀ {fuel : Nat} {pending : Bytes} {world last : ω} {world' : ω'} {response : Response},
      history' world' = history world →
      readLoop channel clock policy deadline limit fuel pending world =
        (.done response, last) →
      SameRead channel' history' world'
        (readLoop channel' clock' policy deadline' limit fuel pending world') response
        (history last) := by
  have hclock : ∀ world world', history' world' = history world →
      history' (clock'.monotonicMs world').2 = history (clock.monotonicMs world).2 := by
    intro world world' hhistory
    rw [(hsecond.clockKept world').1, (hfirst.clockKept world).1, hhistory]
  intro fuel
  induction fuel with
  | zero =>
      intro pending world last world' response _ hloop
      cases hloop
  | succ fuel ih =>
      intro pending world last world' response hhistory hloop
      unfold readLoop at hloop ⊢
      cases henough : policy.enough pending with
      | some count =>
          rw [henough] at hloop
          cases hloop
          exact ⟨rfl, hhistory, rfl⟩
      | none =>
          rw [henough] at hloop
          dsimp only at hloop ⊢
          split at hloop
          · rename_i hroom
            rw [if_pos hroom]
            rw [Act.bind_perform] at hloop ⊢
            rw [if_pos (hpatient world)] at hloop
            rw [if_pos (hpatient' world')]
            rw [Act.bind_perform] at hloop ⊢
            obtain ⟨answer, after, after', hreceive, hreceive', hcalls, hsent⟩ :=
              receive_same hfirst hsecond (hclock world world' hhistory)
                (limit - pending.length) _ _
            rw [hreceive] at hloop
            rw [hreceive']
            rw [(hsecond.clockKept world').2] at hsent
            cases answer with
            | error error =>
                cases hloop
                exact ⟨rfl, hcalls, hsent⟩
            | ok received =>
                cases received with
                | closed =>
                    cases hloop
                    exact ⟨rfl, hcalls, hsent⟩
                | data bytes =>
                    dsimp only at hloop ⊢
                    split at hloop
                    · rename_i hempty
                      rw [if_pos hempty]
                      cases hloop
                      exact ⟨rfl, hcalls, hsent⟩
                    · rename_i hbytes
                      rw [if_neg hbytes]
                      have hsame := ih hcalls hloop
                      exact ⟨hsame.done, hsame.calls, hsame.sent.trans hsent⟩
          · rename_i hroom
            rw [if_neg hroom]
            cases hloop
            exact ⟨rfl, hhistory, rfl⟩

theorem readResponse_same (hfirst : channel.Follows clock peer history timeout)
    (hsecond : channel'.Follows clock' peer history' timeout) {policy : ReadPolicy}
    {limit : Int} {fuel : Nat} {pending : Bytes} {world last : ω} {world' : ω'}
    {response : Response} (hhistory : history' world' = history world)
    (hread : readResponse channel clock policy pending limit timeout fuel world =
      (.done response, last)) :
    SameRead channel' history' world'
      (readResponse channel' clock' policy pending limit timeout fuel world') response
      (history last) := by
  have hkept := hsecond.clockKept world'
  have hclock : history' (clock'.monotonicMs world').2 =
      history (clock.monotonicMs world).2 := by
    rw [hkept.1, (hfirst.clockKept world).1, hhistory]
  by_cases hnone : policy = .noResponse
  · subst hnone
    cases hread
    exact ⟨rfl, hhistory, rfl⟩
  · by_cases hdatagram : policy = .datagram
    · subst hdatagram
      simp only [readResponse, Act.bind_perform] at hread ⊢
      obtain ⟨answer, after, after', hreceive, hreceive', hcalls, hsent⟩ :=
        receive_same hfirst hsecond hclock limit timeout timeout
      rw [hreceive] at hread
      rw [hreceive']
      rw [hkept.2] at hsent
      cases answer with
      | error error =>
          cases hread
          exact ⟨rfl, hcalls, hsent⟩
      | ok received =>
          cases received with
          | closed =>
              cases hread
              exact ⟨rfl, hcalls, hsent⟩
          | data bytes =>
              cases hread
              exact ⟨rfl, hcalls, hsent⟩
    · rw [readResponse_loop hnone hdatagram] at hread ⊢
      have hsame := readLoop_same hfirst hsecond (hfirst.patient world)
        (hsecond.patient world') hclock hread
      exact ⟨hsame.done, hsame.calls, hsame.sent.trans hkept.2⟩

end

namespace CaseRecord

section

variable {ω : Type} {channel : Channel ω} {clock : Clock ω} {fuel : Nat} {pending : Bytes}
  {world middle last : ω} {response : Response} (record : CaseRecord)
  (config : ReplayConfig) (index : Nat) (original : RecordedStep) (steps : List StepResult)

def stepPolicy (config : ReplayConfig) (original : RecordedStep) : ReadPolicy :=
  (config.policies.lookup original.requestName).getD .noResponse

theorem replaySteps_read (hsend : channel.send original.sent world = (.ok (), middle))
    (hread : readResponse channel clock (stepPolicy config original) pending
      config.receiveLimit config.receiveTimeout fuel middle = (.done response, last))
    (hcompleted : response.completed = .ok true) (rest : List RecordedStep) :
    record.replaySteps config channel clock fuel index (original :: rest) steps pending
        world =
      record.replaySteps config channel clock fuel (index + 1) rest
        (steps ++ [⟨original.requestName, original.sent, response.received, true⟩])
        response.pending last := by
  rw [stepPolicy] at hread
  rw [replaySteps, Act.bind_perform, hsend]
  dsimp only
  rw [Act.bind_done hread, hcompleted]

theorem replaySteps_unread (hsend : channel.send original.sent world = (.ok (), middle))
    (hread : readResponse channel clock (stepPolicy config original) pending
      config.receiveLimit config.receiveTimeout fuel middle = (.done response, last))
    (hcompleted : response.completed ≠ .ok true)
    (hsent : channel.lastSentLen last = original.sent.length) (rest : List RecordedStep) :
    ∃ replay, record.replaySteps config channel clock fuel index (original :: rest) steps
        pending world = (.done replay, last) ∧
      replay.steps =
        steps ++ [⟨original.requestName, original.sent, response.received, false⟩] := by
  rw [stepPolicy] at hread
  rw [replaySteps, Act.bind_perform, hsend]
  dsimp only
  rw [Act.bind_done hread]
  cases hanswer : response.completed with
  | error error =>
      refine ⟨_, rfl, ?_⟩
      simp only [replayFailed, hsent, Int.toNat_natCast, List.take_length]
  | ok flag =>
      cases flag with
      | false => exact ⟨_, rfl, rfl⟩
      | true => exact absurd hanswer hcompleted

end

end CaseRecord

namespace Settings

variable {ω ω' : Type}

def replayConfig (settings : Settings ω) : ReplayConfig :=
  ⟨settings.policies, settings.receiveLimit.toInt, settings.receiveTimeout.toInt⟩

/-- Every dial gives a fresh channel to the peer, and nothing else calls it. -/
structure Faces (settings : Settings ω) (path : SessionPath (EdgeCallback ω)) (peer : Peer)
    (history : ω → List Call) : Prop where
  fresh : ∀ {world last : ω} {channel : Channel ω},
    settings.dial world = (.ok channel, last) → history last = [] ∧
      channel.Follows settings.clock peer history settings.receiveTimeout.toInt
  check : ∀ name bytes world,
    history (settings.monitor.check name bytes world).2 = history world
  transition : ∀ {callback : EdgeCallback ω}, some callback ∈ path.transitions →
    ∀ context world, history (callback context world).2 = history world

section

variable {settings : Settings ω} {channel : Channel ω} {peer : Peer}
  {history : ω → List Call} {path : SessionPath (EdgeCallback ω)} {case : MutationCase}
  {fuel : Nat}

theorem Sent.follows {request : CompiledRequest} {transition : Option (EdgeCallback ω)}
    {parts : Option (List (Text × Nat))} {exchange : Exchange} {world last : ω}
    {bytes : Bytes} {vars : Vars} {answer : Except TransportError Unit} {timeout : Int}
    (hfollows : channel.Follows settings.clock peer history timeout)
    (htransition : ∀ callback, transition = some callback →
      ∀ context world, history (callback context world).2 = history world)
    (hsent : Sent channel request transition parts exchange fuel world bytes vars answer
      last) :
    peer.send (history world) bytes = answer ∧
      history last = history world ++ [.send bytes] := by
  obtain ⟨before, hbytes, hsend⟩ := hsent.bytes
  have hbefore := stepBytes_keeps history htransition hbytes
  have hanswer := hfollows.send bytes before
  have hcalls := hfollows.sending bytes before
  rw [hsend, hbefore] at hanswer hcalls
  exact ⟨hanswer.symm, hcalls⟩

theorem receiveStage_response (hafter : settings.receiveDataAfterFuzz = false)
    {policy : ReadPolicy} {fuzzNode : Bool} {pending received left : Bytes}
    {read : ReadOutcome} {world last : ω}
    (hread : settings.receiveStage channel policy fuzzNode pending fuel world =
      (.done (read, received, left), last)) :
    ∃ response, readResponse channel settings.clock policy pending
        settings.receiveLimit.toInt settings.receiveTimeout.toInt fuel world =
          (.done response, last) ∧
      response.received = received ∧ response.pending = left ∧
      (read = .complete ↔ response.completed = .ok true) := by
  unfold receiveStage at hread
  split at hread
  · rename_i hnone
    subst hnone
    rw [hafter, Bool.and_false, if_neg (by simp)] at hread
    cases hread
    exact ⟨_, rfl, rfl, rfl, by simp⟩
  · obtain ⟨response, middle, hresponse, hread⟩ := Act.bind_eq_done.mp hread
    cases hcompleted : response.completed with
    | error error =>
        rw [hcompleted] at hread
        cases hread
        exact ⟨response, hresponse, rfl, rfl, by simp [hcompleted, readFailure_ne]⟩
    | ok flag =>
        rw [hcompleted] at hread
        cases flag with
        | false =>
            cases hread
            exact ⟨response, hresponse, rfl, rfl, by simp [hcompleted]⟩
        | true =>
            cases hread
            exact ⟨response, hresponse, rfl, rfl, by simp [hcompleted]⟩

/-- An exchange that succeeded up to the end of its receive stage happens again. -/
theorem exchange_same {channel' : Channel ω'} {clock' : Clock ω'}
    {history' : ω' → List Call}
    (hfirst : channel.Follows settings.clock peer history settings.receiveTimeout.toInt)
    (hsecond : channel'.Follows clock' peer history' settings.receiveTimeout.toInt)
    (hafter : settings.receiveDataAfterFuzz = false) {request : CompiledRequest}
    {transition : Option (EdgeCallback ω)} {parts : Option (List (Text × Nat))}
    {exchange : Exchange} {fuzzNode : Bool} {read : ReadOutcome}
    {bytes received left : Bytes} {vars : Vars} {world middle later : ω} {world' : ω'}
    (htransition : ∀ callback, transition = some callback →
      ∀ context world, history (callback context world).2 = history world)
    (hhistory : history' world' = history world)
    (hsent : Sent channel request transition parts exchange fuel world bytes vars (.ok ())
      middle)
    (hread : settings.receiveStage channel (settings.policyOf request) fuzzNode
      exchange.pending fuel middle = (.done (read, received, left), later)) :
    ∃ response middle' later',
      channel'.send bytes world' = (.ok (), middle') ∧
      readResponse channel' clock' (settings.policyOf request) exchange.pending
        settings.receiveLimit.toInt settings.receiveTimeout.toInt fuel middle' =
          (.done response, later') ∧
      history' later' = history later ∧
      channel'.lastSentLen later' = bytes.length ∧
      response.received = received ∧ response.pending = left ∧
      (read = .complete ↔ response.completed = .ok true) := by
  obtain ⟨hsend, hcalls⟩ := hsent.follows hfirst htransition
  obtain ⟨response, hresponse, hreceived, hleft, hcomplete⟩ :=
    receiveStage_response hafter hread
  have hsend' : channel'.send bytes world' = (.ok (), (channel'.send bytes world').2) :=
    Prod.ext (by rw [hsecond.send, hhistory, hsend]) rfl
  have hcalls' : history' (channel'.send bytes world').2 = history middle := by
    rw [hsecond.sending, hhistory, hcalls]
  have hsame := readResponse_same hfirst hsecond hcalls' hresponse
  refine ⟨response, _, _, hsend', Prod.ext hsame.done rfl, hsame.calls, ?_, hreceived, hleft,
    hcomplete⟩
  rw [hsame.sent, hsecond.sent hsend']

end

def AllSent (peer : Peer) (calls : List Call) : Prop :=
  ∀ front bytes back, calls = front ++ .send bytes :: back → peer.send front bytes = .ok ()

end Settings

namespace CaseResult

def refused (result : CaseResult) : Bool :=
  match result.outcome with
  | .responseMismatch => true
  | .callbackFailed _ => true
  | _ => false

/-- The steps of a replay: a last one that only the monitor refused is completed. -/
def replayedSteps (result : CaseResult) : List StepResult :=
  if result.refused then
    result.steps.dropLast ++
      (result.steps.getLast?.map fun step => { step with completed := true }).toList
  else result.steps

theorem replayedSteps_refused {result : CaseResult} (steps : List StepResult)
    (step : StepResult) (hrefused : result.refused = true)
    (hsteps : result.steps = steps ++ [step]) :
    result.replayedSteps = steps ++ [{ step with completed := true }] := by
  rw [replayedSteps, if_pos hrefused, hsteps]
  simp

theorem replayedSteps_kept {result : CaseResult} (hrefused : result.refused = false) :
    result.replayedSteps = result.steps := by
  rw [replayedSteps, hrefused]
  rfl

end CaseResult

namespace Settings

section

variable {ω ω' : Type} {settings : Settings ω} {channel : Channel ω} {channel' : Channel ω'}
  {clock' : Clock ω'} {peer : Peer} {history : ω → List Call} {history' : ω' → List Call}
  {path : SessionPath (EdgeCallback ω)} {case : MutationCase} {fuel : Nat}
  {record : CaseRecord} {start' : ω'}

/-- The replay of the steps so far stands where the execution stands. -/
def Mirrors (settings : Settings ω) (record : CaseRecord) (channel' : Channel ω')
    (clock' : Clock ω') (history : ω → List Call) (history' : ω' → List Call) (fuel : Nat)
    (start' : ω') (exchange : Exchange) (world : ω) : Prop :=
  ∃ world', history' world' = history world ∧ ∀ rest,
    record.replaySteps settings.replayConfig channel' clock' fuel 0
        (exchange.steps.map StepResult.recorded ++ rest) [] [] start' =
      record.replaySteps settings.replayConfig channel' clock' fuel exchange.steps.length
        rest exchange.steps exchange.pending world'

/-- The replay of the steps of a result gives them again after the same calls. -/
def Replays (settings : Settings ω) (record : CaseRecord) (channel' : Channel ω')
    (clock' : Clock ω') (peer : Peer) (history : ω → List Call)
    (history' : ω' → List Call) (fuel : Nat) (start' : ω') (result : CaseResult) (last : ω) :
    Prop :=
  AllSent peer (history last) → ∃ replay last',
    record.replaySteps settings.replayConfig channel' clock' fuel 0
        (result.steps.map StepResult.recorded) [] [] start' = (.done replay, last') ∧
      history' last' = history last ∧ replay.steps = result.replayedSteps

theorem readOutcome_refused {index : Nat} {received : Bytes} {read : ReadOutcome}
    {outcome : Outcome} (hread : settings.readOutcome index received read = some outcome)
    (steps : List StepResult) (failedStep : Option Int) :
    (report path case steps outcome failedStep).refused = false := by
  have hupgrade : ∀ other : Outcome, (report path case steps other failedStep).refused =
      false → (report path case steps (readOutcome.upgrade settings received other)
        failedStep).refused = false := by
    intro other hother
    unfold readOutcome.upgrade
    split
    · rfl
    · exact hother
  cases read with
  | complete => cases hread
  | timedOut =>
      cases hread
      exact hupgrade _ rfl
  | closed =>
      cases hread
      exact hupgrade _ rfl
  | resetAborted code =>
      cases hread
      exact hupgrade _ rfl
  | failed error =>
      cases hread
      unfold transportOutcome
      split <;> rfl

theorem stepped_replays
    (hfirst : channel.Follows settings.clock peer history settings.receiveTimeout.toInt)
    (hsecond : channel'.Follows clock' peer history' settings.receiveTimeout.toInt)
    (hfaces : settings.Faces path peer history)
    (hafter : settings.receiveDataAfterFuzz = false) :
    StepRule settings channel path case fuel
      (fun _ => Mirrors settings record channel' clock' history history' fuel start')
      (Replays settings record channel' clock' peer history history' fuel start') := by
  intro before request rest transition exchange world answer last hrequests htransition
    hmirrors hstepped
  obtain ⟨world', hhistory, hreplay⟩ := hmirrors
  have hcallbacks : ∀ callback, transition = some callback →
      ∀ context world, history (callback context world).2 = history world :=
    fun callback hcallback => hfaces.transition (htransition callback hcallback)
  have hchecked : ∀ {bytes : Bytes} {answer : Except CallbackError Bool}
      {before after : ω}, settings.monitor.check request.name bytes before =
        (answer, after) → history after = history before := by
    intro bytes answer before after hcheck
    have hkept := hfaces.check request.name bytes before
    rwa [hcheck] at hkept
  cases hstepped with
  | unsent hsent =>
      refine ⟨fun result hresult hallsent => ?_, by simp⟩
      obtain ⟨hsend, hcalls⟩ := hsent.follows hfirst hcallbacks
      rw [hallsent _ _ [] hcalls] at hsend
      cases hsend
  | @unread bytes received pending vars read outcome middle last hsent hread houtcome =>
      refine ⟨fun result hresult _ => ?_, by simp⟩
      cases hresult
      obtain ⟨response, middle', later', hsend, hresponse, hcalls, hlength, rfl, rfl,
        hcomplete⟩ := exchange_same hfirst hsecond hafter hcallbacks hhistory hsent hread
      have hincomplete : response.completed ≠ .ok true := by
        intro htrue
        rw [hcomplete.mpr htrue] at houtcome
        cases houtcome
      obtain ⟨replay, hreplayed, hsteps⟩ := CaseRecord.replaySteps_unread record
        settings.replayConfig exchange.steps.length
        ⟨request.name, bytes, response.received, false⟩ exchange.steps hsend hresponse
        hincomplete hlength []
      refine ⟨replay, later', ?_, hcalls, ?_⟩
      · simp only [report, List.map_append]
        rw [← hreplayed]
        exact hreplay _
      · rw [hsteps, CaseResult.replayedSteps_kept (readOutcome_refused houtcome _ _)]
        rfl
  | @refused bytes received pending vars read answer middle later last hsent hread houtcome
      hcheck hanswer =>
      refine ⟨fun result hresult _ => ?_, by simp⟩
      cases hresult
      obtain ⟨response, middle', later', hsend, hresponse, hcalls, hlength, rfl, rfl,
        hcomplete⟩ := exchange_same hfirst hsecond hafter hcallbacks hhistory hsent hread
      have htrue := hcomplete.mp (readOutcome_none houtcome)
      refine ⟨⟨record.caseId, exchange.steps ++ [⟨request.name, bytes, response.received,
        true⟩], .passed, none⟩, later', ?_, hcalls.trans (hchecked hcheck).symm, ?_⟩
      · simp only [report, List.map_append]
        refine (hreplay _).trans ?_
        rw [List.map_singleton, CaseRecord.replaySteps_read _ _ _ _ _ hsend hresponse htrue]
        rfl
      · rw [CaseResult.replayedSteps_refused exchange.steps
          ⟨request.name, bytes, response.received, false⟩ ?_ rfl]
        cases answer <;> rfl
  | @accepted bytes received pending vars read middle later last hsent hread houtcome
      hcheck =>
      refine ⟨by simp, fun exchange' hexchange => ?_⟩
      cases hexchange
      obtain ⟨response, middle', later', hsend, hresponse, hcalls, hlength, rfl, rfl,
        hcomplete⟩ := exchange_same hfirst hsecond hafter hcallbacks hhistory hsent hread
      have htrue := hcomplete.mp (readOutcome_none houtcome)
      refine ⟨later', hcalls.trans (hchecked hcheck).symm, fun rest => ?_⟩
      simp only [List.map_append, List.append_assoc, List.length_append,
        List.length_singleton]
      refine (hreplay _).trans ?_
      rw [List.map_singleton, List.singleton_append,
        CaseRecord.replaySteps_read _ _ _ _ _ hsend hresponse htrue]
      rfl

/-- A replay of the record of a case makes the calls of its execution again and gives
its steps again. -/
theorem replay_reproduces {dial' : Attempt TransportError ω' (Channel ω')} {world last : ω}
    {world' dialed' : ω'} {result : CaseResult} (hserver : settings.udpServer = false)
    (hafter : settings.receiveDataAfterFuzz = false)
    (hfaces : settings.Faces path peer history) (hbelongs : Belongs path case)
    (hexecute : settings.execute path case fuel world = (.done result, last))
    (hsteps : result.steps ≠ []) (hsent : AllSent peer (history last))
    (hdial : dial' world' = (.ok channel', dialed')) (hfresh : history' dialed' = [])
    (hfollows : channel'.Follows clock' peer history' settings.receiveTimeout.toInt) :
    ∃ replay last',
      (settings.record result).replaySequence settings.replayConfig dial' clock' fuel
          world' = (.done (.ok replay), last') ∧
        history' last' = history last ∧ replay.steps = result.replayedSteps := by
  have hvalid : (settings.record result).validate = .ok () :=
    CaseRecord.validate_ok.mpr
      (record_valid (execute_sound _ _ _ hexecute) hbelongs settings)
  cases execute_cases hexecute with
  | barred hbefore => exact absurd rfl hsteps
  | undialed hbefore hdial => exact absurd rfl hsteps
  | unheard hbefore hdial hserver hheard => exact absurd rfl hsteps
  | @ran channel _ ready dialed started last hbefore hfirst hstarted hrun =>
      rw [hserver, if_neg (by simp)] at hstarted
      subst hstarted
      obtain ⟨hempty, hchannel⟩ := hfaces.fresh hfirst
      have hmirrors : Mirrors settings (settings.record result) channel' clock' history
          history' fuel dialed' (Exchange.start settings.vars) started :=
        ⟨dialed', hfresh.trans hempty.symm, fun _ => rfl⟩
      have hend : ∀ exchange world, Mirrors settings (settings.record result) channel' clock'
          history history' fuel dialed' exchange world →
          Replays settings (settings.record result) channel' clock' peer history history'
            fuel dialed' (report path case exchange.steps .passed none) world := by
        rintro exchange world ⟨world', hhistory, hreplay⟩ _
        have hall := hreplay []
        rw [List.append_nil] at hall
        exact ⟨⟨(settings.record result).caseId, exchange.steps, .passed, none⟩, world', hall,
          hhistory, rfl⟩
      obtain ⟨replay, last', hreplay, hcalls, hreplayed⟩ := executeSteps_rule _ _
        (stepped_replays hchannel hfollows hfaces hafter) hend hmirrors hrun
        (by rwa [hchannel.close] at hsent)
      refine ⟨replay, channel'.close last', ?_, ?_, hreplayed⟩
      · rw [CaseRecord.replaySequence, hvalid]
        dsimp only
        rw [Act.bind_perform, hdial]
        have hsteps : (settings.record result).replaySteps settings.replayConfig channel'
            clock' fuel 0 (settings.record result).steps [] [] dialed' =
              (.done replay, last') := hreplay
        simp only [Act.deferring]
        rw [Act.bind_done hsteps]
        rfl
      · rw [hfollows.close, hcalls, hchannel.close]

end

end Settings

/-! A target that keeps the calls made on it. -/

namespace Peer

def sentLength (calls : List Call) : Int :=
  calls.foldl (fun length call =>
    match call with
    | .send bytes => bytes.length
    | .receive _ => length) 0

def channel (peer : Peer) : Channel (List Call) where
  send bytes calls := (peer.send calls bytes, calls ++ [.send bytes])
  receive size _ calls := (peer.receive calls size, calls ++ [.receive size])
  lastSentLen := sentLength
  close calls := calls

def clock : Clock (List Call) where
  monotonicMs calls := (0, calls)
  sleepMs _ calls := calls

theorem channel_follows (peer : Peer) {timeout : Int} (hlower : 0 < timeout)
    (hupper : timeout < 9223372036854775808) :
    peer.channel.Follows clock peer id timeout where
  send _ _ := rfl
  sending _ _ := rfl
  receive _ _ _ := rfl
  receiving _ _ _ := rfl
  close _ := rfl
  sent := by
    intro bytes calls last hsend
    obtain ⟨-, rfl⟩ := Prod.mk.inj hsend
    simp [channel, sentLength]
  sentKept _ _ _ := by simp [channel, sentLength]
  clockKept _ := ⟨rfl, rfl⟩
  patient _ _ := by
    have hdeadline : wrap64 (0 + timeout) = timeout :=
      (congrArg wrap64 (Int.zero_add timeout)).trans
        (wrap64_eq_self (by omega) hupper)
    simp only [clock]
    rw [hdeadline, Int.sub_zero, wrap64_eq_self (by omega) hupper]
    exact hlower

def liner : Peer where
  send _ _ := .ok ()
  receive _ _ := .ok (.data [0x41, 10])

end Peer

namespace Settings

def linerSettings : Settings (List Call) where
  dial _ := (.ok Peer.liner.channel, [])
  clock := Peer.clock
  debug := ⟨fun _ => [], fun _ => []⟩
  policies := [(Text.ofAscii "r", .untilDelimiter [10])]
  receiveLimit := 64
  receiveTimeout := 1000
  limit := 1
  monitor :=
    ⟨fun _ calls => (.ok (), calls), fun _ calls => (.ok (), calls),
      fun _ calls => (.ok (), calls), fun _ calls => (.ok true, calls),
      fun _ _ calls => (.ok false, calls)⟩
  mode := .sequential
  vars := none
  checkDataReceived := false
  receiveDataAfterFuzz := false
  ignoreConnectionReset := false
  ignoreConnectionAborted := false
  ignoreConnectionIssuesWhenSendingFuzzData := false
  restartThreshold := none
  restartTimeoutMs := none
  restartSleepMs := 0
  sleepBetweenMs := 0
  crashThresholdRequest := 1
  crashThresholdElement := 1
  start := 0
  endIndex := none
  udpServer := false

def linerPath : SessionPath (EdgeCallback (List Call)) :=
  ⟨[CompiledRequest.pairedRequest], [none]⟩

theorem liner_faces :
    linerSettings.Faces linerPath Peer.liner id where
  fresh := by
    intro calls last channel hdial
    cases hdial
    exact ⟨rfl, Peer.channel_follows _ (by decide) (by decide)⟩
  check _ _ _ := rfl
  transition := by simp [linerPath]

def linerResult : CaseResult :=
  report linerPath CaseStream.pairedCase
    [⟨Text.ofAscii "r", [0x33, 0x35], [0x41, 10], false⟩] .responseMismatch (some 0)

/-- The response that the monitor refused is read again. -/
theorem liner_reproduces :
    ∃ replay last, (linerSettings.record linerResult).replaySequence
        linerSettings.replayConfig linerSettings.dial Peer.clock 9 [] =
          (.done (.ok replay), last) ∧
      last = [.send [0x33, 0x35], .receive 64] ∧
      replay.steps = [⟨Text.ofAscii "r", [0x33, 0x35], [0x41, 10], true⟩] := by
  have hbelongs : Belongs linerPath CaseStream.pairedCase :=
    ⟨by decide, by decide, by decide, by decide⟩
  have hsent : AllSent Peer.liner [.send [0x33, 0x35], .receive 64] := fun _ _ _ _ => rfl
  have hexecute : linerSettings.execute linerPath CaseStream.pairedCase 9 [] =
      (.done linerResult, [.send [0x33, 0x35], .receive 64]) := rfl
  have hdial : linerSettings.dial [] = (.ok Peer.liner.channel, []) := rfl
  have hfollows : Peer.liner.channel.Follows Peer.clock Peer.liner id 1000 :=
    Peer.channel_follows _ (by decide) (by decide)
  obtain ⟨replay, last, hreplay, hcalls, hsteps⟩ := replay_reproduces rfl rfl liner_faces
    hbelongs hexecute (by decide) hsent hdial rfl hfollows
  exact ⟨replay, last, hreplay, hcalls, hsteps⟩

end Settings

end MoonBoofuzz
