import MoonBoofuzz.Runner.Reading
import MoonBoofuzz.Runner.Steps

namespace MoonBoofuzz

/-! The received bytes of a case against the bytes that its channel delivered. -/

variable {ω : Type}

/-- A stream channel whose deliveries are noted: what a receive hands over, and nothing
else, is added. -/
structure Channel.Logs (channel : Channel ω) (delivered : ω → Bytes) : Prop where
  send : ∀ bytes world, delivered (channel.send bytes world).2 = delivered world
  data : ∀ {size timeout : Int} {world last : ω} {bytes : Bytes}, 0 < size →
    channel.receive size timeout world = (.ok (.data bytes), last) →
    bytes.length ≤ size ∧ delivered last = delivered world ++ bytes
  other : ∀ {size timeout : Int} {world last : ω}
    {answer : Except TransportError Received},
    channel.receive size timeout world = (answer, last) →
    (∀ bytes, answer ≠ .ok (.data bytes)) → delivered last = delivered world
  close : ∀ world, delivered (channel.close world) = delivered world

/-- Every channel of a case is such a channel, and nothing else delivers bytes. -/
structure Settings.Observes (settings : Settings ω) (path : SessionPath (EdgeCallback ω))
    (delivered : ω → Bytes) : Prop where
  dial : ∀ world, delivered (settings.dial world).2 = delivered world
  logs : ∀ {world last : ω} {channel : Channel ω},
    settings.dial world = (.ok channel, last) → channel.Logs delivered
  clock : ∀ world, delivered (settings.clock.monotonicMs world).2 = delivered world
  before : ∀ context world,
    delivered (settings.monitor.before context world).2 = delivered world
  check : ∀ name bytes world,
    delivered (settings.monitor.check name bytes world).2 = delivered world
  transition : ∀ {callback : EdgeCallback ω}, some callback ∈ path.transitions →
    ∀ context world, delivered (callback context world).2 = delivered world

/-- The fewest bytes of a response. -/
def ReadPolicy.least : ReadPolicy → Nat
  | .fixed length => length.toNat
  | .untilDelimiter delimiter => delimiter.length
  | _ => 0

theorem ReadPolicy.least_le {policy : ReadPolicy} {pending : Bytes} {count : Nat}
    (henough : policy.enough pending = some count) : policy.least ≤ count := by
  cases policy with
  | noResponse => cases henough
  | datagram => cases henough
  | fixed length =>
      simp only [enough, Option.ite_none_right_eq_some, Option.some.injEq] at henough
      exact le_of_eq henough.2
  | untilDelimiter delimiter =>
      simp only [enough, Option.map_eq_some_iff] at henough
      obtain ⟨i, -, rfl⟩ := henough
      exact Nat.le_add_left _ _

theorem ReadPolicy.enough_idle {policy : ReadPolicy} {limit : Int}
    (hstreams : policy.Streams limit) (hidle : policy.least = 0)
    (hreading : policy ≠ .noResponse) (pending : Bytes) :
    policy.enough pending = some 0 := by
  cases policy with
  | noResponse => exact absurd rfl hreading
  | datagram => exact absurd rfl hstreams.1
  | fixed length =>
      have hlength := (streams_fixed.mp hstreams).1
      simp only [least] at hidle
      simp only [enough, hidle]
      rw [if_pos (by omega)]
  | untilDelimiter delimiter =>
      exact absurd (List.length_eq_zero_iff.mp hidle) (streams_until.mp hstreams).1

/-- A response was read off the bytes that were pending or have been delivered. -/
structure Logged (policy : ReadPolicy) (limit : Int) (pending new : Bytes)
    (response : Response) : Prop where
  keeps : Keeps limit (pending ++ new) response []
  bound : (pending ++ new).length ≤ limit
  least : response.completed = .ok true → policy.least ≤ response.received.length

section

variable {channel : Channel ω} {clock : Clock ω} {delivered : ω → Bytes}
  {policy : ReadPolicy} {limit : Int}

theorem readLoop_logged (hlogs : channel.Logs delivered)
    (hclock : ∀ world, delivered (clock.monotonicMs world).2 = delivered world)
    (hstreams : policy.Streams limit) {deadline : Int} :
    ∀ {fuel : Nat} {pending : Bytes} {world last : ω} {response : Response},
      pending.length ≤ limit →
      readLoop channel clock policy deadline limit fuel pending world =
        (.done response, last) →
      ∃ new, delivered last = delivered world ++ new ∧
        Logged policy limit pending new response := by
  intro fuel
  induction fuel with
  | zero =>
      intro pending world last response _ hloop
      cases hloop
  | succ fuel ih =>
      intro pending world last response hbounded hloop
      have hkeeps : ∀ completed : Except TransportError Bool, completed ≠ .ok true →
          Logged policy limit pending [] ⟨pending, pending, completed⟩ :=
        fun completed hcompleted =>
          ⟨keeps_pending hbounded hcompleted, by simpa using hbounded,
            fun htrue => absurd htrue hcompleted⟩
      unfold readLoop at hloop
      cases henough : policy.enough pending with
      | some count =>
          rw [henough] at hloop
          cases hloop
          refine ⟨[], (List.append_nil _).symm, keeps_taken hbounded count,
            by simpa using hbounded, fun _ => ?_⟩
          have hcount : count ≤ pending.length := by
            have htake := ReadPolicy.enough_take hstreams pending pending.length
            rw [List.take_length, henough] at htake
            simpa using (Option.filter_eq_some_iff.mp htake.symm).2
          simp only [List.length_take]
          have hleast := ReadPolicy.least_le henough
          omega
      | none =>
          rw [henough] at hloop
          dsimp only at hloop
          split at hloop
          · rename_i hroom
            simp only [Act.bind_perform] at hloop
            have htick := hclock world
            generalize clock.monotonicMs world = tick at htick hloop
            obtain ⟨now, ticked⟩ := tick
            dsimp only at htick hloop
            rw [← htick]
            split at hloop
            · rw [Act.bind_perform] at hloop
              cases hreceive : channel.receive (limit - pending.length)
                  (wrap32 (wrap64 (deadline - now))) ticked with
              | mk answer after =>
                  rw [hreceive] at hloop
                  cases answer with
                  | error error =>
                      cases hloop
                      refine ⟨[], ?_, hkeeps _ (by simp)⟩
                      rw [List.append_nil]
                      exact hlogs.other hreceive (by simp)
                  | ok received =>
                      cases received with
                      | closed =>
                          cases hloop
                          refine ⟨[], ?_, hkeeps _ (by simp)⟩
                          rw [List.append_nil]
                          exact hlogs.other hreceive (by simp)
                      | data bytes =>
                          obtain ⟨hlength, hdelivered⟩ :=
                            hlogs.data (by omega) hreceive
                          dsimp only at hloop
                          split at hloop
                          · rename_i hempty
                            subst hempty
                            cases hloop
                            exact ⟨[], hdelivered, hkeeps _ (by simp)⟩
                          · have hgrown : (pending ++ bytes).length ≤ limit := by
                              rw [List.length_append]
                              omega
                            obtain ⟨new, hnew, hlogged⟩ := ih hgrown hloop
                            refine ⟨bytes ++ new, ?_, ?_, ?_, hlogged.least⟩
                            · rw [hnew, hdelivered, List.append_assoc]
                            · rw [← List.append_assoc]
                              exact hlogged.keeps
                            · rw [← List.append_assoc]
                              exact hlogged.bound
            · cases hloop
              exact ⟨[], (List.append_nil _).symm, hkeeps _ (by simp)⟩
          · cases hloop
            exact ⟨[], (List.append_nil _).symm, hkeeps _ (by simp)⟩

/-- What a policy can leave pending: bytes beyond a response of fewer bytes than the
limit, or those that were pending before a response of no bytes. -/
def ReadPolicy.Leaves (policy : ReadPolicy) (limit : Int) (pending : Bytes) : Prop :=
  0 < policy.least ∧ policy.least < limit ∨ policy.least = 0 ∧ pending ≠ []

theorem Logged.leaves {pending new : Bytes} {response : Response}
    (hlogged : Logged policy limit pending new response)
    (hcompleted : response.completed = .ok true)
    (hidle : policy.least = 0 → response.pending = pending)
    (hpending : response.pending ≠ []) : policy.Leaves limit pending := by
  cases hleast : policy.least with
  | zero => exact Or.inr ⟨hleast, hidle hleast ▸ hpending⟩
  | succ least =>
      refine Or.inl ⟨by omega, ?_⟩
      have hsplit := hlogged.keeps.split
      have hbound := hlogged.bound
      have hreceived := hlogged.least hcompleted
      have hpositive := List.length_pos_iff.mpr hpending
      rw [Response.taken, if_pos hcompleted, List.append_nil] at hsplit
      rw [hsplit, List.length_append] at hbound
      omega

theorem readResponse_logged (hlogs : channel.Logs delivered)
    (hclock : ∀ world, delivered (clock.monotonicMs world).2 = delivered world)
    (hstreams : policy.Streams limit) {timeout : Int} {fuel : Nat} {pending : Bytes}
    {world last : ω} {response : Response} (hbounded : pending.length ≤ limit)
    (hread : readResponse channel clock policy pending limit timeout fuel world =
      (.done response, last)) :
    ∃ new, delivered last = delivered world ++ new ∧
      Logged policy limit pending new response ∧
      (policy.least = 0 → response.pending = pending) := by
  by_cases hreading : policy = .noResponse
  · subst hreading
    cases hread
    exact ⟨[], (List.append_nil _).symm, ⟨keeps_none hbounded, by simpa using hbounded,
      by simp [ReadPolicy.least]⟩, fun _ => rfl⟩
  · rw [readResponse_loop hreading hstreams.1] at hread
    obtain ⟨new, hnew, hlogged⟩ := readLoop_logged hlogs hclock hstreams hbounded hread
    rw [hclock] at hnew
    refine ⟨new, hnew, hlogged, fun hidle => ?_⟩
    have henough := ReadPolicy.enough_idle hstreams hidle hreading pending
    cases fuel with
    | zero => cases hread
    | succ fuel =>
        rw [readLoop, henough] at hread
        cases hread
        rfl

structure Staged (limit : Int) (policy : ReadPolicy) (pending new : Bytes)
    (read : ReadOutcome) (received left : Bytes) : Prop where
  first : received <+: pending ++ new
  split : read = .complete → received ++ left = pending ++ new
  bounded : read = .complete → left.length ≤ limit
  leaves : read = .complete → left ≠ [] → policy.Leaves limit pending

theorem Logged.staged {pending new : Bytes} {response : Response}
    (hlogged : Logged policy limit pending new response)
    (hidle : policy.least = 0 → response.pending = pending) {read : ReadOutcome}
    (hread : read = .complete → response.completed = .ok true) :
    Staged limit policy pending new read response.received response.pending where
  first := by
    have hsplit := hlogged.keeps.split
    rw [List.append_nil] at hsplit
    by_cases hcompleted : response.completed = .ok true
    · rw [Response.taken, if_pos hcompleted] at hsplit
      exact ⟨_, hsplit.symm⟩
    · rw [Response.taken, if_neg hcompleted] at hsplit
      rw [hlogged.keeps.kept hcompleted]
      exact ⟨[], by simpa using hsplit.symm⟩
  split := fun hcomplete => by
    have hsplit := hlogged.keeps.split
    rw [Response.taken, if_pos (hread hcomplete), List.append_nil] at hsplit
    exact hsplit.symm
  bounded := fun _ => hlogged.keeps.bounded
  leaves := fun hcomplete hleft => hlogged.leaves (hread hcomplete) hidle hleft

theorem receiveStage_staged {settings : Settings ω} (hlogs : channel.Logs delivered)
    (hclock : ∀ world, delivered (settings.clock.monotonicMs world).2 = delivered world)
    (hlimit : 0 < settings.receiveLimit.toInt)
    (hstreams : policy.Streams settings.receiveLimit.toInt) {fuzzNode : Bool}
    {pending received left : Bytes} {read : ReadOutcome} {fuel : Nat} {world last : ω}
    (hbounded : pending.length ≤ settings.receiveLimit.toInt)
    (hdirect : policy = .noResponse → fuzzNode = true →
      settings.receiveDataAfterFuzz = true → pending = [])
    (hread : settings.receiveStage channel policy fuzzNode pending fuel world =
      (.done (read, received, left), last)) :
    ∃ new, delivered last = delivered world ++ new ∧
      Staged settings.receiveLimit.toInt policy pending new read received left := by
  unfold Settings.receiveStage at hread
  split at hread
  · rename_i hnone
    subst hnone
    split at hread
    · rename_i hflags
      rw [Bool.and_eq_true] at hflags
      have hempty := hdirect rfl hflags.1 hflags.2
      subst hempty
      rw [Act.bind_perform] at hread
      cases hreceive : channel.receive settings.receiveLimit.toInt
          settings.receiveTimeout.toInt world with
      | mk answer after =>
          rw [hreceive] at hread
          cases answer with
          | error error =>
              cases hread
              refine ⟨[], ?_, ?_⟩
              · rw [List.append_nil]
                exact hlogs.other hreceive (by simp)
              · constructor <;> simp [Settings.readFailure_ne]
          | ok answer =>
              cases answer with
              | closed =>
                  cases hread
                  refine ⟨[], ?_, ?_⟩
                  · rw [List.append_nil]
                    exact hlogs.other hreceive (by simp)
                  · constructor <;> simp
              | data bytes =>
                  cases hread
                  obtain ⟨-, hdelivered⟩ := hlogs.data hlimit hreceive
                  refine ⟨received, hdelivered, ?_⟩
                  constructor <;> simp [le_of_lt hlimit]
    · cases hread
      refine ⟨[], (List.append_nil _).symm, ?_⟩
      constructor <;> simp [hbounded, ReadPolicy.Leaves, ReadPolicy.least]
  · obtain ⟨response, middle, hresponse, hread⟩ := Act.bind_eq_done.mp hread
    obtain ⟨new, hnew, hlogged, hidle⟩ :=
      readResponse_logged hlogs hclock hstreams hbounded hresponse
    cases hcompleted : response.completed with
    | error error =>
        rw [hcompleted] at hread
        cases hread
        exact ⟨new, hnew, hlogged.staged hidle fun h => absurd h (Settings.readFailure_ne error)⟩
    | ok flag =>
        rw [hcompleted] at hread
        cases flag with
        | false =>
            cases hread
            exact ⟨new, hnew, hlogged.staged hidle (by simp)⟩
        | true =>
            cases hread
            exact ⟨new, hnew, hlogged.staged hidle fun _ => hcompleted⟩

end

/-- The last of the responses that are read may be shorter than the limit, so that
bytes beyond it can be left over. -/
def Overreads (limit : Int) (plan : List ReadPolicy) : Prop :=
  ∃ before policy after, plan = before ++ policy :: after ∧ 0 < policy.least ∧
    policy.least < limit ∧ ∀ idle ∈ after, idle.least = 0

theorem overreads_snoc {limit : Int} {plan : List ReadPolicy} {policy : ReadPolicy}
    {pending : Bytes} (hbefore : pending ≠ [] → Overreads limit plan)
    (hleaves : policy.Leaves limit pending) : Overreads limit (plan ++ [policy]) := by
  rcases hleaves with ⟨hpositive, hshort⟩ | ⟨hidle, hpending⟩
  · exact ⟨plan, policy, [], rfl, hpositive, hshort, by simp⟩
  · obtain ⟨before, reading, after, rfl, hpositive, hshort, hafter⟩ := hbefore hpending
    refine ⟨before, reading, after ++ [policy], by simp, hpositive, hshort, ?_⟩
    rw [List.forall_mem_append]
    exact ⟨hafter, by simpa using hidle⟩

def receivedBytes (steps : List StepResult) : Bytes := steps.flatMap (·.received)

@[simp] theorem receivedBytes_snoc (steps : List StepResult) (step : StepResult) :
    receivedBytes (steps ++ [step]) = receivedBytes steps ++ step.received := by
  simp [receivedBytes]

namespace Settings

/-- The fuzzed request is read without the bytes that the responses before it may have
left. -/
def ReadsPast (requests : List CompiledRequest) (policies : List (Text × ReadPolicy))
    (limit : Int) (receiveDataAfterFuzz : Bool) : Prop :=
  receiveDataAfterFuzz = true ∧ ∃ before target, requests = before ++ [target] ∧
    tablePolicy policies target = .noResponse ∧
    Overreads limit (before.map (tablePolicy policies))

section

variable {settings : Settings ω} {channel : Channel ω} {delivered : ω → Bytes}
  {path : SessionPath (EdgeCallback ω)} {case : MutationCase} {fuel : Nat}

/-- Before a request, the delivered bytes are the received and the pending ones. -/
structure InStep (settings : Settings ω) (delivered : ω → Bytes) (start : Bytes)
    (before : List CompiledRequest) (exchange : Exchange) (world : ω) : Prop where
  delivered : delivered world = start ++ (receivedBytes exchange.steps ++ exchange.pending)
  bounded : exchange.pending.length ≤ settings.receiveLimit.toInt
  overread : exchange.pending ≠ [] → Overreads settings.receiveLimit.toInt
    (before.map (tablePolicy settings.policies))

/-- The received bytes are the first of those delivered since the start. -/
def Ordered (delivered : ω → Bytes) (start : Bytes) (result : CaseResult) (last : ω) :
    Prop :=
  ∃ new, delivered last = start ++ new ∧ receivedBytes result.steps <+: new

theorem tablePolicy_streams {policies : List (Text × ReadPolicy)} {limit : Int}
    (hpolicies : ∀ entry ∈ policies, entry.2.Streams limit) (request : CompiledRequest) :
    (tablePolicy policies request).Streams limit := by
  unfold tablePolicy
  cases hlookup : policies.lookup request.name with
  | none => exact ⟨by simp, rfl⟩
  | some policy =>
      obtain ⟨before, after, rfl, -⟩ := List.lookup_eq_some_iff.mp hlookup
      exact hpolicies (request.name, policy) (by simp)

theorem Sent.keeps {request : CompiledRequest} {transition : Option (EdgeCallback ω)}
    {parts : Option (List (Text × Nat))} {exchange : Exchange} {world last : ω}
    {bytes : Bytes} {vars : Vars} {answer : Except TransportError Unit}
    (hlogs : channel.Logs delivered)
    (htransition : ∀ callback, transition = some callback →
      ∀ context world, delivered (callback context world).2 = delivered world)
    (hsent : Sent channel request transition parts exchange fuel world bytes vars answer
      last) : delivered last = delivered world := by
  obtain ⟨before, hbytes, hsend⟩ := hsent.bytes
  have hlast := hlogs.send bytes before
  rw [hsend] at hlast
  rw [hlast]
  exact stepBytes_keeps delivered htransition hbytes

theorem stepped_ordered {start : Bytes} (hlogs : channel.Logs delivered)
    (hobserves : settings.Observes path delivered)
    (hlimit : 0 < settings.receiveLimit.toInt)
    (hpolicies : ∀ entry ∈ settings.policies,
      entry.2.Streams settings.receiveLimit.toInt)
    (hpast : ¬ ReadsPast path.requests settings.policies settings.receiveLimit.toInt
      settings.receiveDataAfterFuzz)
    {before rest : List CompiledRequest} {request : CompiledRequest}
    {transition : Option (EdgeCallback ω)} {exchange : Exchange} {world last : ω}
    {answer : CaseResult ⊕ Exchange} (hrequests : path.requests = before ++ request :: rest)
    (htransition : ∀ callback, transition = some callback →
      some callback ∈ path.transitions)
    (hinv : InStep settings delivered start before exchange world)
    (hstepped : Stepped settings channel path case before.length request transition
      rest.isEmpty exchange fuel world answer last) :
    (∀ result, answer = .inl result → Ordered delivered start result last) ∧
      ∀ exchange', answer = .inr exchange' →
        InStep settings delivered start (before ++ [request]) exchange' last := by
  have hkeeps : ∀ {bytes : Bytes} {vars : Vars} {sent : Except TransportError Unit}
      {after : ω}, Sent channel request transition
        (if rest.isEmpty then some case.parts else none) exchange fuel world bytes vars sent
        after → delivered after = delivered world :=
    fun hsent => hsent.keeps hlogs fun callback hcallback =>
      hobserves.transition (htransition callback hcallback)
  have hdirect : settings.policyOf request = .noResponse → rest.isEmpty = true →
      settings.receiveDataAfterFuzz = true → exchange.pending = [] := by
    intro hnone hlast hflag
    by_contra hpending
    rw [List.isEmpty_iff.mp hlast] at hrequests
    exact hpast ⟨hflag, before, request, hrequests, hnone, hinv.overread hpending⟩
  have hstaged : ∀ {received left : Bytes} {read : ReadOutcome} {middle later : ω},
      settings.receiveStage channel (settings.policyOf request) rest.isEmpty
        exchange.pending fuel middle = (.done (read, received, left), later) →
      ∃ new, delivered later = delivered middle ++ new ∧
        Staged settings.receiveLimit.toInt (settings.policyOf request) exchange.pending new
          read received left :=
    fun hread => receiveStage_staged hlogs hobserves.clock hlimit
      (tablePolicy_streams hpolicies request) hinv.bounded hdirect hread
  have hchecked : ∀ {bytes : Bytes} {answer : Except CallbackError Bool}
      {before after : ω}, settings.monitor.check request.name bytes before =
        (answer, after) → delivered after = delivered before := by
    intro bytes answer before after hcheck
    have hkept := hobserves.check request.name bytes before
    rwa [hcheck] at hkept
  cases hstepped with
  | unsent hsent =>
      refine ⟨fun result hresult => ?_, by simp⟩
      cases hresult
      refine ⟨_, (hkeeps hsent).trans hinv.delivered, ?_⟩
      simp [report]
  | unread hsent hread houtcome =>
      refine ⟨fun result hresult => ?_, by simp⟩
      cases hresult
      obtain ⟨new, hnew, hstage⟩ := hstaged hread
      refine ⟨receivedBytes exchange.steps ++ (exchange.pending ++ new), ?_, ?_⟩
      · rw [hnew, hkeeps hsent, hinv.delivered, List.append_assoc, List.append_assoc]
      · simpa [report] using hstage.first
  | refused hsent hread houtcome hcheck hanswer =>
      refine ⟨fun result hresult => ?_, by simp⟩
      cases hresult
      obtain ⟨new, hnew, hstage⟩ := hstaged hread
      have hlast := hchecked hcheck
      refine ⟨receivedBytes exchange.steps ++ (exchange.pending ++ new), ?_, ?_⟩
      · rw [hlast, hnew, hkeeps hsent, hinv.delivered, List.append_assoc,
          List.append_assoc]
      · simpa [report] using hstage.first
  | accepted hsent hread houtcome hcheck =>
      refine ⟨by simp, fun exchange' hexchange => ?_⟩
      cases hexchange
      obtain ⟨new, hnew, hstage⟩ := hstaged hread
      have hcomplete := readOutcome_none houtcome
      have hlast := hchecked hcheck
      constructor
      · rw [hlast, hnew, hkeeps hsent, hinv.delivered]
        simp only [receivedBytes_snoc, List.append_assoc, hstage.split hcomplete]
      · exact hstage.bounded hcomplete
      · intro hleft
        rw [List.map_append, List.map_singleton]
        exact overreads_snoc hinv.overread (hstage.leaves hcomplete hleft)

theorem execute_ordered (hobserves : settings.Observes path delivered)
    (hstream : settings.udpServer = false) (hlimit : 0 < settings.receiveLimit.toInt)
    (hpolicies : ∀ entry ∈ settings.policies,
      entry.2.Streams settings.receiveLimit.toInt)
    (hpast : ¬ ReadsPast path.requests settings.policies settings.receiveLimit.toInt
      settings.receiveDataAfterFuzz)
    {world last : ω} {result : CaseResult}
    (hexecute : settings.execute path case fuel world = (.done result, last)) :
    Ordered delivered (delivered world) result last := by
  have hready : ∀ {answer : Except CallbackError Unit} {ready : ω},
      settings.monitor.before ⟨path.caseId case, case, path.names⟩ world =
        (answer, ready) → delivered ready = delivered world := by
    intro answer ready hbefore
    have hkept := hobserves.before ⟨path.caseId case, case, path.names⟩ world
    rwa [hbefore] at hkept
  have hdialed : ∀ {answer : Except TransportError (Channel ω)} {ready dialed : ω},
      settings.dial ready = (answer, dialed) → delivered dialed = delivered ready := by
    intro answer ready dialed hdial
    have hkept := hobserves.dial ready
    rwa [hdial] at hkept
  cases execute_cases hexecute with
  | barred hbefore => exact ⟨[], by simpa using hready hbefore, by simp [report, receivedBytes]⟩
  | undialed hbefore hdial =>
      refine ⟨[], ?_, by simp [report, receivedBytes]⟩
      rw [hdialed hdial, hready hbefore, List.append_nil]
  | unheard _ _ hserver _ => simp [hstream] at hserver
  | @ran channel _ ready dialed started last hbefore hdial hserver hrun =>
      rw [hstream, if_neg (by simp)] at hserver
      subst hserver
      have hlogs := hobserves.logs hdial
      have hstep : StepRule settings channel path case fuel
          (InStep settings delivered (delivered world))
          (Ordered delivered (delivered world)) := by
        intro before request rest transition exchange world' answer last' hrequests
          htransition hinv hstepped
        exact stepped_ordered hlogs hobserves hlimit hpolicies hpast hrequests htransition
          hinv hstepped
      have hstart : InStep settings delivered (delivered world) []
          (Exchange.start settings.vars) started := by
        constructor
        · simp [Exchange.start, receivedBytes, hdialed hdial, hready hbefore]
        · simpa [Exchange.start] using le_of_lt hlimit
        · simp [Exchange.start]
      have hend : ∀ exchange world', InStep settings delivered (delivered world)
          path.requests exchange world' → Ordered delivered (delivered world)
            (report path case exchange.steps .passed none) world' :=
        fun exchange world' hinv => ⟨_, hinv.delivered, by simp [report]⟩
      obtain ⟨new, hnew, hfirst⟩ := executeSteps_rule _ _ hstep hend hstart hrun
      exact ⟨new, by rw [hlogs.close, hnew], hfirst⟩

end

end Settings

end MoonBoofuzz
