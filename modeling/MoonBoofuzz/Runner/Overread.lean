import MoonBoofuzz.Mutation.Replay
import MoonBoofuzz.Runner.Delivered

namespace MoonBoofuzz

namespace Settings

/-! A target that answers in chunks of its own choice, and says too much once. -/

/-- The chunks that are still to come, and the bytes that have been delivered. -/
abbrev Script := List Bytes × Bytes

def scriptChannel : Channel Script where
  send := fun _ world => (.ok (), world)
  receive := fun size _ world =>
    match world.1 with
    | [] => (.ok .closed, world)
    | chunk :: rest =>
        (.ok (.data (chunk.take size.toNat)), (rest, world.2 ++ chunk.take size.toNat))
  lastSentLen := fun _ => 0
  close := id

theorem scriptChannel_logs : scriptChannel.Logs Prod.snd where
  send := fun _ _ => rfl
  data := by
    rintro size timeout ⟨chunks, delivered⟩ last bytes hsize hreceive
    cases chunks with
    | nil => cases hreceive
    | cons chunk rest =>
        cases hreceive
        refine ⟨?_, rfl⟩
        rw [List.length_take]
        omega
  other := by
    rintro size timeout ⟨chunks, delivered⟩ last answer hreceive hother
    cases chunks with
    | nil =>
        cases hreceive
        rfl
    | cons chunk rest =>
        cases hreceive
        exact absurd rfl (hother _)
  close := fun _ => rfl

/-- A run against such a target, in which nothing fails. -/
def scripted (policies : List (Text × ReadPolicy)) (limit : Int32)
    (receiveDataAfterFuzz : Bool) (vars : Vars) : Settings Script where
  dial := fun world => (.ok scriptChannel, world)
  clock := ⟨fun world => (0, world), fun _ world => world⟩
  debug := ⟨fun _ => [], fun _ => []⟩
  policies := policies
  receiveLimit := limit
  receiveTimeout := 500
  limit := 10000
  monitor := {
    before := fun _ world => (.ok (), world)
    after := fun _ world => (.ok (), world)
    fault := fun _ world => (.ok (), world)
    recover := fun _ world => (.ok true, world)
    check := fun _ _ world => (.ok true, world) }
  mode := .sequential
  vars := some vars
  checkDataReceived := false
  receiveDataAfterFuzz := receiveDataAfterFuzz
  ignoreConnectionReset := false
  ignoreConnectionAborted := false
  ignoreConnectionIssuesWhenSendingFuzzData := true
  restartThreshold := none
  restartTimeoutMs := none
  restartSleepMs := 0
  sleepBetweenMs := 0
  crashThresholdRequest := 12
  crashThresholdElement := 3
  start := 0
  endIndex := none
  udpServer := false

end Settings

def ReadPolicy.shortest : ReadPolicy → Bytes
  | .fixed length => List.replicate length.toNat 0
  | .untilDelimiter delimiter => delimiter
  | _ => []

namespace ReadPolicy

variable {policy : ReadPolicy} {limit : Int}

@[simp] theorem length_shortest (policy : ReadPolicy) :
    policy.shortest.length = policy.least := by
  cases policy <;> simp [shortest, least]

theorem enough_shortest (hstreams : policy.Streams limit) (hreading : 0 < policy.least)
    (more : Bytes) : policy.enough (policy.shortest ++ more) = some policy.least := by
  cases policy with
  | noResponse => simp [least] at hreading
  | datagram => simp [least] at hreading
  | fixed length =>
      have hlength := (streams_fixed.mp hstreams).1
      simp only [enough, shortest, least, List.length_append, List.length_replicate]
      rw [if_pos (by omega)]
  | untilDelimiter delimiter =>
      have hfind : Bytes.find (delimiter ++ more) delimiter = some 0 := by
        rw [Bytes.find_eq_some]
        refine ⟨Nat.zero_le _, ?_, by simp⟩
        rw [List.drop_zero]
        exact List.prefix_append _ _
      simp [enough, shortest, least, hfind]

theorem least_le_limit (hstreams : policy.Streams limit) (hlimit : 0 ≤ limit) :
    policy.least ≤ limit := by
  cases policy with
  | noResponse => exact hlimit
  | datagram => exact hlimit
  | fixed length =>
      have hbounds := streams_fixed.mp hstreams
      simp only [least]
      omega
  | untilDelimiter delimiter => exact (streams_until.mp hstreams).2

theorem enough_nil (hstreams : policy.Streams limit) (hreading : 0 < policy.least) :
    policy.enough [] = none := by
  cases policy with
  | noResponse => rfl
  | datagram => rfl
  | fixed length =>
      simp only [least] at hreading
      simp only [enough, List.length_nil]
      rw [if_neg (by omega)]
  | untilDelimiter delimiter =>
      have hne := (streams_until.mp hstreams).1
      have hnone : Bytes.find [] delimiter = none := by
        rw [Bytes.find_eq_none]
        intro i _ hstarts
        rw [List.drop_nil, List.prefix_nil] at hstarts
        exact hne hstarts
      simp [enough, hnone]

end ReadPolicy

namespace Settings

section

variable {policies : List (Text × ReadPolicy)} {limit : Int32} {flag : Bool} {vars : Vars}
  {policy : ReadPolicy} {fuel : Nat}

theorem receiveStage_completed {ω : Type} {settings : Settings ω} {channel : Channel ω}
    {pending received left : Bytes} {fuzzNode : Bool} {world last : ω}
    (hreading : policy ≠ .noResponse) (hstream : policy ≠ .datagram)
    (hloop : readLoop channel settings.clock policy
      (wrap64 ((settings.clock.monotonicMs world).1 + settings.receiveTimeout.toInt))
      settings.receiveLimit.toInt fuel pending (settings.clock.monotonicMs world).2 =
        (.done ⟨received, left, .ok true⟩, last)) :
    settings.receiveStage channel policy fuzzNode pending fuel world =
      (.done (.complete, received, left), last) := by
  rw [← readResponse_loop hreading hstream] at hloop
  rw [receiveStage, if_neg hreading, Act.bind_done hloop]
  rfl

theorem receiveStage_idle (hstreams : policy.Streams limit.toInt) (hidle : policy.least = 0)
    (pending : Bytes) (world : Script) :
    (scripted policies limit flag vars).receiveStage scriptChannel policy false pending
      (fuel + 1) world = (.done (.complete, [], pending), world) := by
  by_cases hreading : policy = .noResponse
  · rw [receiveStage, if_pos hreading]
    rfl
  · apply receiveStage_completed hreading hstreams.1
    exact readLoop_enough (ReadPolicy.enough_idle hstreams hidle hreading pending) world

theorem receiveStage_chunk (hstreams : policy.Streams limit.toInt)
    (hreading : 0 < policy.least) {extra : Bytes}
    (hfits : policy.least + extra.length ≤ limit.toInt) (rest : List Bytes)
    (delivered : Bytes) :
    (scripted policies limit flag vars).receiveStage scriptChannel policy false []
        (fuel + 2) ((policy.shortest ++ extra) :: rest, delivered) =
      (.done (.complete, policy.shortest, extra),
        (rest, delivered ++ (policy.shortest ++ extra))) := by
  have hne : policy ≠ .noResponse := by
    intro hnone
    simp [hnone, ReadPolicy.least] at hreading
  have htake : (policy.shortest ++ extra).take limit.toInt.toNat =
      policy.shortest ++ extra := by
    apply List.take_of_length_le
    rw [List.length_append, ReadPolicy.length_shortest]
    omega
  have hchunk : policy.shortest ++ extra ≠ [] := by
    intro hempty
    have hlength := congrArg List.length hempty
    rw [List.length_append, ReadPolicy.length_shortest, List.length_nil] at hlength
    omega
  have hroom : ((List.length ([] : Bytes) : Nat) : Int) < limit.toInt := by
    rw [List.length_nil]
    omega
  apply receiveStage_completed hne hstreams.1
  have hloop := @readLoop_data _ scriptChannel (scripted policies limit flag vars).clock
    policy (wrap64 (0 + (500 : Int32).toInt)) limit.toInt 0 (fuel + 1) []
    (policy.shortest ++ extra) ((policy.shortest ++ extra) :: rest, delivered)
    ((policy.shortest ++ extra) :: rest, delivered)
    (rest, delivered ++ (policy.shortest ++ extra))
    (ReadPolicy.enough_nil hstreams hreading) hroom rfl (by decide) (by
      rw [List.length_nil, Int.natCast_zero, Int.sub_zero]
      simp only [scriptChannel, htake]) hchunk
  refine hloop.trans ?_
  rw [List.nil_append, readLoop_enough (ReadPolicy.enough_shortest hstreams hreading extra),
    ← ReadPolicy.length_shortest, List.take_left, List.drop_left]

theorem receiveStage_direct {ω : Type} {settings : Settings ω} {channel : Channel ω}
    {world last : ω} {bytes : Bytes} (hflag : settings.receiveDataAfterFuzz = true)
    (hreceive : channel.receive settings.receiveLimit.toInt settings.receiveTimeout.toInt
      world = (.ok (.data bytes), last)) (pending : Bytes) :
    settings.receiveStage channel .noResponse true pending fuel world =
      (.done (.complete, bytes, pending), last) := by
  simp only [receiveStage, if_true, hflag, Bool.and_self, Act.bind_perform, hreceive]
  rfl

/-- The chunks that answer each request with a shortest response. -/
def chunksFor (policies : List (Text × ReadPolicy)) (requests : List CompiledRequest) :
    List Bytes :=
  requests.flatMap fun request =>
    if (tablePolicy policies request).least = 0 then []
    else [(tablePolicy policies request).shortest]

/-- What the requests so far have left behind. -/
structure Fed (vars : Vars) (pending received : Bytes) (exchange : Exchange) : Prop where
  vars : exchange.vars = vars
  pending : exchange.pending = pending
  received : receivedBytes exchange.steps = received

section

variable {path : SessionPath (EdgeCallback Script)} {case : MutationCase}
  {request : CompiledRequest} {bytes pending received : Bytes}

theorem scripted_step {exchange : Exchange} {index : Nat} {fuzzNode : Bool}
    {taken left : Bytes} {world last : Script}
    (hfed : Fed vars pending received exchange)
    (hrender : rendering request (if fuzzNode then some case.parts else none) vars fuel =
      .done bytes)
    (hread : (scripted policies limit flag vars).receiveStage scriptChannel
      (tablePolicy policies request) fuzzNode pending fuel world =
        (.done (.complete, taken, left), last)) :
    ∃ exchange', (scripted policies limit flag vars).executeStep scriptChannel path case
        index request none fuzzNode exchange fuel world = (.done (.inr exchange'), last) ∧
      Fed vars left (received ++ taken) exchange' := by
  have hsent : Sent scriptChannel request none
      (if fuzzNode then some case.parts else none) exchange fuel world bytes vars (.ok ())
      world := by
    refine ⟨world, stepBytes_eq_done.mpr ⟨bytes, none, ?_, hrender, rfl⟩, rfl⟩
    rw [crossed, hfed.vars]
  rw [← hfed.pending] at hread
  exact ⟨_, executeStep_accepted hsent hread rfl rfl, rfl, rfl,
    by rw [receivedBytes_snoc, hfed.received]⟩

theorem scripted_run (hlimit : 0 < limit.toInt)
    (hpolicies : ∀ entry ∈ policies, entry.2.Streams limit.toInt)
    {rest : List CompiledRequest} (hrest : rest ≠ []) {chunks : List Bytes} :
    ∀ {before : List CompiledRequest} {index : Nat} {exchange : Exchange}
      {received delivered : Bytes},
      (∀ request ∈ before, ∃ bytes, rendering request none vars (fuel + 2) =
        .done bytes) →
      Fed vars pending received exchange →
      (pending = [] ∨ ∀ request ∈ before, (tablePolicy policies request).least = 0) →
      ∃ exchange',
        (scripted policies limit flag vars).executeSteps scriptChannel path case (fuel + 2)
            index (before ++ rest) ((before ++ rest).map fun _ => none) exchange
            (chunksFor policies before ++ chunks, delivered) =
          (scripted policies limit flag vars).executeSteps scriptChannel path case
            (fuel + 2) (index + before.length) rest (rest.map fun _ => none) exchange'
            (chunks, delivered ++ (chunksFor policies before).flatten) ∧
        Fed vars pending (received ++ (chunksFor policies before).flatten) exchange' := by
  intro before
  induction before with
  | nil =>
      intro index exchange received delivered _ hfed _
      exact ⟨exchange, by simp [chunksFor], by simpa [chunksFor] using hfed⟩
  | cons request before ih =>
      intro index exchange received delivered hrender hfed hpending
      obtain ⟨hfirst, hothers⟩ := List.forall_mem_cons.mp hrender
      obtain ⟨bytes, hbytes⟩ := hfirst
      have hstreams := tablePolicy_streams hpolicies request
      have hmore : (before ++ rest).isEmpty = false := by
        rw [List.isEmpty_eq_false_iff]
        simp [hrest]
      have hstage : ∃ taken, (scripted policies limit flag vars).receiveStage scriptChannel
          (tablePolicy policies request) false pending (fuel + 2)
          (chunksFor policies (request :: before) ++ chunks, delivered) =
            (.done (.complete, taken, pending),
              (chunksFor policies before ++ chunks, delivered ++ taken)) ∧
          (chunksFor policies (request :: before)).flatten =
            taken ++ (chunksFor policies before).flatten := by
        by_cases hidle : (tablePolicy policies request).least = 0
        · refine ⟨[], ?_, by simp [chunksFor, hidle]⟩
          rw [receiveStage_idle hstreams hidle]
          simp [chunksFor, hidle]
        · have hempty : pending = [] := by
            rcases hpending with hempty | hall
            · exact hempty
            · exact absurd (hall request List.mem_cons_self) hidle
          subst hempty
          refine ⟨(tablePolicy policies request).shortest, ?_, by simp [chunksFor, hidle]⟩
          have hfits := ReadPolicy.least_le_limit hstreams (le_of_lt hlimit)
          have hchunk := @receiveStage_chunk policies limit flag vars _ fuel hstreams
            (by omega) [] (by simpa using hfits) (chunksFor policies before ++ chunks)
            delivered
          rw [List.append_nil] at hchunk
          simpa [chunksFor, hidle] using hchunk
      obtain ⟨taken, hread, hflatten⟩ := hstage
      obtain ⟨middle, hstep, hfed'⟩ := @scripted_step policies limit flag vars (fuel + 2)
        path case request bytes pending received exchange index false taken pending _ _ hfed
        hbytes hread
      obtain ⟨exchange', hrun, hfed''⟩ := @ih (index + 1) middle
        (received ++ taken) (delivered ++ taken) hothers hfed'
        (hpending.imp id fun hall other hmem => hall other (List.mem_cons_of_mem _ hmem))
      refine ⟨exchange', ?_, ?_⟩
      · rw [List.cons_append, List.map_cons, executeSteps_inr (by rw [hmore]; exact hstep),
          List.tail_cons, hrun, hflatten, List.length_cons, List.append_assoc]
        congr 1
        omega
      · rw [hflatten, ← List.append_assoc]
        exact hfed''

end

end

def quietPath (requests : List CompiledRequest) : SessionPath (EdgeCallback Script) :=
  ⟨requests, requests.map fun _ => none⟩

/-- A response is followed by one byte too many, which the fuzzed request passes over. -/
theorem scripted_overread {policies : List (Text × ReadPolicy)} {limit : Int32}
    {vars : Vars} {fuel : Nat} {case : MutationCase} (hlimit : 0 < limit.toInt)
    (hpolicies : ∀ entry ∈ policies, entry.2.Streams limit.toInt)
    {first later : List CompiledRequest} {reader target : CompiledRequest}
    {sent payload : Bytes}
    (hfirst : ∀ request ∈ first, ∃ bytes, rendering request none vars (fuel + 2) =
      .done bytes)
    (hreader : rendering reader none vars (fuel + 2) = .done sent)
    (hlater : ∀ request ∈ later, ∃ bytes, rendering request none vars (fuel + 2) =
      .done bytes)
    (htarget : rendering target (some case.parts) vars (fuel + 2) = .done payload)
    (hnone : tablePolicy policies target = .noResponse)
    (hpositive : 0 < (tablePolicy policies reader).least)
    (hshort : (tablePolicy policies reader).least < limit.toInt)
    (hidle : ∀ request ∈ later, (tablePolicy policies request).least = 0) :
    let requests := first ++ reader :: (later ++ [target])
    let answer := (tablePolicy policies reader).shortest
    let received := (chunksFor policies first).flatten
    ∃ result,
      (scripted policies limit true vars).execute (quietPath requests)
          case (fuel + 2) (chunksFor policies first ++ [answer ++ [0], [1]], []) =
        (.done result, ([], received ++ (answer ++ [0]) ++ [1])) ∧
      receivedBytes result.steps = received ++ answer ++ [1] := by
  intro requests answer received
  have hstreams := tablePolicy_streams hpolicies reader
  have hchunks : chunksFor policies later = [] := by
    rw [chunksFor, List.flatMap_eq_nil_iff]
    intro request hmem
    rw [if_pos (hidle request hmem)]
  have hstart : Fed vars [] [] (Exchange.start (some vars)) := ⟨rfl, rfl, rfl⟩
  obtain ⟨exchange, hrun, hfed⟩ := @scripted_run policies limit true vars fuel
    (quietPath requests) case [] hlimit hpolicies
    (reader :: (later ++ [target])) (by simp) [answer ++ [0], [1]] first 0 _ [] [] hfirst
    hstart (Or.inl rfl)
  obtain ⟨exchange', hstep, hfed'⟩ := @scripted_step policies limit true vars (fuel + 2)
    (quietPath requests) case reader sent [] _ exchange (0 + first.length)
    false answer [0] _ _ hfed hreader
    (receiveStage_chunk hstreams hpositive (by simp; omega) [[1]] ([] ++ received))
  obtain ⟨exchange'', hrun', hfed''⟩ := @scripted_run policies limit true vars fuel
    (quietPath requests) case [0] hlimit hpolicies [target] (by simp)
    [[1]] later (0 + first.length + 1) exchange' _ ([] ++ received ++ (answer ++ [0])) hlater
    hfed' (Or.inr hidle)
  have hdirect : scriptChannel.receive limit.toInt (500 : Int32).toInt
      ([[1]], [] ++ received ++ (answer ++ [0]) ++ (chunksFor policies later).flatten) =
        (.ok (.data [1]), ([], received ++ (answer ++ [0]) ++ [1])) := by
    have htake : List.take limit.toInt.toNat [(1 : UInt8)] = [1] :=
      List.take_of_length_le (by simp only [List.length_singleton]; omega)
    simp only [scriptChannel, htake, hchunks, List.nil_append, List.flatten_nil,
      List.append_nil]
  obtain ⟨last, hstep', hfed'''⟩ := @scripted_step policies limit true vars (fuel + 2)
    (quietPath requests) case target payload [0] _ exchange''
    (0 + first.length + 1 + later.length) true [1] [0] _ _ hfed'' htarget
    (by rw [hnone]; exact receiveStage_direct rfl hdirect [0])
  have hsteps : (scripted policies limit true vars).executeSteps scriptChannel
      (quietPath requests) case (fuel + 2) 0 requests
      (requests.map fun _ => none) (Exchange.start (some vars))
      (chunksFor policies first ++ [answer ++ [0], [1]], []) =
        (.done (report (quietPath requests) case last.steps .passed none),
          ([], received ++ (answer ++ [0]) ++ [1])) := by
    have hmore : (later ++ [target]).isEmpty = false := by
      rw [List.isEmpty_eq_false_iff]
      simp
    rw [hrun, List.map_cons, executeSteps_inr (by rw [hmore]; exact hstep), List.tail_cons]
    rw [hchunks, List.nil_append] at hrun'
    rw [hchunks] at hstep'
    rw [hrun', executeSteps_inr hstep']
    rfl
  refine ⟨_, execute_ran rfl rfl rfl hsteps, ?_⟩
  have hlast := hfed'''.received
  rw [hchunks] at hlast
  simpa [report] using hlast

/-- Some variables let every request of the path be rendered, the last one for the
case. -/
def Renderable (requests : List CompiledRequest) (case : MutationCase) : Prop :=
  ∃ vars, ∀ before target, requests = before ++ [target] →
    (∀ request ∈ before, ∃ bytes, Eval.Returns (rendering request none vars) bytes) ∧
      ∃ bytes, Eval.Returns (rendering target (some case.parts) vars) bytes

theorem rendering_mono (request : CompiledRequest) (parts : Option (List (Text × Nat)))
    (vars : Vars) : Monotone (rendering request parts vars) := by
  cases parts with
  | none => exact fun first second hle => CompiledRequest.renderNode_mono hle (0, [])
  | some parts => exact CompiledRequest.renderCase_mono request parts (some vars)

theorem rendering_eventually {vars : Vars} {requests : List CompiledRequest}
    (hrender : ∀ request ∈ requests, ∃ bytes,
      Eval.Returns (rendering request none vars) bytes) :
    ∃ enough, ∀ fuel, enough ≤ fuel → ∀ request ∈ requests, ∃ bytes,
      rendering request none vars fuel = .done bytes := by
  induction requests with
  | nil => exact ⟨0, by simp⟩
  | cons request rest ih =>
      obtain ⟨hfirst, hothers⟩ := List.forall_mem_cons.mp hrender
      obtain ⟨bytes, hbytes⟩ := hfirst
      obtain ⟨enough, henough⟩ := hbytes.eventually (rendering_mono request none vars)
      obtain ⟨more, hmore⟩ := ih hothers
      refine ⟨max enough more, fun fuel hfuel => List.forall_mem_cons.mpr ⟨?_, ?_⟩⟩
      · exact ⟨bytes, henough fuel (le_trans (le_max_left _ _) hfuel)⟩
      · exact hmore fuel (le_trans (le_max_right _ _) hfuel)

theorem scripted_observes (policies : List (Text × ReadPolicy)) (limit : Int32)
    (flag : Bool) (vars : Vars) (requests : List CompiledRequest) :
    (scripted policies limit flag vars).Observes (quietPath requests)
      Prod.snd where
  dial := fun _ => rfl
  logs := by
    rintro world last channel hdial
    cases hdial
    exact scriptChannel_logs
  clock := fun _ => rfl
  before := fun _ _ => rfl
  check := fun _ _ _ => rfl
  transition := by simp [quietPath]

/-- In every execution of the case over a stream channel, the received bytes are the
first of those that the channel delivered. -/
def InOrder (requests : List CompiledRequest) (case : MutationCase)
    (policies : List (Text × ReadPolicy)) (limit : Int32) (receiveDataAfterFuzz : Bool) :
    Prop :=
  ∀ (ω : Type) (settings : Settings ω) (path : SessionPath (EdgeCallback ω))
    (delivered : ω → Bytes) (fuel : Nat) (world : ω) (result : CaseResult) (last : ω),
    settings.policies = policies → settings.receiveLimit = limit →
    settings.receiveDataAfterFuzz = receiveDataAfterFuzz → settings.udpServer = false →
    path.requests = requests → settings.Observes path delivered →
    settings.execute path case fuel world = (.done result, last) →
    Ordered delivered (delivered world) result last

theorem readsPast_skips {requests : List CompiledRequest} {case : MutationCase}
    {policies : List (Text × ReadPolicy)} {limit : Int32} {flag : Bool}
    (hlimit : 0 < limit.toInt) (hpolicies : ∀ entry ∈ policies, entry.2.Streams limit.toInt)
    (hrender : Renderable requests case)
    (hpast : ReadsPast requests policies limit.toInt flag) :
    ¬ InOrder requests case policies limit flag := by
  obtain ⟨rfl, before, target, rfl, htarget, hover⟩ := hpast
  obtain ⟨plan, policy, idle, hplan, hpositive, hshort, hidle⟩ := hover
  obtain ⟨first, others, rfl, rfl, hothers⟩ := List.map_eq_append_iff.mp hplan
  obtain ⟨reader, later, rfl, rfl, rfl⟩ := List.map_eq_cons_iff.mp hothers
  obtain ⟨vars, hrender⟩ := hrender
  obtain ⟨hbefore, payload, hpayload⟩ := hrender _ target rfl
  obtain ⟨enough, hearlier⟩ := rendering_eventually hbefore
  obtain ⟨more, hlast⟩ := hpayload.eventually
    (rendering_mono target (some case.parts) vars)
  have hrendered := hearlier (max enough more + 2)
    (le_trans (le_max_left _ _) (Nat.le_add_right _ 2))
  rw [List.forall_mem_append, List.forall_mem_cons] at hrendered
  obtain ⟨hfirst, ⟨bytes, hreader⟩, hlater⟩ := hrendered
  have hfuzzed := hlast (max enough more + 2)
    (le_trans (le_max_right _ _) (Nat.le_add_right _ 2))
  obtain ⟨result, hexecute, hreceived⟩ := scripted_overread hlimit hpolicies hfirst hreader
    hlater hfuzzed htarget hpositive hshort (by simpa using hidle)
  intro hinorder
  obtain ⟨new, hnew, hstarts⟩ := hinorder Script (scripted policies limit true vars) _
    Prod.snd _ _ result _ rfl rfl rfl rfl (by simp [quietPath])
    (scripted_observes policies limit true vars _)
    hexecute
  rw [List.nil_append] at hnew
  rw [hreceived, ← hnew, List.append_assoc, List.append_assoc, List.append_assoc,
    List.prefix_append_right_inj, List.prefix_append_right_inj] at hstarts
  exact absurd hstarts (by decide)

/-- Nothing is skipped over any stream channel exactly when the fuzzed request does not
read past the bytes that may be pending. -/
theorem received_in_order_iff {requests : List CompiledRequest} {case : MutationCase}
    {policies : List (Text × ReadPolicy)} {limit : Int32} {flag : Bool}
    (hlimit : 0 < limit.toInt) (hpolicies : ∀ entry ∈ policies, entry.2.Streams limit.toInt)
    (hrender : Renderable requests case) :
    InOrder requests case policies limit flag ↔
      ¬ ReadsPast requests policies limit.toInt flag := by
  constructor
  · intro hinorder hpast
    exact readsPast_skips hlimit hpolicies hrender hpast hinorder
  · rintro hpast ω settings path delivered fuel world result last rfl rfl rfl hserver rfl
      hobserves hexecute
    exact execute_ordered hobserves hserver hlimit hpolicies hpast hexecute

def greetingRoot : Block :=
  Block.new (Text.ofAscii "hello") [.leaf (Text.ofAscii "x") (Field.simple [0x48] [[0x49]])]

def greetingRequest : CompiledRequest where
  name := Text.ofAscii "hello"
  entries :=
    [⟨Text.ofAscii "hello", none, .container [1], none, none, none⟩,
     ⟨Text.ofAscii "hello.x", some 0, .atom (Field.simple [0x48] [[0x49]]), none, none,
       none⟩]
  paths := [(Text.ofAscii "hello", 0), (Text.ofAscii "hello.x", 1)]
  maxBytes := 64
  seq := .sequence [.plain 1]

theorem greeting_renderable :
    Renderable [greetingRequest, CompiledRequest.pairedRequest] CaseStream.pairedCase := by
  refine ⟨[], fun before target hrequests => ?_⟩
  obtain ⟨rfl, hlast⟩ := @List.append_inj' _ [greetingRequest]
    [CompiledRequest.pairedRequest] before [target] hrequests rfl
  cases hlast
  refine ⟨?_, [0x33, 0x35], 4, rfl⟩
  rw [List.forall_mem_singleton]
  exact ⟨[0x48], 4, rfl⟩

theorem greeting_streams :
    ∀ entry ∈ [(Text.ofAscii "hello", ReadPolicy.untilDelimiter [10])],
      entry.2.Streams (64 : Int32).toInt := by
  rw [List.forall_mem_singleton, ReadPolicy.streams_until]
  decide

/-- Without a receive after the fuzzed request nothing is skipped. -/
theorem greeting_in_order :
    InOrder [greetingRequest, CompiledRequest.pairedRequest] CaseStream.pairedCase
      [(Text.ofAscii "hello", .untilDelimiter [10])] 64 false :=
  (received_in_order_iff (by decide) greeting_streams greeting_renderable).mpr
    fun hpast => Bool.false_ne_true hpast.1

/-- With it, a byte that arrives with the answer to the greeting is lost. -/
theorem greeting_skips :
    CompiledRequest.compile greetingRoot 64 4 = .done greetingRequest ∧
      ¬ InOrder [greetingRequest, CompiledRequest.pairedRequest] CaseStream.pairedCase
        [(Text.ofAscii "hello", .untilDelimiter [10])] 64 true := by
  refine ⟨rfl, readsPast_skips (by decide) greeting_streams greeting_renderable ?_⟩
  refine ⟨rfl, [greetingRequest], CompiledRequest.pairedRequest, rfl, rfl, ?_⟩
  exact ⟨[], .untilDelimiter [10], [], rfl, by decide, by decide, by simp⟩

end Settings

end MoonBoofuzz
