import MoonBoofuzz.Runner.Channel

namespace MoonBoofuzz

/-! Reading responses from a stream that arrives in chunks. -/

theorem readResponse_loop {channel : Channel ω} {clock : Clock ω} {policy : ReadPolicy}
    (hreading : policy ≠ .noResponse) (hstream : policy ≠ .datagram) (pending : Bytes)
    (limit timeout : Int) (fuel : Nat) (world : ω) :
    readResponse channel clock policy pending limit timeout fuel world =
      readLoop channel clock policy (wrap64 ((clock.monotonicMs world).1 + timeout)) limit
        fuel pending (clock.monotonicMs world).2 := by
  cases policy with
  | noResponse => exact absurd rfl hreading
  | datagram => exact absurd rfl hstream
  | fixed length => rfl
  | untilDelimiter delimiter => rfl

theorem readLoop_enough {channel : Channel ω} {clock : Clock ω} {policy : ReadPolicy}
    {deadline limit : Int} {fuel count : Nat} {pending : Bytes}
    (henough : policy.enough pending = some count) (world : ω) :
    readLoop channel clock policy deadline limit (fuel + 1) pending world =
      (.done ⟨pending.take count, pending.drop count, .ok true⟩, world) := by
  rw [readLoop, henough]
  rfl

theorem readLoop_data {channel : Channel ω} {clock : Clock ω} {policy : ReadPolicy}
    {deadline limit now : Int} {fuel : Nat} {pending bytes : Bytes} {world ticked after : ω}
    (hnone : policy.enough pending = none) (hroom : pending.length < limit)
    (htick : clock.monotonicMs world = (now, ticked)) (htime : 0 < wrap64 (deadline - now))
    (hreceive : channel.receive (limit - pending.length) (wrap32 (wrap64 (deadline - now)))
      ticked = (.ok (.data bytes), after)) (hbytes : bytes ≠ []) :
    readLoop channel clock policy deadline limit (fuel + 1) pending world =
      readLoop channel clock policy deadline limit fuel (pending ++ bytes) after := by
  rw [readLoop, hnone]
  dsimp only
  rw [if_pos hroom, Act.bind_perform, htick]
  dsimp only
  rw [if_pos htime, Act.bind_perform, hreceive]
  dsimp only
  rw [if_neg hbytes]

/-- What one receive does with the bytes that are still to come: it hands over the
next ones, at least one and no more than asked for, or says that there are none. -/
inductive Hands (size : Int) : Bytes → Except TransportError Received → Bytes → Prop
  | data {chunk rest : Bytes} (hchunk : chunk ≠ []) (hlength : chunk.length ≤ size) :
      Hands size (chunk ++ rest) (.ok (.data chunk)) rest
  | closed : Hands size [] (.ok .closed) []

/-- A channel that delivers a stream of bytes and then closes, and a clock. -/
structure Delivery (ω : Type) where
  channel : Channel ω
  clock : Clock ω
  /-- The bytes that have not been handed over. -/
  stream : ω → Bytes
  ticks : ∀ world, stream (clock.monotonicMs world).2 = stream world
  hands : ∀ (size timeout : Int) (world : ω), 0 < size →
    Hands size (stream world) (channel.receive size timeout world).1
      (stream (channel.receive size timeout world).2)

namespace ReadPolicy

/-- The policies for streams, within the bound that `validate_policy` checks. -/
def Streams (policy : ReadPolicy) (limit : Int) : Prop :=
  policy ≠ .datagram ∧ validatePolicy policy limit = .ok ()

theorem streams_fixed {length limit : Int} :
    (ReadPolicy.fixed length).Streams limit ↔ 0 ≤ length ∧ length ≤ limit := by
  simp only [Streams, validatePolicy]
  split <;> simp_all

theorem streams_until {delimiter : Bytes} {limit : Int} :
    (ReadPolicy.untilDelimiter delimiter).Streams limit ↔
      delimiter ≠ [] ∧ delimiter.length ≤ limit := by
  simp only [Streams, validatePolicy]
  split <;> simp_all

theorem enough_take {policy : ReadPolicy} {limit : Int} (hstreams : policy.Streams limit)
    (whole : Bytes) (count : Nat) :
    policy.enough (whole.take count) =
      (policy.enough whole).filter fun size => decide (size ≤ count) := by
  cases policy with
  | noResponse => rfl
  | datagram => rfl
  | fixed length =>
      have hlength := (streams_fixed.mp hstreams).1
      simp only [enough, List.length_take]
      by_cases hwhole : length ≤ whole.length
      · by_cases hcount : length.toNat ≤ count
        · rw [if_pos hwhole, if_pos (by omega), Option.filter_some, if_pos (by simp; omega)]
        · rw [if_pos hwhole, if_neg (by omega), Option.filter_some, if_neg (by simp; omega)]
      · rw [if_neg hwhole, if_neg (by omega)]
        rfl
  | untilDelimiter delimiter =>
      have hne := (streams_until.mp hstreams).1
      simp only [enough, Bytes.find_take hne]
      cases Bytes.find whole delimiter with
      | none => rfl
      | some i => simp only [Option.filter_some, Option.map_some]; split <;> simp_all

def answer (policy : ReadPolicy) (limit : Int) (whole : Bytes) :
    Bytes × Except TransportError Bool :=
  if policy = .noResponse then ([], .ok true)
  else match (policy.enough whole).filter fun size : Nat => decide ((size : Int) ≤ limit) with
  | some size => (whole.take size, .ok true)
  | none =>
      if whole.length < limit then (whole, .ok false)
      else (whole.take limit.toNat, .error (.invalidConfiguration
        (Text.ofAscii "response limit reached before delimiter")))

end ReadPolicy

def Response.taken (response : Response) : Bytes :=
  if response.completed = .ok true then response.received else []

/-- A response keeps the bytes ahead, of which some are left to come. -/
structure Keeps (limit : Int) (ahead : Bytes) (response : Response) (rest : Bytes) :
    Prop where
  split : ahead = response.taken ++ response.pending ++ rest
  bounded : response.pending.length ≤ limit
  /-- A response that was not completed is still pending. -/
  kept : response.completed ≠ .ok true → response.received = response.pending

structure Reads (policy : ReadPolicy) (limit : Int) (ahead : Bytes) (response : Response)
    (rest : Bytes) : Prop extends Keeps limit ahead response rest where
  answer : response.completed ≠ .error (.timeout .receive) →
    policy.answer limit ahead = (response.received, response.completed)

section

variable {policy : ReadPolicy} {limit : Int} {pending rest : Bytes}

theorem keeps_none (hbounded : pending.length ≤ limit) :
    Keeps limit (pending ++ rest) ⟨[], pending, .ok true⟩ rest := by
  constructor
  · simp [Response.taken]
  · exact hbounded
  · simp

theorem keeps_taken (hbounded : pending.length ≤ limit) (count : Nat) :
    Keeps limit (pending ++ rest) ⟨pending.take count, pending.drop count, .ok true⟩
      rest := by
  constructor
  · simp [Response.taken]
  · simp only [List.length_drop]
    omega
  · simp

theorem keeps_pending {completed : Except TransportError Bool}
    (hbounded : pending.length ≤ limit) (hcompleted : completed ≠ .ok true) :
    Keeps limit (pending ++ rest) ⟨pending, pending, completed⟩ rest := by
  constructor
  · simp [Response.taken, hcompleted]
  · exact hbounded
  · simp

theorem reads_none (hbounded : pending.length ≤ limit) :
    Reads .noResponse limit (pending ++ rest) ⟨[], pending, .ok true⟩ rest :=
  ⟨keeps_none hbounded, fun _ => rfl⟩

theorem reads_enough (hstreams : policy.Streams limit) (hreading : policy ≠ .noResponse)
    {count : Nat} (hbounded : pending.length ≤ limit)
    (henough : policy.enough pending = some count) :
    Reads policy limit (pending ++ rest)
      ⟨pending.take count, pending.drop count, .ok true⟩ rest := by
  have htake := ReadPolicy.enough_take hstreams (pending ++ rest) pending.length
  rw [List.take_left, henough] at htake
  obtain ⟨hwhole, hcount⟩ := Option.filter_eq_some_iff.mp htake.symm
  rw [decide_eq_true_eq] at hcount
  have hfits : (count : Int) ≤ limit := by omega
  refine ⟨keeps_taken hbounded count, fun _ => ?_⟩
  simp [ReadPolicy.answer, hreading, hwhole, Option.filter_some, hfits,
    List.take_append_of_le_length hcount]

theorem enough_none (hstreams : policy.Streams limit)
    (hnone : policy.enough pending = none) {bound : Int} (hbound : bound ≤ pending.length) :
    ((policy.enough (pending ++ rest)).filter fun size : Nat =>
      decide ((size : Int) ≤ bound)) = none := by
  have htake := ReadPolicy.enough_take hstreams (pending ++ rest) pending.length
  rw [List.take_left, hnone] at htake
  rw [Option.filter_eq_none_iff]
  intro size hsize
  have hlarge := Option.filter_eq_none_iff.mp htake.symm size hsize
  simp only [decide_eq_true_eq] at hlarge ⊢
  omega

theorem reads_full (hstreams : policy.Streams limit) (hreading : policy ≠ .noResponse)
    (hnone : policy.enough pending = none) (hlimit : pending.length = limit) :
    Reads policy limit (pending ++ rest) ⟨pending, pending, .error (.invalidConfiguration
      (Text.ofAscii "response limit reached before delimiter"))⟩ rest := by
  refine ⟨keeps_pending (le_of_eq hlimit) (by simp), fun _ => ?_⟩
  rw [ReadPolicy.answer, if_neg hreading, enough_none hstreams hnone (by omega)]
  dsimp only
  rw [if_neg (by rw [List.length_append]; omega), ← hlimit, Int.toNat_natCast,
    List.take_left]

theorem reads_closed (hreading : policy ≠ .noResponse)
    (hnone : policy.enough pending = none) (hlimit : pending.length < limit) :
    Reads policy limit (pending ++ []) ⟨pending, pending, .ok false⟩ [] := by
  refine ⟨keeps_pending (le_of_lt hlimit) (by simp), fun _ => ?_⟩
  rw [List.append_nil, ReadPolicy.answer, if_neg hreading, hnone, Option.filter_none]
  dsimp only
  rw [if_pos hlimit]

theorem reads_late (hbounded : pending.length ≤ limit) :
    Reads policy limit (pending ++ rest)
      ⟨pending, pending, .error (.timeout .receive)⟩ rest :=
  ⟨keeps_pending hbounded (by simp), fun hlate => absurd rfl hlate⟩

end

namespace Delivery

variable {ω : Type} {delivery : Delivery ω} {policy : ReadPolicy} {limit : Int}

theorem readLoop_reads (hstreams : policy.Streams limit) (hreading : policy ≠ .noResponse)
    {deadline : Int} :
    ∀ {fuel : Nat} {pending : Bytes} (world : ω), pending.length ≤ limit →
      limit < pending.length + fuel →
      ∃ response last,
        readLoop delivery.channel delivery.clock policy deadline limit fuel pending world =
            (.done response, last) ∧
          Reads policy limit (pending ++ delivery.stream world) response
            (delivery.stream last) := by
  intro fuel
  induction fuel with
  | zero =>
      intro pending world hbounded hfuel
      omega
  | succ fuel ih =>
      intro pending world hbounded hfuel
      unfold readLoop
      cases henough : policy.enough pending with
      | some count => exact ⟨_, _, rfl, reads_enough hstreams hreading hbounded henough⟩
      | none =>
          dsimp only
          split
          · rename_i hroom
            simp only [Act.bind_perform]
            have htick := delivery.ticks world
            generalize delivery.clock.monotonicMs world = tick at htick ⊢
            obtain ⟨now, world'⟩ := tick
            dsimp only at htick ⊢
            rw [← htick]
            split
            · simp only [Act.bind_perform]
              have hhands := delivery.hands (limit - pending.length)
                (wrap32 (wrap64 (deadline - now))) world' (by omega)
              generalize delivery.channel.receive (limit - pending.length)
                (wrap32 (wrap64 (deadline - now))) world' = received at hhands ⊢
              obtain ⟨answer, world''⟩ := received
              dsimp only at hhands ⊢
              generalize delivery.stream world' = ahead at hhands ⊢
              generalize hrest : delivery.stream world'' = rest at hhands
              cases hhands with
              | closed =>
                  refine ⟨_, _, rfl, ?_⟩
                  rw [hrest]
                  exact reads_closed hreading henough hroom
              | @data chunk _ hchunk hlength =>
                  dsimp only
                  rw [if_neg hchunk]
                  have hpositive := List.length_pos_iff.mpr hchunk
                  have hgrown : (pending ++ chunk).length ≤ limit := by
                    rw [List.length_append]
                    omega
                  obtain ⟨response, last, hloop, hreads⟩ := ih world'' hgrown (by
                    rw [List.length_append]
                    omega)
                  rw [List.append_assoc, hrest] at hreads
                  exact ⟨response, last, hloop, hreads⟩
            · exact ⟨_, _, rfl, reads_late hbounded⟩
          · exact ⟨_, _, rfl, reads_full hstreams hreading henough (by omega)⟩

theorem readResponse_reads (delivery : Delivery ω) (hstreams : policy.Streams limit)
    (timeout : Int) {fuel : Nat} {pending : Bytes} (world : ω)
    (hbounded : pending.length ≤ limit) (hfuel : limit < fuel) :
    ∃ response last,
      readResponse delivery.channel delivery.clock policy pending limit timeout fuel world =
          (.done response, last) ∧
        Reads policy limit (pending ++ delivery.stream world) response
          (delivery.stream last) := by
  by_cases hreading : policy = .noResponse
  · subst hreading
    exact ⟨_, _, rfl, reads_none hbounded⟩
  · rw [readResponse_loop hreading hstreams.1, ← delivery.ticks world]
    exact readLoop_reads hstreams hreading _ hbounded (by omega)

end Delivery

theorem ReadPolicy.answer_until {delimiter received whole : Bytes} {limit : Int}
    (hstreams : (ReadPolicy.untilDelimiter delimiter).Streams limit)
    (hanswer : (ReadPolicy.untilDelimiter delimiter).answer limit whole =
      (received, .ok true)) : EndsAt delimiter received := by
  have hne := (streams_until.mp hstreams).1
  simp only [answer, enough, reduceCtorEq, if_false] at hanswer
  cases hfind : Bytes.find whole delimiter with
  | none =>
      rw [hfind, Option.map_none, Option.filter_none] at hanswer
      dsimp only at hanswer
      split at hanswer <;> simp at hanswer
  | some i =>
      rw [hfind, Option.map_some, Option.filter_some] at hanswer
      split at hanswer
      · rename_i size hsize
        split at hsize
        · cases hsize
          simp only [Prod.mk.injEq, and_true] at hanswer
          subst hanswer
          have hat := (Bytes.find_eq_some.mp hfind).2.1
          have hlength : (whole.take (i + delimiter.length)).length =
              i + delimiter.length := by
            have hle := hat.length_le
            have hpositive := List.length_pos_iff.mpr hne
            rw [List.length_drop] at hle
            rw [List.length_take]
            omega
          refine endsAt_of_find hne ?_ hlength
          rw [Bytes.find_take hne, hfind, Option.filter_some, if_pos (by simp)]
        · cases hsize
      · split at hanswer <;> simp at hanswer

/-- Reads one response for each policy; what a response leaves is there for the next. -/
def readResponses (channel : Channel ω) (clock : Clock ω) (limit timeout : Int)
    (fuel : Nat) : List ReadPolicy → Bytes →
      Act ModelError ω (List (Bytes × Except TransportError Bool) × Bytes)
  | [], pending => pure ([], pending)
  | policy :: rest, pending => do
      let response ← readResponse channel clock policy pending limit timeout fuel
      let (results, pending) ←
        readResponses channel clock limit timeout fuel rest response.pending
      pure ((response.received, response.completed) :: results, pending)

/-- No response ran into its deadline. -/
def Timely (results : List (Bytes × Except TransportError Bool)) : Prop :=
  ∀ result ∈ results, result.2 ≠ .error (.timeout .receive)

def completedBytes (results : List (Bytes × Except TransportError Bool)) : Bytes :=
  (results.filter fun result => decide (result.2 = .ok true)).flatMap (·.1)

/-- What a stream gives for the policies in turn, however it arrives. -/
def ReadPolicy.answers (limit : Int) :
    List ReadPolicy → Bytes → List (Bytes × Except TransportError Bool)
  | [], _ => []
  | policy :: rest, whole =>
      let answer := policy.answer limit whole
      answer :: answers limit rest
        (if answer.2 = .ok true then whole.drop answer.1.length else whole)

theorem completedBytes_cons (response : Response)
    (results : List (Bytes × Except TransportError Bool)) :
    completedBytes ((response.received, response.completed) :: results) =
      response.taken ++ completedBytes results := by
  simp only [completedBytes, Response.taken, List.filter_cons, decide_eq_true_eq]
  split <;> simp

theorem Reads.rest_ahead {policy : ReadPolicy} {limit : Int} {ahead rest : Bytes}
    {response : Response} (hreads : Reads policy limit ahead response rest) :
    response.pending ++ rest =
      if response.completed = .ok true then ahead.drop response.received.length
      else ahead := by
  have hsplit := hreads.split
  unfold Response.taken at hsplit
  split
  · rename_i hcompleted
    rw [if_pos hcompleted] at hsplit
    rw [hsplit, List.append_assoc, List.drop_left]
  · rename_i hcompleted
    rw [if_neg hcompleted] at hsplit
    exact hsplit.symm

namespace Delivery

variable {ω ω' : Type}

theorem readResponses_reads (delivery : Delivery ω) {limit timeout : Int} {fuel : Nat}
    (hfuel : limit < fuel) : ∀ {policies : List ReadPolicy} {pending : Bytes} (world : ω),
      (∀ policy ∈ policies, policy.Streams limit) → pending.length ≤ limit →
      ∃ results rest last,
        readResponses delivery.channel delivery.clock limit timeout fuel policies pending
            world = (.done (results, rest), last) ∧
          completedBytes results ++ rest ++ delivery.stream last =
            pending ++ delivery.stream world ∧
          (Timely results → results =
            ReadPolicy.answers limit policies (pending ++ delivery.stream world)) ∧
          List.Forall₂ (fun policy result => ∀ delimiter,
            policy = ReadPolicy.untilDelimiter delimiter → result.2 = .ok true →
              EndsAt delimiter result.1) policies results := by
  intro policies
  induction policies with
  | nil =>
      intro pending world _ _
      exact ⟨[], pending, world, rfl, rfl, fun _ => rfl, .nil⟩
  | cons policy policies ih =>
      intro pending world hpolicies hbounded
      obtain ⟨hpolicy, hlater⟩ := List.forall_mem_cons.mp hpolicies
      obtain ⟨response, next, hresponse, hreads⟩ :=
        delivery.readResponse_reads hpolicy timeout world hbounded hfuel
      obtain ⟨results, rest, last, hresults, hsplit, hanswers, hends⟩ :=
        ih next hlater hreads.bounded
      refine ⟨(response.received, response.completed) :: results, rest, last, ?_, ?_, ?_, ?_⟩
      · rw [readResponses, Act.bind_done hresponse, Act.bind_done hresults]
        rfl
      · rw [hreads.split, completedBytes_cons]
        simp only [List.append_assoc] at hsplit ⊢
        rw [hsplit]
      · intro htimely
        obtain ⟨hfirst, hothers⟩ := List.forall_mem_cons.mp htimely
        have hanswer := hreads.answer hfirst
        rw [ReadPolicy.answers, hanswer, hanswers hothers]
        congr 2
        exact hreads.rest_ahead
      · refine .cons ?_ hends
        intro delimiter huntil hcompleted
        subst huntil
        apply ReadPolicy.answer_until hpolicy
        rw [hreads.answer (by simp_all), ← hcompleted]

/-- The responses do not depend on how the stream arrives, and the completed ones,
the bytes still pending and those still to come make up the stream. -/
theorem responses_any_chunks (first : Delivery ω) (second : Delivery ω')
    {policies : List ReadPolicy} {limit timeout : Int} {fuel : Nat} (hlimit : 0 ≤ limit)
    (hpolicies : ∀ policy ∈ policies, policy.Streams limit) (hfuel : limit < fuel)
    (world : ω) (world' : ω') (hstream : first.stream world = second.stream world') :
    ∃ results pending last results' pending' last',
      readResponses first.channel first.clock limit timeout fuel policies [] world =
          (.done (results, pending), last) ∧
        readResponses second.channel second.clock limit timeout fuel policies [] world' =
          (.done (results', pending'), last') ∧
        (Timely results → Timely results' → results = results') ∧
        List.Forall₂ (fun policy result => ∀ delimiter,
          policy = ReadPolicy.untilDelimiter delimiter → result.2 = .ok true →
            EndsAt delimiter result.1) policies results ∧
        completedBytes results ++ pending ++ first.stream last = first.stream world := by
  obtain ⟨results, pending, last, hresults, hsplit, hanswers, hends⟩ :=
    @readResponses_reads _ first limit timeout fuel hfuel policies [] world hpolicies hlimit
  obtain ⟨results', pending', last', hresults', -, hanswers', -⟩ :=
    @readResponses_reads _ second limit timeout fuel hfuel policies [] world' hpolicies
      hlimit
  refine ⟨results, pending, last, results', pending', last', hresults, hresults', ?_, hends,
    hsplit⟩
  intro htimely htimely'
  rw [hanswers htimely, hanswers' htimely', hstream]

/-- The stream arrives in chunks of the given sizes, as far as a receive asks for that
many, and the clock stands still. -/
def scripted : Delivery (Bytes × List Nat) where
  channel := {
    send := fun _ world => (.ok (), world)
    receive := fun size _ world =>
      if world.1 = [] then (.ok .closed, world)
      else
        let count := max 1 (min size.toNat (world.2.headD size.toNat))
        (.ok (.data (world.1.take count)), (world.1.drop count, world.2.tail))
    lastSentLen := fun _ => 0
    close := id }
  clock := ⟨fun world => (0, world), fun _ world => world⟩
  stream := Prod.fst
  ticks := fun _ => rfl
  hands := by
    rintro size timeout ⟨stream, sizes⟩ hsize
    dsimp only
    split
    · rename_i hempty
      subst hempty
      exact .closed
    · rename_i hstream
      have hhands := @Hands.data size
        (stream.take (max 1 (min size.toNat (sizes.headD size.toNat))))
        (stream.drop (max 1 (min size.toNat (sizes.headD size.toNat)))) ?_ ?_
      · rwa [List.take_append_drop] at hhands
      · rw [ne_eq, List.take_eq_nil_iff, not_or]
        exact ⟨by omega, hstream⟩
      · rw [List.length_take]
        omega

/-- Three policies over a stream that arrives byte by byte, and all at once. -/
theorem scripted_any_chunks :
    let stream : Bytes := [65, 66, 13, 10, 67]
    let policies : List ReadPolicy := [.untilDelimiter [13, 10], .noResponse, .fixed 1]
    ∃ results pending last results' pending' last',
      readResponses scripted.channel scripted.clock 8 500 9 policies []
          (stream, [1, 1, 1, 1, 1]) = (.done (results, pending), last) ∧
        readResponses scripted.channel scripted.clock 8 500 9 policies [] (stream, [8]) =
          (.done (results', pending'), last') ∧
        (Timely results → Timely results' → results = results') ∧
        List.Forall₂ (fun policy result => ∀ delimiter,
          policy = ReadPolicy.untilDelimiter delimiter → result.2 = .ok true →
            EndsAt delimiter result.1) policies results ∧
        completedBytes results ++ pending ++ scripted.stream last = stream := by
  apply responses_any_chunks scripted scripted
  · decide
  · simp only [List.forall_mem_cons, ReadPolicy.streams_until, ReadPolicy.streams_fixed]
    simp [ReadPolicy.Streams, validatePolicy]
  · decide
  · rfl

/-- A response that the end of the stream cuts short is reported and stays pending, so
its bytes would count twice. -/
theorem scripted_cut_short :
    ∃ results pending last,
      readResponses scripted.channel scripted.clock 4 500 5 [.fixed 2] [] ([97], []) =
          (.done (results, pending), last) ∧
        Timely results ∧
        results.flatMap (·.1) ++ pending ++ scripted.stream last ≠
          scripted.stream ([97], []) := by
  refine ⟨[([97], .ok false)], [97], ([], []), ?_, ?_, ?_⟩
  · rfl
  · simp [Timely]
  · decide

end Delivery

end MoonBoofuzz
