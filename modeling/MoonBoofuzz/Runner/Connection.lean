import MoonBoofuzz.Runner.Endpoint

namespace MoonBoofuzz

/-! The send of a TCP connection. -/

variable {σ : Type}

structure Socket (σ : Type) where
  nowMs : σ → Int × σ
  wait : Int → Int → σ → Int × σ
  /-- Offers a slice of the bytes, given by its offset and its length. -/
  send : Bytes → Nat → Nat → σ → Int × σ
  error : σ → Int

def Socket.Bounded (socket : Socket σ) : Prop :=
  ∀ bytes offset length outside, (socket.send bytes offset length outside).1 ≤ length

structure Net (σ : Type) where
  outside : σ
  closed : Bool
  lastSent : Int
  /-- All bytes that the socket has accepted.  The code does not see them. -/
  accepted : Bytes

namespace Connection

open Act

def outside (action : σ → α × σ) : Act TransportError (Net σ) α :=
  perform fun net =>
    let (value, outside) := action net.outside
    (value, { net with outside := outside })

def raiseWith (socket : Socket σ) (error : Int → TransportError) :
    Act TransportError (Net σ) α :=
  fun net => (.raised (error (socket.error net.outside)), net)

/-- `socket_send`: a positive count accepts so many bytes of the slice. -/
def socketSend (socket : Socket σ) (bytes : Bytes) (offset length : Nat) :
    Act TransportError (Net σ) Int :=
  perform fun net =>
    let (count, outside) := socket.send bytes offset length net.outside
    (count, { net with
      outside := outside
      accepted := net.accepted ++ ((bytes.drop offset).take length).take count.toNat })

/-- `wait_ready`. -/
def waitReady (socket : Socket σ) (phase : Phase) (deadline : Int) :
    Act TransportError (Net σ) Unit := do
  let now ← outside socket.nowMs
  let remaining := wrap64 (deadline - now)
  if 0 < remaining then
    let result ← outside (socket.wait (if phase = .send then 1 else 0) (wrap32 remaining))
    if result = 0 then ofEval (.raised (.timeout phase))
    else if result < 0 then
      if phase = .send then raiseWith socket .sendFailure
      else raiseWith socket .receiveFailure
    else pure ()
  else ofEval (.raised (.timeout phase))

/-- The loop of `send` over a TCP connection. -/
def sendLoop (socket : Socket σ) (bytes : Bytes) (deadline : Int) :
    Nat → Nat → Act TransportError (Net σ) Unit
  | 0, _ => ofEval .pending
  | fuel + 1, offset =>
      if offset < bytes.length then do
        waitReady socket .send deadline
        let sent ← socketSend socket bytes offset (min (bytes.length - offset) 16384)
        if sent = -2 then sendLoop socket bytes deadline fuel offset
        else if 0 < sent then do
          perform fun net => ((), { net with lastSent := net.lastSent + sent })
          sendLoop socket bytes deadline fuel (offset + sent.toNat)
        else raiseWith socket .sendFailure
      else pure ()

/-- `send` of a TCP connection. -/
def send (socket : Socket σ) (endpoint : Endpoint) (bytes : Bytes) (fuel : Nat) :
    Act TransportError (Net σ) Unit := do
  perform fun net => ((), { net with lastSent := 0 })
  if ← perform fun net => (net.closed, net) then ofEval (.raised (.sendFailure (-1)))
  else do
    let now ← outside socket.nowMs
    sendLoop socket bytes (wrap64 (now + endpoint.sendTimeoutMs.toInt)) fuel 0

/-- The bytes that are accepted of those that are left, and the counter of the
connection. -/
structure Progress (bytes : Bytes) (offset count : Nat) (net last : Net σ) : Prop where
  accepted : last.accepted = net.accepted ++ (bytes.drop offset).take count
  lastSent : last.lastSent = net.lastSent + count
  closed : last.closed = net.closed
  within : offset + count ≤ bytes.length

theorem Progress.refl {bytes : Bytes} {offset : Nat} {net : Net σ}
    (hle : offset ≤ bytes.length) : Progress bytes offset 0 net net where
  accepted := by simp
  lastSent := by simp
  closed := rfl
  within := hle

theorem Progress.trans {bytes : Bytes} {offset first second : Nat} {net middle last : Net σ}
    (hfirst : Progress bytes offset first net middle)
    (hsecond : Progress bytes (offset + first) second middle last) :
    Progress bytes offset (first + second) net last where
  accepted := by
    rw [hsecond.accepted, hfirst.accepted, List.append_assoc, List.take_add, List.drop_drop]
  lastSent := by
    rw [hsecond.lastSent, hfirst.lastSent, Int.add_assoc, Nat.cast_add]
  closed := hsecond.closed.trans hfirst.closed
  within := Nat.add_assoc offset first second ▸ hsecond.within

def noted (net : Net σ) : Bytes × Int × Bool := (net.accepted, net.lastSent, net.closed)

theorem Progress.of_noted {bytes : Bytes} {offset : Nat} {net last : Net σ}
    (hle : offset ≤ bytes.length) (hnoted : noted last = noted net) :
    Progress bytes offset 0 net last := by
  simp only [noted, Prod.mk.injEq] at hnoted
  obtain ⟨haccepted, hlastSent, hclosed⟩ := hnoted
  exact ⟨by simp [haccepted], by simp [hlastSent], hclosed, hle⟩

theorem outside_unchanged (action : σ → α × σ) : Unchanged noted (outside action) := fun _ => rfl

theorem raiseWith_unchanged (socket : Socket σ) (error : Int → TransportError) :
    Unchanged noted (raiseWith socket error : Act TransportError (Net σ) α) := fun _ => rfl

theorem waitReady_unchanged (socket : Socket σ) (phase : Phase) (deadline : Int) :
    Unchanged noted (waitReady socket phase deadline) := by
  unfold waitReady
  refine unchanged_bind (outside_unchanged _) fun now => ?_
  dsimp only
  split
  · refine unchanged_bind (outside_unchanged _) fun result => ?_
    split
    · exact unchanged_ofEval _
    · split
      · split
        · exact raiseWith_unchanged _ _
        · exact raiseWith_unchanged _ _
      · exact unchanged_pure _
  · exact unchanged_ofEval _

/-- How far a part of `send` comes: to the end when it comes back, and not to the end when
it raises an error. -/
def Comes (bytes : Bytes) (offset : Nat) (net : Net σ) :
    Eval TransportError Unit × Net σ → Prop
  | (answer, last) => ∃ count, Progress bytes offset count net last ∧
      (answer = .done () → offset + count = bytes.length) ∧
      ∀ error, answer = .raised error → offset + count < bytes.length

theorem Comes.after {bytes : Bytes} {offset count : Nat} {net middle : Net σ}
    {outcome : Eval TransportError Unit × Net σ}
    (hprogress : Progress bytes offset count net middle)
    (hcomes : Comes bytes (offset + count) middle outcome) :
    Comes bytes offset net outcome := by
  obtain ⟨answer, last⟩ := outcome
  obtain ⟨rest, hrest, hdone, hraised⟩ := hcomes
  refine ⟨count + rest, hprogress.trans hrest, ?_⟩
  rw [← Nat.add_assoc]
  exact ⟨hdone, hraised⟩

theorem progress_of_sent {bytes : Bytes} {offset length : Nat} {sent : Int} {net : Net σ}
    (hsent : 0 ≤ sent) (hbound : sent ≤ length) (hle : offset + length ≤ bytes.length)
    (after : σ) :
    Progress bytes offset sent.toNat net
      ⟨after, net.closed, net.lastSent + sent,
        net.accepted ++ ((bytes.drop offset).take length).take sent.toNat⟩ where
  accepted := by rw [List.take_take, Nat.min_eq_left (by omega)]
  lastSent := by rw [Int.toNat_of_nonneg hsent]
  closed := rfl
  within := by omega

theorem sendLoop_comes {socket : Socket σ} (hbounded : socket.Bounded) {bytes : Bytes}
    {deadline : Int} : ∀ {fuel offset : Nat} {net : Net σ}, offset ≤ bytes.length →
    Comes bytes offset net (sendLoop socket bytes deadline fuel offset net) := by
  intro fuel
  induction fuel with
  | zero =>
      intro offset net hle
      exact ⟨0, .refl hle, by simp, by simp⟩
  | succ fuel ih =>
      intro offset net hle
      rw [sendLoop]
      split
      · rename_i hlt
        have hkept := waitReady_unchanged socket .send deadline net
        cases hwait : waitReady socket .send deadline net with
        | mk answer ready =>
            rw [hwait] at hkept
            have hready : Progress bytes offset 0 net ready := .of_noted hle hkept
            cases answer with
            | raised error =>
                rw [bind_raised hwait]
                exact ⟨0, hready, by simp, fun _ _ => hlt⟩
            | pending =>
                rw [bind_pending hwait]
                exact ⟨0, hready, by simp, by simp⟩
            | done token =>
                apply Comes.after hready
                rw [bind_done hwait, Nat.add_zero]
                have hbound := hbounded bytes offset (min (bytes.length - offset) 16384)
                  ready.outside
                cases hoffer : socket.send bytes offset (min (bytes.length - offset) 16384)
                    ready.outside with
                | mk sent after =>
                    rw [hoffer] at hbound
                    have hsocket : socketSend socket bytes offset
                        (min (bytes.length - offset) 16384) ready = (.done sent, ⟨after,
                          ready.closed, ready.lastSent, ready.accepted ++
                            ((bytes.drop offset).take (min (bytes.length - offset) 16384)).take
                              sent.toNat⟩) := by
                      rw [socketSend, perform_run, hoffer]
                    rw [bind_done hsocket]
                    have hnothing : sent ≤ 0 → Progress bytes offset 0 ready ⟨after,
                        ready.closed, ready.lastSent, ready.accepted ++
                          ((bytes.drop offset).take (min (bytes.length - offset) 16384)).take
                            sent.toNat⟩ := by
                      intro hsent
                      apply Progress.of_noted hle
                      rw [Int.toNat_of_nonpos hsent, List.take_zero, List.append_nil]
                      rfl
                    split
                    · exact Comes.after (hnothing (by omega)) (ih hle)
                    · split
                      · rename_i hpositive
                        rw [bind_perform]
                        exact Comes.after (progress_of_sent (by omega) hbound (by omega) after)
                          (ih (by omega))
                      · exact ⟨0, hnothing (by omega), by simp, fun _ _ => hlt⟩
      · exact ⟨0, .refl hle, fun _ => by omega, by simp⟩

theorem send_comes {socket : Socket σ} (hbounded : socket.Bounded) {endpoint : Endpoint}
    {bytes : Bytes} {fuel : Nat} {net : Net σ} (hopen : net.closed = false) :
    Comes bytes 0 { net with lastSent := 0 } (send socket endpoint bytes fuel net) := by
  rw [send, bind_perform, bind_perform]
  simp only [hopen, Bool.false_eq_true, if_false]
  change Comes bytes 0 _ ((perform _ >>= _) _)
  rw [bind_perform]
  have hready : Progress bytes 0 0 { net with lastSent := 0 }
      ⟨(socket.nowMs net.outside).2, net.closed, 0, net.accepted⟩ :=
    .of_noted (Nat.zero_le _) rfl
  rw [hopen] at hready
  exact Comes.after hready (sendLoop_comes hbounded (Nat.zero_le _))

theorem sendLoop_settled {socket : Socket σ} {bytes : Bytes} {deadline : Int} :
    ∀ {fuel more offset : Nat} {net : Net σ}, fuel ≤ more →
    (sendLoop socket bytes deadline fuel offset net).1.Settled →
    sendLoop socket bytes deadline more offset net =
      sendLoop socket bytes deadline fuel offset net := by
  intro fuel
  induction fuel with
  | zero =>
      intro more offset net _ hsettled
      exact absurd rfl hsettled
  | succ fuel ih =>
      intro more offset net hle hsettled
      obtain ⟨more, rfl⟩ := Nat.exists_eq_add_of_le' (Nat.zero_lt_of_lt hle)
      have hless : fuel ≤ more := Nat.le_of_succ_le_succ hle
      rw [sendLoop] at hsettled ⊢
      rw [sendLoop]
      split
      · rename_i hlt
        rw [if_pos hlt] at hsettled
        refine bind_settled (fun _ ready hready => ?_) hsettled
        refine bind_settled (fun sent offered hoffered => ?_) hready
        split <;> rename_i hblocked
        · rw [if_pos hblocked] at hoffered
          exact ih hless hoffered
        · rw [if_neg hblocked] at hoffered
          split <;> rename_i hpositive
          · rw [if_pos hpositive] at hoffered
            exact bind_settled (fun _ counted hcounted => ih hless hcounted) hoffered
          · rfl
      · rfl

theorem send_settled {socket : Socket σ} {endpoint : Endpoint} {bytes : Bytes}
    {fuel more : Nat} {net : Net σ} (hle : fuel ≤ more)
    (hsettled : (send socket endpoint bytes fuel net).1.Settled) :
    send socket endpoint bytes more net = send socket endpoint bytes fuel net := by
  refine bind_settled (fun _ reset hreset => ?_) hsettled
  refine bind_settled (fun closed asked hasked => ?_) hreset
  split <;> rename_i hclosed
  · rfl
  · rw [if_neg hclosed] at hasked
    exact bind_settled (fun _ _ hstarted => sendLoop_settled hle hstarted) hasked

/-- `send` comes back with an answer. -/
def Returns (socket : Socket σ) (endpoint : Endpoint) (bytes : Bytes) (net : Net σ)
    (answer : Except TransportError Unit) (last : Net σ) : Prop :=
  ∃ fuel, send socket endpoint bytes fuel net = (Eval.ofExcept answer, last)

theorem Returns.answer {socket : Socket σ} {endpoint : Endpoint} {bytes : Bytes}
    {net last : Net σ} {answer : Except TransportError Unit}
    (hreturns : Returns socket endpoint bytes net answer last) {fuel : Nat}
    (hsettled : (send socket endpoint bytes fuel net).1.Settled) :
    send socket endpoint bytes fuel net = (Eval.ofExcept answer, last) := by
  obtain ⟨enough, hsend⟩ := hreturns
  have henough : (send socket endpoint bytes enough net).1.Settled := by
    rw [hsend]
    exact Eval.ofExcept_settled answer
  rw [← hsend]
  rcases Nat.le_total fuel enough with hle | hle
  · exact (send_settled hle hsettled).symm
  · exact send_settled hle henough

theorem Returns.accepted {socket : Socket σ} {endpoint : Endpoint} {bytes : Bytes}
    {net last : Net σ} {answer : Except TransportError Unit}
    (hreturns : Returns socket endpoint bytes net answer last) (hbounded : socket.Bounded)
    (hopen : net.closed = false) :
    last.closed = false ∧
      last.accepted = net.accepted ++ bytes.take last.lastSent.toNat ∧
      (answer = .ok () ↔ bytes.take last.lastSent.toNat = bytes) := by
  obtain ⟨fuel, hsend⟩ := hreturns
  have hcomes := @send_comes _ _ hbounded endpoint bytes fuel _ hopen
  rw [hsend] at hcomes
  obtain ⟨count, hprogress, hdone, hraised⟩ := hcomes
  have hwithin := hprogress.within
  have hcount : last.lastSent.toNat = count := by
    rw [hprogress.lastSent]
    simp
  rw [hcount, List.take_eq_self_iff]
  refine ⟨hprogress.closed.trans hopen, by simpa using hprogress.accepted, ?_⟩
  cases answer with
  | ok token =>
      have := hdone rfl
      simp only [true_iff]
      omega
  | error error =>
      have := hraised error rfl
      simp only [reduceCtorEq, false_iff]
      omega

end Connection

/-- A channel over a connection: what its send comes back with is what the send of the
connection does. -/
structure Channel.OverTcp (channel : Channel (Net σ)) (socket : Socket σ)
    (endpoint : Endpoint) : Prop where
  send : ∀ {bytes : Bytes} {net last : Net σ} {answer : Except TransportError Unit},
    Connection.Returns socket endpoint bytes net answer last →
      channel.send bytes net = (answer, last)
  lastSentLen : ∀ net, channel.lastSentLen net = net.lastSent
  receive : ∀ size timeout net, (channel.receive size timeout net).2.closed = net.closed

end MoonBoofuzz
