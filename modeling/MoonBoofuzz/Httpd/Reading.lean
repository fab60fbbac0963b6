import MoonBoofuzz.Httpd.Request
import MoonBoofuzz.Web.Raw

namespace MoonBoofuzz

open Text Web

namespace Httpd

/-! Reading one connection. -/

def HeadFields.needed (fields : HeadFields) : Nat :=
  fields.bodyStart + fields.contentLength.toInt.toNat

def HeadFields.request (fields : HeadFields) (received : Bytes) : Option ParsedRequest :=
  if fields.needed ≤ received.length then
    some ⟨fields.verb, fields.target, fields.version, fields.headers,
      (received.drop fields.bodyStart).take fields.contentLength.toInt.toNat⟩
  else none

def scanHead (maxHead maxBody : Int32) (received : Bytes) :
    Except RequestReject (Option HeadFields) :=
  match headTerminatorAt received with
  | some index =>
      if maxHead.toInt < bodyStart received index then .error .headTooLarge
      else (parseHead received index maxBody).map some
  | none => if maxHead.toInt ≤ received.length then .error .headTooLarge else .ok none

/-- The variables of `read_request`: the part of the buffer that has been received, the length of
the buffer, and the head. -/
structure Reading where
  received : Bytes
  capacity : Nat
  head : Option HeadFields

namespace Reading

def request (reading : Reading) : Option ParsedRequest :=
  reading.head.bind fun fields => fields.request reading.received

/-- A full buffer grows to what the head has declared. -/
def grow (reading : Reading) : Option Reading :=
  if reading.received.length = reading.capacity then
    reading.head.map fun fields => { reading with capacity := fields.needed }
  else some reading

def take (maxHead maxBody : Int32) (reading : Reading) (bytes : Bytes) :
    Except RequestReject Reading :=
  let received := reading.received ++ bytes
  match reading.head with
  | some _ => .ok { reading with received := received }
  | none =>
      (scanHead maxHead maxBody received).map fun head =>
        { reading with received := received, head := head }

end Reading

/-- The loop of `read_request`. -/
def readLoop (maxHead maxBody : Int32) (conn : RawConn) (reading : Reading) :
    Except WebError ReadResult :=
  match reading.request with
  | some request => .ok (.parsed request)
  | none =>
      match RawConn.wait conn with
      | (.error error, _) => .error error
      | (.ok false, _) => .ok .closed
      | (.ok true, _) =>
          match reading.grow with
          | none => .ok (.rejected .headTooLarge)
          | some reading =>
              match _ : RawConn.recv reading.capacity reading.received.length conn with
              | (.error error, _) => .error error
              | (.ok bytes, rest) =>
                  if _ : bytes = [] then .ok .closed
                  else
                    match reading.take maxHead maxBody bytes with
                    | .error reject => .ok (.rejected reject)
                    | .ok reading => readLoop maxHead maxBody rest reading
termination_by Arrivals.weight conn
decreasing_by exact RawConn.recv_weight ‹_› ‹_›

def readRequest (maxHead maxBody : Int32) (conn : RawConn) : Except WebError ReadResult :=
  readLoop maxHead maxBody conn ⟨[], (maxHead.toInt + 16).toNat, none⟩

def verdict (maxHead maxBody : Int32) (received : Bytes) : Option ReadResult :=
  match scanHead maxHead maxBody received with
  | .error reject => some (.rejected reject)
  | .ok none => none
  | .ok (some fields) => (fields.request received).map .parsed

def readStream (maxHead maxBody : Int32) (stream : Bytes) : ReadResult :=
  (verdict maxHead maxBody stream).getD .closed

variable {maxHead maxBody : Int32} {front : Bytes}

theorem scanHead_eq_none (hscan : scanHead maxHead maxBody front = .ok none) :
    headTerminatorAt front = none ∧ front.length < maxHead.toInt := by
  unfold scanHead at hscan
  split at hscan
  · split at hscan
    · cases hscan
    · cases hhead : parseHead front _ maxBody with
      | error reject => rw [hhead] at hscan; cases hscan
      | ok fields => rw [hhead] at hscan; cases hscan
  · rename_i hnone
    split at hscan
    · cases hscan
    · exact ⟨hnone, by omega⟩

theorem scanHead_eq_some {fields : HeadFields}
    (hscan : scanHead maxHead maxBody front = .ok (some fields)) :
    ∃ index, headTerminatorAt front = some index ∧ bodyStart front index ≤ maxHead.toInt ∧
      parseHead front index maxBody = .ok fields := by
  unfold scanHead at hscan
  split at hscan
  · rename_i index hfound
    split at hscan
    · cases hscan
    · cases hhead : parseHead front index maxBody with
      | error reject => rw [hhead] at hscan; cases hscan
      | ok parsed =>
          rw [hhead] at hscan
          obtain rfl : parsed = fields := Option.some.inj (Except.ok.inj hscan)
          exact ⟨index, hfound, by omega, hhead⟩
  · split at hscan
    · cases hscan
    · cases hscan

/-- What a scan has settled stays so: a head, or the reason why there is none. -/
theorem scanHead_append {outcome : Except RequestReject (Option HeadFields)}
    (hscan : scanHead maxHead maxBody front = outcome) (hsettled : outcome ≠ .ok none)
    (rest : Bytes) : scanHead maxHead maxBody (front ++ rest) = outcome := by
  subst hscan
  unfold scanHead at hsettled ⊢
  cases hfound : headTerminatorAt front with
  | some index =>
      have hindex := lt_length_of_endsHeadAt (headTerminatorAt_eq_some.mp hfound).1
      rw [headTerminatorAt_append hfound]
      dsimp only
      rw [bodyStart_append hindex, parseHead_append hindex]
  | none =>
      rw [hfound] at hsettled
      dsimp only at hsettled ⊢
      split at hsettled
      · rename_i hfull
        rw [if_pos hfull]
        cases hlater : headTerminatorAt (front ++ rest) with
        | some index =>
            have hbeyond := length_lt_of_headTerminatorAt hfound hlater
            exact if_pos (by omega)
        | none =>
            have hlength : front.length ≤ (front ++ rest).length := by
              rw [List.length_append]
              omega
            exact if_pos (by omega)
      · exact absurd rfl hsettled

theorem HeadFields.request_append {fields : HeadFields} {request : ParsedRequest}
    (hrequest : fields.request front = some request) (rest : Bytes) :
    fields.request (front ++ rest) = some request := by
  unfold HeadFields.request at hrequest ⊢
  split at hrequest
  · rename_i hwithin
    rw [HeadFields.needed] at hwithin
    have hlength : front.length ≤ (front ++ rest).length := by
      rw [List.length_append]
      omega
    rw [if_pos (by rw [HeadFields.needed]; omega), List.drop_append_of_le_length (by omega),
      List.take_append_of_le_length (by rw [List.length_drop]; omega)]
    exact hrequest
  · cases hrequest

theorem verdict_stable (maxHead maxBody : Int32) : Stable (verdict maxHead maxBody) := by
  intro front result hresult rest
  unfold verdict at hresult ⊢
  cases hscan : scanHead maxHead maxBody front with
  | error reject =>
      rw [scanHead_append hscan (by simp) rest]
      rw [hscan] at hresult
      exact hresult
  | ok head =>
      cases head with
      | none => rw [hscan] at hresult; cases hresult
      | some fields =>
          rw [scanHead_append hscan (by simp) rest]
          rw [hscan] at hresult
          obtain ⟨request, hrequest, rfl⟩ := Option.map_eq_some_iff.mp hresult
          exact Option.map_eq_some_iff.mpr ⟨request, fields.request_append hrequest rest, rfl⟩

/-- What holds at the head of the loop: the variables are what a scan of the received bytes
gives, and the buffer holds them. -/
structure Reading.Sound (maxHead maxBody : Int32) (reading : Reading) : Prop where
  head : scanHead maxHead maxBody reading.received = .ok reading.head
  within : reading.received.length ≤ reading.capacity
  room : maxHead.toInt ≤ reading.capacity

theorem Reading.Sound.verdict {reading : Reading} (hsound : reading.Sound maxHead maxBody) :
    verdict maxHead maxBody reading.received = reading.request.map .parsed := by
  unfold Httpd.verdict Reading.request
  rw [hsound.head]
  cases reading.head <;> rfl

/-- A buffer is made to grow only while the body is incomplete, and has room afterwards. -/
theorem Reading.Sound.grow {reading : Reading} (hsound : reading.Sound maxHead maxBody)
    (hrequest : reading.request = none) :
    ∃ grown, reading.grow = some grown ∧ grown.Sound maxHead maxBody ∧
      grown.received = reading.received ∧ grown.received.length < grown.capacity := by
  obtain ⟨received, capacity, head⟩ := reading
  have hwithin := hsound.within
  have hroom := hsound.room
  dsimp only at hwithin hroom
  rw [Reading.grow]
  split
  · rename_i hfull
    dsimp only at hfull
    cases head with
    | none =>
        have hshort := (scanHead_eq_none hsound.head).2
        dsimp only at hshort
        omega
    | some fields =>
        change fields.request received = none at hrequest
        rw [HeadFields.request, ite_eq_right_iff] at hrequest
        have hmissing : received.length < fields.needed := by
          by_contra hthere
          cases hrequest (Nat.not_lt.mp hthere)
        refine ⟨_, rfl, ⟨hsound.head, Nat.le_of_lt hmissing, ?_⟩, rfl, hmissing⟩
        dsimp only
        omega
  · rename_i hroomy
    dsimp only at hroomy
    exact ⟨_, rfl, hsound, rfl, by dsimp only; omega⟩

theorem Reading.Sound.grown {reading grown : Reading} (hsound : reading.Sound maxHead maxBody)
    (hrequest : reading.request = none) (hgrow : reading.grow = some grown) :
    grown.Sound maxHead maxBody ∧ grown.received = reading.received ∧
      grown.received.length < grown.capacity := by
  obtain ⟨_, hsame, hgrown⟩ := hsound.grow hrequest
  obtain rfl := Option.some.inj (hgrow.symm.trans hsame)
  exact hgrown

theorem Reading.Sound.take {reading : Reading} {bytes : Bytes}
    (hsound : reading.Sound maxHead maxBody)
    (hfits : reading.received.length + bytes.length ≤ reading.capacity) :
    match reading.take maxHead maxBody bytes with
    | .error reject =>
        Httpd.verdict maxHead maxBody (reading.received ++ bytes) = some (.rejected reject)
    | .ok taken => taken.Sound maxHead maxBody ∧ taken.received = reading.received ++ bytes := by
  obtain ⟨received, capacity, head⟩ := reading
  have hlength : (received ++ bytes).length ≤ capacity := by
    rw [List.length_append]
    exact hfits
  cases head with
  | some fields =>
      have hscan := scanHead_append hsound.head (by simp) bytes
      exact ⟨⟨hscan, hlength, hsound.room⟩, rfl⟩
  | none =>
      simp only [Reading.take]
      cases hscan : scanHead maxHead maxBody (received ++ bytes) with
      | error reject =>
          change Httpd.verdict maxHead maxBody (received ++ bytes) = _
          rw [Httpd.verdict, hscan]
      | ok head => exact ⟨⟨hscan, hlength, hsound.room⟩, rfl⟩

/-- The answer of the loop, by induction along its rounds. -/
theorem readLoop_comes (conn : RawConn) (reading : Reading)
    (hsound : reading.Sound maxHead maxBody) :
    Comes (verdict maxHead maxBody) .closed reading.received conn
      (readLoop maxHead maxBody conn reading) := by
  fun_induction readLoop maxHead maxBody conn reading with
  | case1 conn reading request hrequest =>
      exact Comes.settled (verdict_stable maxHead maxBody)
        (by rw [hsound.verdict, hrequest, Option.map_some])
  | case2 conn reading hrequest error waited hwait =>
      exact Comes.raised (Arrivals.not_flows_of_await_error hwait)
  | case3 conn reading hrequest waited hwait =>
      exact Comes.stalled (Arrivals.not_flows_of_await_false hwait)
  | case4 conn reading hrequest waited hwait hgrow =>
      obtain ⟨grown, hgrown, -⟩ := hsound.grow hrequest
      rw [hgrow] at hgrown
      cases hgrown
  | case5 conn reading hrequest waited hwait grown hgrow error rest hrecv =>
      obtain ⟨-, hroom⟩ := hsound.grown hrequest hgrow
      rw [RawConn.recv_eq hroom.2] at hrecv
      exact Comes.raised (Arrivals.not_flows_of_receive_error hrecv)
  | case6 conn reading hrequest waited hwait grown hgrow rest hrecv =>
      obtain ⟨-, hroom⟩ := hsound.grown hrequest hgrow
      rw [RawConn.recv_eq hroom.2] at hrecv
      have hopen : verdict maxHead maxBody reading.received = none := by
        rw [hsound.verdict, hrequest, Option.map_none]
      exact Comes.ended hrecv (Nat.sub_pos_of_lt hroom.2) hopen
  | case7 conn reading hrequest waited hwait grown hgrow bytes rest hrecv hfilled reject hreject =>
      obtain ⟨hgrown, hreceived, hroom⟩ := hsound.grown hrequest hgrow
      rw [RawConn.recv_eq hroom] at hrecv
      have hfits := Arrivals.receive_length hrecv
      have htake := hgrown.take (by omega : grown.received.length + bytes.length ≤ grown.capacity)
      rw [hreject, hreceived] at htake
      exact Comes.more hrecv (Comes.settled (verdict_stable maxHead maxBody) htake)
  | case8 conn reading hrequest waited hwait grown hgrow bytes rest hrecv hfilled taken htaken ih =>
      obtain ⟨hgrown, hreceived, hroom⟩ := hsound.grown hrequest hgrow
      rw [RawConn.recv_eq hroom] at hrecv
      have hfits := Arrivals.receive_length hrecv
      have htake := hgrown.take (by omega : grown.received.length + bytes.length ≤ grown.capacity)
      rw [htaken, hreceived] at htake
      have hcomes := ih htake.1
      rw [htake.2] at hcomes
      exact Comes.more hrecv hcomes

theorem readRequest_comes (hhead : 0 < maxHead) (conn : RawConn) :
    Comes (verdict maxHead maxBody) .closed [] conn (readRequest maxHead maxBody conn) := by
  have hpositive : 0 < maxHead.toInt := Int32.lt_iff_toInt_lt.mp hhead
  have hscan : scanHead maxHead maxBody [] = .ok none := by
    rw [scanHead]
    exact if_neg (by simpa using hpositive)
  have hsound : Reading.Sound maxHead maxBody ⟨[], (maxHead.toInt + 16).toNat, none⟩ := by
    refine ⟨hscan, Nat.zero_le _, ?_⟩
    dsimp only
    omega
  exact readLoop_comes conn _ hsound

theorem readStream_parsed {stream : Bytes} {request : ParsedRequest}
    (hparsed : readStream maxHead maxBody stream = .parsed request) :
    ∃ index fields, headTerminatorAt stream = some index ∧
      bodyStart stream index ≤ maxHead.toInt ∧ parseHead stream index maxBody = .ok fields ∧
      fields.request stream = some request := by
  unfold readStream verdict at hparsed
  cases hscan : scanHead maxHead maxBody stream with
  | error reject => rw [hscan] at hparsed; cases hparsed
  | ok head =>
      rw [hscan] at hparsed
      cases head with
      | none => cases hparsed
      | some fields =>
          obtain ⟨index, hfound, hwithin, hhead⟩ := scanHead_eq_some hscan
          refine ⟨index, fields, hfound, hwithin, hhead, ?_⟩
          dsimp only at hparsed
          cases hrequest : fields.request stream with
          | none => rw [hrequest] at hparsed; cases hparsed
          | some sent =>
              rw [hrequest] at hparsed
              exact congrArg some (ReadResult.parsed.inj hparsed)

/-- What has been read from a connection is what its stream is read as, or nothing. -/
theorem readRequest_anyway (hhead : 0 < maxHead) {conn : RawConn} {result : ReadResult}
    (hresult : readRequest maxHead maxBody conn = .ok result) :
    result = .closed ∨ result = readStream maxHead maxBody (Arrivals.stream conn) := by
  refine ((readRequest_comes hhead conn).anyway hresult).imp_right fun hverdict => ?_
  rw [List.nil_append] at hverdict
  rw [readStream, hverdict, Option.getD_some]

theorem readRequest_parsed (hhead : 0 < maxHead) {conn : RawConn} {request : ParsedRequest}
    (hrequest : readRequest maxHead maxBody conn = .ok (.parsed request)) :
    ∃ index fields, headTerminatorAt (Arrivals.stream conn) = some index ∧
      parseHead (Arrivals.stream conn) index maxBody = .ok fields ∧
      fields.request (Arrivals.stream conn) = some request := by
  have hparsed := (readRequest_anyway hhead hrequest).resolve_left (by simp)
  obtain ⟨index, fields, hfound, -, hfields, hsent⟩ := readStream_parsed hparsed.symm
  exact ⟨index, fields, hfound, hfields, hsent⟩

theorem HttpdConfig.Bounded.head_pos {config : HttpdConfig} (hconfig : config.Bounded) :
    0 < config.maxHead := Int32.lt_of_lt_of_le (by decide) hconfig.maxHead.1

/-- How the bytes of a connection are cut into pieces does not show in what is read; a connection
that stalls or breaks gives the same answer, an error or none. -/
theorem readRequest_reads_stream {config : HttpdConfig} (hconfig : config.Bounded)
    (conn : RawConn) :
    (Arrivals.Flows conn → readRequest config.maxHead config.maxBody conn =
      .ok (readStream config.maxHead config.maxBody (Arrivals.stream conn))) ∧
    (∀ result, readRequest config.maxHead config.maxBody conn = .ok result →
      result = .closed ∨
        result = readStream config.maxHead config.maxBody (Arrivals.stream conn)) ∧
    ∀ request, readRequest config.maxHead config.maxBody conn = .ok (.parsed request) →
      ∃ index fields, headTerminatorAt (Arrivals.stream conn) = some index ∧
        parseHead (Arrivals.stream conn) index config.maxBody = .ok fields ∧
        request.body.length = fields.contentLength.toInt ∧
        request.body <+: (Arrivals.stream conn).drop (bodyStart (Arrivals.stream conn) index) := by
  have hhead := hconfig.head_pos
  refine ⟨(readRequest_comes hhead conn).flowing, fun result => readRequest_anyway hhead,
    fun request hrequest => ?_⟩
  obtain ⟨index, fields, hfound, hfields, hsent⟩ := readRequest_parsed hhead hrequest
  obtain ⟨first, rest, hreads⟩ := parseHead_eq_ok.mp hfields
  refine ⟨index, fields, hfound, hfields, ?_⟩
  have hlength := (contentLengthFrom_bounds hconfig.maxBody.1 hconfig.maxBody.2
    hreads.contentLength).1
  have hnonnegative : 0 ≤ fields.contentLength.toInt := Int32.le_iff_toInt_le.mp hlength
  rw [HeadFields.request, Option.ite_none_right_eq_some] at hsent
  obtain ⟨hwithin, hsent⟩ := hsent
  obtain rfl := Option.some.inj hsent
  rw [HeadFields.needed, hreads.bodyStart] at hwithin
  dsimp only
  rw [hreads.bodyStart, List.length_take, List.length_drop]
  exact ⟨by omega, List.take_prefix _ _⟩

theorem defaultConfig_bounded : defaultConfig.Bounded := @parseArgs_bounded [] _ rfl

/-- A request in three pieces, with more bytes behind its body. -/
def echoPieces : RawConn :=
  ["POST /echo HT", "TP/1.1\r\nContent-Length: 2\r\n\r", "\nhi more"].map fun piece =>
    .data (ascii piece)

theorem echoPieces_flows : Arrivals.Flows echoPieces := by
  intro arrival hmem
  obtain ⟨piece, hpiece, rfl⟩ := List.mem_map.mp hmem
  refine ⟨_, rfl, ?_⟩
  revert piece
  decide

theorem readRequest_reads_echoPieces :
    Arrivals.Flows echoPieces ∧
      readRequest defaultConfig.maxHead defaultConfig.maxBody echoPieces =
        .ok (.parsed ⟨ofAscii "POST", ofAscii "/echo", ofAscii "HTTP/1.1",
          [(ofAscii "content-length", ofAscii "2")], ascii "hi"⟩) :=
  ⟨echoPieces_flows, (readRequest_reads_stream defaultConfig_bounded echoPieces).1
    echoPieces_flows⟩

end Httpd

end MoonBoofuzz
