import MoonBoofuzz.Httpd.Framed

namespace MoonBoofuzz

open Text Web

namespace Httpd

/-! From the bytes of a client to the bytes it gets back. -/

/-- A stream that begins with a request: the first end of a head in it is near enough, what stands
before it spells the head, and the body that is declared has arrived. -/
structure Carries (config : HttpdConfig) (stream : Bytes) (fields : HeadFields) (body : Bytes) :
    Prop where
  head : ∃ index, headTerminatorAt stream = some index ∧
    fields.bodyStart = bodyStart stream index ∧ fields.bodyStart ≤ config.maxHead.toInt ∧
    Spells (decodeLossy (stream.take index)) config.maxBody fields
  sent : body <+: stream.drop fields.bodyStart
  length : body.length = fields.contentLength.toInt

variable {config : HttpdConfig} {stream body : Bytes} {fields : HeadFields}

theorem Carries.readStream (hconfig : config.Bounded)
    (hcarries : Carries config stream fields body) :
    readStream config.maxHead config.maxBody stream =
      .parsed ⟨fields.verb, fields.target, fields.version, fields.headers, body⟩ := by
  obtain ⟨index, hfound, hstart, hnear, hspells⟩ := hcarries.head
  have hfields := (parseHead_eq_ok_iff_spells hconfig.maxBody.1 hconfig.maxBody.2).mpr
    ⟨hspells, hstart⟩
  have hlength : fields.contentLength.toInt.toNat = body.length := by
    rw [← hcarries.length, Int.toNat_natCast]
  have hscan : scanHead config.maxHead config.maxBody stream = .ok (some fields) := by
    rw [scanHead, hfound]
    dsimp only
    rw [if_neg (by omega), hfields]
    rfl
  have hindex := lt_length_of_endsHeadAt (headTerminatorAt_eq_some.mp hfound).1
  have hwithin : fields.bodyStart ≤ stream.length :=
    hstart ▸ bodyStart_le (headTerminatorAt_eq_some.mp hfound).1
  have hneeded : fields.needed ≤ stream.length := by
    have hle := hcarries.sent.length_le
    rw [List.length_drop] at hle
    rw [HeadFields.needed, hlength]
    omega
  rw [Httpd.readStream, verdict, hscan]
  dsimp only
  rw [HeadFields.request, if_pos hneeded, hlength, ← List.prefix_iff_eq_take.mp hcarries.sent]
  rfl

theorem readStream_eq_parsed {stream : Bytes} {request : ParsedRequest} (hconfig : config.Bounded)
    (hparsed : readStream config.maxHead config.maxBody stream = .parsed request) :
    ∃ fields, Carries config stream fields request.body ∧
      request = ⟨fields.verb, fields.target, fields.version, fields.headers, request.body⟩ := by
  obtain ⟨index, fields, hfound, hnear, hfields, hsent⟩ := readStream_parsed hparsed
  obtain ⟨hspells, hstart⟩ := (parseHead_eq_ok_iff_spells hconfig.maxBody.1
    hconfig.maxBody.2).mp hfields
  have hnonnegative := hspells.bounds.1
  rw [HeadFields.request, Option.ite_none_right_eq_some] at hsent
  obtain ⟨hwithin, hsent⟩ := hsent
  obtain rfl := Option.some.inj hsent
  rw [HeadFields.needed] at hwithin
  refine ⟨fields, ⟨⟨index, hfound, hstart, hstart ▸ hnear, hspells⟩, List.take_prefix _ _, ?_⟩, rfl⟩
  rw [List.length_take, List.length_drop]
  omega

/-- The streams that are read as a request are those that carry one, and it is the request that
they carry. -/
theorem readStream_eq_parsed_iff (hconfig : config.Bounded) (stream : Bytes)
    (request : ParsedRequest) :
    readStream config.maxHead config.maxBody stream = .parsed request ↔
      ∃ fields, Carries config stream fields request.body ∧
        request = ⟨fields.verb, fields.target, fields.version, fields.headers, request.body⟩ := by
  constructor
  · exact readStream_eq_parsed hconfig
  · rintro ⟨fields, hcarries, hrequest⟩
    rw [hcarries.readStream hconfig, ← hrequest]

def echoRequest : ParsedRequest :=
  ⟨ofAscii "POST", ofAscii "/echo", ofAscii "HTTP/1.1", [(ofAscii "content-length", ofAscii "2")],
    ascii "hi"⟩

theorem readStream_eq_parsed_echoPieces :
    ∃ fields, Carries defaultConfig (Arrivals.stream echoPieces) fields (ascii "hi") ∧
      echoRequest = ⟨fields.verb, fields.target, fields.version, fields.headers, ascii "hi"⟩ :=
  (readStream_eq_parsed_iff defaultConfig_bounded (Arrivals.stream echoPieces) echoRequest).mp rfl

theorem Carries.plain (hcarries : Carries config stream fields body) :
    ∀ header ∈ fields.headers, header.1 ≠ ofAscii "transfer-encoding" := by
  obtain ⟨index, -, -, -, hspells⟩ := hcarries.head
  obtain ⟨lines, -, hheaders⟩ := hspells.lines
  intro header hmem
  obtain ⟨line, -, hspelled⟩ := forall₂_of_mem_right hheaders hmem
  obtain ⟨name, -, hplain, hname, -⟩ := hspelled.name
  rwa [hname]

theorem labRoute_echo {request : ParsedRequest} (htarget : request.target = ofAscii "/echo") :
    request.labRoute = .passed := by
  unfold ParsedRequest.labRoute
  rw [htarget]
  split
  · rfl
  · rfl

theorem route_echo {request : ParsedRequest} (htarget : request.target = ofAscii "/echo")
    (hverb : request.verbIn ["GET", "POST", "PUT"])
    (hplain : ∀ header ∈ request.headers, header.1 ≠ ofAscii "transfer-encoding") :
    request.route = ⟨200, request.contentType, request.body⟩ := by
  have hplain : request.hasTransferEncoding = false := by
    rw [ParsedRequest.hasTransferEncoding, List.any_eq_false]
    exact fun header hmem => by simpa using hplain header hmem
  unfold ParsedRequest.route
  rw [hplain, htarget, if_neg (by decide), if_neg (fun hroot => absurd hroot.2 (by decide)),
    if_pos ⟨hverb, rfl⟩]

/-- What is sent to be echoed comes back, however it is cut into pieces and whatever follows
it. -/
theorem serveConn_echoes (hconfig : config.Bounded) {conn : RawConn}
    (hflows : Arrivals.Flows conn)
    (hcarries : Carries config (Arrivals.stream conn) fields body)
    (htarget : fields.target = ofAscii "/echo")
    (hverb : fields.verb ∈ ["GET", "POST", "PUT"].map ofAscii) :
    ∃ response, Framed (serveConn config conn).written response body ∧ response.status = 200 ∧
      response.body = body := by
  let request : ParsedRequest :=
    ⟨fields.verb, fields.target, fields.version, fields.headers, body⟩
  have hread : readRequest config.maxHead config.maxBody conn = .ok (.parsed request) := by
    rw [(readRequest_comes hconfig.head_pos conn).flowing hflows]
    exact congrArg Except.ok (hcarries.readStream hconfig)
  have hroute : request.route = ⟨200, request.contentType, body⟩ :=
    route_echo htarget hverb hcarries.plain
  have hkeeps : decide (request.verb = ofAscii "HEAD") = false := by
    refine decide_eq_false fun hhead => ?_
    change fields.verb = ofAscii "HEAD" at hhead
    rw [hhead] at hverb
    exact absurd hverb (by decide)
  have hserved : serveConn config conn = .wrote ⟨200, request.contentType, body⟩ false := by
    rw [serveConn, hread]
    dsimp only
    rw [respond, hkeeps, hroute, labRoute_echo htarget]
    split <;> rfl
  exact ⟨_, framed_of_served hconfig hserved, rfl, rfl⟩

theorem serveConn_echoes_pieces :
    ∃ response, Framed (serveConn defaultConfig echoPieces).written response (ascii "hi") ∧
      response.status = 200 ∧ response.body = ascii "hi" := by
  obtain ⟨fields, hcarries, hrequest⟩ := readStream_eq_parsed defaultConfig_bounded
    (show readStream _ _ (Arrivals.stream echoPieces) = .parsed echoRequest from rfl)
  have htarget : fields.target = ofAscii "/echo" := (congrArg ParsedRequest.target hrequest).symm
  have hverb : fields.verb = ofAscii "POST" := (congrArg ParsedRequest.verb hrequest).symm
  exact serveConn_echoes defaultConfig_bounded echoPieces_flows hcarries htarget
    (by rw [hverb]; decide)

end Httpd

end MoonBoofuzz
