import MoonBoofuzz.Httpd.Heads
import MoonBoofuzz.Httpd.Respond

namespace MoonBoofuzz

open Text Web

namespace Httpd

/-! Answers and where they end. -/

section

variable {line rest : Bytes} {i : Nat}

theorem getElem?_of_endsHeadAt {buffer : Bytes} (hends : endsHeadAt buffer i = true) :
    buffer[i + 1]? = some 10 ∧
      (buffer[i]? = some 13 ∧ buffer[i + 2]? = some 13 ∨ buffer[i]? = some 10) := by
  rcases endsHeadAt_iff.mp hends with ⟨h0, h1, h2, -⟩ | ⟨h0, h1⟩
  · exact ⟨h1, Or.inl ⟨h0, h2⟩⟩
  · exact ⟨h1, Or.inr h0⟩

theorem endsHeadAt_shift (front : Bytes) :
    endsHeadAt (front ++ rest) (front.length + i) = endsHeadAt rest i := by
  have hat : ∀ place, (front ++ rest)[front.length + place]? = rest[place]? := fun place => by
    rw [List.getElem?_append_right (Nat.le_add_right _ _), Nat.add_sub_cancel_left]
  rw [endsHeadAt, endsHeadAt, Nat.add_assoc, Nat.add_assoc, Nat.add_assoc, hat, hat, hat, hat]

theorem le_of_endsHeadAt (hline : 10 ∉ line) (hends : endsHeadAt (line ++ 13 :: rest) i = true) :
    line.length ≤ i := by
  by_contra hi
  have hfeed := (getElem?_of_endsHeadAt hends).1
  rcases Nat.lt_or_ge (i + 1) line.length with hwithin | hlast
  · rw [List.getElem?_append_left hwithin] at hfeed
    exact hline (List.mem_of_getElem? hfeed)
  · rw [List.getElem?_append_right hlast, show i + 1 - line.length = 0 by omega] at hfeed
    cases hfeed

theorem endsHeadAt_line (hline : 10 ∉ line)
    (hrest : rest.head? ≠ some 10 ∧ rest.head? ≠ some 13)
    (hends : endsHeadAt (line ++ 13 :: 10 :: rest) i = true) : line.length + 2 ≤ i := by
  have hat : ∀ place, (line ++ 13 :: 10 :: rest)[line.length + place]? =
      (13 :: 10 :: rest)[place]? := fun place => by
    rw [List.getElem?_append_right (Nat.le_add_right _ _), Nat.add_sub_cancel_left]
  rw [List.head?_eq_getElem?] at hrest
  have hle := le_of_endsHeadAt hline hends
  obtain ⟨hnext, hfirst⟩ := getElem?_of_endsHeadAt hends
  by_contra hlt
  obtain rfl | rfl : i = line.length ∨ i = line.length + 1 := by omega
  · rcases hfirst with ⟨-, hthird⟩ | hfeed
    · exact hrest.2 ((hat 2).symm.trans hthird)
    · exact absurd ((hat 0).symm.trans hfeed) (by simp)
  · exact hrest.1 ((hat 2).symm.trans hnext)

/-- A line that another one follows does not end the head. -/
theorem headTerminatorAt_line (hline : 10 ∉ line)
    (hrest : rest.head? ≠ some 10 ∧ rest.head? ≠ some 13)
    (hfound : headTerminatorAt rest = some i) :
    headTerminatorAt (line ++ 13 :: 10 :: rest) = some (line.length + 2 + i) := by
  have hshift : ∀ place, endsHeadAt (line ++ 13 :: 10 :: rest) (line.length + 2 + place) =
      endsHeadAt rest place := by
    intro place
    have hfront := @endsHeadAt_shift rest place (line ++ [13, 10])
    rwa [List.length_append, List.append_assoc] at hfront
  obtain ⟨hends, hfirst⟩ := headTerminatorAt_eq_some.mp hfound
  refine headTerminatorAt_eq_some.mpr ⟨(hshift i).trans hends, fun j hj => ?_⟩
  rw [Bool.eq_false_iff]
  intro hearlier
  have hle := endsHeadAt_line hline hrest hearlier
  obtain ⟨place, rfl⟩ := Nat.exists_eq_add_of_le hle
  rw [hshift, hfirst place (by omega)] at hearlier
  cases hearlier

theorem headTerminatorAt_last (hline : 10 ∉ line) (payload : Bytes) :
    headTerminatorAt (line ++ 13 :: 10 :: 13 :: 10 :: payload) = some line.length := by
  refine headTerminatorAt_eq_some.mpr ⟨?_, fun j hj => ?_⟩
  · have hshift := @endsHeadAt_shift (13 :: 10 :: 13 :: 10 :: payload) 0 line
    rw [Nat.add_zero] at hshift
    rw [hshift]
    rfl
  · rw [Bool.eq_false_iff]
    intro hearlier
    exact absurd (le_of_endsHeadAt hline hearlier) (by omega)

end

/-- Bytes that can be read as an answer in one way only: the first end of a head in them is the
one that was written, the lines before it are the four of the answer, and what follows it is
the payload. -/
def Framed (written : Bytes) (response : Response) (payload : Bytes) : Prop :=
  ∃ index, headTerminatorAt written = some index ∧
    (written.take index).splitOn 10 =
      [encodeUtf8 response.statusLine ++ [13], encodeUtf8 response.typeLine ++ [13],
        ascii "Content-Length: " ++ Bytes.decimal response.body.length ++ [13],
        ascii "Connection: close"] ∧
    written.drop (bodyStart written index) = payload

theorem ascii_append {literal : String} (rest : Text)
    (hlast : (ofAscii literal).getLast? = some 32) :
    encodeUtf8 (ofAscii literal ++ rest) = ascii literal ++ encodeUtf8 rest := by
  refine encodeUtf8_append (Or.inl fun unit hunit => ?_)
  rw [hlast, Option.mem_some_iff] at hunit
  rw [← hunit]
  decide

theorem encodeUtf8_line (line rest : Text) :
    encodeUtf8 (line ++ (ofAscii "\r\n" ++ rest)) =
      encodeUtf8 line ++ 13 :: 10 :: encodeUtf8 rest := by
  have hopens : Opens (ofAscii "\r\n" ++ rest) := fun unit hunit => by
    cases hunit
    decide
  rw [encodeUtf8_append (Or.inr hopens)]
  change _ ++ encodeUtf8 (13 :: 10 :: rest) = _
  rw [encodeUtf8_unit (by decide), encodeUtf8_unit (by decide)]
  rfl

theorem unbroken_encodeUtf8 {text : Text} (htext : 10 ∉ text) : 10 ∉ encodeUtf8 text := by
  intro hmem
  obtain ⟨unit, hunit, hvalue⟩ := mem_encodeUtf8 (by decide) hmem
  have hfeed : unit = 10 := UInt16.toNat_inj.mp hvalue
  exact htext (hfeed ▸ hunit)

theorem Response.render_eq (response : Response) (omitBody : Bool) :
    response.render omitBody =
      encodeUtf8 response.statusLine ++ 13 :: 10 :: (encodeUtf8 response.typeLine ++ 13 :: 10 ::
        (encodeUtf8 response.lengthLine ++ 13 :: 10 :: (ascii "Connection: close" ++
          13 :: 10 :: 13 :: 10 :: if omitBody then [] else response.body))) := by
  have hlast : encodeUtf8 (ofAscii "Connection: close\r\n\r\n") =
      ascii "Connection: close" ++ [13, 10, 13, 10] := by decide
  rw [Response.render]
  simp only [List.append_assoc]
  rw [encodeUtf8_line, encodeUtf8_line, encodeUtf8_line, hlast]
  simp only [List.append_assoc, List.cons_append, List.nil_append]

theorem headTerminatorAt_letter {line rest : Bytes} {i : Nat} (hline : 10 ∉ line)
    (hrest : rest.head? = some 67) (hfound : headTerminatorAt rest = some i) :
    headTerminatorAt (line ++ 13 :: 10 :: rest) = some (line.length + 2 + i) :=
  headTerminatorAt_line hline (by rw [hrest]; decide) hfound

theorem framed_lines {first second third fourth payload written : Bytes}
    (hwritten : written = first ++ 13 :: 10 :: (second ++ 13 :: 10 :: (third ++ 13 :: 10 ::
      (fourth ++ 13 :: 10 :: 13 :: 10 :: payload))))
    (hfirst : 10 ∉ first) (hsecond : 10 ∉ second) (hthird : 10 ∉ third) (hfourth : 10 ∉ fourth)
    (hheads : second.head? = some 67 ∧ third.head? = some 67 ∧ fourth.head? = some 67) :
    ∃ index, headTerminatorAt written = some index ∧
      (written.take index).splitOn 10 =
        [first ++ [13], second ++ [13], third ++ [13], fourth] ∧
      written.drop (bodyStart written index) = payload := by
  have hhead : ∀ {line rest : Bytes}, line.head? = some 67 → (line ++ rest).head? = some 67 := by
    intro line rest hline
    rw [List.head?_append, hline, Option.some_or]
  have hfound := headTerminatorAt_letter hfirst (hhead hheads.1)
    (headTerminatorAt_letter hsecond (hhead hheads.2.1)
      (headTerminatorAt_letter hthird (hhead hheads.2.2)
        (headTerminatorAt_last hfourth payload)))
  rw [← hwritten] at hfound
  have hcut : written = [10].intercalate [first ++ [13], second ++ [13], third ++ [13], fourth] ++
      13 :: 10 :: 13 :: 10 :: payload := by
    rw [hwritten]
    simp [List.intercalate]
  have hlength : ([10].intercalate [first ++ [13], second ++ [13], third ++ [13], fourth]).length =
      first.length + 2 + (second.length + 2 + (third.length + 2 + fourth.length)) := by
    simp [List.intercalate]
    omega
  have hend : written[first.length + 2 + (second.length + 2 + (third.length + 2 +
      fourth.length))]? = some 13 := by
    rw [hcut, ← hlength, List.getElem?_append_right (Nat.le_refl _), Nat.sub_self]
    rfl
  refine ⟨_, hfound, ?_, ?_⟩
  · rw [hcut, ← hlength, List.take_left]
    refine List.splitOn_intercalate 10 ?_ (List.cons_ne_nil _ _)
    have hreturn : ∀ {line : Bytes}, 10 ∉ line → 10 ∉ line ++ [13] := by
      intro line hline hmem
      rcases List.mem_append.mp hmem with hmem | hmem
      · exact hline hmem
      · cases List.mem_singleton.mp hmem
    simp only [List.mem_cons, List.not_mem_nil, or_false]
    rintro line (rfl | rfl | rfl | rfl)
    · exact hreturn hfirst
    · exact hreturn hsecond
    · exact hreturn hthird
    · exact hfourth
  · rw [bodyStart, if_pos hend, hcut, ← hlength, ← List.drop_drop, List.drop_left]
    rfl

theorem unbroken_decimal (value : Nat) : 10 ∉ decimal value :=
  fun hmem => absurd (mem_decimal hmem).1 (by decide)

theorem unbroken_statusText (response : Response) : 10 ∉ response.statusText := by
  rw [Response.statusText]
  repeat' split
  all_goals first
    | decide
    | rw [List.mem_append]
      exact not_or.mpr ⟨by decide, unbroken_decimal _⟩

theorem unbroken_statusLine (response : Response) : 10 ∉ response.statusLine := by
  simp only [Response.statusLine, List.mem_append, not_or]
  exact ⟨⟨⟨by decide, unbroken_decimal _⟩, by decide⟩, unbroken_statusText response⟩

theorem Response.render_framed {response : Response} (htype : 10 ∉ response.contentType)
    (omitBody : Bool) :
    Framed (response.render omitBody) response (if omitBody then [] else response.body) := by
  have hsecond : encodeUtf8 response.typeLine =
      ascii "Content-Type: " ++ encodeUtf8 response.contentType :=
    ascii_append _ (by decide)
  have hthird : encodeUtf8 response.lengthLine =
      ascii "Content-Length: " ++ Bytes.decimal response.body.length := by
    rw [Response.lengthLine, ascii_append _ (by decide), encodeUtf8_decimal]
  have htypeLine : 10 ∉ response.typeLine := by
    rw [Response.typeLine, List.mem_append]
    exact not_or.mpr ⟨by decide, htype⟩
  have hlengthLine : 10 ∉ response.lengthLine := by
    rw [Response.lengthLine, List.mem_append]
    exact not_or.mpr ⟨by decide, unbroken_decimal _⟩
  obtain ⟨index, hfound, hlines, hpayload⟩ := framed_lines (response.render_eq omitBody)
    (unbroken_encodeUtf8 (unbroken_statusLine response)) (unbroken_encodeUtf8 htypeLine)
    (unbroken_encodeUtf8 hlengthLine) (by decide)
    ⟨by rw [hsecond]; rfl, by rw [hthird]; rfl, by decide⟩
  rw [hthird] at hlines
  exact ⟨index, hfound, hlines, hpayload⟩

theorem unbroken_contentType {request : ParsedRequest}
    (hheaders : ∀ header ∈ request.headers, 10 ∉ header.2) : 10 ∉ request.contentType := by
  rw [ParsedRequest.contentType, ParsedRequest.header]
  cases hfind : request.headers.find? _ with
  | none =>
      rw [Option.map_none, Option.getD_none]
      decide
  | some header => exact hheaders header (List.mem_of_find?_eq_some hfind)

theorem unbroken_textPlain : 10 ∉ ofAscii "text/plain" := by decide

theorem unbroken_route {request : ParsedRequest}
    (hheaders : ∀ header ∈ request.headers, 10 ∉ header.2) : 10 ∉ request.route.contentType := by
  rw [ParsedRequest.route]
  repeat' split
  all_goals first
    | exact unbroken_contentType hheaders
    | exact unbroken_textPlain

theorem unbroken_labRoute {request : ParsedRequest} {response : Response}
    (hanswer : request.labRoute = .answered response) : 10 ∉ response.contentType := by
  unfold ParsedRequest.labRoute labRceResponse at hanswer
  repeat' split at hanswer
  all_goals cases hanswer
  all_goals exact unbroken_textPlain

theorem unbroken_rejectResponse (reject : RequestReject) :
    10 ∉ reject.rejectResponse.contentType := by
  cases reject <;> exact unbroken_textPlain

theorem unbroken_respond {config : HttpdConfig} {result : ReadResult} {response : Response}
    {omitBody : Bool}
    (hheaders : ∀ request, result = .parsed request → ∀ header ∈ request.headers, 10 ∉ header.2)
    (hrespond : respond config result = .wrote response omitBody) :
    10 ∉ response.contentType := by
  unfold respond at hrespond
  split at hrespond
  · rename_i request
    have hroute := unbroken_route (hheaders request rfl)
    dsimp only at hrespond
    split at hrespond
    · split at hrespond
      · obtain ⟨rfl, -⟩ := Served.wrote.inj hrespond
        exact hroute
      · rename_i answer hlab
        obtain ⟨rfl, -⟩ := Served.wrote.inj hrespond
        exact unbroken_labRoute hlab
      · cases hrespond
    · obtain ⟨rfl, -⟩ := Served.wrote.inj hrespond
      exact hroute
  · obtain ⟨rfl, -⟩ := Served.wrote.inj hrespond
    exact unbroken_rejectResponse _
  · cases hrespond

/-- A body is left out of the answer to HEAD only. -/
theorem respond_omits {config : HttpdConfig} {result : ReadResult} {response : Response}
    (hrespond : respond config result = .wrote response true) :
    ∃ request, result = .parsed request ∧ request.verb = ofAscii "HEAD" := by
  cases result with
  | parsed request =>
      refine ⟨request, rfl, ?_⟩
      simp only [respond] at hrespond
      split at hrespond
      · split at hrespond
        · exact of_decide_eq_true (Served.wrote.inj hrespond).2
        · exact of_decide_eq_true (Served.wrote.inj hrespond).2
        · cases hrespond
      · exact of_decide_eq_true (Served.wrote.inj hrespond).2
  | rejected reject => cases hrespond
  | closed => cases hrespond

theorem unbroken_served {config : HttpdConfig} (hconfig : config.Bounded) {conn : RawConn}
    {response : Response} {omitBody : Bool}
    (hserved : serveConn config conn = .wrote response omitBody) :
    10 ∉ response.contentType := by
  rw [serveConn] at hserved
  split at hserved
  · cases hserved
  · rename_i result hresult
    refine unbroken_respond ?_ hserved
    rintro request rfl
    obtain ⟨index, fields, -, hfields, hsent⟩ := readRequest_parsed hconfig.head_pos hresult
    rw [HeadFields.request, Option.ite_none_right_eq_some] at hsent
    rw [← Option.some.inj hsent.2]
    exact unbroken_of_parseHead hfields

theorem framed_of_served {config : HttpdConfig} (hconfig : config.Bounded) {conn : RawConn}
    {response : Response} {omitBody : Bool}
    (hserved : serveConn config conn = .wrote response omitBody) :
    Framed (serveConn config conn).written response
      (if omitBody then [] else response.body) := by
  rw [hserved]
  exact Response.render_framed (unbroken_served hconfig hserved) omitBody

/-- Whatever the server writes can be read in one way only, and nothing that a request carries
changes that. -/
theorem serveConn_framed {config : HttpdConfig} (hconfig : config.Bounded) (conn : RawConn)
    (hwritten : (serveConn config conn).written ≠ []) :
    ∃ response payload, Framed (serveConn config conn).written response payload ∧
      (payload = response.body ∨ payload = [] ∧
        ∃ request, readRequest config.maxHead config.maxBody conn = .ok (.parsed request) ∧
          request.verb = ofAscii "HEAD") := by
  cases hserved : serveConn config conn with
  | silent => rw [hserved] at hwritten; exact absurd rfl hwritten
  | aborted => rw [hserved] at hwritten; exact absurd rfl hwritten
  | wrote response omitBody =>
      have hframed := framed_of_served hconfig hserved
      rw [hserved] at hframed
      refine ⟨response, _, hframed, ?_⟩
      cases omitBody with
      | false => exact Or.inl rfl
      | true =>
          refine Or.inr ⟨rfl, ?_⟩
          rw [serveConn] at hserved
          split at hserved
          · cases hserved
          · rename_i result hresult
            obtain ⟨request, rfl, hverb⟩ := respond_omits hserved
            exact ⟨request, hresult, hverb⟩

def echoResponse : Response := ⟨200, ofAscii "application/octet-stream", ascii "hi"⟩

theorem serveConn_echoPieces :
    serveConn defaultConfig echoPieces = .wrote echoResponse false := by
  rw [serveConn, (readRequest_comes defaultConfig_bounded.head_pos echoPieces).flowing
    echoPieces_flows]
  rfl

theorem serveConn_framed_echoPieces :
    ∃ response payload, Framed (serveConn defaultConfig echoPieces).written response payload ∧
      (payload = response.body ∨ payload = [] ∧
        ∃ request, readRequest defaultConfig.maxHead defaultConfig.maxBody echoPieces =
          .ok (.parsed request) ∧ request.verb = ofAscii "HEAD") :=
  serveConn_framed defaultConfig_bounded echoPieces (by rw [serveConn_echoPieces]; decide)

end Httpd

end MoonBoofuzz
