import MoonBoofuzz.Httpd.Reading

namespace MoonBoofuzz

open Text Web

namespace Httpd

structure Response where
  status : Nat
  contentType : Text
  body : Bytes
deriving DecidableEq, Repr

def plain (status : Nat) (message : String) : Response :=
  ⟨status, ofAscii "text/plain", ascii message⟩

namespace Response

def statusText (response : Response) : Text :=
  if response.status = 200 then ofAscii "OK"
  else if response.status = 400 then ofAscii "Bad Request"
  else if response.status = 404 then ofAscii "Not Found"
  else if response.status = 405 then ofAscii "Method Not Allowed"
  else if response.status = 413 then ofAscii "Payload Too Large"
  else if response.status = 431 then ofAscii "Request Header Fields Too Large"
  else if response.status = 500 then ofAscii "Internal Server Error"
  else if response.status = 501 then ofAscii "Not Implemented"
  else ofAscii "Status " ++ decimal response.status

def statusLine (response : Response) : Text :=
  ofAscii "HTTP/1.1 " ++ decimal response.status ++ ofAscii " " ++ response.statusText

def typeLine (response : Response) : Text := ofAscii "Content-Type: " ++ response.contentType

def lengthLine (response : Response) : Text :=
  ofAscii "Content-Length: " ++ decimal response.body.length

def render (response : Response) (omitBody : Bool) : Bytes :=
  encodeUtf8
      (response.statusLine ++ ofAscii "\r\n" ++ response.typeLine ++ ofAscii "\r\n" ++
        response.lengthLine ++ ofAscii "\r\n" ++ ofAscii "Connection: close\r\n\r\n") ++
    if omitBody then [] else response.body

end Response

def RequestReject.rejectResponse : RequestReject → Response
  | .badRequest reason =>
      ⟨400, ofAscii "text/plain", encodeUtf8 (ofAscii "bad request: " ++ reason ++ ofAscii "\n")⟩
  | .bodyTooLarge => plain 413 "declared body above the cap\n"
  | .headTooLarge => plain 431 "head terminator not seen within the cap\n"
  | .unsupportedTransferEncoding => plain 501 "transfer-encoding is not supported\n"

def renderHeaders (headers : List (Text × Text)) : Bytes :=
  encodeUtf8 (ofAscii "parsed headers: " ++ decimal headers.length ++ ofAscii "\n" ++
    headers.flatMap fun header => header.1 ++ ofAscii ": " ++ header.2 ++ ofAscii "\n")

namespace ParsedRequest

def hasTransferEncoding (request : ParsedRequest) : Bool :=
  request.headers.any fun header => decide (header.1 = ofAscii "transfer-encoding")

def header (request : ParsedRequest) (name : Text) : Option Text :=
  (request.headers.find? fun header => decide (header.1 = toLower name)).map Prod.snd

def contentType (request : ParsedRequest) : Text :=
  (request.header (ofAscii "content-type")).getD (ofAscii "application/octet-stream")

def verbIn (request : ParsedRequest) (verbs : List String) : Prop :=
  request.verb ∈ verbs.map ofAscii

instance (request : ParsedRequest) (verbs : List String) : Decidable (request.verbIn verbs) :=
  inferInstanceAs (Decidable (request.verb ∈ verbs.map ofAscii))

def route (request : ParsedRequest) : Response :=
  if request.hasTransferEncoding then plain 501 "transfer-encoding is not supported\n"
  else if request.verbIn ["GET", "HEAD"] ∧ request.target = ofAscii "/" then
    plain 200 "moon-httpd: ok\n"
  else if request.verbIn ["GET", "POST", "PUT"] ∧ request.target = ofAscii "/echo" then
    ⟨200, request.contentType, request.body⟩
  else if request.target = ofAscii "/echo" then
    plain 405 "verb not allowed; use GET, POST or PUT\n"
  else if request.verbIn ["GET", "HEAD"] ∧ request.target = ofAscii "/headers" then
    ⟨200, ofAscii "text/plain", renderHeaders request.headers⟩
  else if request.target = ofAscii "/" ∨ request.target = ofAscii "/headers" then
    plain 405 "verb not allowed; use GET or HEAD\n"
  else plain 404 "not found\n"

end ParsedRequest

def labCommandMarker (input : Text) : Bool :=
  [";", "|", "$(", "%3b", "%7c"].any fun marker =>
    Text.contains (toLower input) (ofAscii marker)

def labRceResponse (hit : Bool) : Response :=
  if hit then plain 200 "LAB_RCE_HIT\n" else plain 200 "LAB_RCE_MISS\n"

def labBofResponse : Response := plain 200 "LAB_BOF_SAFE\n"

inductive LabAnswer where
  /-- No route of the lab mode. -/
  | passed
  | answered (response : Response)
  /-- `lab_abort`, which ends the process. -/
  | aborted
deriving DecidableEq, Repr

def ParsedRequest.labRoute (request : ParsedRequest) : LabAnswer :=
  if request.verb ≠ ofAscii "GET" then .passed
  else if request.target = ofAscii "/lab/health" then .answered (plain 200 "LAB_READY\n")
  else if request.target = ofAscii "/lab/rce/header" then
    .answered (labRceResponse
      (labCommandMarker ((request.header (ofAscii "x-lab-command")).getD [])))
  else if request.target = ofAscii "/lab/bof/header" then
    if 64 < ((request.header (ofAscii "x-lab-data")).getD []).length then .aborted
    else .answered labBofResponse
  else if Text.hasPrefix request.target (ofAscii "/lab/rce/path/") then
    .answered (labRceResponse (labCommandMarker
      (request.target.drop (ofAscii "/lab/rce/path/").length)))
  else if Text.hasPrefix request.target (ofAscii "/lab/bof/path/") then
    if 128 < (request.target.drop (ofAscii "/lab/bof/path/").length).length then .aborted
    else .answered labBofResponse
  else .passed

inductive Served where
  | silent
  | wrote (response : Response) (omitBody : Bool)
  | aborted
deriving DecidableEq, Repr

def Served.written : Served → Bytes
  | .wrote response omitBody => response.render omitBody
  | _ => []

def respond (config : HttpdConfig) : ReadResult → Served
  | .parsed request =>
      let omitBody := decide (request.verb = ofAscii "HEAD")
      if config.labMode then
        match request.labRoute with
        | .passed => .wrote request.route omitBody
        | .answered response => .wrote response omitBody
        | .aborted => .aborted
      else .wrote request.route omitBody
  | .rejected reject => .wrote reject.rejectResponse false
  | .closed => .silent

/-- `serve_conn`, up to the closing of the connection. -/
def serveConn (config : HttpdConfig) (conn : RawConn) : Served :=
  match readRequest config.maxHead config.maxBody conn with
  | .error _ => .silent
  | .ok result => respond config result

end Httpd

end MoonBoofuzz
