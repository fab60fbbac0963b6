import MoonBoofuzz.Definition.Nodes
import MoonBoofuzz.Http.Message

namespace MoonBoofuzz

/-! The definition of a message in which selected segments are mutated. -/

inductive FieldPrimitive where
  | text
  | integer
  | bytes
  | randomData
  | candidates
  deriving Repr, DecidableEq

structure FieldSelection where
  id : Text
  primitive : FieldPrimitive
  width : Int32
  endian : Text
  maxLen : Int32
  maxMutations : Int32
  /-- Explicit replacement values; none means automatic mutations. -/
  candidates : List Text
  deriving Repr, DecidableEq

structure ConvertOptions where
  requestName : Text
  host : Text
  port : Int32
  policyKind : Text
  fixedLength : Int32
  caseLimit : Int32
  deriving Repr, DecidableEq

structure ConvertResult where
  definition : Json
  definitionText : Text
  caseCount : Int
  previews : List Bytes

namespace Text

/-- `to_lower`, of ASCII letters. -/
def toLower (text : Text) : Text :=
  text.map fun unit => if 65 ≤ unit ∧ unit ≤ 90 then unit + 32 else unit

def indexed (name : String) (i : Nat) : Text := Text.ofAscii name ++ Text.decimal i

end Text

namespace Json

def record (fields : List (String × Json)) : Json :=
  .object (fields.map fun field => (Text.ofAscii field.1, field.2))

def ascii (literal : String) : Json := .string (Text.ofAscii literal)

def hex (content : Text) : Json := .string content.encodeUtf8.hexEncode

end Json

namespace HttpMessage

def builtinMethods : List Text :=
  ["GET", "POST", "PUT", "DELETE", "PATCH", "HEAD", "OPTIONS", "TRACE", "CONNECT",
    "PROPFIND"].map Text.ofAscii

def staticNode (name content : Text) : Json :=
  .record [("type", .ascii "static"), ("name", .string name), ("value_hex", .hex content)]

def frozenNode (name value : Text) : Json :=
  .record [("type", .ascii "text"), ("name", .string name), ("value", .string value),
    ("fuzzable", .bool false)]

def autoTextNode (name value : Text) : Json :=
  .record [("type", .ascii "text"), ("name", .string name), ("value", .string value),
    ("fuzzable", .bool true)]

def candidatesNode (name value : Text) (candidates : List Text) : Json :=
  .record [("type", .ascii "simple"), ("name", .string name), ("value_hex", .hex value),
    ("values_hex", .array (candidates.map Json.hex)), ("fuzzable", .bool true)]

/-- The text itself when it is a decimal number of at most twenty digits. -/
def decimalOrZero (text : Text) : Text :=
  if text = [] ∨ 20 < text.length then Text.ofAscii "0"
  else if text.all fun unit => decide (48 ≤ unit ∧ unit ≤ 57) then text
  else Text.ofAscii "0"

def integerNode (name value : Text) (selection : FieldSelection) :
    Except HttpGenError Json :=
  if selection.width = 8 ∨ selection.width = 16 ∨ selection.width = 32 ∨
      selection.width = 64 then
    if selection.endian = Text.ofAscii "little" ∨ selection.endian = Text.ofAscii "big" then
      .ok (.record [("type", .ascii "integer"), ("name", .string name),
        ("value", .string (decimalOrZero value)), ("width", .ofInt selection.width),
        ("endian", .string selection.endian), ("fuzzable", .bool true)])
    else invalid "integer endian must be little or big"
  else invalid "integer width must be 8, 16, 32 or 64 bits"

def bytesNode (name value : Text) (selection : FieldSelection) : Except HttpGenError Json :=
  if 1 ≤ selection.maxLen.toInt then
    .ok (.record [("type", .ascii "bytes"), ("name", .string name), ("value_hex", .hex value),
      ("max_len", .ofInt selection.maxLen), ("fuzzable", .bool true)])
  else invalid "bytes max_len must be at least 1"

def randomNode (name value : Text) (selection : FieldSelection) : Except HttpGenError Json :=
  if 1 ≤ selection.maxLen.toInt then
    if 1 ≤ selection.maxMutations.toInt then
      .ok (.record [("type", .ascii "random"), ("name", .string name),
        ("value_hex", .hex value), ("min_length", .ofInt 0),
        ("max_length", .ofInt selection.maxLen),
        ("max_mutations", .ofInt selection.maxMutations), ("fuzzable", .bool true)])
    else invalid "random max_mutations must be at least 1"
  else invalid "random max_length must be at least 1"

/-- A method without explicit candidates falls back to the built-in methods, another
segment to automatic mutations. -/
def candidatesOrAuto (name value : Text) (candidates : List Text) : Json :=
  if candidates ≠ [] then candidatesNode name value candidates
  else if name = Text.ofAscii "method" then
    candidatesNode name value (builtinMethods.filter fun candidate => candidate ≠ value)
  else autoTextNode name value

def fieldNode (name value : Text) : Option FieldSelection → Except HttpGenError Json
  | none => .ok (frozenNode name value)
  | some selection =>
      match selection.primitive with
      | .text => .ok (autoTextNode name value)
      | .integer => integerNode name value selection
      | .bytes => bytesNode name value selection
      | .randomData => randomNode name value selection
      | .candidates => .ok (candidatesOrAuto name value selection.candidates)

/-- The decimal length of the body, without mutations of its own. -/
def lengthNode (requestName name : Text) : Json :=
  .record [("type", .ascii "size"), ("name", .string name),
    ("target", .string (requestName ++ Text.ofAscii ".body")), ("length", .ofInt 4),
    ("ascii", .bool true), ("fuzzable", .bool false)]

def bodyBlock (field : Json) : Json :=
  .record [("type", .ascii "block"), ("name", .ascii "body"), ("children", .array [field])]

/-- What follows the first line ending of the terminator. -/
def terminatorRemainder (terminator : Text) : Text :=
  if terminator.hasPrefix (Text.ofAscii "\r\n") then terminator.drop 2 else terminator.drop 1

def validId (message : HttpMessage) (id : Text) : Bool :=
  if id = Text.ofAscii "method" ∨ id = Text.ofAscii "uri" ∨ id = Text.ofAscii "version" then true
  else if id = Text.ofAscii "body" then message.hasBody
  else (List.range message.headers.length).any fun i => id = Text.indexed "hdr_" i

abbrev Chosen := List (Text × FieldSelection)

def choose (message : HttpMessage) (chosen : Chosen) (selection : FieldSelection) :
    Except HttpGenError Chosen :=
  if message.validId selection.id then
    if (chosen.lookup selection.id).isSome then
      .error (.invalid (Text.ofAscii "duplicate selection: " ++ selection.id))
    else
      .ok (chosen ++ [(selection.id, { selection with
        candidates := selection.candidates.filter fun candidate => candidate ≠ [] })])
  else .error (.invalid (Text.ofAscii "unknown segment: " ++ selection.id))

def isContentLength (header : HttpHeader) : Bool :=
  header.name.toLower = Text.ofAscii "content-length"

/-- The header whose value follows the body: the only content length, when it is not
selected and there is a body. -/
def autoLength (message : HttpMessage) (chosen : Chosen) : Option Nat :=
  match message.headers.zipIdx.filter fun item => isContentLength item.1 with
  | [(_, i)] =>
      if message.terminator.isSome ∧ (chosen.lookup (Text.indexed "hdr_" i)).isNone then some i
      else none
  | _ => none

def eolNodes (message : HttpMessage) (i : Nat) (present : Bool) : List Json :=
  if present then [staticNode (Text.indexed "crlf" i) message.eol] else []

def headerValue (chosen : Chosen) (auto : Option Nat) (requestName : Text)
    (item : HttpHeader × Nat) : Except HttpGenError Json :=
  let id := Text.indexed "hdr_" item.2
  if auto = some item.2 then .ok (lengthNode requestName id)
  else fieldNode id item.1.value (chosen.lookup id)

def headerNodes (message : HttpMessage) (chosen : Chosen) (auto : Option Nat)
    (requestName : Text) : List (HttpHeader × Nat) → Except HttpGenError (List Json)
  | [] => .ok []
  | (header, i) :: rest => do
      let value ← headerValue chosen auto requestName (header, i)
      let others ← headerNodes message chosen auto requestName rest
      .ok (staticNode (Text.indexed "name_" i)
            (header.name ++ Text.ofAscii ":" ++ header.gap) ::
          value ::
          eolNodes message (i + 1)
            (message.terminator.isSome || i + 1 < message.headers.length || message.finalEol) ++
          others)

def bodyNodes (message : HttpMessage) (chosen : Chosen) (auto : Option Nat) :
    Except HttpGenError (List Json) :=
  match message.terminator with
  | none => .ok []
  | some terminator => do
      let body := Text.ofAscii "body"
      let field ← fieldNode body message.body (chosen.lookup body)
      .ok [staticNode (Text.ofAscii "head_end") (terminatorRemainder terminator),
        if auto.isSome then bodyBlock field else field]

def children (message : HttpMessage) (chosen : Chosen) (requestName : Text) :
    Except HttpGenError (List Json) := do
  let auto := message.autoLength chosen
  let token (name : String) (value : Text) :=
    fieldNode (Text.ofAscii name) value (chosen.lookup (Text.ofAscii name))
  let method ← token "method" message.verb
  let uri ← token "uri" message.uri
  let version ← token "version" message.version
  let headers ← headerNodes message chosen auto requestName message.headers.zipIdx
  let body ← bodyNodes message chosen auto
  let space (name : String) := staticNode (Text.ofAscii name) (Text.ofAscii " ")
  .ok ([method, space "sp1", uri, space "sp2", version] ++
    eolNodes message 0
      (message.headers ≠ [] || message.terminator.isSome || message.finalEol) ++
    headers ++ body)

def readPolicy (options : ConvertOptions) : Except HttpGenError Json :=
  if options.policyKind = Text.ofAscii "until" then
    .ok (.record [("kind", .ascii "until"), ("delimiter_hex", .ascii "0d0a0d0a")])
  else if options.policyKind = Text.ofAscii "none" then .ok (.record [("kind", .ascii "none")])
  else if options.policyKind = Text.ofAscii "fixed" then
    if 0 ≤ options.fixedLength.toInt then
      .ok (.record [("kind", .ascii "fixed"), ("length", .ofInt options.fixedLength)])
    else invalid "negative fixed read length"
  else .error (.invalid (Text.ofAscii "unsupported read policy: " ++ options.policyKind))

def requestNameOf (options : ConvertOptions) : Text :=
  if options.requestName = [] then Text.ofAscii "request" else options.requestName

/-- The execution settings; a limit of zero is left out. -/
def execution (options : ConvertOptions) (policy : Json) : Json :=
  let host := if options.host = [] then Text.ofAscii "127.0.0.1" else options.host
  .record
    ([("transport", .ascii "tcp"),
      ("endpoint", .record [("host", .string host), ("port", .ofInt options.port),
        ("receive_timeout_ms", .ofInt 500)]),
      ("policies", .object [(requestNameOf options, policy)]),
      ("combinatorial", .bool false)] ++
    (if 0 < options.caseLimit.toInt then [("case_limit", .ofInt options.caseLimit)] else []))

def document (requestName : Text) (children : List Json) (execution : Json) : Json :=
  .record [("schema_version", .ofInt 1),
    ("requests", .array [.record [("name", .string requestName), ("children", .array children)]]),
    ("execution", execution)]

def emit (message : HttpMessage) (selections : List FieldSelection) (options : ConvertOptions) :
    Except HttpGenError Json := do
  let chosen ← selections.foldlM message.choose []
  let nodes ← message.children chosen (requestNameOf options)
  if 1 ≤ options.port.toInt ∧ options.port.toInt ≤ 65535 then
    if 0 ≤ options.caseLimit.toInt then do
      let policy ← readPolicy options
      .ok (document (requestNameOf options) nodes (execution options policy))
    else invalid "negative case limit"
  else invalid "port must be between 1 and 65535"

/-- What the conversion uses: what a definition is read with, and the texts of errors. -/
structure Converter extends DefinitionContext where
  debug : ParseError → Text

def collectPreview (previews : List Bytes) (case : GeneratedCase) :
    Except GenerateError Bool × List Bytes :=
  (.ok (decide ((previews ++ [case.case.payload]).length < 3)),
    previews ++ [case.case.payload])

def reparse (converter : Converter) (text : Text) (fuel : Nat) :
    Eval HttpGenError (ProtocolDefinition Unit) :=
  (ProtocolDefinition.parse converter.toDefinitionContext text fuel).mapError fun error =>
    .invalid (Text.ofAscii "generated definition failed validation: " ++ converter.debug error)

def totalCount {κ : Type} (definition : ProtocolDefinition κ) : Int :=
  definition.requests.foldl
    (fun total request => wrap64 (total + request.rawMutationCount)) 0

/-- `to_definition`. -/
def toDefinition (converter : Converter) (message : HttpMessage)
    (selections : List FieldSelection) (options : ConvertOptions) (fuel : Nat) :
    Eval HttpGenError ConvertResult := do
  let definition ← Eval.ofExcept (message.emit selections options)
  let text := converter.json.stringify definition
  let parsed ← reparse converter text fuel
  Eval.check (totalCount parsed ≤ 2147483647)
    (.invalid (Text.ofAscii "generated definition exceeds the 32-bit case range"))
  let (answer, previews) := parsed.generate collectPreview 0 3 .sequential fuel []
  let _ ← answer.mapError fun _ =>
    HttpGenError.invalid (Text.ofAscii "generated definition failed to enumerate cases")
  .done {
    definition := definition
    definitionText := text
    caseCount := wrap32 (totalCount parsed)
    previews := previews }

end HttpMessage

end MoonBoofuzz
