import MoonBoofuzz.Data.Eval
import MoonBoofuzz.Data.JsonText
import MoonBoofuzz.Records.Fields
import MoonBoofuzz.Records.Hex

namespace MoonBoofuzz

/-! Records as JSON texts. -/

/-- The JSON and UTF-8 functions of the standard library, with the texts of their
errors. -/
structure JsonLibrary extends IntReader where
  stringify : Json → Text
  parse : Text → Except Text Json
  encode : Text → Bytes
  decode : Bytes → Except Text Text
  /-- What a derived `FromJson` says of a value of another shape. -/
  mismatch : Json → Text
  debug : RecordError → Text

/-- The library brings a value back, through its text and through the bytes of a line. -/
structure JsonLibrary.Keeps (library : JsonLibrary) (json : Json) : Prop where
  parse : library.parse (library.stringify json) = .ok json
  line : 10 ∉ library.stringify json
  decode : library.decode (library.encode (library.stringify json)) =
    .ok (library.stringify json)
  encode : library.encode (library.stringify json ++ [10]) =
    library.encode (library.stringify json) ++ [10]
  plain : 10 ∉ library.stringify json → 10 ∉ library.encode (library.stringify json)

namespace JsonLibrary

/-- The functions that the code uses, except for what their errors say. -/
def standard : JsonLibrary where
  toIntReader := .plain
  stringify := Json.render
  parse text := (Json.parse text).elim (.error []) .ok
  encode := Text.encodeUtf8
  decode bytes := (Text.decodeUtf8? bytes).elim (.error []) .ok
  mismatch _ := []
  debug _ := []

theorem standard_parse {json : Json} (hwell : json.WellFormed) :
    standard.parse (standard.stringify json) = .ok json := by
  change (Json.parse json.render).elim (Except.error []) Except.ok = _
  rw [Json.parse_render hwell, Option.elim_some]

theorem standard_keeps {json : Json} (hwell : json.WellFormed)
    (htexts : ∀ text ∈ json.texts, text.Paired) : standard.Keeps json where
  parse := standard_parse hwell
  line := hwell.line
  decode := by
    obtain ⟨chars, hchars⟩ := hwell.paired htexts
    change (Text.decodeUtf8? (Text.encodeUtf8 json.render)).elim (Except.error []) Except.ok =
      Except.ok json.render
    rw [hchars, Text.encodeUtf8_ofChars, Text.decodeUtf8?_utf8, Option.elim_some]
  encode := Text.encodeUtf8_append (Or.inr fun unit hunit => by
    rw [← Option.some.inj hunit]
    rfl)
  plain hline hmem := by
    obtain ⟨unit, hunit, hvalue⟩ := Text.mem_encodeUtf8 (by decide) hmem
    rw [UInt16.toNat_inj.mp (show unit.toNat = (10 : UInt16).toNat from hvalue)] at hunit
    exact hline hunit

theorem standard_keeps_ascii {json : Json} (hwell : json.WellFormed)
    (hascii : (json.texts.all fun text => text.all fun unit => unit.toNat < 128) = true) :
    standard.Keeps json :=
  standard_keeps hwell fun _ htext => Text.paired_of_ascii fun unit hunit =>
    of_decide_eq_true (List.all_eq_true.mp (List.all_eq_true.mp hascii _ htext) unit hunit)

end JsonLibrary

structure WireStep where
  requestName : Text
  sentHex : Text
  receivedHex : Text
  completed : Bool
  deriving Repr, DecidableEq

structure WireRecord where
  formatVersion : Int
  caseId : Text
  generatorVersion : Text
  requestName : Text
  fieldPath : Text
  mutationIndex : Int
  ordinal : Int
  path : List Text
  config : Json
  steps : List WireStep
  outcome : Text
  detail : Text
  failedStep : Option Int

namespace WireStep

def keys : List Text :=
  ["request_name", "sent_hex", "received_hex", "completed"].map Text.ofAscii

def toJson (step : WireStep) : Json :=
  .object
    [(Text.ofAscii "request_name", .string step.requestName),
     (Text.ofAscii "sent_hex", .string step.sentHex),
     (Text.ofAscii "received_hex", .string step.receivedHex),
     (Text.ofAscii "completed", .bool step.completed)]

def fromJson (json : Json) : Option WireStep := do
  let requestName ← (json.field (Text.ofAscii "request_name")).bind Json.toText
  let sentHex ← (json.field (Text.ofAscii "sent_hex")).bind Json.toText
  let receivedHex ← (json.field (Text.ofAscii "received_hex")).bind Json.toText
  let completed ← (json.field (Text.ofAscii "completed")).bind Json.toBool
  some ⟨requestName, sentHex, receivedHex, completed⟩

theorem fromJson_toJson (step : WireStep) : fromJson step.toJson = some step := rfl

theorem toJson_wellFormed (step : WireStep) : step.toJson.WellFormed := by
  refine .object (show keys.Nodup by decide +kernel) ?_
  simp only [List.forall_mem_cons]
  exact ⟨.string _, .string _, .string _, .bool _, fun _ hmem => nomatch hmem⟩

def recorded (step : WireStep) : Except RecordError RecordedStep := do
  let sent ← Bytes.hexDecode step.sentHex
  let received ← Bytes.hexDecode step.receivedHex
  .ok ⟨step.requestName, sent, received, step.completed⟩

end WireStep

namespace RecordedStep

def wire (step : RecordedStep) : WireStep :=
  ⟨step.requestName, step.sent.hexEncode, step.received.hexEncode, step.completed⟩

theorem recorded_wire (step : RecordedStep) : step.wire.recorded = .ok step := by
  rw [WireStep.recorded, wire, Bytes.hexDecode_hexEncode, Bytes.hexDecode_hexEncode]
  rfl

end RecordedStep

def traverse (read : α → Option β) : List α → Option (List β)
  | [] => some []
  | item :: rest => do
      let value ← read item
      let values ← traverse read rest
      some (value :: values)

theorem traverse_map {read : α → Option β} {write : β → α}
    (hread : ∀ value, read (write value) = some value) (values : List β) :
    traverse read (values.map write) = some values := by
  induction values with
  | nil => rfl
  | cons value rest ih =>
      rw [List.map_cons, traverse, hread, ih]
      rfl

namespace Json

/-- `from_json` at an array. -/
def toList (read : Json → Option α) : Json → Option (List α)
  | .array items => traverse read items
  | _ => none

end Json

namespace WireRecord

def keys : List Text :=
  ["format_version", "case_id", "generator_version", "request_name", "field_path",
    "mutation_index", "ordinal", "path", "config", "steps", "outcome", "detail",
    "failed_step"].map Text.ofAscii

/-- A missing failed step is left out. -/
def toJson (record : WireRecord) : Json :=
  .object
    ([(Text.ofAscii "format_version", .number (Text.integer record.formatVersion)),
      (Text.ofAscii "case_id", .string record.caseId),
      (Text.ofAscii "generator_version", .string record.generatorVersion),
      (Text.ofAscii "request_name", .string record.requestName),
      (Text.ofAscii "field_path", .string record.fieldPath),
      (Text.ofAscii "mutation_index", .number (Text.integer record.mutationIndex)),
      (Text.ofAscii "ordinal", .number (Text.integer record.ordinal)),
      (Text.ofAscii "path", .array (record.path.map .string)),
      (Text.ofAscii "config", record.config),
      (Text.ofAscii "steps", .array (record.steps.map WireStep.toJson)),
      (Text.ofAscii "outcome", .string record.outcome),
      (Text.ofAscii "detail", .string record.detail)] ++
    (record.failedStep.map fun index =>
      (Text.ofAscii "failed_step", Json.number (Text.integer index))).toList)

def toInt (reader : IntReader) (json : Json) : Option Int :=
  (json.toInt reader).map Int32.toInt

def failedStepOf (reader : IntReader) : Option Json → Option (Option Int)
  | none => some none
  | some .null => some none
  | some item => (toInt reader item).map some

def fromJson (reader : IntReader) (json : Json) : Option WireRecord := do
  let formatVersion ← (json.field (Text.ofAscii "format_version")).bind (toInt reader)
  let caseId ← (json.field (Text.ofAscii "case_id")).bind Json.toText
  let generatorVersion ← (json.field (Text.ofAscii "generator_version")).bind Json.toText
  let requestName ← (json.field (Text.ofAscii "request_name")).bind Json.toText
  let fieldPath ← (json.field (Text.ofAscii "field_path")).bind Json.toText
  let mutationIndex ← (json.field (Text.ofAscii "mutation_index")).bind (toInt reader)
  let ordinal ← (json.field (Text.ofAscii "ordinal")).bind (toInt reader)
  let path ← (json.field (Text.ofAscii "path")).bind (Json.toList Json.toText)
  let config ← json.field (Text.ofAscii "config")
  let steps ← (json.field (Text.ofAscii "steps")).bind (Json.toList WireStep.fromJson)
  let outcome ← (json.field (Text.ofAscii "outcome")).bind Json.toText
  let detail ← (json.field (Text.ofAscii "detail")).bind Json.toText
  let failedStep ← failedStepOf reader (json.field (Text.ofAscii "failed_step"))
  some ⟨formatVersion, caseId, generatorVersion, requestName, fieldPath, mutationIndex,
    ordinal, path, config, steps, outcome, detail, failedStep⟩

end WireRecord

namespace CaseRecord

def wire (record : CaseRecord) : WireRecord where
  formatVersion := record.formatVersion
  caseId := record.caseId
  generatorVersion := record.generatorVersion
  requestName := record.requestName
  fieldPath := record.fieldPath
  mutationIndex := record.mutationIndex
  ordinal := record.ordinal
  path := record.path
  config := record.config
  steps := record.steps.map RecordedStep.wire
  outcome := record.outcome
  detail := record.detail
  failedStep := record.failedStep

def encode (library : JsonLibrary) (record : CaseRecord) : Except RecordError Text := do
  record.validate
  .ok (library.stringify record.wire.toJson)

def recordedSteps : List WireStep → Except RecordError (List RecordedStep)
  | [] => .ok []
  | step :: rest => do
      let recorded ← step.recorded
      let steps ← recordedSteps rest
      .ok (recorded :: steps)

def acceptVersion : Option Int32 → Except RecordError Unit
  | some version =>
      if version = 1 then .ok () else .error (.unsupportedVersion version.toInt)
  | none => invalid "format_version must be an integer"

def checkVersion (library : JsonLibrary) (json : Json) : Except RecordError Unit :=
  match json.field (Text.ofAscii "format_version") with
  | some value => acceptVersion (value.toInt library.toIntReader)
  | none => .ok ()

def checkStepKeys : List Json → Except RecordError Unit
  | [] => .ok ()
  | step :: rest => do
      step.requireKeys WireStep.keys
      checkStepKeys rest

def checkSteps (json : Json) : Except RecordError Unit :=
  match json.field (Text.ofAscii "steps") with
  | some (.array steps) => checkStepKeys steps
  | _ => .ok ()

def ofWire (wire : WireRecord) : Except RecordError CaseRecord := do
  let steps ← recordedSteps wire.steps
  let record : CaseRecord := {
    formatVersion := wire.formatVersion
    caseId := wire.caseId
    generatorVersion := wire.generatorVersion
    requestName := wire.requestName
    fieldPath := wire.fieldPath
    mutationIndex := wire.mutationIndex
    ordinal := wire.ordinal
    path := wire.path
    config := wire.config
    steps := steps
    outcome := wire.outcome
    detail := wire.detail
    failedStep := wire.failedStep }
  record.validate
  .ok record

def decode (library : JsonLibrary) (text : Text) : Except RecordError CaseRecord :=
  match library.parse text with
  | .error error => .error (.invalid (Text.ofAscii "invalid JSON: " ++ error))
  | .ok json => do
      checkVersion library json
      json.requireKeys WireRecord.keys
      checkSteps json
      match WireRecord.fromJson library.toIntReader json with
      | some wire => ofWire wire
      | none =>
          .error (.invalid (Text.ofAscii "invalid record: " ++ library.mismatch json))

/-- The numbers of a record are `Int`s. -/
structure Fits (record : CaseRecord) : Prop where
  mutationIndex : record.mutationIndex < 2147483648
  ordinal : record.ordinal < 2147483648
  failedStep : ∀ index, record.failedStep = some index → index < 2147483648

theorem recordedSteps_wire (steps : List RecordedStep) :
    recordedSteps (steps.map RecordedStep.wire) = .ok steps := by
  induction steps with
  | nil => rfl
  | cons step rest ih =>
      rw [List.map_cons, recordedSteps, RecordedStep.recorded_wire, ih]
      rfl

theorem checkStepKeys_toJson (steps : List WireStep) :
    checkStepKeys (steps.map WireStep.toJson) = .ok () := by
  induction steps with
  | nil => rfl
  | cons step rest ih =>
      have hkeys : step.toJson.requireKeys WireStep.keys = .ok () :=
        Json.requireKeys_object fun key hkey => hkey
      rw [List.map_cons, checkStepKeys, hkeys]
      exact ih

theorem toInt_integer (reader : IntReader) {value : Int} (hlower : -2147483648 ≤ value)
    (hupper : value < 2147483648) :
    WireRecord.toInt reader (.number (Text.integer value)) = some value := by
  have hvalue : (Int32.ofInt value).toInt = value :=
    Int32.toInt_ofInt_of_le (by omega) (by omega)
  have hread : reader.read (Text.integer value) = some (Int32.ofInt value) := by
    rw [← reader.read_integer, hvalue]
  change (reader.read (Text.integer value)).map Int32.toInt = _
  rw [hread, Option.map_some, hvalue]

theorem fromJson_toJson (reader : IntReader) {record : CaseRecord} (hvalid : record.Valid)
    (hfits : record.Fits) :
    WireRecord.fromJson reader record.wire.toJson = some record.wire := by
  have hversion : WireRecord.toInt reader (.number (Text.integer record.formatVersion)) =
      some record.formatVersion :=
    toInt_integer reader (by rw [hvalid.version]; decide) (by rw [hvalid.version]; decide)
  have hindex : WireRecord.toInt reader (.number (Text.integer record.mutationIndex)) =
      some record.mutationIndex :=
    toInt_integer reader (by have := hvalid.mutationIndex; omega) hfits.mutationIndex
  have hordinal : WireRecord.toInt reader (.number (Text.integer record.ordinal)) =
      some record.ordinal :=
    toInt_integer reader (by have := hvalid.ordinal; omega) hfits.ordinal
  have hpath : Json.toList Json.toText (.array (record.path.map .string)) =
      some record.path := by
    have htext : ∀ text, Json.toText (.string text) = some text := fun _ => rfl
    exact traverse_map htext record.path
  have hsteps : Json.toList WireStep.fromJson
      (.array (record.wire.steps.map WireStep.toJson)) = some record.wire.steps :=
    traverse_map WireStep.fromJson_toJson record.wire.steps
  have hfailed : WireRecord.failedStepOf reader
      (record.wire.toJson.field (Text.ofAscii "failed_step")) = some record.failedStep := by
    cases hfailedStep : record.failedStep with
    | none =>
        have hfield : record.wire.toJson.field (Text.ofAscii "failed_step") = none := by
          rw [WireRecord.toJson, show record.wire.failedStep = none from hfailedStep]
          rfl
        rw [hfield]
        rfl
    | some index =>
        have hfield : record.wire.toJson.field (Text.ofAscii "failed_step") =
            some (.number (Text.integer index)) := by
          rw [WireRecord.toJson, show record.wire.failedStep = some index from hfailedStep]
          rfl
        rw [hfield]
        change (WireRecord.toInt reader (.number (Text.integer index))).map some = _
        rw [toInt_integer reader
          (by have := (hvalid.failure index hfailedStep).1; omega)
          (hfits.failedStep index hfailedStep)]
        rfl
  rw [WireRecord.fromJson, hfailed]
  change (WireRecord.toInt reader (.number (Text.integer record.formatVersion)) >>=
    fun _ => _) = _
  rw [hversion]
  change (WireRecord.toInt reader (.number (Text.integer record.mutationIndex)) >>=
    fun _ => _) = _
  rw [hindex]
  change (WireRecord.toInt reader (.number (Text.integer record.ordinal)) >>=
    fun _ => _) = _
  rw [hordinal]
  change (Json.toList Json.toText (.array (record.path.map .string)) >>= fun _ => _) = _
  rw [hpath]
  change (Json.toList WireStep.fromJson (.array (record.wire.steps.map WireStep.toJson)) >>=
    fun _ => _) = _
  rw [hsteps]
  rfl

theorem wire_wellFormed {record : CaseRecord} (hconfig : record.config.WellFormed) :
    record.wire.toJson.WellFormed := by
  have hnumber : ∀ value : Int, (Json.number (Text.integer value)).WellFormed := fun value =>
    .number (Json.isNumber_integer value)
  have hpath : (Json.array (record.path.map .string)).WellFormed := by
    refine .array fun item hitem => ?_
    obtain ⟨text, -, rfl⟩ := List.mem_map.mp hitem
    exact .string text
  have hsteps : (Json.array (record.wire.steps.map WireStep.toJson)).WellFormed := by
    refine .array fun item hitem => ?_
    obtain ⟨step, -, rfl⟩ := List.mem_map.mp hitem
    exact step.toJson_wellFormed
  refine .object ?_ ?_
  · cases hfailed : record.wire.failedStep with
    | none =>
        rw [Option.map_none, Option.toList_none, List.append_nil]
        exact (List.take_sublist 12 WireRecord.keys).nodup (by decide +kernel)
    | some index =>
        exact show WireRecord.keys.Nodup by decide +kernel
  · rw [List.forall_mem_append]
    simp only [List.forall_mem_cons]
    refine ⟨⟨hnumber _, .string _, .string _, .string _, .string _, hnumber _, hnumber _, hpath,
      hconfig, hsteps, .string _, .string _, fun _ hmem => nomatch hmem⟩, fun entry hentry => ?_⟩
    obtain ⟨index, -, rfl⟩ := Option.map_eq_some_iff.mp (Option.mem_toList.mp hentry)
    exact hnumber index

theorem encode_ok {library : JsonLibrary} {record : CaseRecord} (hvalid : record.Valid) :
    record.encode library = .ok (library.stringify record.wire.toJson) := by
  rw [encode, validate_ok.mpr hvalid]
  rfl

theorem requireKeys_toJson (wire : WireRecord) :
    wire.toJson.requireKeys WireRecord.keys = .ok () := by
  apply Json.requireKeys_object
  intro key hkey
  rw [List.map_append, List.mem_append] at hkey
  rcases hkey with hkey | hkey
  · have hsub : ∀ key ∈ ["format_version", "case_id", "generator_version", "request_name",
        "field_path", "mutation_index", "ordinal", "path", "config", "steps", "outcome",
        "detail"].map Text.ofAscii, key ∈ WireRecord.keys := by decide +kernel
    exact hsub key hkey
  · obtain ⟨entry, hentry, rfl⟩ := List.mem_map.mp hkey
    obtain ⟨index, -, rfl⟩ := Option.map_eq_some_iff.mp (Option.mem_toList.mp hentry)
    have hmem : Text.ofAscii "failed_step" ∈ WireRecord.keys := by decide +kernel
    exact hmem

theorem decode_stringify {library : JsonLibrary} {record : CaseRecord}
    (hparse : library.parse (library.stringify record.wire.toJson) = .ok record.wire.toJson)
    (hvalid : record.Valid) (hfits : record.Fits) :
    decode library (library.stringify record.wire.toJson) = .ok record := by
  have hversion : checkVersion library record.wire.toJson = .ok () := by
    change acceptVersion (library.read (Text.integer record.formatVersion)) = _
    rw [hvalid.version]
    change acceptVersion (library.read (Text.integer (1 : Int32).toInt)) = _
    rw [library.read_integer]
    rfl
  have hsteps : checkSteps record.wire.toJson = .ok () :=
    checkStepKeys_toJson record.wire.steps
  have hwire : ofWire record.wire = .ok record := by
    rw [ofWire, show record.wire.steps = record.steps.map RecordedStep.wire from rfl,
      recordedSteps_wire]
    change (record.validate >>= fun _ => Except.ok record) = _
    rw [validate_ok.mpr hvalid]
    rfl
  rw [decode, hparse]
  change (checkVersion library record.wire.toJson >>= fun _ => _) = _
  rw [hversion]
  change (record.wire.toJson.requireKeys WireRecord.keys >>= fun _ => _) = _
  rw [requireKeys_toJson]
  change (checkSteps record.wire.toJson >>= fun _ => _) = _
  rw [hsteps]
  change (match WireRecord.fromJson library.toIntReader record.wire.toJson with
    | some wire => ofWire wire
    | none => _) = _
  rw [fromJson_toJson library.toIntReader hvalid hfits]
  exact hwire

theorem valid_of_ofWire {wire : WireRecord} {record : CaseRecord}
    (hread : ofWire wire = .ok record) : record.Valid := by
  obtain ⟨steps, -, hrest⟩ := exceptBind_eq_ok_iff.mp hread
  obtain ⟨⟨⟩, hvalidate, hrecord⟩ := exceptBind_eq_ok_iff.mp hrest
  cases hrecord
  exact validate_ok.mp hvalidate

theorem valid_of_decode {library : JsonLibrary} {text : Text} {record : CaseRecord}
    (hread : decode library text = .ok record) : record.Valid := by
  unfold decode at hread
  split at hread
  · cases hread
  · obtain ⟨_, -, hversion⟩ := exceptBind_eq_ok_iff.mp hread
    obtain ⟨_, -, hkeys⟩ := exceptBind_eq_ok_iff.mp hversion
    obtain ⟨_, -, hsteps⟩ := exceptBind_eq_ok_iff.mp hkeys
    split at hsteps
    · exact valid_of_ofWire hsteps
    · cases hsteps

end CaseRecord

end MoonBoofuzz
