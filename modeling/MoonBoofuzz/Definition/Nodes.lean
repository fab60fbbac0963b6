import MoonBoofuzz.Definition.Assemble
import MoonBoofuzz.Definition.Generate
import MoonBoofuzz.Fields.Build
import MoonBoofuzz.Records.Codec

namespace MoonBoofuzz

/-- The field that a constructor has built.  Where the source would stop, at an index out of
range, a candidate is empty. -/
def CheckedField.toField (field : CheckedField) : Field where
  value := field.value
  count := field.count.toNat
  candidate := fun i => (field.candidate i).getD []
  candidateLength := fun i => (field.candidateLength i).value.getD 0

/-- What reading a definition uses besides its text. -/
structure DefinitionContext where
  json : JsonLibrary
  /-- `from_json` at `Double`. -/
  toDouble : Json → Option Double
  library : StringLibrary
  arithmetic : DoubleArithmetic

inductive ParseError where
  /-- An error of the JSON library. -/
  | json (message : Text)
  | record (error : RecordError)
  | definition (error : DefinitionError)
  | model (error : ModelError)

abbrev Read := Eval ParseError

namespace Read

def invalid {α : Type} (message : Text) : Read α := .raised (.definition (.invalid message))

def recorded {α : Type} (answer : Except RecordError α) : Read α :=
  (Eval.ofExcept answer).mapError .record

def defined {α : Type} (answer : Except DefinitionError α) : Read α :=
  (Eval.ofExcept answer).mapError .definition

def modelled {α : Type} (answer : Run α) : Read α := answer.mapError .model

end Read

def decimalUnit64 (value : Nat) (unit : UInt16) : Except DefinitionError Nat :=
  if 48 ≤ unit.toNat ∧ unit.toNat ≤ 57 then
    let digit := unit.toNat - 48
    if value ≤ (0xffffffffffffffff - digit) / 10 then .ok (value * 10 + digit)
    else .error (.invalid (Text.ofAscii "UInt64 overflow"))
  else .error (.invalid (Text.ofAscii "expected unsigned decimal string"))

/-- `decimal_u64`. -/
def decimalU64 (text : Text) : Except DefinitionError UInt64 :=
  if text = [] then .error (.invalid (Text.ofAscii "empty unsigned integer"))
  else (text.foldlM decimalUnit64 0).map UInt64.ofNat

namespace DefinitionContext

def fields (context : DefinitionContext) (fuel : Nat) : FieldContext :=
  ⟨context.library, context.arithmetic, fuel⟩

section

variable (context : DefinitionContext) (value : Json)

/-- What `from_json` has made of a value. -/
def decoded {α : Type} (item : Json) : Option α → Read α
  | some result => .done result
  | none => .raised (.json (context.json.mismatch item))

def required (name : String) : Read Json :=
  match value.field (Text.ofAscii name) with
  | some item => .done item
  | none => Read.invalid (Text.ofAscii "missing property: " ++ Text.ofAscii name)

/-- `from_json` at a type, of a property that must be there. -/
def requiredAs {α : Type} (read : Json → Option α) (name : String) : Read α := do
  let item ← required value name
  context.decoded item (read item)

def optionalAs {α : Type} (read : Json → Option α) (name : String) : Read (Option α) :=
  match value.field (Text.ofAscii name) with
  | some item => some <$> context.decoded item (read item)
  | none => .done none

def text (name : String) (default : Text) : Read Text :=
  (·.getD default) <$> context.optionalAs value Json.toText name

def number (name : String) (default : Int32) : Read Int32 :=
  (·.getD default) <$> context.optionalAs value (Json.toInt context.json.toIntReader) name

def boolean (name : String) (default : Bool) : Read Bool :=
  (·.getD default) <$> context.optionalAs value Json.toBool name

def texts (name : String) : Read (List Text) :=
  (·.getD []) <$> context.optionalAs value (Json.toList Json.toText) name

def hex (name : String) (default : String) : Read Bytes := do
  let digits ← context.text value name (Text.ofAscii default)
  Read.recorded (Bytes.hexDecode digits)

def hexes (name : String) : Read (List Bytes) := do
  let strings ← context.texts value name
  strings.mapM fun digits => Read.recorded (Bytes.hexDecode digits)

def unsignedValues : Read (List UInt64) := do
  let strings ← context.texts value "mutations"
  strings.mapM fun digits => Read.defined (decimalU64 digits)

def endian : Read Endian := do
  let name ← context.text value "endian" (Text.ofAscii "little")
  if name = Text.ofAscii "little" then .done .little
  else if name = Text.ofAscii "big" then .done .big
  else Read.invalid (Text.ofAscii "endian must be little or big")

def keys (names : List String) : Read Unit :=
  Read.recorded (value.requireKeys (names.map Text.ofAscii))

end

section

variable (context : DefinitionContext)

def parseCondition (condition : Json) : Read Condition := do
  let path ← context.requiredAs condition Json.toText "field"
  let op ← context.requiredAs condition Json.toText "op"
  let is (name : String) := op = Text.ofAscii name
  if is "eq" ∨ is "ne" then do
    keys condition ["field", "op", "value_hex"]
    let bytes ← context.hex condition "value_hex" ""
    .done (if is "eq" then .equal path bytes else .notEqual path bytes)
  else if is "in" ∨ is "not_in" then do
    keys condition ["field", "op", "values_hex"]
    let values ← context.hexes condition "values_hex"
    .done (if is "in" then .oneOf path values else .notOneOf path values)
  else if is "gt" ∨ is "ge" ∨ is "lt" ∨ is "le" then do
    keys condition ["field", "op", "value_hex"]
    let bytes ← context.hex condition "value_hex" ""
    .done
      (if is "gt" then .greater path bytes
      else if is "ge" then .greaterEqual path bytes
      else if is "lt" then .less path bytes
      else .lessEqual path bytes)
  else Read.invalid (Text.ofAscii "unsupported condition operator")

def withCondition (value : Json) (block : Block) : Read Block :=
  match value.field (Text.ofAscii "condition") with
  | some condition => block.when <$> context.parseCondition condition
  | none => .done block

def withAlignment (value : Json) (block : Block) : Read Block :=
  match value.field (Text.ofAscii "alignment") with
  | some alignment => do
      keys alignment ["modulus", "pattern_hex"]
      let modulus ← context.number alignment "modulus" 1
      let pattern ← context.hex alignment "pattern_hex" "00"
      Read.modelled (Eval.ofExcept (block.aligned modulus pattern))
  | none => .done block

def withGroup (value : Json) (block : Block) : Read Block :=
  match value.field (Text.ofAscii "group") with
  | some group => block.withGroup <$> context.decoded group group.toText
  | none => .done block

/-- `parse_block`, within the nesting limit. -/
def parseBlock (parseNode : Json → Read Node) (value : Json) (root : Bool) : Read Block := do
  keys value
    (if root then ["name", "children", "condition", "alignment", "group"]
    else ["type", "name", "children", "condition", "alignment", "group"])
  let name ← context.requiredAs value Json.toText "name"
  let children ← context.requiredAs value (Json.toList some) "children"
  let nodes ← children.mapM parseNode
  let conditioned ← context.withCondition value (Block.new name nodes)
  let aligned ← context.withAlignment value conditioned
  context.withGroup value aligned

end

end DefinitionContext

/-- A call of a field constructor, with the two arguments that all of them take. -/
structure FieldRecipe where
  call : FieldCall
  fuzzable : Bool := true
  fuzzValues : List Bytes := []

namespace FieldRecipe

def build (recipe : FieldRecipe) (context : FieldContext) : Run Field :=
  (fun field => field.value.toField) <$>
    recipe.call.build context recipe.fuzzable recipe.fuzzValues

end FieldRecipe

namespace DefinitionContext

section

variable (context : DefinitionContext) (value : Json)

def staticRecipe : Read FieldRecipe := do
  keys value ["type", "name", "value_hex", "variable"]
  let bytes ← context.hex value "value_hex" ""
  .done { call := .simple bytes [] }

def simpleRecipe : Read FieldRecipe := do
  keys value
    ["type", "name", "value_hex", "values_hex", "fuzzable", "fuzz_values", "variable"]
  let bytes ← context.hex value "value_hex" ""
  let values ← context.hexes value "values_hex"
  let fuzzable ← context.boolean value "fuzzable" true
  let fuzzValues ← context.hexes value "fuzz_values"
  .done ⟨.simple bytes values, fuzzable, fuzzValues⟩

def groupRecipe : Read FieldRecipe := do
  keys value
    ["type", "name", "values_hex", "default_hex", "fuzzable", "fuzz_values", "variable"]
  let values ← context.hexes value "values_hex"
  let fuzzable ← context.boolean value "fuzzable" true
  let fuzzValues ← context.hexes value "fuzz_values"
  match value.field (Text.ofAscii "default_hex") with
  | none => .done ⟨.group values none, fuzzable, fuzzValues⟩
  | some item => do
      let digits ← context.decoded item item.toText
      let default ← Read.recorded (Bytes.hexDecode digits)
      .done ⟨.group values (some default), fuzzable, fuzzValues⟩

def integerRecipe : Read FieldRecipe := do
  keys value ["type", "name", "value", "width", "endian", "fuzzable", "fuzz_values", "variable"]
  let digits ← context.text value "value" (Text.ofAscii "0")
  let default ← Read.defined (decimalU64 digits)
  let width ← context.number value "width" 8
  let order ← context.endian value
  let fuzzable ← context.boolean value "fuzzable" true
  let fuzzValues ← context.hexes value "fuzz_values"
  .done ⟨.integer default width.toInt order, fuzzable, fuzzValues⟩

def bytesRecipe : Read FieldRecipe := do
  keys value
    ["type", "name", "value_hex", "size", "max_len", "padding_hex", "fuzzable", "fuzz_values",
      "variable"]
  let bytes ← context.hex value "value_hex" ""
  let padding ← context.hex value "padding_hex" "00"
  let fuzzable ← context.boolean value "fuzzable" true
  let fuzzValues ← context.hexes value "fuzz_values"
  let size ← context.optionalAs value (Json.toInt context.json.toIntReader) "size"
  let maxLen ← context.optionalAs value (Json.toInt context.json.toIntReader) "max_len"
  .done ⟨.binary bytes (size.map Int32.toInt) (maxLen.map Int32.toInt) padding, fuzzable,
    fuzzValues⟩

def textRecipe (call : Text → FieldCall) (default : String) : Read FieldRecipe := do
  keys value ["type", "name", "value", "fuzzable", "fuzz_values", "variable"]
  let normal ← context.text value "value" (Text.ofAscii default)
  let fuzzable ← context.boolean value "fuzzable" true
  let fuzzValues ← context.hexes value "fuzz_values"
  .done ⟨call normal, fuzzable, fuzzValues⟩

def randomRecipe : Read FieldRecipe := do
  keys value
    ["type", "name", "value_hex", "min_length", "max_length", "max_mutations", "step",
      "fuzzable", "fuzz_values", "variable"]
  let step ← context.optionalAs value (Json.toInt context.json.toIntReader) "step"
  let bytes ← context.hex value "value_hex" ""
  let minLength ← context.number value "min_length" 0
  let maxLength ← context.number value "max_length" 1
  let maxMutations ← context.number value "max_mutations" 25
  let fuzzable ← context.boolean value "fuzzable" true
  let fuzzValues ← context.hexes value "fuzz_values"
  .done {
    call := .randomData {
      defaultValue := bytes
      minLength := minLength
      maxLength := maxLength
      maxMutations := maxMutations
      step := some (step.getD 0) }
    fuzzable := fuzzable
    fuzzValues := fuzzValues }

/-- A seed is a decimal text, read as a signed 64-bit number. -/
def floatSeed : Read (Option Int) :=
  match value.field (Text.ofAscii "seed") with
  | some item => do
      let digits ← context.decoded item item.toText
      let seed ← Read.defined (decimalU64 digits)
      .done (some (wrap64 seed.toNat))
  | none => .done none

def floatRecipe : Read FieldRecipe := do
  keys value
    ["type", "name", "value", "format", "f_min", "f_max", "max_mutations", "seed", "ieee_754",
      "endian", "fuzzable", "fuzz_values", "variable"]
  let seed ← context.floatSeed value
  let default ← context.requiredAs value context.toDouble "value"
  let format ← context.text value "format" (Text.ofAscii ".1f")
  let fMin ← context.requiredAs value context.toDouble "f_min"
  let fMax ← context.requiredAs value context.toDouble "f_max"
  let maxMutations ← context.number value "max_mutations" 1000
  let encode ← context.boolean value "ieee_754" false
  let order ← context.endian value
  let fuzzable ← context.boolean value "fuzzable" true
  let fuzzValues ← context.hexes value "fuzz_values"
  .done {
    call := .float {
      defaultValue := default
      sFormat := format
      fMin := fMin
      fMax := fMax
      maxMutations := maxMutations
      seed := some (seed.getD 0)
      encodeAsIeee754 := encode
      endian := order }
    fuzzable := fuzzable
    fuzzValues := fuzzValues }

def linesRecipe : Read FieldRecipe := do
  keys value ["type", "name", "lines", "max_len", "fuzzable", "fuzz_values", "variable"]
  let lines ← context.requiredAs value (Json.toList Json.toText) "lines"
  let maxLen ← context.number value "max_len" 0
  let fuzzable ← context.boolean value "fuzzable" true
  let fuzzValues ← context.hexes value "fuzz_values"
  .done ⟨.fromLines [] (lines.map Text.encodeUtf8) maxLen.toInt, fuzzable, fuzzValues⟩

def fieldRecipe (kind : Text) : Read FieldRecipe :=
  if kind = Text.ofAscii "static" then context.staticRecipe value
  else if kind = Text.ofAscii "simple" then context.simpleRecipe value
  else if kind = Text.ofAscii "group" then context.groupRecipe value
  else if kind = Text.ofAscii "integer" then context.integerRecipe value
  else if kind = Text.ofAscii "bytes" then context.bytesRecipe value
  else if kind = Text.ofAscii "text" then context.textRecipe value .text ""
  else if kind = Text.ofAscii "delimiter" then context.textRecipe value .delimiter " "
  else if kind = Text.ofAscii "random" then context.randomRecipe value
  else if kind = Text.ofAscii "float" then context.floatRecipe value
  else if kind = Text.ofAscii "lines" then context.linesRecipe value
  else Read.invalid (Text.ofAscii "unsupported field type: " ++ kind)

def repeatNode (name : Text) : Read Node := do
  keys value ["type", "name", "target", "min", "max", "step", "variable"]
  let variableName ← context.optionalAs value Json.toText "variable"
  let target ← context.requiredAs value Json.toText "target"
  let min ← context.number value "min" 0
  let max ← context.number value "max" 25
  let step ← context.number value "step" 1
  .done (.repeated name target min max step variableName)

def sizeNode (name : Text) : Read Node := do
  keys value
    ["type", "name", "target", "length", "endian", "offset", "inclusive", "ascii", "mutations",
      "fuzzable"]
  let target ← context.requiredAs value Json.toText "target"
  let length ← context.number value "length" 4
  let order ← context.endian value
  let offset ← context.number value "offset" 0
  let inclusive ← context.boolean value "inclusive" false
  let ascii ← context.boolean value "ascii" false
  let mutations ← context.unsignedValues value
  let fuzzable ← context.boolean value "fuzzable" true
  -- A negative length is refused like any other that is not a width.
  Read.modelled (Eval.ofExcept
    (Node.size name target length.toInt.toNat order offset inclusive ascii mutations fuzzable))

def checksumMutation (number : UInt64) : Read UInt32 :=
  if number.toNat ≤ 0xffffffff then .done (UInt32.ofNat number.toNat)
  else Read.invalid (Text.ofAscii "CRC32 mutation overflow")

def checksumAlgorithm (name : Text) : Read ChecksumAlgorithm :=
  if name = Text.ofAscii "crc32" then .done .crc32
  else if name = Text.ofAscii "crc32c" then .done .crc32c
  else if name = Text.ofAscii "adler32" then .done .adler32
  else if name = Text.ofAscii "md5" then .done .md5
  else if name = Text.ofAscii "sha1" then .done .sha1
  else Read.invalid (Text.ofAscii "unsupported checksum algorithm: " ++ name)

def checksumNode (name : Text) : Read Node := do
  keys value ["type", "name", "target", "endian", "mutations", "algorithm", "fuzzable"]
  let numbers ← context.unsignedValues value
  let mutations ← numbers.mapM checksumMutation
  let algorithmName ← context.text value "algorithm" (Text.ofAscii "crc32")
  let algorithm ← checksumAlgorithm algorithmName
  let target ← context.requiredAs value Json.toText "target"
  let order ← context.endian value
  let fuzzable ← context.boolean value "fuzzable" true
  Read.modelled (Eval.ofExcept
    (Node.checksum name target order mutations fuzzable algorithm))

def mirrorNode (name : Text) : Read Node := do
  keys value ["type", "name", "target"]
  let target ← context.requiredAs value Json.toText "target"
  .done (.mirrored name target)

/-- A field bound to a session variable is dynamic. -/
def fieldNode (kind name : Text) (fuel : Nat) : Read Node := do
  let recipe ← context.fieldRecipe value kind
  let field ← Read.modelled (recipe.build (context.fields fuel))
  match value.field (Text.ofAscii "variable") with
  | some item => do
      let variableName ← context.decoded item item.toText
      .done (.dynamic name variableName field)
  | none => .done (.leaf name field)

end

/-- `parse_node`; the budget is 257 less the depth of the node. -/
def parseNode (context : DefinitionContext) (fuel : Nat) : Nat → Json → Read Node
  | 0, _ => Read.invalid (Text.ofAscii "definition nesting exceeds 256")
  | budget + 1, value => do
      let kind ← context.requiredAs value Json.toText "type"
      let name ← context.requiredAs value Json.toText "name"
      if kind = Text.ofAscii "block" then
        Node.nested <$> context.parseBlock (parseNode context fuel budget) value false
      else if kind = Text.ofAscii "repeat" then context.repeatNode value name
      else if kind = Text.ofAscii "size" then context.sizeNode value name
      else if kind = Text.ofAscii "crc32" then context.checksumNode value name
      else if kind = Text.ofAscii "mirror" then context.mirrorNode value name
      else context.fieldNode value kind name fuel

end DefinitionContext

namespace ProtocolDefinition

variable {κ : Type}

section

variable (context : DefinitionContext)

/-- One request of the list; the limit is read for each of them. -/
def parseRequest (value description : Json) (fuel : Nat) : Read CompiledRequest := do
  let root ← context.parseBlock (context.parseNode fuel 256) description true
  let maxBytes ← context.number value "max_bytes" 1048576
  Read.modelled (CompiledRequest.compile root maxBytes fuel)

def parseEdge : Json → Read (Text × Text)
  | .array [.string source, .string target] => .done (source, target)
  | _ => Read.invalid (Text.ofAscii "edge must have two request names")

def connectEdge (fuel : Nat) (graph : SessionGraph κ) (item : Json) :
    Read (SessionGraph κ) := do
  let edge ← parseEdge item
  Read.modelled (graph.connect edge.1 edge.2 none fuel)

def connectEdges (value : Json) (graph : SessionGraph κ) (fuel : Nat) :
    Read (SessionGraph κ) :=
  match value.field (Text.ofAscii "edges") with
  | none => .done graph
  | some (.array edges) => edges.foldlM (connectEdge fuel) graph
  | some _ => Read.invalid (Text.ofAscii "edges must be an array")

/-- What `parse` makes of the JSON value of the text. -/
def ofJson (value : Json) (fuel : Nat) : Read (ProtocolDefinition κ) := do
  DefinitionContext.keys value
    ["schema_version", "requests", "edges", "targets", "max_bytes", "max_paths", "execution"]
  let version ← context.requiredAs value (Json.toInt context.json.toIntReader) "schema_version"
  if version = 1 then do
    let descriptions ← context.requiredAs value (Json.toList some) "requests"
    let requests ← descriptions.mapM fun description =>
      parseRequest context value description fuel
    let added ← Read.modelled (Eval.ofExcept (addAll requests))
    let graph ← connectEdges value added fuel
    let maxPaths ← context.number value "max_paths" 10000
    let targets ← context.optionalAs value (Json.toList Json.toText) "targets"
    let paths ← Read.modelled (graph.paths targets maxPaths fuel)
    .done ⟨requests, paths⟩
  else .raised (.definition (.unsupportedVersion version.toInt))

/-- `ProtocolDefinition::parse`. -/
def parse (source : Text) (fuel : Nat) : Read (ProtocolDefinition κ) := do
  let value ← (Eval.ofExcept (context.json.parse source)).mapError .json
  ofJson context value fuel

end

end ProtocolDefinition

end MoonBoofuzz
