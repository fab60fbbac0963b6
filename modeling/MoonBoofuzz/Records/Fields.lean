import MoonBoofuzz.Data.Digits
import MoonBoofuzz.Records.Record

namespace MoonBoofuzz

/-! Reading the fields of a JSON object. -/

/-- How the JSON library reads a number as an `Int`. -/
structure IntReader where
  read : Text → Option Int32
  /-- The text of an `Int` is read as that `Int`. -/
  read_integer : ∀ value : Int32, read (Text.integer value.toInt) = some value

def IntReader.plain : IntReader where
  read text := (Text.readInteger text).bind fun value =>
    if (Int32.ofInt value).toInt = value then some (Int32.ofInt value) else none
  read_integer value := by
    rw [Text.readInteger_integer, Option.bind_some, if_pos (by rw [Int32.ofInt_toInt]),
      Int32.ofInt_toInt]

namespace Json

/-- `fields.get` on an object. -/
def field (json : Json) (name : Text) : Option Json :=
  match json with
  | .object fields => fields.lookup name
  | _ => none

def checkKeys (allowed : List Text) : List (Text × Json) → Except RecordError Unit
  | [] => .ok ()
  | (key, _) :: rest =>
      if key ∈ allowed then checkKeys allowed rest
      else .error (.invalid (Text.ofAscii "unknown JSON property: " ++ key))

/-- `require_keys`. -/
def requireKeys (json : Json) (allowed : List Text) : Except RecordError Unit :=
  match json with
  | .object fields => checkKeys allowed fields
  | _ => .error (.invalid (Text.ofAscii "expected JSON object"))

theorem checkKeys_ok {allowed : List Text} {fields : List (Text × Json)}
    (hallowed : ∀ key ∈ fields.map Prod.fst, key ∈ allowed) :
    checkKeys allowed fields = .ok () := by
  induction fields with
  | nil => rfl
  | cons entry rest ih =>
      rw [checkKeys, if_pos (hallowed _ (by simp))]
      exact ih fun key hkey => hallowed key (by simp [hkey])

/-- `from_json` at `Int`. -/
def toInt (reader : IntReader) : Json → Option Int32
  | .number text => reader.read text
  | _ => none

/-- `from_json` at `Bool`. -/
def toBool : Json → Option Bool
  | .bool value => some value
  | _ => none

/-- `from_json` at `String`. -/
def toText : Json → Option Text
  | .string value => some value
  | _ => none

def ofInt (value : Int32) : Json := .number (Text.integer value.toInt)

@[simp] theorem toInt_ofInt (reader : IntReader) (value : Int32) :
    (ofInt value).toInt reader = some value :=
  reader.read_integer value

theorem requireKeys_object {allowed : List Text} {fields : List (Text × Json)}
    (hallowed : ∀ key ∈ fields.map Prod.fst, key ∈ allowed) :
    requireKeys (.object fields) allowed = .ok () :=
  checkKeys_ok hallowed

end Json

end MoonBoofuzz
