import MoonBoofuzz.Fields.Binary
import MoonBoofuzz.Fields.Float
import MoonBoofuzz.Fields.Random
import MoonBoofuzz.Fields.Text
import MoonBoofuzz.Model.Integer

namespace MoonBoofuzz

namespace CheckedField

def integer (value : UInt64) (width : Int) (endian : Endian) (fuzzable : Bool := true)
    (fuzzValues : List Bytes := []) : Except ModelError (Flagged CheckedField) := do
  let maximum ← integerMax width.toNat
  if value.toNat ≤ maximum then
    let candidates := integerBoundaries maximum
    .ok do
      let base ← counted (encodeInteger value.toNat width.toNat endian) candidates.length fuzzable
        (fun i => (at? candidates i).map fun candidate =>
          encodeInteger candidate width.toNat endian)
        fun _ => pure (some (width / 8))
      base.withFuzzValues fuzzValues fuzzable
  else .error (.invalidText "integer default out of range")

/-- The map of lines already seen holds the lines that were saved. -/
def keepLine (maxLen : Int) (oversized : Bool) (saved : List Bytes) (line : Bytes) :
    List Bytes :=
  if line.isEmpty then saved
  else if maxLen > 0 ∧ (line.length : Int) > maxLen then saved
  else if oversized && saved.contains line then saved
  else saved ++ [line]

def keptLines (lines : List Bytes) (maxLen : Int) : List Bytes :=
  let oversized := decide (maxLen > 0) && lines.any fun line => (line.length : Int) > maxLen
  lines.foldl (keepLine maxLen oversized) []

def fromLines (defaultValue : Bytes := []) (lines : List Bytes := []) (maxLen : Int := 0)
    (fuzzable : Bool := true) (fuzzValues : List Bytes := []) :
    Except ModelError (Flagged CheckedField) :=
  if maxLen ≥ 0 then .ok (simple defaultValue (keptLines lines maxLen) fuzzable fuzzValues)
  else .error (.invalidText "negative max_len")

end CheckedField

/-- A call of one of the public constructors, without the two arguments that all take. -/
inductive FieldCall where
  | simple (value : Bytes) (values : List Bytes)
  | group (values : List Bytes) (default : Option Bytes)
  | integer (value : UInt64) (width : Int) (endian : Endian)
  | binary (value : Bytes) (size maxLen : Option Int) (padding : Bytes)
  | text (value : Text)
  | delimiter (value : Text)
  | randomData (options : RandomDataOptions)
  | float (options : FloatOptions)
  | fromLines (defaultValue : Bytes) (lines : List Bytes) (maxLen : Int)

/-- What the constructors use besides their arguments; the fuel bounds the loops that draw
until a value is accepted. -/
structure FieldContext where
  library : StringLibrary
  arithmetic : DoubleArithmetic
  fuel : Nat

namespace FieldCall

def build (call : FieldCall) (context : FieldContext) (fuzzable : Bool)
    (fuzzValues : List Bytes) : Run (Flagged CheckedField) :=
  match call with
  | .simple value values => .done (CheckedField.simple value values fuzzable fuzzValues)
  | .group values default => liftM (CheckedField.group values default fuzzable fuzzValues)
  | .integer value width endian =>
      liftM (CheckedField.integer value width endian fuzzable fuzzValues)
  | .binary value size maxLen padding =>
      liftM (CheckedField.binary value
        { size := size
          maxLen := maxLen
          padding := padding
          fuzzable := fuzzable
          fuzzValues := fuzzValues })
  | .text value => .done (CheckedField.text context.library value fuzzable fuzzValues)
  | .delimiter value => .done (CheckedField.delimiter value fuzzable fuzzValues)
  | .randomData options =>
      CheckedField.randomData options fuzzable fuzzValues context.fuel
  | .float options =>
      CheckedField.float options context.arithmetic fuzzable fuzzValues context.fuel
  | .fromLines defaultValue lines maxLen =>
      liftM (CheckedField.fromLines defaultValue lines maxLen fuzzable fuzzValues)

/-- The arguments that keep the counts in range. -/
def CountsFit (call : FieldCall) (context : FieldContext) (fuzzable : Bool)
    (fuzzValues : List Bytes) : Prop :=
  match call with
  | .simple _ values => fuzzable = true → values.length + fuzzValues.length < 2147483648
  | .group values default => fuzzable = true →
      (values.erase (default.getD (values.headD []))).length + fuzzValues.length < 2147483648
  | .integer .. => True
  | .binary .. => True
  | .text _ => True
  | .delimiter _ => True
  | .randomData options =>
      ¬ (options.stepValue = 1 ∧ options.minLength.toInt = 0 ∧
        options.maxLength.toInt = 2147483647) ∧
      (fuzzable = true → options.stepValue = 0 →
        options.maxMutations.toInt + fuzzValues.length < 2147483648)
  | .float options => fuzzable = true → ∀ precision generator texts,
      parseFloatPrecision options.sFormat = .ok precision →
      Mt19937.fromSeed (options.seed.getD 0) = .ok generator →
      floatTexts options context.arithmetic precision context.fuel
        (List.range options.maxMutations.toInt.toNat) generator = .done texts →
      (texts.destutter (· ≠ ·)).length + fuzzValues.length < 2147483648
  | .fromLines _ lines maxLen => fuzzable = true →
      (CheckedField.keptLines lines maxLen).length + fuzzValues.length < 2147483648

end FieldCall

theorem Flagged.ofExact_value_lt (exact : Int) : (ofExact exact).value < 2147483648 :=
  exact.bmod_lt (m := 2 ^ 32) (by decide)

namespace CheckedField

variable {base : CheckedField} {extra : List Bytes} {fuzzable : Bool}

theorem withFuzzValues_count_lt (hbase : base.count < 2147483648) :
    (base.withFuzzValues extra fuzzable).value.count < 2147483648 := by
  rw [withFuzzValues]
  split
  · exact hbase
  · exact Flagged.ofExact_value_lt _

theorem counted_count_lt (value : Bytes) (total : Nat) (fuzzable : Bool)
    (candidate : Nat → Option Bytes) (candidateLength : Nat → Flagged (Option Int)) :
    (counted value total fuzzable candidate candidateLength).value.count < 2147483648 := by
  cases fuzzable with
  | false => exact (by decide : (0 : Int) < 2147483648)
  | true =>
      rw [counted, if_pos rfl, Flagged.bind_value, Flagged.pure_value]
      dsimp only
      exact Flagged.ofExact_value_lt total

theorem simple_count_lt (value : Bytes) (values : List Bytes) (fuzzable : Bool)
    (extra : List Bytes) : (simple value values fuzzable extra).value.count < 2147483648 :=
  counted_count_lt value (values ++ extra).length fuzzable _ _

theorem addWindows_lt (value : Bytes) (count : Int) (width : Nat) :
    (addWindows value count width).value < 2147483648 := by
  simp only [addWindows, Flagged.bind_value]
  exact Flagged.ofExact_value_lt _

theorem binaryCount_lt (value : Bytes) : (binaryCount value).value < 2147483648 := by
  simp only [binaryCount, windowWidths, Flagged.bind_value, List.foldlM_cons, List.foldlM_nil,
    Flagged.pure_value]
  exact addWindows_lt value _ 4

end CheckedField

theorem FieldCall.build_count_lt {call : FieldCall} {context : FieldContext} {fuzzable : Bool}
    {fuzzValues : List Bytes} {field : Flagged CheckedField}
    (hbuilt : call.build context fuzzable fuzzValues = .done field) :
    field.value.count < 2147483648 := by
  cases call with
  | simple value values =>
      cases hbuilt
      exact CheckedField.simple_count_lt value values fuzzable fuzzValues
  | group values default =>
      rw [build, Eval.liftM_eq, Eval.ofExcept_eq_done_iff] at hbuilt
      cases values with
      | nil => cases hbuilt
      | cons first rest =>
          cases hbuilt
          exact CheckedField.withFuzzValues_count_lt (CheckedField.simple_count_lt _ _ _ _)
  | integer value width endian =>
      rw [build, Eval.liftM_eq, Eval.ofExcept_eq_done_iff] at hbuilt
      obtain ⟨maximum, -, hrest⟩ := exceptBind_eq_ok_iff.mp hbuilt
      split at hrest
      · cases hrest
        exact CheckedField.withFuzzValues_count_lt (CheckedField.counted_count_lt _ _ _ _ _)
      · cases hrest
  | binary value size maxLen padding =>
      rw [build, Eval.liftM_eq, Eval.ofExcept_eq_done_iff, CheckedField.binary] at hbuilt
      split at hbuilt
      · cases hbuilt
      · split at hbuilt
        · cases hbuilt
        · split at hbuilt
          · cases hbuilt
          · cases hbuilt
            apply CheckedField.withFuzzValues_count_lt
            cases fuzzable with
            | false => exact (by decide : (0 : Int) < 2147483648)
            | true => exact CheckedField.binaryCount_lt value
  | text value =>
      cases hbuilt
      exact CheckedField.withFuzzValues_count_lt (CheckedField.counted_count_lt _ _ _ _ _)
  | delimiter value =>
      cases hbuilt
      exact CheckedField.withFuzzValues_count_lt (CheckedField.counted_count_lt _ _ _ _ _)
  | randomData options =>
      simp only [build, CheckedField.randomData, Eval.bind_eq_done_iff] at hbuilt
      obtain ⟨_, -, _, -, _, -, generator, -, final, -, hfield⟩ := hbuilt
      cases hfield
      exact CheckedField.withFuzzValues_count_lt (CheckedField.counted_count_lt _ _ _ _ _)
  | float options =>
      simp only [build, CheckedField.float, Eval.bind_eq_done_iff] at hbuilt
      obtain ⟨_, -, _, -, precision, -, value, -, generator, -, final, -, hfield⟩ := hbuilt
      cases hfield
      exact CheckedField.withFuzzValues_count_lt (CheckedField.counted_count_lt _ _ _ _ _)
  | fromLines defaultValue lines maxLen =>
      rw [build, Eval.liftM_eq, Eval.ofExcept_eq_done_iff, CheckedField.fromLines] at hbuilt
      split at hbuilt
      · cases hbuilt
        exact CheckedField.simple_count_lt _ _ fuzzable fuzzValues
      · cases hbuilt

end MoonBoofuzz
