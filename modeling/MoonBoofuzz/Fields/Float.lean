import Mathlib.Data.List.Destutter
import MoonBoofuzz.Fields.Checked
import MoonBoofuzz.Float.Fixed
import MoonBoofuzz.Float.Pack
import MoonBoofuzz.Random.Draws

namespace MoonBoofuzz

structure FloatOptions where
  defaultValue : Double := 0
  sFormat : Text := Text.ofAscii ".1f"
  fMin : Double := 0
  -- The literal 100.0.
  fMax : Double := 0x4059000000000000
  maxMutations : Int32 := 1000
  seed : Option Int := none
  encodeAsIeee754 : Bool := false
  endian : Endian := .big

def precisionDigit (precision : Nat) (unit : UInt16) : Except ModelError Nat :=
  if 48 ≤ unit.toNat ∧ unit.toNat ≤ 57 then
    let precision := precision * 10 + (unit.toNat - 48)
    -- Keeps absurd precisions from ballooning the exact arithmetic.
    if precision ≤ 1000000 then .ok precision
    else .error (.invalidText "float format precision too large")
  else .error (.invalidText "float format must be %.Nf")

/-- Accepts only `%[.N]f` specifiers. -/
def parseFloatPrecision (sFormat : Text) : Except ModelError Nat :=
  if ¬ (Text.ofAscii "f" <:+ sFormat) then .error (.invalidText "float format must be %.Nf")
  else if ¬ Text.hasPrefix sFormat (Text.ofAscii ".") then
    if sFormat = Text.ofAscii "f" then .ok 6
    else .error (.invalidText "float format must be %.Nf")
  else (sFormat.drop 1).dropLast.foldlM precisionDigit 0

/-- `python_str_double`: integral values print with a trailing `.0`. -/
def pythonStrDouble (arithmetic : DoubleArithmetic) (value : Double) : Text :=
  if value <<< 1 = 0 then
    if value >>> 63 = 1 then Text.ofAscii "-0.0" else Text.ofAscii "0.0"
  else if (value >>> 52) &&& 0x7ff = 0x7ff then
    if value <<< 12 ≠ 0 then Text.ofAscii "nan"
    else if value >>> 63 = 1 then Text.ofAscii "-inf"
    else Text.ofAscii "inf"
  else
    let text := arithmetic.toText value
    if text.contains (Text.ofAscii ".") || text.contains (Text.ofAscii "e") ||
        text.contains (Text.ofAscii "E") then text
    else text ++ Text.ofAscii ".0"

structure DecimalState where
  mantissa : Int := 0
  fractionDigits : Nat := 0
  seenDot : Bool := false
  seenDigit : Bool := false

def decimalUnit (state : DecimalState) (item : UInt16 × Nat) : Except ModelError DecimalState :=
  let (unit, i) := item
  let code := unit.toNat
  if i = 0 ∧ (code = 45 ∨ code = 43) then .ok state
  else if code = 46 then
    if state.seenDot then .error (.invalidText "bad float literal")
    else .ok { state with seenDot := true }
  else if 48 ≤ code ∧ code ≤ 57 then
    if state.mantissa < 922337203685477580 then
      .ok { state with
        mantissa := state.mantissa * 10 + (code - 48 : Nat)
        fractionDigits := if state.seenDot then state.fractionDigits + 1
          else state.fractionDigits
        seenDigit := true }
    else .error (.invalidText "float literal exceeds precision support")
  else .error (.invalidText "bad float literal")

def parseDecimal (arithmetic : DoubleArithmetic) (text : Text) : Except ModelError Double :=
  if text = Text.ofAscii "inf" then .ok 0x7ff0000000000000
  else if text = Text.ofAscii "nan" then .ok 0x7ff8000000000000
  else do
    let final ← text.zipIdx.foldlM decimalUnit {}
    if final.seenDigit then
      -- The literals 10.0 and 1.0.
      let denominator :=
        (fun value => arithmetic.mul value 0x4024000000000000)^[final.fractionDigits]
          0x3ff0000000000000
      let value := arithmetic.div (arithmetic.ofInt64 final.mantissa) denominator
      if Text.hasPrefix text (Text.ofAscii "-") then .ok (value ^^^ 0x8000000000000000)
      else .ok value
    else .error (.invalidText "bad float literal")

/-- Whatever is not ASCII is left out. -/
def asciiBytes (text : Text) : Bytes :=
  (text.filter fun unit => unit.toNat ≤ 127).map UInt16.toUInt8

namespace FloatOptions

def encode (options : FloatOptions) (arithmetic : DoubleArithmetic) (text : Text) :
    Except ModelError Bytes :=
  if options.encodeAsIeee754 then do
    let value ← parseDecimal arithmetic text
    .ok (Double.encodeFloatIeee754 value options.endian)
  else .ok (asciiBytes text)

end FloatOptions

structure FloatState where
  generator : Mt19937
  saved : List Bytes := []
  last : Option Text := none

/-- The value of one turn: the default first, then draws. -/
def floatRaw (options : FloatOptions) (arithmetic : DoubleArithmetic) (generator : Mt19937)
    (i : Nat) : Double × Mt19937 :=
  if i = 0 then (options.defaultValue, generator)
  else generator.uniform arithmetic options.fMin options.fMax

/-- One turn; the draw is consumed before its text is compared with the last one. -/
def floatCandidate (options : FloatOptions) (arithmetic : DoubleArithmetic) (precision fuel : Nat)
    (state : FloatState) (i : Nat) : Run FloatState := do
  let (raw, generator) := floatRaw options arithmetic state.generator i
  let text ← Double.formatFixedPoint raw precision fuel
  if state.last ≠ some text then do
    let bytes ← liftM (options.encode arithmetic text)
    pure { generator := generator, saved := state.saved ++ [bytes], last := some text }
  else pure { state with generator := generator }

def CheckedField.float (options : FloatOptions) (arithmetic : DoubleArithmetic) (fuzzable : Bool)
    (fuzzValues : List Bytes) (fuel : Nat) : Run (Flagged CheckedField) := do
  Eval.check (options.maxMutations.toInt ≥ 0) (.invalidText "negative max_mutations")
  Eval.check (arithmetic.le options.fMin options.fMax = true)
    (.invalidText "float range: f_min > f_max")
  let precision ← liftM (parseFloatPrecision options.sFormat)
  let value ← liftM (options.encode arithmetic (pythonStrDouble arithmetic options.defaultValue))
  let generator ← liftM (Mt19937.fromSeed (options.seed.getD 0))
  let final ← (List.range options.maxMutations.toInt.toNat).foldlM
    (floatCandidate options arithmetic precision fuel) { generator := generator }
  pure do
    let base ← CheckedField.ofSaved value final.saved fuzzable
    base.withFuzzValues fuzzValues fuzzable

variable {options : FloatOptions} {arithmetic : DoubleArithmetic} {precision fuel : Nat}

def floatRaws (options : FloatOptions) (arithmetic : DoubleArithmetic) :
    List Nat → Mt19937 → List Double
  | [], _ => []
  | i :: rest, generator =>
      let drawn := floatRaw options arithmetic generator i
      drawn.1 :: floatRaws options arithmetic rest drawn.2

def floatTexts (options : FloatOptions) (arithmetic : DoubleArithmetic)
    (precision fuel : Nat) (items : List Nat) (generator : Mt19937) : Run (List Text) :=
  (floatRaws options arithmetic items generator).mapM fun raw =>
    Double.formatFixedPoint raw precision fuel

theorem floatCandidate_done {state next : FloatState} {i : Nat}
    (hdone : floatCandidate options arithmetic precision fuel state i = .done next) :
    ∃ text, Double.formatFixedPoint (floatRaw options arithmetic state.generator i).1
        precision fuel = .done text ∧
      next.generator = (floatRaw options arithmetic state.generator i).2 ∧
      next.last = some text ∧
      next.saved.length = state.saved.length + if state.last ≠ some text then 1 else 0 := by
  rw [floatCandidate] at hdone
  obtain ⟨text, htext, hrest⟩ := Eval.bind_eq_done_iff.mp hdone
  refine ⟨text, htext, ?_⟩
  split at hrest
  · rename_i hnew
    obtain ⟨bytes, -, hstate⟩ := Eval.bind_eq_done_iff.mp hrest
    rw [Eval.pure_eq, Eval.done.injEq] at hstate
    rw [← hstate, if_pos hnew]
    exact ⟨rfl, rfl, List.length_append⟩
  · rename_i hsame
    rw [Eval.pure_eq, Eval.done.injEq] at hrest
    rw [← hrest, if_neg hsame]
    exact ⟨rfl, not_not.mp hsame, rfl⟩

theorem foldlM_floatCandidate : ∀ {items : List Nat} {state final : FloatState} {last : Text},
    state.last = some last →
    items.foldlM (floatCandidate options arithmetic precision fuel) state = .done final →
    ∃ texts, floatTexts options arithmetic precision fuel items state.generator = .done texts ∧
      final.saved.length + 1 = state.saved.length + (texts.destutter' (· ≠ ·) last).length := by
  intro items
  induction items with
  | nil =>
      intro state final last _ hdone
      rw [List.foldlM_nil, Eval.pure_eq, Eval.done.injEq] at hdone
      rw [hdone]
      exact ⟨[], rfl, rfl⟩
  | cons i rest ih =>
      intro state final last hlast hdone
      rw [List.foldlM_cons] at hdone
      obtain ⟨next, hnext, hrest⟩ := Eval.bind_eq_done_iff.mp hdone
      obtain ⟨text, htext, hgenerator, hnextLast, hsaved⟩ := floatCandidate_done hnext
      obtain ⟨texts, htexts, hlength⟩ := ih hnextLast hrest
      rw [hgenerator] at htexts
      refine ⟨text :: texts, ?_, ?_⟩
      · rw [floatTexts, floatRaws, List.mapM_cons, htext, Eval.done_bind]
        rw [floatTexts] at htexts
        rw [htexts, Eval.done_bind, Eval.pure_eq]
      · rw [hlength, hsaved]
        rcases eq_or_ne last text with hsame | hnew
        · rw [List.destutter'_cons_neg _ (not_not.mpr hsame), hlast, hsame,
            if_neg (not_not.mpr rfl), Nat.add_zero]
        · have hother : state.last ≠ some text := by
            rw [hlast]
            exact fun hequal => hnew (Option.some.inj hequal)
          have hkept : (text :: texts).destutter' (· ≠ ·) last =
              last :: texts.destutter' (· ≠ ·) text := List.destutter'_cons_pos _ hnew
          rw [hkept, if_pos hother, List.length_cons]
          omega

theorem length_floatCandidates {count : Nat} {state final : FloatState}
    (hsaved : state.saved = []) (hlast : state.last = none)
    (hdone : (List.range count).foldlM (floatCandidate options arithmetic precision fuel) state =
      .done final) :
    ∃ texts, floatTexts options arithmetic precision fuel (List.range count) state.generator =
        .done texts ∧
      final.saved.length = (texts.destutter (· ≠ ·)).length := by
  cases hitems : List.range count with
  | nil =>
      rw [hitems, List.foldlM_nil, Eval.pure_eq, Eval.done.injEq] at hdone
      rw [← hdone, hsaved]
      exact ⟨[], rfl, rfl⟩
  | cons i rest =>
      rw [hitems, List.foldlM_cons] at hdone
      obtain ⟨next, hnext, hrest⟩ := Eval.bind_eq_done_iff.mp hdone
      obtain ⟨text, htext, hgenerator, hnextLast, hfirst⟩ := floatCandidate_done hnext
      obtain ⟨texts, htexts, hlength⟩ := foldlM_floatCandidate hnextLast hrest
      rw [hgenerator] at htexts
      refine ⟨text :: texts, ?_, ?_⟩
      · rw [floatTexts, floatRaws, List.mapM_cons, htext, Eval.done_bind]
        rw [floatTexts] at htexts
        rw [htexts, Eval.done_bind, Eval.pure_eq]
      · rw [hsaved, hlast, if_pos (Option.some_ne_none text).symm, List.length_nil] at hfirst
        rw [List.destutter_cons']
        omega

end MoonBoofuzz
