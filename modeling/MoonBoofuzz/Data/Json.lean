import Mathlib.Tactic.IntervalCases
import MoonBoofuzz.Data.Text

namespace MoonBoofuzz

/-- A JSON value.  A number is known by its text. -/
inductive Json where
  | null
  | bool (value : Bool)
  | number (text : Text)
  | string (value : Text)
  | array (items : List Json)
  | object (fields : List (Text × Json))

namespace Json

def isObject : Json → Bool
  | .object _ => true
  | _ => false

def quote : UInt16 := 34

def backslash : UInt16 := 92

def comma : UInt16 := 44

def openBracket : UInt16 := 91

def closeBracket : UInt16 := 93

def openBrace : UInt16 := 123

def closeBrace : UInt16 := 125

def hexDigit (value : Nat) : UInt16 :=
  UInt16.ofNat (Nat.digitChar value).toNat

def escapeUnit (unit : UInt16) : Text :=
  if unit = quote then [backslash, quote]
  else if unit = backslash then [backslash, backslash]
  else if unit = 10 then Text.ofAscii "\\n"
  else if unit = 13 then Text.ofAscii "\\r"
  else if unit = 8 then Text.ofAscii "\\b"
  else if unit = 9 then Text.ofAscii "\\t"
  else if unit = 12 then Text.ofAscii "\\f"
  else if unit < 32 then
    Text.ofAscii "\\u00" ++ [hexDigit (unit.toNat / 16), hexDigit (unit.toNat % 16)]
  else [unit]

def literalTail (text : Text) : Text :=
  text.flatMap escapeUnit ++ [quote]

def literal (text : Text) : Text := quote :: literalTail text

def arrayTail : List Text → Text
  | [] => [closeBracket]
  | [item] => literal item ++ [closeBracket]
  | item :: rest => literal item ++ comma :: arrayTail rest

/-- `to_json().stringify()` of an array of strings. -/
def stringify (items : List Text) : Text := openBracket :: arrayTail items

example : stringify [Text.ofAscii "a", Text.ofAscii "b\""] =
    Text.ofAscii "[\"a\",\"b\\\"\"]" := by decide

mutual

/-- `stringify`. -/
def render : Json → Text
  | .null => Text.ofAscii "null"
  | .bool true => Text.ofAscii "true"
  | .bool false => Text.ofAscii "false"
  | .number text => text
  | .string text => literal text
  | .array items => openBracket :: renderItems items
  | .object fields => openBrace :: renderFields fields

def renderItems : List Json → Text
  | [] => [closeBracket]
  | [item] => render item ++ [closeBracket]
  | item :: rest => render item ++ comma :: renderItems rest

def renderFields : List (Text × Json) → Text
  | [] => [closeBrace]
  | [entry] => renderEntry entry ++ [closeBrace]
  | entry :: rest => renderEntry entry ++ comma :: renderFields rest

def renderEntry : Text × Json → Text
  | (name, value) => literal name ++ Text.colon :: render value

end

def hexValue? (digit : UInt16) : Option Nat :=
  if 48 ≤ digit ∧ digit ≤ 57 then some (digit.toNat - 48)
  else if 65 ≤ digit ∧ digit ≤ 70 then some (digit.toNat - 55)
  else if 97 ≤ digit ∧ digit ≤ 102 then some (digit.toNat - 87)
  else none

/-- The code unit that a one-letter escape stands for. -/
def unescape? (code : UInt16) : Option UInt16 :=
  if code = quote ∨ code = backslash ∨ code = 47 then some code
  else if code = 98 then some 8
  else if code = 102 then some 12
  else if code = 110 then some 10
  else if code = 114 then some 13
  else if code = 116 then some 9
  else none

/-- The first unit of a string literal. -/
def readUnit : Text → Option (UInt16 × Text)
  | [] => none
  | first :: rest =>
      if first = backslash then
        match rest with
        | 117 :: first :: second :: third :: fourth :: rest => do
            let first ← hexValue? first
            let second ← hexValue? second
            let third ← hexValue? third
            let fourth ← hexValue? fourth
            some (UInt16.ofNat (4096 * first + 256 * second + 16 * third + fourth), rest)
        | code :: rest => (unescape? code).map fun unit => (unit, rest)
        | [] => none
      else if first < 32 then none
      else some (first, rest)

private theorem readUnit_control (rest : Text) {value : Nat} (hvalue : value < 32) :
    readUnit (escapeUnit (UInt16.ofNat value) ++ rest) =
      some (UInt16.ofNat value, rest) := by
  interval_cases value <;> rfl

theorem readUnit_escapeUnit (unit : UInt16) (rest : Text) :
    readUnit (escapeUnit unit ++ rest) = some (unit, rest) := by
  by_cases hcontrol : unit.toNat < 32
  · have hunit := readUnit_control rest hcontrol
    rwa [UInt16.ofNat_toNat] at hunit
  · have hlarge : ∀ value : UInt16, value.toNat < 32 → unit ≠ value := by
      rintro value hsmall rfl
      exact hcontrol hsmall
    by_cases hquote : unit = quote
    · subst hquote
      rfl
    · by_cases hbackslash : unit = backslash
      · subst hbackslash
        rfl
      · have hle : ¬ unit < 32 := by
          rw [UInt16.lt_iff_toNat_lt]
          exact hcontrol
        have hplain : escapeUnit unit = [unit] := by
          simp only [escapeUnit, hquote, hbackslash, hle, if_false,
            hlarge 10 (by decide), hlarge 13 (by decide), hlarge 8 (by decide),
            hlarge 9 (by decide), hlarge 12 (by decide)]
        simp [hplain, readUnit, hbackslash, hle]

theorem head_escapeUnit (unit : UInt16) (rest : Text) :
    (escapeUnit unit ++ rest).head? ≠ some quote := by
  intro hhead
  have hread := readUnit_escapeUnit unit rest
  cases htext : escapeUnit unit ++ rest with
  | nil => simp [htext] at hhead
  | cons first others =>
      rw [htext] at hhead hread
      obtain rfl : first = quote := by simpa using hhead
      have hunit : unit = quote := by
        have hpair : some (quote, others) = some (unit, rest) := hread
        simp only [Option.some.injEq, Prod.mk.injEq] at hpair
        exact hpair.1.symm
      subst hunit
      simp [escapeUnit, quote, backslash] at htext

theorem literalTail_cons (unit : UInt16) (text rest : Text) :
    literalTail (unit :: text) ++ rest =
      escapeUnit unit ++ (literalTail text ++ rest) := by
  simp [literalTail]

theorem literalTail_inj {first second rest rest' : Text}
    (hequal : literalTail first ++ rest = literalTail second ++ rest') :
    first = second ∧ rest = rest' := by
  induction first generalizing second with
  | nil =>
      cases second with
      | nil => simpa [literalTail] using hequal
      | cons unit others =>
          rw [literalTail_cons] at hequal
          have hhead := head_escapeUnit unit (literalTail others ++ rest')
          rw [← hequal] at hhead
          exact absurd rfl hhead
  | cons unit others ih =>
      rw [literalTail_cons] at hequal
      cases second with
      | nil =>
          have hhead := head_escapeUnit unit (literalTail others ++ rest)
          rw [hequal] at hhead
          exact absurd rfl hhead
      | cons unit' others' =>
          rw [literalTail_cons] at hequal
          have hread := readUnit_escapeUnit unit (literalTail others ++ rest)
          rw [hequal, readUnit_escapeUnit] at hread
          simp only [Option.some.injEq, Prod.mk.injEq] at hread
          obtain ⟨rfl, htail⟩ := hread
          obtain ⟨rfl, rfl⟩ := ih htail.symm
          exact ⟨rfl, rfl⟩

theorem arrayTail_inj {first second : List Text} {rest rest' : Text}
    (hequal : arrayTail first ++ rest = arrayTail second ++ rest') :
    first = second ∧ rest = rest' := by
  induction first using arrayTail.induct generalizing second with
  | case1 =>
      cases second with
      | nil => simpa [arrayTail] using hequal
      | cons item others => cases others <;> simp [arrayTail, literal, quote,
          closeBracket] at hequal
  | case2 item =>
      cases second with
      | nil => simp [arrayTail, literal, quote, closeBracket] at hequal
      | cons item' others' =>
          cases others' with
          | nil =>
              simp only [arrayTail, literal, List.cons_append, List.append_assoc,
                List.cons.injEq, true_and] at hequal
              obtain ⟨rfl, htail⟩ := literalTail_inj hequal
              simpa using htail
          | cons _ _ =>
              simp only [arrayTail, literal, List.cons_append, List.append_assoc,
                List.cons.injEq, true_and] at hequal
              obtain ⟨-, htail⟩ := literalTail_inj hequal
              simp [closeBracket, comma] at htail
  | case3 item others hne ih =>
      cases second with
      | nil => simp [arrayTail, literal, quote, closeBracket] at hequal
      | cons item' others' =>
          cases others' with
          | nil =>
              simp only [arrayTail, literal, List.cons_append, List.append_assoc,
                List.cons.injEq, true_and] at hequal
              obtain ⟨-, htail⟩ := literalTail_inj hequal
              simp [closeBracket, comma] at htail
          | cons next' rest' =>
              simp only [arrayTail, literal, List.cons_append, List.append_assoc,
                List.cons.injEq, true_and] at hequal
              obtain ⟨rfl, htail⟩ := literalTail_inj hequal
              simp only [List.cons.injEq, true_and] at htail
              obtain ⟨rfl, rfl⟩ := ih htail
              exact ⟨rfl, rfl⟩

theorem stringify_append_inj {first second : List Text} {rest rest' : Text}
    (hequal : stringify first ++ rest = stringify second ++ rest') :
    first = second ∧ rest = rest' := by
  simp only [stringify, List.cons_append, List.cons.injEq, true_and] at hequal
  exact arrayTail_inj hequal

end Json

/-- `hex_encode`. -/
def Bytes.hexEncode (bytes : Bytes) : Text :=
  bytes.flatMap fun byte =>
    [Json.hexDigit (byte.toNat / 16), Json.hexDigit (byte.toNat % 16)]

end MoonBoofuzz
