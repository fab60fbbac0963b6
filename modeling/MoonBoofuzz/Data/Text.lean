import Mathlib.Data.List.Infix

namespace MoonBoofuzz

/-! Strings are sequences of UTF-16 code units, byte strings sequences of bytes. -/

abbrev Text := List UInt16

abbrev Bytes := List UInt8

instance text_lawfulBEq : LawfulBEq Text := inferInstance

namespace Text

def ofAscii (literal : String) : Text :=
  literal.toList.map fun character => UInt16.ofNat character.toNat

theorem ofAscii_ofList (characters : List Char) : ofAscii (String.ofList characters) =
    characters.map fun character => UInt16.ofNat character.toNat := by
  rw [ofAscii, String.toList_ofList]

def dot : UInt16 := 46

def slash : UInt16 := 47

def colon : UInt16 := 58

def plus : UInt16 := 43

def decimal (value : Nat) : Text :=
  (Nat.toDigits 10 value).map fun digit => UInt16.ofNat digit.toNat

def integer (value : Int) : Text :=
  if value < 0 then ofAscii "-" ++ decimal value.natAbs else decimal value.natAbs

def contains (whole part : Text) : Bool := decide (part <:+: whole)

def hasPrefix (whole part : Text) : Bool := decide (part <+: whole)

def join (separator : Text) : List Text → Text
  | [] => []
  | [item] => item
  | item :: rest => item ++ separator ++ join separator rest

@[simp] theorem contains_iff {whole part : Text} :
    whole.contains part = true ↔ part <:+: whole := by
  simp [contains]

@[simp] theorem hasPrefix_iff {whole part : Text} :
    whole.hasPrefix part = true ↔ part <+: whole := by
  simp [hasPrefix]

end Text

namespace Bytes

def zeros (count : Nat) : Bytes := List.replicate count 0

/-- `Bytes::repeat`; a count below one gives the empty string. -/
def repeatTimes (bytes : Bytes) (count : Int) : Bytes :=
  (List.replicate count.toNat bytes).flatten

@[simp] theorem length_zeros (count : Nat) : (zeros count).length = count := by
  simp [zeros]

theorem length_repeatTimes (bytes : Bytes) (count : Nat) :
    (bytes.repeatTimes count).length = bytes.length * count := by
  simp [repeatTimes, Nat.mul_comm]

def decimal (value : Nat) : Bytes :=
  (Nat.toDigits 10 value).map fun digit => UInt8.ofNat digit.toNat

def decimalValue (bytes : Bytes) : Nat :=
  bytes.foldl (fun value byte => 10 * value + (byte.toNat - 48)) 0

private theorem foldl_decimal_digits :
    ∀ (digits : List Char) (value : Nat),
      (∀ digit ∈ digits, digit.isDigit = true) →
      (digits.map fun digit => UInt8.ofNat digit.toNat).foldl
          (fun value byte => 10 * value + (byte.toNat - 48)) value =
        Nat.ofDigitChars 10 digits value
  | [], _, _ => rfl
  | digit :: rest, value, hdigits => by
      have hdigit := hdigits digit (by simp)
      have hsmall : digit.toNat < 256 := by
        simp only [Char.isDigit, Bool.and_eq_true, decide_eq_true_eq] at hdigit
        have hupper : digit.val.toNat ≤ 57 := hdigit.2
        exact Nat.lt_of_le_of_lt hupper (by decide)
      have hbyte : (UInt8.ofNat digit.toNat).toNat = digit.toNat := by
        simp [Nat.mod_eq_of_lt hsmall]
      simp only [List.map_cons, List.foldl_cons]
      rw [foldl_decimal_digits rest _ fun candidate hmem =>
        hdigits candidate (by simp [hmem]), hbyte]
      rfl

@[simp] theorem decimalValue_decimal (value : Nat) :
    decimalValue (decimal value) = value := by
  unfold decimalValue decimal
  rw [foldl_decimal_digits]
  · exact Nat.ofDigitChars_toDigits (by decide) (by decide)
  · intro digit hmem
    exact Nat.isDigit_of_mem_toDigits (by decide) (by decide) hmem

end Bytes

end MoonBoofuzz
