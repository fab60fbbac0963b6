import Mathlib.Algebra.Group.Nat.Defs
import MoonBoofuzz.Data.Digits

namespace MoonBoofuzz

namespace Text

/-! Decimal digits of a fixed number. -/

def zero : UInt16 := 48

/-- The last digits of a number, zeros included. -/
def fixed : Nat → Nat → Text
  | 0, _ => []
  | count + 1, value => fixed count (value / 10) ++ decimal (value % 10)

def padStart (width : Nat) (text : Text) : Text :=
  List.replicate (width - text.length) zero ++ text

theorem length_decimal_le {value count : Nat} (hpositive : 0 < count) :
    (decimal value).length ≤ count ↔ value < 10 ^ count := by
  rw [decimal, List.length_map]
  exact Nat.length_toDigits_le_iff (by decide) hpositive

theorem length_decimal_pos (value : Nat) : 0 < (decimal value).length := by
  rw [decimal, List.length_map]
  exact Nat.length_toDigits_pos

theorem length_decimal_digit {value : Nat} (hdigit : value < 10) :
    (decimal value).length = 1 := by
  have hle := (@length_decimal_le value 1 (by decide)).mpr hdigit
  have hpos := length_decimal_pos value
  omega

@[simp] theorem length_fixed : ∀ count value : Nat, (fixed count value).length = count := by
  intro count
  induction count with
  | zero => exact fun _ => rfl
  | succ count ih =>
      intro value
      rw [fixed, List.length_append, ih, length_decimal_digit (Nat.mod_lt _ (by decide))]

theorem fixed_zero : ∀ count : Nat, fixed count 0 = List.replicate count zero := by
  intro count
  induction count with
  | zero => rfl
  | succ count ih =>
      rw [fixed, Nat.zero_div, ih, List.replicate_succ']
      rfl

theorem fixed_succ_of_lt : ∀ {count value : Nat}, value < 10 ^ count →
    fixed (count + 1) value = decimal 0 ++ fixed count value := by
  intro count
  induction count with
  | zero =>
      intro value hvalue
      obtain rfl : value = 0 := by omega
      rfl
  | succ count ih =>
      intro value hvalue
      rw [fixed, ih (by rw [Nat.pow_succ] at hvalue; omega), List.append_assoc, fixed]

theorem decimal_append {high digit : Nat} (hhigh : 0 < high) (hdigit : digit < 10) :
    decimal (10 * high + digit) = decimal high ++ decimal digit := by
  rw [decimal, decimal, decimal, ← List.map_append,
    Nat.toDigits_append_toDigits (by decide) hhigh hdigit]

theorem decimal_split {high : Nat} (hhigh : 0 < high) : ∀ {count low : Nat},
    low < 10 ^ count → decimal (high * 10 ^ count + low) = decimal high ++ fixed count low := by
  intro count
  induction count with
  | zero =>
      intro low hlow
      obtain rfl : low = 0 := by omega
      rw [Nat.pow_zero, Nat.mul_one, Nat.add_zero, fixed, List.append_nil]
  | succ count ih =>
      intro low hlow
      have hsplit : high * 10 ^ (count + 1) + low =
          10 * (high * 10 ^ count + low / 10) + low % 10 := by
        rw [Nat.pow_succ, ← Nat.mul_assoc]
        omega
      have hpositive : 0 < high * 10 ^ count := Nat.mul_pos hhigh (Nat.pow_pos (by decide))
      rw [hsplit, decimal_append (by omega) (Nat.mod_lt _ (by decide)),
        ih (by rw [Nat.pow_succ] at hlow; omega), List.append_assoc, fixed]

theorem padStart_decimal : ∀ {count value : Nat}, value < 10 ^ (count + 1) →
    padStart (count + 1) (decimal value) = fixed (count + 1) value := by
  intro count
  induction count with
  | zero =>
      intro value hvalue
      have hdigit : value % 10 = value := Nat.mod_eq_of_lt hvalue
      rw [padStart, length_decimal_digit hvalue, fixed, hdigit]
      rfl
  | succ count ih =>
      intro value hvalue
      rw [fixed]
      by_cases hdigit : value < 10
      · rw [Nat.div_eq_of_lt hdigit, fixed_zero, Nat.mod_eq_of_lt hdigit, padStart,
          length_decimal_digit hdigit]
        rfl
      · have hsplit : decimal value = decimal (value / 10) ++ decimal (value % 10) := by
          rw [← decimal_append (by omega) (Nat.mod_lt _ (by decide)), Nat.div_add_mod]
        have hlength := length_decimal_digit (Nat.mod_lt value (by decide : 0 < 10))
        rw [← ih (by rw [Nat.pow_succ] at hvalue; omega), padStart, padStart, hsplit,
          List.length_append, hlength, Nat.add_sub_add_right, List.append_assoc]

theorem decimal_head {value : Nat} (hhead : (decimal value).head? = some zero) : value = 0 := by
  induction value using Nat.strong_induction_on with
  | _ value ih =>
      by_cases hdigit : value < 10
      · have hdigits : ∀ digit < 10, (decimal digit).head? = some zero → digit = 0 := by decide
        exact hdigits value hdigit hhead
      · have hsplit : decimal value = decimal (value / 10) ++ decimal (value % 10) := by
          rw [← decimal_append (by omega) (Nat.mod_lt _ (by decide)), Nat.div_add_mod]
        rw [hsplit, List.head?_append_of_ne_nil _ (decimal_ne_nil _)] at hhead
        have hhigh := ih (value / 10) (by omega) hhead
        omega

theorem readNatural_append_digit {text : Text} {high digit : Nat}
    (hread : readNatural text = some high) (hdigit : digit < 10) :
    readNatural (text ++ decimal digit) = some (10 * high + digit) := by
  rw [readNatural] at hread
  split at hread
  · rename_i hdigits
    have hunits : ∀ unit ∈ text ++ decimal digit, 48 ≤ unit.toNat ∧ unit.toNat ≤ 57 := by
      intro unit hmem
      rcases List.mem_append.mp hmem with hmem | hmem
      · exact hdigits.2 unit hmem
      · exact mem_decimal hmem
    have hlength : (Nat.toDigits 10 digit).length = 1 := by
      rw [← length_decimal_digit hdigit, decimal, List.length_map]
    rw [readNatural, if_pos ⟨List.append_ne_nil_of_left_ne_nil hdigits.1 _, hunits⟩,
      List.map_append, Nat.ofDigitChars_append, Option.some.inj hread, decimal_characters,
      Nat.ofDigitChars_eq_ofDigitChars_zero, hlength,
      Nat.ofDigitChars_toDigits (by decide) (by decide), Nat.pow_one]
  · cases hread

theorem readNatural_append_fixed {text : Text} {high : Nat} (hread : readNatural text = some high) :
    ∀ {count low : Nat}, low < 10 ^ count →
      readNatural (text ++ fixed count low) = some (high * 10 ^ count + low) := by
  intro count
  induction count with
  | zero =>
      intro low hlow
      obtain rfl : low = 0 := by omega
      rw [fixed, List.append_nil, hread, Nat.pow_zero, Nat.mul_one, Nat.add_zero]
  | succ count ih =>
      intro low hlow
      have hsplit : 10 * (high * 10 ^ count + low / 10) + low % 10 =
          high * 10 ^ (count + 1) + low := by
        rw [Nat.pow_succ, ← Nat.mul_assoc]
        omega
      rw [fixed, ← List.append_assoc, readNatural_append_digit
        (ih (by rw [Nat.pow_succ] at hlow; omega)) (Nat.mod_lt _ (by decide)), hsplit]

end Text

end MoonBoofuzz
