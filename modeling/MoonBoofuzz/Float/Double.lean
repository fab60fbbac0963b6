import Mathlib.Algebra.Order.Field.Rat
import Mathlib.Data.Nat.Bitwise
import Mathlib.Tactic.Linarith
import Mathlib.Tactic.Ring

namespace MoonBoofuzz

/-! Binary64 numbers are given by their bits. -/

abbrev Double := UInt64

namespace Double

def negative (bits : Double) : Prop := 2 ^ 63 ≤ bits.toNat

instance (bits : Double) : Decidable bits.negative :=
  inferInstanceAs (Decidable (2 ^ 63 ≤ bits.toNat))

def exponent (bits : Double) : Nat := bits.toNat / 2 ^ 52 % 2 ^ 11

def mantissa (bits : Double) : Nat := bits.toNat % 2 ^ 52

def Finite (bits : Double) : Prop := bits.exponent ≠ 0x7ff

instance (bits : Double) : Decidable bits.Finite :=
  inferInstanceAs (Decidable (bits.exponent ≠ 0x7ff))

/-- The integer `m` of the magnitude `m * 2 ^ k`. -/
def significand (bits : Double) : Nat :=
  if bits.exponent = 0 then bits.mantissa else bits.mantissa + 2 ^ 52

/-- The exponent `k` of the magnitude `m * 2 ^ k`. -/
def scale (bits : Double) : Int :=
  if bits.exponent = 0 then -1074 else (bits.exponent : Int) - 1075

def magnitude (bits : Double) : ℚ := bits.significand * (2 : ℚ) ^ bits.scale

theorem mantissa_lt (bits : Double) : bits.mantissa < 2 ^ 52 := Nat.mod_lt _ (by decide)

theorem toNat_exponent (bits : Double) :
    ((bits >>> 52) &&& 0x7ff).toNat = bits.exponent := by
  rw [UInt64.toNat_and, UInt64.toNat_shiftRight, Nat.shiftRight_eq_div_pow]
  exact Nat.and_two_pow_sub_one_eq_mod _ 11

theorem toNat_mantissa (bits : Double) :
    (bits &&& 0xfffffffffffff).toNat = bits.mantissa := by
  rw [UInt64.toNat_and]
  exact Nat.and_two_pow_sub_one_eq_mod _ 52

theorem toNat_sign (bits : Double) :
    (bits >>> 63).toNat = if bits.negative then 1 else 0 := by
  have hbound := bits.toNat_lt
  rw [UInt64.toNat_shiftRight, Nat.shiftRight_eq_div_pow]
  change bits.toNat / 2 ^ 63 = _
  by_cases hnegative : bits.negative
  · rw [if_pos hnegative]
    unfold negative at hnegative
    omega
  · rw [if_neg hnegative]
    unfold negative at hnegative
    omega

theorem sign_iff (bits : Double) : bits >>> 63 = 1 ↔ bits.negative := by
  rw [← UInt64.toNat_inj, toNat_sign]
  split
  · rename_i hnegative
    exact iff_of_true rfl hnegative
  · rename_i hpositive
    exact iff_of_false Nat.zero_ne_one hpositive

theorem exponent_iff (bits : Double) :
    (bits >>> 52) &&& 0x7ff = 0x7ff ↔ bits.exponent = 0x7ff := by
  rw [← UInt64.toNat_inj, toNat_exponent]
  rfl

theorem toNat_full (bits : Double) :
    ((bits &&& 0xfffffffffffff) ||| 0x10000000000000).toNat = bits.mantissa + 2 ^ 52 := by
  rw [UInt64.toNat_or, toNat_mantissa, Nat.or_comm, Nat.add_comm]
  exact (Nat.two_pow_add_eq_or_of_lt bits.mantissa_lt 1).symm

theorem exponent_eq (bits : Double) : bits.exponent = bits.toNat % 2 ^ 63 / 2 ^ 52 := by
  unfold exponent
  omega

theorem mantissa_eq (bits : Double) : bits.mantissa = bits.toNat % 2 ^ 63 % 2 ^ 52 := by
  unfold mantissa
  omega

theorem significand_eq_zero (bits : Double) :
    bits.significand = 0 ↔ bits.toNat % 2 ^ 63 = 0 := by
  rw [significand, exponent_eq, mantissa_eq]
  split
  · omega
  · omega

theorem shifted_iff (bits : Double) : bits <<< 1 = 0 ↔ bits.significand = 0 := by
  rw [significand_eq_zero, ← UInt64.toNat_inj, UInt64.toNat_shiftLeft]
  change bits.toNat <<< 1 % 2 ^ 64 = 0 ↔ _
  rw [Nat.shiftLeft_eq]
  omega

theorem toNat_negated (bits : Double) :
    (bits ^^^ 0x8000000000000000).toNat % 2 ^ 63 = bits.toNat % 2 ^ 63 := by
  rw [UInt64.toNat_xor, Nat.xor_mod_two_pow]
  exact Nat.xor_zero _

end Double

end MoonBoofuzz
