import Mathlib.Algebra.Group.Int.Defs
import Mathlib.Algebra.Group.Nat.Defs
import Mathlib.Data.Int.Order.Basic
import MoonBoofuzz.Data.Text

namespace MoonBoofuzz

/-! Two's complement arithmetic on integers, and byte-wise integer encodings. -/

def wrap32 (value : Int) : Int := Int.bmod value (2 ^ 32)

def wrap64 (value : Int) : Int := Int.bmod value (2 ^ 64)

theorem wrap32_eq_self {value : Int} (hlower : -2147483648 ≤ value)
    (hupper : value < 2147483648) : wrap32 value = value := by
  unfold wrap32
  rw [Int.bmod_eq_of_le_mul_two] <;> omega

theorem wrap64_eq_self {value : Int} (hlower : -9223372036854775808 ≤ value)
    (hupper : value < 9223372036854775808) : wrap64 value = value := by
  unfold wrap64
  rw [Int.bmod_eq_of_le_mul_two] <;> omega

theorem toInt_sub_ofInt {value : Int32} {count : Int} (hcount : 0 ≤ count)
    (hle : count ≤ value.toInt) :
    (value - Int32.ofInt count).toInt = value.toInt - count := by
  have hupper := value.toInt_lt
  rw [Int32.toInt_sub, Int32.toInt_ofInt_of_le (by omega) (by omega)]
  exact wrap32_eq_self (by omega) (by omega)

theorem wrap32_le {value : Int} (hlower : 0 ≤ value) : wrap32 value ≤ value := by
  unfold wrap32
  rw [Int.bmod_def]
  split <;> omega

theorem toInt_add_ofInt {value : Int32} {position : Int}
    (hvalue : value.toInt = wrap32 position) (count : Int) :
    (value + Int32.ofInt count).toInt = wrap32 (position + count) := by
  have hsize : Int32.size = 2 ^ 32 := rfl
  rw [Int32.toInt_add, Int32.toInt_ofInt, hvalue, hsize]
  unfold wrap32
  rw [Int.bmod_add_bmod, Int.add_bmod_bmod]

theorem toInt_add_one {value : Int32} {position : Int}
    (hvalue : value.toInt = wrap32 position) :
    (value + 1).toInt = wrap32 (position + 1) :=
  toInt_add_ofInt hvalue 1

theorem toInt_sub_one {value : Int32} {position : Int}
    (hvalue : value.toInt = wrap32 position) :
    (value - 1).toInt = wrap32 (position - 1) := by
  have hone : (1 : Int32).toInt = 1 := by decide
  rw [Int32.toInt_sub, hone, hvalue]
  unfold wrap32
  rw [Int.bmod_sub_bmod]

@[simp] theorem wrap64_wrap64 (value : Int) :
    wrap64 (wrap64 value) = wrap64 value := by
  unfold wrap64
  exact Int.bmod_bmod

/-- Sixty-four bit sums and products agree with the exact ones up to one
reduction at the end. -/
theorem wrap64_add (left right : Int) :
    wrap64 (wrap64 left + wrap64 right) = wrap64 (left + right) := by
  unfold wrap64
  rw [Int.bmod_add_bmod, Int.add_bmod_bmod]

theorem wrap64_mul (left right : Int) :
    wrap64 (wrap64 left * wrap64 right) = wrap64 (left * right) := by
  unfold wrap64
  rw [Int.bmod_mul_bmod, Int.mul_bmod_bmod]

end MoonBoofuzz
