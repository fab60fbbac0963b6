import MoonBoofuzz.Data.Accumulate

namespace MoonBoofuzz

open Text

namespace Web

/-! Integers typed into the converter's form. -/

def optionDigit (value : Int32) (unit : UInt16) : Option Int32 :=
  if IsDigit unit then
    let value := nextDigit value unit
    if value ≤ 2147483647 then some value else none
  else none

def optionInt (text : Text) : Option Int32 :=
  if text = [] then none else text.foldlM optionDigit 0

/-- No value of thirty-two bits is beyond the bound that the step compares it with. -/
theorem le_bound (value : Int32) : value ≤ 2147483647 := by
  have hbound : (2147483647 : Int32).toInt = 2147483647 := by decide +kernel
  have hlt := value.toInt_lt
  rw [Int32.le_iff_toInt_le, hbound]
  omega

theorem optionDigit_digit (value : Nat) {unit : UInt16} (hdigit : IsDigit unit) :
    optionDigit (Int32.ofNat value) unit =
      some (Int32.ofNat (value * 10 + (unit.toNat - 48))) := by
  rw [optionDigit, if_pos hdigit, nextDigit_ofNat value hdigit]
  exact if_pos (le_bound _)

theorem foldlM_optionDigit (value : Nat) {text : Text} (hdigits : ∀ unit ∈ text, IsDigit unit) :
    text.foldlM optionDigit (Int32.ofNat value) = some (Int32.ofNat (digitsFrom value text)) := by
  induction text generalizing value with
  | nil => rfl
  | cons unit rest ih =>
      rw [List.foldlM_cons, optionDigit_digit value (hdigits unit (by simp)), digitsFrom_cons]
      exact ih _ fun unit hmem => hdigits unit (by simp [hmem])

theorem foldlM_optionDigit_eq_none (value : Nat) {text : Text}
    (hother : ¬∀ unit ∈ text, IsDigit unit) :
    text.foldlM optionDigit (Int32.ofNat value) = none := by
  induction text generalizing value with
  | nil => exact absurd (by simp) hother
  | cons unit rest ih =>
      rw [List.foldlM_cons]
      by_cases hdigit : IsDigit unit
      · rw [optionDigit_digit value hdigit]
        exact ih _ fun hrest => hother (List.forall_mem_cons.mpr ⟨hdigit, hrest⟩)
      · rw [optionDigit, if_neg hdigit]
        rfl

/-- The accumulator wraps around and nothing else is refused. -/
theorem optionInt_eq (text : Text) :
    optionInt text = (readNatural text).map Int32.ofNat := by
  rw [optionInt]
  split
  · rename_i hempty
    rw [hempty]
    rfl
  · rename_i hfilled
    by_cases hdigits : ∀ unit ∈ text, IsDigit unit
    · rw [readNatural_eq_some.mpr ⟨hfilled, hdigits, rfl⟩]
      exact foldlM_optionDigit 0 hdigits
    · have hnone : readNatural text = none := by
        rw [Option.eq_none_iff_forall_ne_some]
        intro value hread
        exact hdigits (readNatural_eq_some.mp hread).2.1
      rw [hnone]
      exact foldlM_optionDigit_eq_none 0 hdigits

/-- The text is read as the number it stands for, if that fits thirty-two bits. -/
def OptionExact (text : Text) : Prop :=
  ∀ number, optionInt text = some number ↔
    0 ≤ number.toInt ∧ readNatural text = some number.toInt.toNat

/-- Exactly the numbers that fit are read exactly. -/
theorem optionInt_exact_iff (text : Text) :
    OptionExact text ↔ ∀ value, readNatural text = some value → value ≤ 2147483647 := by
  constructor
  · intro hexact value hread
    have hsome : optionInt text = some (Int32.ofNat value) := by
      rw [optionInt_eq, hread]
      rfl
    obtain ⟨hpositive, hsame⟩ := (hexact _).mp hsome
    have hupper := (Int32.ofNat value).toInt_lt
    rw [hread, Option.some.injEq] at hsame
    omega
  · intro hsmall number
    rw [optionInt_eq, Option.map_eq_some_iff]
    constructor
    · rintro ⟨value, hread, hnumber⟩
      have hfits := hsmall value hread
      have hvalue : number.toInt = value := by
        rw [← hnumber, Int32.toInt_ofNat_of_lt (by omega)]
      exact ⟨by omega, by rw [hread, hvalue, Int.toNat_natCast]⟩
    · rintro ⟨hpositive, hread⟩
      refine ⟨_, hread, ?_⟩
      rw [← Int32.ofInt_eq_ofNat, Int.toNat_of_nonneg hpositive, Int32.ofInt_toInt]

theorem optionInt_wraps :
    optionInt (ofAscii "4294967297") = some 1 ∧ ¬OptionExact (ofAscii "4294967297") := by
  have hread : readNatural (ofAscii "4294967297") = some 4294967297 := by decide
  have hone : optionInt (ofAscii "4294967297") = some 1 := by decide
  refine ⟨hone, fun hexact => ?_⟩
  have hsame := ((hexact 1).mp hone).2
  rw [hread] at hsame
  exact absurd hsame (by decide)

end Web

end MoonBoofuzz
