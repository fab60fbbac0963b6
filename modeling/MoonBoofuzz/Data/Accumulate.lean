import MoonBoofuzz.Data.Digits
import MoonBoofuzz.Data.Eval

namespace MoonBoofuzz

namespace Text

/-! The number that digits add up to, one digit at a time. -/

def IsDigit (unit : UInt16) : Prop :=
  48 ≤ unit.toNat ∧ unit.toNat ≤ 57

instance (unit : UInt16) : Decidable (IsDigit unit) :=
  inferInstanceAs (Decidable (48 ≤ unit.toNat ∧ unit.toNat ≤ 57))

/-- The number reached from another one by reading digits on. -/
def digitsFrom (value : Nat) (text : Text) : Nat :=
  text.foldl (fun value unit => value * 10 + (unit.toNat - 48)) value

@[simp] theorem digitsFrom_nil (value : Nat) : digitsFrom value [] = value := rfl

@[simp] theorem digitsFrom_cons (value : Nat) (unit : UInt16) (text : Text) :
    digitsFrom value (unit :: text) = digitsFrom (value * 10 + (unit.toNat - 48)) text :=
  List.foldl_cons ..

theorem le_digitsFrom (value : Nat) (text : Text) : value ≤ digitsFrom value text := by
  induction text generalizing value with
  | nil => exact le_refl value
  | cons unit rest ih =>
      rw [digitsFrom_cons]
      exact le_trans (by omega) (ih _)

theorem ofDigitChars_digits (value : Nat) {text : Text} (hdigits : ∀ unit ∈ text, IsDigit unit) :
    Nat.ofDigitChars 10 (text.map fun unit => Char.ofNat unit.toNat) value =
      digitsFrom value text := by
  induction text generalizing value with
  | nil => rfl
  | cons unit rest ih =>
      have hunit := hdigits unit (by simp)
      rw [List.map_cons, Nat.ofDigitChars_cons,
        toNat_ofNat_unit (by have := hunit.2; omega), digitsFrom_cons,
        ih _ fun unit hmem => hdigits unit (by simp [hmem]), Nat.mul_comm 10]
      rfl

theorem readNatural_eq_some {text : Text} {value : Nat} :
    readNatural text = some value ↔
      text ≠ [] ∧ (∀ unit ∈ text, IsDigit unit) ∧ digitsFrom 0 text = value := by
  unfold readNatural
  split
  · rename_i hdigits
    rw [ofDigitChars_digits 0 hdigits.2, Option.some.injEq]
    exact ⟨fun hvalue => ⟨hdigits.1, hdigits.2, hvalue⟩, fun hvalue => hvalue.2.2⟩
  · rename_i hdigits
    exact ⟨fun hnone => by simp at hnone, fun hread => absurd ⟨hread.1, hread.2.1⟩ hdigits⟩

/-- The running value after one more digit, on thirty-two bits. -/
def nextDigit (value : Int32) (unit : UInt16) : Int32 :=
  value * 10 + (Int32.ofNat unit.toNat - 48)

theorem nextDigit_ofNat (value : Nat) {unit : UInt16} (hdigit : IsDigit unit) :
    nextDigit (Int32.ofNat value) unit = Int32.ofNat (value * 10 + (unit.toNat - 48)) := by
  rw [Int32.ofNat_add, Int32.ofNat_mul, Int32.ofNat_sub _ _ hdigit.1]
  rfl

section

variable {α ε : Type} {step : α → UInt16 → Except ε α} {count : Nat → α} {bound : Nat}

/-- A step that counts the digits it reads as long as the number stays within a bound, and
refuses everything else. -/
structure Counts (step : α → UInt16 → Except ε α) (count : Nat → α) (bound : Nat) : Prop where
  within : ∀ value unit, IsDigit unit → value * 10 + (unit.toNat - 48) ≤ bound →
    step (count value) unit = .ok (count (value * 10 + (unit.toNat - 48)))
  refused : ∀ value unit, value ≤ bound →
    (IsDigit unit → bound < value * 10 + (unit.toNat - 48)) →
    ∃ reason, step (count value) unit = .error reason

theorem Counts.accepted (hcounts : Counts step count bound) {text : Text} {value : Nat}
    (hdigits : ∀ unit ∈ text, IsDigit unit) (hbound : digitsFrom value text ≤ bound) :
    text.foldlM step (count value) = .ok (count (digitsFrom value text)) := by
  induction text generalizing value with
  | nil => rfl
  | cons unit rest ih =>
      rw [digitsFrom_cons] at hbound ⊢
      have hle := le_digitsFrom (value * 10 + (unit.toNat - 48)) rest
      rw [List.foldlM_cons,
        hcounts.within value unit (hdigits unit (by simp)) (le_trans hle hbound)]
      exact ih (fun unit hmem => hdigits unit (by simp [hmem])) hbound

/-- Any other text is refused at some unit. -/
theorem Counts.rejected (hcounts : Counts step count bound) {text : Text} {value : Nat}
    (hvalue : value ≤ bound)
    (htext : (∀ unit ∈ text, IsDigit unit) → bound < digitsFrom value text) :
    ∃ reason, text.foldlM step (count value) = .error reason := by
  induction text generalizing value with
  | nil => exact absurd (htext (by simp)) (by rw [digitsFrom_nil]; omega)
  | cons unit rest ih =>
      rw [List.foldlM_cons]
      by_cases hunit : IsDigit unit ∧ value * 10 + (unit.toNat - 48) ≤ bound
      · rw [hcounts.within value unit hunit.1 hunit.2]
        refine ih hunit.2 fun hrest => ?_
        have hover := htext fun other hmem => (List.mem_cons.mp hmem).elim
          (fun hsame => hsame ▸ hunit.1) (hrest other)
        rwa [digitsFrom_cons] at hover
      · have hrefused : IsDigit unit → bound < value * 10 + (unit.toNat - 48) := by
          intro hdigit
          exact Nat.lt_of_not_le fun hle => hunit ⟨hdigit, hle⟩
        obtain ⟨reason, hreason⟩ := hcounts.refused value unit hvalue hrefused
        exact ⟨reason, by rw [hreason]; rfl⟩

/-- What the accumulator ends with. -/
theorem Counts.result (hcounts : Counts step count bound) {text : Text} {result : α}
    (hresult : text.foldlM step (count 0) = .ok result) :
    (∀ unit ∈ text, IsDigit unit) ∧ digitsFrom 0 text ≤ bound ∧
      result = count (digitsFrom 0 text) := by
  by_cases htext : (∀ unit ∈ text, IsDigit unit) ∧ digitsFrom 0 text ≤ bound
  · rw [hcounts.accepted htext.1 htext.2, Except.ok.injEq] at hresult
    exact ⟨htext.1, htext.2, hresult.symm⟩
  · obtain ⟨reason, hreason⟩ := hcounts.rejected (Nat.zero_le bound) fun hdigits =>
      Nat.lt_of_not_le fun hle => htext ⟨hdigits, hle⟩
    rw [hreason] at hresult
    cases hresult

end

end Text

end MoonBoofuzz
