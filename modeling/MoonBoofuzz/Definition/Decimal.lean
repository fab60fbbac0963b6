import MoonBoofuzz.Data.Accumulate
import MoonBoofuzz.Definition.Nodes

namespace MoonBoofuzz

/-! Unsigned sixty-four bit numbers from their decimal texts. -/

theorem decimalUnit64_counts :
    Text.Counts decimalUnit64 (fun value => value) 0xffffffffffffffff where
  within := by
    intro value unit hdigit hbound
    have hquotient : value ≤ (0xffffffffffffffff - (unit.toNat - 48)) / 10 := by
      rw [Nat.le_div_iff_mul_le (by decide)]
      omega
    rw [decimalUnit64, if_pos ⟨hdigit.1, hdigit.2⟩]
    exact if_pos hquotient
  refused := by
    intro value unit hvalue hover
    rw [decimalUnit64]
    split
    · rename_i hdigit
      have hquotient : ¬value ≤ (0xffffffffffffffff - (unit.toNat - 48)) / 10 := by
        have hbeyond := hover hdigit
        have hunit := hdigit.2
        rw [Nat.le_div_iff_mul_le (by decide)]
        omega
      exact ⟨_, if_neg hquotient⟩
    · exact ⟨_, rfl⟩

theorem decimalU64_eq_ok {text : Text} {number : UInt64} :
    decimalU64 text = .ok number ↔ Text.readNatural text = some number.toNat := by
  rw [Text.readNatural_eq_some, decimalU64]
  split
  · rename_i hempty
    constructor
    · intro hok
      cases hok
    · exact fun hread => absurd hempty hread.1
  · rename_i hfilled
    constructor
    · intro hok
      cases hfold : text.foldlM decimalUnit64 0 with
      | error reason =>
          rw [hfold] at hok
          cases hok
      | ok value =>
          rw [hfold] at hok
          obtain ⟨hdigits, hbound, hvalue⟩ := decimalUnit64_counts.result hfold
          have hnumber : UInt64.ofNat value = number := Except.ok.inj hok
          rw [← hnumber, UInt64.toNat_ofNat', Nat.mod_eq_of_lt (by omega), hvalue]
          exact ⟨hfilled, hdigits, rfl⟩
    · rintro ⟨-, hdigits, hvalue⟩
      have hbound : Text.digitsFrom 0 text ≤ 0xffffffffffffffff := by
        have hlt := number.toNat_lt
        omega
      have hfold := decimalUnit64_counts.accepted hdigits hbound
      rw [hfold, hvalue]
      exact congrArg Except.ok UInt64.ofNat_toNat

theorem decimalU64_eq_error {text : Text} :
    (∃ reason, decimalU64 text = .error reason) ↔
      ∀ value, Text.readNatural text = some value → 2 ^ 64 ≤ value := by
  constructor
  · rintro ⟨reason, hreason⟩ value hread
    by_contra hsmall
    have hok : decimalU64 text = .ok (UInt64.ofNat value) := by
      rw [decimalU64_eq_ok, hread, UInt64.toNat_ofNat', Nat.mod_eq_of_lt (by omega)]
    rw [hreason] at hok
    cases hok
  · intro hlarge
    cases hanswer : decimalU64 text with
    | error reason => exact ⟨reason, rfl⟩
    | ok number =>
        have hover := hlarge _ (decimalU64_eq_ok.mp hanswer)
        have hlt := number.toNat_lt
        omega

end MoonBoofuzz
