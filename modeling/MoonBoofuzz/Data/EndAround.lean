import Mathlib.Data.Nat.ModEq

namespace MoonBoofuzz

/-! Folding the carry of a sum back into its low digit.  The result is the sum modulo one
less than the base, with zero kept for the empty sum alone. -/

theorem fold_lt {base total : Nat} (hbase : 1 < base) (htotal : base ≤ total) :
    total % base + total / base < total := by
  have hsplit := Nat.mod_add_div total base
  have hquotient : 0 < total / base := Nat.div_pos htotal (by omega)
  have hgrow : 2 * (total / base) ≤ base * (total / base) :=
    Nat.mul_le_mul_right _ hbase
  omega

def endAround (base total : Nat) : Nat :=
  if _h : 1 < base ∧ base ≤ total then endAround base (total % base + total / base)
  else total
termination_by total
decreasing_by exact fold_lt _h.1 _h.2

variable {base : Nat}

theorem endAround_of_le {total : Nat} (hbase : 1 < base) (htotal : base ≤ total) :
    endAround base total = endAround base (total % base + total / base) := by
  rw [endAround, dif_pos ⟨hbase, htotal⟩]

theorem endAround_of_lt {total : Nat} (htotal : total < base) :
    endAround base total = total := by
  rw [endAround, dif_neg (by omega)]

theorem fold_modEq (hbase : 1 < base) (total : Nat) :
    total % base + total / base ≡ total [MOD base - 1] := by
  have hone : 1 ≡ base [MOD base - 1] :=
    (Nat.modEq_iff_dvd' (by omega)).mpr ⟨1, by omega⟩
  calc total % base + total / base
      = total % base + 1 * (total / base) := by rw [Nat.one_mul]
    _ ≡ total % base + base * (total / base) [MOD base - 1] :=
        Nat.ModEq.add_left _ (Nat.ModEq.mul_right _ hone)
    _ = total := Nat.mod_add_div total base

theorem endAround_spec (hbase : 1 < base) : ∀ total : Nat,
    endAround base total < base ∧ endAround base total ≡ total [MOD base - 1] ∧
      (endAround base total = 0 ↔ total = 0) := by
  intro total
  induction total using Nat.strongRecOn with
  | ind total ih =>
      rcases Nat.lt_or_ge total base with hlow | hhigh
      · rw [endAround_of_lt hlow]
        exact ⟨hlow, Nat.ModEq.refl _, Iff.rfl⟩
      · obtain ⟨hbound, hresidue, hzero⟩ := ih _ (fold_lt hbase hhigh)
        rw [endAround_of_le hbase hhigh]
        refine ⟨hbound, hresidue.trans (fold_modEq hbase total), hzero.trans ?_⟩
        have hquotient : 0 < total / base := Nat.div_pos hhigh (by omega)
        omega

theorem endAround_of_dvd {total : Nat} (hbase : 1 < base) (hpositive : 0 < total)
    (hdvd : base - 1 ∣ total) : endAround base total = base - 1 := by
  obtain ⟨hbound, hresidue, hzero⟩ := endAround_spec hbase total
  have hfolded : base - 1 ∣ endAround base total :=
    (Nat.modEq_zero_iff_dvd.mp (hresidue.trans (Nat.modEq_zero_iff_dvd.mpr hdvd)))
  obtain ⟨multiple, hmultiple⟩ := hfolded
  cases multiple with
  | zero => exact absurd (hzero.mp (by simpa using hmultiple)) (by omega)
  | succ multiple =>
      cases multiple with
      | zero => simpa using hmultiple
      | succ multiple =>
          have hlarge : (base - 1) * (multiple + 1 + 1) ≥ (base - 1) * 2 :=
            Nat.mul_le_mul_left _ (by omega)
          omega

/-- What is added to a sum has the residue of the folded sum's complement: the new sum
folds to the other zero. -/
theorem endAround_add_complement (hbase : 1 < base) {total stored : Nat}
    (hpositive : 0 < total + stored)
    (hstored : stored ≡ base - 1 - endAround base total [MOD base - 1]) :
    endAround base (total + stored) = base - 1 := by
  obtain ⟨hbound, hresidue, -⟩ := endAround_spec hbase total
  apply endAround_of_dvd hbase hpositive
  apply Nat.modEq_zero_iff_dvd.mp
  calc total + stored
      ≡ endAround base total + (base - 1 - endAround base total) [MOD base - 1] :=
        Nat.ModEq.add hresidue.symm hstored
    _ = base - 1 := by omega
    _ ≡ 0 [MOD base - 1] := Nat.modEq_zero_iff_dvd.mpr (Nat.dvd_refl _)

end MoonBoofuzz
