import MoonBoofuzz.Fields.Checked

namespace MoonBoofuzz

namespace CheckedField

/-! A field's lengths are those of its candidates. -/

/-- The length at an index is known, and a candidate that a machine can hold is there and
has it. -/
def HonestAt (field : CheckedField) (i : Nat) : Prop :=
  (field.candidateLength i).overflowed = false ∧
    ∃ n, (field.candidateLength i).value = some n ∧
      (n < 2147483648 → ∃ bytes, field.candidate i = some bytes ∧ (bytes.length : Int) = n)

/-- The same at every index below a count that has not wrapped. -/
def Honest (field : Flagged CheckedField) : Prop :=
  field.overflowed = false ∧
    ∀ i : Nat, (i : Int) < field.value.count → field.value.HonestAt i

theorem honestAt_of_eq {field : CheckedField} {i : Nat} {n : Int}
    (hlength : field.candidateLength i = pure (some n))
    (hcandidate : n < 2147483648 →
      ∃ bytes, field.candidate i = some bytes ∧ (bytes.length : Int) = n) :
    field.HonestAt i := by
  rw [HonestAt, hlength]
  exact ⟨rfl, n, rfl, hcandidate⟩

theorem at?_natCast {α : Type} (items : List α) (i : Nat) : at? items (i : Int) = items[i]? := by
  rw [at?, if_pos (Int.natCast_nonneg i), Int.toNat_natCast]

theorem honestAt_saved {field : CheckedField} {saved : List Bytes} {i position : Nat}
    (hposition : position < saved.length)
    (hlength : field.candidateLength i = pure (lengthAt? saved position))
    (hcandidate : field.candidate i = at? saved position) : field.HonestAt i := by
  have hat : at? saved (position : Int) = some saved[position] := by
    rw [at?_natCast, List.getElem?_eq_getElem hposition]
  rw [lengthAt?, hat] at hlength
  rw [hat] at hcandidate
  exact honestAt_of_eq hlength fun _ => ⟨saved[position], hcandidate, rfl⟩

variable {base : CheckedField} {extra : List Bytes} {fuzzable : Bool}

/-- Appending values keeps lengths honest exactly when the count stays in range. -/
theorem honest_withFuzzValues_iff (hbase : ∀ i : Nat, (i : Int) < base.count → base.HonestAt i)
    (hnonneg : 0 ≤ base.count) (hcount : base.count < 2147483648) :
    Honest (base.withFuzzValues extra fuzzable) ↔
      (fuzzable = true → base.count + extra.length < 2147483648) := by
  rw [withFuzzValues]
  split
  · rename_i hplain
    constructor
    · intro _ hfuzzable
      have hempty : extra = [] := by
        rw [hfuzzable] at hplain
        exact List.isEmpty_iff.mp hplain
      rw [hempty, List.length_nil, Int.natCast_zero, Int.add_zero]
      exact hcount
    · intro _
      exact ⟨rfl, hbase⟩
  · rename_i happend
    have hfuzzable : fuzzable = true := by
      cases fuzzable with
      | true => rfl
      | false => exact absurd rfl happend
    constructor
    · intro hhonest _
      have hfits : (Flagged.add32 base.count extra.length).overflowed = false := by
        have hflag := hhonest.1
        rw [Flagged.bind_overflowed, Bool.or_eq_false_iff] at hflag
        exact hflag.1
      rw [Flagged.add32, Flagged.ofExact_overflowed, Bool.not_eq_false', Flagged.fits_iff]
        at hfits
      exact hfits.2
    · intro hsum
      have hupper := hsum hfuzzable
      have hcounted : Flagged.add32 base.count extra.length =
          pure (base.count + extra.length) := Flagged.add32_eq_pure (by omega) hupper
      rw [hcounted, Flagged.pure_bind']
      refine ⟨rfl, fun i hi => ?_⟩
      rw [Flagged.pure_value] at hi ⊢
      dsimp only at hi
      rcases lt_or_ge (i : Int) base.count with hearlier | happended
      · have hhonest := hbase i hearlier
        simp only [HonestAt, hearlier, if_true] at hhonest ⊢
        exact hhonest
      · -- The position among the appended values.
        have hposition : (i : Int) - base.count = ((i - base.count.toNat : Nat) : Int) := by
          omega
        have hsub : Flagged.sub32 i base.count =
            pure (((i - base.count.toNat : Nat) : Int)) := by
          rw [Flagged.sub32_eq_pure (by omega) (by omega), hposition]
        have hbelow : i - base.count.toNat < extra.length := by omega
        refine honestAt_saved hbelow ?_ ?_
        · dsimp only
          rw [if_neg (not_lt.mpr happended), hsub, Flagged.pure_bind']
        · dsimp only
          rw [if_neg (not_lt.mpr happended), hsub, Flagged.pure_value]

theorem honest_counted_iff {value : Bytes} {total : Nat} {candidate : Nat → Option Bytes}
    {candidateLength : Nat → Flagged (Option Int)}
    (hown : ∀ i < total, ∀ count,
      HonestAt { value := value, count := count, candidate := candidate,
                 candidateLength := candidateLength } i) :
    Honest (counted value total fuzzable candidate candidateLength >>= fun base =>
        base.withFuzzValues extra fuzzable) ↔
      (fuzzable = true → (total : Int) + extra.length < 2147483648) := by
  cases fuzzable with
  | false =>
      refine ⟨fun _ hfuzzable => absurd hfuzzable Bool.false_ne_true, fun _ => ⟨rfl, ?_⟩⟩
      intro i hi
      exact absurd hi (not_lt.mpr (Int.natCast_nonneg i))
  | true =>
      rcases lt_or_ge (total : Int) 2147483648 with hfits | hwraps
      · have hcount : Flagged.ofExact (total : Int) = pure (total : Int) :=
          Flagged.ofExact_eq_pure (Flagged.fits_iff.mpr ⟨by omega, hfits⟩)
        rw [counted, if_pos rfl, hcount, Flagged.pure_bind', Flagged.pure_bind']
        refine honest_withFuzzValues_iff ?_ (Int.natCast_nonneg _) hfits
        intro i hi
        exact hown i (Int.ofNat_lt.mp hi) total
      · constructor
        · intro hhonest
          have hflag := hhonest.1
          rw [Flagged.bind_overflowed, Bool.or_eq_false_iff, counted, if_pos rfl,
            Flagged.bind_overflowed, Bool.or_eq_false_iff, Flagged.ofExact_overflowed,
            Bool.not_eq_false', Flagged.fits_iff] at hflag
          omega
        · intro hsum
          have hupper := hsum rfl
          omega

theorem honest_saved_iff {value : Bytes} {saved : List Bytes} :
    Honest (ofSaved value saved fuzzable >>= fun base => base.withFuzzValues extra fuzzable) ↔
      (fuzzable = true → (saved.length : Int) + extra.length < 2147483648) :=
  honest_counted_iff fun _ hi _ => honestAt_saved hi rfl rfl

theorem honest_simple_iff {value : Bytes} {values : List Bytes} :
    Honest (simple value values fuzzable extra) ↔
      (fuzzable = true → (values.length : Int) + extra.length < 2147483648) := by
  have hsimple : simple value values fuzzable extra =
      ofSaved value (values ++ extra) fuzzable >>= fun base =>
        base.withFuzzValues [] fuzzable := by
    simp only [withFuzzValues_nil, Flagged.bind_pure']
    rfl
  rw [hsimple, honest_saved_iff, List.length_append, List.length_nil]
  push_cast
  rw [Int.add_zero]

theorem honest_counted {value : Bytes} {total : Nat} {candidate : Nat → Option Bytes}
    {candidateLength : Nat → Flagged (Option Int)}
    (hown : ∀ i < total, ∀ count,
      HonestAt { value := value, count := count, candidate := candidate,
                 candidateLength := candidateLength } i)
    (htotal : total < 1610612736) (hextra : extra.length ≤ 2 ^ 29) :
    Honest (counted value total fuzzable candidate candidateLength >>= fun base =>
      base.withFuzzValues extra fuzzable) := by
  rw [honest_counted_iff hown]
  intro _
  omega

/-- What is computed beforehand only matters for its flag. -/
theorem honest_after_iff {α : Type} {answer : Flagged α} {field : Flagged CheckedField} :
    Honest (answer >>= fun _ => field) ↔ answer.overflowed = false ∧ Honest field := by
  rw [Honest, Flagged.bind_overflowed, Bool.or_eq_false_iff, Flagged.bind_value, and_assoc]
  exact Iff.rfl

end CheckedField

end MoonBoofuzz
