import Mathlib.Data.List.Infix
import Mathlib.Data.List.TakeDrop
import MoonBoofuzz.Data.Text

namespace MoonBoofuzz

/-! The first position of a list at which a test of the rest succeeds. -/

section

variable {α : Type} {test : List α → Bool} {whole : List α}

def firstAt (test : List α → Bool) (whole : List α) : Option Nat :=
  (List.range (whole.length + 1)).find? fun i => test (whole.drop i)

theorem firstAt_eq_some {i : Nat} :
    firstAt test whole = some i ↔
      i ≤ whole.length ∧ test (whole.drop i) = true ∧
        ∀ j < i, test (whole.drop j) = false := by
  unfold firstAt
  rw [List.find?_range_eq_some]
  simp only [List.mem_range, Nat.lt_succ_iff, Bool.not_eq_true']
  tauto

theorem firstAt_eq_none :
    firstAt test whole = none ↔ ∀ i ≤ whole.length, test (whole.drop i) = false := by
  unfold firstAt
  rw [List.find?_range_eq_none]
  simp only [Nat.lt_succ_iff, Bool.not_eq_true']

end

namespace Bytes

def find (whole part : Bytes) : Option Nat :=
  (List.range (whole.length + 1)).find? fun i => part.isPrefixOf (whole.drop i)

theorem find_eq_firstAt (whole part : Bytes) :
    find whole part = firstAt part.isPrefixOf whole := rfl

theorem find_eq_some {whole part : Bytes} {i : Nat} :
    find whole part = some i ↔
      i ≤ whole.length ∧ part <+: whole.drop i ∧ ∀ j < i, ¬ part <+: whole.drop j := by
  rw [find_eq_firstAt, firstAt_eq_some]
  simp only [List.isPrefixOf_iff_prefix, Bool.eq_false_iff, ne_eq]

theorem find_eq_none {whole part : Bytes} :
    find whole part = none ↔ ∀ i ≤ whole.length, ¬ part <+: whole.drop i := by
  rw [find_eq_firstAt, firstAt_eq_none]
  simp only [List.isPrefixOf_iff_prefix, Bool.eq_false_iff, ne_eq]

end Bytes

theorem prefix_drop_take {α : Type} {part whole : List α} {i count : Nat} :
    part <+: (whole.take count).drop i ↔
      part <+: whole.drop i ∧ (i + part.length ≤ count ∨ part = []) := by
  rw [List.drop_take, List.prefix_take_iff]
  constructor
  · rintro ⟨hstarts, hlength⟩
    refine ⟨hstarts, ?_⟩
    cases part with
    | nil => exact Or.inr rfl
    | cons head tail =>
        simp only [List.length_cons] at hlength ⊢
        omega
  · rintro ⟨hstarts, hfits | rfl⟩
    · exact ⟨hstarts, by omega⟩
    · simp

theorem Bytes.find_take {whole part : Bytes} (hpart : part ≠ []) (count : Nat) :
    find (whole.take count) part =
      (find whole part).filter fun i => decide (i + part.length ≤ count) := by
  have hat : ∀ i, part <+: (whole.take count).drop i ↔
      part <+: whole.drop i ∧ i + part.length ≤ count := by
    intro i
    simp [prefix_drop_take, hpart]
  have hbound : ∀ i, part <+: whole.drop i → i ≤ whole.length := by
    intro i hstarts
    by_contra hlarge
    rw [List.drop_eq_nil_of_le (by omega)] at hstarts
    exact hpart (List.prefix_nil.mp hstarts)
  cases hfind : find whole part with
  | none =>
      rw [find_eq_none] at hfind
      rw [Option.filter_none, find_eq_none]
      intro i _ hstarts
      have hwhole := ((hat i).mp hstarts).1
      exact hfind i (hbound i hwhole) hwhole
  | some i =>
      obtain ⟨hle, hstarts, hfirst⟩ := find_eq_some.mp hfind
      rw [Option.filter_some]
      split
      · rename_i hfits
        rw [decide_eq_true_eq] at hfits
        refine find_eq_some.mpr ⟨?_, (hat i).mpr ⟨hstarts, hfits⟩, ?_⟩
        · rw [List.length_take]
          omega
        · intro j hj hearlier
          exact hfirst j hj ((hat j).mp hearlier).1
      · rename_i hlong
        rw [decide_eq_true_eq] at hlong
        rw [find_eq_none]
        intro j _ hearlier
        obtain ⟨hwhole, hfits⟩ := (hat j).mp hearlier
        have hlater : i ≤ j := by
          by_contra hbefore
          exact hfirst j (by omega) hwhole
        omega

/-- The delimiter closes the bytes and stands nowhere before. -/
def EndsAt (delimiter bytes : Bytes) : Prop :=
  delimiter <:+ bytes ∧
    ∀ i, delimiter <+: bytes.drop i → i + delimiter.length = bytes.length

theorem endsAt_of_find {delimiter bytes : Bytes} {i : Nat} (hne : delimiter ≠ [])
    (hfind : Bytes.find bytes delimiter = some i)
    (hlength : bytes.length = i + delimiter.length) : EndsAt delimiter bytes := by
  obtain ⟨-, hstarts, hearlier⟩ := Bytes.find_eq_some.mp hfind
  have heq := hstarts.eq_of_length (by rw [List.length_drop, hlength]; omega)
  constructor
  · rw [heq]
    exact List.drop_suffix i bytes
  · intro j hj
    have hle := hj.length_le
    have hpositive := List.length_pos_iff.mpr hne
    have hlater : i ≤ j := by
      by_contra hbefore
      exact hearlier j (by omega) hj
    rw [List.length_drop, hlength] at hle
    omega

end MoonBoofuzz
