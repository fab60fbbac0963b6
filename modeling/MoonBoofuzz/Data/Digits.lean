import MoonBoofuzz.Data.Text

namespace MoonBoofuzz

theorem map_inj_on {key : α → β} {first second : List α}
    (hinj : ∀ item ∈ first, ∀ other ∈ second, key item = key other → item = other)
    (hequal : first.map key = second.map key) : first = second := by
  induction first generalizing second with
  | nil => exact (List.map_eq_nil_iff.mp hequal.symm).symm
  | cons item rest ih =>
      cases second with
      | nil => cases hequal
      | cons other others =>
          rw [List.map_cons, List.map_cons, List.cons.injEq] at hequal
          rw [hinj item (by simp) other (by simp) hequal.1,
            ih (fun item hitem other hother =>
              hinj item (by simp [hitem]) other (by simp [hother])) hequal.2]

namespace Text

/-! Decimal texts determine their numbers. -/

theorem toNat_ofNat_unit {unit : UInt16} (hunit : unit.toNat < 0xd800) :
    (Char.ofNat unit.toNat).toNat = unit.toNat := by
  have hvalid : unit.toNat.isValidChar := Or.inl hunit
  unfold Char.ofNat
  rw [dif_pos hvalid]
  unfold Char.ofNatAux Char.toNat
  simp

theorem isDigit_bounds {digit : Char} (hdigit : digit.isDigit = true) :
    48 ≤ digit.toNat ∧ digit.toNat ≤ 57 := by
  simp only [Char.isDigit, Bool.and_eq_true, decide_eq_true_eq] at hdigit
  exact hdigit

theorem toNat_digit {digit : Char} (hdigit : digit.isDigit = true) :
    (UInt16.ofNat digit.toNat).toNat = digit.toNat := by
  have hupper := (isDigit_bounds hdigit).2
  rw [UInt16.toNat_ofNat']
  exact Nat.mod_eq_of_lt (by omega)

theorem decimal_characters (value : Nat) :
    (decimal value).map (fun unit => Char.ofNat unit.toNat) = Nat.toDigits 10 value := by
  rw [decimal, List.map_map]
  have hsame : ∀ digit ∈ Nat.toDigits 10 value,
      ((fun unit : UInt16 => Char.ofNat unit.toNat) ∘
        fun digit : Char => UInt16.ofNat digit.toNat) digit = digit := by
    intro digit hmem
    have hdigit := Nat.isDigit_of_mem_toDigits (by decide) (by decide) hmem
    rw [Function.comp_apply, toNat_digit hdigit, Char.ofNat_toNat]
  rw [List.map_congr_left hsame, List.map_id']

theorem decimal_inj {first second : Nat} (hequal : decimal first = decimal second) :
    first = second := by
  have hdigits := congrArg (List.map fun unit : UInt16 => Char.ofNat unit.toNat) hequal
  rw [decimal_characters, decimal_characters] at hdigits
  rw [← Nat.ofDigitChars_toDigits (n := first) (b := 10) (by decide) (by decide), hdigits,
    Nat.ofDigitChars_toDigits (by decide) (by decide)]

theorem mem_decimal {value : Nat} {unit : UInt16} (hmem : unit ∈ decimal value) :
    48 ≤ unit.toNat ∧ unit.toNat ≤ 57 := by
  obtain ⟨digit, hdigit, rfl⟩ := List.mem_map.mp hmem
  have hisDigit := Nat.isDigit_of_mem_toDigits (by decide) (by decide) hdigit
  rw [toNat_digit hisDigit]
  exact isDigit_bounds hisDigit

theorem notMem_decimal {unit : UInt16} (hunit : unit.toNat < 48 ∨ 57 < unit.toNat)
    (value : Nat) : unit ∉ decimal value := by
  intro hmem
  have hbounds := mem_decimal hmem
  omega

instance decidableDigits (text : Text) :
    Decidable (∀ unit ∈ text, 48 ≤ unit.toNat ∧ unit.toNat ≤ 57) :=
  List.decidableBAll _ text

def readNatural (text : Text) : Option Nat :=
  if text ≠ [] ∧ ∀ unit ∈ text, 48 ≤ unit.toNat ∧ unit.toNat ≤ 57 then
    some (Nat.ofDigitChars 10 (text.map fun unit => Char.ofNat unit.toNat) 0)
  else none

def readInteger (text : Text) : Option Int :=
  match text with
  | 45 :: digits => (readNatural digits).map fun value => -(value : Int)
  | digits => (readNatural digits).map Int.ofNat

theorem decimal_ne_nil (value : Nat) : decimal value ≠ [] := by
  intro hnil
  exact Nat.toDigits_ne_nil (List.map_eq_nil_iff.mp hnil)

theorem readNatural_decimal (value : Nat) : readNatural (decimal value) = some value := by
  rw [readNatural, if_pos ⟨decimal_ne_nil value, fun unit hmem => mem_decimal hmem⟩,
    decimal_characters, Nat.ofDigitChars_toDigits (by decide) (by decide)]

theorem readInteger_integer (value : Int) : readInteger (integer value) = some value := by
  rw [integer]
  split
  · rename_i hnegative
    change (readNatural (decimal value.natAbs)).map (fun value => -(value : Int)) = some value
    rw [readNatural_decimal]
    exact congrArg some (by omega : -(value.natAbs : Int) = value)
  · rename_i hnonnegative
    have hplain : readInteger (decimal value.natAbs) =
        (readNatural (decimal value.natAbs)).map Int.ofNat := by
      unfold readInteger
      split
      · rename_i digits htext
        have hminus := @mem_decimal value.natAbs 45 (by simp [htext])
        exact absurd hminus.1 (by decide)
      · rfl
    rw [hplain, readNatural_decimal]
    simp only [Option.map_some, Option.some.injEq, Int.ofNat_eq_natCast]
    omega

/-- The last separator splits a text in one way. -/
theorem append_separator_inj {separator : UInt16} {left left' right right' : Text}
    (hright : separator ∉ right) (hright' : separator ∉ right')
    (hequal : left ++ separator :: right = left' ++ separator :: right') :
    left = left' ∧ right = right' := by
  rcases List.append_eq_append_iff.mp hequal with ⟨middle, hleft, hrest⟩ | ⟨middle, hleft, hrest⟩
  · cases middle with
    | nil => exact ⟨by simpa using hleft.symm, by simpa using hrest⟩
    | cons unit middle =>
        rw [List.cons_append, List.cons.injEq] at hrest
        exact absurd (by simp [hrest.2]) hright
  · cases middle with
    | nil => exact ⟨by simpa using hleft, by simpa using hrest.symm⟩
    | cons unit middle =>
        rw [List.cons_append, List.cons.injEq] at hrest
        exact absurd (by simp [hrest.2]) hright'

theorem join_eq_intercalate (separator : Text) (items : List Text) :
    join separator items = separator.intercalate items := by
  induction items with
  | nil => simp [join]
  | cons item rest ih =>
      cases rest with
      | nil => simp [join]
      | cons next rest =>
          rw [join, ih, List.intercalate_cons_cons]
          simp

theorem join_inj {separator : UInt16} {first second : List Text}
    (hfirst : ∀ item ∈ first, separator ∉ item) (hsecond : ∀ item ∈ second, separator ∉ item)
    (hfirstNe : first ≠ []) (hsecondNe : second ≠ [])
    (hequal : join [separator] first = join [separator] second) : first = second := by
  rw [join_eq_intercalate, join_eq_intercalate] at hequal
  rw [← List.splitOn_intercalate separator hfirst hfirstNe, hequal,
    List.splitOn_intercalate separator hsecond hsecondNe]

end Text

end MoonBoofuzz
