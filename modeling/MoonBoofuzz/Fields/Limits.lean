import Mathlib.Tactic.IntervalCases
import MoonBoofuzz.Fields.Honest
import MoonBoofuzz.Fields.Windows

namespace MoonBoofuzz

theorem Bytes.length_repeatTimes_of_nonneg {bytes : Bytes} {count : Int} (hcount : 0 ≤ count) :
    ((bytes.repeatTimes count).length : Int) = bytes.length * count := by
  obtain ⟨count, rfl⟩ := Int.eq_ofNat_of_zero_le hcount
  rw [length_repeatTimes, Int.natCast_mul]

namespace BinaryOptions

def limited (options : BinaryOptions) (raw : Int) : Int :=
  match options.size with
  | some n => n
  | none =>
      match options.maxLen with
      | some n => min raw n
      | none => raw

/-- What `Field::binary` accepts. -/
structure Accepted (options : BinaryOptions) : Prop where
  length_padding : options.padding.length = 1
  size_nonneg : ∀ n ∈ options.size, 0 ≤ n
  maxLen_nonneg : ∀ n ∈ options.maxLen, 0 ≤ n

variable {options : BinaryOptions}

theorem length_take_toNat {candidate : Bytes} {n : Int} (hn : 0 ≤ n)
    (hlonger : (candidate.length : Int) > n) : ((candidate.take n.toNat).length : Int) = n := by
  rw [List.length_take]
  omega

theorem Accepted.length_adjust (haccepted : options.Accepted) (candidate : Bytes) :
    ((options.adjust candidate).length : Int) = options.limited candidate.length := by
  have hsize := haccepted.size_nonneg
  have hmaxLen := haccepted.maxLen_nonneg
  rw [adjust, limited]
  cases hcase : options.size with
  | some n =>
      have hn : 0 ≤ n := hsize n hcase
      dsimp only
      split
      · rename_i hlonger
        exact length_take_toNat hn hlonger
      · rw [List.length_append, Int.natCast_add,
          Bytes.length_repeatTimes_of_nonneg (by omega), haccepted.length_padding]
        omega
  | none =>
      dsimp only
      cases hlimit : options.maxLen with
      | some n =>
          have hn : 0 ≤ n := hmaxLen n hlimit
          dsimp only
          split
          · rename_i hlonger
            rw [length_take_toNat hn hlonger, min_eq_right (by omega)]
          · rw [min_eq_left (by omega)]
      | none => rfl

/-- Cutting a repetition at the cap beforehand leaves the limited length as it is. -/
theorem limited_min_cap (raw : Int) :
    options.limited (min raw (options.size.getD (options.maxLen.getD raw))) =
      options.limited raw := by
  rw [limited, limited]
  cases options.size with
  | some n => rfl
  | none =>
      cases options.maxLen with
      | some n => exact (min_assoc raw n n).trans (by rw [min_self])
      | none => exact min_self raw

theorem Accepted.cap_nonneg (haccepted : options.Accepted) {raw : Int} (hraw : 0 ≤ raw) :
    0 ≤ options.size.getD (options.maxLen.getD raw) := by
  have hsize := haccepted.size_nonneg
  have hmaxLen := haccepted.maxLen_nonneg
  cases hcase : options.size with
  | some n => exact hsize n hcase
  | none =>
      cases hlimit : options.maxLen with
      | some n => exact hmaxLen n hlimit
      | none => exact hraw

end BinaryOptions

namespace CheckedField

variable {value : Bytes} {options : BinaryOptions} {i : Nat}

theorem length_cycle? {length : Int} (hlength : 0 ≤ length)
    (hvalue : value = [] → length = 0) :
    ∃ bytes, cycle? value length = some bytes ∧ (bytes.length : Int) = length := by
  rw [cycle?]
  split
  · exact ⟨[], rfl, by rw [List.length_nil]; omega⟩
  · rename_i hpositive
    have hne : value.isEmpty = false := by
      rw [List.isEmpty_eq_false_iff]
      intro hempty
      have hzero := hvalue hempty
      omega
    rw [hne, if_neg Bool.false_ne_true]
    refine ⟨_, rfl, ?_⟩
    rw [List.length_map, List.length_range]
    omega

/-- The raw candidate is there, and the limits give it the length of its formula. -/
def RawAt (value : Bytes) (options : BinaryOptions) (i : Nat) : Prop :=
  ∃ raw bytes, binaryRawLength value i = pure (some raw) ∧
    binaryRaw? value options i = some bytes ∧
    options.limited bytes.length = options.limited raw

theorem rawAt_fixed (hi : i < 9) : RawAt value options i := by
  interval_cases i
  · exact ⟨0, [], rfl, rfl, rfl⟩
  · exact ⟨1, [0x00], rfl, rfl, rfl⟩
  · exact ⟨1, [0xff], rfl, rfl, rfl⟩
  all_goals
    refine ⟨_, _, rfl, rfl, ?_⟩
    rw [Bytes.length_repeatTimes_of_nonneg (by decide)]
    rfl

theorem rawAt_repeated (haccepted : options.Accepted) (hvalue : value.length ≤ 20000000)
    {j : Nat} (hj : j < 3) : RawAt value options (9 + j) := by
  have htimes : ∃ times : Int, [2, 10, 100][9 + j - 9]? = some times ∧ 0 ≤ times ∧
      times ≤ 100 := by
    interval_cases j
    · exact ⟨2, rfl, by decide, by decide⟩
    · exact ⟨10, rfl, by decide, by decide⟩
    · exact ⟨100, rfl, by decide, by decide⟩
  obtain ⟨times, htimes, hnonneg, hle⟩ := htimes
  have hraw : 0 ≤ (value.length : Int) * times :=
    Int.mul_nonneg (Int.natCast_nonneg _) hnonneg
  have hfits : (value.length : Int) * times ≤ 20000000 * 100 :=
    Int.mul_le_mul (by omega) hle hnonneg (by decide)
  have hwrapped : wrap32 ((value.length : Int) * times) = value.length * times :=
    wrap32_eq_self (by omega) (by omega)
  obtain ⟨bytes, hbytes, hlength⟩ := @length_cycle? value
    (min (value.length * times) (options.size.getD (options.maxLen.getD (value.length * times))))
    (le_min hraw (haccepted.cap_nonneg hraw)) (fun hempty => by
      have hcap := haccepted.cap_nonneg hraw
      rw [hempty, List.length_nil, Int.natCast_zero, Int.zero_mul] at hcap ⊢
      exact min_eq_left hcap)
  refine ⟨value.length * times, bytes, ?_, ?_, ?_⟩
  · rw [binaryRawLength, if_neg (by omega), if_pos (by omega), htimes]
    dsimp only
    rw [Flagged.mul32_eq_pure (by omega) (by omega), Flagged.pure_bind']
  · rw [binaryRaw?, if_neg (by omega), if_pos (by omega), htimes]
    change cycle? value (min (wrap32 (value.length * times))
      (options.size.getD (options.maxLen.getD (wrap32 (value.length * times))))) = _
    rw [hwrapped, hbytes]
  · rw [hlength, BinaryOptions.limited_min_cap]

theorem rawAt_magic (hlow : 12 ≤ i) (hi : i < fixedCount) : RawAt value options i := by
  have hplace : i - 12 < magicBytes.length := by
    have hcount : fixedCount = 12 + magicBytes.length := rfl
    omega
  have hat : magicBytes[i - 12]? = some magicBytes[i - 12] :=
    List.getElem?_eq_getElem hplace
  refine ⟨magicBytes[i - 12].length, magicBytes[i - 12], ?_, ?_, rfl⟩
  · rw [binaryRawLength, if_neg (by omega), if_neg (by omega), if_pos hi, lengthAt?,
      at?_natCast, hat, Option.map_some]
  · rw [binaryRaw?, if_neg (by omega), if_neg (by omega), if_pos hi, hat]

theorem rawAt_window (hi : i < (windowsOf value windowWidths).length) :
    RawAt value options (fixedCount + i) := by
  have hwindow := List.getElem?_eq_getElem hi
  obtain ⟨width, position, place⟩ := (windowsOf value windowWidths)[i]
  have hmem := List.mem_of_getElem? hwindow
  obtain ⟨-, hposition, -⟩ := mem_windowsOf_widths.mp hmem
  obtain ⟨item, -, hitem, hoverwrite⟩ := overwrite?_of_mem hmem
  have hlow : 12 ≤ fixedCount := by decide
  refine ⟨value.length, _, ?_, (binaryRaw?_window hwindow).trans hoverwrite, ?_⟩
  · rw [binaryRawLength, if_neg (by omega), if_neg (by omega), if_neg (by omega)]
  · rw [List.length_append, List.length_append, List.length_take, List.length_drop, hitem]
    congr 1
    omega

theorem rawAt_of_lt (haccepted : options.Accepted) (hvalue : value.length ≤ 20000000)
    (hi : i < fixedCount + (windowsOf value windowWidths).length) :
    RawAt value options i := by
  rcases Nat.lt_or_ge i 9 with hfixed | hlow
  · exact rawAt_fixed hfixed
  · rcases Nat.lt_or_ge i 12 with hrepeated | hlow
    · obtain ⟨j, rfl⟩ := Nat.exists_eq_add_of_le (show 9 ≤ i by assumption)
      exact rawAt_repeated haccepted hvalue (by omega)
    · rcases Nat.lt_or_ge i fixedCount with hmagic | hlow
      · exact rawAt_magic (by assumption) hmagic
      · obtain ⟨j, rfl⟩ := Nat.exists_eq_add_of_le hlow
        exact rawAt_window (by omega)

theorem RawAt.honestAt {count : Int} (haccepted : options.Accepted)
    (hraw : RawAt value options i) : (binaryBase value options count).HonestAt i := by
  obtain ⟨raw, bytes, hlength, hbytes, hlimited⟩ := hraw
  refine honestAt_of_eq (show binaryLength value options i = pure (some (options.limited raw)) from
    ?_) fun _ => ⟨options.adjust bytes, ?_, ?_⟩
  · rw [binaryLength, hlength]
    rfl
  · change (binaryRaw? value options i).map options.adjust = _
    rw [hbytes, Option.map_some]
  · rw [haccepted.length_adjust, hlimited]

end CheckedField

end MoonBoofuzz
