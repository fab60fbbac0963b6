import Mathlib.Tactic.FieldSimp
import Mathlib.Tactic.Positivity
import MoonBoofuzz.Data.Rounding
import MoonBoofuzz.Float.Decimal
import MoonBoofuzz.Float.Double

namespace MoonBoofuzz

namespace Double

/-! Fixed-point formatting. -/

/-- The `m` and `k` of a magnitude `m * 2^k`, with `m` a 53-bit integer. -/
def splitMagnitude (raw : Double) : UInt64 × Int :=
  let biased := ((raw >>> 52) &&& 0x7ff).toNat
  if biased = 0 then (raw &&& 0xfffffffffffff, -1074)
  else ((raw &&& 0xfffffffffffff) ||| 0x10000000000000, (biased : Int) - 1075)

def mulTens (limbs : Limbs) : ℕ → Limbs
  | 0 => limbs
  | count + 1 => mulTens (bigMulSmall limbs 10) count

/-- The digits `round_half_even(m * 10^N * 2^k)`, computed exactly. -/
def roundScaled (m : UInt64) (k : Int) (precision : ℕ) : Limbs :=
  let scaled := mulTens (bigFromU64 m) precision
  if 0 ≤ k then bigShl scaled k.toNat
  else
    let j := (-k).toNat
    let roundUp := bigBit scaled (j - 1) && (bigAnyBitBelow scaled (j - 1) || bigBit scaled j)
    if roundUp then bigAddOne (bigShr scaled j) else bigShr scaled j

def pointed (precision : ℕ) (digits : Text) : Text :=
  if precision = 0 then digits
  else
    let padded :=
      if digits.length ≤ precision then Text.padStart (precision + 1) digits else digits
    let cut := padded.length - precision
    padded.take cut ++ Text.ofAscii "." ++ padded.drop cut

/-- `format_fixed_point`. -/
def formatFixedPoint (value : Double) (precision fuel : ℕ) : Eval ModelError Text :=
  let zeros :=
    if precision > 0 then Text.ofAscii "." ++ List.replicate precision Text.zero else []
  if value <<< 1 = 0 then
    .done ((if value >>> 63 = 1 then Text.ofAscii "-0" else Text.ofAscii "0") ++ zeros)
  else if (value >>> 52) &&& 0x7ff = 0x7ff then
    if value <<< 12 ≠ 0 then
      .done (if value >>> 63 = 1 then Text.ofAscii "-nan" else Text.ofAscii "nan")
    else .done (if value >>> 63 = 1 then Text.ofAscii "-inf" else Text.ofAscii "inf")
  else
    let raw := if value >>> 63 = 1 then value ^^^ 0x8000000000000000 else value
    let (m, k) := splitMagnitude raw
    do
      let digits ← bigToDecimal (roundScaled m k precision) fuel
      let body := pointed precision digits
      .done (if value >>> 63 = 1 then Text.ofAscii "-" ++ body else body)

open Limbs

theorem value_mulTens : ∀ {precision : ℕ} {limbs : Limbs},
    value (mulTens limbs precision) = value limbs * 10 ^ precision := by
  intro precision
  induction precision with
  | zero => exact fun {limbs} => (Nat.mul_one _).symm
  | succ precision ih =>
      intro limbs
      rw [mulTens, ih, value_bigMulSmall, Nat.pow_succ', Nat.mul_assoc]
      rfl

theorem roundUp_iff {limbs : Limbs} {shift : ℕ} :
    (bigBit limbs shift && (bigAnyBitBelow limbs shift || bigBit limbs (shift + 1))) = true ↔
      (2 ^ shift < value limbs % 2 ^ (shift + 1) ∨
        value limbs % 2 ^ (shift + 1) = 2 ^ shift ∧
          value limbs / 2 ^ (shift + 1) % 2 = 1) := by
  have hhalf : bigBit limbs shift = true ↔ value limbs / 2 ^ shift % 2 = 1 := by
    rw [bigBit_eq, Nat.testBit_eq_decide_div_mod_eq, decide_eq_true_iff]
  have hodd : bigBit limbs (shift + 1) = true ↔ value limbs / 2 ^ (shift + 1) % 2 = 1 := by
    rw [bigBit_eq, Nat.testBit_eq_decide_div_mod_eq, decide_eq_true_iff]
  rw [Bool.and_eq_true, Bool.or_eq_true, bigAnyBitBelow_iff, hhalf, hodd]
  have hsplit : value limbs % 2 ^ (shift + 1) =
      value limbs % 2 ^ shift + 2 ^ shift * (value limbs / 2 ^ shift % 2) := by
    rw [Nat.pow_succ, Nat.mod_mul]
  have hbelow : value limbs % 2 ^ shift < 2 ^ shift := Nat.mod_lt _ (Nat.two_pow_pos shift)
  rw [hsplit]
  rcases Nat.mod_two_eq_zero_or_one (value limbs / 2 ^ shift) with hbit | hbit
  · rw [hbit]
    omega
  · rw [hbit]
    omega

theorem value_roundScaled {m : UInt64} {k : Int} {precision : ℕ} :
    value (roundScaled m k precision) =
      if 0 ≤ k then m.toNat * 10 ^ precision * 2 ^ k.toNat
      else halfEven (m.toNat * 10 ^ precision) (-k).toNat := by
  have hscaled : value (mulTens (bigFromU64 m) precision) = m.toNat * 10 ^ precision := by
    rw [value_mulTens, value_bigFromU64]
  rw [roundScaled]
  split
  · rw [value_bigShl, hscaled]
  · rename_i hnegative
    obtain ⟨shift, hshift⟩ := Nat.exists_eq_add_of_le' (show 1 ≤ (-k).toNat by omega)
    have heven := halfEven_succ (m.toNat * 10 ^ precision) shift
    have hround := @roundUp_iff (mulTens (bigFromU64 m) precision) shift
    rw [hscaled] at hround
    rw [hshift, heven]
    dsimp only
    rw [Nat.add_sub_cancel, if_congr hround rfl rfl]
    split
    · rw [value_bigAddOne, value_bigShr, hscaled]
    · rw [value_bigShr, hscaled]

theorem bigMulSmall_ne_nil {limbs : Limbs} {factor : UInt32} (hne : limbs ≠ []) :
    bigMulSmall limbs factor ≠ [] := by
  cases limbs with
  | nil => exact absurd rfl hne
  | cons limb rest => exact List.cons_ne_nil _ _

theorem mulTens_ne_nil : ∀ {precision : ℕ} {limbs : Limbs}, limbs ≠ [] →
    mulTens limbs precision ≠ [] := by
  intro precision
  induction precision with
  | zero => exact fun hne => hne
  | succ precision ih => exact fun hne => ih (bigMulSmall_ne_nil hne)

theorem bigShl_ne_nil {limbs : Limbs} {bits : ℕ} (hne : limbs ≠ []) :
    bigShl limbs bits ≠ [] := by
  have hpositive := List.length_pos_iff.mpr hne
  rw [← List.length_pos_iff, bigShl]
  dsimp only
  split
  · exact hpositive
  · split
    · rw [length_fillDown, List.length_append]
      omega
    · rw [length_fillDown, List.length_append]
      omega

theorem length_bigShr (limbs : Limbs) (bits : ℕ) :
    (bigShr limbs bits).length = limbs.length := by
  rw [bigShr]
  dsimp only
  split
  · exact length_fillUp _ _ _
  · rw [length_fillUp]
    split
    · exact length_fillUp _ _ _
    · exact length_fillUp _ _ _

theorem bigAddOne_ne_nil (limbs : Limbs) : bigAddOne limbs ≠ [] := by
  cases limbs with
  | nil => exact List.cons_ne_nil _ _
  | cons limb rest =>
      rw [bigAddOne]
      split
      · exact List.cons_ne_nil _ _
      · exact List.cons_ne_nil _ _

theorem roundScaled_ne_nil (m : UInt64) (k : Int) (precision : ℕ) :
    roundScaled m k precision ≠ [] := by
  have hscaled : mulTens (bigFromU64 m) precision ≠ [] :=
    mulTens_ne_nil (List.cons_ne_nil _ _)
  rw [roundScaled]
  split
  · exact bigShl_ne_nil hscaled
  · dsimp only
    split
    · exact bigAddOne_ne_nil _
    · rw [← List.length_pos_iff, length_bigShr]
      exact List.length_pos_iff.mpr hscaled

theorem pointed_append {precision : ℕ} (hpositive : 0 < precision) {high low : Text}
    (hhigh : 0 < high.length) (hlow : low.length = precision) :
    pointed precision (high ++ low) = high ++ Text.ofAscii "." ++ low := by
  have hlong : ¬ (high ++ low).length ≤ precision := by
    rw [List.length_append]
    omega
  have hcut : (high ++ low).length - precision = high.length := by
    rw [List.length_append, hlow, Nat.add_sub_cancel]
  rw [pointed, if_neg hpositive.ne', if_neg hlong]
  dsimp only
  rw [hcut, List.take_left, List.drop_left]

theorem pointed_decimal (precision digits : ℕ) :
    pointed precision (Text.decimal digits) = Text.decimal (digits / 10 ^ precision) ++
      if precision = 0 then []
      else Text.ofAscii "." ++ Text.fixed precision (digits % 10 ^ precision) := by
  rcases Nat.eq_zero_or_pos precision with rfl | hpositive
  · rw [pointed, if_pos rfl, if_pos rfl, Nat.pow_zero, Nat.div_one, List.append_nil]
  rw [if_neg hpositive.ne', ← List.append_assoc]
  have hlow : digits % 10 ^ precision < 10 ^ precision :=
    Nat.mod_lt _ (Nat.pow_pos (by decide))
  by_cases hshort : digits < 10 ^ precision
  · -- Padding puts a zero in front of the point.
    have hpadded : Text.padStart (precision + 1) (Text.decimal digits) =
        Text.decimal 0 ++ Text.fixed precision digits := by
      rw [Text.padStart_decimal (by rw [Nat.pow_succ]; omega), Text.fixed_succ_of_lt hshort]
    have hle : (Text.decimal digits).length ≤ precision :=
      (Text.length_decimal_le hpositive).mpr hshort
    have hlong : ¬ (Text.decimal 0 ++ Text.fixed precision digits).length ≤ precision := by
      rw [List.length_append, Text.length_fixed, Text.length_decimal_digit (by decide)]
      omega
    rw [Nat.div_eq_of_lt hshort, Nat.mod_eq_of_lt hshort,
      ← pointed_append hpositive (Text.length_decimal_pos _) (Text.length_fixed _ _)]
    rw [pointed, pointed, if_pos hle, if_neg hlong, hpadded, if_neg hpositive.ne',
      if_neg hpositive.ne']
  · have hhigh : 0 < digits / 10 ^ precision :=
      Nat.div_pos (Nat.not_lt.mp hshort) (Nat.pow_pos (by decide))
    rw [← pointed_append hpositive (Text.length_decimal_pos _) (Text.length_fixed _ _),
      ← Text.decimal_split hhigh hlow, Nat.div_add_mod']

theorem halfEven_zero (count : ℕ) : halfEven count 0 = count := by
  rw [halfEven, Nat.pow_zero, Nat.mod_one, Nat.div_one, if_neg]
  omega

/-- Rounding off binary digits of a multiple rounds to decimal places. -/
theorem nearestEven_places (precision count shift : ℕ) :
    NearestEven (fun cell : ℕ => (cell : ℚ) / 10 ^ precision) Set.univ
      (count * (1 / (2 ^ shift * 10 ^ precision))) (halfEven count shift) := by
  have hmono : StrictMonoOn (fun cell : ℕ => (cell : ℚ) / 10 ^ precision) Set.univ := by
    intro cell _ other _ hlt
    exact div_lt_div_of_pos_right (by exact_mod_cast hlt) (by positivity)
  have hround := @nearestEven_halfEven ℚ _ _ _ _ _ hmono 0 count shift Even.zero
    (1 / (2 ^ shift * 10 ^ precision)) (by positivity) trivial trivial
    (by field_simp; simp) (by field_simp; simp)
  rwa [Nat.zero_add] at hround

theorem nearestEven_roundScaled (m : UInt64) (k : Int) (precision : ℕ) :
    NearestEven (fun cell : ℕ => (cell : ℚ) / 10 ^ precision) Set.univ
      (m.toNat * (2 : ℚ) ^ k) (value (roundScaled m k precision)) := by
  rw [value_roundScaled]
  split
  · rename_i hpositive
    obtain ⟨shift, rfl⟩ := Int.eq_ofNat_of_zero_le hpositive
    have hround := nearestEven_places precision (m.toNat * 10 ^ precision * 2 ^ shift) 0
    rw [halfEven_zero] at hround
    rw [Int.toNat_natCast]
    convert hround using 1
    push_cast
    field_simp
    simp
  · rename_i hnegative
    obtain ⟨shift, rfl⟩ : ∃ shift : ℕ, k = -(shift : Int) := ⟨k.natAbs, by omega⟩
    have hround := nearestEven_places precision (m.toNat * 10 ^ precision) shift
    rw [neg_neg, Int.toNat_natCast]
    convert hround using 1
    push_cast
    rw [zpow_neg, zpow_natCast]
    field_simp

/-- The exact value of a double in decimal digits, rounded once. -/
structure Rounded (value : Double) (precision : ℕ) (whole fraction : Text) : Prop where
  nonempty : whole ≠ []
  lead : whole.head? = some Text.zero → whole = [Text.zero]
  places : fraction.length = precision
  nearest : ∃ digits, Text.readNatural (whole ++ fraction) = some digits ∧
    NearestEven (fun cell : ℕ => (cell : ℚ) / 10 ^ precision) Set.univ value.magnitude digits

theorem rounded_digits {value : Double} {precision digits : ℕ}
    (hnearest : NearestEven (fun cell : ℕ => (cell : ℚ) / 10 ^ precision) Set.univ
      value.magnitude digits) :
    Rounded value precision (Text.decimal (digits / 10 ^ precision))
      (Text.fixed precision (digits % 10 ^ precision)) where
  nonempty := Text.decimal_ne_nil _
  lead := by
    intro hhead
    rw [Text.decimal_head hhead]
    rfl
  places := Text.length_fixed _ _
  nearest := by
    refine ⟨digits, ?_, hnearest⟩
    rw [Text.readNatural_append_fixed (Text.readNatural_decimal _)
      (Nat.mod_lt _ (Nat.pow_pos (by decide))), Nat.div_add_mod']

theorem splitMagnitude_fst (raw : Double) :
    (splitMagnitude raw).1.toNat = raw.significand := by
  rw [splitMagnitude, toNat_exponent, significand]
  split
  · exact raw.toNat_mantissa
  · exact raw.toNat_full

theorem splitMagnitude_snd (raw : Double) : (splitMagnitude raw).2 = raw.scale := by
  rw [splitMagnitude, toNat_exponent, scale]
  split
  · rfl
  · rfl

theorem magnitude_congr {bits bits' : Double}
    (hlow : bits.toNat % 2 ^ 63 = bits'.toNat % 2 ^ 63) : bits.magnitude = bits'.magnitude := by
  have hexponent : bits.exponent = bits'.exponent := by
    rw [exponent_eq, exponent_eq, hlow]
  have hmantissa : bits.mantissa = bits'.mantissa := by
    rw [mantissa_eq, mantissa_eq, hlow]
  rw [magnitude, magnitude, significand, significand, scale, scale, hexponent, hmantissa]

theorem formatFixedPoint_zero {value : Double} (hzero : value.significand = 0)
    (precision fuel : ℕ) : formatFixedPoint value precision fuel =
      .done ((if value.negative then Text.ofAscii "-" else []) ++ Text.decimal 0 ++
        if precision = 0 then [] else Text.ofAscii "." ++ Text.fixed precision 0) := by
  rw [formatFixedPoint, if_pos (value.shifted_iff.mpr hzero), if_congr value.sign_iff rfl rfl,
    Text.fixed_zero]
  rcases Nat.eq_zero_or_pos precision with rfl | hpositive
  · split <;> rfl
  · rw [if_pos hpositive, if_neg hpositive.ne']
    split <;> rfl

theorem formatFixedPoint_nonzero {value : Double} (hfinite : value.Finite)
    (hne : value.significand ≠ 0) (precision : ℕ) :
    ∃ digits enough, NearestEven (fun cell : ℕ => (cell : ℚ) / 10 ^ precision) Set.univ
        value.magnitude digits ∧
      ∀ fuel, enough ≤ fuel → formatFixedPoint value precision fuel =
        .done ((if value.negative then Text.ofAscii "-" else []) ++
          pointed precision (Text.decimal digits)) := by
  obtain ⟨raw, hraw⟩ : ∃ raw : Double,
      raw = if value >>> 63 = 1 then value ^^^ 0x8000000000000000 else value := ⟨_, rfl⟩
  have hmagnitude : raw.magnitude = value.magnitude := by
    apply magnitude_congr
    rw [hraw]
    split
    · exact value.toNat_negated
    · rfl
  have hnearest := nearestEven_roundScaled (splitMagnitude raw).1 (splitMagnitude raw).2 precision
  rw [splitMagnitude_fst, splitMagnitude_snd, ← magnitude, hmagnitude] at hnearest
  obtain ⟨enough, henough⟩ := bigToDecimal_eq
    (roundScaled_ne_nil (splitMagnitude raw).1 raw.scale precision)
  refine ⟨_, enough, hnearest, fun fuel hfuel => ?_⟩
  rw [formatFixedPoint, if_neg (mt value.shifted_iff.mp hne),
    if_neg (mt value.exponent_iff.mp hfinite)]
  dsimp only
  rw [← hraw, splitMagnitude_snd, henough fuel hfuel]
  change Eval.done _ = _
  rw [if_congr value.sign_iff rfl rfl]
  split <;> rfl

theorem formatFixedPoint_exact {value : Double} (hfinite : value.Finite) (precision : ℕ) :
    ∃ whole fraction enough, Rounded value precision whole fraction ∧
      ∀ fuel, enough ≤ fuel → formatFixedPoint value precision fuel =
        .done ((if value.negative then Text.ofAscii "-" else []) ++ whole ++
          if precision = 0 then [] else Text.ofAscii "." ++ fraction) := by
  by_cases hzero : value.significand = 0
  · have hnearest : NearestEven (fun cell : ℕ => (cell : ℚ) / 10 ^ precision) Set.univ
        value.magnitude 0 := by
      have hround := nearestEven_places precision 0 0
      rw [halfEven_zero] at hround
      rw [magnitude, hzero]
      simpa using hround
    refine ⟨_, _, 0, rounded_digits hnearest, fun fuel _ => ?_⟩
    rw [formatFixedPoint_zero hzero, Nat.zero_div, Nat.zero_mod]
  · obtain ⟨digits, enough, hnearest, hformat⟩ := formatFixedPoint_nonzero hfinite hzero precision
    refine ⟨_, _, enough, rounded_digits hnearest, fun fuel hfuel => ?_⟩
    rw [hformat fuel hfuel, pointed_decimal, List.append_assoc]

theorem formatFixedPoint_exact_tenth : (0x3fa999999999999a : Double).Finite ∧
    ∃ whole fraction enough, Rounded 0x3fa999999999999a 1 whole fraction ∧
      ∀ fuel, enough ≤ fuel → formatFixedPoint 0x3fa999999999999a 1 fuel =
        .done ((if negative 0x3fa999999999999a then Text.ofAscii "-" else []) ++ whole ++
          if 1 = 0 then [] else Text.ofAscii "." ++ fraction) :=
  ⟨by decide, formatFixedPoint_exact (by decide) 1⟩

/-- The double of 0.05 lies above the middle. -/
example : formatFixedPoint 0x3fa999999999999a 1 3 = .done (Text.ofAscii "0.1") := by decide

end Double

end MoonBoofuzz
