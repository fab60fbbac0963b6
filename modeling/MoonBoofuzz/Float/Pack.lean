import MoonBoofuzz.Data.Rounding
import MoonBoofuzz.Float.Double
import MoonBoofuzz.Model.Integer

namespace MoonBoofuzz

namespace Double

/-! Packing a double as binary32. -/

def packSign (value : Double) : UInt32 :=
  (value >>> 63 <<< 31).toUInt32 &&& 0x80000000

def packNormal (sign biased : UInt32) (full : UInt64) : UInt32 :=
  let dropped := full &&& 0x1fffffff
  let kept := (full >>> 29).toUInt32
  let (kept, exp) :=
    if dropped > 0x10000000 ∨ dropped = 0x10000000 ∧ kept &&& 1 = 1 then
      if kept + 1 = 0x800000 then (0, biased + 1) else (kept + 1, biased)
    else (kept, biased)
  sign ||| (exp <<< 23) ||| (kept &&& 0x7fffff)

def packSubnormal (sign : UInt32) (shift : Nat) (full : UInt64) : UInt32 :=
  if shift ≤ 53 then
    let quotient := full >>> UInt64.ofNat shift
    let remainder := full &&& (((1 : UInt64) <<< UInt64.ofNat shift) - 1)
    let half : UInt64 := 1 <<< UInt64.ofNat (shift - 1)
    let result :=
      if remainder > half ∨ remainder = half ∧ quotient &&& 1 = 1 then
        quotient.toUInt32 + 1
      else quotient.toUInt32
    -- Rounded up into the smallest normal exponent.
    if result = 0x800000 then sign ||| ((1 : UInt32) <<< 23) else sign ||| result
  else sign ||| 0

def packFloat (value : Double) : UInt32 :=
  let sign := packSign value
  let exponent := ((value >>> 52) &&& 0x7ff).toNat
  let mantissa := value &&& 0xfffffffffffff
  if exponent = 0x7ff then
    if mantissa = 0 then sign ||| 0x7f800000 else sign ||| 0x7fc00000
  else if exponent = 0 ∧ mantissa = 0 then sign
  else
    -- Full significand with the implicit bit, aligned for a 23-bit field.
    let full := mantissa ||| 0x10000000000000
    let biased := (exponent : Int) - 896
    if biased ≥ 0xff then sign ||| 0x7f800000
    else if biased > 0 then packNormal sign (UInt32.ofNat biased.toNat) full
    else packSubnormal sign (926 - exponent) full

/-- `encode_float_ieee_754`. -/
def encodeFloatIeee754 (value : Double) (endian : Endian) : Bytes :=
  encodeInteger (packFloat value).toNat 32 endian

theorem or_of_disjoint {high low : Nat} {shift : Nat} (hlow : low < 2 ^ shift)
    (hhigh : high % 2 ^ shift = 0) : high ||| low = high + low := by
  have hsplit := Nat.div_add_mod high (2 ^ shift)
  rw [hhigh, Nat.add_zero] at hsplit
  rw [← hsplit]
  exact (Nat.two_pow_add_eq_or_of_lt hlow _).symm

theorem toNat_packSign (value : Double) :
    (packSign value).toNat = if value.negative then 2 ^ 31 else 0 := by
  have hsign := value.toNat_sign
  rw [packSign, UInt32.toNat_and, UInt64.toNat_toUInt32, UInt64.toNat_shiftLeft, hsign]
  by_cases hnegative : value.negative
  · rw [if_pos hnegative, if_pos hnegative]
    rfl
  · rw [if_neg hnegative, if_neg hnegative]
    rfl

theorem toNat_fields {sign exp kept : UInt32} (hsign : sign.toNat % 2 ^ 31 = 0)
    (hexp : exp.toNat < 2 ^ 8) :
    (sign ||| (exp <<< 23) ||| (kept &&& 0x7fffff)).toNat =
      sign.toNat + (exp.toNat * 2 ^ 23 + kept.toNat % 2 ^ 23) := by
  have hshifted : (exp <<< 23).toNat = exp.toNat * 2 ^ 23 := by
    rw [UInt32.toNat_shiftLeft]
    change exp.toNat <<< 23 % 2 ^ 32 = _
    rw [Nat.shiftLeft_eq]
    exact Nat.mod_eq_of_lt (by omega)
  have hfraction : (kept &&& 0x7fffff).toNat = kept.toNat % 2 ^ 23 := by
    rw [UInt32.toNat_and]
    exact Nat.and_two_pow_sub_one_eq_mod _ 23
  have hsmall : kept.toNat % 2 ^ 23 < 2 ^ 23 := Nat.mod_lt _ (by decide)
  rw [UInt32.toNat_or, UInt32.toNat_or, hshifted, hfraction,
    @or_of_disjoint _ _ 31 (by omega) hsign, @or_of_disjoint _ _ 23 hsmall (by omega)]
  omega

theorem odd_iff (value : UInt64) : value &&& 1 = 1 ↔ value.toNat % 2 = 1 := by
  rw [← UInt64.toNat_inj, UInt64.toNat_and]
  change value.toNat &&& 1 = 1 ↔ _
  rw [Nat.and_one_is_mod]

theorem odd_iff_of_word (value : UInt32) : value &&& 1 = 1 ↔ value.toNat % 2 = 1 := by
  rw [← UInt32.toNat_inj, UInt32.toNat_and]
  change value.toNat &&& 1 = 1 ↔ _
  rw [Nat.and_one_is_mod]

theorem toNat_packNormal {sign biased : UInt32} {full : UInt64}
    (hsign : sign.toNat % 2 ^ 31 = 0) (hbiased : biased.toNat < 2 ^ 8)
    (hlow : 2 ^ 52 ≤ full.toNat) (hhigh : full.toNat < 2 ^ 53) :
    (packNormal sign biased full).toNat =
      sign.toNat + (biased.toNat * 2 ^ 23 + halfEven full.toNat 29 % 2 ^ 23) := by
  have hdropped : (full &&& 0x1fffffff).toNat = full.toNat % 2 ^ 29 := by
    rw [UInt64.toNat_and]
    exact Nat.and_two_pow_sub_one_eq_mod _ 29
  have hkept : (full >>> 29).toUInt32.toNat = full.toNat / 2 ^ 29 := by
    rw [UInt64.toNat_toUInt32, UInt64.toNat_shiftRight]
    change full.toNat >>> 29 % 2 ^ 32 = _
    rw [Nat.shiftRight_eq_div_pow]
    omega
  have hround : (full &&& 0x1fffffff > 0x10000000 ∨ full &&& 0x1fffffff = 0x10000000 ∧
      (full >>> 29).toUInt32 &&& 1 = 1) ↔
      (2 ^ 28 < full.toNat % 2 ^ 29 ∨
        full.toNat % 2 ^ 29 = 2 ^ 28 ∧ full.toNat / 2 ^ 29 % 2 = 1) := by
    rw [odd_iff_of_word, hkept, gt_iff_lt, UInt64.lt_iff_toNat_lt, ← UInt64.toNat_inj, hdropped]
    rfl
  have heven := halfEven_succ full.toNat 28
  rw [packNormal]
  simp only [hround]
  split at heven <;> rename_i hup
  · -- The carry is looked for one place too low: the implicit bit is still there.
    have hnext : ((full >>> 29).toUInt32 + 1).toNat = full.toNat / 2 ^ 29 + 1 := by
      rw [UInt32.toNat_add, hkept]
      exact Nat.mod_eq_of_lt (by change _ + 1 < 2 ^ 32; omega)
    have hcarry : (full >>> 29).toUInt32 + 1 ≠ 0x800000 := by
      rw [ne_eq, ← UInt32.toNat_inj, hnext]
      change ¬ _ + 1 = 2 ^ 23
      omega
    rw [if_pos hup, if_neg hcarry, toNat_fields hsign hbiased, hnext, heven]
  · rw [if_neg hup, toNat_fields hsign hbiased, hkept, heven]

theorem halfEven_significand {value shift : Nat} (hvalue : value < 2 ^ 53) (hshift : 54 ≤ shift) :
    value / 2 ^ shift = 0 ∧ halfEven value shift = 0 := by
  have hstep : 2 ^ 54 ≤ 2 ^ shift := Nat.pow_le_pow_right (by decide) hshift
  exact ⟨Nat.div_eq_of_lt (by omega), halfEven_of_lt (by omega)⟩

theorem toNat_packSubnormal {sign : UInt32} {full : UInt64} {shift : Nat}
    (hsign : sign.toNat % 2 ^ 31 = 0) (hshift : 30 ≤ shift) (hfull : full.toNat < 2 ^ 53) :
    (packSubnormal sign shift full).toNat = sign.toNat + halfEven full.toNat shift := by
  by_cases hle : shift ≤ 53
  · obtain ⟨shift, rfl⟩ := Nat.exists_eq_add_of_le' (show 1 ≤ shift by omega)
    have hamount : ∀ amount ≤ 53, (UInt64.ofNat amount).toNat % 64 = amount := by
      intro amount hamount
      rw [UInt64.toNat_ofNat']
      omega
    have hpower : ∀ amount ≤ 53, ((1 : UInt64) <<< UInt64.ofNat amount).toNat = 2 ^ amount := by
      intro amount hbound
      rw [UInt64.toNat_shiftLeft, hamount amount hbound, Nat.shiftLeft_eq]
      change 1 * 2 ^ amount % 2 ^ 64 = _
      rw [Nat.one_mul]
      exact Nat.mod_eq_of_lt (Nat.pow_lt_pow_right (by decide) (by omega))
    have hquotient : (full >>> UInt64.ofNat (shift + 1)).toNat =
        full.toNat / 2 ^ (shift + 1) := by
      rw [UInt64.toNat_shiftRight, hamount _ hle, Nat.shiftRight_eq_div_pow]
    have hremainder : (full &&& (((1 : UInt64) <<< UInt64.ofNat (shift + 1)) - 1)).toNat =
        full.toNat % 2 ^ (shift + 1) := by
      have hpositive := Nat.two_pow_pos (shift + 1)
      rw [UInt64.toNat_and, UInt64.toNat_sub_of_le, hpower _ hle]
      · exact Nat.and_two_pow_sub_one_eq_mod _ _
      · rw [UInt64.le_iff_toNat_le, hpower _ hle]
        exact hpositive
    have hstep : 2 ^ 30 ≤ 2 ^ (shift + 1) := Nat.pow_le_pow_right (by decide) hshift
    have hsmall : full.toNat / 2 ^ (shift + 1) < 2 ^ 23 := by
      rw [Nat.div_lt_iff_lt_mul (by omega)]
      omega
    have hword : (full >>> UInt64.ofNat (shift + 1)).toUInt32.toNat =
        full.toNat / 2 ^ (shift + 1) := by
      rw [UInt64.toNat_toUInt32, hquotient]
      exact Nat.mod_eq_of_lt (by omega)
    have hround : (full &&& (((1 : UInt64) <<< UInt64.ofNat (shift + 1)) - 1) >
          (1 : UInt64) <<< UInt64.ofNat (shift + 1 - 1) ∨
        full &&& (((1 : UInt64) <<< UInt64.ofNat (shift + 1)) - 1) =
          (1 : UInt64) <<< UInt64.ofNat (shift + 1 - 1) ∧
            full >>> UInt64.ofNat (shift + 1) &&& 1 = 1) ↔
        (2 ^ shift < full.toNat % 2 ^ (shift + 1) ∨
          full.toNat % 2 ^ (shift + 1) = 2 ^ shift ∧
            full.toNat / 2 ^ (shift + 1) % 2 = 1) := by
      rw [odd_iff, hquotient, gt_iff_lt, UInt64.lt_iff_toNat_lt, ← UInt64.toNat_inj,
        hremainder, Nat.add_sub_cancel, hpower shift (by omega)]
    have heven := halfEven_succ full.toNat shift
    have hassembled : ∀ result : UInt32, result.toNat ≤ 2 ^ 23 →
        (if result = 0x800000 then sign ||| ((1 : UInt32) <<< 23) else sign ||| result).toNat =
          sign.toNat + result.toNat := by
      intro result hresult
      have hor : (sign ||| result).toNat = sign.toNat + result.toNat := by
        rw [UInt32.toNat_or, @or_of_disjoint _ _ 31 (by omega) hsign]
      split
      · rename_i hcarry
        rw [← hor, hcarry]
        rfl
      · exact hor
    rw [packSubnormal, if_pos hle]
    simp only [hround]
    split at heven <;> rename_i hup
    · have hnext : ((full >>> UInt64.ofNat (shift + 1)).toUInt32 + 1).toNat =
          full.toNat / 2 ^ (shift + 1) + 1 := by
        rw [UInt32.toNat_add, hword]
        exact Nat.mod_eq_of_lt (by change _ + 1 < 2 ^ 32; omega)
      rw [if_pos hup, hassembled _ (by omega), hnext, heven]
    · rw [if_neg hup, hassembled _ (by omega), hword, heven]
  · have hzero := halfEven_significand hfull (show 54 ≤ shift by omega)
    rw [packSubnormal, if_neg hle, hzero.2, UInt32.toNat_or]
    exact Nat.or_zero _

/-- The magnitude with these bits.  The pattern of infinity stands for the first power of
two that is out of range. -/
def single (pattern : ℕ) : ℚ :=
  if pattern < 2 ^ 23 then pattern * (2 : ℚ) ^ (-149 : ℤ)
  else (pattern % 2 ^ 23 + 2 ^ 23 : ℕ) * (2 : ℚ) ^ ((pattern / 2 ^ 23 : ℕ) - 150 : ℤ)

def singles : Set ℕ := Set.Iic 0x7f800000

theorem single_eq {binade count : ℕ} (hcount : count ≤ 2 ^ 24)
    (hbinade : binade = 0 ∨ 2 ^ 23 ≤ count) :
    single (binade * 2 ^ 23 + count) = count * (2 : ℚ) ^ (binade - 149 : ℤ) := by
  rw [single]
  split
  · rename_i hsmall
    obtain rfl : binade = 0 := by omega
    simp
  · rename_i hlarge
    rcases Nat.eq_or_lt_of_le hcount with rfl | hbelow
    · -- The first number of the next binade.
      have hfraction : (binade * 2 ^ 23 + 2 ^ 24) % 2 ^ 23 = 0 := by omega
      have hexponent : (binade * 2 ^ 23 + 2 ^ 24) / 2 ^ 23 = binade + 2 := by omega
      rw [hfraction, hexponent,
        show ((binade + 2 : ℕ) - 150 : ℤ) = binade - 149 + 1 by push_cast; ring,
        zpow_add_one₀ (by norm_num)]
      push_cast
      ring
    · have hlow : 2 ^ 23 ≤ count := by omega
      have hfraction : (binade * 2 ^ 23 + count) % 2 ^ 23 = count - 2 ^ 23 := by omega
      have hexponent : (binade * 2 ^ 23 + count) / 2 ^ 23 = binade + 1 := by omega
      rw [hfraction, hexponent, Nat.sub_add_cancel hlow,
        show ((binade + 1 : ℕ) - 150 : ℤ) = binade - 149 by push_cast; ring]

theorem single_strictMono : StrictMono single := by
  apply strictMono_nat_of_lt_succ
  intro pattern
  obtain ⟨binade, count, hcount, hbinade, rfl⟩ : ∃ binade count, count < 2 ^ 24 ∧
      (binade = 0 ∨ 2 ^ 23 ≤ count) ∧ pattern = binade * 2 ^ 23 + count := by
    by_cases hsmall : pattern < 2 ^ 23
    · exact ⟨0, pattern, by omega, Or.inl rfl, by omega⟩
    · exact ⟨pattern / 2 ^ 23 - 1, pattern % 2 ^ 23 + 2 ^ 23, by omega, Or.inr (by omega),
        by omega⟩
  rw [Nat.add_assoc, single_eq (by omega) hbinade, single_eq (by omega) (by omega)]
  have hunit : (0 : ℚ) < 2 ^ (binade - 149 : ℤ) := zpow_pos (by norm_num) _
  push_cast
  linarith

theorem singles_mono : StrictMonoOn single singles := single_strictMono.strictMonoOn _

/-- Rounding off the digits of a significand that lies in one binade. -/
theorem nearestEven_single {binade count shift : ℕ} {scale : ℤ}
    (hscale : scale + shift = binade - 149) (hcount : count / 2 ^ shift < 2 ^ 24)
    (hbinade : binade = 0 ∨ 2 ^ 23 ≤ count / 2 ^ shift) (hroom : binade ≤ 253) :
    NearestEven single singles (count * (2 : ℚ) ^ scale)
      (binade * 2 ^ 23 + halfEven count shift) := by
  have hunit : ∀ quotient : ℚ, quotient * (2 : ℚ) ^ (binade - 149 : ℤ) =
      quotient * 2 ^ shift * (2 : ℚ) ^ scale := by
    intro quotient
    rw [← hscale, zpow_add₀ (by norm_num), zpow_natCast]
    ring
  apply nearestEven_halfEven singles_mono
  · exact Even.mul_left (by decide) _
  · exact zpow_pos (by norm_num) _
  · exact Set.mem_Iic.mpr (by omega)
  · exact Set.mem_Iic.mpr (by omega)
  · rw [single_eq (by omega) hbinade, hunit]
  · rw [Nat.add_assoc, single_eq (by omega) (by omega), hunit]
    push_cast
    rfl

/-- The number is packed as the nearest number of binary32, with its sign. -/
def PacksNearest (value : Double) (endian : Endian) : Prop :=
  ∃ pattern, NearestEven single singles value.magnitude pattern ∧
    encodeFloatIeee754 value endian =
      encodeInteger ((if value.negative then 2 ^ 31 else 0) + pattern) 32 endian

theorem encodeInteger_inj {first second : Nat} {endian : Endian} (hfirst : first < 2 ^ 32)
    (hsecond : second < 2 ^ 32)
    (hequal : encodeInteger first 32 endian = encodeInteger second 32 endian) :
    first = second := by
  have hdecoded := congrArg (decodeInteger endian) hequal
  have hwidth : ∀ number < 2 ^ 32,
      decodeInteger endian (encodeInteger number 32 endian) = number := by
    intro number hnumber
    have hcount := decodeInteger_encodeInteger number 4 endian
    rwa [Nat.mod_eq_of_lt (by omega)] at hcount
  rwa [hwidth _ hfirst, hwidth _ hsecond] at hdecoded

theorem packsNearest_iff {value : Double} {endian : Endian} {pattern : ℕ}
    (hpattern : NearestEven single singles value.magnitude pattern) :
    PacksNearest value endian ↔
      (packFloat value).toNat = (if value.negative then 2 ^ 31 else 0) + pattern := by
  have hbound : ∀ pattern ∈ singles, (if value.negative then 2 ^ 31 else 0) + pattern < 2 ^ 32 := by
    intro pattern hmem
    have hle : pattern ≤ 0x7f800000 := hmem
    split <;> omega
  constructor
  · rintro ⟨other, hother, hencoded⟩
    obtain rfl := hpattern.unique singles_mono Set.ordConnected_Iic hother
    exact encodeInteger_inj (packFloat value).toNat_lt (hbound _ hpattern.mem) hencoded
  · intro hpacked
    refine ⟨pattern, hpattern, ?_⟩
    rw [encodeFloatIeee754, hpacked]

/-- The double rounds up to the next power of two in the normal range of binary32. -/
def Carries (value : Double) : Prop :=
  897 ≤ value.exponent ∧ value.exponent ≤ 1150 ∧ 2 ^ 52 - 2 ^ 28 ≤ value.mantissa

theorem packFloat_sign_mod (value : Double) : (packSign value).toNat % 2 ^ 31 = 0 := by
  rw [toNat_packSign]
  split <;> rfl

theorem packFloat_finite {value : Double} (hfinite : value.Finite)
    (hnonzero : ¬ (value.exponent = 0 ∧ value.mantissa = 0)) :
    packFloat value =
      if 1151 ≤ value.exponent then packSign value ||| 0x7f800000
      else if 897 ≤ value.exponent then
        packNormal (packSign value) (UInt32.ofNat (value.exponent - 896))
          ((value &&& 0xfffffffffffff) ||| 0x10000000000000)
      else
        packSubnormal (packSign value) (926 - value.exponent)
          ((value &&& 0xfffffffffffff) ||| 0x10000000000000) := by
  have hmantissa : value &&& 0xfffffffffffff = 0 ↔ value.mantissa = 0 := by
    rw [← UInt64.toNat_inj, toNat_mantissa]
    rfl
  have hbiased : ((value.exponent : Int) - 896).toNat = value.exponent - 896 := by omega
  simp only [packFloat, toNat_exponent, hmantissa, hbiased]
  rw [if_neg hfinite, if_neg hnonzero]
  by_cases hlarge : 1151 ≤ value.exponent
  · rw [if_pos (by omega), if_pos hlarge]
  · rw [if_neg (by omega), if_neg hlarge]
    by_cases hnormal : 897 ≤ value.exponent
    · rw [if_pos (by omega), if_pos hnormal]
    · rw [if_neg (by omega), if_neg hnormal]

theorem magnitude_normal {value : Double} (hpositive : value.exponent ≠ 0) :
    value.magnitude = (value.mantissa + 2 ^ 52 : ℕ) * (2 : ℚ) ^ ((value.exponent : ℤ) - 1075) := by
  rw [magnitude, significand, scale, if_neg hpositive, if_neg hpositive]

theorem packsNearest_normal {value : Double} (endian : Endian) (hlow : 897 ≤ value.exponent)
    (hhigh : value.exponent ≤ 1150) :
    PacksNearest value endian ↔ ¬ 2 ^ 52 - 2 ^ 28 ≤ value.mantissa := by
  have hfraction := value.mantissa_lt
  have hfull := value.toNat_full
  have hpattern := @nearestEven_single (value.exponent - 897) (value.mantissa + 2 ^ 52) 29
    ((value.exponent : ℤ) - 1075) (by omega) (by omega) (by omega) (by omega)
  rw [← magnitude_normal (by omega)] at hpattern
  have hbiased : (UInt32.ofNat (value.exponent - 896)).toNat = value.exponent - 896 := by
    rw [UInt32.toNat_ofNat']
    omega
  rw [packsNearest_iff hpattern, packFloat_finite (by unfold Finite; omega) (by omega),
    if_neg (by omega), if_pos hlow, toNat_packNormal (packFloat_sign_mod value) (by omega)
      (by omega) (by omega), toNat_packSign, hbiased, hfull]
  have hsucc := halfEven_succ (value.mantissa + 2 ^ 52) 28
  -- The fraction wraps exactly when the rounded significand has 25 bits.
  have hcarry : 2 ^ 52 - 2 ^ 28 ≤ value.mantissa ↔
      halfEven (value.mantissa + 2 ^ 52) 29 = 2 ^ 24 := by
    rw [hsucc]
    split <;> omega
  have hrange : 2 ^ 23 ≤ halfEven (value.mantissa + 2 ^ 52) 29 ∧
      halfEven (value.mantissa + 2 ^ 52) 29 ≤ 2 ^ 24 := by
    rcases halfEven_cases (value.mantissa + 2 ^ 52) 29 with hcase | hcase <;> omega
  rw [hcarry]
  omega

theorem packsNearest_subnormal {value : Double} (endian : Endian)
    (hpositive : value.exponent ≠ 0) (hlow : value.exponent ≤ 896) :
    PacksNearest value endian := by
  have hfraction := value.mantissa_lt
  have hstep : 2 ^ 30 ≤ 2 ^ (926 - value.exponent) := Nat.pow_le_pow_right (by decide) (by omega)
  have hquotient : (value.mantissa + 2 ^ 52) / 2 ^ (926 - value.exponent) < 2 ^ 23 := by
    rw [Nat.div_lt_iff_lt_mul (by omega)]
    omega
  have hpattern := @nearestEven_single 0 (value.mantissa + 2 ^ 52) (926 - value.exponent)
    ((value.exponent : ℤ) - 1075) (by omega) (by omega) (Or.inl rfl) (by omega)
  rw [← magnitude_normal hpositive, Nat.zero_mul, Nat.zero_add] at hpattern
  have hfull := value.toNat_full
  rw [packsNearest_iff hpattern, packFloat_finite (by unfold Finite; omega) (by omega),
    if_neg (by omega), if_neg (by omega), toNat_packSubnormal (packFloat_sign_mod value)
      (by omega) (by omega), toNat_packSign, hfull]

theorem packsNearest_zero {value : Double} (endian : Endian) (hzero : value.exponent = 0) :
    PacksNearest value endian := by
  have hfraction := value.mantissa_lt
  obtain ⟨hquotient, hnone⟩ :=
    @halfEven_significand value.mantissa 925 (by omega) (by decide)
  have hpattern := @nearestEven_single 0 value.mantissa 925 (-1074) (by norm_num)
    (by rw [hquotient]; exact Nat.two_pow_pos 24) (Or.inl rfl) (by omega)
  have hmagnitude : value.magnitude = value.mantissa * (2 : ℚ) ^ (-1074 : ℤ) := by
    rw [magnitude, significand, scale, if_pos hzero, if_pos hzero]
  rw [hnone, ← hmagnitude] at hpattern
  rw [packsNearest_iff hpattern]
  by_cases hnull : value.mantissa = 0
  · have hpacked : packFloat value = packSign value := by
      have hmantissa : value &&& 0xfffffffffffff = 0 := by
        rw [← UInt64.toNat_inj, toNat_mantissa, hnull]
        rfl
      simp only [packFloat, toNat_exponent, hzero, hmantissa]
      rfl
    rw [hpacked, toNat_packSign]
    rfl
  · have hfull := value.toNat_full
    obtain ⟨-, htiny⟩ :=
      @halfEven_significand (value.mantissa + 2 ^ 52) 926 (by omega) (by decide)
    rw [packFloat_finite (by unfold Finite; omega) (by omega), if_neg (by omega),
      if_neg (by omega), hzero, toNat_packSubnormal (packFloat_sign_mod value) (by omega)
        (by omega), toNat_packSign, hfull, Nat.sub_zero, htiny, Nat.zero_mul]

theorem packsNearest_infinite {value : Double} (endian : Endian) (hfinite : value.Finite)
    (hlarge : 1151 ≤ value.exponent) : PacksNearest value endian := by
  have hpattern : NearestEven single singles value.magnitude 0x7f800000 := by
    apply nearestEven_top singles_mono isGreatest_Iic
    have htop : single 0x7f800000 = (2 : ℚ) ^ 52 * 2 ^ (76 : ℤ) := by
      rw [show 0x7f800000 = 253 * 2 ^ 23 + 2 ^ 24 from rfl,
        single_eq (Nat.le_refl _) (Or.inr (by decide))]
      norm_num
    rw [magnitude_normal (by omega), htop]
    apply mul_le_mul
    · push_cast
      linarith only [Nat.cast_nonneg (α := ℚ) value.mantissa]
    · exact zpow_le_zpow_right₀ (by norm_num) (by omega)
    · positivity
    · positivity
  rw [packsNearest_iff hpattern, packFloat_finite hfinite (by omega), if_pos hlarge,
    UInt32.toNat_or, ← toNat_packSign]
  exact @or_of_disjoint _ _ 31 (by decide) (packFloat_sign_mod value)

/-- A finite double is packed as the nearest binary32 number exactly when rounding does
not carry it into the next binade of the normal range. -/
theorem packsNearest_iff_not_carries (value : Double) (hfinite : value.Finite)
    (endian : Endian) : PacksNearest value endian ↔ ¬ Carries value := by
  rw [Carries]
  rcases Nat.lt_or_ge 1150 value.exponent with hlarge | hbelow
  · have := packsNearest_infinite endian hfinite hlarge
    simp only [this, true_iff]
    omega
  · rcases Nat.lt_or_ge 896 value.exponent with hnormal | hsmall
    · rw [packsNearest_normal endian hnormal hbelow]
      simp only [show 897 ≤ value.exponent from hnormal, hbelow, true_and]
    · by_cases hzero : value.exponent = 0
      · have := packsNearest_zero endian hzero
        simp only [this, true_iff]
        omega
      · have := packsNearest_subnormal endian hzero hsmall
        simp only [this, true_iff]
        omega

/-- The double next below one has all bits of its fraction set. -/
theorem packsNearest_not_below_one : ¬ ∀ value : Double, value.Finite → ∀ endian : Endian,
    PacksNearest value endian := by
  intro hall
  have hbelow := hall 0x3fefffffffffffff (by decide) .big
  have hpattern : NearestEven single singles (magnitude 0x3fefffffffffffff) 0x3f800000 := by
    have hnearest := @nearestEven_single 125 (2 ^ 53 - 1) 29 (-53) (by norm_num) (by decide)
      (by decide) (by decide)
    exact hnearest
  rw [packsNearest_iff hpattern] at hbelow
  exact absurd hbelow (by decide)

theorem packsNearest_three_halves :
    PacksNearest 0x3ff8000000000000 .big ↔ ¬ Carries 0x3ff8000000000000 :=
  packsNearest_iff_not_carries 0x3ff8000000000000 (by decide) .big

end Double

end MoonBoofuzz
