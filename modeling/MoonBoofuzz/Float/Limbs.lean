import Mathlib.Data.Nat.Digits.Defs
import MoonBoofuzz.Data.InPlace

namespace MoonBoofuzz

/-! Big numbers in little-endian limbs of 32 bits. -/

abbrev Limbs := List UInt32

namespace Limbs

def value (limbs : Limbs) : ℕ := Nat.ofDigits (2 ^ 32) (limbs.map UInt32.toNat)

@[simp] theorem value_nil : value [] = 0 := rfl

theorem value_cons (limb : UInt32) (rest : Limbs) :
    value (limb :: rest) = limb.toNat + 2 ^ 32 * value rest :=
  Nat.ofDigits_cons

theorem value_append (low high : Limbs) :
    value (low ++ high) = value low + 2 ^ (32 * low.length) * value high := by
  rw [value, List.map_append, Nat.ofDigits_append, List.length_map, ← pow_mul]
  rfl

theorem value_lt (limbs : Limbs) : limbs.value < 2 ^ (32 * limbs.length) := by
  rw [value, pow_mul, ← List.length_map UInt32.toNat]
  apply Nat.ofDigits_lt_base_pow_length (by decide)
  intro digit hdigit
  obtain ⟨limb, -, rfl⟩ := List.mem_map.mp hdigit
  exact limb.toNat_lt

theorem testBit_value (limbs : Limbs) (bit : ℕ) :
    limbs.value.testBit bit = (limbs.getD (bit / 32) 0).toNat.testBit (bit % 32) := by
  induction limbs generalizing bit with
  | nil => simp
  | cons limb rest ih =>
      rw [value_cons, Nat.add_comm, Nat.testBit_two_pow_mul_add _ limb.toNat_lt]
      split
      · rename_i hlow
        rw [Nat.div_eq_of_lt hlow, Nat.mod_eq_of_lt hlow]
        rfl
      · rename_i hhigh
        have hquotient : bit / 32 = (bit - 32) / 32 + 1 := by omega
        have hremainder : bit % 32 = (bit - 32) % 32 := by omega
        rw [ih, hquotient, hremainder]
        rfl

theorem testBit_limb (limbs : Limbs) (i bit : ℕ) :
    (limbs.getD i 0).toNat.testBit bit =
      (decide (bit < 32) && limbs.value.testBit (32 * i + bit)) := by
  by_cases hbit : bit < 32
  · have hquotient : (32 * i + bit) / 32 = i := by omega
    have hremainder : (32 * i + bit) % 32 = bit := by omega
    rw [testBit_value, hquotient, hremainder]
    simp [hbit]
  · have hsmall : (limbs.getD i 0).toNat < 2 ^ bit :=
      lt_of_lt_of_le (limbs.getD i 0).toNat_lt (Nat.pow_le_pow_right (by decide) (by omega))
    rw [Nat.testBit_lt_two_pow hsmall]
    simp [hbit]

theorem testBit_getD (limbs : Limbs) {i bit : ℕ} (hbit : bit < 32) :
    (limbs.getD i 0).toNat.testBit bit = limbs.value.testBit (32 * i + bit) := by
  rw [testBit_limb]
  simp [hbit]

theorem testBit_beyond (limbs : Limbs) {bit : ℕ} (hbit : 32 * limbs.length ≤ bit) :
    limbs.value.testBit bit = false :=
  Nat.testBit_lt_two_pow
    (lt_of_lt_of_le limbs.value_lt (Nat.pow_le_pow_right (by decide) hbit))

theorem value_eq_of_testBit {limbs : Limbs} {number : ℕ}
    (hbits : ∀ i bit, bit < 32 →
      (limbs.getD i 0).toNat.testBit bit = number.testBit (32 * i + bit)) :
    limbs.value = number := by
  apply Nat.eq_of_testBit_eq
  intro bit
  rw [testBit_value, hbits _ _ (Nat.mod_lt _ (by decide)), Nat.div_add_mod]

end Limbs

def bigFromU64 (value : UInt64) : Limbs := [value.toUInt32, (value >>> 32).toUInt32]

/-- `big_mul_small`, with the carry of the limbs so far. -/
def mulSmall (factor : UInt32) : Limbs → UInt64 → Limbs
  | [], carry => if carry ≠ 0 then [carry.toUInt32] else []
  | limb :: rest, carry =>
      let product := limb.toUInt64 * factor.toUInt64 + carry
      product.toUInt32 :: mulSmall factor rest (product >>> 32)

def bigMulSmall (limbs : Limbs) (factor : UInt32) : Limbs := mulSmall factor limbs 0

def bigBit (limbs : Limbs) (i : ℕ) : Bool :=
  if i / 32 ≥ limbs.length then false
  else (limbs.getD (i / 32) 0 >>> UInt32.ofNat (i % 32)) &&& 1 == 1

def bigAnyBitBelow (limbs : Limbs) (i : ℕ) : Bool :=
  (List.range (i / 32)).any (fun j => j < limbs.length && limbs.getD j 0 != 0) ||
    (i / 32 < limbs.length &&
      limbs.getD (i / 32) 0 &&& ((1 <<< UInt32.ofNat (i % 32)) - 1) != 0)

def shlWord (words count : ℕ) (limbs : Limbs) (i : ℕ) : UInt32 :=
  if words ≤ i ∧ i - words < count then limbs.getD (i - words) 0 else 0

def shlLimb (words off count : ℕ) (limbs : Limbs) (i : ℕ) : UInt32 :=
  let low : UInt64 :=
    if words + 1 ≤ i ∧ i - words - 1 < count then
      (limbs.getD (i - words - 1) 0).toUInt64 >>> UInt64.ofNat (32 - off)
    else 0
  let both : UInt64 :=
    if words ≤ i ∧ i - words < count then
      low ||| ((limbs.getD (i - words) 0).toUInt64 <<< UInt64.ofNat off)
    else low
  both.toUInt32

def bigShl (limbs : Limbs) (bits : ℕ) : Limbs :=
  if bits = 0 then limbs
  else
    let words := bits / 32
    let off := bits % 32
    let room := limbs ++ List.replicate (words + 1) 0
    if off = 0 then fillDown (shlWord words limbs.length) room.length room
    -- Written right to left so the sources are never overwritten first.
    else fillDown (shlLimb words off limbs.length) room.length room

def shrLimb (words off count : ℕ) (limbs : Limbs) (i : ℕ) : UInt32 :=
  let high := ((limbs.getD (i + words) 0).toUInt64 >>> UInt64.ofNat off).toUInt32
  if i + words + 1 < count then
    high ||| ((limbs.getD (i + words + 1) 0).toUInt64 <<< UInt64.ofNat (32 - off)).toUInt32
  else high

def bigShr (limbs : Limbs) (bits : ℕ) : Limbs :=
  let words := bits / 32
  let off := bits % 32
  let count := limbs.length
  if words ≥ count then fillUp (fun _ _ => 0) count 0 limbs
  else
    let moved :=
      if off = 0 then fillUp (fun limbs i => limbs.getD (i + words) 0) (count - words) 0 limbs
      else fillUp (shrLimb words off count) (count - words) 0 limbs
    fillUp (fun _ _ => 0) words (count - words) moved

def bigAddOne : Limbs → Limbs
  | [] => [1]
  | limb :: rest =>
      let sum := limb.toUInt64 + 1
      if sum ≤ 0xffffffff then sum.toUInt32 :: rest else sum.toUInt32 :: bigAddOne rest

open Limbs

theorem value_bigFromU64 (number : UInt64) : (bigFromU64 number).value = number.toNat := by
  have hlow : number.toUInt32.toNat = number.toNat % 2 ^ 32 := number.toNat_toUInt32
  have hhigh : (number >>> 32).toUInt32.toNat = number.toNat / 2 ^ 32 := by
    have hbound := number.toNat_lt
    rw [UInt64.toNat_toUInt32, UInt64.toNat_shiftRight]
    change number.toNat >>> 32 % 2 ^ 32 = _
    rw [Nat.shiftRight_eq_div_pow]
    omega
  rw [bigFromU64, value_cons, value_cons, value_nil, hlow, hhigh]
  omega

theorem value_mulSmall (factor : UInt32) : ∀ (limbs : Limbs) {carry : UInt64},
    carry.toNat < 2 ^ 32 →
    (mulSmall factor limbs carry).value = limbs.value * factor.toNat + carry.toNat := by
  intro limbs
  induction limbs with
  | nil =>
      intro carry hcarry
      rw [mulSmall, value_nil, Nat.zero_mul, Nat.zero_add]
      split
      · rw [value_cons, value_nil, UInt64.toNat_toUInt32, Nat.mod_eq_of_lt hcarry]
        rfl
      · rename_i hzero
        rw [ne_eq, not_not] at hzero
        rw [hzero]
        rfl
  | cons limb rest ih =>
      intro carry hcarry
      have hlimb : limb.toNat ≤ 2 ^ 32 - 1 := Nat.le_sub_one_of_lt limb.toNat_lt
      have hfactor : factor.toNat ≤ 2 ^ 32 - 1 := Nat.le_sub_one_of_lt factor.toNat_lt
      have hmul := Nat.mul_le_mul hlimb hfactor
      have hproduct : (limb.toUInt64 * factor.toUInt64 + carry).toNat =
          limb.toNat * factor.toNat + carry.toNat := by
        rw [UInt64.toNat_add, UInt64.toNat_mul, UInt32.toNat_toUInt64, UInt32.toNat_toUInt64]
        rw [Nat.mod_add_mod]
        exact Nat.mod_eq_of_lt (by omega)
      have hcarried : ((limb.toUInt64 * factor.toUInt64 + carry) >>> 32).toNat =
          (limb.toNat * factor.toNat + carry.toNat) / 2 ^ 32 := by
        rw [UInt64.toNat_shiftRight, hproduct]
        exact Nat.shiftRight_eq_div_pow _ _
      rw [mulSmall, value_cons, value_cons, ih (by rw [hcarried]; omega), hcarried,
        UInt64.toNat_toUInt32, hproduct, Nat.add_mul, Nat.mul_assoc]
      omega

theorem value_bigMulSmall (limbs : Limbs) (factor : UInt32) :
    (bigMulSmall limbs factor).value = limbs.value * factor.toNat :=
  value_mulSmall factor limbs (by decide)

theorem value_bigAddOne (limbs : Limbs) : (bigAddOne limbs).value = limbs.value + 1 := by
  induction limbs with
  | nil => rfl
  | cons limb rest ih =>
      have hlimb := limb.toNat_lt
      have hsum : (limb.toUInt64 + 1).toNat = limb.toNat + 1 := by
        rw [UInt64.toNat_add, UInt32.toNat_toUInt64]
        exact Nat.mod_eq_of_lt (by change _ + 1 < 2 ^ 64; omega)
      have hcarry : limb.toUInt64 + 1 ≤ 0xffffffff ↔ limb.toNat + 1 < 2 ^ 32 := by
        rw [UInt64.le_iff_toNat_le, hsum]
        exact Nat.lt_succ_iff.symm
      rw [bigAddOne]
      simp only [hcarry]
      split
      · rw [value_cons, value_cons, UInt64.toNat_toUInt32, hsum]
        omega
      · rw [value_cons, value_cons, UInt64.toNat_toUInt32, hsum, ih]
        omega

theorem getD_of_getElem? {limbs limbs' : Limbs} {i : ℕ} (hsame : limbs[i]? = limbs'[i]?) :
    limbs.getD i 0 = limbs'.getD i 0 := by
  rw [List.getD_eq_getElem?_getD, List.getD_eq_getElem?_getD, hsame]

theorem getD_of_length_le {limbs : Limbs} {i : ℕ} (hle : limbs.length ≤ i) :
    limbs.getD i 0 = 0 := by
  rw [List.getD_eq_getElem?_getD, List.getElem?_eq_none hle]
  rfl

theorem bigBit_eq (limbs : Limbs) (i : ℕ) : bigBit limbs i = limbs.value.testBit i := by
  rw [bigBit, testBit_value]
  split
  · rename_i hbeyond
    rw [getD_of_length_le hbeyond]
    simp
  · have hshifted : (limbs.getD (i / 32) 0 >>> UInt32.ofNat (i % 32)).toNat =
        (limbs.getD (i / 32) 0).toNat >>> (i % 32) := by
      rw [UInt32.toNat_shiftRight, UInt32.toNat_ofNat']
      congr 1
      omega
    rw [Nat.testBit_eq_decide_div_mod_eq, ← Nat.shiftRight_eq_div_pow, ← hshifted]
    rw [Bool.eq_iff_iff, beq_iff_eq, decide_eq_true_iff, ← UInt32.toNat_inj, UInt32.toNat_and]
    change _ &&& 1 = 1 ↔ _
    rw [Nat.and_one_is_mod]

theorem mod_two_pow_ne_zero {number i : ℕ} :
    number % 2 ^ i ≠ 0 ↔ ∃ bit < i, number.testBit bit = true := by
  constructor
  · intro hne
    obtain ⟨bit, hbit⟩ := Nat.exists_testBit_of_ne_zero hne
    rw [Nat.testBit_mod_two_pow, Bool.and_eq_true, decide_eq_true_iff] at hbit
    exact ⟨bit, hbit⟩
  · rintro ⟨bit, hlt, hbit⟩ hzero
    have hsame := Nat.testBit_mod_two_pow number i bit
    rw [hzero, Nat.zero_testBit, hbit] at hsame
    simp [hlt] at hsame

theorem limb_ne_zero {limbs : Limbs} {j : ℕ} :
    limbs.getD j 0 ≠ 0 ↔ ∃ bit < 32, limbs.value.testBit (32 * j + bit) = true := by
  have hmod : (limbs.getD j 0).toNat % 2 ^ 32 = (limbs.getD j 0).toNat :=
    Nat.mod_eq_of_lt (limbs.getD j 0).toNat_lt
  rw [ne_eq, ← UInt32.toNat_inj, ← hmod]
  refine mod_two_pow_ne_zero.trans (exists_congr fun bit => and_congr_right fun hbit => ?_)
  rw [testBit_limb]
  simp [hbit]

theorem masked_ne_zero {limbs : Limbs} {j off : ℕ} (hoff : off < 32) :
    limbs.getD j 0 &&& ((1 <<< UInt32.ofNat off) - 1) ≠ 0 ↔
      ∃ bit < off, limbs.value.testBit (32 * j + bit) = true := by
  have hpower : 2 ^ off < 2 ^ 32 := Nat.pow_lt_pow_right (by decide) hoff
  have hamount : (UInt32.ofNat off).toNat % 32 = off := by
    rw [UInt32.toNat_ofNat']
    omega
  have hshifted : ((1 : UInt32) <<< UInt32.ofNat off).toNat = 2 ^ off := by
    rw [UInt32.toNat_shiftLeft, hamount, Nat.shiftLeft_eq]
    change 1 * 2 ^ off % 2 ^ 32 = _
    rw [Nat.one_mul]
    exact Nat.mod_eq_of_lt hpower
  have hmasked : (limbs.getD j 0 &&& ((1 <<< UInt32.ofNat off) - 1)).toNat =
      (limbs.getD j 0).toNat % 2 ^ off := by
    rw [UInt32.toNat_and, UInt32.toNat_sub_of_le, hshifted]
    · exact Nat.and_two_pow_sub_one_eq_mod _ _
    · rw [UInt32.le_iff_toNat_le, hshifted]
      exact Nat.two_pow_pos off
  rw [ne_eq, ← UInt32.toNat_inj, hmasked]
  refine mod_two_pow_ne_zero.trans (exists_congr fun bit => and_congr_right fun hbit => ?_)
  rw [testBit_limb]
  simp only [show bit < 32 by omega, decide_true, Bool.true_and]

theorem bigAnyBitBelow_iff (limbs : Limbs) (i : ℕ) :
    bigAnyBitBelow limbs i = true ↔ limbs.value % 2 ^ i ≠ 0 := by
  have hinside : ∀ {j}, limbs.getD j 0 ≠ 0 → j < limbs.length := by
    intro j hne
    by_contra hbeyond
    exact hne (getD_of_length_le (by omega))
  rw [bigAnyBitBelow, Bool.or_eq_true, List.any_eq_true, mod_two_pow_ne_zero]
  simp only [List.mem_range, Bool.and_eq_true, decide_eq_true_iff, bne_iff_ne]
  constructor
  · rintro (⟨j, hj, -, hne⟩ | ⟨-, hne⟩)
    · obtain ⟨bit, hbit, hset⟩ := limb_ne_zero.mp hne
      exact ⟨32 * j + bit, by omega, hset⟩
    · obtain ⟨bit, hbit, hset⟩ := (masked_ne_zero (Nat.mod_lt i (by decide))).mp hne
      exact ⟨32 * (i / 32) + bit, by omega, hset⟩
  · rintro ⟨bit, hlt, hset⟩
    have hsplit := Nat.div_add_mod bit 32
    rw [← hsplit] at hset
    rcases Nat.lt_or_ge (bit / 32) (i / 32) with hbelow | hsame
    · have hne := limb_ne_zero.mpr ⟨bit % 32, Nat.mod_lt _ (by decide), hset⟩
      exact Or.inl ⟨bit / 32, hbelow, hinside hne, hne⟩
    · have hword : bit / 32 = i / 32 := le_antisymm (Nat.div_le_div_right hlt.le) hsame
      rw [hword] at hset
      have hne := (@masked_ne_zero limbs (i / 32) (i % 32) (Nat.mod_lt i (by decide))).mpr
        ⟨bit % 32, by omega, hset⟩
      refine Or.inr ⟨hinside fun hzero => hne ?_, hne⟩
      rw [hzero]
      exact UInt32.zero_and

theorem testBit_up {limb : UInt32} {off bit : ℕ} (hoff : off < 32) (hbit : bit < 64) :
    (limb.toUInt64 <<< UInt64.ofNat off).toNat.testBit bit =
      (decide (off ≤ bit) && limb.toNat.testBit (bit - off)) := by
  have hamount : (UInt64.ofNat off).toNat % 64 = off := by
    rw [UInt64.toNat_ofNat']
    omega
  rw [UInt64.toNat_shiftLeft, hamount, UInt32.toNat_toUInt64, Nat.testBit_mod_two_pow,
    Nat.testBit_shiftLeft]
  simp [hbit]

theorem testBit_down {limb : UInt32} {off bit : ℕ} (hoff : off ≤ 32) :
    (limb.toUInt64 >>> UInt64.ofNat off).toNat.testBit bit =
      limb.toNat.testBit (off + bit) := by
  have hamount : (UInt64.ofNat off).toNat % 64 = off := by
    rw [UInt64.toNat_ofNat']
    omega
  rw [UInt64.toNat_shiftRight, hamount, UInt32.toNat_toUInt64, Nat.testBit_shiftRight]

theorem testBit_low {word : UInt64} {bit : ℕ} (hbit : bit < 32) :
    word.toUInt32.toNat.testBit bit = word.toNat.testBit bit := by
  rw [UInt64.toNat_toUInt32, Nat.testBit_mod_two_pow]
  simp [hbit]

theorem testBit_shlWord (limbs : Limbs) (words : ℕ) {i bit : ℕ} (hbit : bit < 32) :
    (shlWord words limbs.length limbs i).toNat.testBit bit =
      (limbs.value <<< (32 * words)).testBit (32 * i + bit) := by
  rw [shlWord, Nat.testBit_shiftLeft]
  split
  · rename_i hinside
    have hindex : 32 * i + bit - 32 * words = 32 * (i - words) + bit := by omega
    rw [testBit_getD limbs hbit, hindex]
    simp only [show 32 * i + bit ≥ 32 * words by omega, decide_true, Bool.true_and]
  · rename_i houtside
    by_cases hle : 32 * words ≤ 32 * i + bit
    · rw [testBit_beyond limbs (by omega)]
      simp
    · simp [hle]

theorem testBit_shlLimb (limbs : Limbs) (words : ℕ) {off i bit : ℕ} (hoff : off < 32)
    (hbit : bit < 32) :
    (shlLimb words off limbs.length limbs i).toNat.testBit bit =
      (limbs.value <<< (32 * words + off)).testBit (32 * i + bit) := by
  have hlow : (if words + 1 ≤ i ∧ i - words - 1 < limbs.length then
        (limbs.getD (i - words - 1) 0).toUInt64 >>> UInt64.ofNat (32 - off)
      else 0 : UInt64).toNat.testBit bit =
        (decide (bit < off ∧ words + 1 ≤ i) &&
          limbs.value.testBit (32 * i + bit - (32 * words + off))) := by
    split
    · rename_i hinside
      rw [testBit_down (by omega), testBit_limb]
      by_cases hcross : bit < off
      · have hindex : 32 * (i - words - 1) + (32 - off + bit) =
            32 * i + bit - (32 * words + off) := by omega
        rw [hindex]
        simp [hcross, hinside.1, show 32 - off + bit < 32 by omega]
      · simp [hcross, show ¬ 32 - off + bit < 32 by omega]
    · rename_i houtside
      by_cases hcross : bit < off ∧ words + 1 ≤ i
      · rw [testBit_beyond limbs (by omega)]
        simp
      · rw [decide_eq_false hcross]
        simp
  have hhigh : ∀ low : UInt64, (if words ≤ i ∧ i - words < limbs.length then
        low ||| ((limbs.getD (i - words) 0).toUInt64 <<< UInt64.ofNat off)
      else low).toNat.testBit bit = (low.toNat.testBit bit ||
        (decide (off ≤ bit ∧ words ≤ i) &&
          limbs.value.testBit (32 * i + bit - (32 * words + off)))) := by
    intro low
    split
    · rename_i hinside
      rw [UInt64.toNat_or, Nat.testBit_or, testBit_up hoff (by omega), testBit_limb]
      by_cases hcross : off ≤ bit
      · have hindex : 32 * (i - words) + (bit - off) =
            32 * i + bit - (32 * words + off) := by omega
        rw [hindex]
        simp [hcross, hinside.1, show bit - off < 32 by omega]
      · simp [hcross]
    · rename_i houtside
      by_cases hcross : off ≤ bit ∧ words ≤ i
      · rw [testBit_beyond limbs (by omega)]
        simp
      · rw [decide_eq_false hcross]
        simp
  rw [shlLimb, testBit_low hbit, hhigh, hlow, ← Bool.and_or_distrib_right, Nat.testBit_shiftLeft]
  congr 1
  rw [← Bool.decide_or, decide_eq_decide]
  omega

theorem readsBelow_shlWord (words count : ℕ) : ReadsBelow (shlWord words count) := by
  intro limbs limbs' i hsame
  rw [shlWord, shlWord, getD_of_getElem? (hsame (i - words) (by omega))]

theorem readsBelow_shlLimb (words off count : ℕ) : ReadsBelow (shlLimb words off count) := by
  intro limbs limbs' i hsame
  rw [shlLimb, shlLimb, getD_of_getElem? (hsame (i - words) (by omega)),
    getD_of_getElem? (hsame (i - words - 1) (by omega))]

theorem getD_fillDown {next : Limbs → ℕ → UInt32} (hreads : ReadsBelow next) (limbs : Limbs)
    (i : ℕ) : (fillDown next limbs.length limbs).getD i 0 =
      if i < limbs.length then next limbs i else 0 := by
  rw [List.getD_eq_getElem?_getD, getElem?_fillDown hreads]
  split
  · rename_i hinside
    rw [if_pos hinside.1]
    rfl
  · rename_i houtside
    rw [if_neg (by omega), List.getElem?_eq_none (by omega)]
    rfl

theorem getD_append_zeros (limbs : Limbs) (count i : ℕ) :
    (limbs ++ List.replicate count 0).getD i 0 = limbs.getD i 0 := by
  by_cases hinside : i < limbs.length
  · exact getD_of_getElem? (List.getElem?_append_left hinside)
  · rw [getD_of_length_le (by omega : limbs.length ≤ i), List.getD_eq_getElem?_getD,
      List.getElem?_append_right (by omega), List.getElem?_replicate]
    split <;> rfl

theorem value_bigShl (limbs : Limbs) (bits : ℕ) :
    (bigShl limbs bits).value = limbs.value * 2 ^ bits := by
  rw [← Nat.shiftLeft_eq]
  rw [bigShl]
  split
  · rename_i hnone
    rw [hnone]
    rfl
  · have hsplit := Nat.div_add_mod bits 32
    have hroom : (limbs ++ List.replicate (bits / 32 + 1) (0 : UInt32)).length =
        limbs.length + (bits / 32 + 1) := by
      rw [List.length_append, List.length_replicate]
    have hbeyond : ∀ {i bit}, bit < 32 → ¬ i < limbs.length + (bits / 32 + 1) →
        (limbs.value <<< bits).testBit (32 * i + bit) = false := by
      intro i bit hbit hle
      rw [Nat.testBit_shiftLeft, testBit_beyond limbs (by omega)]
      simp
    apply value_eq_of_testBit
    intro i bit hbit
    dsimp only
    split
    · rename_i hoff
      rw [getD_fillDown (readsBelow_shlWord _ _), hroom]
      split
      · have hsame : shlWord (bits / 32) limbs.length
            (limbs ++ List.replicate (bits / 32 + 1) 0) i =
              shlWord (bits / 32) limbs.length limbs i := by
          rw [shlWord, shlWord, getD_append_zeros]
        rw [hsame, testBit_shlWord limbs _ hbit]
        congr 2
        omega
      · rename_i houtside
        rw [hbeyond hbit houtside]
        exact Nat.zero_testBit bit
    · rw [getD_fillDown (readsBelow_shlLimb _ _ _), hroom]
      split
      · have hsame : shlLimb (bits / 32) (bits % 32) limbs.length
            (limbs ++ List.replicate (bits / 32 + 1) 0) i =
              shlLimb (bits / 32) (bits % 32) limbs.length limbs i := by
          rw [shlLimb, shlLimb, getD_append_zeros, getD_append_zeros]
        rw [hsame, testBit_shlLimb limbs _ (Nat.mod_lt _ (by decide)) hbit, hsplit]
      · rename_i houtside
        rw [hbeyond hbit houtside]
        exact Nat.zero_testBit bit

theorem testBit_shrLimb (limbs : Limbs) (words : ℕ) {off i bit : ℕ} (hoff : off < 32)
    (hpositive : 0 < off) (hbit : bit < 32) :
    (shrLimb words off limbs.length limbs i).toNat.testBit bit =
      (limbs.value >>> (32 * words + off)).testBit (32 * i + bit) := by
  have hlow : ((limbs.getD (i + words) 0).toUInt64 >>>
        UInt64.ofNat off).toUInt32.toNat.testBit bit =
      (decide (off + bit < 32) &&
        limbs.value.testBit (32 * words + off + (32 * i + bit))) := by
    rw [testBit_low hbit, testBit_down (by omega), testBit_limb]
    congr 2
    omega
  have hhigh : ((limbs.getD (i + words + 1) 0).toUInt64 <<<
        UInt64.ofNat (32 - off)).toUInt32.toNat.testBit bit =
      (decide (32 ≤ off + bit) &&
        limbs.value.testBit (32 * words + off + (32 * i + bit))) := by
    rw [testBit_low hbit, testBit_up (by omega) (by omega), testBit_limb]
    by_cases hcross : 32 ≤ off + bit
    · have hindex : 32 * (i + words + 1) + (bit - (32 - off)) =
          32 * words + off + (32 * i + bit) := by omega
      rw [hindex]
      simp [hcross, show 32 - off ≤ bit by omega, show bit - (32 - off) < 32 by omega]
    · simp [hcross, show ¬ 32 - off ≤ bit by omega]
  rw [Nat.testBit_shiftRight, shrLimb]
  split
  · rw [UInt32.toNat_or, Nat.testBit_or, hlow, hhigh, ← Bool.and_or_distrib_right,
      ← Bool.decide_or, decide_eq_true (by omega), Bool.true_and]
  · rename_i houtside
    rw [hlow]
    by_cases hcross : off + bit < 32
    · simp [hcross]
    · rw [testBit_beyond limbs (by omega)]
      simp

theorem readsAbove_shrLimb (words off count : ℕ) : ReadsAbove (shrLimb words off count) := by
  intro limbs limbs' i hsame
  rw [shrLimb, shrLimb, getD_of_getElem? (hsame (i + words) (by omega)),
    getD_of_getElem? (hsame (i + words + 1) (by omega))]

theorem getD_fillUp {next : Limbs → ℕ → UInt32} (hreads : ReadsAbove next)
    (count start : ℕ) (limbs : Limbs) (i : ℕ) :
    (fillUp next count start limbs).getD i 0 =
      if (start ≤ i ∧ i < start + count) ∧ i < limbs.length then next limbs i
      else limbs.getD i 0 := by
  rw [List.getD_eq_getElem?_getD, getElem?_fillUp hreads]
  split <;> rfl

theorem readsAbove_zero : ReadsAbove fun (_ : Limbs) _ => (0 : UInt32) := fun _ => rfl

theorem testBit_moved {next : Limbs → ℕ → UInt32} (hreads : ReadsAbove next)
    {limbs : Limbs} {words bits : ℕ} (hle : words ≤ limbs.length) (hbits : 32 * words ≤ bits)
    (hnext : ∀ i bit, bit < 32 → (next limbs i).toNat.testBit bit =
      (limbs.value >>> bits).testBit (32 * i + bit)) {i bit : ℕ} (hbit : bit < 32) :
    ((fillUp (fun _ _ => 0) words (limbs.length - words)
        (fillUp next (limbs.length - words) 0 limbs)).getD i 0).toNat.testBit bit =
      (limbs.value >>> bits).testBit (32 * i + bit) := by
  rw [getD_fillUp readsAbove_zero, length_fillUp]
  have hbeyond : limbs.length - words ≤ i →
      (limbs.value >>> bits).testBit (32 * i + bit) = false := by
    intro hlarge
    rw [Nat.testBit_shiftRight, testBit_beyond limbs (by omega)]
  split
  · rw [hbeyond (by omega)]
    exact Nat.zero_testBit bit
  · rw [getD_fillUp hreads]
    split
    · exact hnext i bit hbit
    · rw [getD_of_length_le (by omega), hbeyond (by omega)]
      exact Nat.zero_testBit bit

theorem value_bigShr (limbs : Limbs) (bits : ℕ) :
    (bigShr limbs bits).value = limbs.value / 2 ^ bits := by
  have hsplit := Nat.div_add_mod bits 32
  rw [← Nat.shiftRight_eq_div_pow]
  apply value_eq_of_testBit
  intro i bit hbit
  rw [bigShr]
  split
  · have hnone : (limbs.value >>> bits).testBit (32 * i + bit) = false := by
      rw [Nat.testBit_shiftRight, testBit_beyond limbs (by omega)]
    rw [hnone, getD_fillUp readsAbove_zero]
    split
    · exact Nat.zero_testBit bit
    · rw [getD_of_length_le (by omega)]
      exact Nat.zero_testBit bit
  · dsimp only
    split
    · have hreads : ReadsAbove fun (limbs : Limbs) i => limbs.getD (i + bits / 32) 0 :=
        fun hsame => getD_of_getElem? (hsame _ (by omega))
      refine testBit_moved hreads (by omega) (by omega) ?_ hbit
      intro i bit hbit
      rw [testBit_getD limbs hbit, Nat.testBit_shiftRight]
      congr 1
      omega
    · refine testBit_moved (readsAbove_shrLimb _ _ _) (by omega) (by omega) ?_ hbit
      intro i bit hbit
      rw [testBit_shrLimb limbs _ (Nat.mod_lt _ (by decide)) (by omega) hbit, hsplit]

end MoonBoofuzz
