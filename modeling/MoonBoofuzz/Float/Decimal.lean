import Mathlib.Tactic.Ring
import MoonBoofuzz.Data.Decimal
import MoonBoofuzz.Data.Eval
import MoonBoofuzz.Float.Limbs
import MoonBoofuzz.Model.Field

namespace MoonBoofuzz

/-! The decimal text of a big number, by repeated division by 10^9. -/

/-- The limbs of a number without the zero limbs above it; one is left. -/
def bigTrim (limbs : Limbs) : ℕ → ℕ
  | count + 2 => if limbs.getD (count + 1) 0 = 0 then bigTrim limbs (count + 1) else count + 2
  | count => count

def divideLoop : ℕ → Limbs → UInt64 → Limbs × UInt64
  | 0, limbs, rem => (limbs, rem)
  | i + 1, limbs, rem =>
      let cur := (rem <<< 32) ||| (limbs.getD i 0).toUInt64
      divideLoop i (limbs.set i (cur / 1000000000).toUInt32) (cur % 1000000000)

def groupsLoop : ℕ → ℕ → Limbs → List Text → Eval ModelError (List Text)
  | 0, _, _, _ => .pending
  | fuel + 1, count, limbs, groups =>
      if count > 1 ∨ limbs.getD (count - 1) 0 ≠ 0 then
        let (divided, rem) := divideLoop count limbs 0
        groupsLoop fuel (bigTrim divided count) divided (groups ++ [Text.decimal rem.toNat])
      else .done groups

def joinGroups (groups : List Text) : Text :=
  match groups.reverse with
  | [] => []
  | last :: rest => rest.foldl (fun text group => text ++ Text.padStart 9 group) last

def bigToDecimal (limbs : Limbs) (fuel : ℕ) : Eval ModelError Text :=
  let count := bigTrim limbs limbs.length
  if count = 1 ∧ limbs.getD 0 0 = 0 then .done (Text.ofAscii "0")
  else do
    let groups ← groupsLoop fuel count limbs []
    .done (joinGroups groups)

open Limbs

structure Trimmed (limbs : Limbs) (count : ℕ) : Prop where
  positive : 0 < count
  within : count ≤ limbs.length
  rest : ∀ i, count ≤ i → limbs.getD i 0 = 0
  top : 1 < count → limbs.getD (count - 1) 0 ≠ 0

theorem bigTrim_trimmed {limbs : Limbs} : ∀ {count : ℕ}, 0 < count → count ≤ limbs.length →
    (∀ i, count ≤ i → limbs.getD i 0 = 0) → Trimmed limbs (bigTrim limbs count) := by
  intro count
  induction count with
  | zero => exact fun hpositive => absurd hpositive (Nat.lt_irrefl 0)
  | succ count ih =>
      intro _ hwithin hrest
      cases count with
      | zero => exact ⟨Nat.one_pos, hwithin, hrest, fun hlt => absurd hlt (Nat.lt_irrefl 1)⟩
      | succ count =>
          rw [bigTrim]
          split
          · rename_i hzero
            refine ih (Nat.succ_pos count) (by omega) fun i hle => ?_
            rcases Nat.eq_or_lt_of_le hle with rfl | hlt
            · exact hzero
            · exact hrest i hlt
          · rename_i hne
            exact ⟨by omega, hwithin, hrest, fun _ => hne⟩

theorem value_take {limbs : Limbs} {count : ℕ}
    (hrest : ∀ i, count ≤ i → limbs.getD i 0 = 0) :
    value (limbs.take count) = value limbs := by
  apply value_eq_of_testBit
  intro i bit hbit
  rw [← testBit_getD limbs hbit]
  by_cases hlt : i < count
  · rw [getD_of_getElem? (List.getElem?_take_of_lt hlt)]
  · have hnone : (limbs.take count).length ≤ i := by
      rw [List.length_take]
      omega
    rw [getD_of_length_le hnone, hrest i (by omega)]

theorem value_take_succ (limbs : Limbs) {i : ℕ} (hlt : i < limbs.length) :
    value (limbs.take (i + 1)) =
      value (limbs.take i) + 2 ^ (32 * i) * (limbs.getD i 0).toNat := by
  rw [List.take_add_one, value_append, List.length_take, Nat.min_eq_left hlt.le,
    List.getD_eq_getElem?_getD, List.getElem?_eq_getElem hlt]
  simp [value_cons]

structure Divided (limbs : Limbs) (count rem : ℕ) (divided : Limbs × UInt64) : Prop where
  length : divided.1.length = limbs.length
  above : ∀ i, count ≤ i → divided.1.getD i 0 = limbs.getD i 0
  quotient : 1000000000 * value (divided.1.take count) + divided.2.toNat =
    rem * 2 ^ (32 * count) + value (limbs.take count)
  small : divided.2.toNat < 1000000000

theorem divideLoop_divided : ∀ {count : ℕ} {limbs : Limbs} {rem : UInt64},
    count ≤ limbs.length → rem.toNat < 1000000000 →
    Divided limbs count rem.toNat (divideLoop count limbs rem) := by
  intro count
  induction count with
  | zero =>
      intro limbs rem _ hrem
      exact ⟨rfl, fun _ _ => rfl, by simp [divideLoop], hrem⟩
  | succ i ih =>
      intro limbs rem hle hrem
      have hlimb := (limbs.getD i 0).toNat_lt
      have hcur : ((rem <<< 32) ||| (limbs.getD i 0).toUInt64).toNat =
          rem.toNat * 2 ^ 32 + (limbs.getD i 0).toNat := by
        have hshifted : (rem <<< 32).toNat = 2 ^ 32 * rem.toNat := by
          rw [UInt64.toNat_shiftLeft]
          change rem.toNat <<< 32 % 2 ^ 64 = _
          rw [Nat.shiftLeft_eq, Nat.mul_comm]
          exact Nat.mod_eq_of_lt (by omega)
        rw [UInt64.toNat_or, hshifted, UInt32.toNat_toUInt64, Nat.mul_comm rem.toNat]
        exact (Nat.two_pow_add_eq_or_of_lt hlimb rem.toNat).symm
      rw [divideLoop]
      generalize hword : (rem <<< 32) ||| (limbs.getD i 0).toUInt64 = cur at hcur ⊢
      have hquotient : (cur / 1000000000).toUInt32.toNat = cur.toNat / 1000000000 := by
        rw [UInt64.toNat_toUInt32, UInt64.toNat_div]
        change cur.toNat / 1000000000 % 2 ^ 32 = _
        omega
      have hremainder : (cur % 1000000000).toNat = cur.toNat % 1000000000 :=
        UInt64.toNat_mod _ _
      have hset : (limbs.set i (cur / 1000000000).toUInt32).getD i 0 =
          (cur / 1000000000).toUInt32 := by
        rw [List.getD_eq_getElem?_getD, List.getElem?_set_self (by omega)]
        rfl
      have hkept : ∀ j, j ≠ i → (limbs.set i (cur / 1000000000).toUInt32).getD j 0 =
          limbs.getD j 0 := fun j hne => getD_of_getElem? (List.getElem?_set_ne hne.symm)
      have hdivided := @ih (limbs.set i (cur / 1000000000).toUInt32) (cur % 1000000000)
        (by rw [List.length_set]; omega) (by rw [hremainder]; omega)
      generalize divideLoop i (limbs.set i (cur / 1000000000).toUInt32) (cur % 1000000000) =
        divided at hdivided ⊢
      obtain ⟨hlength, habove, hvalue, hsmall⟩ := hdivided
      rw [List.length_set] at hlength
      refine ⟨hlength, ?_, ?_, hsmall⟩
      · intro j hlarge
        rw [habove j (by omega), hkept j (by omega)]
      · rw [value_take_succ _ (by omega), value_take_succ limbs (by omega),
          habove i (Nat.le_refl i), hset, hquotient]
        rw [List.take_set_of_le (Nat.le_refl i), hremainder] at hvalue
        calc 1000000000 * (value (divided.1.take i) +
              2 ^ (32 * i) * (cur.toNat / 1000000000)) + divided.2.toNat
            = 1000000000 * value (divided.1.take i) + divided.2.toNat +
                2 ^ (32 * i) * (1000000000 * (cur.toNat / 1000000000)) := by ring
          _ = cur.toNat % 1000000000 * 2 ^ (32 * i) + value (limbs.take i) +
                2 ^ (32 * i) * (1000000000 * (cur.toNat / 1000000000)) := by rw [hvalue]
          _ = 2 ^ (32 * i) * (1000000000 * (cur.toNat / 1000000000) +
                cur.toNat % 1000000000) + value (limbs.take i) := by ring
          _ = 2 ^ (32 * i) * (rem.toNat * 2 ^ 32 + (limbs.getD i 0).toNat) +
                value (limbs.take i) := by rw [Nat.div_add_mod, hcur]
          _ = rem.toNat * 2 ^ (32 * (i + 1)) + (value (limbs.take i) +
                2 ^ (32 * i) * (limbs.getD i 0).toNat) := by
              rw [Nat.mul_succ, Nat.pow_add]
              ring

theorem Trimmed.value_eq_zero {limbs : Limbs} {count : ℕ} (htrimmed : Trimmed limbs count) :
    value limbs = 0 ↔ ¬ (count > 1 ∨ limbs.getD (count - 1) 0 ≠ 0) := by
  have hpositive := htrimmed.positive
  constructor
  · intro hzero
    have hnone : ∀ j, limbs.getD j 0 = 0 := by
      intro j
      by_contra hne
      obtain ⟨bit, -, hset⟩ := limb_ne_zero.mp hne
      rw [hzero, Nat.zero_testBit] at hset
      cases hset
    rintro (hlarge | hne)
    · exact htrimmed.top hlarge (hnone _)
    · exact hne (hnone _)
  · intro hends
    rw [not_or, not_not] at hends
    obtain ⟨hsmall, hlast⟩ := hends
    obtain rfl : count = 1 := by omega
    apply value_eq_of_testBit
    intro i bit _
    have hnone : limbs.getD i 0 = 0 := by
      rcases Nat.eq_zero_or_pos i with rfl | hlater
      · exact hlast
      · exact htrimmed.rest i hlater
    rw [hnone, Nat.zero_testBit]
    exact Nat.zero_testBit bit

theorem Trimmed.divide {limbs : Limbs} {count : ℕ} (htrimmed : Trimmed limbs count) :
    Trimmed (divideLoop count limbs 0).1 (bigTrim (divideLoop count limbs 0).1 count) ∧
      value (divideLoop count limbs 0).1 = value limbs / 1000000000 ∧
      (divideLoop count limbs 0).2.toNat = value limbs % 1000000000 := by
  obtain ⟨hlength, habove, hquotient, hsmall⟩ :=
    @divideLoop_divided count limbs 0 htrimmed.within (by decide)
  have hrest : ∀ i, count ≤ i → (divideLoop count limbs 0).1.getD i 0 = 0 :=
    fun i hle => (habove i hle).trans (htrimmed.rest i hle)
  rw [value_take hrest, value_take htrimmed.rest] at hquotient
  change _ = 0 * _ + _ at hquotient
  rw [Nat.zero_mul, Nat.zero_add] at hquotient
  refine ⟨bigTrim_trimmed htrimmed.positive (by rw [hlength]; exact htrimmed.within) hrest,
    ?_, ?_⟩ <;> omega

theorem groupsLoop_digits : ∀ {fuel count : ℕ} {limbs : Limbs} {groups : List Text},
    Trimmed limbs count → (Nat.digits 1000000000 (value limbs)).length < fuel →
    groupsLoop fuel count limbs groups = .done (groups ++
      (Nat.digits 1000000000 (value limbs)).map Text.decimal) := by
  intro fuel
  induction fuel with
  | zero =>
      intro count limbs groups _ hfuel
      exact absurd hfuel (Nat.not_lt_zero _)
  | succ fuel ih =>
      intro count limbs groups htrimmed hfuel
      rw [groupsLoop]
      split
      · rename_i hgoesOn
        have hne : value limbs ≠ 0 := fun hzero => htrimmed.value_eq_zero.mp hzero hgoesOn
        obtain ⟨hnext, hquotient, hremainder⟩ := htrimmed.divide
        have hdigits := Nat.digits_def' (by decide : 1 < 1000000000) (Nat.pos_of_ne_zero hne)
        rw [hdigits, List.length_cons] at hfuel
        dsimp only
        rw [ih hnext (by rw [hquotient]; omega), hdigits, hquotient, hremainder,
          List.append_assoc]
        rfl
      · rename_i hends
        rw [htrimmed.value_eq_zero.mpr hends]
        simp

theorem joinGroups_cons {group : Text} {groups : List Text} (hne : groups ≠ []) :
    joinGroups (group :: groups) = joinGroups groups ++ Text.padStart 9 group := by
  rw [joinGroups, joinGroups, List.reverse_cons]
  cases hreverse : groups.reverse with
  | nil => exact absurd (List.reverse_eq_nil_iff.mp hreverse) hne
  | cons last rest => simp [List.foldl_append]

theorem joinGroups_digits {number : ℕ} (hpositive : 0 < number) :
    joinGroups ((Nat.digits 1000000000 number).map Text.decimal) = Text.decimal number := by
  induction number using Nat.strong_induction_on with
  | _ number ih =>
      rw [Nat.digits_def' (by decide) hpositive, List.map_cons]
      by_cases hsmall : number < 1000000000
      · rw [Nat.div_eq_of_lt hsmall, Nat.mod_eq_of_lt hsmall, Nat.digits_zero]
        rfl
      · have hhigh : 0 < number / 1000000000 := by omega
        have hlow : number % 1000000000 < 10 ^ (8 + 1) := Nat.mod_lt number (by decide)
        rw [joinGroups_cons, ih _ (by omega) hhigh, Text.padStart_decimal hlow,
          ← Text.decimal_split hhigh hlow]
        · exact congrArg Text.decimal (Nat.div_add_mod' number 1000000000)
        · simp [Nat.digits_ne_nil_iff_ne_zero]
          omega

theorem bigToDecimal_eq {limbs : Limbs} (hne : limbs ≠ []) : ∃ enough, ∀ fuel, enough ≤ fuel →
    bigToDecimal limbs fuel = .done (Text.decimal (value limbs)) := by
  have htrimmed := bigTrim_trimmed (List.length_pos_iff.mpr hne) (Nat.le_refl limbs.length)
    fun i hle => getD_of_length_le hle
  refine ⟨(Nat.digits 1000000000 (value limbs)).length + 1, fun fuel hfuel => ?_⟩
  rw [bigToDecimal]
  split
  · rename_i hzero
    have hends : value limbs = 0 := by
      rw [htrimmed.value_eq_zero, hzero.1, not_or, not_not]
      exact ⟨Nat.lt_irrefl 1, hzero.2⟩
    rw [hends]
    rfl
  · rename_i hnonzero
    have hpositive : 0 < value limbs := by
      apply Nat.pos_of_ne_zero
      intro hzero
      have hends := htrimmed.value_eq_zero.mp hzero
      have hpos := htrimmed.positive
      rw [not_or, not_not] at hends
      apply hnonzero
      have hone : bigTrim limbs limbs.length = 1 := by omega
      exact ⟨hone, by simpa [hone] using hends.2⟩
    rw [groupsLoop_digits htrimmed hfuel, List.nil_append]
    exact congrArg Eval.done (joinGroups_digits hpositive)

end MoonBoofuzz
