import Mathlib.Logic.Function.Iterate

namespace MoonBoofuzz

/-! A reflected shift register.  Each step shifts one place to the right and, when a bit
falls out, adds the polynomial; a byte is added to the low end and then shifted in. -/

variable {width : Nat}

def registerShift (polynomial register : BitVec width) : BitVec width :=
  if register.getLsbD 0 then (register >>> 1) ^^^ polynomial else register >>> 1

def registerByte (polynomial register : BitVec width) (byte : BitVec 8) : BitVec width :=
  (registerShift polynomial)^[8] (register ^^^ byte.setWidth width)

/-- The low bytes of a word, the lowest first. -/
def littleBytes (count : Nat) (word : BitVec width) : List (BitVec 8) :=
  (List.range count).map fun i => (word >>> (i * 8)).setWidth 8

theorem littleBytes_succ (count : Nat) (word : BitVec width) :
    littleBytes (count + 1) word =
      word.setWidth 8 :: littleBytes count (word >>> 8) := by
  have hrest : ∀ i : Nat, word >>> ((i + 1) * 8) = word >>> 8 >>> (i * 8) := by
    intro i
    rw [← BitVec.shiftRight_add, Nat.add_mul, Nat.one_mul, Nat.add_comm]
  simp only [littleBytes, List.range_succ_eq_map, List.map_cons, List.map_map,
    Function.comp_def, Nat.succ_eq_add_one, hrest, Nat.zero_mul, BitVec.ushiftRight_zero]

theorem registerShift_xor (polynomial register : BitVec width) {high : BitVec width}
    (hhigh : high.getLsbD 0 = false) :
    registerShift polynomial (register ^^^ high) =
      registerShift polynomial register ^^^ (high >>> 1) := by
  have hbit : (register ^^^ high).getLsbD 0 = register.getLsbD 0 := by
    rw [BitVec.getLsbD_xor, hhigh, Bool.xor_false]
  rw [registerShift, registerShift, hbit, BitVec.ushiftRight_xor_distrib]
  cases hregister : register.getLsbD 0 with
  | false => rfl
  | true =>
      simp only [if_true]
      rw [BitVec.xor_assoc, BitVec.xor_comm (high >>> 1), ← BitVec.xor_assoc]

theorem iterate_registerShift_xor (polynomial : BitVec width) (count : Nat) :
    ∀ (register high : BitVec width), (∀ i < count, high.getLsbD i = false) →
      (registerShift polynomial)^[count] (register ^^^ high) =
        (registerShift polynomial)^[count] register ^^^ (high >>> count) := by
  induction count with
  | zero =>
      intro register high _
      rw [Function.iterate_zero, id_eq, id_eq, BitVec.ushiftRight_zero]
  | succ count ih =>
      intro register high hhigh
      have hrest : ∀ i < count, (high >>> 1).getLsbD i = false := by
        intro i hi
        rw [BitVec.getLsbD_ushiftRight]
        exact hhigh (1 + i) (by omega)
      rw [Function.iterate_succ_apply, Function.iterate_succ_apply,
        registerShift_xor polynomial register (hhigh 0 (by omega)),
        ih _ _ hrest, ← BitVec.shiftRight_add, Nat.add_comm]

theorem setWidth_xor_shiftLeft (word : BitVec width) :
    (word.setWidth 8).setWidth width ^^^ (word >>> 8 <<< 8) = word := by
  apply BitVec.eq_of_getLsbD_eq
  intro i hi
  rw [BitVec.getLsbD_xor, BitVec.getLsbD_setWidth, BitVec.getLsbD_setWidth,
    BitVec.getLsbD_shiftLeft, BitVec.getLsbD_ushiftRight]
  rcases Nat.lt_or_ge i 8 with hlow | hhigh
  · simp [hi, hlow]
  · rw [Nat.add_sub_cancel' hhigh]
    simp [hi, Nat.not_lt.mpr hhigh]

theorem shiftRight_shiftLeft_getLsbD (word : BitVec width) {i : Nat} (hi : i < 8) :
    (word >>> 8 <<< 8).getLsbD i = false := by
  rw [BitVec.getLsbD_shiftLeft]
  simp [hi]

theorem foldl_registerByte_littleBytes (polynomial : BitVec width) (count : Nat) :
    ∀ (register word : BitVec width), word >>> (8 * count) = 0 →
      (littleBytes count word).foldl (registerByte polynomial) register =
        (registerShift polynomial)^[8 * count] (register ^^^ word) := by
  induction count with
  | zero =>
      intro register word hword
      rw [Nat.mul_zero, BitVec.ushiftRight_zero] at hword
      rw [hword]
      change register = register ^^^ (0 : BitVec width)
      exact (BitVec.xor_zero).symm
  | succ count ih =>
      intro register word hword
      have hrest : word >>> 8 >>> (8 * count) = 0 := by
        rw [← BitVec.shiftRight_add, Nat.add_comm, ← Nat.mul_succ]
        exact hword
      have hshift := iterate_registerShift_xor polynomial 8
        (register ^^^ (word.setWidth 8).setWidth width) (word >>> 8 <<< 8)
        (fun i hi => shiftRight_shiftLeft_getLsbD word hi)
      have hback : word >>> 8 <<< 8 >>> 8 = word >>> 8 := by
        apply BitVec.eq_of_getLsbD_eq
        intro i hi
        rw [BitVec.getLsbD_ushiftRight, BitVec.getLsbD_shiftLeft,
          BitVec.getLsbD_ushiftRight, Nat.add_sub_cancel_left]
        rcases Nat.lt_or_ge (8 + i) width with hin | hout
        · simp [hin]
        · simp [BitVec.getLsbD_of_ge _ _ hout]
      rw [littleBytes_succ, List.foldl_cons, ih _ _ hrest, Nat.mul_succ,
        Function.iterate_add_apply]
      congr 1
      rw [hback, BitVec.xor_assoc, setWidth_xor_shiftLeft] at hshift
      exact hshift.symm

/-- A register that is fed its own complement is left with the same word, whatever it was. -/
theorem foldl_registerByte_not (count : Nat) (polynomial register : BitVec (8 * count)) :
    (littleBytes count (~~~register)).foldl (registerByte polynomial) register =
      (registerShift polynomial)^[8 * count] (BitVec.allOnes (8 * count)) := by
  have hshift : ~~~register >>> (8 * count) = 0 := by
    apply BitVec.eq_of_getLsbD_eq
    intro i hi
    rw [BitVec.getLsbD_ushiftRight, BitVec.getLsbD_of_ge _ _ (by omega)]
    simp
  rw [foldl_registerByte_littleBytes polynomial count register _ hshift]
  congr 1
  apply BitVec.eq_of_getLsbD_eq
  intro i hi
  rw [BitVec.getLsbD_xor, BitVec.getLsbD_not, BitVec.getLsbD_allOnes]
  cases register.getLsbD i <;> simp [hi]

end MoonBoofuzz
