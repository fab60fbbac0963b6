import MoonBoofuzz.Data.ShiftRegister

namespace MoonBoofuzz

/-! A shift register fed bit by bit.  Where the polynomial has its highest bit set, no step loses
what the register holds, and a burst no longer than the register leaves its mark on it. -/

variable {width : Nat}

def registerBit (polynomial register : BitVec width) (bit : Bool) : BitVec width :=
  registerShift polynomial (register ^^^ (BitVec.ofBool bit).setWidth width)

/-- The low bits of a word, the lowest first. -/
def littleBits (count : Nat) (word : BitVec width) : List Bool :=
  (List.range count).map word.getLsbD

theorem littleBits_succ (count : Nat) (word : BitVec width) :
    littleBits (count + 1) word = word.getLsbD 0 :: littleBits count (word >>> 1) := by
  rw [littleBits, List.range_succ_eq_map, List.map_cons, List.map_map, littleBits]
  congr 1
  apply List.map_congr_left
  intro i _
  rw [BitVec.getLsbD_ushiftRight, Nat.add_comm]
  rfl

theorem ofBool_xor_shiftLeft (word : BitVec width) :
    (BitVec.ofBool (word.getLsbD 0)).setWidth width ^^^ (word >>> 1 <<< 1) = word := by
  apply BitVec.eq_of_getLsbD_eq
  intro i hi
  rw [BitVec.getLsbD_xor, BitVec.getLsbD_setWidth, BitVec.getLsbD_ofBool, BitVec.getLsbD_shiftLeft,
    BitVec.getLsbD_ushiftRight]
  cases i with
  | zero => simp [hi]
  | succ i => simp [hi, Nat.add_comm]

theorem shiftRight_shiftLeft_shiftRight (word : BitVec width) :
    word >>> 1 <<< 1 >>> 1 = word >>> 1 := by
  apply BitVec.eq_of_getLsbD_eq
  intro i hi
  rw [BitVec.getLsbD_ushiftRight, BitVec.getLsbD_shiftLeft, BitVec.getLsbD_ushiftRight,
    Nat.add_sub_cancel_left]
  rcases Nat.lt_or_ge (1 + i) width with hin | hout
  · simp [hin]
  · simp [BitVec.getLsbD_of_ge _ _ hout]

/-- Shifting in a word bit by bit is adding it to the register and shifting. -/
theorem foldl_registerBit_littleBits (polynomial : BitVec width) (count : Nat) :
    ∀ (register word : BitVec width), word >>> count = 0 →
      (littleBits count word).foldl (registerBit polynomial) register =
        (registerShift polynomial)^[count] (register ^^^ word) := by
  induction count with
  | zero =>
      intro register word hword
      rw [BitVec.ushiftRight_zero] at hword
      rw [hword]
      change register = register ^^^ (0 : BitVec width)
      exact (BitVec.xor_zero).symm
  | succ count ih =>
      intro register word hword
      have hrest : word >>> 1 >>> count = 0 := by
        rw [← BitVec.shiftRight_add, Nat.add_comm]
        exact hword
      have hshift := registerShift_xor polynomial
        (register ^^^ (BitVec.ofBool (word.getLsbD 0)).setWidth width)
        (show (word >>> 1 <<< 1).getLsbD 0 = false by rw [BitVec.getLsbD_shiftLeft]; simp)
      rw [shiftRight_shiftLeft_shiftRight, BitVec.xor_assoc, ofBool_xor_shiftLeft] at hshift
      rw [littleBits_succ, List.foldl_cons, ih _ _ hrest, Function.iterate_succ_apply, hshift,
        registerBit]

def byteBits (byte : BitVec 8) : List Bool := littleBits 8 byte

theorem length_littleBits (count : Nat) (word : BitVec width) :
    (littleBits count word).length = count := by
  rw [littleBits, List.length_map, List.length_range]

theorem registerByte_eq_foldl (polynomial register : BitVec width) (byte : BitVec 8)
    (hwidth : 8 ≤ width) :
    registerByte polynomial register byte =
      (byteBits byte).foldl (registerBit polynomial) register := by
  have hbits : byteBits byte = littleBits 8 (byte.setWidth width) := by
    rw [byteBits, littleBits, littleBits]
    apply List.map_congr_left
    intro i hi
    have hi := List.mem_range.mp hi
    rw [BitVec.getLsbD_setWidth, decide_eq_true (by omega), Bool.true_and]
  have hhigh : byte.setWidth width >>> 8 = 0 := by
    apply BitVec.eq_of_getLsbD_eq
    intro i _
    rw [BitVec.getLsbD_ushiftRight, BitVec.getLsbD_setWidth, BitVec.getLsbD_of_ge byte _ (by omega)]
    simp
  rw [registerByte, hbits, foldl_registerBit_littleBits polynomial 8 register _ hhigh]

def messageBits (bytes : List (BitVec 8)) : List Bool := bytes.flatMap byteBits

theorem length_messageBits (bytes : List (BitVec 8)) :
    (messageBits bytes).length = 8 * bytes.length := by
  induction bytes with
  | nil => rfl
  | cons byte rest ih =>
      have hbits : messageBits (byte :: rest) = byteBits byte ++ messageBits rest :=
        List.flatMap_cons
      rw [hbits, List.length_append, ih, byteBits, length_littleBits, List.length_cons]
      omega

theorem byteBits_injective : Function.Injective byteBits := by
  intro first second hequal
  apply BitVec.eq_of_getLsbD_eq
  intro i hi
  have hbit := congrArg (·[i]?) hequal
  simpa [byteBits, littleBits, hi] using hbit

theorem messageBits_injective : Function.Injective messageBits := by
  intro first
  induction first with
  | nil =>
      intro second hequal
      have hlength := congrArg List.length hequal
      rw [length_messageBits, length_messageBits, List.length_nil] at hlength
      exact (List.length_eq_zero_iff.mp (by omega)).symm
  | cons byte rest ih =>
      intro second hequal
      cases second with
      | nil =>
          have hlength := congrArg List.length hequal
          rw [length_messageBits, length_messageBits, List.length_cons, List.length_nil] at hlength
          omega
      | cons byte' rest' =>
          have hsplit : byteBits byte ++ messageBits rest = byteBits byte' ++ messageBits rest' :=
            hequal
          obtain ⟨hbyte, hrest⟩ := List.append_inj hsplit (by
            rw [byteBits, byteBits, length_littleBits, length_littleBits])
          rw [byteBits_injective hbyte, ih hrest]

theorem foldl_registerByte_eq (polynomial : BitVec width) (hwidth : 8 ≤ width)
    (bytes : List (BitVec 8)) : ∀ register : BitVec width,
      bytes.foldl (registerByte polynomial) register =
        (messageBits bytes).foldl (registerBit polynomial) register := by
  induction bytes with
  | nil => exact fun _ => rfl
  | cons byte rest ih =>
      intro register
      have hbits : messageBits (byte :: rest) = byteBits byte ++ messageBits rest :=
        List.flatMap_cons
      rw [List.foldl_cons, ih, hbits, List.foldl_append,
        registerByte_eq_foldl polynomial register byte hwidth]

section

variable {polynomial : BitVec width}

theorem getLsbD_top_registerShift (htop : polynomial.getLsbD (width - 1) = true)
    (register : BitVec width) :
    (registerShift polynomial register).getLsbD (width - 1) = register.getLsbD 0 := by
  have hwidth : 0 < width := by
    by_contra hzero
    rw [BitVec.getLsbD_of_ge _ _ (by omega)] at htop
    cases htop
  have hlow : (register >>> 1).getLsbD (width - 1) = false := by
    rw [BitVec.getLsbD_ushiftRight]
    exact BitVec.getLsbD_of_ge _ _ (by omega)
  rw [registerShift]
  cases hbit : register.getLsbD 0 with
  | false => simpa using hlow
  | true =>
      rw [if_pos rfl, BitVec.getLsbD_xor, hlow, htop]
      rfl

theorem registerShift_injective (htop : polynomial.getLsbD (width - 1) = true) :
    Function.Injective (registerShift polynomial) := by
  intro first second hequal
  have hbit : first.getLsbD 0 = second.getLsbD 0 := by
    rw [← getLsbD_top_registerShift htop, hequal, getLsbD_top_registerShift htop]
  have hshift : first >>> 1 = second >>> 1 := by
    rw [registerShift, registerShift, hbit] at hequal
    split at hequal
    · exact (BitVec.xor_left_inj polynomial).mp hequal
    · exact hequal
  rw [← ofBool_xor_shiftLeft first, ← ofBool_xor_shiftLeft second, hbit, hshift]

theorem registerBit_injective (htop : polynomial.getLsbD (width - 1) = true) (bit : Bool) :
    Function.Injective (registerBit polynomial · bit) := by
  intro first second hequal
  exact (BitVec.xor_left_inj _).mp (registerShift_injective htop hequal)

theorem foldl_registerBit_injective (htop : polynomial.getLsbD (width - 1) = true)
    (bits : List Bool) :
    Function.Injective fun register => bits.foldl (registerBit polynomial) register := by
  induction bits with
  | nil => exact fun _ _ hequal => hequal
  | cons bit rest ih => exact fun _ _ hequal => registerBit_injective htop bit (ih hequal)

theorem exists_littleBits {bits : List Bool} (hbits : bits.length ≤ width) :
    ∃ word : BitVec width, littleBits bits.length word = bits ∧ word >>> bits.length = 0 := by
  refine ⟨(BitVec.ofBoolListLE bits).setWidth width, ?_, ?_⟩
  · apply List.ext_getElem
    · rw [length_littleBits]
    · intro i _ hlt
      have hplace : i < width := by omega
      have hbit : (BitVec.ofBoolListLE bits).getLsbD i = bits[i] := by
        rw [BitVec.getLsbD_ofBoolListLE, List.getD_eq_getElem?_getD, List.getElem?_eq_getElem hlt,
          Option.getD_some]
      rw [← hbit, BitVec.getLsbD_eq_getElem hlt]
      simp [littleBits, hlt, hplace]
  · apply BitVec.eq_of_getLsbD_eq
    intro i _
    rw [BitVec.getLsbD_ushiftRight, BitVec.getLsbD_setWidth,
      BitVec.getLsbD_of_ge (BitVec.ofBoolListLE bits) _ (by omega)]
    simp

theorem foldl_registerBit_inj (htop : polynomial.getLsbD (width - 1) = true)
    {register : BitVec width} {first second : List Bool} (hlength : first.length = second.length)
    (hshort : first.length ≤ width)
    (hequal : first.foldl (registerBit polynomial) register =
      second.foldl (registerBit polynomial) register) : first = second := by
  obtain ⟨word, hfirst, hhigh⟩ := exists_littleBits hshort
  obtain ⟨word', hsecond, hhigh'⟩ := exists_littleBits (hlength ▸ hshort : second.length ≤ width)
  rw [← hlength] at hsecond hhigh'
  rw [← hfirst, ← hsecond, foldl_registerBit_littleBits polynomial _ register _ hhigh,
    foldl_registerBit_littleBits polynomial _ register _ hhigh'] at hequal
  have hsame := (registerShift_injective htop).iterate first.length hequal
  rw [← hfirst, ← hsecond, (BitVec.xor_right_inj register).mp hsame]

/-- Messages that differ within a window no longer than the register leave different registers. -/
theorem foldl_registerBit_window (htop : polynomial.getLsbD (width - 1) = true)
    {register : BitVec width} {first second : List Bool} {start : Nat}
    (hlength : first.length = second.length) (hne : first ≠ second)
    (hwindow : ∀ i, first[i]? ≠ second[i]? → start ≤ i ∧ i < start + width) :
    first.foldl (registerBit polynomial) register ≠
      second.foldl (registerBit polynomial) register := by
  have hfront : first.take start = second.take start := by
    apply List.ext_getElem?
    intro i
    rw [List.getElem?_take, List.getElem?_take]
    split
    · by_contra hdiffer
      have hbounds := hwindow i hdiffer
      omega
    · rfl
  have hback : first.drop (start + width) = second.drop (start + width) := by
    apply List.ext_getElem?
    intro i
    rw [List.getElem?_drop, List.getElem?_drop]
    by_contra hdiffer
    have hbounds := hwindow _ hdiffer
    omega
  have hparts : ∀ bits : List Bool, bits = bits.take start ++
      ((bits.drop start).take width ++ bits.drop (start + width)) := by
    intro bits
    rw [← List.drop_drop, List.take_append_drop, List.take_append_drop]
  intro hequal
  rw [hparts first, hparts second, hfront, hback] at hequal hne
  simp only [List.foldl_append] at hequal
  have hmiddle := foldl_registerBit_injective htop _ hequal
  have hburst := foldl_registerBit_inj htop
    (by rw [List.length_take, List.length_take, List.length_drop, List.length_drop, hlength])
    (by rw [List.length_take]; omega) hmiddle
  exact hne (by rw [hburst])

end

end MoonBoofuzz
