import MoonBoofuzz.Data.Digits
import MoonBoofuzz.Data.Utf8

namespace MoonBoofuzz

namespace Text

/-! Unicode characters as code units and as bytes. -/

def codeUnits (code : Nat) : Text :=
  if code < 0x10000 then [UInt16.ofNat code]
  else [UInt16.ofNat (0xd800 + (code - 0x10000) / 0x400),
    UInt16.ofNat (0xdc00 + (code - 0x10000) % 0x400)]

def ofChars (chars : List Char) : Text := chars.flatMap fun char => codeUnits char.toNat

def utf8 (chars : List Char) : Bytes := chars.flatMap fun char => codeUtf8 char.toNat

theorem toNat_unit {value : Nat} (hvalue : value < 0x10000) :
    (UInt16.ofNat value).toNat = value := by
  rw [UInt16.toNat_ofNat']
  exact Nat.mod_eq_of_lt hvalue

theorem toNat_byte {value : Nat} (hvalue : value < 0x100) : (UInt8.ofNat value).toNat = value := by
  rw [UInt8.toNat_ofNat']
  exact Nat.mod_eq_of_lt hvalue

theorem toNat_valid (char : Char) : char.toNat.isValidChar := char.valid

theorem encodeUtf8_unit {unit : UInt16} (hunit : isLeading unit = false) (rest : Text) :
    encodeUtf8 (unit :: rest) = codeUtf8 unit.toNat ++ encodeUtf8 rest := by
  cases rest with
  | nil => rw [encodeUtf8, encodeUtf8, List.append_nil]
  | cons second rest => rw [encodeUtf8, hunit, Bool.false_and, if_neg Bool.false_ne_true]

theorem encodeUtf8_ascii {text : Text} (htext : ∀ unit ∈ text, unit.toNat < 128) :
    encodeUtf8 text = text.map fun unit => UInt8.ofNat unit.toNat := by
  induction text with
  | nil => rfl
  | cons unit rest ih =>
      obtain ⟨hunit, hrest⟩ := List.forall_mem_cons.mp htext
      have hleading : isLeading unit = false := by
        rw [isLeading, decide_eq_false_iff_not]
        omega
      rw [encodeUtf8_unit hleading, ih hrest, codeUtf8, if_pos hunit]
      rfl

theorem encodeUtf8_decimal (value : Nat) : encodeUtf8 (decimal value) = Bytes.decimal value := by
  have hdigits : ∀ digit ∈ Nat.toDigits 10 value,
      (UInt16.ofNat digit.toNat).toNat = digit.toNat := fun digit hdigit =>
    toNat_digit (Nat.isDigit_of_mem_toDigits (by decide) (by decide) hdigit)
  rw [encodeUtf8_ascii fun unit hunit => by have := mem_decimal hunit; omega, decimal,
    List.map_map]
  exact List.map_congr_left fun digit hdigit => congrArg UInt8.ofNat (hdigits digit hdigit)

theorem mem_codeUtf8 {code : Nat} (hcode : code < 0x110000) {byte : UInt8}
    (hbyte : byte.toNat < 128) (hmem : byte ∈ codeUtf8 code) : code = byte.toNat := by
  have hlarge : ∀ {value : Nat}, 128 ≤ value → value < 256 → byte ≠ UInt8.ofNat value := by
    rintro value hvalue hlt rfl
    rw [toNat_byte hlt] at hbyte
    omega
  rw [codeUtf8] at hmem
  split at hmem
  · rename_i hsmall
    rw [List.mem_singleton] at hmem
    rw [hmem, toNat_byte (by omega)]
  split at hmem
  · simp only [List.mem_cons, List.not_mem_nil, or_false] at hmem
    rcases hmem with hfirst | hsecond
    · exact absurd hfirst (hlarge (by omega) (by omega))
    · exact absurd hsecond (hlarge (by omega) (by omega))
  split at hmem
  · simp only [List.mem_cons, List.not_mem_nil, or_false] at hmem
    rcases hmem with hfirst | hsecond | hthird
    · exact absurd hfirst (hlarge (by omega) (by omega))
    · exact absurd hsecond (hlarge (by omega) (by omega))
    · exact absurd hthird (hlarge (by omega) (by omega))
  · simp only [List.mem_cons, List.not_mem_nil, or_false] at hmem
    rcases hmem with hfirst | hsecond | hthird | hfourth
    · exact absurd hfirst (hlarge (by omega) (by omega))
    · exact absurd hsecond (hlarge (by omega) (by omega))
    · exact absurd hthird (hlarge (by omega) (by omega))
    · exact absurd hfourth (hlarge (by omega) (by omega))

theorem mem_encodeUtf8 {text : Text} {byte : UInt8} (hbyte : byte.toNat < 128)
    (hmem : byte ∈ encodeUtf8 text) : ∃ unit ∈ text, unit.toNat = byte.toNat := by
  have hone : ∀ unit : UInt16, byte ∈ codeUtf8 unit.toNat → unit.toNat = byte.toNat := by
    intro unit hunit
    have hrange := unit.toNat_lt
    exact mem_codeUtf8 (by omega) hbyte hunit
  induction text using encodeUtf8.induct with
  | case1 => cases hmem
  | case2 unit =>
      rw [encodeUtf8] at hmem
      exact ⟨unit, List.mem_singleton_self unit, hone unit hmem⟩
  | case3 first second rest hpair ih =>
      rw [encodeUtf8, if_pos hpair] at hmem
      rcases List.mem_append.mp hmem with hcode | hrest
      · -- The code point of a pair has no ASCII byte.
        simp only [isLeading, isTrailing, Bool.and_eq_true, decide_eq_true_eq] at hpair
        have hlarge := mem_codeUtf8 (by omega) hbyte hcode
        omega
      · obtain ⟨unit, hunit, hvalue⟩ := ih hrest
        exact ⟨unit, List.mem_cons_of_mem _ (List.mem_cons_of_mem _ hunit), hvalue⟩
  | case4 first second rest hpair ih =>
      rw [encodeUtf8, if_neg hpair] at hmem
      rcases List.mem_append.mp hmem with hcode | hrest
      · exact ⟨first, List.mem_cons_self, hone first hcode⟩
      · obtain ⟨unit, hunit, hvalue⟩ := ih hrest
        exact ⟨unit, List.mem_cons_of_mem _ hunit, hvalue⟩

theorem encodeUtf8_codeUnits {code : Nat} (hcode : code.isValidChar) (rest : Text) :
    encodeUtf8 (codeUnits code ++ rest) = codeUtf8 code ++ encodeUtf8 rest := by
  rw [codeUnits]
  split
  · rename_i hsmall
    have hunit : isLeading (UInt16.ofNat code) = false := by
      rw [isLeading, decide_eq_false_iff_not, toNat_unit hsmall]
      rcases hcode with hlow | ⟨hhigh, -⟩ <;> omega
    rw [List.singleton_append, encodeUtf8_unit hunit, toNat_unit hsmall]
  · have hrange : code < 0x110000 := by
      rcases hcode with hlow | ⟨-, hhigh⟩ <;> omega
    have hfirst := @toNat_unit (0xd800 + (code - 0x10000) / 0x400) (by omega)
    have hsecond := @toNat_unit (0xdc00 + (code - 0x10000) % 0x400) (by omega)
    have hpair : (isLeading (UInt16.ofNat (0xd800 + (code - 0x10000) / 0x400)) &&
        isTrailing (UInt16.ofNat (0xdc00 + (code - 0x10000) % 0x400))) = true := by
      rw [isLeading, isTrailing, hfirst, hsecond, Bool.and_eq_true, decide_eq_true_eq,
        decide_eq_true_eq]
      omega
    have hsum : 0x10000 + (0xd800 + (code - 0x10000) / 0x400 - 0xd800) * 0x400 +
        (0xdc00 + (code - 0x10000) % 0x400 - 0xdc00) = code := by omega
    rw [List.cons_append, List.singleton_append, encodeUtf8, if_pos hpair, hfirst, hsecond, hsum]

theorem encodeUtf8_ofChars (chars : List Char) : encodeUtf8 (ofChars chars) = utf8 chars := by
  induction chars with
  | nil => rfl
  | cons char chars ih =>
      rw [ofChars, List.flatMap_cons, encodeUtf8_codeUnits (toNat_valid char), ← ofChars, ih, utf8,
        utf8, List.flatMap_cons]

theorem mem_codeUnits {code : Nat} (hcode : code < 0x110000) {unit : UInt16}
    (hunit : unit.toNat < 128) (hmem : unit ∈ codeUnits code) : code = unit.toNat := by
  rw [codeUnits] at hmem
  split at hmem
  · rename_i hsmall
    rw [List.mem_singleton] at hmem
    rw [hmem, toNat_unit hsmall]
  · rw [List.mem_cons, List.mem_singleton] at hmem
    rcases hmem with hfirst | hsecond
    · rw [hfirst, toNat_unit (by omega)] at hunit
      omega
    · rw [hsecond, toNat_unit (by omega)] at hunit
      omega

theorem notMem_ofChars {char : Char} (hchar : char.toNat < 128) {chars : List Char}
    (hfree : char ∉ chars) : UInt16.ofNat char.toNat ∉ ofChars chars := by
  intro hmem
  obtain ⟨other, hother, hunit⟩ := List.mem_flatMap.mp hmem
  have hrange : other.toNat < 0x110000 := by
    rcases toNat_valid other with hlow | ⟨-, hhigh⟩ <;> omega
  have hvalue := @toNat_unit char.toNat (by omega)
  have hsame := mem_codeUnits hrange (by omega) hunit
  rw [hvalue] at hsame
  exact hfree (Char.toNat_inj.mp hsame ▸ hother)

theorem ofChars_ascii {char : Char} (hchar : char.toNat < 128) (chars : List Char) :
    ofChars (char :: chars) = UInt16.ofNat char.toNat :: ofChars chars := by
  rw [ofChars, List.flatMap_cons, codeUnits, if_pos (by omega)]
  rfl

theorem ofChars_append (first second : List Char) :
    ofChars (first ++ second) = ofChars first ++ ofChars second :=
  List.flatMap_append

theorem utf8_append (first second : List Char) :
    utf8 (first ++ second) = utf8 first ++ utf8 second :=
  List.flatMap_append

/-- The code units of a character are told from those of another. -/
theorem codeUnits_append_inj {code code' : Nat} (hcode : code.isValidChar)
    (hcode' : code'.isValidChar) {rest rest' : Text}
    (hequal : codeUnits code ++ rest = codeUnits code' ++ rest') : code = code' ∧ rest = rest' := by
  have hrange : ∀ {code : Nat}, code.isValidChar →
      code < 0x110000 ∧ ¬(0xd800 ≤ code ∧ code ≤ 0xdfff) := by
    intro code hcode
    rcases hcode with hlow | ⟨hhigh, hlow⟩ <;> omega
  have hbounds := hrange hcode
  have hbounds' := hrange hcode'
  have hunit : ∀ {value value' : Nat}, value < 0x10000 → value' < 0x10000 →
      UInt16.ofNat value = UInt16.ofNat value' → value = value' := by
    intro value value' hvalue hvalue' hsame
    rw [← toNat_unit hvalue, hsame, toNat_unit hvalue']
  rw [codeUnits, codeUnits] at hequal
  split at hequal
  · split at hequal
    · obtain ⟨hfirst, hrest⟩ := List.cons.inj hequal
      exact ⟨hunit (by omega) (by omega) hfirst, hrest⟩
    · have hfirst := hunit (by omega) (by omega) (List.cons.inj hequal).1
      omega
  · split at hequal
    · have hfirst := hunit (by omega) (by omega) (List.cons.inj hequal).1
      omega
    · obtain ⟨hfirst, hrest⟩ := List.cons.inj hequal
      obtain ⟨hsecond, hrest⟩ := List.cons.inj hrest
      have hhigh := hunit (by omega) (by omega) hfirst
      have hlow := hunit (by omega) (by omega) hsecond
      exact ⟨by omega, hrest⟩

theorem codeUnits_ne_nil (code : Nat) : codeUnits code ≠ [] := by
  rw [codeUnits]
  split
  · exact List.cons_ne_nil _ _
  · exact List.cons_ne_nil _ _

theorem ofChars_inj {first second : List Char} (hequal : ofChars first = ofChars second) :
    first = second := by
  induction first generalizing second with
  | nil =>
      cases second with
      | nil => rfl
      | cons char second =>
          rw [ofChars, ofChars, List.flatMap_cons, List.flatMap_nil] at hequal
          exact absurd (List.append_eq_nil_iff.mp hequal.symm).1 (codeUnits_ne_nil _)
  | cons char first ih =>
      cases second with
      | nil =>
          rw [ofChars, ofChars, List.flatMap_cons, List.flatMap_nil] at hequal
          exact absurd (List.append_eq_nil_iff.mp hequal).1 (codeUnits_ne_nil _)
      | cons other second =>
          rw [ofChars, ofChars, List.flatMap_cons, List.flatMap_cons] at hequal
          obtain ⟨hchar, hrest⟩ :=
            codeUnits_append_inj (toNat_valid char) (toNat_valid other) hequal
          rw [Char.toNat_inj.mp hchar, ih hrest]

/-- A character of which some bytes have been read: how many are missing, the bits so far, and
the bounds of the next byte. -/
structure Unfinished where
  needed : Nat
  code : Nat
  lower : Nat
  upper : Nat

def start (byte : UInt8) : Text × Option Unfinished :=
  let value := byte.toNat
  if value < 0x80 then ([UInt16.ofNat value], none)
  else if 0xc2 ≤ value ∧ value ≤ 0xdf then ([], some ⟨1, value - 0xc0, 0x80, 0xbf⟩)
  else if 0xe0 ≤ value ∧ value ≤ 0xef then
    ([], some ⟨2, value - 0xe0, if value = 0xe0 then 0xa0 else 0x80,
      if value = 0xed then 0x9f else 0xbf⟩)
  else if 0xf0 ≤ value ∧ value ≤ 0xf4 then
    ([], some ⟨3, value - 0xf0, if value = 0xf0 then 0x90 else 0x80,
      if value = 0xf4 then 0x8f else 0xbf⟩)
  else ([0xfffd], none)

/-- What follows a character of which some bytes have been read.  A byte that does not belong to
it starts another one. -/
def decodeFrom : Option Unfinished → Bytes → Text
  | none, [] => []
  | some _, [] => [0xfffd]
  | none, byte :: rest => (start byte).1 ++ decodeFrom (start byte).2 rest
  | some part, byte :: rest =>
      if part.lower ≤ byte.toNat ∧ byte.toNat ≤ part.upper then
        let code := part.code * 0x40 + (byte.toNat - 0x80)
        if part.needed ≤ 1 then codeUnits code ++ decodeFrom none rest
        else decodeFrom (some ⟨part.needed - 1, code, 0x80, 0xbf⟩) rest
      else 0xfffd :: ((start byte).1 ++ decodeFrom (start byte).2 rest)

/-- `@utf8.decode_lossy`: every longest start of a character that is not finished becomes one
replacement character. -/
def decodeLossy (bytes : Bytes) : Text := decodeFrom none bytes

theorem decodeFrom_more {part : Unfinished} {value : Nat} (hlower : part.lower ≤ value)
    (hupper : value ≤ part.upper) (hbyte : value < 0x100) (hneeded : 1 < part.needed)
    (rest : Bytes) :
    decodeFrom (some part) (UInt8.ofNat value :: rest) =
      decodeFrom (some ⟨part.needed - 1, part.code * 0x40 + (value - 0x80), 0x80, 0xbf⟩) rest := by
  rw [decodeFrom, toNat_byte hbyte, if_pos ⟨hlower, hupper⟩]
  exact if_neg (by omega)

theorem decodeFrom_last {part : Unfinished} {value : Nat} (hlower : part.lower ≤ value)
    (hupper : value ≤ part.upper) (hbyte : value < 0x100) (hneeded : part.needed = 1)
    (rest : Bytes) :
    decodeFrom (some part) (UInt8.ofNat value :: rest) =
      codeUnits (part.code * 0x40 + (value - 0x80)) ++ decodeFrom none rest := by
  rw [decodeFrom, toNat_byte hbyte, if_pos ⟨hlower, hupper⟩]
  exact if_pos (by omega)

theorem decodeFrom_codeUtf8 {code : Nat} (hcode : code.isValidChar) (rest : Bytes) :
    decodeFrom none (codeUtf8 code ++ rest) = codeUnits code ++ decodeFrom none rest := by
  have hrange : code < 0x110000 := by
    rcases hcode with hlow | ⟨-, hhigh⟩ <;> omega
  have hsurrogate : ¬(0xd800 ≤ code ∧ code ≤ 0xdfff) := by
    rcases hcode with hlow | ⟨hhigh, -⟩ <;> omega
  rw [codeUtf8]
  split
  · rename_i hsmall
    have hstart : start (UInt8.ofNat code) = ([UInt16.ofNat code], none) := by
      rw [start, toNat_byte (by omega)]
      exact if_pos hsmall
    rw [List.singleton_append, decodeFrom, hstart, codeUnits, if_pos (by omega)]
  split
  · rename_i hone htwo
    have hstart : start (UInt8.ofNat (0xc0 + code / 0x40)) =
        ([], some ⟨1, code / 0x40, 0x80, 0xbf⟩) := by
      rw [start, toNat_byte (by omega)]
      simp only [if_neg (show ¬0xc0 + code / 0x40 < 0x80 by omega),
        if_pos (show 0xc2 ≤ 0xc0 + code / 0x40 ∧ 0xc0 + code / 0x40 ≤ 0xdf by omega),
        Nat.add_sub_cancel_left]
    have hsum : code / 0x40 * 0x40 + (0x80 + code % 0x40 - 0x80) = code := by omega
    rw [List.cons_append, List.singleton_append, decodeFrom, hstart, List.nil_append,
      decodeFrom_last (by simp) (by simp only; omega) (by omega) rfl, hsum]
  split
  · rename_i hone htwo hthree
    have hstart : start (UInt8.ofNat (0xe0 + code / 0x1000)) =
        ([], some ⟨2, code / 0x1000, if 0xe0 + code / 0x1000 = 0xe0 then 0xa0 else 0x80,
          if 0xe0 + code / 0x1000 = 0xed then 0x9f else 0xbf⟩) := by
      rw [start, toNat_byte (by omega)]
      simp only [if_neg (show ¬0xe0 + code / 0x1000 < 0x80 by omega),
        if_neg (show ¬(0xc2 ≤ 0xe0 + code / 0x1000 ∧ 0xe0 + code / 0x1000 ≤ 0xdf) by omega),
        if_pos (show 0xe0 ≤ 0xe0 + code / 0x1000 ∧ 0xe0 + code / 0x1000 ≤ 0xef by omega),
        Nat.add_sub_cancel_left]
    have hsum : (code / 0x1000 * 0x40 + (0x80 + code / 0x40 % 0x40 - 0x80)) * 0x40 +
        (0x80 + code % 0x40 - 0x80) = code := by omega
    rw [List.cons_append, List.cons_append, List.singleton_append, decodeFrom, hstart,
      List.nil_append, decodeFrom_more ?_ ?_ (by omega) (by simp),
      decodeFrom_last (by simp) (by simp only; omega) (by omega) rfl, hsum]
    · simp only
      split <;> omega
    · simp only
      split <;> omega
  · rename_i hone htwo hthree
    have hstart : start (UInt8.ofNat (0xf0 + code / 0x40000)) =
        ([], some ⟨3, code / 0x40000, if 0xf0 + code / 0x40000 = 0xf0 then 0x90 else 0x80,
          if 0xf0 + code / 0x40000 = 0xf4 then 0x8f else 0xbf⟩) := by
      rw [start, toNat_byte (by omega)]
      simp only [if_neg (show ¬0xf0 + code / 0x40000 < 0x80 by omega),
        if_neg (show ¬(0xc2 ≤ 0xf0 + code / 0x40000 ∧ 0xf0 + code / 0x40000 ≤ 0xdf) by omega),
        if_neg (show ¬(0xe0 ≤ 0xf0 + code / 0x40000 ∧ 0xf0 + code / 0x40000 ≤ 0xef) by omega),
        if_pos (show 0xf0 ≤ 0xf0 + code / 0x40000 ∧ 0xf0 + code / 0x40000 ≤ 0xf4 by omega),
        Nat.add_sub_cancel_left]
    have hsum : ((code / 0x40000 * 0x40 + (0x80 + code / 0x1000 % 0x40 - 0x80)) * 0x40 +
        (0x80 + code / 0x40 % 0x40 - 0x80)) * 0x40 + (0x80 + code % 0x40 - 0x80) = code := by
      omega
    rw [List.cons_append, List.cons_append, List.cons_append, List.singleton_append, decodeFrom,
      hstart, List.nil_append, decodeFrom_more ?_ ?_ (by omega) (by simp),
      decodeFrom_more (by simp) (by simp only; omega) (by omega) (by simp),
      decodeFrom_last (by simp) (by simp only; omega) (by omega) rfl, hsum]
    · simp only
      split <;> omega
    · simp only
      split <;> omega

theorem decodeLossy_utf8 (chars : List Char) : decodeLossy (utf8 chars) = ofChars chars := by
  induction chars with
  | nil => rfl
  | cons char chars ih =>
      rw [decodeLossy, utf8, List.flatMap_cons, decodeFrom_codeUtf8 (toNat_valid char), ← utf8,
        ← decodeLossy, ih, ofChars, ofChars, List.flatMap_cons]

/-- `@utf8.decode`: bytes that encode no text are rejected. -/
def decodeUtf8? (bytes : Bytes) : Option Text :=
  if encodeUtf8 (decodeLossy bytes) = bytes then some (decodeLossy bytes) else none

theorem decodeUtf8?_utf8 (chars : List Char) :
    decodeUtf8? (utf8 chars) = some (ofChars chars) := by
  rw [decodeUtf8?, decodeLossy_utf8, encodeUtf8_ofChars, if_pos rfl]

/-- The text has no half of a surrogate pair on its own. -/
def Paired (text : Text) : Prop := ∃ chars, text = ofChars chars

theorem Paired.append {first second : Text} (hfirst : first.Paired) (hsecond : second.Paired) :
    Paired (first ++ second) := by
  obtain ⟨chars, rfl⟩ := hfirst
  obtain ⟨others, rfl⟩ := hsecond
  exact ⟨chars ++ others, (ofChars_append chars others).symm⟩

theorem paired_codeUnits (char : Char) : Paired (codeUnits char.toNat) :=
  ⟨[char], by rw [ofChars, List.flatMap_singleton]⟩

theorem paired_of_ascii {text : Text} (hascii : ∀ unit ∈ text, unit.toNat < 128) :
    text.Paired := by
  induction text with
  | nil => exact ⟨[], rfl⟩
  | cons unit text ih =>
      obtain ⟨hunit, htext⟩ := List.forall_mem_cons.mp hascii
      obtain ⟨chars, hchars⟩ := ih htext
      have hvalue : (Char.ofNat unit.toNat).toNat = unit.toNat :=
        toNat_ofNat_unit (by omega)
      refine ⟨Char.ofNat unit.toNat :: chars, ?_⟩
      rw [ofChars_ascii (by rw [hvalue]; exact hunit), hvalue, UInt16.ofNat_toNat, hchars]

end Text

end MoonBoofuzz
