import MoonBoofuzz.Data.Text

namespace MoonBoofuzz

namespace Text

def isLeading (unit : UInt16) : Bool := decide (0xd800 ≤ unit.toNat ∧ unit.toNat < 0xdc00)

def isTrailing (unit : UInt16) : Bool := decide (0xdc00 ≤ unit.toNat ∧ unit.toNat < 0xe000)

def codeUtf8 (code : Nat) : Bytes :=
  if code < 0x80 then [UInt8.ofNat code]
  else if code < 0x800 then [UInt8.ofNat (0xc0 + code / 0x40), UInt8.ofNat (0x80 + code % 0x40)]
  else if code < 0x10000 then
    [UInt8.ofNat (0xe0 + code / 0x1000), UInt8.ofNat (0x80 + code / 0x40 % 0x40),
     UInt8.ofNat (0x80 + code % 0x40)]
  else
    [UInt8.ofNat (0xf0 + code / 0x40000), UInt8.ofNat (0x80 + code / 0x1000 % 0x40),
     UInt8.ofNat (0x80 + code / 0x40 % 0x40), UInt8.ofNat (0x80 + code % 0x40)]

/-- `@utf8.encode`: two halves of a surrogate pair are one code point, and a half on its own
is one too. -/
def encodeUtf8 : Text → Bytes
  | [] => []
  | [unit] => codeUtf8 unit.toNat
  | first :: second :: rest =>
      if isLeading first && isTrailing second then
        codeUtf8 (0x10000 + (first.toNat - 0xd800) * 0x400 + (second.toNat - 0xdc00)) ++
          encodeUtf8 rest
      else codeUtf8 first.toNat ++ encodeUtf8 (second :: rest)

theorem length_codeUtf8_pos (code : Nat) : 1 ≤ (codeUtf8 code).length := by
  rw [codeUtf8]
  split
  · exact Nat.le_refl 1
  · split
    · exact Nat.le_succ 1
    · split
      · exact Nat.le_add_left 1 2
      · exact Nat.le_add_left 1 3

theorem length_codeUtf8_pair {code : Nat} (hcode : 0x10000 ≤ code) :
    (codeUtf8 code).length = 4 := by
  rw [codeUtf8, if_neg (by omega), if_neg (by omega), if_neg (by omega)]
  rfl

theorem length_le_encodeUtf8 (text : Text) : text.length ≤ (encodeUtf8 text).length := by
  induction text using encodeUtf8.induct with
  | case1 => exact Nat.le_refl 0
  | case2 unit =>
      rw [encodeUtf8]
      exact length_codeUtf8_pos unit.toNat
  | case3 first second rest hpair ih =>
      rw [encodeUtf8, if_pos hpair, List.length_append, length_codeUtf8_pair (by omega)]
      simp only [List.length_cons]
      omega
  | case4 first second rest hpair ih =>
      rw [encodeUtf8, if_neg hpair, List.length_append, List.length_cons]
      have hfirst := length_codeUtf8_pos first.toNat
      omega

theorem length_codeUtf8_unit {code : Nat} (hcode : code < 0x10000) :
    (codeUtf8 code).length ≤ 3 := by
  rw [codeUtf8]
  split
  · exact Nat.le_add_left 1 2
  · split
    · exact Nat.le_succ 2
    · exact Nat.le_refl 3

theorem length_encodeUtf8_le (text : Text) : (encodeUtf8 text).length ≤ 3 * text.length := by
  induction text using encodeUtf8.induct with
  | case1 => exact Nat.le_refl 0
  | case2 unit =>
      rw [encodeUtf8]
      exact length_codeUtf8_unit unit.toNat_lt
  | case3 first second rest hpair ih =>
      rw [encodeUtf8, if_pos hpair, List.length_append, length_codeUtf8_pair (by omega)]
      simp only [List.length_cons]
      omega
  | case4 first second rest hpair ih =>
      rw [encodeUtf8, if_neg hpair, List.length_append]
      have hfirst := length_codeUtf8_unit first.toNat_lt
      simp only [List.length_cons] at ih ⊢
      omega

def Opens (text : Text) : Prop := ∀ unit ∈ text.head?, isTrailing unit = false

/-- The text does not end with the first half of a surrogate pair. -/
def Closes (text : Text) : Prop := ∀ unit ∈ text.getLast?, isLeading unit = false

theorem Closes.of_cons {text : Text} (first : UInt16) (hcloses : Closes (first :: text)) :
    Closes text := by
  intro unit hunit
  cases text with
  | nil => cases hunit
  | cons second rest => exact hcloses unit (by rwa [List.getLast?_cons_cons])

/-- Texts that do not meet within a surrogate pair are encoded one after the other. -/
theorem encodeUtf8_append {front rest : Text} (hmeets : Closes front ∨ Opens rest) :
    encodeUtf8 (front ++ rest) = encodeUtf8 front ++ encodeUtf8 rest := by
  induction front using encodeUtf8.induct with
  | case1 => rfl
  | case2 unit =>
      cases rest with
      | nil => rw [List.append_nil, encodeUtf8, encodeUtf8, List.append_nil]
      | cons next rest =>
          have hsplit : (isLeading unit && isTrailing next) = false := by
            rcases hmeets with hcloses | hopens
            · rw [hcloses unit rfl, Bool.false_and]
            · rw [hopens next rfl, Bool.and_false]
          conv_lhs => rw [List.singleton_append, encodeUtf8, hsplit]
          rw [if_neg Bool.false_ne_true, encodeUtf8]
  | case3 first second front hpair ih =>
      rw [List.cons_append, List.cons_append, encodeUtf8, if_pos hpair, encodeUtf8,
        if_pos hpair, List.append_assoc, ih]
      exact hmeets.imp_left fun hcloses => (hcloses.of_cons first).of_cons second
  | case4 first second front hpair ih =>
      rw [List.cons_append, List.cons_append, encodeUtf8, if_neg hpair, encodeUtf8,
        if_neg hpair, List.append_assoc, ← List.cons_append, ih]
      exact hmeets.imp_left fun hcloses => hcloses.of_cons first

end Text

end MoonBoofuzz
