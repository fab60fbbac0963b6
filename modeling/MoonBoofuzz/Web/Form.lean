import Mathlib.Data.List.Nodup
import Mathlib.Tactic.IntervalCases
import MoonBoofuzz.Data.Digits
import MoonBoofuzz.Data.Mapped
import MoonBoofuzz.Data.Unicode

namespace MoonBoofuzz

open Text

namespace Web

def ampersand : UInt16 := 38

def equalsSign : UInt16 := 61

def hexNibble (value : Nat) : Int :=
  if 48 ≤ value ∧ value ≤ 57 then value - 48
  else if 97 ≤ value ∧ value ≤ 102 then value - 87
  else if 65 ≤ value ∧ value ≤ 70 then value - 55
  else -1

/-- The loop of `form_decode` over the bytes of a text. -/
def percentDecode : Bytes → Bytes
  | [] => []
  | byte :: rest =>
      if byte = 43 then 32 :: percentDecode rest
      else if byte = 37 then
        match rest with
        | high :: low :: others =>
            if 0 ≤ hexNibble high.toNat ∧ 0 ≤ hexNibble low.toNat then
              UInt8.ofNat (hexNibble high.toNat * 16 + hexNibble low.toNat).toNat ::
                percentDecode others
            else byte :: percentDecode (high :: low :: others)
        | short => byte :: percentDecode short
      else byte :: percentDecode rest

def formDecode (text : Text) : Text := decodeLossy (percentDecode (encodeUtf8 text))

def splitPair (pair : Text) : Text × Text :=
  match pair.findIdx? (· = equalsSign) with
  | some index => (pair.take index, pair.drop (index + 1))
  | none => (pair, [])

/-- `form[key] = value`; a key keeps its place. -/
def setField (form : List (Text × Text)) (key value : Text) : List (Text × Text) :=
  if key ∈ form.map Prod.fst then
    form.map fun entry => if entry.1 = key then (key, value) else entry
  else form ++ [(key, value)]

def addPair (form : List (Text × Text)) (pair : Text) : List (Text × Text) :=
  if pair = [] then form
  else setField form (formDecode (splitPair pair).1) (formDecode (splitPair pair).2)

def parseForm (body : Bytes) : List (Text × Text) :=
  ((decodeLossy body).splitOn ampersand).foldl addPair []

def lowerDigits : List Char :=
  ['0', '1', '2', '3', '4', '5', '6', '7', '8', '9', 'a', 'b', 'c', 'd', 'e', 'f']

def upperDigits : List Char :=
  ['0', '1', '2', '3', '4', '5', '6', '7', '8', '9', 'A', 'B', 'C', 'D', 'E', 'F']

def IsHexDigit (value : Nat) (digit : Char) : Prop :=
  lowerDigits[value]? = some digit ∨ upperDigits[value]? = some digit

def EscapesByte (byte : UInt8) (text : List Char) : Prop :=
  ∃ high low, text = ['%', high, low] ∧ IsHexDigit (byte.toNat / 16) high ∧
    IsHexDigit (byte.toNat % 16) low

/-- The spellings of a key or a value. -/
inductive Spells (inKey : Bool) : List Char → List Char → Prop
  | nil : Spells inKey [] []
  | escaped {char : Char} {chars spelled : List Char} {pieces : List (List Char)}
      (hpieces : List.Forall₂ EscapesByte (codeUtf8 char.toNat) pieces)
      (hrest : Spells inKey chars spelled) :
      Spells inKey (char :: chars) (pieces.flatten ++ spelled)
  | kept {char : Char} {chars spelled : List Char} (hplain : char ∉ ['%', '&', '+'])
      (hkey : inKey = true → char ≠ '=') (hrest : Spells inKey chars spelled) :
      Spells inKey (char :: chars) (char :: spelled)
  | space {chars spelled : List Char} (hrest : Spells inKey chars spelled) :
      Spells inKey (' ' :: chars) ('+' :: spelled)

def spelledBody (spellings : List (List Char × List Char)) : Bytes :=
  utf8 (['&'].intercalate (spellings.map fun field => field.1 ++ '=' :: field.2))

theorem IsHexDigit.reads {value : Nat} {digit : Char} (hdigit : IsHexDigit value digit) :
    digit.toNat < 128 ∧ hexNibble digit.toNat = value ∧ digit ≠ '&' ∧ digit ≠ '=' := by
  have hvalue : value < 16 := by
    rcases hdigit with hlower | hupper
    · exact (List.getElem?_eq_some_iff.mp hlower).1
    · exact (List.getElem?_eq_some_iff.mp hupper).1
  interval_cases value <;> rcases hdigit with hcase | hcase <;>
    · obtain rfl := Option.some.inj hcase
      decide

theorem utf8_ascii {char : Char} (hchar : char.toNat < 128) (chars : List Char) :
    utf8 (char :: chars) = UInt8.ofNat char.toNat :: utf8 chars := by
  rw [utf8, List.flatMap_cons, codeUtf8, if_pos hchar]
  rfl

theorem percentDecode_plain {byte : UInt8} (hplus : byte ≠ 43) (hpercent : byte ≠ 37)
    (rest : Bytes) : percentDecode (byte :: rest) = byte :: percentDecode rest := by
  rw [percentDecode.eq_def]
  exact (if_neg hplus).trans (if_neg hpercent)

theorem percentDecode_plus (rest : Bytes) :
    percentDecode (43 :: rest) = 32 :: percentDecode rest := by
  rw [percentDecode.eq_def]
  exact if_pos rfl

theorem percentDecode_escape {byte : UInt8} {text : List Char} (hescapes : EscapesByte byte text)
    (rest : Bytes) : percentDecode (utf8 text ++ rest) = byte :: percentDecode rest := by
  obtain ⟨high, low, rfl, hhigh, hlow⟩ := hescapes
  obtain ⟨hhighAscii, hhighValue, -⟩ := hhigh.reads
  obtain ⟨hlowAscii, hlowValue, -⟩ := hlow.reads
  have hsum : UInt8.ofNat (((byte.toNat / 16 : Nat) : Int) * 16 +
      ((byte.toNat % 16 : Nat) : Int)).toNat = byte := by
    rw [← UInt8.toNat_inj, UInt8.toNat_ofNat']
    have hbyte := byte.toNat_lt
    omega
  rw [utf8_ascii (by decide), utf8_ascii hhighAscii, utf8_ascii hlowAscii, List.cons_append,
    List.cons_append, List.cons_append, percentDecode, if_neg (by decide), if_pos (by decide)]
  simp only [toNat_byte (show high.toNat < 0x100 by omega),
    toNat_byte (show low.toNat < 0x100 by omega), hhighValue, hlowValue]
  rw [if_pos ⟨Int.natCast_nonneg _, Int.natCast_nonneg _⟩, hsum]
  rfl

theorem percentDecode_escapes {bytes : Bytes} {pieces : List (List Char)}
    (hpieces : List.Forall₂ EscapesByte bytes pieces) (rest : Bytes) :
    percentDecode (utf8 pieces.flatten ++ rest) = bytes ++ percentDecode rest := by
  induction hpieces with
  | nil => rfl
  | cons hpiece _ ih =>
      rw [List.flatten_cons, utf8_append, List.append_assoc, percentDecode_escape hpiece, ih,
        List.cons_append]

theorem percentDecode_bytes {bytes : Bytes} (hplus : 43 ∉ bytes) (hpercent : 37 ∉ bytes)
    (rest : Bytes) : percentDecode (bytes ++ rest) = bytes ++ percentDecode rest := by
  induction bytes with
  | nil => rfl
  | cons byte bytes ih =>
      rw [List.cons_append, percentDecode_plain (fun heq => hplus (by simp [heq]))
        (fun heq => hpercent (by simp [heq])),
        ih (fun hmem => hplus (by simp [hmem])) fun hmem => hpercent (by simp [hmem])]
      rfl

theorem notMem_codeUtf8 {char other : Char} (hother : other.toNat < 128) (hne : char ≠ other) :
    UInt8.ofNat other.toNat ∉ codeUtf8 char.toNat := by
  intro hmem
  have hrange : char.toNat < 0x110000 := by
    rcases toNat_valid char with hlow | ⟨-, hhigh⟩ <;> omega
  have hvalue := @toNat_byte other.toNat (by omega)
  have hsame := mem_codeUtf8 hrange (by omega) hmem
  rw [hvalue] at hsame
  exact hne (Char.toNat_inj.mp hsame)

theorem Spells.percentDecode {inKey : Bool} {chars spelled : List Char}
    (hspells : Spells inKey chars spelled) : percentDecode (utf8 spelled) = utf8 chars := by
  induction hspells with
  | nil => rfl
  | @escaped char chars spelled pieces hpieces _ ih =>
      rw [utf8_append, percentDecode_escapes hpieces, ih]
      rfl
  | @kept char chars spelled hplain _ _ ih =>
      simp only [List.mem_cons, List.not_mem_nil, or_false, not_or] at hplain
      have hplus : (43 : UInt8) ∉ codeUtf8 char.toNat :=
        @notMem_codeUtf8 char '+' (by decide) hplain.2.2
      have hpercent : (37 : UInt8) ∉ codeUtf8 char.toNat :=
        @notMem_codeUtf8 char '%' (by decide) hplain.1
      have hcons : ∀ chars : List Char, utf8 (char :: chars) = codeUtf8 char.toNat ++ utf8 chars :=
        fun _ => rfl
      rw [hcons, hcons, percentDecode_bytes hplus hpercent, ih]
  | @space chars spelled _ ih =>
      have hplus : utf8 ('+' :: spelled) = 43 :: utf8 spelled := utf8_ascii (by decide) spelled
      rw [hplus, percentDecode_plus, ih]
      exact (@utf8_ascii ' ' (by decide) chars).symm

theorem Spells.formDecode {inKey : Bool} {chars spelled : List Char}
    (hspells : Spells inKey chars spelled) : formDecode (ofChars spelled) = ofChars chars := by
  rw [Web.formDecode, encodeUtf8_ofChars, hspells.percentDecode, decodeLossy_utf8]

theorem notMem_escapes {bytes : Bytes} {pieces : List (List Char)}
    (hpieces : List.Forall₂ EscapesByte bytes pieces) :
    '&' ∉ pieces.flatten ∧ '=' ∉ pieces.flatten := by
  induction hpieces with
  | nil => exact ⟨List.not_mem_nil, List.not_mem_nil⟩
  | cons hpiece _ ih =>
      obtain ⟨high, low, rfl, hhigh, hlow⟩ := hpiece
      obtain ⟨-, -, hhighAnd, hhighEquals⟩ := hhigh.reads
      obtain ⟨-, -, hlowAnd, hlowEquals⟩ := hlow.reads
      simp only [List.flatten_cons, List.mem_append, List.mem_cons, List.not_mem_nil, or_false,
        not_or]
      exact ⟨⟨⟨by decide, hhighAnd.symm, hlowAnd.symm⟩, ih.1⟩,
        ⟨by decide, hhighEquals.symm, hlowEquals.symm⟩, ih.2⟩

theorem Spells.notMem {inKey : Bool} {chars spelled : List Char}
    (hspells : Spells inKey chars spelled) : '&' ∉ spelled ∧ (inKey = true → '=' ∉ spelled) := by
  induction hspells with
  | nil => exact ⟨List.not_mem_nil, fun _ => List.not_mem_nil⟩
  | escaped hpieces _ ih =>
      have hescapes := notMem_escapes hpieces
      rw [List.mem_append, not_or, List.mem_append, not_or]
      exact ⟨⟨hescapes.1, ih.1⟩, fun hkey => ⟨hescapes.2, ih.2 hkey⟩⟩
  | @kept char _ _ hplain hkey _ ih =>
      have hand : '&' ≠ char := by
        rintro rfl
        exact hplain (by decide)
      rw [List.mem_cons, not_or, List.mem_cons, not_or]
      exact ⟨⟨hand, ih.1⟩, fun hin => ⟨(hkey hin).symm, ih.2 hin⟩⟩
  | space _ ih =>
      rw [List.mem_cons, not_or, List.mem_cons, not_or]
      exact ⟨⟨by decide, ih.1⟩, fun hin => ⟨by decide, ih.2 hin⟩⟩

theorem splitPair_append {key value : Text} (hkey : equalsSign ∉ key) :
    splitPair (key ++ equalsSign :: value) = (key, value) := by
  have hindex : (key ++ equalsSign :: value).findIdx? (· = equalsSign) = some key.length := by
    have hnone : key.findIdx? (· = equalsSign) = none := by
      rw [List.findIdx?_eq_none_iff]
      intro unit hmem
      rw [decide_eq_false_iff_not]
      rintro rfl
      exact hkey hmem
    rw [List.findIdx?_append, hnone, List.findIdx?_cons]
    simp
  rw [splitPair, hindex]
  simp

theorem ofChars_intercalate (pieces : List (List Char)) :
    ofChars (['&'].intercalate pieces) = [ampersand].intercalate (pieces.map ofChars) := by
  induction pieces with
  | nil => rfl
  | cons piece rest ih =>
      cases rest with
      | nil => simp
      | cons next rest =>
          rw [List.intercalate_cons_cons, List.map_cons, List.map_cons,
            List.intercalate_cons_cons, ofChars_append, ofChars_append, ih]
          rfl

def SpellsField (field spelling : List Char × List Char) : Prop :=
  Spells true field.1 spelling.1 ∧ Spells false field.2 spelling.2

def pairText (spelling : List Char × List Char) : Text :=
  ofChars (spelling.1 ++ '=' :: spelling.2)

theorem addPair_spelled {field spelling : List Char × List Char}
    (hspells : SpellsField field spelling) {form : List (Text × Text)}
    (hfresh : ofChars field.1 ∉ form.map Prod.fst) :
    addPair form (pairText spelling) = form ++ [(ofChars field.1, ofChars field.2)] := by
  have hpair : pairText spelling = ofChars spelling.1 ++ equalsSign :: ofChars spelling.2 := by
    rw [pairText, ofChars_append, ofChars_ascii (by decide)]
    rfl
  have hkey : equalsSign ∉ ofChars spelling.1 :=
    @notMem_ofChars '=' (by decide) _ (hspells.1.notMem.2 rfl)
  rw [addPair, hpair, if_neg (by simp), splitPair_append hkey, hspells.1.formDecode,
    hspells.2.formDecode, setField, if_neg hfresh]

theorem foldl_addPair {fields spellings : List (List Char × List Char)}
    (hspells : List.Forall₂ SpellsField fields spellings) {form : List (Text × Text)}
    (hdistinct : (fields.map Prod.fst).Nodup)
    (hfresh : ∀ field ∈ fields, ofChars field.1 ∉ form.map Prod.fst) :
    (spellings.map pairText).foldl addPair form =
      form ++ fields.map fun field => (ofChars field.1, ofChars field.2) := by
  induction hspells generalizing form with
  | nil => exact (List.append_nil form).symm
  | @cons field spelling fields spellings hfield _ ih =>
      rw [List.map_cons, List.nodup_cons] at hdistinct
      rw [List.map_cons, List.foldl_cons, addPair_spelled hfield (hfresh field (by simp)),
        ih hdistinct.2, List.map_cons, List.append_assoc, List.singleton_append]
      intro other hmem
      rw [List.map_append, List.mem_append, not_or]
      refine ⟨hfresh other (by simp [hmem]), fun hsame => ?_⟩
      have hkey := ofChars_inj (List.mem_singleton.mp hsame)
      exact hdistinct.1 (hkey ▸ List.mem_map.mpr ⟨other, hmem, rfl⟩)

/-- Whatever way its fields are spelled, a form is read back. -/
theorem parseForm_spelledBody {fields spellings : List (List Char × List Char)}
    (hdistinct : (fields.map Prod.fst).Nodup)
    (hspells : List.Forall₂ SpellsField fields spellings) :
    parseForm (spelledBody spellings) =
      fields.map fun field => (ofChars field.1, ofChars field.2) := by
  rw [parseForm, spelledBody, decodeLossy_utf8, ofChars_intercalate, List.map_map]
  have hpairs : spellings.map (ofChars ∘ fun field => field.1 ++ '=' :: field.2) =
      spellings.map pairText := rfl
  rw [hpairs]
  cases hspells with
  | nil => rfl
  | @cons field spelling fields spellings hfield hrest =>
      have hfree : ∀ pair ∈ (spelling :: spellings).map pairText, ampersand ∉ pair := by
        intro pair hmem
        obtain ⟨other, hother, rfl⟩ := List.mem_map.mp hmem
        obtain ⟨own, hown⟩ : ∃ own, SpellsField own other := by
          rcases List.mem_cons.mp hother with rfl | hlater
          · exact ⟨field, hfield⟩
          · obtain ⟨own, -, hown⟩ := forall₂_of_mem_right hrest hlater
            exact ⟨own, hown⟩
        refine @notMem_ofChars '&' (by decide) _ ?_
        rw [List.mem_append, List.mem_cons, not_or, not_or]
        exact ⟨hown.1.notMem.1, by decide, hown.2.notMem.1⟩
      rw [List.splitOn_intercalate ampersand hfree (List.cons_ne_nil _ _),
        foldl_addPair (.cons hfield hrest) hdistinct fun _ _ => List.not_mem_nil,
        List.nil_append]

/-- Two spellings of a letter that takes two bytes, a separator that is escaped, and a field
without a value. -/
theorem parseForm_accents :
    parseForm (spelledBody [("a+é".toList, "%c3%A9=%26".toList), ("b".toList, [])]) =
      [(ofChars "a é".toList, ofChars "é=&".toList), (ofChars "b".toList, [])] := by
  have hkey : Spells true "a é".toList "a+é".toList :=
    .kept (by decide) (by decide) (.space (.kept (by decide) (by decide) .nil))
  have haccent : List.Forall₂ EscapesByte (codeUtf8 'é'.toNat)
      [['%', 'c', '3'], ['%', 'A', '9']] :=
    .cons ⟨'c', '3', rfl, .inl rfl, .inl rfl⟩ (.cons ⟨'A', '9', rfl, .inr rfl, .inl rfl⟩ .nil)
  have hand : List.Forall₂ EscapesByte (codeUtf8 '&'.toNat) [['%', '2', '6']] :=
    .cons ⟨'2', '6', rfl, .inl rfl, .inl rfl⟩ .nil
  have hvalue : Spells false "é=&".toList "%c3%A9=%26".toList :=
    .escaped haccent (.kept (by decide) (by decide) (.escaped hand .nil))
  have hplain : Spells true "b".toList "b".toList := .kept (by decide) (by decide) .nil
  have hfields : List.Forall₂ SpellsField [("a é".toList, "é=&".toList), ("b".toList, [])]
      [("a+é".toList, "%c3%A9=%26".toList), ("b".toList, [])] :=
    .cons ⟨hkey, hvalue⟩ (.cons ⟨hplain, .nil⟩ .nil)
  exact parseForm_spelledBody (by decide) hfields

end Web

end MoonBoofuzz
