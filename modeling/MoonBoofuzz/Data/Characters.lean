import MoonBoofuzz.Data.Json
import MoonBoofuzz.Data.Utf8

namespace MoonBoofuzz

namespace Text

/-- The number of characters: two halves of a surrogate pair are one. -/
def charLength : Text → Nat
  | [] => 0
  | [_] => 1
  | first :: second :: rest =>
      if isLeading first && isTrailing second then charLength rest + 1
      else charLength (second :: rest) + 1

/-- Two halves of a surrogate pair stand next to each other. -/
def hasPair : Text → Bool
  | [] => false
  | unit :: rest => isLeading unit && rest.head?.any isTrailing || hasPair rest

/-- The unit is no half of a surrogate pair. -/
def IsWhole (unit : UInt16) : Prop := isLeading unit = false ∧ isTrailing unit = false

instance (unit : UInt16) : Decidable (IsWhole unit) :=
  inferInstanceAs (Decidable (_ ∧ _))

theorem isWhole_of_ascii {unit : UInt16} (hunit : unit.toNat < 128) : IsWhole unit := by
  constructor
  · rw [isLeading, decide_eq_false_iff_not]
    omega
  · rw [isTrailing, decide_eq_false_iff_not]
    omega

theorem charLength_le (text : Text) : charLength text ≤ text.length := by
  induction text using charLength.induct with
  | case1 => exact le_refl 0
  | case2 unit => exact le_refl 1
  | case3 first second rest hpair ih =>
      rw [charLength, if_pos hpair, List.length_cons, List.length_cons]
      omega
  | case4 first second rest hpair ih =>
      rw [charLength, if_neg hpair, List.length_cons]
      omega

/-- Only surrogate pairs make a text longer than its characters. -/
theorem charLength_eq_length_iff (text : Text) :
    charLength text = text.length ↔ hasPair text = false := by
  induction text using charLength.induct with
  | case1 => exact iff_of_true rfl rfl
  | case2 unit => simp [charLength, hasPair]
  | case3 first second rest hpair ih =>
      have hle := charLength_le rest
      have hpaired : hasPair (first :: second :: rest) = true := by
        rw [hasPair, List.head?_cons, Option.any_some, hpair, Bool.true_or]
      rw [charLength, if_pos hpair, hpaired, List.length_cons, List.length_cons]
      exact iff_of_false (by omega) (by decide)
  | case4 first second rest hpair ih =>
      have hrest : hasPair (first :: second :: rest) = hasPair (second :: rest) := by
        rw [hasPair, List.head?_cons, Option.any_some, Bool.eq_false_of_not_eq_true hpair,
          Bool.false_or]
      rw [charLength, if_neg hpair, hrest, ← ih, List.length_cons]
      omega

theorem hasPair_cons (unit : UInt16) (rest : Text) :
    hasPair (unit :: rest) = (isLeading unit && rest.head?.any isTrailing || hasPair rest) := rfl

theorem hasPair_append {unit : UInt16} (hwhole : IsWhole unit) (front rest : Text) :
    hasPair (front ++ unit :: rest) = (hasPair front || hasPair (unit :: rest)) := by
  induction front with
  | nil => rfl
  | cons first front ih =>
      have hhead : (front ++ unit :: rest).head?.any isTrailing =
          front.head?.any isTrailing := by
        cases front with
        | nil => exact hwhole.2
        | cons second front => rfl
      rw [List.cons_append, hasPair_cons, hhead, ih, hasPair_cons first, Bool.or_assoc]

theorem hasPair_whole {unit : UInt16} (hwhole : IsWhole unit) (rest : Text) :
    hasPair (unit :: rest) = hasPair rest := by
  rw [hasPair_cons, hwhole.1, Bool.false_and, Bool.false_or]

theorem hasPair_wholes {front : Text} (hfront : ∀ unit ∈ front, IsWhole unit) (rest : Text) :
    hasPair (front ++ rest) = hasPair rest := by
  induction front with
  | nil => rfl
  | cons unit front ih =>
      rw [List.cons_append, hasPair_whole (hfront unit (by simp)),
        ih fun unit hmem => hfront unit (by simp [hmem])]

end Text

namespace Json

open Text

/-- ASCII code units other than the slash. -/
def isEscaped (unit : UInt16) : Bool := decide (unit.toNat < 128 ∧ unit ≠ slash)

private theorem escapeUnit_control {value : Nat} (hvalue : value < 32) :
    (escapeUnit (UInt16.ofNat value)).all isEscaped = true := by
  interval_cases value <;> decide

theorem escapeUnit_shape (unit : UInt16) :
    escapeUnit unit = [unit] ∨
      unit.toNat < 128 ∧ escapeUnit unit ≠ [] ∧
        ∀ other ∈ escapeUnit unit, other.toNat < 128 ∧ other ≠ slash := by
  have hfilled : escapeUnit unit ≠ [] := by
    intro hnil
    have hread := readUnit_escapeUnit unit []
    rw [hnil] at hread
    cases hread
  have hescaped : (escapeUnit unit).all isEscaped = true →
      ∀ other ∈ escapeUnit unit, other.toNat < 128 ∧ other ≠ slash := fun hall other hmem =>
    of_decide_eq_true (List.all_eq_true.mp hall other hmem)
  by_cases hcontrol : unit.toNat < 32
  · have hcode := escapeUnit_control hcontrol
    rw [UInt16.ofNat_toNat] at hcode
    exact .inr ⟨by omega, hfilled, hescaped hcode⟩
  · by_cases hquote : unit = quote
    · subst hquote
      exact .inr ⟨by decide, hfilled, hescaped (by decide)⟩
    · by_cases hbackslash : unit = backslash
      · subst hbackslash
        exact .inr ⟨by decide, hfilled, hescaped (by decide)⟩
      · have hlarge : ∀ value : UInt16, value.toNat < 32 → unit ≠ value := by
          rintro value hsmall rfl
          exact hcontrol hsmall
        have hle : ¬unit < 32 := by
          rw [UInt16.lt_iff_toNat_lt]
          exact hcontrol
        refine .inl ?_
        simp only [escapeUnit, hquote, hbackslash, hle, if_false, hlarge 10 (by decide),
          hlarge 13 (by decide), hlarge 8 (by decide), hlarge 9 (by decide),
          hlarge 12 (by decide)]

theorem head_escape (text : Text) :
    (text.flatMap escapeUnit).head?.any isTrailing = text.head?.any isTrailing := by
  cases text with
  | nil => rfl
  | cons unit rest =>
      rw [List.flatMap_cons]
      rcases escapeUnit_shape unit with hkept | ⟨hascii, hfilled, hescaped⟩
      · rw [hkept]
        rfl
      · obtain ⟨first, others, hunits⟩ := List.exists_cons_of_ne_nil hfilled
        have hfirst := (isWhole_of_ascii (hescaped first (by simp [hunits])).1).2
        have hunit := (isWhole_of_ascii hascii).2
        rw [hunits, List.cons_append, List.head?_cons, List.head?_cons, Option.any_some,
          Option.any_some, hfirst, hunit]

theorem hasPair_escape (text : Text) : hasPair (text.flatMap escapeUnit) = hasPair text := by
  induction text with
  | nil => rfl
  | cons unit rest ih =>
      rw [List.flatMap_cons]
      rcases escapeUnit_shape unit with hkept | ⟨hascii, -, hescaped⟩
      · rw [hkept, List.singleton_append, hasPair_cons, head_escape, ih, hasPair_cons]
      · rw [hasPair_wholes (fun other hmem => isWhole_of_ascii (hescaped other hmem).1), ih,
          hasPair_whole (isWhole_of_ascii hascii)]

theorem hasPair_literal (text rest : Text) :
    hasPair (literal text ++ rest) = (hasPair text || hasPair rest) := by
  have hquote : IsWhole quote := by decide
  rw [literal, literalTail, List.cons_append, List.append_assoc, List.singleton_append,
    hasPair_whole hquote, hasPair_append hquote, hasPair_escape, hasPair_whole hquote]

theorem hasPair_arrayTail (items : List Text) : hasPair (arrayTail items) = items.any hasPair := by
  induction items using arrayTail.induct with
  | case1 => rfl
  | case2 item =>
      rw [arrayTail, hasPair_literal]
      rfl
  | case3 item rest hrest ih =>
      rw [arrayTail, hasPair_literal, hasPair_whole (by decide), ih]
      · rfl
      · exact hrest

/-- The JSON text of an array has the surrogate pairs of its items. -/
theorem hasPair_stringify (items : List Text) : hasPair (stringify items) = items.any hasPair := by
  rw [stringify, hasPair_whole (by decide), hasPair_arrayTail]

theorem slash_notMem_escape {text : Text} (htext : slash ∉ text) :
    slash ∉ text.flatMap escapeUnit := by
  intro hmem
  obtain ⟨unit, hunit, hescaped⟩ := List.mem_flatMap.mp hmem
  rcases escapeUnit_shape unit with hkept | ⟨-, -, hshape⟩
  · rw [hkept, List.mem_singleton] at hescaped
    exact htext (hescaped ▸ hunit)
  · exact (hshape slash hescaped).2 rfl

theorem slash_notMem_literal {text : Text} (htext : slash ∉ text) : slash ∉ literal text := by
  rw [literal, literalTail, List.mem_cons, List.mem_append, List.mem_singleton]
  rintro (hquote | hescaped | hquote)
  · exact absurd hquote (by decide)
  · exact slash_notMem_escape htext hescaped
  · exact absurd hquote (by decide)

theorem slash_notMem_stringify {items : List Text} (hitems : ∀ item ∈ items, slash ∉ item) :
    slash ∉ stringify items := by
  have htail : slash ∉ arrayTail items := by
    induction items using arrayTail.induct with
    | case1 => decide
    | case2 item =>
        rw [arrayTail, List.mem_append, List.mem_singleton]
        rintro (hliteral | hbracket)
        · exact slash_notMem_literal (hitems item (by simp)) hliteral
        · exact absurd hbracket (by decide)
    | case3 item rest hrest ih =>
        rw [arrayTail, List.mem_append, List.mem_cons]
        · rintro (hliteral | hcomma | hmem)
          · exact slash_notMem_literal (hitems item (by simp)) hliteral
          · exact absurd hcomma (by decide)
          · exact ih (fun item hmem => hitems item (by simp [hmem])) hmem
        · exact hrest
  rw [stringify, List.mem_cons]
  rintro (hbracket | hmem)
  · exact absurd hbracket (by decide)
  · exact htail hmem

end Json

end MoonBoofuzz
