import Mathlib.Data.List.TakeWhile
import MoonBoofuzz.Data.Characters
import MoonBoofuzz.Data.Decimal
import MoonBoofuzz.Data.Unicode

namespace MoonBoofuzz

namespace Json

open Text

/-! Reading a JSON text. -/

def isSpace (unit : UInt16) : Bool := decide (unit = 32 ∨ unit = 9 ∨ unit = 10 ∨ unit = 13)

def skipSpace (text : Text) : Text := text.dropWhile isSpace

def isDigit (unit : UInt16) : Bool := decide (48 ≤ unit.toNat ∧ unit.toNat ≤ 57)

def isNumberUnit (unit : UInt16) : Bool :=
  isDigit unit || decide (unit = 43 ∨ unit = 45 ∨ unit = 46 ∨ unit = 69 ∨ unit = 101)

/-- What is left behind one digit or more. -/
def digits? : Text → Option Text
  | [] => none
  | first :: rest => if isDigit first then some (rest.dropWhile isDigit) else none

def wholePart? : Text → Option Text
  | 48 :: rest => some rest
  | text => digits? text

def fraction? : Text → Option Text
  | 46 :: rest => digits? rest
  | text => some text

def exponent? : Text → Option Text
  | [] => some []
  | mark :: rest =>
      if mark = 69 ∨ mark = 101 then
        match rest with
        | 43 :: rest => digits? rest
        | 45 :: rest => digits? rest
        | rest => digits? rest
      else some (mark :: rest)

def unsigned : Text → Text
  | 45 :: rest => rest
  | text => text

def isNumber (text : Text) : Bool :=
  text.all isNumberUnit &&
    decide (((wholePart? (unsigned text)).bind fraction?).bind exponent? = some [])

def parseTail : Nat → Text → Option (Text × Text)
  | 0, _ => none
  | fuel + 1, text =>
      if text.head? = some quote then some ([], text.tail)
      else do
        let (unit, rest) ← readUnit text
        let (units, rest) ← parseTail fuel rest
        some (unit :: units, rest)

/-- A string literal behind its first quote. -/
def parseLiteral (text : Text) : Option (Text × Text) := parseTail (text.length + 1) text

def parseAtom (text : Text) : Option (Json × Text) :=
  if text.hasPrefix (ofAscii "null") then some (.null, text.drop 4)
  else if text.hasPrefix (ofAscii "true") then some (.bool true, text.drop 4)
  else if text.hasPrefix (ofAscii "false") then some (.bool false, text.drop 5)
  else if isNumber (text.takeWhile isNumberUnit) then
    some (.number (text.takeWhile isNumberUnit), text.dropWhile isNumberUnit)
  else none

/-- `Map::set`: a name that is there already keeps its place. -/
def putField (fields : List (Text × Json)) (entry : Text × Json) : List (Text × Json) :=
  if entry.1 ∈ fields.map Prod.fst then
    fields.map fun other => if other.1 = entry.1 then entry else other
  else fields ++ [entry]

/-- What is left behind a unit that is called for. -/
def expect (unit : UInt16) (text : Text) : Option Text :=
  if (skipSpace text).head? = some unit then some (skipSpace text).tail else none

/-- Behind an item: whether another one follows, and what is left. -/
def separator (close : UInt16) (text : Text) : Option (Bool × Text) :=
  match expect close text with
  | some rest => some (false, rest)
  | none => (expect comma text).map fun rest => (true, rest)

mutual

def parseValue : Nat → Text → Option (Json × Text)
  | 0, _ => none
  | fuel + 1, text =>
      match skipSpace text with
      | [] => none
      | first :: rest =>
          if first = quote then do
            let (value, rest) ← parseLiteral rest
            some (.string value, rest)
          else if first = openBracket then
            match expect closeBracket rest with
            | some rest => some (.array [], rest)
            | none => do
                let (items, rest) ← parseItems fuel rest
                some (.array items, rest)
          else if first = openBrace then
            match expect closeBrace rest with
            | some rest => some (.object [], rest)
            | none => do
                let (fields, rest) ← parseFields fuel rest
                some (.object (fields.foldl putField []), rest)
          else parseAtom (first :: rest)

def parseItems : Nat → Text → Option (List Json × Text)
  | 0, _ => none
  | fuel + 1, text => do
      let (item, rest) ← parseValue fuel text
      let (more, rest) ← separator closeBracket rest
      if more then do
        let (items, rest) ← parseItems fuel rest
        some (item :: items, rest)
      else some ([item], rest)

def parseFields : Nat → Text → Option (List (Text × Json) × Text)
  | 0, _ => none
  | fuel + 1, text => do
      let rest ← expect quote text
      let (name, rest) ← parseLiteral rest
      let rest ← expect colon rest
      let (value, rest) ← parseValue fuel rest
      let (more, rest) ← separator closeBrace rest
      if more then do
        let (fields, rest) ← parseFields fuel rest
        some ((name, value) :: fields, rest)
      else some ([(name, value)], rest)

end

/-- `@json.parse`.  Every call reads a unit at least. -/
def parse (text : Text) : Option Json := do
  let (json, rest) ← parseValue (text.length + 1) text
  if skipSpace rest = [] then some json else none

example : (parse (ofAscii " [1.5e3, \"\\u0041\" , \x7b\"a\":null,\"a\":[]\x7d]")).map render =
    some (ofAscii "[1.5e3,\"A\",\x7b\"a\":[]\x7d]") := by decide +kernel

theorem skipSpace_cons {first : UInt16} (hfirst : isSpace first = false) (rest : Text) :
    skipSpace (first :: rest) = first :: rest := by
  rw [skipSpace, List.dropWhile_cons, hfirst, if_neg Bool.false_ne_true]

theorem length_le_literalTail (text : Text) : text.length ≤ (literalTail text).length := by
  induction text with
  | nil => exact Nat.zero_le _
  | cons unit text ih =>
      have hfilled : 0 < (escapeUnit unit).length := by
        rcases escapeUnit_shape unit with hkept | ⟨-, hne, -⟩
        · rw [hkept]
          exact Nat.one_pos
        · exact List.length_pos_of_ne_nil hne
      have htail := literalTail_cons unit text []
      rw [List.append_nil, List.append_nil] at htail
      rw [htail, List.length_append, List.length_cons]
      omega

theorem parseTail_literalTail (text rest : Text) {fuel : Nat} (hfuel : text.length < fuel) :
    parseTail fuel (literalTail text ++ rest) = some (text, rest) := by
  induction text generalizing fuel with
  | nil =>
      obtain ⟨fuel, rfl⟩ := Nat.exists_eq_succ_of_ne_zero (Nat.ne_zero_of_lt hfuel)
      rfl
  | cons unit text ih =>
      obtain ⟨fuel, rfl⟩ := Nat.exists_eq_succ_of_ne_zero (Nat.ne_zero_of_lt hfuel)
      rw [literalTail_cons, parseTail, if_neg (head_escapeUnit unit _), readUnit_escapeUnit]
      change (parseTail fuel (literalTail text ++ rest) >>= fun read =>
        some (unit :: read.1, read.2)) = _
      rw [ih (Nat.lt_of_succ_lt_succ hfuel)]
      rfl

theorem parseLiteral_literalTail (text rest : Text) :
    parseLiteral (literalTail text ++ rest) = some (text, rest) := by
  refine parseTail_literalTail text rest ?_
  have hlength := length_le_literalTail text
  rw [List.length_append]
  omega

/-- No unit of a number follows. -/
def Stops (rest : Text) : Prop := ∀ unit ∈ rest.head?, isNumberUnit unit = false

theorem ne_of_isNumberUnit {first other : UInt16} (hfirst : isNumberUnit first = true)
    (hother : isNumberUnit other = false) : first ≠ other := by
  rintro rfl
  rw [hfirst] at hother
  cases hother

theorem isSpace_of_isNumberUnit {first : UInt16} (hfirst : isNumberUnit first = true) :
    isSpace first = false := by
  rw [isSpace, decide_eq_false_iff_not]
  rintro (rfl | rfl | rfl | rfl)
  · cases hfirst
  · cases hfirst
  · cases hfirst
  · cases hfirst

/-- A number begins with a unit of its own. -/
theorem isNumber_head {text : Text} (hnumber : isNumber text = true) :
    ∃ first others, text = first :: others ∧ isNumberUnit first = true := by
  cases text with
  | nil => exact absurd hnumber (by decide)
  | cons first others =>
      exact ⟨first, others, rfl,
        List.all_eq_true.mp (Bool.and_eq_true_iff.mp hnumber).1 first List.mem_cons_self⟩

theorem hasPrefix_of_ne {first other : UInt16} (hne : first ≠ other) (rest more : Text) :
    Text.hasPrefix (first :: rest) (other :: more) = false := by
  rw [Text.hasPrefix, decide_eq_false_iff_not]
  intro hprefix
  exact hne (List.cons_prefix_cons.mp hprefix).1.symm

theorem parseAtom_number {text rest : Text} (hnumber : isNumber text = true)
    (hstops : Stops rest) : parseAtom (text ++ rest) = some (.number text, rest) := by
  have hall : ∀ unit ∈ text, isNumberUnit unit = true :=
    List.all_eq_true.mp (Bool.and_eq_true_iff.mp hnumber).1
  have hrest : rest.takeWhile isNumberUnit = [] ∧ rest.dropWhile isNumberUnit = rest := by
    cases rest with
    | nil => exact ⟨rfl, rfl⟩
    | cons unit rest =>
        have hunit := hstops unit rfl
        exact ⟨List.takeWhile_cons_of_neg (by rw [hunit]; exact Bool.false_ne_true),
          List.dropWhile_cons_of_neg (by rw [hunit]; exact Bool.false_ne_true)⟩
  have htake : (text ++ rest).takeWhile isNumberUnit = text := by
    rw [List.takeWhile_append_of_pos hall, hrest.1, List.append_nil]
  have hdrop : (text ++ rest).dropWhile isNumberUnit = rest := by
    rw [List.dropWhile_append_of_pos hall, hrest.2]
  obtain ⟨first, others, hhead, hfirst⟩ := isNumber_head hnumber
  have hword : ∀ {letter : UInt16}, isNumberUnit letter = false → ∀ word : Text,
      Text.hasPrefix (text ++ rest) (letter :: word) = false := by
    intro letter hletter word
    rw [hhead]
    exact hasPrefix_of_ne (ne_of_isNumberUnit hfirst hletter) _ _
  have hnull := @hword 110 (by decide) [117, 108, 108]
  have htrue := @hword 116 (by decide) [114, 117, 101]
  have hfalse := @hword 102 (by decide) [97, 108, 115, 101]
  rw [parseAtom, htake, hdrop, if_pos hnumber]
  exact (if_neg (Bool.eq_false_iff.mp hnull)).trans
    ((if_neg (Bool.eq_false_iff.mp htrue)).trans (if_neg (Bool.eq_false_iff.mp hfalse)))

/-- Numbers are numbers, and the names of an object differ. -/
inductive WellFormed : Json → Prop
  | null : WellFormed .null
  | bool (value : Bool) : WellFormed (.bool value)
  | number {text : Text} (hnumber : isNumber text = true) : WellFormed (.number text)
  | string (value : Text) : WellFormed (.string value)
  | array {items : List Json} (hitems : ∀ item ∈ items, WellFormed item) :
      WellFormed (.array items)
  | object {fields : List (Text × Json)} (hnames : (fields.map Prod.fst).Nodup)
      (hfields : ∀ entry ∈ fields, WellFormed entry.2) : WellFormed (.object fields)

/-- The text of the value is read back, whatever follows it that is no part of a number. -/
def Parses (json : Json) : Prop :=
  ∀ {fuel : Nat} {rest : Text}, (render json).length ≤ fuel → Stops rest →
    parseValue fuel (render json ++ rest) = some (json, rest)

theorem stops_cons {first : UInt16} (hfirst : isNumberUnit first = false) (rest : Text) :
    Stops (first :: rest) := by
  intro unit hunit
  rwa [← Option.some.inj hunit]

theorem expect_self {unit : UInt16} (hunit : isSpace unit = false) (rest : Text) :
    expect unit (unit :: rest) = some rest := by
  rw [expect, skipSpace_cons hunit, if_pos List.head?_cons, List.tail_cons]

theorem expect_other {unit first : UInt16} (hfirst : isSpace first = false)
    (hne : first ≠ unit) (rest : Text) : expect unit (first :: rest) = none := by
  rw [expect, skipSpace_cons hfirst, if_neg]
  exact fun hsome => hne (Option.some.inj hsome)

theorem separator_close {close : UInt16} (hclose : isSpace close = false) (rest : Text) :
    separator close (close :: rest) = some (false, rest) := by
  rw [separator, expect_self hclose]

theorem separator_comma {close : UInt16} (hclose : comma ≠ close) (rest : Text) :
    separator close (comma :: rest) = some (true, rest) := by
  rw [separator, expect_other (by decide) hclose, expect_self (by decide), Option.map_some]

theorem renderItems_cons (item : Json) {items : List Json} (hne : items ≠ []) :
    renderItems (item :: items) = render item ++ comma :: renderItems items := by
  cases items with
  | nil => exact absurd rfl hne
  | cons next items => rfl

theorem renderFields_cons (entry : Text × Json) {fields : List (Text × Json)}
    (hne : fields ≠ []) :
    renderFields (entry :: fields) = renderEntry entry ++ comma :: renderFields fields := by
  cases fields with
  | nil => exact absurd rfl hne
  | cons next fields => rfl

theorem parseItems_renderItems {items : List Json} (hitems : ∀ item ∈ items, Parses item)
    (hne : items ≠ []) {fuel : Nat} {rest : Text} (hfuel : (renderItems items).length ≤ fuel) :
    parseItems fuel (renderItems items ++ rest) = some (items, rest) := by
  have hend := @separator_close closeBracket (by decide)
  have hmore := @separator_comma closeBracket (by decide)
  induction items generalizing fuel with
  | nil => exact absurd rfl hne
  | cons item items ih =>
      have hitem : Parses item := hitems item List.mem_cons_self
      cases items with
      | nil =>
          rw [renderItems, List.length_append, List.length_singleton] at hfuel
          obtain ⟨fuel, rfl⟩ := Nat.exists_eq_succ_of_ne_zero (show fuel ≠ 0 by omega)
          rw [renderItems, List.append_assoc, List.singleton_append, parseItems,
            hitem (by omega) (stops_cons (by decide) _)]
          simp only [Option.bind_eq_bind, Option.bind_some, hend, Bool.false_eq_true, if_false]
      | cons next items =>
          have hitems' : ∀ other ∈ next :: items, Parses other :=
            fun other hmem => hitems other (List.mem_cons_of_mem _ hmem)
          rw [renderItems_cons item (List.cons_ne_nil _ _), List.length_append, List.length_cons]
            at hfuel
          obtain ⟨fuel, rfl⟩ := Nat.exists_eq_succ_of_ne_zero (show fuel ≠ 0 by omega)
          rw [renderItems_cons item (List.cons_ne_nil _ _), List.append_assoc, List.cons_append,
            parseItems, hitem (by omega) (stops_cons (by decide) _)]
          simp only [Option.bind_eq_bind, Option.bind_some, hmore, if_true,
            @ih hitems' (List.cons_ne_nil _ _) fuel (by omega)]

theorem renderEntry_append (entry : Text × Json) (text : Text) : renderEntry entry ++ text =
    quote :: (literalTail entry.1 ++ colon :: (render entry.2 ++ text)) := by
  rw [renderEntry, literal, List.cons_append, List.cons_append, List.append_assoc,
    List.cons_append]

theorem length_render_le (entry : Text × Json) :
    (render entry.2).length + 2 ≤ (renderEntry entry).length := by
  have happend := renderEntry_append entry []
  rw [List.append_nil, List.append_nil] at happend
  rw [happend, List.length_cons, List.length_append, List.length_cons]
  omega

theorem parseFields_renderFields {fields : List (Text × Json)}
    (hfields : ∀ entry ∈ fields, Parses entry.2) (hne : fields ≠ []) {fuel : Nat} {rest : Text}
    (hfuel : (renderFields fields).length ≤ fuel) :
    parseFields fuel (renderFields fields ++ rest) = some (fields, rest) := by
  have hopen := @expect_self quote (by decide)
  have hcolon := @expect_self colon (by decide)
  have hend := @separator_close closeBrace (by decide)
  have hmore := @separator_comma closeBrace (by decide)
  induction fields generalizing fuel with
  | nil => exact absurd rfl hne
  | cons entry fields ih =>
      have hlength := length_render_le entry
      have hvalue : Parses entry.2 := hfields entry List.mem_cons_self
      cases fields with
      | nil =>
          rw [renderFields, List.length_append, List.length_singleton] at hfuel
          obtain ⟨fuel, rfl⟩ := Nat.exists_eq_succ_of_ne_zero (show fuel ≠ 0 by omega)
          have hread := @hvalue fuel (closeBrace :: rest) (by omega) (stops_cons (by decide) _)
          rw [renderFields, List.append_assoc, List.singleton_append, renderEntry_append,
            parseFields]
          simp only [Option.bind_eq_bind, Option.bind_some, hopen, parseLiteral_literalTail,
            hcolon, hread, hend, Bool.false_eq_true, if_false]
      | cons next fields =>
          have hfields' : ∀ other ∈ next :: fields, Parses other.2 :=
            fun other hmem => hfields other (List.mem_cons_of_mem _ hmem)
          rw [renderFields_cons entry (List.cons_ne_nil _ _), List.length_append, List.length_cons]
            at hfuel
          obtain ⟨fuel, rfl⟩ := Nat.exists_eq_succ_of_ne_zero (show fuel ≠ 0 by omega)
          have hread := @hvalue fuel (comma :: (renderFields (next :: fields) ++ rest))
            (by omega) (stops_cons (by decide) _)
          rw [renderFields_cons entry (List.cons_ne_nil _ _), List.append_assoc, List.cons_append,
            renderEntry_append, parseFields]
          simp only [Option.bind_eq_bind, Option.bind_some, hopen, parseLiteral_literalTail,
            hcolon, hread, hmore, if_true, @ih hfields' (List.cons_ne_nil _ _) fuel (by omega)]

theorem foldl_putField {fields : List (Text × Json)} : ∀ {front : List (Text × Json)},
    ((front ++ fields).map Prod.fst).Nodup → fields.foldl putField front = front ++ fields := by
  induction fields with
  | nil => exact fun _ => (List.append_nil _).symm
  | cons entry fields ih =>
      intro front hnodup
      have hnew : entry.1 ∉ front.map Prod.fst := by
        rw [List.map_append, List.map_cons] at hnodup
        intro hmem
        exact (List.nodup_append.mp hnodup).2.2 _ hmem _ List.mem_cons_self rfl
      rw [List.foldl_cons, putField, if_neg hnew, ih]
      · rw [List.append_assoc, List.singleton_append]
      · rwa [List.append_assoc, List.singleton_append]

theorem render_head {json : Json} (hwell : WellFormed json) (rest : Text) :
    ∃ first others, render json ++ rest = first :: others ∧ isSpace first = false ∧
      first ≠ closeBracket := by
  cases hwell with
  | null => exact ⟨110, _, rfl, by decide, by decide⟩
  | bool value =>
      cases value with
      | true => exact ⟨116, _, rfl, by decide, by decide⟩
      | false => exact ⟨102, _, rfl, by decide, by decide⟩
  | @number text hnumber =>
      obtain ⟨first, others, rfl, hfirst⟩ := isNumber_head hnumber
      exact ⟨first, others ++ rest, rfl, isSpace_of_isNumberUnit hfirst,
        ne_of_isNumberUnit hfirst (by decide)⟩
  | string value => exact ⟨quote, _, rfl, by decide, by decide⟩
  | array hitems => exact ⟨openBracket, _, rfl, by decide, by decide⟩
  | object hnames hfields => exact ⟨openBrace, _, rfl, by decide, by decide⟩

theorem renderItems_append (item : Json) (items : List Json) (rest : Text) :
    ∃ tail, renderItems (item :: items) ++ rest = render item ++ tail := by
  cases items with
  | nil => exact ⟨[closeBracket] ++ rest, List.append_assoc _ _ _⟩
  | cons next items => exact ⟨_, List.append_assoc _ _ _⟩

theorem renderFields_append (entry : Text × Json) (fields : List (Text × Json)) (rest : Text) :
    ∃ tail, renderFields (entry :: fields) ++ rest = renderEntry entry ++ tail := by
  cases fields with
  | nil => exact ⟨[closeBrace] ++ rest, List.append_assoc _ _ _⟩
  | cons next fields => exact ⟨_, List.append_assoc _ _ _⟩

theorem parseAtom_word {json : Json} {word : Text} {fuel : Nat} {rest : Text} {first : UInt16}
    {others : Text} (hword : word = first :: others) (hfirst : isSpace first = false)
    (hquote : first ≠ quote) (hbracket : first ≠ openBracket) (hbrace : first ≠ openBrace)
    (hatom : parseAtom (word ++ rest) = some (json, rest)) :
    parseValue (fuel + 1) (word ++ rest) = some (json, rest) := by
  subst hword
  rw [List.cons_append] at hatom ⊢
  rw [parseValue, skipSpace_cons hfirst]
  dsimp only
  rw [if_neg hquote, if_neg hbracket, if_neg hbrace, hatom]

theorem WellFormed.parses {json : Json} (hwell : WellFormed json) : Parses json := by
  induction hwell with
  | null =>
      intro fuel rest hfuel _
      obtain ⟨fuel, rfl⟩ := Nat.exists_eq_succ_of_ne_zero (Nat.ne_zero_of_lt hfuel)
      exact parseAtom_word rfl (by decide) (by decide) (by decide) (by decide) rfl
  | bool value =>
      intro fuel rest hfuel _
      cases value with
      | true =>
          obtain ⟨fuel, rfl⟩ := Nat.exists_eq_succ_of_ne_zero (Nat.ne_zero_of_lt hfuel)
          exact parseAtom_word rfl (by decide) (by decide) (by decide) (by decide) rfl
      | false =>
          obtain ⟨fuel, rfl⟩ := Nat.exists_eq_succ_of_ne_zero (Nat.ne_zero_of_lt hfuel)
          exact parseAtom_word rfl (by decide) (by decide) (by decide) (by decide) rfl
  | @number text hnumber =>
      intro fuel rest hfuel hstops
      obtain ⟨first, others, htext, hfirst⟩ := isNumber_head hnumber
      rw [render, htext] at hfuel
      obtain ⟨fuel, rfl⟩ := Nat.exists_eq_succ_of_ne_zero (Nat.ne_zero_of_lt hfuel)
      exact parseAtom_word htext (isSpace_of_isNumberUnit hfirst)
        (ne_of_isNumberUnit hfirst (by decide)) (ne_of_isNumberUnit hfirst (by decide))
        (ne_of_isNumberUnit hfirst (by decide)) (parseAtom_number hnumber hstops)
  | string value =>
      intro fuel rest hfuel _
      rw [render, literal, List.length_cons] at hfuel
      obtain ⟨fuel, rfl⟩ := Nat.exists_eq_succ_of_ne_zero (Nat.ne_zero_of_lt hfuel)
      rw [render, literal, List.cons_append, parseValue, skipSpace_cons (by decide)]
      dsimp only
      rw [if_pos rfl, parseLiteral_literalTail]
      rfl
  | @array items hitems ih =>
      intro fuel rest hfuel _
      rw [render, List.length_cons] at hfuel
      obtain ⟨fuel, rfl⟩ := Nat.exists_eq_succ_of_ne_zero (Nat.ne_zero_of_lt hfuel)
      rw [render, List.cons_append, parseValue, skipSpace_cons (by decide)]
      dsimp only
      rw [if_neg (by decide), if_pos rfl]
      cases items with
      | nil =>
          rw [renderItems, List.singleton_append, expect_self (by decide)]
      | cons item items =>
          have hopen : expect closeBracket (renderItems (item :: items) ++ rest) = none := by
            obtain ⟨tail, htail⟩ := renderItems_append item items rest
            obtain ⟨first, others, hhead, hspace, hbracket⟩ :=
              render_head (hitems item List.mem_cons_self) tail
            rw [htail, hhead, expect_other hspace hbracket]
          rw [hopen, @parseItems_renderItems _ ih (List.cons_ne_nil _ _) fuel rest
            (Nat.le_of_succ_le_succ hfuel)]
          rfl
  | @object fields hnames hfields ih =>
      intro fuel rest hfuel _
      rw [render, List.length_cons] at hfuel
      obtain ⟨fuel, rfl⟩ := Nat.exists_eq_succ_of_ne_zero (Nat.ne_zero_of_lt hfuel)
      rw [render, List.cons_append, parseValue, skipSpace_cons (by decide)]
      dsimp only
      rw [if_neg (by decide), if_neg (by decide), if_pos rfl]
      cases fields with
      | nil =>
          rw [renderFields, List.singleton_append, expect_self (by decide)]
      | cons entry fields =>
          have hopen : expect closeBrace (renderFields (entry :: fields) ++ rest) = none := by
            obtain ⟨tail, htail⟩ := renderFields_append entry fields rest
            rw [htail, renderEntry_append, expect_other (by decide) (by decide)]
          rw [hopen, @parseFields_renderFields _ ih (List.cons_ne_nil _ _) fuel rest
            (Nat.le_of_succ_le_succ hfuel)]
          have hfold : (entry :: fields).foldl putField [] = entry :: fields :=
            @foldl_putField _ [] hnames
          simp only [Option.bind_eq_bind, Option.bind_some, hfold]

/-- The text of a well-formed value is read as that value. -/
theorem parse_render {json : Json} (hwell : WellFormed json) : parse (render json) = some json := by
  have hread := @WellFormed.parses json hwell ((render json).length + 1) []
    (Nat.le_succ _) (fun _ hnone => nomatch hnone)
  rw [List.append_nil] at hread
  rw [parse, hread]
  rfl

theorem isDigit_decimal {value : Nat} {unit : UInt16} (hmem : unit ∈ decimal value) :
    isDigit unit = true :=
  decide_eq_true (mem_decimal hmem)

theorem digits?_decimal (value : Nat) : digits? (decimal value) = some [] := by
  cases hdecimal : decimal value with
  | nil => exact absurd hdecimal (decimal_ne_nil value)
  | cons first others =>
      have hall : ∀ unit ∈ first :: others, isDigit unit = true := by
        rw [← hdecimal]
        exact fun unit hmem => isDigit_decimal hmem
      rw [digits?, if_pos (hall first List.mem_cons_self), List.dropWhile_eq_nil_iff.mpr]
      exact fun unit hmem => hall unit (List.mem_cons_of_mem _ hmem)

theorem wholePart?_decimal (value : Nat) : wholePart? (decimal value) = some [] := by
  unfold wholePart?
  split
  · rename_i rest hzero
    have hvalue := decimal_head (show (decimal value).head? = some zero by rw [hzero]; rfl)
    rw [hvalue] at hzero
    exact congrArg some (List.cons.inj (show [48] = 48 :: rest from hzero)).2.symm
  · exact digits?_decimal value

theorem unsigned_decimal (value : Nat) : unsigned (decimal value) = decimal value := by
  unfold unsigned
  split
  · rename_i rest hminus
    have hdigit := @mem_decimal value 45 (by rw [hminus]; exact List.mem_cons_self)
    exact absurd hdigit.1 (by decide)
  · rfl

theorem isNumber_integer (value : Int) : isNumber (integer value) = true := by
  have hunits : ∀ unit ∈ decimal value.natAbs, isNumberUnit unit = true := fun unit hmem => by
    rw [isNumberUnit, isDigit_decimal hmem, Bool.true_or]
  rw [isNumber, Bool.and_eq_true_iff, decide_eq_true_eq, integer]
  split
  · constructor
    · exact List.all_eq_true.mpr (List.forall_mem_cons.mpr ⟨by decide, hunits⟩)
    · change ((wholePart? (decimal value.natAbs)).bind fraction?).bind exponent? = some []
      rw [wholePart?_decimal]
      rfl
  · constructor
    · exact List.all_eq_true.mpr hunits
    · rw [unsigned_decimal, wholePart?_decimal]
      rfl

theorem escapeUnit_of_large {unit : UInt16} (hlarge : 128 ≤ unit.toNat) :
    escapeUnit unit = [unit] := by
  rcases escapeUnit_shape unit with hkept | ⟨hascii, -⟩
  · exact hkept
  · omega

theorem lineFeed_notMem_escapeUnit (unit : UInt16) : 10 ∉ escapeUnit unit := by
  by_cases hsmall : unit.toNat < 128
  · have hall : ∀ value < 128, 10 ∉ escapeUnit (UInt16.ofNat value) := by decide +kernel
    have hunit := hall unit.toNat hsmall
    rwa [UInt16.ofNat_toNat] at hunit
  · rw [escapeUnit_of_large (by omega), List.mem_singleton]
    rintro rfl
    exact hsmall (by decide)

theorem lineFeed_notMem_literal (text : Text) : 10 ∉ literal text := by
  rw [literal, literalTail]
  intro hmem
  rcases List.mem_cons.mp hmem with hquote | htail
  · cases hquote
  · rcases List.mem_append.mp htail with hescaped | hquote
    · obtain ⟨unit, -, hunit⟩ := List.mem_flatMap.mp hescaped
      exact lineFeed_notMem_escapeUnit unit hunit
    · cases List.mem_singleton.mp hquote

mutual

/-- The strings of a value, the names of its objects included. -/
def texts : Json → List Text
  | .null => []
  | .bool _ => []
  | .number _ => []
  | .string text => [text]
  | .array items => itemTexts items
  | .object fields => fieldTexts fields

def itemTexts : List Json → List Text
  | [] => []
  | item :: rest => texts item ++ itemTexts rest

def fieldTexts : List (Text × Json) → List Text
  | [] => []
  | entry :: rest => entryTexts entry ++ fieldTexts rest

def entryTexts : Text × Json → List Text
  | (name, value) => name :: texts value

end

theorem mem_itemTexts {items : List Json} {item : Json} (hitem : item ∈ items) {text : Text}
    (htext : text ∈ item.texts) : text ∈ itemTexts items := by
  induction items with
  | nil => cases hitem
  | cons first rest ih =>
      rw [itemTexts, List.mem_append]
      rcases List.mem_cons.mp hitem with rfl | hrest
      · exact .inl htext
      · exact .inr (ih hrest)

theorem mem_fieldTexts {fields : List (Text × Json)} {entry : Text × Json}
    (hentry : entry ∈ fields) {text : Text} (htext : text ∈ entryTexts entry) :
    text ∈ fieldTexts fields := by
  induction fields with
  | nil => cases hentry
  | cons first rest ih =>
      rw [fieldTexts, List.mem_append]
      rcases List.mem_cons.mp hentry with rfl | hrest
      · exact .inl htext
      · exact .inr (ih hrest)

/-- ASCII units without a line feed. -/
def IsPlain (text : Text) : Prop := ∀ unit ∈ text, unit.toNat < 128 ∧ unit ≠ 10

instance (text : Text) : Decidable (IsPlain text) :=
  List.decidableBAll (fun unit : UInt16 => unit.toNat < 128 ∧ unit ≠ 10) text

theorem isPlain_of_isNumberUnit {unit : UInt16} (hunit : isNumberUnit unit = true) :
    unit.toNat < 128 ∧ unit ≠ 10 := by
  refine ⟨?_, ne_of_isNumberUnit hunit (by decide)⟩
  rw [isNumberUnit, isDigit, Bool.or_eq_true, decide_eq_true_eq, decide_eq_true_eq] at hunit
  rcases hunit with hdigit | rfl | rfl | rfl | rfl | rfl
  · omega
  · decide
  · decide
  · decide
  · decide
  · decide

section

variable {P : Text → Prop} (happend : ∀ {first second : Text}, P first → P second →
  P (first ++ second)) (hplain : ∀ text : Text, IsPlain text → P text)

include happend hplain

theorem renderItems_of_items {items : List Json} (hitems : ∀ item ∈ items, P (render item)) :
    P (renderItems items) := by
  have hclose : P [closeBracket] := hplain _ (by decide)
  induction items with
  | nil => exact hclose
  | cons item items ih =>
      have hitem := hitems item List.mem_cons_self
      have hrest := ih fun other hmem => hitems other (List.mem_cons_of_mem _ hmem)
      cases items with
      | nil => exact happend hitem hclose
      | cons next items =>
          rw [renderItems_cons item (List.cons_ne_nil _ _), ← List.singleton_append]
          exact happend hitem (happend (hplain _ (by decide)) hrest)

theorem renderFields_of_entries {fields : List (Text × Json)}
    (hfields : ∀ entry ∈ fields, P (renderEntry entry)) : P (renderFields fields) := by
  have hclose : P [closeBrace] := hplain _ (by decide)
  induction fields with
  | nil => exact hclose
  | cons entry fields ih =>
      have hentry := hfields entry List.mem_cons_self
      have hrest := ih fun other hmem => hfields other (List.mem_cons_of_mem _ hmem)
      cases fields with
      | nil => exact happend hentry hclose
      | cons next fields =>
          rw [renderFields_cons entry (List.cons_ne_nil _ _), ← List.singleton_append]
          exact happend hentry (happend (hplain _ (by decide)) hrest)

/-- What holds of plain texts and of the literals of a value, and of two texts in a row, holds
of the whole text. -/
theorem WellFormed.render_of_literals {json : Json} (hwell : WellFormed json)
    (hliterals : ∀ text ∈ json.texts, P (literal text)) : P (render json) := by
  induction hwell with
  | null => exact hplain _ (by decide)
  | bool value =>
      cases value with
      | true => exact hplain _ (by decide)
      | false => exact hplain _ (by decide)
  | number hnumber =>
      exact hplain _ fun unit hunit => isPlain_of_isNumberUnit
        (List.all_eq_true.mp (Bool.and_eq_true_iff.mp hnumber).1 unit hunit)
  | string value => exact hliterals value (List.mem_singleton_self value)
  | @array items _ ih =>
      rw [render, ← List.singleton_append]
      refine happend (hplain _ (by decide)) (renderItems_of_items happend hplain ?_)
      exact fun item hitem => ih item hitem fun text htext =>
        hliterals text (mem_itemTexts hitem htext)
  | @object fields _ _ ih =>
      rw [render, ← List.singleton_append]
      refine happend (hplain _ (by decide)) (renderFields_of_entries happend hplain ?_)
      rintro ⟨name, value⟩ hentry
      have hname : P (literal name) :=
        hliterals name (mem_fieldTexts hentry List.mem_cons_self)
      have hvalue : P (render value) := ih (name, value) hentry fun text htext =>
        hliterals text (mem_fieldTexts hentry (List.mem_cons_of_mem _ htext))
      rw [renderEntry, ← List.singleton_append]
      exact happend hname (happend (hplain _ (by decide)) hvalue)

end

theorem WellFormed.line {json : Json} (hwell : WellFormed json) : 10 ∉ render json := by
  refine hwell.render_of_literals (P := fun text => 10 ∉ text) (fun hfirst hsecond => ?_)
    (fun text hplain hmem => ?_) fun text _ => lineFeed_notMem_literal text
  · rw [List.mem_append, not_or]
    exact ⟨hfirst, hsecond⟩
  · exact (hplain 10 hmem).2 rfl

theorem paired_escape {text : Text} (hpaired : text.Paired) :
    Paired (text.flatMap escapeUnit) := by
  have hunit : ∀ unit : UInt16, Paired [unit] → Paired (escapeUnit unit) := by
    intro unit hpaired
    rcases escapeUnit_shape unit with hkept | ⟨-, -, hascii⟩
    · rwa [hkept]
    · exact paired_of_ascii fun other hmem => (hascii other hmem).1
  obtain ⟨chars, rfl⟩ := hpaired
  induction chars with
  | nil => exact ⟨[], rfl⟩
  | cons char chars ih =>
      rw [ofChars, List.flatMap_cons, List.flatMap_append]
      refine Paired.append ?_ ih
      have hchar := paired_codeUnits char
      by_cases hsmall : char.toNat < 0x10000
      · rw [codeUnits, if_pos hsmall] at hchar ⊢
        rw [List.flatMap_singleton]
        exact hunit _ hchar
      · -- Neither half of a surrogate pair is escaped.
        have hrange : char.toNat < 0x110000 := by
          rcases toNat_valid char with hlow | ⟨-, hhigh⟩ <;> omega
        have hfirst := @toNat_unit (0xd800 + (char.toNat - 0x10000) / 0x400) (by omega)
        have hsecond := @toNat_unit (0xdc00 + (char.toNat - 0x10000) % 0x400) (by omega)
        rw [codeUnits, if_neg hsmall] at hchar ⊢
        rw [List.flatMap_cons, List.flatMap_singleton, escapeUnit_of_large (by omega),
          escapeUnit_of_large (by omega)]
        exact hchar

theorem WellFormed.paired {json : Json} (hwell : WellFormed json)
    (htexts : ∀ text ∈ json.texts, text.Paired) : (render json).Paired := by
  refine hwell.render_of_literals Paired.append
    (fun text hplain => paired_of_ascii fun unit hunit => (hplain unit hunit).1) ?_
  intro text htext
  have hquote : Paired [quote] := paired_of_ascii (List.forall_mem_singleton.mpr (by decide))
  rw [literal, literalTail, ← List.singleton_append]
  exact hquote.append ((paired_escape (htexts text htext)).append hquote)

end Json

end MoonBoofuzz
