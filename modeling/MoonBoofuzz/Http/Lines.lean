import MoonBoofuzz.Http.Bounds

namespace MoonBoofuzz

def HttpHeader.text (header : HttpHeader) : Text :=
  header.name ++ Text.ofAscii ":" ++ header.gap ++ header.value

namespace HttpMessage

def lineFeed : Text := Text.ofAscii "\n"

def crlf : Text := Text.ofAscii "\r\n"

def lined (eol : Text) (front : List Text) (last : Text) : Text :=
  front.flatMap (· ++ eol) ++ last

def Unbroken (line : Text) : Prop := (13 : UInt16) ∉ line ∧ (10 : UInt16) ∉ line

/-- No blank stands before the colon of a header line or at its end. -/
structure Trim (line : Text) : Prop where
  name : stripTrailingOws (line.takeWhile (· ≠ Text.colon)) = line.takeWhile (· ≠ Text.colon)
  line : stripTrailingOws line = line

/-- The lines of a text: its head and its terminator have one kind of line ending and no
other carriage return. -/
structure Uniform (source eol : Text) (front : List Text) (last : Text) : Prop where
  ending : eol = crlf ∨ eol = lineFeed
  plain : ∀ line ∈ front, Unbroken line
  whole : Unbroken last
  head : (sections source).1 = lined eol front last
  terminator : ∀ terminator, (sections source).2.1 = some terminator → terminator = eol ++ eol

/-- The lines that are read: an empty one behind the last line ending is not. -/
def readLines (front : List Text) (last : Text) : List Text :=
  if last = [] then front else front ++ [last]

section

variable {before : Text} {front : List Text} {last : Text}

theorem lined_cons (eol line : Text) (front : List Text) (last : Text) :
    lined eol (line :: front) last = line ++ (eol ++ lined eol front last) := by
  rw [lined, List.flatMap_cons, List.append_assoc, List.append_assoc]
  rfl

theorem splitOn_lined (hbefore : (10 : UInt16) ∉ before) (hfront : ∀ line ∈ front, Unbroken line)
    (hlast : Unbroken last) :
    (lined (before ++ [10]) front last).splitOn 10 = front.map (· ++ before) ++ [last] := by
  induction front with
  | nil => exact List.splitOn_eq_singleton hlast.2
  | cons line rest ih =>
      obtain ⟨hline, hrest⟩ := List.forall_mem_cons.mp hfront
      have hplain : (10 : UInt16) ∉ line ++ before := by
        rw [List.mem_append]
        exact not_or.mpr ⟨hline.2, hbefore⟩
      have hsplit : lined (before ++ [10]) (line :: rest) last =
          (line ++ before) ++ 10 :: lined (before ++ [10]) rest last := by
        rw [lined_cons]
        simp only [List.append_assoc, List.singleton_append]
      rw [hsplit, List.splitOn_append_cons_self_of_not_mem hplain, ih hrest]
      rfl

theorem stripCr_unbroken {line : Text} (hline : Unbroken line) : stripCr line = line := by
  rw [stripCr, if_neg]
  intro hreturn
  exact hline.1 (List.mem_of_getLast? hreturn)

theorem stripCr_ended {line : Text} (hline : Unbroken line) (hbefore : before = [] ∨
    before = [13]) : stripCr (line ++ before) = line := by
  rcases hbefore with rfl | rfl
  · rw [List.append_nil]
    exact stripCr_unbroken hline
  · rw [stripCr, List.getLast?_concat, if_pos rfl, List.dropLast_concat]

theorem map_stripCr_lines (hbefore : before = [] ∨ before = [13])
    (hfront : ∀ line ∈ front, Unbroken line) (hlast : Unbroken last) :
    (if last = [] then (front.map (· ++ before) ++ [last]).dropLast
      else front.map (· ++ before) ++ [last]).map stripCr = readLines front last := by
  have hstripped : (front.map (· ++ before)).map stripCr = front := by
    rw [List.map_map]
    exact (List.map_congr_left fun line hline =>
      stripCr_ended (hfront line hline) hbefore).trans (List.map_id' front)
  rw [readLines]
  split
  · rw [List.dropLast_concat, hstripped]
  · rw [List.map_append, hstripped, List.map_singleton, stripCr_unbroken hlast]

end

/-! What the lines are read as. -/

def requestText (message : HttpMessage) : Text :=
  message.verb ++ Text.ofAscii " " ++ message.uri ++ Text.ofAscii " " ++ message.version

theorem requestLine_text {line : Text} {message : HttpMessage}
    (hline : requestLine line = .ok (message.verb, message.uri, message.version)) :
    line = message.requestText := by
  rw [requestLine] at hline
  split at hline
  · rename_i hsplit
    split at hline
    · cases hline
      have hjoined : [32].intercalate (line.splitOn (32 : UInt16)) = line :=
        List.intercalate_splitOn 32
      rw [hsplit] at hjoined
      rw [← hjoined, requestText]
      simp only [List.intercalate_cons_cons, List.intercalate_singleton, List.append_assoc]
      rfl
    · cases hline
  · cases hline

theorem stripTrailingOws_suffix {line suffix : Text} (hline : stripTrailingOws line = line)
    (hsuffix : suffix <:+ line) : stripTrailingOws suffix = suffix := by
  rw [stripTrailingOws, List.rdropWhile_eq_self_iff] at hline ⊢
  intro hne
  rw [hsuffix.getLast hne]
  exact hline _

theorem splitHeader_text {line : Text} {header : HttpHeader} (htrim : Trim line)
    (hsplit : splitHeader line = .ok header) : line = header.text := by
  rw [splitHeader] at hsplit
  split at hsplit
  · cases hsplit
  · rename_i i hcolon
    obtain ⟨hi, hat, hbefore⟩ := List.idxOf?_eq_some_iff.mp hcolon
    have hparts : line = line.take i ++ Text.colon :: line.drop (i + 1) := by
      rw [← hat, ← List.drop_eq_getElem_cons hi, List.take_append_drop]
    have hname : line.takeWhile (· ≠ Text.colon) = line.take i := by
      have hfree : ∀ unit ∈ line.take i, decide (unit ≠ Text.colon) = true := by
        intro unit hunit
        obtain ⟨j, hj, rfl⟩ := List.mem_take_iff_getElem.mp hunit
        exact decide_eq_true (hbefore j (by omega))
      conv_lhs => rw [hparts]
      rw [List.takeWhile_append_of_pos hfree, List.takeWhile_cons_of_neg (by simp),
        List.append_nil]
    dsimp only at hsplit
    split at hsplit
    · cases hsplit
    · split at hsplit
      · cases hsplit
      · cases hsplit
        have hsuffix : (line.drop (i + 1)).dropWhile isOws <:+ line :=
          (List.dropWhile_suffix isOws).trans (List.drop_suffix _ _)
        have htrimmed := htrim.name
        rw [hname] at htrimmed
        rw [HttpHeader.text]
        dsimp only
        rw [htrimmed, stripTrailingOws_suffix htrim.line hsuffix, List.append_assoc,
          List.takeWhile_append_dropWhile, List.append_assoc]
        exact hparts

theorem splitHeaders_text {lines : List Text} {headers : List HttpHeader}
    (htrim : ∀ line ∈ lines.map stripCr, Trim line)
    (hsplit : splitHeaders lines = .ok headers) :
    lines.map stripCr = headers.map HttpHeader.text := by
  induction lines generalizing headers with
  | nil =>
      cases hsplit
      rfl
  | cons line rest ih =>
      obtain ⟨header, hheader, hsplit⟩ := exceptBind_eq_ok_iff.mp hsplit
      obtain ⟨others, hothers, hdone⟩ := exceptBind_eq_ok_iff.mp hsplit
      cases hdone
      rw [List.map_cons] at htrim ⊢
      obtain ⟨hfirst, hrest⟩ := List.forall_mem_cons.mp htrim
      rw [ih hrest hothers, splitHeader_text hfirst hheader, List.map_cons]

section

variable {source head first eol last : Text} {rest front : List Text} {message : HttpMessage}

theorem Uniform.before (huniform : Uniform source eol front last) :
    ∃ before, (before = [] ∨ before = [13]) ∧ eol = before ++ [10] := by
  rcases huniform.ending with rfl | rfl
  · exact ⟨[13], Or.inr rfl, rfl⟩
  · exact ⟨[], Or.inl rfl, rfl⟩

theorem Reads.uniform (hreads : Reads source head first rest message)
    (huniform : Uniform source eol front last)
    (htrim : ∀ line ∈ (readLines front last).tail, Trim line) :
    message.finalEol = decide (last = []) ∧
      readLines front last = message.requestText :: message.headers.map HttpHeader.text := by
  obtain ⟨before, hbefore, heol⟩ := huniform.before
  have hhead := huniform.head
  rw [hreads.parts, heol] at hhead
  have hplain : (10 : UInt16) ∉ before := by
    rcases hbefore with rfl | rfl <;> decide
  have hsplit := splitOn_lined hplain huniform.plain huniform.whole
  have hfinal : message.finalEol = decide (last = []) := by
    rw [hreads.finalEol, show head = _ from hhead, hsplit, List.getLast?_concat]
    exact decide_eq_decide.mpr Option.some_inj
  have hlines := hreads.lines
  rw [hfinal, show head = _ from hhead, hsplit] at hlines
  have hread := map_stripCr_lines hbefore huniform.plain huniform.whole
  simp only [decide_eq_true_eq] at hlines
  rw [hlines, List.map_cons] at hread
  rw [← hread, List.tail_cons] at htrim
  rw [← hread, splitHeaders_text htrim hreads.headers]
  exact ⟨hfinal, by rw [requestLine_text hreads.request]⟩

end

/-! Where the head ends. -/

theorem sections_join {source head body : Text} {terminator : Option Text}
    (hsections : sections source = (head, terminator, body)) :
    head ++ (terminator.getD [] ++ body) = source := by
  rw [sections] at hsections
  split at hsections
  · cases hsections
    rw [Option.getD_some, ← List.drop_drop, List.take_append_drop, List.take_append_drop]
  · cases hsections
    rw [Option.getD_none, List.nil_append, List.append_nil]

/-- No terminator begins within the head. -/
theorem terminatorAt_head {source head terminator body : Text}
    (hsections : sections source = (head, some terminator, body)) {i : Nat}
    (hi : i < head.length) : terminatorAt source i = none := by
  rw [sections] at hsections
  split at hsections
  · rename_i headEnd skip hfind
    cases hsections
    rw [findTerminator, List.findSome?_eq_some_iff] at hfind
    obtain ⟨earlier, found, later, hrange, hfound, hnone⟩ := hfind
    obtain ⟨_, -, hsame⟩ := Option.map_eq_some_iff.mp hfound
    cases hsame
    rw [List.range_eq_range', List.range'_eq_append_iff] at hrange
    obtain ⟨count, -, rfl, hlater⟩ := hrange
    obtain ⟨hcount, -⟩ := List.range'_eq_cons_iff.mp hlater.symm
    have hmem : i ∈ List.range' 0 count := by
      rw [List.length_take] at hi
      rw [List.mem_range'_1]
      omega
    have hat := hnone i hmem
    rwa [Option.map_eq_none_iff] at hat
  · cases hsections

theorem sections_bare {line : Text} (hline : Unbroken line) (body : Text) :
    sections (line ++ (crlf ++ (crlf ++ body))) = (line, some (crlf ++ crlf), body) := by
  generalize hsource : line ++ (crlf ++ (crlf ++ body)) = source
  have hat : ∀ i, source[line.length + i]? = (crlf ++ (crlf ++ body))[i]? := by
    intro i
    rw [← hsource, List.getElem?_append_right (Nat.le_add_right _ _), Nat.add_sub_cancel_left]
  have hhere : terminatorAt source line.length = some 4 := by
    have hfirst := hat 0
    rw [Nat.add_zero] at hfirst
    rw [terminatorAt, hfirst, hat 1, hat 2, hat 3]
    exact if_pos ⟨rfl, rfl, rfl, rfl⟩
  have hbefore : ∀ i ∈ List.range' 0 line.length,
      ((terminatorAt source i).map fun skip => (i, skip)) = none := by
    intro i hi
    have hbelow : i < line.length := by
      have := List.mem_range'_1.mp hi
      omega
    have hunit : source[i]? = some (line)[i] := by
      rw [← hsource, List.getElem?_append_left hbelow, List.getElem?_eq_getElem hbelow]
    have hreturn : (line)[i] ≠ 13 := fun hequal => hline.1 (hequal ▸ List.getElem_mem hbelow)
    have hfeed : (line)[i] ≠ 10 := fun hequal => hline.2 (hequal ▸ List.getElem_mem hbelow)
    rw [terminatorAt, hunit, if_neg fun hall => hreturn (Option.some.inj hall.1),
      if_neg fun hall => hfeed (Option.some.inj hall.1)]
    rfl
  have hlength : source.length - 1 = line.length + (1 + (body.length + 2)) := by
    rw [← hsource]
    simp only [List.length_append, show crlf.length = 2 from rfl]
    omega
  have hfind : findTerminator source = some (line.length, 4) := by
    rw [findTerminator, List.findSome?_eq_some_iff]
    refine ⟨List.range' 0 line.length, line.length,
      List.range' (line.length + 1) (body.length + 2), ?_, ?_, hbefore⟩
    · rw [List.range_eq_range', hlength, ← List.range'_append_1, Nat.zero_add,
        Nat.add_comm 1, List.range'_succ]
    · rw [hhere, Option.map_some]
  rw [sections, hfind]
  dsimp only
  rw [← List.drop_drop, ← hsource, List.take_left, List.drop_left]
  rfl

theorem terminatorAt_double {eol : Text} (heol : eol = crlf ∨ eol = lineFeed)
    (front rest : Text) :
    terminatorAt (front ++ (eol ++ (eol ++ rest))) front.length ≠ none := by
  have hat : ∀ i, (front ++ (eol ++ (eol ++ rest)))[front.length + i]? =
      (eol ++ (eol ++ rest))[i]? := by
    intro i
    rw [List.getElem?_append_right (Nat.le_add_right _ _), Nat.add_sub_cancel_left]
  have hhere := hat 0
  rw [Nat.add_zero] at hhere
  rw [terminatorAt, hhere, hat 1, hat 2, hat 3]
  rcases heol with rfl | rfl
  · rw [if_pos ⟨rfl, rfl, rfl, rfl⟩]
    exact nofun
  · have hlf : ¬((lineFeed ++ (lineFeed ++ rest))[0]? = some 13) := by
      rw [show (lineFeed ++ (lineFeed ++ rest))[0]? = some 10 from rfl]
      decide
    rw [if_neg fun hcr => hlf hcr.1, if_pos ⟨rfl, rfl⟩]
    exact nofun

/-! What the slots put together are. -/

def contents (slots : List HttpSlot) : Text := slots.flatMap HttpSlot.content

theorem contents_append (front back : List HttpSlot) :
    contents (front ++ back) = contents front ++ contents back := List.flatMap_append

theorem contents_cons (slot : HttpSlot) (rest : List HttpSlot) :
    contents (slot :: rest) = slot.content ++ contents rest := List.flatMap_cons

def closed (message : HttpMessage) : Bool := message.terminator.isSome || message.finalEol

def finish (eol : Text) (closed : Bool) : List Text → Text
  | [] => []
  | [line] => line ++ if closed then eol else []
  | line :: next :: rest => line ++ (eol ++ finish eol closed (next :: rest))

theorem finish_cons {eol line : Text} {closed : Bool} {rest : List Text} (hrest : rest ≠ []) :
    finish eol closed (line :: rest) = line ++ (eol ++ finish eol closed rest) := by
  obtain ⟨next, others, rfl⟩ := List.exists_cons_of_ne_nil hrest
  rw [finish]

theorem finish_closed (eol : Text) (lines : List Text) :
    finish eol true lines = lined eol lines [] := by
  induction lines with
  | nil => rfl
  | cons line rest ih =>
      rw [lined_cons, ← ih]
      cases rest with
      | nil =>
          rw [finish, List.append_nil, finish, if_pos rfl]
      | cons next rest => exact finish_cons (List.cons_ne_nil next rest)

theorem finish_open (eol last : Text) (front : List Text) :
    finish eol false (front ++ [last]) = lined eol front last := by
  induction front with
  | nil => exact List.append_nil last
  | cons line rest ih =>
      rw [lined_cons, ← ih]
      exact finish_cons (List.append_ne_nil_of_right_ne_nil rest (List.cons_ne_nil last []))

theorem contents_eolSlots (message : HttpMessage) (i : Nat) (present : Bool) :
    contents (message.eolSlots i present) = if present then message.eol else [] := by
  cases present with
  | false => rfl
  | true => exact List.append_nil _

theorem contents_header (header : HttpHeader) (i : Nat) :
    contents [.structural (Text.indexed "name_" i) (header.name ++ Text.ofAscii ":" ++ header.gap),
      .segment (Text.indexed "hdr_" i) header.value] = header.text := by
  simp only [contents, List.flatMap_cons, List.flatMap_nil, HttpSlot.content, HttpHeader.text,
    List.append_nil]

theorem contents_headerSlots (message : HttpMessage) (headers : List HttpHeader) (i : Nat)
    (hcount : i + headers.length = message.headers.length) :
    contents ((headers.zipIdx i).flatMap message.headerSlots) =
      finish message.eol message.closed (headers.map HttpHeader.text) := by
  induction headers generalizing i with
  | nil => rfl
  | cons header rest ih =>
      rw [List.length_cons] at hcount
      have hrest := ih (i + 1) (by omega)
      rw [List.zipIdx_cons, List.flatMap_cons, contents_append, hrest, headerSlots,
        contents_append, contents_header, contents_eolSlots, List.map_cons]
      cases rest with
      | nil =>
          rw [List.length_nil] at hcount
          rw [decide_eq_false (by omega), Bool.or_false, List.map_nil, finish, finish,
            List.append_nil]
          rfl
      | cons next rest =>
          rw [List.length_cons] at hcount
          rw [decide_eq_true (by omega), Bool.or_true, Bool.true_or, if_pos rfl,
            finish_cons (by simp), List.append_assoc]

theorem contents_request (message : HttpMessage) :
    contents [.segment (Text.ofAscii "method") message.verb,
      .structural (Text.ofAscii "sp1") (Text.ofAscii " "),
      .segment (Text.ofAscii "uri") message.uri,
      .structural (Text.ofAscii "sp2") (Text.ofAscii " "),
      .segment (Text.ofAscii "version") message.version] = message.requestText := by
  simp only [contents, List.flatMap_cons, List.flatMap_nil, HttpSlot.content, requestText,
    List.append_assoc, List.append_nil]

theorem contents_slots (message : HttpMessage) :
    contents message.slots =
      finish message.eol message.closed
        (message.requestText :: message.headers.map HttpHeader.text) ++
      contents message.bodySlots := by
  have hheaders := contents_headerSlots message message.headers 0 (Nat.zero_add _)
  rw [slots, contents_append, contents_append, contents_append, hheaders, contents_eolSlots,
    contents_request]
  congr 1
  cases hlist : message.headers with
  | nil =>
      rw [List.map_nil, finish, finish, List.append_nil, closed]
      simp only [ne_eq, not_true_eq_false, decide_false, Bool.false_or]
  | cons header rest =>
      rw [List.map_cons, finish_cons (List.cons_ne_nil _ _), ← List.append_assoc]
      simp only [ne_eq, reduceCtorEq, not_false_eq_true, decide_true, Bool.true_or, if_true]

/-! The contents beside the text. -/

/-- There is no header before a terminator with carriage returns. -/
def BareCrlf (message : HttpMessage) : Prop :=
  message.headers = [] ∧ message.terminator = some (crlf ++ crlf)

/-- A text with two line endings of a carriage return and a line feed behind its first line. -/
def BareRequest (source : Text) : Prop :=
  ∃ line body, Unbroken line ∧ source = line ++ (crlf ++ (crlf ++ body))

section

variable {source head first eol last : Text} {rest front : List Text} {message : HttpMessage}

theorem lined_concat (eol line last : Text) (front : List Text) :
    lined eol (front ++ [line]) last = lined eol front line ++ (eol ++ last) := by
  simp only [lined, List.flatMap_append, List.flatMap_singleton, List.append_assoc]

theorem return_mem_lined (huniform : Uniform source eol front last) :
    (13 : UInt16) ∈ lined eol front last ↔ eol = crlf ∧ front ≠ [] := by
  rw [lined, List.mem_append, List.mem_flatMap]
  constructor
  · rintro (⟨line, hline, hmem⟩ | hmem)
    · refine ⟨?_, List.ne_nil_of_mem hline⟩
      rcases huniform.ending with heol | rfl
      · exact heol
      · rcases List.mem_append.mp hmem with hmem | hmem
        · exact absurd hmem (huniform.plain line hline).1
        · exact absurd hmem (by decide)
    · exact absurd hmem huniform.whole.1
  · rintro ⟨rfl, hfront⟩
    obtain ⟨line, others, rfl⟩ := List.exists_cons_of_ne_nil hfront
    exact Or.inl ⟨line, List.mem_cons_self, List.mem_append_right _ (by decide)⟩

theorem Reads.eol_eq (hreads : Reads source head first rest message)
    (huniform : Uniform source eol front last) :
    (message.eol = eol ∨ front = []) ∧ (front = [] → message.eol = lineFeed) := by
  have hhead := huniform.head
  rw [hreads.parts] at hhead
  have hreturn : head.contains (Text.ofAscii "\r") = true ↔ eol = crlf ∧ front ≠ [] := by
    rw [Text.contains_iff, show Text.ofAscii "\r" = [13] from rfl, List.singleton_infix_iff,
      ← return_mem_lined huniform, ← hhead]
  have heol := hreads.eol
  by_cases hcontains : head.contains (Text.ofAscii "\r") = true
  · rw [if_pos hcontains] at heol
    obtain ⟨hcrlf, hfront⟩ := hreturn.mp hcontains
    exact ⟨Or.inl (heol.trans hcrlf.symm), fun hnone => absurd hnone hfront⟩
  · rw [if_neg hcontains] at heol
    refine ⟨?_, fun _ => heol⟩
    rcases huniform.ending with hcrlf | hfeed
    · by_contra hneither
      rw [not_or] at hneither
      exact hcontains (hreturn.mpr ⟨hcrlf, hneither.2⟩)
    · exact Or.inl (heol.trans hfeed.symm)

theorem Reads.last_ne (hreads : Reads source head first rest message)
    (huniform : Uniform source eol front last) (hread : readLines front last ≠ [])
    (hterminator : message.terminator.isSome) : last ≠ [] := by
  rintro rfl
  obtain ⟨terminator, hterminator⟩ := Option.isSome_iff_exists.mp hterminator
  obtain ⟨init, line, rfl⟩ := (List.eq_nil_or_concat' front).resolve_left hread
  have hparts := hreads.parts
  rw [hterminator] at hparts
  have hhead := huniform.head
  have hdouble := huniform.terminator terminator (by rw [hparts])
  rw [hparts, lined_concat, List.append_nil] at hhead
  have hsource := sections_join hparts
  rw [show head = _ from hhead, hdouble, Option.getD_some, List.append_assoc,
    List.append_assoc] at hsource
  have hbelow : (lined eol init line).length < head.length := by
    rw [show head = _ from hhead, List.length_append]
    rcases huniform.ending with rfl | rfl <;> exact Nat.lt_add_of_pos_right (by decide)
  apply terminatorAt_double huniform.ending (lined eol init line) (eol ++ message.body)
  rw [hsource]
  exact terminatorAt_head hparts hbelow

theorem finish_readLines (huniform : Uniform source eol front last)
    (hreads : Reads source head first rest message)
    (hfinal : message.finalEol = decide (last = [])) (hread : readLines front last ≠ []) :
    finish eol message.closed (readLines front last) =
      head ++ if message.terminator.isSome then eol else [] := by
  have hhead := huniform.head
  rw [hreads.parts] at hhead
  rw [show head = _ from hhead, closed, hfinal]
  by_cases hlast : last = []
  · have hnone : message.terminator.isSome = false := by
      by_contra hsome
      exact hreads.last_ne huniform hread (Bool.not_eq_false _ ▸ hsome) hlast
    rw [hnone, hlast, readLines, if_pos rfl, decide_eq_true rfl, Bool.or_true, finish_closed]
    exact (List.append_nil _).symm
  · rw [readLines, if_neg hlast, decide_eq_false hlast, Bool.or_false]
    cases message.terminator.isSome with
    | true =>
        rw [finish_closed, lined_concat, List.append_nil]
        rfl
    | false =>
        rw [finish_open]
        exact (List.append_nil _).symm

theorem contents_bodySlots {eol : Text} (heol : eol = crlf ∨ eol = lineFeed)
    (hterminator : ∀ terminator, message.terminator = some terminator → terminator = eol ++ eol) :
    contents message.bodySlots = if message.terminator.isSome then eol ++ message.body else [] := by
  rw [bodySlots]
  cases hsome : message.terminator with
  | none => rfl
  | some terminator =>
      have hremainder : terminatorRemainder terminator = eol := by
        rw [hterminator terminator hsome]
        rcases heol with rfl | rfl <;> decide
      simp only [contents, List.flatMap_cons, List.flatMap_nil, HttpSlot.content, hremainder,
        List.append_nil]
      rfl

theorem Reads.double (hreads : Reads source head first rest message)
    (huniform : Uniform source eol front last) (terminator : Text)
    (hterminator : message.terminator = some terminator) : terminator = eol ++ eol := by
  have hdouble := huniform.terminator terminator
  rw [hreads.parts] at hdouble
  exact hdouble hterminator

/-- The guessed line ending is the one of the text wherever it is written. -/
theorem Reads.finish_eq (hreads : Reads source head first rest message)
    (huniform : Uniform source eol front last)
    (hfinal : message.finalEol = decide (last = []))
    (hread : readLines front last = message.requestText :: message.headers.map HttpHeader.text)
    (hbare : ¬ message.BareCrlf) :
    finish message.eol message.closed (readLines front last) =
      finish eol message.closed (readLines front last) := by
  obtain ⟨heol, hfeed⟩ := hreads.eol_eq huniform
  rcases heol with heol | rfl
  · rw [heol]
  · have hlast : last ≠ [] := by
      rintro rfl
      cases hread
    rw [readLines, if_neg hlast, List.nil_append] at hread ⊢
    have hheaders : message.headers = [] := by
      rw [List.cons.injEq] at hread
      exact List.map_eq_nil_iff.mp hread.2.symm
    cases hterminator : message.terminator with
    | none =>
        rw [finish, finish, closed, hterminator, hfinal, decide_eq_false hlast]
        rfl
    | some terminator =>
        rcases huniform.ending with rfl | rfl
        · exact absurd ⟨hheaders, hreads.double huniform terminator hterminator ▸ hterminator⟩
            hbare
        · rw [hfeed rfl]

/-- The slots put together are the text, apart from a bare request line. -/
theorem Reads.contents_eq (hreads : Reads source head first rest message)
    (huniform : Uniform source eol front last)
    (htrim : ∀ line ∈ (readLines front last).tail, Trim line) (hbare : ¬ message.BareCrlf) :
    contents message.slots = source := by
  obtain ⟨hfinal, hread⟩ := hreads.uniform huniform htrim
  have hne : readLines front last ≠ [] := by
    rw [hread]
    exact List.cons_ne_nil _ _
  have hsource := sections_join hreads.parts
  rw [contents_slots, ← hread, hreads.finish_eq huniform hfinal hread hbare,
    finish_readLines huniform hreads hfinal hne,
    contents_bodySlots huniform.ending (hreads.double huniform), ← hsource]
  cases hterminator : message.terminator with
  | none =>
      have hbody : message.body = [] := by
        have hparts := hreads.parts
        rw [hterminator, sections] at hparts
        split at hparts
        · cases hparts
        · exact (Prod.mk.inj (Prod.mk.inj hparts).2).2.symm
      rw [hbody]
      simp only [Option.isSome_none, Bool.false_eq_true, if_false, Option.getD_none,
        List.append_nil]
  | some terminator =>
      rw [hreads.double huniform terminator hterminator]
      simp only [Option.isSome_some, if_true, Option.getD_some, List.append_assoc]

/-- Behind a bare request line the first carriage return is lost. -/
theorem Reads.contents_bare (hreads : Reads source head first rest message)
    (huniform : Uniform source eol front last)
    (htrim : ∀ line ∈ (readLines front last).tail, Trim line) (hbare : message.BareCrlf) :
    Unbroken message.requestText ∧
      source = message.requestText ++ (crlf ++ (crlf ++ message.body)) ∧
      contents message.slots = message.requestText ++ (lineFeed ++ (crlf ++ message.body)) := by
  obtain ⟨hfinal, hread⟩ := hreads.uniform huniform htrim
  obtain ⟨hheaders, hterminator⟩ := hbare
  have hdouble := hreads.double huniform _ hterminator
  have hcrlf : eol = crlf := by
    rcases huniform.ending with heol | rfl
    · exact heol
    · exact absurd hdouble (by decide)
  have hlast := hreads.last_ne huniform (by rw [hread]; exact List.cons_ne_nil _ _)
    (by rw [hterminator]; rfl)
  rw [readLines, if_neg hlast, hheaders, List.map_nil] at hread
  obtain ⟨rfl, hline⟩ := List.append_eq_singleton_iff.mp hread |>.resolve_right fun hother =>
    absurd hother.2 (List.cons_ne_nil _ _)
  have hhead := huniform.head
  rw [hreads.parts] at hhead
  have hsource := sections_join hreads.parts
  rw [hterminator, show head = _ from hhead] at hsource
  cases hline
  rw [contents_slots, hheaders, List.map_nil, finish, closed, hterminator,
    contents_bodySlots huniform.ending (hreads.double huniform), hterminator,
    (hreads.eol_eq huniform).2 rfl, hcrlf]
  refine ⟨huniform.whole, ?_, ?_⟩
  · rw [← hsource]
    simp only [lined, List.flatMap_nil, List.nil_append, Option.getD_some, List.append_assoc]
  · simp only [Option.isSome_some, Bool.true_or, if_true, List.append_assoc]

theorem Reads.bareCrlf_iff (hreads : Reads source head first rest message)
    (huniform : Uniform source eol front last)
    (htrim : ∀ line ∈ (readLines front last).tail, Trim line) :
    message.BareCrlf ↔ BareRequest source := by
  constructor
  · intro hbare
    obtain ⟨hline, hsource, -⟩ := hreads.contents_bare huniform htrim hbare
    exact ⟨message.requestText, message.body, hline, hsource⟩
  · rintro ⟨line, body, hline, rfl⟩
    have hparts := hreads.parts
    have hhead := huniform.head
    rw [sections_bare hline] at hparts hhead
    have hread := (hreads.uniform huniform htrim).2
    refine ⟨?_, (Prod.mk.inj (Prod.mk.inj hparts).2).1.symm⟩
    have hfront : front = [] := by
      by_contra hfront
      obtain ⟨first, others, rfl⟩ := List.exists_cons_of_ne_nil hfront
      apply hline.2
      rw [show line = _ from hhead, lined_cons]
      refine List.mem_append_right _ (List.mem_append_left _ ?_)
      rcases huniform.ending with rfl | rfl <;> decide
    rw [hfront, readLines, List.nil_append] at hread
    split at hread
    · cases hread
    · rw [List.cons.injEq] at hread
      exact List.map_eq_nil_iff.mp hread.2.symm

end

end HttpMessage

end MoonBoofuzz
