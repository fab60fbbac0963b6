import Mathlib.Data.List.Basic

namespace MoonBoofuzz

namespace Quoted

variable {α : Type} [DecidableEq α]

/-! Lists split at separators that stand outside quotes. -/

section

variable (quote separator : α)

def after (inside : Bool) : List α → Bool
  | [] => inside
  | unit :: rest => after (if unit = quote then !inside else inside) rest

def Clear (inside : Bool) : List α → Prop
  | [] => True
  | unit :: rest =>
      (inside = true ∨ unit ≠ separator) ∧ Clear (if unit = quote then !inside else inside) rest

def split (inside : Bool) : List α → List (List α)
  | [] => [[]]
  | unit :: rest =>
      if inside = false ∧ unit = separator then [] :: split false rest
      else (split (if unit = quote then !inside else inside) rest).modifyHead (unit :: ·)

/-- Two quotes next to each other, read from the left, are one. -/
def collapse : List α → List α
  | first :: second :: rest =>
      if first = quote ∧ second = quote then quote :: collapse rest
      else first :: collapse (second :: rest)
  | short => short

def unquote : List α → List α
  | first :: second :: rest =>
      if first = quote ∧ (second :: rest).getLast (List.cons_ne_nil _ _) = quote then
        collapse quote (second :: rest).dropLast
      else first :: second :: rest
  | short => short

end

section

variable {quote separator : α} {inside : Bool}

theorem after_append (first second : List α) :
    after quote inside (first ++ second) = after quote (after quote inside first) second := by
  induction first generalizing inside with
  | nil => rfl
  | cons unit first ih => exact ih

theorem clear_append {first second : List α} :
    Clear quote separator inside (first ++ second) ↔
      Clear quote separator inside first ∧
        Clear quote separator (after quote inside first) second := by
  induction first generalizing inside with
  | nil => exact (and_iff_right trivial).symm
  | cons unit first ih =>
      rw [List.cons_append, Clear, Clear, ih, and_assoc, after]

theorem after_free {units : List α} (hfree : quote ∉ units) :
    after quote inside units = inside := by
  induction units with
  | nil => rfl
  | cons unit units ih =>
      rw [after, if_neg fun hquote => hfree (by simp [hquote])]
      exact ih fun hmem => hfree (List.mem_cons_of_mem _ hmem)

theorem clear_inside {units : List α} (hfree : quote ∉ units) :
    Clear quote separator true units := by
  induction units with
  | nil => trivial
  | cons unit units ih =>
      rw [Clear, if_neg fun hquote => hfree (by simp [hquote])]
      exact ⟨.inl rfl, ih fun hmem => hfree (List.mem_cons_of_mem _ hmem)⟩

theorem clear_free {units : List α} (hfree : separator ∉ units) :
    Clear quote separator inside units := by
  induction units generalizing inside with
  | nil => trivial
  | cons unit units ih =>
      exact ⟨.inr fun hequal => hfree (by simp [hequal]),
        ih fun hmem => hfree (List.mem_cons_of_mem _ hmem)⟩

theorem split_ne_nil (units : List α) : split quote separator inside units ≠ [] := by
  induction units generalizing inside with
  | nil => exact List.cons_ne_nil _ _
  | cons unit units ih =>
      rw [split]
      split
      · exact List.cons_ne_nil _ _
      · intro hnil
        exact ih (List.modifyHead_eq_nil_iff.mp hnil)

theorem split_clear {units : List α} (hclear : Clear quote separator inside units) :
    split quote separator inside units = [units] := by
  induction units generalizing inside with
  | nil => rfl
  | cons unit units ih =>
      have hunit : ¬(inside = false ∧ unit = separator) := by
        rintro ⟨houtside, hequal⟩
        rcases hclear.1 with hinside | hother
        · rw [houtside] at hinside
          cases hinside
        · exact hother hequal
      rw [split, if_neg hunit, ih hclear.2]
      rfl

theorem split_append {units rest : List α} (hclear : Clear quote separator inside units)
    (hafter : after quote inside units = false) :
    split quote separator inside (units ++ separator :: rest) =
      units :: split quote separator false rest := by
  induction units generalizing inside with
  | nil =>
      have houtside : inside = false := hafter
      rw [List.nil_append, split, if_pos ⟨houtside, rfl⟩]
  | cons unit units ih =>
      have hunit : ¬(inside = false ∧ unit = separator) := by
        rintro ⟨houtside, hequal⟩
        rcases hclear.1 with hinside | hother
        · rw [houtside] at hinside
          cases hinside
        · exact hother hequal
      rw [List.cons_append, split, if_neg hunit, ih hclear.2 hafter]
      rfl

theorem split_head (inside : Bool) (units : List α) :
    ∃ piece pieces, split quote separator inside units = piece :: pieces ∧
      Clear quote separator inside piece ∧
      (pieces = [] ∧ units = piece ∨
        ∃ rest, units = piece ++ separator :: rest ∧ after quote inside piece = false ∧
          pieces = split quote separator false rest) := by
  induction units generalizing inside with
  | nil => exact ⟨[], [], rfl, trivial, .inl ⟨rfl, rfl⟩⟩
  | cons unit units ih =>
      by_cases hunit : inside = false ∧ unit = separator
      · refine ⟨[], split quote separator false units, ?_, trivial,
          .inr ⟨units, ?_, hunit.1, rfl⟩⟩
        · rw [split, if_pos hunit]
        · rw [hunit.2]
          rfl
      · obtain ⟨piece, pieces, hsplit, hclear, hends⟩ :=
          ih (if unit = quote then !inside else inside)
        have hkept : inside = true ∨ unit ≠ separator := by
          rcases Bool.eq_false_or_eq_true inside with hinside | houtside
          · exact .inl hinside
          · exact .inr fun hequal => hunit ⟨houtside, hequal⟩
        refine ⟨unit :: piece, pieces, ?_, ⟨hkept, hclear⟩, ?_⟩
        · rw [split, if_neg hunit, hsplit]
          rfl
        · rcases hends with ⟨hnil, hsame⟩ | ⟨rest, hrest, hafter, hpieces⟩
          · exact .inl ⟨hnil, by rw [hsame]⟩
          · exact .inr ⟨rest, by rw [hrest, List.cons_append], hafter, hpieces⟩

def content (quote : α) (units : List α) : List α := units.filter (· ≠ quote)

theorem content_append (first second : List α) :
    content quote (first ++ second) = content quote first ++ content quote second :=
  List.filter_append first second

theorem content_quote (units : List α) : content quote (quote :: units) = content quote units :=
  List.filter_cons_of_neg (by simp)

theorem content_cons {unit : α} (hunit : unit ≠ quote) (units : List α) :
    content quote (unit :: units) = unit :: content quote units :=
  List.filter_cons_of_pos (by simpa using hunit)

theorem content_collapse (units : List α) :
    content quote (collapse quote units) = content quote units := by
  induction units using collapse.induct quote with
  | case1 first second rest hpair ih =>
      rw [collapse, if_pos hpair, hpair.1, hpair.2, content_quote, content_quote, content_quote,
        ih]
  | case2 first second rest hpair ih =>
      have hcons : ∀ units : List α, content quote (first :: units) =
          content quote [first] ++ content quote units := content_append [first]
      rw [collapse, if_neg hpair, hcons, ih, ← hcons]
  | case3 short hshort =>
      cases short with
      | nil => rfl
      | cons first rest =>
          cases rest with
          | nil => rfl
          | cons second rest => exact absurd rfl (hshort first second rest)

theorem content_unquote (units : List α) :
    content quote (unquote quote units) = content quote units := by
  unfold unquote
  split
  · rename_i first second rest
    split
    · rename_i hquotes
      rw [content_collapse, hquotes.1, content_quote]
      have hlast := List.dropLast_append_getLast (List.cons_ne_nil second rest)
      rw [hquotes.2] at hlast
      rw [← hlast, content_append, List.dropLast_concat]
      simp [content]
    · rfl
  · rfl

theorem collapse_free {front : List α} (hfree : quote ∉ front) (rest : List α) :
    collapse quote (front ++ rest) = front ++ collapse quote rest := by
  induction front with
  | nil => rfl
  | cons unit front ih =>
      have hunit : unit ≠ quote := fun hquote => hfree (by simp [hquote])
      have hrest := ih fun hmem => hfree (List.mem_cons_of_mem _ hmem)
      rw [List.cons_append, List.cons_append, ← hrest]
      cases front ++ rest with
      | nil => rfl
      | cons second others => rw [collapse, if_neg fun hpair => hunit hpair.1]

theorem unquote_wrapped (units : List α) :
    unquote quote (quote :: (units ++ [quote])) = collapse quote units := by
  cases units with
  | nil =>
      rw [List.nil_append, unquote, if_pos ⟨rfl, rfl⟩]
      rfl
  | cons first rest =>
      rw [List.cons_append, unquote, if_pos ⟨rfl, by simp⟩, ← List.cons_append,
        List.dropLast_concat]

theorem unquote_plain {units : List α} (hplain : units.head? ≠ some quote) :
    unquote quote units = units := by
  unfold unquote
  split
  · rename_i first second rest
    exact if_neg fun hquotes => hplain (by rw [hquotes.1]; rfl)
  · rfl

theorem length_collapse_le (units : List α) : (collapse quote units).length ≤ units.length := by
  induction units using collapse.induct quote with
  | case1 first second rest hpair ih =>
      rw [collapse, if_pos hpair, List.length_cons, List.length_cons, List.length_cons]
      omega
  | case2 first second rest hpair ih =>
      rw [collapse, if_neg hpair, List.length_cons, List.length_cons]
      omega
  | case3 short hshort =>
      have hsame : collapse quote short = short := by
        unfold collapse
        split
        · exact absurd rfl (hshort _ _ _)
        · rfl
      exact Nat.le_of_eq (congrArg List.length hsame)

theorem collapse_cons_eq_iff (unit : α) (rest : List α) :
    collapse quote (unit :: rest) = unit :: rest ↔
      ¬(unit = quote ∧ rest.head? = some quote) ∧ collapse quote rest = rest := by
  cases rest with
  | nil =>
      refine iff_of_true rfl ⟨?_, rfl⟩
      rintro ⟨-, hhead⟩
      cases hhead
  | cons second rest =>
      rw [List.head?_cons, Option.some.injEq]
      by_cases hpair : unit = quote ∧ second = quote
      · refine iff_of_false (fun hsame => ?_) fun hboth => hboth.1 hpair
        have hlength := congrArg List.length hsame
        have hle := @length_collapse_le α _ quote rest
        rw [collapse, if_pos hpair, List.length_cons, List.length_cons, List.length_cons] at hlength
        omega
      · rw [collapse, if_neg hpair, List.cons.injEq]
        exact ⟨fun hsame => ⟨hpair, hsame.2⟩, fun hboth => ⟨rfl, hboth.2⟩⟩

/-- Quotes stand apart, separators stand inside quotes, and the list ends inside quotes. -/
def Apart (quote : α) (separators : List α) (inside : Bool) : List α → Prop
  | [] => inside = true
  | unit :: rest =>
      if unit = quote then rest.head? ≠ some quote ∧ Apart quote separators (!inside) rest
      else (inside = true ∨ unit ∉ separators) ∧ Apart quote separators inside rest

theorem apart_iff {separators : List α} (hquote : quote ∉ separators) (units : List α) :
    Apart quote separators inside units ↔ collapse quote units = units ∧
      (∀ separator ∈ separators, Clear quote separator inside units) ∧
      after quote inside units = true := by
  induction units generalizing inside with
  | nil => exact ⟨fun hinside => ⟨rfl, fun _ _ => trivial, hinside⟩, fun hall => hall.2.2⟩
  | cons unit rest ih =>
      rw [Apart, collapse_cons_eq_iff, after]
      by_cases hunit : unit = quote
      · have hclear : (∀ separator ∈ separators, Clear quote separator inside (unit :: rest)) ↔
            ∀ separator ∈ separators, Clear quote separator (!inside) rest := by
          refine forall₂_congr fun separator hmem => ?_
          rw [Clear, if_pos hunit]
          refine and_iff_right (.inr fun hequal => hquote ?_)
          rw [← hunit, hequal]
          exact hmem
        rw [if_pos hunit, if_pos hunit, ih, hclear]
        simp only [hunit, true_and, and_assoc, ne_eq]
      · have hclear : (∀ separator ∈ separators, Clear quote separator inside (unit :: rest)) ↔
            (inside = true ∨ unit ∉ separators) ∧
              ∀ separator ∈ separators, Clear quote separator inside rest := by
          constructor
          · intro hall
            refine ⟨?_, fun separator hmem => ?_⟩
            · by_cases hmem : unit ∈ separators
              · exact .inl ((hall unit hmem).1.resolve_right fun hne => hne rfl)
              · exact .inr hmem
            · have hrest := (hall separator hmem).2
              rwa [if_neg hunit] at hrest
          · rintro ⟨hkept, hall⟩ separator hmem
            rw [Clear, if_neg hunit]
            refine ⟨hkept.imp_right fun hnot hequal => hnot (hequal ▸ hmem), hall separator hmem⟩
        rw [if_neg hunit, if_neg hunit, ih, hclear]
        simp only [hunit, false_and, not_false_eq_true, true_and]
        exact and_left_comm.trans (and_congr_right' and_assoc.symm)

end

section

variable (quote comma lineEnd : α)

/-- Rows that lines end; what follows the last line end is a row only if it is not empty. -/
def trimmed (pieces : List (List α)) : List (List α) :=
  if pieces.getLast? = some [] then pieces.dropLast else pieces

def readCells (row : List α) : List (List α) :=
  (split quote comma false row).map (unquote quote)

def readTable (text : List α) : List (List (List α)) :=
  (trimmed (split quote lineEnd false text)).map (readCells quote comma)

variable (write : List α → List α)

def writeRow (row : List (List α)) : List α := [comma].intercalate (row.map write)

def writeTable (rows : List (List (List α))) : List α :=
  rows.flatMap fun row => writeRow comma write row ++ [lineEnd]

/-- A cell that is read back, whatever stands around it. -/
structure Intact (cell : List α) : Prop where
  read : unquote quote (write cell) = cell
  comma : Clear quote comma false (write cell)
  lineEnd : Clear quote lineEnd false (write cell)
  outside : after quote false (write cell) = false

end

section

variable {quote comma lineEnd : α} {write : List α → List α}

theorem trimmed_cons {piece : List α} {pieces : List (List α)} (hne : pieces ≠ []) :
    trimmed (piece :: pieces) = piece :: trimmed pieces := by
  rw [trimmed, trimmed, List.getLast?_cons_of_ne_nil hne, List.dropLast_cons_of_ne_nil hne]
  split <;> rfl

omit [DecidableEq α] in
theorem writeRow_cons (cell next : List α) (rest : List (List α)) :
    writeRow comma write (cell :: next :: rest) =
      write cell ++ comma :: writeRow comma write (next :: rest) := by
  rw [writeRow, List.map_cons, List.map_cons, List.intercalate_cons_cons, List.append_assoc]
  rfl

omit [DecidableEq α] in
theorem writeRow_single (cell : List α) : writeRow comma write [cell] = write cell := by
  simp [writeRow]

theorem readCells_row (hcomma : comma ≠ quote) (hdifferent : comma ≠ lineEnd)
    {row : List (List α)} (hne : row ≠ [])
    (hrow : ∀ cell ∈ row, Intact quote comma lineEnd write cell) :
    readCells quote comma (writeRow comma write row) = row ∧
      Clear quote lineEnd false (writeRow comma write row) ∧
        after quote false (writeRow comma write row) = false := by
  induction row with
  | nil => exact absurd rfl hne
  | cons cell rest ih =>
      have hcell := hrow cell (by simp)
      cases rest with
      | nil =>
          rw [writeRow_single, readCells, split_clear hcell.comma, List.map_cons, hcell.read]
          exact ⟨rfl, hcell.lineEnd, hcell.outside⟩
      | cons next rest =>
          obtain ⟨hread, hclear, houtside⟩ :=
            ih (List.cons_ne_nil _ _) fun cell hmem => hrow cell (List.mem_cons_of_mem _ hmem)
          rw [writeRow_cons, readCells, split_append hcell.comma hcell.outside, List.map_cons,
            hcell.read, ← readCells, hread, clear_append, after_append, hcell.outside, Clear, after,
            if_neg hcomma]
          exact ⟨rfl, ⟨hcell.lineEnd, .inr hdifferent, hclear⟩, houtside⟩

theorem readTable_written (hcomma : comma ≠ quote) (hdifferent : comma ≠ lineEnd)
    {rows : List (List (List α))} (hne : ∀ row ∈ rows, row ≠ [])
    (hrows : ∀ row ∈ rows, ∀ cell ∈ row, Intact quote comma lineEnd write cell) :
    readTable quote comma lineEnd (writeTable comma lineEnd write rows) = rows := by
  induction rows with
  | nil => rfl
  | cons row rest ih =>
      obtain ⟨hread, hclear, houtside⟩ :=
        readCells_row hcomma hdifferent (hne row (by simp)) (hrows row (by simp))
      have hrest := ih (fun row hmem => hne row (by simp [hmem]))
        fun row hmem => hrows row (by simp [hmem])
      rw [readTable, writeTable, List.flatMap_cons, List.append_assoc, List.singleton_append,
        split_append hclear houtside, trimmed_cons (split_ne_nil _), List.map_cons, hread]
      exact congrArg (row :: ·) hrest

theorem piece_eq {piece rest written tail : List α} {separator : α}
    (hseparator : separator ≠ quote) (htext : written ++ separator :: tail = piece ++ rest)
    (hrest : rest.head? ≠ some quote)
    (hcontent : content quote piece = content quote written) : piece = written := by
  have hlength := congrArg List.length hcontent
  rcases List.append_eq_append_iff.mp htext with
    ⟨middle, hpiece, hafter⟩ | ⟨middle, hwritten, hafter⟩
  · cases middle with
    | nil => rw [hpiece, List.append_nil]
    | cons unit middle =>
        obtain rfl : separator = unit := (List.cons.inj hafter).1
        rw [hpiece, content_append, content_cons hseparator, List.length_append,
          List.length_cons] at hlength
        omega
  · cases middle with
    | nil => rw [hwritten, List.append_nil]
    | cons unit middle =>
        have hunit : unit ≠ quote := by
          rintro rfl
          exact hrest (by rw [hafter]; rfl)
        rw [hwritten, content_append, content_cons hunit, List.length_append,
          List.length_cons] at hlength
        omega

def Ends (quote lineEnd : α) (line rest : List α) : Prop :=
  rest = [] ∨ (∃ tail, rest = lineEnd :: tail) ∧ after quote false line = false

/-- A row that is read back from the start of a text is the row that was written there, cell
by cell. -/
theorem row_intact (hcomma : comma ≠ quote) (hline : lineEnd ≠ quote)
    (hcontent : ∀ cell, content quote (write cell) = content quote cell)
    {row : List (List α)} (hne : row ≠ []) {line rest tail : List α}
    (htext : writeRow comma write row ++ lineEnd :: tail = line ++ rest)
    (hclear : Clear quote lineEnd false line) (hends : Ends quote lineEnd line rest)
    (hread : readCells quote comma line = row) :
    (∀ cell ∈ row, Intact quote comma lineEnd write cell) ∧ line = writeRow comma write row := by
  induction row generalizing line with
  | nil => exact absurd rfl hne
  | cons cell others ih =>
      obtain ⟨piece, pieces, hsplit, hpiece, hfollows⟩ :=
        @split_head α _ quote comma false line
      rw [readCells, hsplit, List.map_cons, List.cons.injEq] at hread
      have hkept : content quote piece = content quote (write cell) := by
        rw [hcontent, ← hread.1, content_unquote]
      have hrest : rest.head? ≠ some quote := by
        rcases hends with rfl | ⟨⟨after, rfl⟩, -⟩
        · exact nofun
        · exact fun hhead => hline (Option.some.inj hhead)
      cases others with
      | nil =>
          obtain rfl := List.map_eq_nil_iff.mp hread.2
          obtain ⟨-, rfl⟩ : _ ∧ line = piece := by
            rcases hfollows with hwhole | ⟨more, -, -, hpieces⟩
            · exact hwhole
            · exact absurd hpieces.symm (split_ne_nil more)
          rw [writeRow_single] at htext ⊢
          obtain rfl := piece_eq hline htext hrest hkept
          have houtside : after quote false (write cell) = false := by
            rcases hends with rfl | ⟨-, houtside⟩
            · have hlength := congrArg List.length htext
              simp at hlength
            · exact houtside
          refine ⟨fun other hmem => ?_, rfl⟩
          obtain rfl := List.mem_singleton.mp hmem
          exact ⟨hread.1, hpiece, hclear, houtside⟩
      | cons next others =>
          rw [writeRow_cons, List.append_assoc, List.cons_append] at htext
          rcases hfollows with ⟨rfl, -⟩ | ⟨more, rfl, houtside, rfl⟩
          · cases hread.2
          · rw [List.append_assoc, List.cons_append] at htext
            have hhead : (comma :: (more ++ rest)).head? ≠ some quote :=
              fun hhead => hcomma (Option.some.inj hhead)
            obtain rfl := piece_eq hcomma htext hhead hkept
            rw [clear_append, houtside, Clear, if_neg hcomma] at hclear
            have hmore : Ends quote lineEnd more rest := by
              refine hends.imp_right fun hafter => ⟨hafter.1, ?_⟩
              have hout := hafter.2
              rwa [after_append, houtside, after, if_neg hcomma] at hout
            obtain ⟨hcells, rfl⟩ := ih (List.cons_ne_nil _ _)
              (List.cons.inj (List.append_cancel_left htext)).2 hclear.2.2 hmore hread.2
            refine ⟨List.forall_mem_cons.mpr
              ⟨⟨hread.1, hpiece, hclear.1, houtside⟩, hcells⟩, (writeRow_cons _ _ _).symm⟩

/-- A table is read back exactly if each of its cells is. -/
theorem readTable_eq_iff (hcomma : comma ≠ quote) (hline : lineEnd ≠ quote)
    (hdifferent : comma ≠ lineEnd)
    (hcontent : ∀ cell, content quote (write cell) = content quote cell)
    {rows : List (List (List α))} (hne : ∀ row ∈ rows, row ≠ []) :
    readTable quote comma lineEnd (writeTable comma lineEnd write rows) = rows ↔
      ∀ row ∈ rows, ∀ cell ∈ row, Intact quote comma lineEnd write cell := by
  constructor
  · induction rows with
    | nil => exact fun _ _ hmem => nomatch hmem
    | cons row rows ih =>
        intro hread
        have htext : writeTable comma lineEnd write (row :: rows) =
            writeRow comma write row ++ lineEnd :: writeTable comma lineEnd write rows := by
          rw [writeTable, List.flatMap_cons, List.append_assoc]
          rfl
        obtain ⟨line, pieces, hsplit, hclear, hfollows⟩ := @split_head α _ quote lineEnd false
          (writeTable comma lineEnd write (row :: rows))
        rw [readTable, hsplit] at hread
        rcases hfollows with ⟨rfl, hwhole⟩ | ⟨more, hmore, houtside, rfl⟩
        · -- A first line that goes on to the end of the text would be the row without its end.
          have hfilled : line ≠ [] := by
            rintro rfl
            cases hread
          have hone : trimmed [line] = [line] := if_neg fun hnil => hfilled (Option.some.inj hnil)
          rw [hone, List.map_cons, List.cons.injEq] at hread
          have hsame : writeRow comma write row ++ lineEnd :: writeTable comma lineEnd write rows =
              line ++ [] := by rw [← htext, hwhole, List.append_nil]
          obtain ⟨-, rfl⟩ := row_intact hcomma hline hcontent (hne row (by simp)) hsame hclear
            (.inl rfl) hread.1
          have hlength := congrArg List.length hsame
          simp at hlength
        · rw [trimmed_cons (split_ne_nil _), List.map_cons, List.cons.injEq] at hread
          rw [htext] at hmore
          obtain ⟨hcells, rfl⟩ := row_intact hcomma hline hcontent (hne row (by simp)) hmore hclear
            (.inr ⟨⟨more, rfl⟩, houtside⟩) hread.1
          obtain rfl := (List.cons.inj (List.append_cancel_left hmore)).2
          exact List.forall_mem_cons.mpr
            ⟨hcells, ih (fun row hmem => hne row (by simp [hmem])) hread.2⟩
  · exact readTable_written hcomma hdifferent hne

end

end Quoted

end MoonBoofuzz
