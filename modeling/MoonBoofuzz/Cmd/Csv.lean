import MoonBoofuzz.Data.Digits
import MoonBoofuzz.Data.Quoted
import MoonBoofuzz.Records.Jsonl

namespace MoonBoofuzz

open Text

namespace Cmd

/-! Records as rows of comma separated values. -/

def lineFeed : UInt16 := 10

/-- `String::replace`, of one code unit: only its first occurrence. -/
def replaceFirst (old : UInt16) (new : Text) : Text → Text
  | [] => []
  | unit :: rest => if unit = old then new ++ rest else unit :: replaceFirst old new rest

def csvEscape (field : Text) : Text :=
  if field.contains (ofAscii ",") ∨ field.contains (ofAscii "\"") ∨ field.contains (ofAscii "\n")
  then ofAscii "\"" ++ replaceFirst Json.quote (ofAscii "\"\"") field ++ ofAscii "\""
  else field

def failedText (record : CaseRecord) : Text :=
  match record.failedStep with
  | some index => integer index
  | none => []

def trafficText (record : CaseRecord) (bytes : RecordedStep → Bytes) : Text :=
  join (ofAscii " ") (record.steps.map fun step => (bytes step).hexEncode)

def csvLine (record : CaseRecord) : Text :=
  join (ofAscii ",")
    [csvEscape record.caseId, integer record.ordinal, csvEscape record.requestName,
      csvEscape record.fieldPath, integer record.mutationIndex, record.outcome,
      failedText record, trafficText record (·.sent), trafficText record (·.received)]

def csvHeader : Text :=
  ofAscii "case_id,ordinal,request_name,field_path,mutation_index,outcome,failed_step,sent_hex,received_hex"

def csvText (records : List CaseRecord) : Text :=
  join (ofAscii "\n") (csvHeader :: records.map csvLine) ++ ofAscii "\n"

/-- The error of the command line. -/
inductive CliError where
  | invalidArguments (message : Text)

/-- `write_csv_report`: the text that is written, and the number of its rows. -/
def writeCsvReport (library : JsonLibrary) (bytes : Bytes) : Except CliError (Text × Nat) :=
  let read := RecordRead.parseJsonlBytes library bytes
  match read.error with
  | some error => .error (.invalidArguments (ofAscii "invalid JSONL at line " ++
      decimal error.line ++ ofAscii ": " ++ error.message))
  | none => .ok (csvText read.records, read.records.length)

def csvCells (record : CaseRecord) : List Text :=
  [record.caseId, integer record.ordinal, record.requestName, record.fieldPath,
    integer record.mutationIndex, record.outcome, failedText record,
    trafficText record (·.sent), trafficText record (·.received)]

def csvTitles : List Text :=
  [ofAscii "case_id", ofAscii "ordinal", ofAscii "request_name", ofAscii "field_path",
    ofAscii "mutation_index", ofAscii "outcome", ofAscii "failed_step", ofAscii "sent_hex",
    ofAscii "received_hex"]

/-- Rows at line feeds and cells at commas outside quotes, the quotes around a cell removed
and two quotes in it read as one. -/
def readCsv (text : Text) : List (List Text) :=
  Quoted.readTable Json.quote Json.comma lineFeed text

/-- Behind the first quote of a field its quotes are even in number and stand apart, and its
commas and line feeds are between the first and the second of them, the third and the fourth,
and so on, never there. -/
def Decodable (field : Text) : Prop :=
  ∀ front rest, field = front ++ Json.quote :: rest → Json.quote ∉ front →
    Quoted.Apart Json.quote [Json.comma, lineFeed] true rest

open Quoted (Intact Clear Apart content collapse unquote after)

def Special (field : Text) : Prop :=
  Json.comma ∈ field ∨ Json.quote ∈ field ∨ lineFeed ∈ field

theorem contains_unit (field : Text) (unit : UInt16) :
    field.contains [unit] = true ↔ unit ∈ field := by
  rw [contains_iff, List.singleton_infix_iff]

theorem csvEscape_special {field : Text} (hspecial : Special field) :
    csvEscape field =
      Json.quote :: (replaceFirst Json.quote [Json.quote, Json.quote] field ++ [Json.quote]) :=
  if_pos (hspecial.imp (contains_unit field _).mpr
    (Or.imp (contains_unit field _).mpr (contains_unit field _).mpr))

theorem csvEscape_plain {field : Text} (hplain : ¬Special field) : csvEscape field = field :=
  if_neg fun hany => hplain (hany.imp (contains_unit field _).mp
    (Or.imp (contains_unit field _).mp (contains_unit field _).mp))

theorem replaceFirst_free {old : UInt16} (new : Text) {field : Text} (hfree : old ∉ field) :
    replaceFirst old new field = field := by
  induction field with
  | nil => rfl
  | cons unit rest ih =>
      rw [replaceFirst, if_neg fun hequal => hfree (by simp [hequal]),
        ih fun hmem => hfree (List.mem_cons_of_mem _ hmem)]

theorem replaceFirst_append {old : UInt16} (new : Text) {front : Text} (hfree : old ∉ front)
    (rest : Text) : replaceFirst old new (front ++ old :: rest) = front ++ new ++ rest := by
  induction front with
  | nil => rw [List.nil_append, replaceFirst, if_pos rfl, List.nil_append]
  | cons unit front ih =>
      rw [List.cons_append, replaceFirst, if_neg fun hequal => hfree (by simp [hequal]),
        ih fun hmem => hfree (List.mem_cons_of_mem _ hmem)]
      rfl

theorem content_csvEscape (field : Text) :
    content Json.quote (csvEscape field) = content Json.quote field := by
  by_cases hspecial : Special field
  · rw [csvEscape_special hspecial, Quoted.content_quote, Quoted.content_append]
    have hlast : content Json.quote [Json.quote] = [] := Quoted.content_quote []
    rw [hlast, List.append_nil]
    by_cases hquote : Json.quote ∈ field
    · obtain ⟨front, rest, rfl, hfree⟩ := List.eq_append_cons_of_mem hquote
      rw [replaceFirst_append _ hfree, List.append_assoc, List.cons_append, List.singleton_append,
        Quoted.content_append, Quoted.content_append, Quoted.content_quote, Quoted.content_quote]
    · rw [replaceFirst_free _ hquote]
  · rw [csvEscape_plain hspecial]

theorem intact_wrapped_iff {field body : Text}
    (hwritten : csvEscape field = Json.quote :: (body ++ [Json.quote])) :
    Intact Json.quote Json.comma lineFeed csvEscape field ↔
      collapse Json.quote body = field ∧ Clear Json.quote Json.comma true body ∧
        Clear Json.quote lineFeed true body ∧ after Json.quote true body = true := by
  have hclear : ∀ {separator : UInt16}, Json.quote ≠ separator →
      (Clear Json.quote separator false (Json.quote :: (body ++ [Json.quote])) ↔
        Clear Json.quote separator true body) := by
    intro separator hseparator
    rw [Clear, if_pos rfl, Quoted.clear_append, Clear]
    exact ⟨fun hall => hall.2.1, fun hbody => ⟨.inr hseparator, hbody, .inr hseparator, trivial⟩⟩
  have hafter : after Json.quote false (Json.quote :: (body ++ [Json.quote])) =
      !after Json.quote true body := by
    rw [after, if_pos rfl, Quoted.after_append, after, if_pos rfl]
    rfl
  have hcomma : Json.quote ≠ Json.comma := by decide
  have hline : Json.quote ≠ lineFeed := by decide
  constructor
  · rintro ⟨hread, hcommas, hlines, houtside⟩
    rw [hwritten] at hread hcommas hlines houtside
    rw [Quoted.unquote_wrapped] at hread
    rw [hafter, Bool.not_eq_false'] at houtside
    exact ⟨hread, (hclear hcomma).mp hcommas, (hclear hline).mp hlines, houtside⟩
  · rintro ⟨hread, hcommas, hlines, hinside⟩
    constructor
    · rw [hwritten, Quoted.unquote_wrapped, hread]
    · rw [hwritten]
      exact (hclear hcomma).mpr hcommas
    · rw [hwritten]
      exact (hclear hline).mpr hlines
    · rw [hwritten, hafter, hinside]
      rfl

theorem intact_free {field : Text} (hfree : Json.quote ∉ field) :
    Intact Json.quote Json.comma lineFeed csvEscape field := by
  by_cases hspecial : Special field
  · have hwritten := csvEscape_special hspecial
    rw [replaceFirst_free _ hfree] at hwritten
    have hread := Quoted.collapse_free hfree []
    rw [List.append_nil] at hread
    exact (intact_wrapped_iff hwritten).mpr ⟨hread.trans (List.append_nil field),
      Quoted.clear_inside hfree, Quoted.clear_inside hfree, Quoted.after_free hfree⟩
  · have hwritten := csvEscape_plain hspecial
    constructor
    · rw [hwritten]
      exact Quoted.unquote_plain fun hhead => hfree (List.mem_of_mem_head? hhead)
    · rw [hwritten]
      exact Quoted.clear_free fun hmem => hspecial (.inl hmem)
    · rw [hwritten]
      exact Quoted.clear_free fun hmem => hspecial (.inr (.inr hmem))
    · rw [hwritten]
      exact Quoted.after_free hfree

/-- A field with quotes is read back exactly if those behind the first one stand apart. -/
theorem intact_quoted_iff {front rest : Text} (hfree : Json.quote ∉ front) :
    Intact Json.quote Json.comma lineFeed csvEscape (front ++ Json.quote :: rest) ↔
      Apart Json.quote [Json.comma, lineFeed] true rest := by
  have hwritten : csvEscape (front ++ Json.quote :: rest) =
      Json.quote :: (front ++ Json.quote :: Json.quote :: rest ++ [Json.quote]) := by
    rw [csvEscape_special (.inr (.inl (by simp))), replaceFirst_append _ hfree]
    simp
  have hclear : ∀ {separator : UInt16}, Json.quote ≠ separator →
      (Clear Json.quote separator true (front ++ Json.quote :: Json.quote :: rest) ↔
        Clear Json.quote separator true rest) := by
    intro separator hseparator
    rw [Quoted.clear_append, Quoted.after_free hfree, Clear, if_pos rfl, Clear, if_pos rfl]
    exact ⟨fun hall => hall.2.2.2,
      fun hrest => ⟨Quoted.clear_inside hfree, .inl rfl, .inr hseparator, hrest⟩⟩
  have hafter : after Json.quote true (front ++ Json.quote :: Json.quote :: rest) =
      after Json.quote true rest := by
    rw [Quoted.after_append, Quoted.after_free hfree]
    rfl
  have hcollapse : collapse Json.quote (front ++ Json.quote :: Json.quote :: rest) =
      front ++ Json.quote :: collapse Json.quote rest := by
    rw [Quoted.collapse_free hfree, collapse, if_pos ⟨rfl, rfl⟩]
  rw [intact_wrapped_iff hwritten, hclear (by decide), hclear (by decide), hafter, hcollapse,
    Quoted.apart_iff (by decide), List.append_cancel_left_eq, List.cons.injEq]
  simp only [true_and, List.forall_mem_cons, List.not_mem_nil, false_imp_iff, implies_true,
    and_true, and_assoc]

theorem intact_iff (field : Text) :
    Intact Json.quote Json.comma lineFeed csvEscape field ↔ Decodable field := by
  constructor
  · rintro hintact front rest rfl hfree
    exact (intact_quoted_iff hfree).mp hintact
  · intro hdecodable
    by_cases hquote : Json.quote ∈ field
    · obtain ⟨front, rest, rfl, hfree⟩ := List.eq_append_cons_of_mem hquote
      exact (intact_quoted_iff hfree).mpr (hdecodable front rest rfl hfree)
    · exact intact_free hquote

theorem notSpecial_append {first second : Text} (hfirst : ¬Special first)
    (hsecond : ¬Special second) : ¬Special (first ++ second) := by
  simp only [Special, List.mem_append, not_or] at *
  exact ⟨⟨hfirst.1, hsecond.1⟩, ⟨hfirst.2.1, hsecond.2.1⟩, hfirst.2.2, hsecond.2.2⟩

theorem notSpecial_decimal (value : Nat) : ¬Special (decimal value) := by
  rintro (hcomma | hquote | hline)
  · exact notMem_decimal (.inl (by decide)) value hcomma
  · exact notMem_decimal (.inl (by decide)) value hquote
  · exact notMem_decimal (.inl (by decide)) value hline

theorem notSpecial_nil : ¬Special [] := by
  rintro (hcomma | hquote | hline)
  · cases hcomma
  · cases hquote
  · cases hline

theorem notSpecial_integer (value : Int) : ¬Special (integer value) := by
  rw [integer]
  split
  · exact notSpecial_append (by simp only [Special]; decide) (notSpecial_decimal _)
  · exact notSpecial_decimal _

theorem notSpecial_failed (record : CaseRecord) : ¬Special (failedText record) := by
  rw [failedText]
  cases record.failedStep with
  | none => exact notSpecial_nil
  | some index => exact notSpecial_integer index

theorem notSpecial_hexDigit {value : Nat} (hvalue : value < 16) :
    ¬Special [Json.hexDigit value] := by
  simp only [Special]
  interval_cases value <;> decide

theorem notSpecial_hex (bytes : Bytes) : ¬Special bytes.hexEncode := by
  induction bytes with
  | nil => exact notSpecial_nil
  | cons byte rest ih =>
      have hbyte := byte.toNat_lt
      have hhigh : byte.toNat / 16 < 16 := by omega
      have hlow : byte.toNat % 16 < 16 := by omega
      exact notSpecial_append
        (notSpecial_append (notSpecial_hexDigit hhigh) (notSpecial_hexDigit hlow)) ih

theorem notSpecial_join {separator : Text} (hseparator : ¬Special separator) {items : List Text}
    (hitems : ∀ item ∈ items, ¬Special item) : ¬Special (join separator items) := by
  induction items using join.induct with
  | case1 => exact notSpecial_nil
  | case2 item => exact hitems item (by simp)
  | case3 item rest hrest ih =>
      rw [join]
      · exact notSpecial_append (notSpecial_append (hitems item (by simp)) hseparator)
          (ih fun item hmem => hitems item (by simp [hmem]))
      · exact hrest

theorem notSpecial_traffic (record : CaseRecord) (bytes : RecordedStep → Bytes) :
    ¬Special (trafficText record bytes) := by
  refine notSpecial_join (by simp only [Special]; decide) fun item hmem => ?_
  obtain ⟨step, -, rfl⟩ := List.mem_map.mp hmem
  exact notSpecial_hex (bytes step)

theorem notSpecial_outcome {outcome : Text} (houtcome : outcome ∈ CaseRecord.outcomes) :
    ¬Special outcome := by
  have hall : ∀ outcome ∈ CaseRecord.outcomes, ¬Special outcome := by
    simp only [Special]
    decide +kernel
  exact hall outcome houtcome

theorem csvLine_eq {record : CaseRecord} (hvalid : record.Valid) :
    csvLine record = Quoted.writeRow Json.comma csvEscape (csvCells record) := by
  rw [csvLine, join_eq_intercalate, Quoted.writeRow, csvCells]
  simp only [List.map_cons, List.map_nil, csvEscape_plain (notSpecial_integer _),
    csvEscape_plain (notSpecial_outcome hvalid.outcome), csvEscape_plain (notSpecial_failed _),
    csvEscape_plain (notSpecial_traffic _ _)]
  rfl

theorem csvHeader_eq : csvHeader = Quoted.writeRow Json.comma csvEscape csvTitles := by
  decide +kernel

theorem join_lines (lines : List Text) (hne : lines ≠ []) :
    join [lineFeed] lines ++ [lineFeed] = lines.flatMap fun line => line ++ [lineFeed] := by
  induction lines using join.induct with
  | case1 => exact absurd rfl hne
  | case2 line => simp [join]
  | case3 line rest hrest ih =>
      have hfilled : rest ≠ [] := hrest
      rw [join, List.append_assoc, ih hfilled, List.flatMap_cons]
      exact hrest

theorem csvText_eq {records : List CaseRecord} (hvalid : ∀ record ∈ records, record.Valid) :
    csvText records = Quoted.writeTable Json.comma lineFeed csvEscape
      (csvTitles :: records.map csvCells) := by
  have hlines : records.map csvLine =
      records.map fun record => Quoted.writeRow Json.comma csvEscape (csvCells record) :=
    List.map_congr_left fun record hmem => csvLine_eq (hvalid record hmem)
  rw [csvText, hlines, csvHeader_eq, Quoted.writeTable, List.flatMap_cons, List.flatMap_map]
  have hjoined := join_lines (Quoted.writeRow Json.comma csvEscape csvTitles ::
    records.map fun record => Quoted.writeRow Json.comma csvEscape (csvCells record))
    (List.cons_ne_nil _ _)
  rw [List.flatMap_cons, List.flatMap_map] at hjoined
  exact hjoined

theorem readCsv_iff {records : List CaseRecord} (hvalid : ∀ record ∈ records, record.Valid) :
    readCsv (csvText records) = csvTitles :: records.map csvCells ↔
      ∀ record ∈ records, Decodable record.caseId ∧ Decodable record.requestName ∧
        Decodable record.fieldPath := by
  have hrows : ∀ row ∈ csvTitles :: records.map csvCells, row ≠ [] := by
    intro row hmem
    rcases List.mem_cons.mp hmem with rfl | hrow
    · exact List.cons_ne_nil _ _
    · obtain ⟨record, -, rfl⟩ := List.mem_map.mp hrow
      exact List.cons_ne_nil _ _
  have hplain : ∀ {cell : Text}, ¬Special cell →
      Intact Json.quote Json.comma lineFeed csvEscape cell :=
    fun hcell => intact_free fun hmem => hcell (.inr (.inl hmem))
  have htitles : ∀ cell ∈ csvTitles, Intact Json.quote Json.comma lineFeed csvEscape cell := by
    have hall : ∀ cell ∈ csvTitles, ¬Special cell := by
      simp only [Special]
      decide +kernel
    exact fun cell hmem => hplain (hall cell hmem)
  rw [csvText_eq hvalid, readCsv, Quoted.readTable_eq_iff (by decide) (by decide) (by decide)
    content_csvEscape hrows, List.forall_mem_cons, List.forall_mem_map]
  refine (and_iff_right htitles).trans (forall₂_congr fun record hmem => ?_)
  simp only [csvCells, List.forall_mem_cons, intact_iff]
  constructor
  · rintro ⟨hcase, -, hrequest, hpath, -⟩
    exact ⟨hcase, hrequest, hpath⟩
  · rintro ⟨hcase, hrequest, hpath⟩
    simp only [← intact_iff] at hcase hrequest hpath ⊢
    exact ⟨hcase, hplain (notSpecial_integer _), hrequest, hpath, hplain (notSpecial_integer _),
      hplain (notSpecial_outcome (hvalid record hmem).outcome), hplain (notSpecial_failed _),
      hplain (notSpecial_traffic _ _), hplain (notSpecial_traffic _ _), fun _ hnil => nomatch hnil⟩

/-- A report is read back exactly if the texts of its records are decodable. -/
theorem readCsv_csvText_iff (records : List CaseRecord)
    (hvalid : ∀ record ∈ records, record.Valid) :
    readCsv (csvText records) = csvTitles :: records.map csvCells ↔
      ∀ record ∈ records, Decodable record.caseId ∧ Decodable record.requestName ∧
        Decodable record.fieldPath :=
  readCsv_iff hvalid

/-- A file with a corrupt line has no report. Any other file has one with a row for each of its
records, and what it is read back as depends on their texts only. -/
theorem writeCsvReport_reads (library : JsonLibrary) (bytes : Bytes) :
    match writeCsvReport library bytes with
    | .error _ => (RecordRead.parseJsonlBytes library bytes).error ≠ none
    | .ok (text, rows) => ∃ records, RecordRead.parseJsonlBytes library bytes = ⟨records, none⟩ ∧
        rows = records.length ∧
        (readCsv text = csvTitles :: records.map csvCells ↔
          ∀ record ∈ records, Decodable record.caseId ∧ Decodable record.requestName ∧
            Decodable record.fieldPath) := by
  have hvalid := @RecordRead.parseJsonlBytes_valid library bytes
  unfold writeCsvReport
  cases hread : RecordRead.parseJsonlBytes library bytes with
  | mk records error =>
      rw [hread] at hvalid
      cases error with
      | some issue => exact fun hnone => nomatch hnone
      | none => exact ⟨records, rfl, rfl, readCsv_iff hvalid⟩

theorem decodable_free {field : Text} (hfree : Json.quote ∉ field) : Decodable field := by
  rintro front rest rfl -
  exact absurd (by simp) hfree

theorem sampleRecord_valid : RecordRead.sampleRecord.Valid :=
  CaseRecord.validate_ok.mp (by decide +kernel)

theorem sampleRecord_readCsv : readCsv (csvText [RecordRead.sampleRecord]) =
    [csvTitles, csvCells RecordRead.sampleRecord] :=
  (readCsv_csvText_iff [RecordRead.sampleRecord]
    (List.forall_mem_singleton.mpr sampleRecord_valid)).mpr
    (List.forall_mem_singleton.mpr ⟨decodable_free (by decide), decodable_free (by decide),
      decodable_free (by decide)⟩)

/-- The record with the identity that generation prints for a path of one request. -/
def printedRecord : CaseRecord :=
  { RecordRead.sampleRecord with caseId := ofAscii "[\"r\"]/v1:r.x:0" }

/-- Only the first of the two quotes is doubled, and all the cells of the row run together. -/
theorem printedRecord_merged :
    printedRecord.Valid ∧
      (readCsv (csvText [printedRecord])).map List.length = [9, 1] ∧
      readCsv (csvText [printedRecord]) ≠ [csvTitles, csvCells printedRecord] := by
  have hlengths : (readCsv (csvText [printedRecord])).map List.length = [9, 1] := by
    decide +kernel
  refine ⟨CaseRecord.validate_ok.mp (by decide +kernel), hlengths, fun hread => ?_⟩
  rw [hread] at hlengths
  exact absurd hlengths (by decide)

end Cmd

end MoonBoofuzz
