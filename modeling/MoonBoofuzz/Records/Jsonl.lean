import MoonBoofuzz.Records.Codec

namespace MoonBoofuzz

/-! Files of records, one a line. -/

structure RecordIssue where
  line : Nat
  message : Text
  deriving Repr, DecidableEq

structure RecordRead where
  records : List CaseRecord
  error : Option RecordIssue

namespace RecordRead

def decodeLine (library : JsonLibrary) (line : Bytes) : Except Text CaseRecord :=
  match library.decode line with
  | .error message => .error message
  | .ok text => (CaseRecord.decode library text).mapError library.debug

def incomplete : Text := Text.ofAscii "incomplete final JSONL line"

/-- The loop of `parse_jsonl_bytes`, with the bytes since the last line feed. -/
def readLines (library : JsonLibrary) : Bytes → Bytes → List CaseRecord → RecordRead
  | [], line, records =>
      if line ≠ [] then ⟨records, some ⟨records.length + 1, incomplete⟩⟩
      else ⟨records, none⟩
  | byte :: rest, line, records =>
      if byte = 10 then
        match decodeLine library line with
        | .ok record => readLines library rest [] (records ++ [record])
        | .error message => ⟨records, some ⟨records.length + 1, message⟩⟩
      else readLines library rest (line ++ [byte]) records

def parseJsonlBytes (library : JsonLibrary) (bytes : Bytes) : RecordRead :=
  readLines library bytes [] []

def encodeLines (library : JsonLibrary) : List CaseRecord → Except RecordError (List Bytes)
  | [] => .ok []
  | record :: rest => do
      let text ← record.encode library
      let lines ← encodeLines library rest
      .ok (library.encode (text ++ [10]) :: lines)

section

variable {library : JsonLibrary}

theorem readLines_plain {body : Bytes} (hbody : 10 ∉ body) (rest line : Bytes)
    (records : List CaseRecord) :
    readLines library (body ++ rest) line records =
      readLines library rest (line ++ body) records := by
  induction body generalizing line with
  | nil => rw [List.nil_append, List.append_nil]
  | cons byte body ih =>
      rw [List.mem_cons, not_or] at hbody
      rw [List.cons_append, readLines, if_neg (Ne.symm hbody.1), ih hbody.2,
        List.append_assoc, List.singleton_append]

theorem readLines_tail {part : Bytes} (hpart : 10 ∉ part) (records : List CaseRecord) :
    readLines library part [] records =
      ⟨records, if part = [] then none else some ⟨records.length + 1, incomplete⟩⟩ := by
  have hread : readLines library (part ++ []) [] records = _ :=
    readLines_plain hpart [] [] records
  rw [List.append_nil, List.nil_append] at hread
  rw [hread, readLines]
  by_cases hempty : part = []
  · rw [if_neg (not_not.mpr hempty), if_pos hempty]
  · rw [if_pos hempty, if_neg hempty]

theorem readLines_line {body : Bytes} (hbody : 10 ∉ body) {record : CaseRecord}
    (hdecode : decodeLine library body = .ok record) (rest : Bytes)
    (records : List CaseRecord) :
    readLines library (body ++ [10] ++ rest) [] records =
      readLines library rest [] (records ++ [record]) := by
  rw [List.append_assoc, readLines_plain hbody, List.nil_append, List.singleton_append,
    readLines, if_pos rfl, hdecode]

theorem valid_of_decodeLine {line : Bytes} {record : CaseRecord}
    (hread : decodeLine library line = .ok record) : record.Valid := by
  unfold decodeLine at hread
  split at hread
  · cases hread
  · rename_i text _
    cases hdecode : CaseRecord.decode library text with
    | error issue =>
        rw [hdecode] at hread
        cases hread
    | ok decoded =>
        rw [hdecode] at hread
        cases hread
        exact CaseRecord.valid_of_decode hdecode

theorem readLines_valid {bytes line : Bytes} {records : List CaseRecord}
    (hvalid : ∀ record ∈ records, record.Valid) :
    ∀ record ∈ (readLines library bytes line records).records, record.Valid := by
  induction bytes generalizing line records with
  | nil =>
      rw [readLines]
      split
      · exact hvalid
      · exact hvalid
  | cons byte rest ih =>
      rw [readLines]
      split
      · split
        · rename_i read hread
          refine ih fun record hmem => ?_
          rcases List.mem_append.mp hmem with hearlier | hlast
          · exact hvalid record hearlier
          · rw [List.mem_singleton.mp hlast]
            exact valid_of_decodeLine hread
        · exact hvalid
      · exact ih hvalid

/-- Whatever the bytes of a file are, the records that are read from it are valid. -/
theorem parseJsonlBytes_valid (bytes : Bytes) :
    ∀ record ∈ (parseJsonlBytes library bytes).records, record.Valid :=
  readLines_valid fun _ hmem => absurd hmem List.not_mem_nil

/-- The lines of records, each a body without a line feed that is read back. -/
inductive Written (library : JsonLibrary) : List CaseRecord → List Bytes → Prop
  | nil : Written library [] []
  | cons {record : CaseRecord} {body : Bytes} {records : List CaseRecord}
      {lines : List Bytes} (hplain : 10 ∉ body)
      (hdecode : decodeLine library body = .ok record) (hrest : Written library records lines) :
      Written library (record :: records) ((body ++ [10]) :: lines)

theorem encodeLines_written {records : List CaseRecord}
    (hkeeps : ∀ record ∈ records, library.Keeps record.wire.toJson)
    (hvalid : ∀ record ∈ records, record.validate = .ok ())
    (hfits : ∀ record ∈ records, record.Fits) :
    ∃ lines, encodeLines library records = .ok lines ∧ Written library records lines := by
  induction records with
  | nil => exact ⟨[], rfl, .nil⟩
  | cons record rest ih =>
      obtain ⟨lines, hlines, hwritten⟩ :=
        ih (fun other hother => hkeeps other (List.mem_cons_of_mem _ hother))
          (fun other hother => hvalid other (List.mem_cons_of_mem _ hother))
          (fun other hother => hfits other (List.mem_cons_of_mem _ hother))
      have hrecord := CaseRecord.validate_ok.mp (hvalid record List.mem_cons_self)
      have hkept := hkeeps record List.mem_cons_self
      have hdecode : decodeLine library
          (library.encode (library.stringify record.wire.toJson)) = .ok record := by
        rw [decodeLine, hkept.decode]
        change (CaseRecord.decode library _).mapError library.debug = _
        rw [CaseRecord.decode_stringify hkept.parse hrecord (hfits record List.mem_cons_self)]
        rfl
      refine ⟨library.encode (library.stringify record.wire.toJson ++ [10]) :: lines, ?_, ?_⟩
      · rw [encodeLines, CaseRecord.encode_ok hrecord, hlines]
        rfl
      · rw [hkept.encode]
        exact .cons (hkept.plain hkept.line) hdecode hwritten

theorem Written.length {records : List CaseRecord} {lines : List Bytes}
    (hwritten : Written library records lines) :
    lines.length = records.length := by
  induction hwritten with
  | nil => rfl
  | cons _ _ _ ih => rw [List.length_cons, List.length_cons, ih]

/-- How many lines a part of the file holds, and what is read from it. -/
theorem Written.read {records : List CaseRecord} {lines : List Bytes}
    (hwritten : Written library records lines) :
    ∀ {part : Bytes} (before : List CaseRecord), part <+: lines.flatten →
      ∃ count, count ≤ records.length ∧
        (∀ more ≤ records.length, more ≤ count ↔ (lines.take more).flatten <+: part) ∧
        readLines library part [] before =
          ⟨before ++ records.take count,
            if part = (lines.take count).flatten then none
            else some ⟨before.length + count + 1, incomplete⟩⟩ := by
  induction hwritten with
  | nil =>
      intro part before hpart
      rw [List.flatten_nil, List.prefix_nil] at hpart
      subst hpart
      refine ⟨0, le_refl _, ?_, ?_⟩
      · intro more hmore
        simpa using hmore
      · simp [readLines]
  | @cons record body records lines hplain hdecode hrest ih =>
      intro part before hpart
      rw [List.flatten_cons] at hpart
      by_cases hline : body ++ [10] <+: part
      · obtain ⟨rest, rfl⟩ := hline
        have hinside : rest <+: lines.flatten := (List.prefix_append_right_inj _).mp hpart
        obtain ⟨count, hcount, hmore, hread⟩ := ih (before ++ [record]) hinside
        refine ⟨count + 1, by simpa using hcount, ?_, ?_⟩
        · intro more hle
          cases more with
          | zero => simp
          | succ more =>
              rw [List.take_succ_cons, List.flatten_cons, List.prefix_append_right_inj,
                ← hmore more (by simpa using hle), Nat.succ_le_succ_iff]
        · rw [readLines_line hplain hdecode, hread, List.take_succ_cons, List.take_succ_cons,
            List.flatten_cons, List.append_assoc, List.singleton_append, List.length_append,
            List.length_singleton]
          congr 1
          by_cases hend : rest = (lines.take count).flatten
          · rw [if_pos hend, if_pos (by rw [hend])]
          · rw [if_neg hend, if_neg fun h => hend (List.append_cancel_left h)]
            congr 2
            omega
      · -- The part ends inside the first line.
        have hshort : part <+: body := by
          rcases List.prefix_or_prefix_of_prefix hpart (List.prefix_append _ _) with h | h
          · rcases List.prefix_concat_iff.mp h with heq | hbody
            · exact absurd (heq ▸ List.prefix_refl _) hline
            · exact hbody
          · exact absurd h hline
        have hnone : 10 ∉ part := fun hmem => hplain (hshort.subset hmem)
        refine ⟨0, Nat.zero_le _, ?_, ?_⟩
        · intro more hle
          cases more with
          | zero => simp
          | succ more =>
              rw [List.take_succ_cons, List.flatten_cons]
              constructor
              · intro h
                cases h
              · intro h
                exact absurd ((List.prefix_append _ _).trans h) hline
        · rw [readLines_tail hnone]
          simp

theorem parseJsonlBytes_file {records : List CaseRecord}
    (hkeeps : ∀ record ∈ records, library.Keeps record.wire.toJson)
    (hvalid : ∀ record ∈ records, record.validate = .ok ())
    (hfits : ∀ record ∈ records, record.Fits) :
    ∃ lines, encodeLines library records = .ok lines ∧
      (parseJsonlBytes library lines.flatten).records = records := by
  obtain ⟨lines, hlines, hwritten⟩ := encodeLines_written hkeeps hvalid hfits
  obtain ⟨count, hcount, hmore, hread⟩ := hwritten.read [] (List.prefix_refl _)
  have hall : count = records.length := by
    have hle := (hmore records.length (le_refl _)).mpr
      (by rw [← hwritten.length, List.take_length])
    omega
  refine ⟨lines, hlines, ?_⟩
  rw [parseJsonlBytes, hread, List.nil_append, hall, List.take_length]

end

/-- With the library's own functions, files of records in Unicode are read as they were
written. -/
theorem parseJsonlBytes_standard {records : List CaseRecord}
    (hconfigs : ∀ record ∈ records, record.config.WellFormed)
    (htexts : ∀ record ∈ records, ∀ text ∈ record.wire.toJson.texts, text.Paired)
    (hvalid : ∀ record ∈ records, record.validate = .ok ())
    (hfits : ∀ record ∈ records, record.Fits) :
    ∃ lines, encodeLines .standard records = .ok lines ∧
      (parseJsonlBytes .standard lines.flatten).records = records := by
  have hkeeps : ∀ record ∈ records, JsonLibrary.standard.Keeps record.wire.toJson :=
    fun record hrecord => JsonLibrary.standard_keeps
      (CaseRecord.wire_wellFormed (hconfigs record hrecord)) (htexts record hrecord)
  exact parseJsonlBytes_file hkeeps hvalid hfits

/-- A cut file gives the records whose lines are complete, and a decoded text the record
it was written from. -/
theorem parseJsonlBytes_cut {library : JsonLibrary} {records : List CaseRecord}
    (hkeeps : ∀ record ∈ records, library.Keeps record.wire.toJson)
    (hvalid : ∀ record ∈ records, record.validate = .ok ())
    (hfits : ∀ record ∈ records, record.Fits) :
    (∀ record ∈ records, ∃ text, record.encode library = .ok text ∧
      CaseRecord.decode library text = .ok record) ∧
    ∃ lines, encodeLines library records = .ok lines ∧ lines.length = records.length ∧
      ∀ part, part <+: lines.flatten →
        ∃ count, count ≤ records.length ∧
          (∀ more ≤ records.length, more ≤ count ↔ (lines.take more).flatten <+: part) ∧
          (parseJsonlBytes library part).records = records.take count ∧
          ((∃ boundary, boundary ≤ records.length ∧
              part = (lines.take boundary).flatten) →
            (parseJsonlBytes library part).error = none) ∧
          ((∀ boundary ≤ records.length, part ≠ (lines.take boundary).flatten) →
            (parseJsonlBytes library part).error = some ⟨count + 1, incomplete⟩) := by
  constructor
  · intro record hmem
    have hrecord := CaseRecord.validate_ok.mp (hvalid record hmem)
    exact ⟨_, CaseRecord.encode_ok hrecord,
      CaseRecord.decode_stringify (hkeeps record hmem).parse hrecord (hfits record hmem)⟩
  · obtain ⟨lines, hlines, hwritten⟩ := encodeLines_written hkeeps hvalid hfits
    refine ⟨lines, hlines, hwritten.length, ?_⟩
    intro part hpart
    obtain ⟨count, hcount, hmore, hread⟩ := hwritten.read [] hpart
    refine ⟨count, hcount, hmore, ?_, ?_, ?_⟩
    · rw [parseJsonlBytes, hread, List.nil_append]
    · rintro ⟨boundary, hle, rfl⟩
      have hat : (lines.take boundary).flatten = (lines.take count).flatten := by
        have hbelow := (hmore boundary hle).mpr (List.prefix_refl _)
        have habove := (hmore count hcount).mp (le_refl _)
        exact (List.take_prefix_take_left hbelow).flatten.eq_of_length_le habove.length_le
      rw [parseJsonlBytes, hread]
      exact if_pos hat
    · intro hnone
      rw [parseJsonlBytes, hread]
      change (if _ then _ else _) = _
      rw [if_neg (hnone count hcount), List.length_nil, Nat.zero_add]

def sampleRecord : CaseRecord where
  formatVersion := 1
  caseId := Text.ofAscii "case:1"
  generatorVersion := Text.ofAscii "v1"
  requestName := Text.ofAscii "r"
  fieldPath := Text.ofAscii "r.x"
  mutationIndex := 0
  ordinal := 0
  path := [Text.ofAscii "r"]
  config := .object [(Text.ofAscii "transport", .string (Text.ofAscii "custom"))]
  steps := [⟨Text.ofAscii "r", [0x00, 0xff], [0xfe, 0x00], true⟩]
  outcome := Text.ofAscii "passed"
  detail := []
  failedStep := none

def sampleLine : Bytes :=
  JsonLibrary.standard.encode
    (JsonLibrary.standard.stringify sampleRecord.wire.toJson ++ [10])

theorem sampleConfig_wellFormed : sampleRecord.config.WellFormed :=
  .object (List.pairwise_singleton _ _) fun _ hmem => by
    rw [List.mem_singleton.mp hmem]
    exact .string _

theorem sampleRecord_keeps : JsonLibrary.standard.Keeps sampleRecord.wire.toJson :=
  JsonLibrary.standard_keeps_ascii (CaseRecord.wire_wellFormed sampleConfig_wellFormed)
    (by decide +kernel)

/-- A second line that is cut after its first byte is lost. -/
theorem sampleFile_cut :
    (parseJsonlBytes .standard (sampleLine ++ [123])).records = [sampleRecord] ∧
      (parseJsonlBytes .standard (sampleLine ++ [123])).error =
        some ⟨2, incomplete⟩ := by
  have hvalid : sampleRecord.validate = .ok () := by decide +kernel
  have hfits : sampleRecord.Fits :=
    ⟨by decide, by decide, fun index hindex => by cases hindex⟩
  obtain ⟨-, lines, hlines, -, hcuts⟩ :=
    @parseJsonlBytes_cut .standard [sampleRecord, sampleRecord]
      (by simpa using sampleRecord_keeps) (by simpa using hvalid) (by simpa using hfits)
  have hencode : sampleRecord.encode .standard =
      .ok (JsonLibrary.standard.stringify sampleRecord.wire.toJson) :=
    CaseRecord.encode_ok (CaseRecord.validate_ok.mp hvalid)
  have hsame : encodeLines .standard [sampleRecord, sampleRecord] =
      .ok [sampleLine, sampleLine] := by
    rw [encodeLines, encodeLines, encodeLines, hencode]
    rfl
  rw [hsame] at hlines
  cases hlines
  obtain ⟨count, hle, hmore, hrecords, -, herror⟩ := hcuts (sampleLine ++ [123])
    (by decide +kernel)
  have hcount : count = 1 := by
    have hone := (hmore 1 (by decide)).mpr (by decide +kernel)
    have htwo := mt (hmore 2 (by decide)).mp (by decide +kernel)
    omega
  subst hcount
  refine ⟨hrecords, herror fun boundary hboundary => ?_⟩
  have hthree : boundary = 0 ∨ boundary = 1 ∨ boundary = 2 := by
    change boundary ≤ 2 at hboundary
    omega
  rcases hthree with rfl | rfl | rfl <;> decide +kernel

end RecordRead

end MoonBoofuzz
