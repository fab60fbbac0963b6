import MoonBoofuzz.Data.Unicode
import MoonBoofuzz.Http.Emit
import MoonBoofuzz.Httpd.Limits

namespace MoonBoofuzz

open Text

namespace Httpd

structure ParsedRequest where
  verb : Text
  target : Text
  version : Text
  headers : List (Text × Text)
  body : Bytes
deriving DecidableEq, Repr

inductive ReadResult where
  | parsed (request : ParsedRequest)
  | rejected (reject : RequestReject)
  /-- Nothing usable arrived. -/
  | closed

structure HeadFields where
  verb : Text
  target : Text
  version : Text
  headers : List (Text × Text)
  bodyStart : Nat
  contentLength : Int32
deriving DecidableEq, Repr

def ascii (literal : String) : Bytes := encodeUtf8 (ofAscii literal)

def badRequest {α : Type} (message : String) : Except RequestReject α :=
  .error (.badRequest (ofAscii message))

def stripCr (line : Text) : Text :=
  if line.getLast? = some 13 then line.dropLast else line

def isOws (unit : UInt16) : Bool := decide (unit = 32 ∨ unit = 9)

def trimOws (text : Text) : Text := (text.dropWhile isOws).rdropWhile isOws

def isTokenUnit (unit : UInt16) : Bool :=
  decide (97 ≤ unit.toNat ∧ unit.toNat ≤ 122 ∨ 65 ≤ unit.toNat ∧ unit.toNat ≤ 90 ∨
    48 ≤ unit.toNat ∧ unit.toNat ≤ 57 ∨ unit ∈ ofAscii "!#$%&'*+-.^_`|~")

def isToken (text : Text) : Bool := decide (text ≠ []) && text.all isTokenUnit

/-- The lines of a head, without the empty ones at its end. -/
def headLines (head : Text) : List Text :=
  ((head.splitOn 10).map stripCr).rdropWhile fun line => decide (line = [])

def requestLine (line : Text) : Except RequestReject (Text × Text × Text) :=
  match line.splitOn 32 with
  | [verb, target, version] =>
      if isToken verb = false then badRequest "invalid verb token"
      else if target.head? ≠ some slash ∧ target ≠ ofAscii "*" then
        badRequest "target must start with '/' or be '*'"
      else if Text.hasPrefix version (ofAscii "HTTP/") = false then
        badRequest "version must start with HTTP/"
      else .ok (verb, target, version)
  | _ => badRequest "request line must be METHOD SP TARGET SP VERSION"

def headerLine (line : Text) : Except RequestReject (Text × Text) :=
  match line.idxOf? colon with
  | none => badRequest "header line without ':'"
  | some index =>
      let name := line.take index
      if isToken name = false then badRequest "invalid header name"
      else if toLower name = ofAscii "transfer-encoding" then
        .error .unsupportedTransferEncoding
      else .ok (toLower name, trimOws (line.drop (index + 1)))

def contentLengths (headers : List (Text × Text)) : List Text :=
  (headers.filter fun header => header.1 = ofAscii "content-length").map Prod.snd

/-- Where the body begins after a terminator, which is CRLFCRLF or LFLF. -/
def bodyStart (buffer : Bytes) (headEnd : Nat) : Nat :=
  headEnd + if buffer[headEnd]? = some 13 then 4 else 2

def parseHead (buffer : Bytes) (headEnd : Nat) (maxBody : Int32) :
    Except RequestReject HeadFields := do
  let lines := headLines (decodeLossy (buffer.take headEnd))
  if [] ∈ lines then badRequest "empty header line"
  else
    match lines with
    | [] => badRequest "empty request"
    | first :: rest => do
        let (verb, target, version) ← requestLine first
        let headers ← rest.mapM headerLine
        let contentLength ← contentLengthFrom (contentLengths headers) maxBody
        .ok ⟨verb, target, version, headers, bodyStart buffer headEnd, contentLength⟩

structure ReadsHead (buffer : Bytes) (headEnd : Nat) (maxBody : Int32) (fields : HeadFields)
    (first : Text) (rest : List Text) : Prop where
  lines : headLines (decodeLossy (buffer.take headEnd)) = first :: rest
  filled : [] ∉ first :: rest
  request : requestLine first = .ok (fields.verb, fields.target, fields.version)
  headers : rest.mapM headerLine = .ok fields.headers
  contentLength : contentLengthFrom (contentLengths fields.headers) maxBody =
    .ok fields.contentLength
  bodyStart : fields.bodyStart = bodyStart buffer headEnd

theorem parseHead_eq_ok {buffer : Bytes} {headEnd : Nat} {maxBody : Int32}
    {fields : HeadFields} :
    parseHead buffer headEnd maxBody = .ok fields ↔
      ∃ first rest, ReadsHead buffer headEnd maxBody fields first rest := by
  unfold parseHead
  constructor
  · intro hok
    dsimp only at hok
    split at hok
    · cases hok
    · rename_i hfilled
      split at hok
      · cases hok
      · rename_i first rest hlines
        rw [hlines] at hfilled
        obtain ⟨⟨verb, target, version⟩, hrequest, hok⟩ := exceptBind_eq_ok_iff.mp hok
        obtain ⟨headers, hheaders, hok⟩ := exceptBind_eq_ok_iff.mp hok
        obtain ⟨contentLength, hlength, hok⟩ := exceptBind_eq_ok_iff.mp hok
        obtain rfl := Except.ok.inj hok
        exact ⟨first, rest, hlines, hfilled, hrequest, hheaders, hlength, rfl⟩
  · rintro ⟨first, rest, hreads⟩
    dsimp only
    rw [hreads.lines, if_neg hreads.filled]
    dsimp only
    rw [hreads.request]
    change (do
      let headers ← rest.mapM headerLine
      let contentLength ← contentLengthFrom (contentLengths headers) maxBody
      Except.ok (HeadFields.mk _ _ _ headers _ contentLength)) = _
    rw [hreads.headers]
    change (do
      let contentLength ← contentLengthFrom (contentLengths fields.headers) maxBody
      Except.ok (HeadFields.mk _ _ _ fields.headers _ contentLength)) = _
    rw [hreads.contentLength, ← hreads.bodyStart]
    rfl

def endsHeadAt (buffer : Bytes) (i : Nat) : Bool :=
  decide (buffer[i]? = some 13 ∧ buffer[i + 1]? = some 10 ∧ buffer[i + 2]? = some 13 ∧
    buffer[i + 3]? = some 10) ||
    decide (buffer[i]? = some 10 ∧ buffer[i + 1]? = some 10)

def headTerminatorAt (buffer : Bytes) : Option Nat :=
  (List.range buffer.length).find? (endsHeadAt buffer)

theorem endsHeadAt_iff {buffer : Bytes} {i : Nat} :
    endsHeadAt buffer i = true ↔
      buffer[i]? = some 13 ∧ buffer[i + 1]? = some 10 ∧ buffer[i + 2]? = some 13 ∧
        buffer[i + 3]? = some 10 ∨ buffer[i]? = some 10 ∧ buffer[i + 1]? = some 10 := by
  rw [endsHeadAt, Bool.or_eq_true, decide_eq_true_eq, decide_eq_true_eq]

theorem headTerminatorAt_eq_some {buffer : Bytes} {i : Nat} :
    headTerminatorAt buffer = some i ↔
      endsHeadAt buffer i = true ∧ ∀ j < i, endsHeadAt buffer j = false := by
  rw [headTerminatorAt, List.find?_range_eq_some]
  simp only [List.mem_range, Bool.not_eq_true']
  constructor
  · rintro ⟨hends, -, hfirst⟩
    exact ⟨hends, hfirst⟩
  · rintro ⟨hends, hfirst⟩
    refine ⟨hends, ?_, hfirst⟩
    rcases endsHeadAt_iff.mp hends with hcr | hlf
    · exact (List.getElem?_eq_some_iff.mp hcr.1).1
    · exact (List.getElem?_eq_some_iff.mp hlf.1).1

theorem headTerminatorAt_eq_none {buffer : Bytes} :
    headTerminatorAt buffer = none ↔ ∀ i, endsHeadAt buffer i = false := by
  rw [headTerminatorAt, List.find?_range_eq_none]
  simp only [Bool.not_eq_true']
  constructor
  · intro hnone i
    by_cases hi : i < buffer.length
    · exact hnone i hi
    · rw [endsHeadAt, List.getElem?_eq_none (Nat.not_lt.mp hi)]
      rfl
  · exact fun hnone i _ => hnone i

section

variable {front rest : Bytes} {i : Nat}

theorem bodyStart_le (hends : endsHeadAt front i = true) : bodyStart front i ≤ front.length := by
  rw [bodyStart]
  rcases endsHeadAt_iff.mp hends with ⟨hfirst, -, -, hlast⟩ | ⟨hfirst, hlast⟩
  · have hwithin := (List.getElem?_eq_some_iff.mp hlast).1
    rw [if_pos hfirst]
    omega
  · have hwithin := (List.getElem?_eq_some_iff.mp hlast).1
    rw [if_neg (by rw [hfirst]; decide)]
    omega

theorem lt_length_of_endsHeadAt (hends : endsHeadAt front i = true) : i < front.length := by
  have hle := bodyStart_le hends
  rw [bodyStart] at hle
  split at hle <;> omega

theorem getElem?_append_of_some {place : Nat} {byte : UInt8} (hbyte : front[place]? = some byte) :
    (front ++ rest)[place]? = some byte := by
  rw [List.getElem?_append_left (List.getElem?_eq_some_iff.mp hbyte).1, hbyte]

theorem bodyStart_append (hi : i < front.length) :
    bodyStart (front ++ rest) i = bodyStart front i := by
  rw [bodyStart, bodyStart, List.getElem?_append_left hi]

theorem endsHeadAt_append (hends : endsHeadAt front i = true) :
    endsHeadAt (front ++ rest) i = true := by
  rcases endsHeadAt_iff.mp hends with ⟨h0, h1, h2, h3⟩ | ⟨h0, h1⟩
  · exact endsHeadAt_iff.mpr (Or.inl ⟨getElem?_append_of_some h0, getElem?_append_of_some h1,
      getElem?_append_of_some h2, getElem?_append_of_some h3⟩)
  · exact endsHeadAt_iff.mpr (Or.inr ⟨getElem?_append_of_some h0, getElem?_append_of_some h1⟩)

theorem endsHeadAt_of_append (hends : endsHeadAt (front ++ rest) i = true)
    (hwithin : bodyStart (front ++ rest) i ≤ front.length) : endsHeadAt front i = true := by
  have hat : ∀ place < front.length, front[place]? = (front ++ rest)[place]? :=
    fun place hplace => (List.getElem?_append_left hplace).symm
  rw [bodyStart] at hwithin
  rw [endsHeadAt_iff] at hends ⊢
  rcases hends with hcr | hlf
  · rw [if_pos hcr.1] at hwithin
    rw [hat i (by omega), hat (i + 1) (by omega), hat (i + 2) (by omega), hat (i + 3) (by omega)]
    exact Or.inl hcr
  · rw [if_neg (by rw [hlf.1]; decide)] at hwithin
    rw [hat i (by omega), hat (i + 1) (by omega)]
    exact Or.inr hlf

/-- Of two terminators the one that begins first ends first. -/
theorem bodyStart_mono {buffer : Bytes} {j : Nat} (hfirst : endsHeadAt buffer j = true)
    (hsecond : endsHeadAt buffer i = true) (hlt : j < i) :
    bodyStart buffer j ≤ bodyStart buffer i := by
  rw [bodyStart, bodyStart]
  rcases endsHeadAt_iff.mp hfirst with ⟨hj0, hj1, hj2, hj3⟩ | ⟨hj0, hj1⟩
  · rw [if_pos hj0]
    rcases endsHeadAt_iff.mp hsecond with ⟨hi0, -, -, -⟩ | ⟨hi0, hi1⟩
    · rw [if_pos hi0]
      omega
    · -- LFLF does not begin within CRLFCRLF before its last byte.
      rw [if_neg (by rw [hi0]; decide)]
      have hnext : i ≠ j + 1 := by
        rintro rfl
        rw [hj2] at hi1
        cases hi1
      omega
  · rw [if_neg (by rw [hj0]; decide)]
    split <;> omega

theorem headTerminatorAt_append (hfound : headTerminatorAt front = some i) :
    headTerminatorAt (front ++ rest) = some i := by
  obtain ⟨hends, hfirst⟩ := headTerminatorAt_eq_some.mp hfound
  refine headTerminatorAt_eq_some.mpr ⟨endsHeadAt_append hends, fun j hj => ?_⟩
  rw [Bool.eq_false_iff]
  intro hearlier
  have hle : bodyStart (front ++ rest) j ≤ front.length :=
    calc bodyStart (front ++ rest) j
        ≤ bodyStart (front ++ rest) i := bodyStart_mono hearlier (endsHeadAt_append hends) hj
      _ = bodyStart front i := bodyStart_append (lt_length_of_endsHeadAt hends)
      _ ≤ front.length := bodyStart_le hends
  have hfront := endsHeadAt_of_append hearlier hle
  rw [hfirst j hj] at hfront
  cases hfront

theorem length_lt_of_headTerminatorAt (hnone : headTerminatorAt front = none)
    (hfound : headTerminatorAt (front ++ rest) = some i) :
    front.length < bodyStart (front ++ rest) i := by
  by_contra hwithin
  have hends := endsHeadAt_of_append (headTerminatorAt_eq_some.mp hfound).1 (Nat.not_lt.mp hwithin)
  rw [headTerminatorAt_eq_none.mp hnone i] at hends
  cases hends

theorem parseHead_append {maxBody : Int32} (hi : i < front.length) :
    parseHead (front ++ rest) i maxBody = parseHead front i maxBody := by
  unfold parseHead
  rw [List.take_append_of_le_length (Nat.le_of_lt hi), bodyStart_append hi]

end

end Httpd

end MoonBoofuzz
