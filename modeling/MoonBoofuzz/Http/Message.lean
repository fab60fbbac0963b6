import Mathlib.Data.List.DropRight
import MoonBoofuzz.Data.Text

namespace MoonBoofuzz

/-! Raw HTTP requests as their segments. -/

inductive HttpGenError where
  | invalid (message : Text)
  deriving Repr, DecidableEq

structure HttpHeader where
  name : Text
  /-- What stands between the colon and the value. -/
  gap : Text
  value : Text
  deriving Repr, DecidableEq

structure HttpMessage where
  verb : Text
  uri : Text
  version : Text
  headers : List HttpHeader
  body : Text
  hasBody : Bool
  finalEol : Bool
  eol : Text
  terminator : Option Text
  deriving Repr, DecidableEq

namespace HttpMessage

def httpgenLimit : Nat := 65536

def invalid {α : Type} (message : String) : Except HttpGenError α :=
  .error (.invalid (Text.ofAscii message))

def terminatorAt (source : Text) (i : Nat) : Option Nat :=
  if source[i]? = some 13 ∧ source[i + 1]? = some 10 ∧ source[i + 2]? = some 13 ∧
      source[i + 3]? = some 10 then some 4
  else if source[i]? = some 10 ∧ source[i + 1]? = some 10 then some 2
  else none

/-- The place of the earliest head terminator, with its length. -/
def findTerminator (source : Text) : Option (Nat × Nat) :=
  (List.range (source.length - 1)).findSome? fun i =>
    (terminatorAt source i).map fun skip => (i, skip)

def stripCr (line : Text) : Text :=
  if line.getLast? = some 13 then line.dropLast else line

def isOws (unit : UInt16) : Bool := decide (unit = 32 ∨ unit = 9)

def stripTrailingOws (text : Text) : Text := text.rdropWhile isOws

def splitHeader (line : Text) : Except HttpGenError HttpHeader :=
  match line.idxOf? Text.colon with
  | none => .error (.invalid (Text.ofAscii "header line is missing a colon: " ++ line))
  | some colon =>
      let name := stripTrailingOws (line.take colon)
      if name = [] then invalid "header name is empty"
      else if name.head?.any isOws then
        .error (.invalid (Text.ofAscii "header name starts with whitespace: " ++ line))
      else
        let rest := line.drop (colon + 1)
        .ok {
          name := name
          gap := rest.takeWhile isOws
          value := stripTrailingOws (rest.dropWhile isOws) }

def splitHeaders : List Text → Except HttpGenError (List HttpHeader)
  | [] => .ok []
  | line :: rest => do
      let header ← splitHeader (stripCr line)
      let headers ← splitHeaders rest
      .ok (header :: headers)

/-- What is left of the text around its terminator: the head, the terminator and the
body. -/
def sections (source : Text) : Text × Option Text × Text :=
  match findTerminator source with
  | some (headEnd, skip) =>
      (source.take headEnd, some ((source.drop headEnd).take skip), source.drop (headEnd + skip))
  | none => (source, none, [])

def requestLine (line : Text) : Except HttpGenError (Text × Text × Text) :=
  match line.splitOn 32 with
  | [verb, uri, version] =>
      if verb ≠ [] ∧ uri ≠ [] ∧ version ≠ [] then .ok (verb, uri, version)
      else invalid "request line has an empty token"
  | _ => invalid "request line must be METHOD SP URI SP HTTP-VERSION with single spaces"

/-- `HttpMessage::parse`. -/
def parse (source : Text) : Except HttpGenError HttpMessage :=
  if source.length ≤ httpgenLimit then
    let (head, terminator, body) := sections source
    let rawLines := head.splitOn 10
    -- A trailing newline leaves one empty element at the end.
    let finalEol := decide (rawLines.getLast? = some [])
    let lines := if finalEol then rawLines.dropLast else rawLines
    match lines with
    | [] => invalid "request line is empty"
    | first :: rest => do
        let (verb, uri, version) ← requestLine (stripCr first)
        let headers ← splitHeaders rest
        .ok {
          verb := verb
          uri := uri
          version := version
          headers := headers
          body := body
          hasBody := terminator.isSome
          finalEol := finalEol
          eol := Text.ofAscii (if head.contains (Text.ofAscii "\r") then "\r\n" else "\n")
          terminator := terminator }
  else invalid "HTTP message exceeds the 64 KiB input limit"

end HttpMessage

end MoonBoofuzz
