import MoonBoofuzz.Data.Machine
import MoonBoofuzz.Records.Record

namespace MoonBoofuzz

/-! Writing only the last passing cases before each failure. -/

def passedName : Text := Text.ofAscii "passed"

structure ThrottledWriter where
  /-- The records of the file. -/
  written : List CaseRecord
  buffer : List CaseRecord
  keep : Int
  currentOrdinal : Int
  failDetected : Bool
  firstCase : Bool

namespace ThrottledWriter

/-- `ThrottledWriter::new`, over an empty file. -/
def new (keep : Int) : ThrottledWriter where
  written := []
  buffer := []
  keep := keep
  currentOrdinal := 0
  failDetected := false
  firstCase := true

def retained (writer : ThrottledWriter) : List CaseRecord :=
  if 0 < writer.keep then
    writer.buffer.dropWhile fun record =>
      writer.keep ≤ wrap32 (writer.currentOrdinal - record.ordinal)
  else writer.buffer

def flush (writer : ThrottledWriter) (force : Bool) : ThrottledWriter :=
  if writer.buffer = [] then writer
  else if force ∨ writer.keep ≤ 0 ∨ writer.failDetected ∨ writer.firstCase then
    { writer with
      written := writer.written ++ writer.retained
      buffer := []
      failDetected := false
      firstCase := false }
  else { writer with buffer := writer.retained }

def push (writer : ThrottledWriter) (record : CaseRecord) : ThrottledWriter :=
  { writer with
    buffer := writer.buffer ++ [record]
    currentOrdinal := record.ordinal
    failDetected := writer.failDetected || decide (record.outcome ≠ passedName) }

def append (writer : ThrottledWriter) (record : CaseRecord) : ThrottledWriter :=
  (writer.push record).flush false

def closeTest (writer : ThrottledWriter) : ThrottledWriter :=
  writer.flush true

end ThrottledWriter

end MoonBoofuzz
