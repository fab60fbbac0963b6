import MoonBoofuzz.Data.Grid
import MoonBoofuzz.Fields.Checked

namespace MoonBoofuzz

/-! Binary fields: fixed repetitions, the magic values, and every window of the value
overwritten by each replacement of its width. -/

def magicBytes : List Bytes :=
  [[0x00, 0x00, 0x81, 0x23], [0x00, 0xfa, 0xca, 0xde], [0x1b, 0xad, 0xb0, 0x02],
   [0x8b, 0xad, 0xf0, 0x0d], [0xa5, 0xa5, 0xa5, 0xa5], [0xa5], [0xab, 0xab, 0xab, 0xab],
   [0xab, 0xad, 0xba, 0xbe], [0xab, 0xba, 0xba, 0xbe], [0xab, 0xad, 0xca, 0xfe],
   [0xb1, 0x6b, 0x00, 0xb5], [0xba, 0xad, 0xf0, 0x0d], [0xba, 0xaa, 0xaa, 0xad],
   [0xba, 0xd2, 0x22, 0x22], [0xba, 0xdb, 0xad, 0xba, 0xdb, 0xad],
   [0xba, 0xdc, 0x0f, 0xfe, 0xe0, 0xdd, 0xf0, 0x0d], [0xba, 0xdd, 0xca, 0xfe],
   [0xbb, 0xad, 0xbe, 0xef], [0xbe, 0xef, 0xca, 0xce], [0xc0, 0x00, 0x10, 0xff],
   [0xca, 0xfe, 0xba, 0xbe], [0xca, 0xfe, 0xd0, 0x0d], [0xca, 0xfe, 0xfe, 0xed],
   [0xcc, 0xcc, 0xcc, 0xcc], [0xcd, 0xcd, 0xcd, 0xcd], [0x0d, 0x15, 0xea, 0x5e],
   [0xdd, 0xdd, 0xdd, 0xdd], [0xde, 0xad, 0x10, 0xcc], [0xde, 0xad, 0xba, 0xbe],
   [0xde, 0xad, 0xbe, 0xef], [0xde, 0xad, 0xca, 0xfe], [0xde, 0xad, 0xc0, 0xde],
   [0xde, 0xad, 0xfa, 0x11], [0xde, 0xad, 0xf0, 0x0d], [0xde, 0xfe, 0xc8, 0xed],
   [0xde, 0xad, 0xde, 0xad], [0xeb, 0xeb, 0xeb, 0xeb], [0xfa, 0xde, 0xde, 0xad],
   [0xfd, 0xfd, 0xfd, 0xfd], [0xfe, 0xe1, 0xde, 0xad], [0xfe, 0xed, 0xfa, 0xce],
   [0xfe, 0xee, 0xfe, 0xee]]

def byteReplacements (width : Nat) : List Bytes :=
  let values : List Bytes :=
    if width = 1 then [[0x00], [0x01], [0x7f], [0x80], [0xff]]
    else if width = 2 then
      [[0x00, 0x00], [0x01, 0x00], [0x00, 0x01], [0x7f, 0xff], [0xff, 0x7f], [0xfe, 0xff],
       [0xff, 0xfe], [0xff, 0xff]]
    else
      [[0x00, 0x00, 0x00, 0x00], [0x00, 0x00, 0x00, 0x01], [0x01, 0x00, 0x00, 0x00],
       [0x7f, 0xff, 0xff, 0xff], [0xff, 0xff, 0xff, 0x7f], [0xfe, 0xff, 0xff, 0xff],
       [0xff, 0xff, 0xff, 0xfe], [0xff, 0xff, 0xff, 0xff]]
  values ++ magicBytes.filter fun item => item.length = width

def windowWidths : List Nat := [1, 2, 4]

def fixedCount : Nat := 12 + magicBytes.length

structure BinaryOptions where
  size : Option Int := none
  maxLen : Option Int := none
  padding : Bytes := [0x00]
  fuzzable : Bool := true
  fuzzValues : List Bytes := []

namespace BinaryOptions

/-- Size and length limits adjust mutations only. -/
def adjust (options : BinaryOptions) (candidate : Bytes) : Bytes :=
  match options.size with
  | some n =>
      if (candidate.length : Int) > n then candidate.take n.toNat
      else candidate ++ Bytes.repeatTimes options.padding (n - candidate.length)
  | none =>
      match options.maxLen with
      | some n => if (candidate.length : Int) > n then candidate.take n.toNat else candidate
      | none => candidate

end BinaryOptions

namespace CheckedField

def addWindows (value : Bytes) (count : Int) (width : Nat) : Flagged Int := do
  let left ← Flagged.sub32 value.length width
  let positions ← Flagged.add32 left 1
  let windows ← Flagged.mul32 (max positions 0) (byteReplacements width).length
  Flagged.add32 count windows

def binaryCount (value : Bytes) : Flagged Int := do
  let fixed ← Flagged.add32 12 magicBytes.length
  windowWidths.foldlM (addWindows value) fixed

/-- The window of a flat index, as width, position and place in the library; none falls
through. -/
def decodeWindow (value : Bytes) : List Nat → Nat → Option (Nat × Nat × Nat)
  | [], _ => none
  | width :: rest, offset =>
      let library := byteReplacements width
      let windows := (value.length + 1 - width) * library.length
      if offset < windows then
        some (width, offset / library.length, offset % library.length)
      else decodeWindow value rest (offset - windows)

def overwrite? (value : Bytes) (window : Nat × Nat × Nat) : Option Bytes :=
  let (width, position, place) := window
  if position + width ≤ value.length then
    (byteReplacements width)[place]?.map fun item =>
      value.take position ++ item ++ value.drop (position + width)
  else none

/-- `Bytes::makei` of the value's own bytes, over and over. -/
def cycle? (value : Bytes) (length : Int) : Option Bytes :=
  if length ≤ 0 then some []
  else if value.isEmpty then none
  else some ((List.range length.toNat).map fun i => value.getD (i % value.length) 0)

def binaryRaw? (value : Bytes) (options : BinaryOptions) (index : Nat) : Option Bytes :=
  if index < 9 then
    if index = 0 then some []
    else if index = 1 then some [0x00]
    else if index = 2 then some [0xff]
    else [10, 100, 1000, 5000, 10000, 100000][index - 3]?.map fun n =>
      Bytes.repeatTimes [0x41] n
  else if index < 12 then do
    let times ← [2, 10, 100][index - 9]?
    let rawLength := wrap32 (value.length * times)
    let cap := options.size.getD (options.maxLen.getD rawLength)
    cycle? value (min rawLength cap)
  else if index < fixedCount then magicBytes[index - 12]?
  else
    match decodeWindow value windowWidths (index - fixedCount) with
    | some window => overwrite? value window
    | none => some value

def binaryRawLength (value : Bytes) (index : Nat) : Flagged (Option Int) :=
  if index < 9 then pure [0, 1, 1, 10, 100, 1000, 5000, 10000, 100000][index]?
  else if index < 12 then
    match [2, 10, 100][index - 9]? with
    | some times => do
        let length ← Flagged.mul32 value.length times
        pure (some length)
    | none => pure none
  else if index < fixedCount then pure (lengthAt? magicBytes (index - 12 : Nat))
  else pure (some value.length)

def binaryLength (value : Bytes) (options : BinaryOptions) (index : Nat) :
    Flagged (Option Int) := do
  let raw ← binaryRawLength value index
  pure (raw.map fun raw =>
    match options.size with
    | some n => n
    | none =>
        match options.maxLen with
        | some n => min raw n
        | none => raw)

def binaryBase (value : Bytes) (options : BinaryOptions) (count : Int) : CheckedField :=
  { value := value
    count := if options.fuzzable then count else 0
    candidate := fun index => (binaryRaw? value options index).map options.adjust
    candidateLength := binaryLength value options }

def binary (value : Bytes) (options : BinaryOptions := {}) :
    Except ModelError (Flagged CheckedField) :=
  if options.padding.length ≠ 1 then .error (.invalidText "binary padding must be one byte")
  else if [options.size, options.maxLen].any fun limit => limit.any fun n => n < 0 then
    .error (.invalidText "negative byte length")
  else if value.length > 20000000 then .error (.invalidText "binary field too large")
  else .ok do
    let count ← binaryCount value
    (binaryBase value options count).withFuzzValues options.fuzzValues options.fuzzable

end CheckedField

end MoonBoofuzz
