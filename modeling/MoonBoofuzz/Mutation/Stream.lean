import MoonBoofuzz.Data.Walker
import MoonBoofuzz.Model.Compile

namespace MoonBoofuzz

structure MutationCase where
  id : Text
  requestName : Text
  fieldPath : Text
  mutationIndex : Nat
  ordinal : Int
  payload : Bytes
  /-- Group candidates combined into this case, outer first. -/
  extra : List (Text × Nat)
  deriving Repr, DecidableEq

inductive EnumerationState where
  | running
  | exhausted
  | limited
  | stopped
  deriving Repr, DecidableEq

/-- Mutated entries of a case with their candidate indices, outermost group
first. -/
abbrev Parts := List (Nat × Nat)

/-- One stack frame of the lazy walker over the case sequence.  Sequence frames
track the next child, plain frames the next mutation index, product frames the
current group pass. -/
structure StreamFrame where
  seq : CaseSeq
  child : Nat
  pass : Nat
  walking : Bool

namespace StreamFrame

def new (seq : CaseSeq) : StreamFrame where
  seq := seq
  child := 0
  pass := 0
  walking := false

end StreamFrame

/-- A part of a unit; the flag marks parts contributed by a product's group. -/
structure UnitPart where
  entry : Nat
  index : Nat
  isGroup : Bool
  deriving Repr, DecidableEq

namespace UnitPart

def pair (part : UnitPart) : Nat × Nat := (part.entry, part.index)

end UnitPart

/-- A unit of the base case sequence for combinatorial enumeration; `child` is
the leaf entry whose availability is checked. -/
structure StreamUnit where
  parts : List UnitPart
  child : Nat
  deriving Repr, DecidableEq

/-- One level of the combinatorial walker.  Sibling units are checked against
`incoming`; `acc` keeps growing over them and is what a descent starts from. -/
structure CombFrame where
  unitIndex : Nat
  incoming : List Nat
  acc : List Nat
  parts : List UnitPart
  deriving Repr, DecidableEq

namespace CombFrame

def new : CombFrame where
  unitIndex := 0
  incoming := []
  acc := []
  parts := []

end CombFrame

/-- The combinatorial walker; its frames are kept innermost first.  A stream
takes fewer than `2 ^ 31` cases from it, so `depthEmitted` does not wrap. -/
structure CombState where
  units : List StreamUnit
  maxDepth : Option Int
  depth : Nat
  depthEmitted : Nat
  frames : List CombFrame
  deriving Repr, DecidableEq

/-- Where a stream stands: the stack of the sequential walker, innermost frame
first, or the combinatorial walker. -/
inductive Cursor where
  | sequential (stack : List StreamFrame)
  | combinatorial (state : CombState)

structure CaseStream where
  request : CompiledRequest
  limit : Nat
  skip : Nat
  ordinal : Nat
  emitted : Nat
  state : EnumerationState
  cursor : Cursor
  vars : Option Vars

namespace CompiledRequest

/-- The group candidates that the walking products of a stack contribute,
outermost first. -/
def walkingParts : List StreamFrame → Parts
  | [] => []
  | frame :: rest =>
      match frame.seq, frame.walking with
      | .product group _, true => walkingParts rest ++ [(group, frame.pass)]
      | _, _ => walkingParts rest

/-- One pass of the loop of `find`. -/
def findTurn (request : CompiledRequest) :
    List StreamFrame → Turn (List StreamFrame) Parts
  | [] => .halt []
  | frame :: rest =>
      match frame.seq with
      | .plain entry =>
          if frame.child < (request.kind entry).count then
            .emit (walkingParts rest ++ [(entry, frame.child)])
              ({ frame with child := frame.child + 1 } :: rest)
          else .move rest
      | .sequence children =>
          match children[frame.child]? with
          | some next =>
              .move (.new next :: { frame with child := frame.child + 1 } :: rest)
          | none => .move rest
      | .product group inner =>
          if frame.walking then
            .move ({ frame with walking := false, pass := frame.pass + 1 } :: rest)
          else if frame.pass < (request.kind group).count then
            .move (.new inner :: { frame with walking := true } :: rest)
          else .move rest

mutual
/-- `collect_units`, with the parts of the enclosing products. -/
def collectUnits (request : CompiledRequest) (outer : List UnitPart) :
    CaseSeq → List StreamUnit
  | .plain entry =>
      (List.range (request.kind entry).count).map fun i =>
        { parts := outer ++ [⟨entry, i, false⟩], child := entry }
  | .sequence children => collectAll request outer children
  | .product group inner =>
      (List.range (request.kind group).count).flatMap fun i =>
        collectUnits request (outer ++ [⟨group, i, true⟩]) inner

def collectAll (request : CompiledRequest) (outer : List UnitPart) :
    List CaseSeq → List StreamUnit
  | [] => []
  | child :: rest =>
      collectUnits request outer child ++ collectAll request outer rest
end

/-- Whether the qualified paths of two parts contain one another. -/
def pathsOverlap (request : CompiledRequest) (left right : Nat) : Bool :=
  (request.entry left).path.contains (request.entry right).path ||
    (request.entry right).path.contains (request.entry left).path

def containsDuplicatePaths (request : CompiledRequest) : List UnitPart → Bool
  | [] => false
  | part :: rest =>
      rest.any (fun other => request.pathsOverlap part.entry other.entry) ||
        containsDuplicatePaths request rest

/-- The depth is finished: stop when it produced nothing or is the last one. -/
def finishDepth (state : CombState) : Turn CombState Parts :=
  if state.depthEmitted = 0 ∨ ∃ maximum ∈ state.maxDepth, maximum ≤ state.depth then
    .halt { state with frames := [] }
  else
    .move { state with
      depth := state.depth + 1
      depthEmitted := 0
      frames := [.new] }

/-- One pass of the loops of `comb_step`. -/
def combTurn (request : CompiledRequest) (state : CombState) :
    Turn CombState Parts :=
  match state.frames with
  | [] => .halt state
  | frame :: rest =>
      match state.units[frame.unitIndex]? with
      | none =>
          match rest with
          | [] => finishDepth state
          | _ :: _ => .move { state with frames := rest }
      | some unit =>
          let entered := { frame with unitIndex := frame.unitIndex + 1 }
          if unit.child ∈ frame.incoming then
            .move { state with frames := entered :: rest }
          else if state.frames.length < state.depth then
            let keys := unit.parts.map (·.entry)
            let inner : CombFrame := {
              unitIndex := 0
              incoming := frame.acc ++ keys
              acc := frame.acc ++ keys
              parts := frame.parts ++ unit.parts }
            .move { state with
              frames := inner :: { entered with acc := frame.acc ++ keys } :: rest }
          else if request.containsDuplicatePaths (frame.parts ++ unit.parts) then
            .move { state with frames := entered :: rest }
          else
            .emit ((frame.parts ++ unit.parts).map (·.pair))
              { state with
                depthEmitted := state.depthEmitted + 1
                frames := entered :: rest }

def lift (wrap : σ → Cursor) : Turn σ Parts → Turn Cursor Parts
  | .emit parts state => .emit parts (wrap state)
  | .move state => .move (wrap state)
  | .halt state => .halt (wrap state)

def cursorTurn (request : CompiledRequest) : Cursor → Turn Cursor Parts
  | .sequential stack => lift .sequential (findTurn request stack)
  | .combinatorial state => lift .combinatorial (combTurn request state)

def partKey (request : CompiledRequest) (part : Nat × Nat) : Text :=
  (request.entry part.1).path ++ [Text.colon] ++ Text.decimal part.2

def caseId (request : CompiledRequest) (parts : Parts) : Text :=
  Text.ofAscii "v1:" ++ Text.join [Text.plus] (parts.map request.partKey)

def partReplacements (request : CompiledRequest) (parts : Parts) : Replacements :=
  parts.map fun part => (part.1, (request.kind part.1).candidate part.2)

/-- The named parts of a case other than its leaf. -/
def extraParts (request : CompiledRequest) (leaf : Nat × Nat) (parts : Parts) :
    List (Text × Nat) :=
  (parts.filter fun part => part ≠ leaf).map fun part =>
    ((request.entry part.1).path, part.2)

/-- An oversized leaf is refused before its candidate is built. -/
def checkLeaf (request : CompiledRequest) (leaf : Nat × Nat) : Run Unit :=
  match request.kind leaf.1 with
  | .atom field =>
      Eval.check (field.candidateLength leaf.2 ≤ request.maxBytes.val)
        (.limitText "field mutation exceeds request byte limit before allocation")
  | _ => .done ()

/-- `build_case`; the walkers never hand it an empty list of parts. -/
def buildCase (request : CompiledRequest) (vars : Option Vars) (ordinal : Nat)
    (parts : Parts) (fuel : Nat) : Run MutationCase := do
  let leaf := parts.getLastD (0, 0)
  checkLeaf request leaf
  let payload ← renderNode request (request.partReplacements parts) vars fuel (0, [])
  .done {
    id := request.caseId parts
    requestName := request.name
    fieldPath := (request.entry leaf.1).path
    mutationIndex := leaf.2
    ordinal := ordinal
    payload := payload
    extra := request.extraParts leaf parts }

def negativeStart : ModelError := .invalidText "negative enumeration start/limit"

def stream (request : CompiledRequest) (cursor : Cursor) (vars : Option Vars)
    (start limit : Int32) : Except ModelError CaseStream :=
  if 0 ≤ start.toInt ∧ 0 ≤ limit.toInt then
    .ok {
      request := request
      limit := limit.toInt.toNat
      skip := start.toInt.toNat
      ordinal := start.toInt.toNat
      emitted := 0
      state := .running
      cursor := cursor
      vars := vars }
  else .error negativeStart

def sequentialCursor (request : CompiledRequest) : Cursor :=
  .sequential [.new request.seq]

def combinatorialCursor (request : CompiledRequest) (maxDepth : Option Int) :
    Cursor :=
  .combinatorial {
    units := collectUnits request [] request.seq
    maxDepth := maxDepth
    depth := 1
    depthEmitted := 0
    frames := [.new] }

/-- `cases` and `cases_with_variables`. -/
def cases (request : CompiledRequest) (vars : Option Vars) (start limit : Int32) :
    Except ModelError CaseStream :=
  request.stream request.sequentialCursor vars start limit

/-- `combinatorial_cases_with_variables`, and `combinatorial_cases` with no
variables. -/
def combinatorialCases (request : CompiledRequest) (vars : Option Vars)
    (start limit : Int32) (maxDepth : Option Int) : Except ModelError CaseStream :=
  request.stream (request.combinatorialCursor maxDepth) vars start limit

inductive Mode where
  | sequential
  | combinatorial (maxDepth : Option Int)

def initialCursor (request : CompiledRequest) : Mode → Cursor
  | .sequential => request.sequentialCursor
  | .combinatorial maxDepth => request.combinatorialCursor maxDepth

def enumerate (request : CompiledRequest) (mode : Mode) (vars : Option Vars)
    (start limit : Int32) : Except ModelError CaseStream :=
  match mode with
  | .sequential => request.cases vars start limit
  | .combinatorial maxDepth => request.combinatorialCases vars start limit maxDepth

mutual
def seqCount (request : CompiledRequest) : CaseSeq → Int
  | .plain entry => (request.kind entry).count
  | .sequence children => seqTotal request 0 children
  | .product group inner =>
      wrap64 ((request.kind group).count * seqCount request inner)

def seqTotal (request : CompiledRequest) (total : Int) : List CaseSeq → Int
  | [] => total
  | child :: rest =>
      seqTotal request (wrap64 (total + seqCount request child)) rest
end

def rawMutationCount (request : CompiledRequest) : Int :=
  request.seqCount request.seq

end CompiledRequest

namespace CaseStream

/-- The loop that passes over the start offset; it answers with the skips that
are left, zero unless the walker ended first. -/
def skipAhead (request : CompiledRequest) (fuel : Nat) :
    Nat → Cursor → Run (Nat × Cursor)
  | 0, cursor => .done (0, cursor)
  | skip + 1, cursor => do
      let (found, next) ← Walker.seek request.cursorTurn fuel cursor
      match found with
      | none => .done (skip + 1, next)
      | some _ => skipAhead request fuel skip next

/-- The loop that emits one case: candidates above the byte budget only advance
the ordinal.  An error stops the stream. -/
def emitNext (fuel : Nat) : Nat → CaseStream → Run (Option MutationCase) × CaseStream
  | 0, stream => (.pending, stream)
  | loops + 1, stream =>
      if stream.ordinal < 2147483647 then
        match Walker.seek stream.request.cursorTurn fuel stream.cursor with
        | .pending => (.pending, stream)
        | .raised error => (.raised error, { stream with state := .stopped })
        | .done (none, next) =>
            (.done none, { stream with cursor := next, state := .exhausted })
        | .done (some parts, next) =>
            match stream.request.buildCase stream.vars stream.ordinal parts fuel with
            | .pending => (.pending, stream)
            | .raised (.limit _) =>
                emitNext fuel loops
                  { stream with cursor := next, ordinal := stream.ordinal + 1 }
            | .raised (.invalid message) =>
                (.raised (.invalid message),
                  { stream with cursor := next, state := .stopped })
            | .done case =>
                (.done (some case),
                  { stream with
                    cursor := next
                    ordinal := stream.ordinal + 1
                    emitted := stream.emitted + 1 })
      else
        (.raised (.limitText "case ordinal overflow"),
          { stream with state := .stopped })

/-- `next`: the answer of a call and the stream after it. -/
def next (fuel : Nat) (stream : CaseStream) :
    Run (Option MutationCase) × CaseStream :=
  if stream.state = .running then
    match skipAhead stream.request fuel stream.skip stream.cursor with
    | .pending => (.pending, stream)
    | .raised error => (.raised error, { stream with state := .stopped })
    | .done (left, cursor) =>
        let moved := { stream with skip := left, cursor := cursor }
        if 0 < left then (.done none, { moved with state := .exhausted })
        else if moved.emitted < moved.limit then emitNext fuel fuel moved
        else (.done none, { moved with state := .limited })
  else (.done none, stream)

/-- The next raw candidate position, including oversized skipped candidates. -/
def position (stream : CaseStream) : Nat := stream.ordinal

/-- Cases not yet consumed from the start offset. -/
def remainingSkip (stream : CaseStream) : Nat := stream.skip

end CaseStream

/-- All mutated parts of a case by name, outermost first. -/
def MutationCase.parts (case : MutationCase) : List (Text × Nat) :=
  case.extra ++ [(case.fieldPath, case.mutationIndex)]

end MoonBoofuzz
