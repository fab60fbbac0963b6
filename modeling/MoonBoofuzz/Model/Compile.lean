import MoonBoofuzz.Model.Render

namespace MoonBoofuzz

/-! The entry table under construction. -/

structure Draft where
  entries : List Entry
  paths : List (Text × Nat)

def validName (name : Text) : Bool :=
  decide (name ≠ [] ∧ Text.dot ∉ name ∧ Text.slash ∉ name ∧ Text.plus ∉ name)

def childPath (scope name : Text) : Text :=
  if scope = [] then name else scope ++ Text.dot :: name

/-- The checks of a repeat; both bounds are non-negative, so their difference
does not overflow. -/
def repeatKind (target : Text) (min max step : Int32)
    (variableName : Option Text) : Except ModelError EntryKind :=
  if h : 0 ≤ min.toInt ∧ min.toInt ≤ max.toInt ∧ 0 < step.toInt then
    if hcount : (max.toInt.toNat - min.toInt.toNat) / step.toInt.toNat <
        2147483647 then
      .ok (.repetition target {
        min := min.toInt.toNat
        max := max.toInt.toNat
        step := step.toInt.toNat
        min_le := by omega
        max_lt := by have := max.toInt_lt; omega
        step_pos := by omega
        step_lt := by have := step.toInt_lt; omega
        count_lt := hcount } variableName)
    else .error (.invalidText "repeat count overflow")
  else .error (.invalidText "invalid repeat range or step")

namespace Node

/-- The kind a node is registered with; a block starts without children. -/
def entryKind : Node → Except ModelError EntryKind
  | .leaf _ field => .ok (.atom field)
  | .dynamic _ variableName field => .ok (.dynamic field variableName)
  | .nested _ => .ok (.container [])
  | .sized _ spec => .ok (.computedSize spec)
  | .checksummed _ spec => .ok (.computedChecksum spec)
  | .mirrored _ target => .ok (.mirror target)
  | .repeated _ target min max step variableName =>
      repeatKind target min max step variableName

def condition : Node → Option Condition
  | .nested block => block.condition
  | _ => none

def alignment : Node → Option Alignment
  | .nested block => block.alignment
  | _ => none

def group : Node → Option Text
  | .nested block => block.group
  | _ => none

end Node

/-- The part of `add_node` before it visits children: the checks, the path and
the new entry. -/
def registerNode (node : Node) (scope : Text) (parent : Option Nat) (depth : Nat)
    (draft : Draft) : Except ModelError Draft :=
  if ¬ depth ≤ 256 then .error (.invalidText "nesting depth exceeds 256")
  else if ¬ validName node.name then
    .error (.invalid (Text.ofAscii "invalid name: " ++ node.name))
  else
    let path := childPath scope node.name
    if (draft.paths.lookup path).isSome then
      .error (.invalid (Text.ofAscii "duplicate path: " ++ path))
    else do
      let kind ← node.entryKind
      .ok {
        entries := draft.entries ++ [{
          path := path
          parent := parent
          kind := kind
          condition := node.condition
          alignment := node.alignment
          group := node.group }]
        paths := draft.paths ++ [(path, draft.entries.length)] }

def Draft.setChildren (draft : Draft) (index : Nat) (children : List Nat) :
    Draft :=
  { draft with
    entries := draft.entries.modify index fun entry =>
      { entry with kind := .container children } }

mutual
def addNode (scope : Text) (parent : Option Nat) (depth : Nat) (draft : Draft) :
    Node → Except ModelError (Nat × Draft)
  | .nested (.mk name children condition alignment group) => do
      let index := draft.entries.length
      let registered ← registerNode
        (.nested (.mk name children condition alignment group))
        scope parent depth draft
      let (indices, filled) ← addChildren (childPath scope name) (some index)
        (depth + 1) registered children
      .ok (index, filled.setChildren index indices)
  | .leaf name field => do
      let registered ← registerNode (.leaf name field) scope parent depth draft
      .ok (draft.entries.length, registered)
  | .repeated name target min max step variableName => do
      let registered ← registerNode
        (.repeated name target min max step variableName)
        scope parent depth draft
      .ok (draft.entries.length, registered)
  | .sized name spec => do
      let registered ← registerNode (.sized name spec) scope parent depth draft
      .ok (draft.entries.length, registered)
  | .checksummed name spec => do
      let registered ← registerNode (.checksummed name spec)
        scope parent depth draft
      .ok (draft.entries.length, registered)
  | .mirrored name target => do
      let registered ← registerNode (.mirrored name target)
        scope parent depth draft
      .ok (draft.entries.length, registered)
  | .dynamic name variableName field => do
      let registered ← registerNode (.dynamic name variableName field)
        scope parent depth draft
      .ok (draft.entries.length, registered)

def addChildren (scope : Text) (parent : Option Nat) (depth : Nat)
    (draft : Draft) : List Node → Except ModelError (List Nat × Draft)
  | [] => .ok ([], draft)
  | node :: rest => do
      let (index, added) ← addNode scope parent depth draft node
      let (indices, filled) ← addChildren scope parent depth added rest
      .ok (index :: indices, filled)
end

def unknownPath (path : Text) : ModelError :=
  .invalid (Text.ofAscii "unknown path: " ++ path)

def entryAt (entries : List Entry) (index : Nat) : Entry :=
  entries.getD index CompiledRequest.noEntry

def resolveGroups (draft : Draft) :
    List Entry → Nat → Except ModelError (List (Nat × Nat))
  | [], _ => .ok []
  | entry :: rest, i =>
      match entry.group with
      | none => resolveGroups draft rest (i + 1)
      | some target =>
          match draft.paths.lookup target with
          | none => .error (unknownPath target)
          | some group =>
              match (entryAt draft.entries group).kind with
              | .atom _ => do
                  let others ← resolveGroups draft rest (i + 1)
                  .ok ((i, group) :: others)
              | _ => .error (.invalidText "group target must be a field")

/-- `build_case_seq`, with a bound on its recursion depth. -/
def buildCaseSeq (entries : List Entry) (groups : List (Nat × Nat)) :
    Nat → Nat → Run CaseSeq
  | 0, _ => .pending
  | fuel + 1, index =>
      match (entryAt entries index).kind with
      | .container children => do
          let parts ← children.mapM (buildCaseSeq entries groups fuel)
          let inner := CaseSeq.sequence parts
          match groups.lookup index with
          | some group => .done (.sequence [inner, .product group inner])
          | none => .done inner
      | .mirror _ => .done (.sequence [])
      | kind => if 0 < kind.count then .done (.plain index) else .done (.sequence [])

namespace CompiledRequest

def checkRepeat (request : CompiledRequest) (entry : Entry) :
    Except ModelError Unit :=
  match entry.kind with
  | .repetition path _ _ => do
      let target ← request.resolve path
      let current ← request.resolve entry.path
      if (request.kind target).isContainer ∧ target < current ∧
          ¬ entry.path.hasPrefix (path ++ [Text.dot]) then
        .ok ()
      else
        .error (.invalidText "repeat target must be a completed preceding block")
  | _ => .ok ()

def checkCondition (request : CompiledRequest) (entry : Entry) :
    Except ModelError Unit :=
  match entry.condition with
  | none => .ok ()
  | some condition => do
      let target ← request.resolve condition.path
      match request.kind target with
      | .atom _ | .dynamic _ _ => .ok ()
      | _ => .error (.invalidText "condition target must be a field")

/-- A mirror may not live inside its target's subtree. -/
def checkMirror (request : CompiledRequest) (entry : Entry) :
    Except ModelError Unit :=
  match entry.kind with
  | .mirror target => do
      let targetIndex ← request.resolve target
      let above := match entry.parent with
        | none => []
        | some parent => request.ancestry parent
      if targetIndex ∈ above then
        .error (.invalidText "mirror target contains the mirror")
      else .ok ()
  | _ => .ok ()

def checkReferences (request : CompiledRequest) :
    List Entry → Except ModelError Unit
  | [] => .ok ()
  | entry :: rest => do
      checkRepeat request entry
      checkCondition request entry
      checkMirror request entry
      checkReferences request rest

structure Trail where
  output : List Nat
  visited : List Nat

/-- Collects the entries of one derived kind that a target reaches through
blocks and repeats. -/
def dependencies (request : CompiledRequest) (collects : EntryKind → Bool) :
    Nat → Nat → Trail → Run Trail
  | 0, _, _ => .pending
  | fuel + 1, index, trail =>
      if index ∈ trail.visited then .done trail
      else
        let trail := { trail with visited := index :: trail.visited }
        if collects (request.kind index) then
          .done { trail with output := trail.output ++ [index] }
        else
          match request.kind index with
          | .container children =>
              children.foldlM
                (fun trail child => dependencies request collects fuel child trail)
                trail
          | .repetition path _ _ => do
              let target ← request.resolve path
              dependencies request collects fuel target trail
          | _ => .done trail

def sizeDependencies (request : CompiledRequest) (fuel target : Nat) :
    Run (List Nat) := do
  let trail ← dependencies request EntryKind.isSize fuel target ⟨[], []⟩
  .done trail.output

def checksumDependencies (request : CompiledRequest) (fuel target : Nat) :
    Run (List Nat) := do
  let trail ← dependencies request EntryKind.isChecksum fuel target ⟨[], []⟩
  .done trail.output

/-- The dependencies of entry `i` on others; a dependency on itself must pass
`selfCheck`. -/
def dependencyEdges (i : Nat) (selfCheck : Except ModelError Unit) :
    List Nat → Except ModelError (List Nat)
  | [] => .ok []
  | dependency :: rest =>
      if dependency ≠ i then do
        let others ← dependencyEdges i selfCheck rest
        .ok (dependency :: others)
      else do
        selfCheck
        dependencyEdges i selfCheck rest

inductive VisitState where
  | unvisited
  | visiting
  | visited
  deriving Repr, DecidableEq

/-- `visit_dependencies`; the budget is 257 less the depth of the call. -/
def visitDependencies (edges : List (List Nat)) :
    Nat → Nat → List VisitState → Except ModelError (List VisitState)
  | 0, _, _ => .error (.invalidText "derived dependency depth exceeds 256")
  | budget + 1, index, states =>
      match states.getD index .unvisited with
      | .visited => .ok states
      | .visiting => .error (.invalidText "derived field dependency cycle")
      | .unvisited => do
          let states ← (edges.getD index []).foldlM
            (fun states target => visitDependencies edges budget target states)
            (states.set index .visiting)
          .ok (states.set index .visited)

def visitAll (edges : List (List Nat)) (count : Nat) :
    Except ModelError (List VisitState) :=
  (List.range count).foldlM
    (fun states i => visitDependencies edges 257 i states)
    (List.replicate count .unvisited)

def sizeSelfCheck (entry : Entry) (spec : SizeSpec) : Except ModelError Unit :=
  if spec.ascii then
    .error (.invalidText "ascii size must not be contained in its target")
  else if ¬ entry.path.hasPrefix (spec.target ++ [Text.dot]) then
    .error (.invalidText "indirect self size dependency")
  else .ok ()

def entrySizeEdges (request : CompiledRequest) (fuel : Nat) (entry : Entry)
    (i : Nat) : Run (List Nat) :=
  match entry.kind with
  | .computedSize spec => do
      let target ← request.resolve spec.target
      Eval.check (request.kind target).isContainer
        (.invalidText "size target must be a block")
      let found ← sizeDependencies request fuel target
      dependencyEdges i (sizeSelfCheck entry spec) found
  | _ => .done []

def sizeEdges (request : CompiledRequest) (fuel : Nat) :
    List Entry → Nat → Run (List (List Nat))
  | [], _ => .done []
  | entry :: rest, i => do
      let own ← entrySizeEdges request fuel entry i
      let others ← sizeEdges request fuel rest (i + 1)
      .done (own :: others)

/-- Every size field is computed once, without replacements or variables. -/
def measureSizes (request : CompiledRequest) (fuel : Nat) :
    List Entry → Run Unit
  | [] => .done ()
  | entry :: rest => do
      match entry.kind with
      | .computedSize spec => do
          let _ ← sizeValue request [] none fuel spec
          measureSizes request fuel rest
      | _ => measureSizes request fuel rest

def validateSizes (request : CompiledRequest) (fuel : Nat) : Run Unit := do
  let edges ← sizeEdges request fuel request.entries 0
  let _ ← visitAll edges request.entries.length
  measureSizes request fuel request.entries

def checksumSelfCheck (entry : Entry) (spec : ChecksumSpec) :
    Except ModelError Unit :=
  if ¬ entry.path.hasPrefix (spec.target ++ [Text.dot]) then
    .error (.invalidText "indirect checksum self dependency")
  else .ok ()

def entryChecksumEdges (request : CompiledRequest) (fuel : Nat) (entry : Entry)
    (i : Nat) : Run (List Nat) :=
  match entry.kind with
  | .computedChecksum spec => do
      let target ← request.resolve spec.target
      Eval.check (request.kind target).isContainer
        (.invalidText "checksum target must be a block")
      let found ← checksumDependencies request fuel target
      dependencyEdges i (checksumSelfCheck entry spec) found
  | _ => .done []

def checksumEdges (request : CompiledRequest) (fuel : Nat) :
    List Entry → Nat → Run (List (List Nat))
  | [], _ => .done []
  | entry :: rest, i => do
      let own ← entryChecksumEdges request fuel entry i
      let others ← checksumEdges request fuel rest (i + 1)
      .done (own :: others)

def validateChecksums (request : CompiledRequest) (fuel : Nat) : Run Unit := do
  let edges ← checksumEdges request fuel request.entries 0
  let _ ← visitAll edges request.entries.length
  .done ()

/-- The part of `compile` before the derived fields are validated. -/
def assemble (root : Block) (maxBytes : Int32) (fuel : Nat) :
    Run CompiledRequest :=
  if hbytes : 0 ≤ maxBytes.toInt then do
    let (_, draft) ← addNode [] none 0 ⟨[], []⟩ (.nested root)
    let groups ← resolveGroups draft draft.entries 0
    let seq ← buildCaseSeq draft.entries groups fuel 0
    let request : CompiledRequest := {
      name := root.name
      entries := draft.entries
      paths := draft.paths
      maxBytes := ⟨maxBytes.toInt.toNat, by have := maxBytes.toInt_lt; omega⟩
      seq := seq }
    checkReferences request request.entries
    .done request
  else .raised (.invalidText "negative request byte limit")

/-- `CompiledRequest::compile`. -/
def compile (root : Block) (maxBytes : Int32) (fuel : Nat) :
    Run CompiledRequest := do
  let request ← assemble root maxBytes fuel
  validateSizes request fuel
  validateChecksums request fuel
  let _ ← render request fuel
  .done request

end CompiledRequest

end MoonBoofuzz
