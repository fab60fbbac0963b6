import MoonBoofuzz.Data.Json
import MoonBoofuzz.Mutation.Stream
import MoonBoofuzz.Session.Graph

namespace MoonBoofuzz

namespace SessionPath

variable {κ : Type}

def names (path : SessionPath κ) : List Text := path.requests.map (·.name)

/-- Only the terminal request mutates; a path has at least one request. -/
def target (path : SessionPath κ) : CompiledRequest :=
  path.requests.getLastD ⟨[], [], [], 0, .sequence []⟩

/-- `prefix`: the requests before the target, rendered from their defaults. -/
def prefixes (path : SessionPath κ) (fuel : Nat) : Run (List Bytes) :=
  path.requests.dropLast.mapM fun request => request.render fuel

def caseId (path : SessionPath κ) (case : MutationCase) : Text :=
  Json.stringify path.names ++ [Text.slash] ++ case.id

end SessionPath

/-- A parsed definition.  Its execution settings take no part in generation. -/
structure ProtocolDefinition (κ : Type) where
  requests : List CompiledRequest
  paths : List (SessionPath κ)

structure GeneratedCase where
  caseId : Text
  path : List Text
  prefixes : List Bytes
  case : MutationCase
  deriving Repr, DecidableEq

structure GenerationResult where
  generated : Nat
  state : EnumerationState
  deriving Repr, DecidableEq

inductive DefinitionError where
  | invalid (message : Text)
  | unsupportedVersion (version : Int)
  deriving Repr, DecidableEq

/-- What `generate` can raise; an error of the caller's callback is known by its
text. -/
inductive GenerateError where
  | model (error : ModelError)
  | definition (error : DefinitionError)
  | emit (message : Text)
  deriving Repr, DecidableEq

namespace ProtocolDefinition

variable {κ σ : Type}

/-- `global_case`. -/
def globalCase (case : MutationCase) (base : Int) :
    Except DefinitionError MutationCase :=
  let ordinal := wrap64 (base + case.ordinal)
  if ordinal ≤ 2147483647 then .ok { case with ordinal := wrap32 ordinal }
  else .error
    (.invalid (Text.ofAscii "global case ordinal exceeds the 32-bit position range"))

def generatedCase (path : SessionPath κ) (base : Int) (case : MutationCase)
    (fuel : Nat) : Eval GenerateError GeneratedCase :=
  match path.prefixes fuel with
  | .pending => .pending
  | .raised error => .raised (.model error)
  | .done prefixes =>
      match globalCase case base with
      | .error error => .raised (.definition error)
      | .ok case' => .done {
          caseId := path.caseId case
          path := path.names
          prefixes := prefixes
          case := case' }

theorem generatedCase_caseId {path : SessionPath κ} {base : Int} {case : MutationCase}
    {item : GeneratedCase} {fuel : Nat}
    (hdone : generatedCase path base case fuel = .done item) :
    item.caseId = path.caseId case := by
  unfold generatedCase at hdone
  split at hdone
  · cases hdone
  · cases hdone
  · split at hdone
    · cases hdone
    · cases hdone
      rfl

/-- How the loop over the cases of one path ends: the stream has none left, or
`generate` returns from within. -/
inductive PathEnd where
  | exhausted (generated : Nat) (stream : CaseStream)
  | returned (result : GenerationResult)

/-- The loop over the cases of one path.  The callback `emit` keeps a state of its
own, which is answered too. -/
def emitCases (emit : σ → GeneratedCase → Except GenerateError Bool × σ)
    (path : SessionPath κ) (base : Int) (limit fuel : Nat) :
    Nat → CaseStream → Nat → σ → Eval GenerateError PathEnd × σ
  | 0, _, _, state => (.pending, state)
  | loops + 1, stream, generated, state =>
      if limit ≤ generated then
        (.done (.returned ⟨generated, .limited⟩), state)
      else
        match stream.next fuel with
        | (.pending, _) => (.pending, state)
        | (.raised error, _) => (.raised (.model error), state)
        | (.done none, after) => (.done (.exhausted generated after), state)
        | (.done (some case), after) =>
            match generatedCase path base case fuel with
            | .pending => (.pending, state)
            | .raised error => (.raised error, state)
            | .done item =>
                match emit state item with
                | (.error error, state) => (.raised error, state)
                | (.ok true, state) =>
                    emitCases emit path base limit fuel loops after (generated + 1) state
                | (.ok false, state) =>
                    (.done (.returned ⟨generated + 1, .stopped⟩), state)

/-- A sequential start offset may lie beyond all the candidates of a path. -/
def skipsPath (mode : CompiledRequest.Mode) (target : CompiledRequest) (skip : Int32) :
    Bool :=
  match mode with
  | .sequential => decide (target.rawMutationCount ≤ skip.toInt)
  | .combinatorial _ => false

/-- What is left of the start offset after the stream of a path. -/
def skipAfter (mode : CompiledRequest.Mode) (stream : CaseStream) : Int32 :=
  match mode with
  | .sequential => 0
  | .combinatorial _ => Int32.ofNat stream.remainingSkip

/-- The ordinal of the first candidate after those of a path. -/
def baseAfter (mode : CompiledRequest.Mode) (target : CompiledRequest) (base : Int)
    (stream : CaseStream) : Int :=
  match mode with
  | .sequential => wrap64 (base + target.rawMutationCount)
  | .combinatorial _ =>
      wrap64 (base + wrap32 ((stream.position : Int) - stream.remainingSkip))

def generatePaths (emit : σ → GeneratedCase → Except GenerateError Bool × σ)
    (mode : CompiledRequest.Mode) (limit fuel : Nat) :
    List (SessionPath κ) → Int32 → Nat → Int → σ →
      Eval GenerateError GenerationResult × σ
  | [], _, generated, _, state => (.done ⟨generated, .exhausted⟩, state)
  | path :: rest, skip, generated, base, state =>
      if skipsPath mode path.target skip then
        generatePaths emit mode limit fuel rest
          (skip - Int32.ofInt path.target.rawMutationCount) generated
          (wrap64 (base + path.target.rawMutationCount)) state
      else
        match path.target.enumerate mode none skip 2147483647 with
        | .error error => (.raised (.model error), state)
        | .ok stream =>
            match emitCases emit path base limit fuel fuel stream generated state with
            | (.pending, state) => (.pending, state)
            | (.raised error, state) => (.raised error, state)
            | (.done (.returned result), state) => (.done result, state)
            | (.done (.exhausted generated after), state) =>
                generatePaths emit mode limit fuel rest (skipAfter mode after) generated
                  (baseAfter mode path.target base after) state

/-- `generate`; the fuel bounds its loops and those of the streams. -/
def generate (definition : ProtocolDefinition κ)
    (emit : σ → GeneratedCase → Except GenerateError Bool × σ) (start limit : Int32)
    (mode : CompiledRequest.Mode) (fuel : Nat) (state : σ) :
    Eval GenerateError GenerationResult × σ :=
  if 0 ≤ start.toInt ∧ 0 ≤ limit.toInt then
    generatePaths emit mode limit.toInt.toNat fuel definition.paths start 0 0 state
  else
    (.raised (.definition
      (.invalid (Text.ofAscii "negative generation start or limit"))), state)

def collect (cases : List GeneratedCase) (case : GeneratedCase) :
    Except GenerateError Bool × List GeneratedCase :=
  (.ok true, cases ++ [case])

/-- The cases that have been emitted when `generate` returns or raises, or after
which it runs on without emitting any other. -/
def Generates (definition : ProtocolDefinition κ) (mode : CompiledRequest.Mode)
    (start : Int32) (cases : List GeneratedCase) : Prop :=
  ∃ enough, ∀ fuel, enough ≤ fuel →
    (definition.generate collect start 2147483647 mode fuel []).2 = cases

theorem Generates.unique {definition : ProtocolDefinition κ}
    {mode : CompiledRequest.Mode} {start : Int32} {cases cases' : List GeneratedCase}
    (hfirst : definition.Generates mode start cases)
    (hsecond : definition.Generates mode start cases') : cases = cases' := by
  obtain ⟨enough, hcases⟩ := hfirst
  obtain ⟨enough', hcases'⟩ := hsecond
  rw [← hcases (max enough enough') (le_max_left _ _),
    hcases' _ (le_max_right _ _)]

end ProtocolDefinition

end MoonBoofuzz
