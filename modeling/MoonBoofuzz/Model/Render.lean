import MoonBoofuzz.Model.Measure

namespace MoonBoofuzz

namespace CompiledRequest

/-! Rendering.  The active chain of a call holds the mirrors and checksums that
are being rendered around it. -/

def renderChildren (maxBytes : Int) (overflow : ModelError)
    (recur : Nat → Run Bytes) : List Nat → Bytes → Run Bytes
  | [], output => .done output
  | child :: rest, output => do
      let bytes ← recur child
      Eval.check ((bytes.length : Int) ≤ maxBytes - output.length) overflow
      renderChildren maxBytes overflow recur rest (output ++ bytes)

def alignmentPadding (alignment : Alignment) (length : Nat) : Bytes :=
  (List.range (alignment.modulus - length % alignment.modulus)).map fun i =>
    alignment.pattern.getD (i % alignment.pattern.length) 0

def renderPadding (maxBytes : Int) (alignment : Option Alignment)
    (output : Bytes) : Run Bytes :=
  match alignment with
  | none => .done output
  | some alignment => do
      let padding := alignmentPadding alignment output.length
      Eval.check ((padding.length : Int) ≤ maxBytes - output.length)
        (.limitText "aligned block exceeds byte limit")
      .done (output ++ padding)

section

variable (request : CompiledRequest) (replacements : Replacements)
  (vars : Option Vars)

def byteLimit (index : Nat) : ModelError :=
  .limit (Text.ofAscii "request byte limit: " ++ (request.entry index).path)

def renderKind (sizes : SizeSpec → Run Bytes) (recur : Call → Run Bytes)
    (index : Nat) (active : List Nat) : EntryKind → Run Bytes
  | .computedChecksum spec =>
      if index ∈ active then .done (Bytes.zeros spec.algorithm.length)
      else do
        let target ← request.resolve spec.target
        let bytes ← recur (target, active ++ [index])
        .done (spec.algorithm.render bytes spec.endian)
  | .computedSize spec => sizes spec
  | .mirror target =>
      if index ∈ active then .done []
      else do
        let inner ← request.resolve target
        recur (inner, active ++ [index])
  | .repetition path _ variableName => do
      let count ← repeatCount replacements vars index variableName
      let target ← request.resolve path
      let bytes ← recur (target, active)
      Eval.check
        (bytes = [] ∨ count ≤ (request.maxBytes.val : Int).tdiv bytes.length)
        (.limitText "repeated block exceeds byte limit")
      .done (bytes.repeatTimes count)
  | .dynamic field variableName => do
      let bytes ← dynamicValue vars field variableName
      .done bytes
  | .atom field => do
      Eval.check (field.value.length ≤ request.maxBytes.val) (byteLimit request index)
      .done field.value
  | .container children => do
      let output ← renderChildren request.maxBytes.val (byteLimit request index)
        (fun child => recur (child, active)) children []
      renderPadding request.maxBytes.val (request.entry index).alignment output

def renderStep (sizes : SizeSpec → Run Bytes) (recur : Call → Run Bytes)
    (call : Call) : Run Bytes := do
  let visible ← request.isVisible replacements vars call.1
  if visible then
    let kind := request.kind call.1
    let replaced :=
      if kind.isRepetition then none else replacements.lookup call.1
    match replaced with
    | some value => do
        Eval.check (value.length ≤ request.maxBytes.val) (byteLimit request call.1)
        .done value
    | none => renderKind request replacements vars sizes recur call.1 call.2 kind
  else .done []

/-- `render_node`, with a bound on its recursion depth. -/
def renderNode : Nat → Call → Run Bytes
  | 0, _ => .pending
  | fuel + 1, call =>
      renderStep request replacements vars
        (sizeValue request replacements vars fuel) (renderNode fuel) call

end

/-- `render`: the default rendering. -/
def render (request : CompiledRequest) (fuel : Nat) : Run Bytes :=
  renderNode request [] none fuel (0, [])

def renderWith (request : CompiledRequest) (vars : Option Vars) (fuel : Nat) :
    Run Bytes :=
  renderNode request [] vars fuel (0, [])

def caseReplacements (request : CompiledRequest) :
    List (Text × Nat) → Except ModelError Replacements
  | [] => .ok []
  | part :: rest => do
      let index ← request.resolve part.1
      let others ← caseReplacements request rest
      .ok ((index, (request.kind index).candidate part.2) :: others)

/-- `render_case`: the rendering of the named mutation parts. -/
def renderCase (request : CompiledRequest) (parts : List (Text × Nat))
    (vars : Option Vars) (fuel : Nat) : Run Bytes := do
  let replacements ← request.caseReplacements parts
  renderNode request replacements vars fuel (0, [])

theorem renderChildren_le {maxBytes : Int} {overflow : ModelError}
    {first second : Nat → Run Bytes} (hle : ∀ child, first child ≤ second child) :
    ∀ (children : List Nat) (output : Bytes),
      renderChildren maxBytes overflow first children output ≤
        renderChildren maxBytes overflow second children output
  | [], _ => le_refl _
  | child :: rest, output => by
      simp only [renderChildren]
      apply Eval.bind_le_bind (hle child)
      intro bytes
      apply Eval.bind_le_bind (le_refl _)
      intro _
      exact renderChildren_le hle rest _

section

variable {request : CompiledRequest} {replacements : Replacements}
  {vars : Option Vars}

theorem renderKind_le {sizes sizes' : SizeSpec → Run Bytes}
    {first second : Call → Run Bytes} (hsizes : sizes ≤ sizes')
    (hle : first ≤ second) (index : Nat) (active : List Nat) (kind : EntryKind) :
    renderKind request replacements vars sizes first index active kind ≤
      renderKind request replacements vars sizes' second index active kind := by
  cases kind with
  | atom field => exact le_refl _
  | dynamic field variableName => exact le_refl _
  | computedSize spec => exact hsizes spec
  | computedChecksum spec =>
      simp only [renderKind]
      split
      · exact le_refl _
      · apply Eval.bind_le_bind (le_refl _)
        intro target
        exact Eval.bind_le_bind (hle _) fun _ => le_refl _
  | mirror target =>
      simp only [renderKind]
      split
      · exact le_refl _
      · exact Eval.bind_le_bind (le_refl _) fun _ => hle _
  | repetition path range variableName =>
      simp only [renderKind]
      apply Eval.bind_le_bind (le_refl _)
      intro n
      apply Eval.bind_le_bind (le_refl _)
      intro target
      exact Eval.bind_le_bind (hle _) fun _ => le_refl _
  | container children =>
      simp only [renderKind]
      exact Eval.bind_le_bind
        (renderChildren_le (fun child => hle (child, active)) children [])
        fun _ => le_refl _

theorem renderStep_le {sizes sizes' : SizeSpec → Run Bytes}
    {first second : Call → Run Bytes} (hsizes : sizes ≤ sizes')
    (hle : first ≤ second) :
    renderStep request replacements vars sizes first ≤
      renderStep request replacements vars sizes' second := by
  intro call
  apply Eval.bind_le_bind (le_refl _)
  intro visible
  cases visible with
  | false => exact le_refl _
  | true =>
      simp only [if_true]
      split
      · exact le_refl _
      · exact renderKind_le hsizes hle _ _ _

theorem renderNode_hidden {index : Nat} (active : List Nat) (fuel : Nat)
    (hvisible : request.isVisible replacements vars index = .ok false) :
    renderNode request replacements vars (fuel + 1) (index, active) =
      .done [] := by
  simp [renderNode, renderStep, hvisible]

theorem renderNode_replaced {index : Nat} (active : List Nat) (fuel : Nat)
    {value : Bytes}
    (hvisible : request.isVisible replacements vars index = .ok true)
    (hkind : (request.kind index).isRepetition = false)
    (hlookup : replacements.lookup index = some value) :
    renderNode request replacements vars (fuel + 1) (index, active) =
      (do
        Eval.check (value.length ≤ request.maxBytes.val) (byteLimit request index)
        .done value) := by
  simp [renderNode, renderStep, hvisible, hkind, hlookup]

theorem renderNode_kind {index : Nat} (active : List Nat) (fuel : Nat)
    (hvisible : request.isVisible replacements vars index = .ok true)
    (hlookup : (request.kind index).isRepetition = true ∨
      replacements.lookup index = none) :
    renderNode request replacements vars (fuel + 1) (index, active) =
      renderKind request replacements vars
        (sizeValue request replacements vars fuel)
        (renderNode request replacements vars fuel) index active
        (request.kind index) := by
  rcases hlookup with hkind | hnone
  · simp [renderNode, renderStep, hvisible, hkind]
  · simp [renderNode, renderStep, hvisible, hnone]

theorem renderNode_repeat {index target : Nat} {path : Text} {range : RepeatRange}
    {variableName : Option Text} {count : Int} (active : List Nat) {fuel : Nat}
    {content : Bytes} (hvisible : request.isVisible replacements vars index = .ok true)
    (hkind : request.kind index = .repetition path range variableName)
    (hcount : repeatCount replacements vars index variableName = .ok count)
    (htarget : request.resolve path = .ok target)
    (hcontent : renderNode request replacements vars fuel (target, active) =
      .done content) :
    renderNode request replacements vars (fuel + 1) (index, active) =
      if content = [] ∨ count ≤ (request.maxBytes.val : Int).tdiv content.length
      then .done (content.repeatTimes count)
      else .raised (.limitText "repeated block exceeds byte limit") := by
  have hrepeats : (request.kind index).isRepetition = true := by
    rw [hkind]
    rfl
  rw [renderNode_kind active fuel hvisible (Or.inl hrepeats), hkind, renderKind, hcount,
    htarget]
  simp only [Eval.liftM_eq, Eval.ofExcept_ok, Eval.done_bind, hcontent, Eval.check]
  split <;> rfl

theorem renderNode_mono : Monotone (renderNode request replacements vars) := by
  apply monotone_nat_of_le_succ
  intro fuel
  induction fuel with
  | zero =>
      intro call
      exact Eval.pending_le _
  | succ fuel ih =>
      exact renderStep_le
        (fun spec => sizeValue_mono spec (Nat.le_succ fuel)) ih

theorem renderNode_done_of_le {first second : Nat} (hle : first ≤ second)
    {call : Call} {bytes : Bytes}
    (hdone : renderNode request replacements vars first call = .done bytes) :
    renderNode request replacements vars second call = .done bytes := by
  rw [Eval.eq_of_le_of_settled (renderNode_mono hle call) (by simp [hdone]), hdone]

end

theorem renderCase_mono (request : CompiledRequest) (parts : List (Text × Nat))
    (vars : Option Vars) : Monotone (renderCase request parts vars) := by
  intro first second hle
  apply Eval.bind_le_bind (le_refl _)
  intro replacements
  exact renderNode_mono hle _

end CompiledRequest

end MoonBoofuzz
