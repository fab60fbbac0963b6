import MoonBoofuzz.Mutation.Positions

namespace MoonBoofuzz

/-- An entry of the kind reads no variable of the session. -/
def EntryKind.isStatic : EntryKind → Bool
  | .dynamic _ _ => false
  | .repetition _ _ (some _) => false
  | _ => true

namespace CompiledRequest

/-- The cases of a request do not depend on the variables of the session. -/
def Ignores (request : CompiledRequest) (vars : Option Vars) : Prop :=
  ∀ position parts, request.buildCase vars position parts = request.buildCase none position parts

def Static (request : CompiledRequest) : Prop :=
  ∀ index, (request.kind index).isStatic = true

section

variable {request : CompiledRequest} {replacements : Replacements} {vars : Option Vars}

theorem Static.conditionValue (hstatic : request.Static) (target : Nat) :
    request.conditionValue replacements vars target =
      request.conditionValue replacements none target := by
  have hkind := hstatic target
  unfold CompiledRequest.conditionValue
  cases hlookup : replacements.lookup target with
  | some value => rfl
  | none =>
      cases hfield : request.kind target with
      | dynamic field variableName => rw [hfield] at hkind; cases hkind
      | _ => rfl

theorem Static.visibleAlong (hstatic : request.Static) (chain : List Nat) :
    request.visibleAlong replacements vars chain =
      request.visibleAlong replacements none chain := by
  induction chain with
  | nil => rfl
  | cons index rest ih =>
      rw [CompiledRequest.visibleAlong, CompiledRequest.visibleAlong, ih]
      simp only [hstatic.conditionValue]

theorem Static.isVisible (hstatic : request.Static) :
    request.isVisible replacements vars = request.isVisible replacements none := by
  funext index
  exact hstatic.visibleAlong _

theorem Static.measure (hstatic : request.Static) (fuel : Nat) :
    measure request replacements vars fuel = measure request replacements none fuel := by
  induction fuel with
  | zero => rfl
  | succ fuel ih =>
      funext call
      have hkind := hstatic call.1
      rw [CompiledRequest.measure, CompiledRequest.measure, ih, measureStep, measureStep,
        hstatic.isVisible]
      cases hcall : request.kind call.1 with
      | dynamic field variableName => rw [hcall] at hkind; cases hkind
      | repetition path range variableName =>
          cases variableName with
          | some name => rw [hcall] at hkind; cases hkind
          | none => rfl
      | _ => rfl

theorem Static.sizeValue (hstatic : request.Static) (fuel : Nat) :
    sizeValue request replacements vars fuel = sizeValue request replacements none fuel := by
  funext spec
  rw [CompiledRequest.sizeValue, CompiledRequest.sizeValue, hstatic.measure]

theorem Static.renderNode (hstatic : request.Static) (fuel : Nat) :
    renderNode request replacements vars fuel = renderNode request replacements none fuel := by
  induction fuel with
  | zero => rfl
  | succ fuel ih =>
      funext call
      have hkind := hstatic call.1
      rw [CompiledRequest.renderNode, CompiledRequest.renderNode, ih, renderStep, renderStep,
        hstatic.isVisible, hstatic.sizeValue]
      cases hcall : request.kind call.1 with
      | dynamic field variableName => rw [hcall] at hkind; cases hkind
      | repetition path range variableName =>
          cases variableName with
          | some name => rw [hcall] at hkind; cases hkind
          | none => rfl
      | _ => rfl

theorem Static.renderWith (hstatic : request.Static) (vars : Option Vars) (fuel : Nat) :
    request.renderWith vars fuel = request.render fuel := by
  rw [CompiledRequest.renderWith, CompiledRequest.render, hstatic.renderNode]

theorem Static.renderCase (hstatic : request.Static) (parts : List (Text × Nat))
    (vars : Option Vars) (fuel : Nat) :
    request.renderCase parts vars fuel = request.renderCase parts none fuel := by
  simp only [CompiledRequest.renderCase, hstatic.renderNode]

theorem Static.buildCase_same (hstatic : request.Static) {vars : Option Vars}
    {position position' : Nat} {parts : Parts} {case case' : MutationCase}
    (hbuild : Eval.Returns (request.buildCase vars position parts) case)
    (hbuild' : Eval.Returns (request.buildCase none position' parts) case') :
    case.parts = case'.parts ∧ case.payload = case'.payload := by
  obtain ⟨fuel, hdone⟩ := hbuild
  obtain ⟨fuel', hdone'⟩ := hbuild'
  simp only [buildCase, Eval.bind_eq_done_iff, Eval.done.injEq] at hdone hdone'
  obtain ⟨_, -, payload, hpayload, rfl⟩ := hdone
  obtain ⟨_, -, payload', hpayload', rfl⟩ := hdone'
  rw [hstatic.renderNode] at hpayload
  refine ⟨rfl, ?_⟩
  have hmono : Monotone fun fuel => request.renderNode (request.partReplacements parts) none fuel
      (0, []) := fun _ _ hle => renderNode_mono hle _
  exact Eval.done_unique hmono hpayload hpayload'

/-- The cases of a request that reads no variable do not depend on the variables. -/
theorem Static.ignores (hstatic : request.Static) (vars : Option Vars) :
    request.Ignores vars := by
  intro position parts
  funext fuel
  rw [buildCase, buildCase, hstatic.renderNode]

end

theorem static_of_entries {request : CompiledRequest}
    (hentries : ∀ entry ∈ request.entries, entry.kind.isStatic = true) : request.Static := by
  intro index
  by_cases hindex : index < request.entries.length
  · rw [kind, entry, List.getD_eq_getElem?_getD, List.getElem?_eq_getElem hindex,
      Option.getD_some]
    exact hentries _ (List.getElem_mem hindex)
  · rw [kind, entry_of_le (not_lt.mp hindex)]
    rfl

/-! The slots of a request that ignores the variables. -/

theorem Ignores.slotsFrom {request : CompiledRequest} {vars : Option Vars}
    (hignores : request.Ignores vars) (raw : List Parts) : ∀ position : Nat,
    request.slotsFrom vars position raw = request.slotsFrom none position raw := by
  induction raw with
  | nil => exact fun _ => rfl
  | cons parts rest ih =>
      intro position
      rw [CompiledRequest.slotsFrom, CompiledRequest.slotsFrom, slotAt, slotAt,
        hignores position parts, ih]

end CompiledRequest

end MoonBoofuzz
