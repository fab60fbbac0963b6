import MoonBoofuzz.Model.Placed
import MoonBoofuzz.Model.Whole
import MoonBoofuzz.Mutation.Bare
import MoonBoofuzz.Mutation.Replay
import MoonBoofuzz.Mutation.Units

namespace MoonBoofuzz

namespace CompiledRequest

/-! What the entries of a request contribute to a case. -/

def Renders (request : CompiledRequest) (replacements : Replacements) (index : Nat)
    (bytes : Bytes) : Prop :=
  Eval.Returns (fun fuel => renderNode request replacements none fuel (index, [])) bytes

/-- The entry of the path renders as these bytes under the parts of a case. -/
def Contributes (request : CompiledRequest) (parts : List (Text × Nat)) (path : Text)
    (bytes : Bytes) : Prop :=
  ∃ index replacements, request.resolve path = .ok index ∧
    request.caseReplacements parts = .ok replacements ∧
    request.Renders replacements index bytes

theorem Contributes.unique {request : CompiledRequest} {parts : List (Text × Nat)}
    {path : Text} {bytes bytes' : Bytes} (hfirst : request.Contributes parts path bytes)
    (hsecond : request.Contributes parts path bytes') : bytes = bytes' := by
  obtain ⟨index, replacements, hindex, hreplacements, hbytes⟩ := hfirst
  obtain ⟨index', replacements', hindex', hreplacements', hbytes'⟩ := hsecond
  rw [hindex] at hindex'
  rw [hreplacements] at hreplacements'
  cases hindex'
  cases hreplacements'
  exact hbytes.unique (fun _ _ hle => renderNode_mono hle _) hbytes'

section

variable {request : CompiledRequest} {replacements : Replacements} {vars : Option Vars}
  {index : Nat} {active : List Nat} {bytes : Bytes}

theorem renderNode_pieces (hopen : (request.entry index).Open)
    (hvisible : request.isVisible replacements vars index = .ok true) {children : List Nat}
    (hkind : request.kind index = .container children)
    (hlookup : replacements.lookup index = none) {fuel : Nat}
    (hrender : renderNode request replacements vars fuel (index, active) = .done bytes) :
    ∃ pieces, List.Forall₂ (fun child piece => Eval.Returns
        (fun fuel => renderNode request replacements vars fuel (child, active)) piece)
        children pieces ∧ bytes = pieces.flatten := by
  obtain _ | fuel := fuel
  · cases hrender
  · rw [renderNode_kind active fuel hvisible (Or.inr hlookup), hkind, renderKind,
      hopen.alignment] at hrender
    obtain ⟨output, houtput, hpadded⟩ := Eval.bind_eq_done_iff.mp hrender
    cases hpadded
    obtain ⟨pieces, hpieces, hbytes⟩ := renderChildren_pieces (fun _ _ hdone => hdone) houtput
    rw [Eval.mapM_eq_done_iff] at hpieces
    exact ⟨pieces, hpieces.imp fun _ _ hdone => ⟨fuel, hdone⟩, hbytes⟩

theorem renderNode_atom (hvisible : request.isVisible replacements vars index = .ok true)
    {field : Field} (hkind : request.kind index = .atom field) {fuel : Nat}
    (hrender : renderNode request replacements vars fuel (index, active) = .done bytes) :
    bytes = (replacements.lookup index).getD field.value := by
  obtain _ | fuel := fuel
  · cases hrender
  · cases hlookup : replacements.lookup index with
    | none =>
        rw [renderNode_kind active fuel hvisible (Or.inr hlookup), hkind, renderKind] at hrender
        obtain ⟨_, -, hvalue⟩ := Eval.bind_eq_done_iff.mp hrender
        cases hvalue
        rfl
    | some value =>
        rw [renderNode_replaced active fuel hvisible (by rw [hkind]; rfl) hlookup] at hrender
        obtain ⟨_, -, hvalue⟩ := Eval.bind_eq_done_iff.mp hrender
        cases hvalue
        rfl

end

section

variable {root : Block} {maxBytes : Int32} {fuel : Nat} {request : CompiledRequest}

theorem candidates_groupFree (hassembled : Assembled root maxBytes fuel request)
    (hfree : request.GroupFree) :
    request.candidates .sequential = request.choices.map fun choice => [choice] := by
  have hdenote : request.candidates .sequential = denote request request.seq :=
    (request.candidates_drains .sequential).unique request.sequentialCursor_drains
  have hunits := @collectUnits_parts request request.seq []
  rw [collectUnits_groupFree hassembled hfree, List.map_map] at hunits
  rw [hdenote]
  simpa [single, UnitPart.pair, Function.comp_def] using hunits.symm

theorem single_case {vars : Option Vars} {position : Nat} {choice : Nat × Nat}
    {case : MutationCase}
    (hbuild : Eval.Returns (request.buildCase vars position [choice]) case) :
    case.parts = [request.named choice] ∧
      (∀ field, request.kind choice.1 = .atom field →
        field.candidateLength choice.2 ≤ request.maxBytes.val) ∧
      Eval.Returns (fun fuel => renderNode request (request.partReplacements [choice]) vars fuel
        (0, [])) case.payload := by
  have hsole : (([] ++ [choice]).map Prod.fst).Nodup := List.nodup_singleton _
  have hparts : case.parts = [request.named choice] := case_parts hsole hbuild
  obtain ⟨fuel, hdone⟩ := hbuild
  simp only [buildCase, Eval.bind_eq_done_iff, Eval.done.injEq] at hdone
  obtain ⟨_, hleaf, payload, hpayload, rfl⟩ := hdone
  refine ⟨hparts, fun field hkind => ?_, fuel, hpayload⟩
  have hchecked : checkLeaf request choice = .done () := hleaf
  rw [checkLeaf, hkind, Eval.check_eq_done_iff] at hchecked
  exact hchecked

end

end CompiledRequest

end MoonBoofuzz
