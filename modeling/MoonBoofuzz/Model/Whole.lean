import MoonBoofuzz.Model.Render

namespace MoonBoofuzz

namespace CompiledRequest

/-! The rendering without a byte limit: nothing is ever too long.  Size fields state
what they state in the limited one. -/

def wholePadding (alignment : Option Alignment) (output : Bytes) : Bytes :=
  match alignment with
  | none => []
  | some alignment => alignmentPadding alignment output.length

section

variable (request : CompiledRequest) (replacements : Replacements)
  (vars : Option Vars)

def wholeKind (sizes : SizeSpec → Run Bytes) (recur : Call → Run Bytes)
    (index : Nat) (active : List Nat) : EntryKind → Run Bytes
  | .atom field => .done field.value
  | .repetition path _ variableName => do
      let count ← repeatCount replacements vars index variableName
      let target ← request.resolve path
      let bytes ← recur (target, active)
      .done (bytes.repeatTimes count)
  | .container children => do
      let pieces ← children.mapM fun child => recur (child, active)
      let output := pieces.flatten
      .done (output ++ wholePadding (request.entry index).alignment output)
  | kind => renderKind request replacements vars sizes recur index active kind

def wholeStep (sizes : SizeSpec → Run Bytes) (recur : Call → Run Bytes)
    (call : Call) : Run Bytes := do
  let visible ← request.isVisible replacements vars call.1
  if visible then
    let kind := request.kind call.1
    let replaced :=
      if kind.isRepetition then none else replacements.lookup call.1
    match replaced with
    | some value => .done value
    | none => wholeKind request replacements vars sizes recur call.1 call.2 kind
  else .done []

def wholeNode : Nat → Call → Run Bytes
  | 0, _ => .pending
  | fuel + 1, call =>
      wholeStep request replacements vars
        (sizeValue request replacements vars fuel) (wholeNode fuel) call

end

theorem renderChildren_pieces {maxBytes : Int} {overflow : ModelError}
    {recur whole : Nat → Run Bytes}
    (hrecur : ∀ child bytes, recur child = .done bytes → whole child = .done bytes)
    {children : List Nat} {output bytes : Bytes}
    (hdone : renderChildren maxBytes overflow recur children output = .done bytes) :
    ∃ pieces, children.mapM whole = .done pieces ∧ bytes = output ++ pieces.flatten := by
  induction children generalizing output with
  | nil =>
      cases hdone
      exact ⟨[], rfl, by simp⟩
  | cons child rest ih =>
      simp only [renderChildren, Eval.bind_eq_done_iff, Eval.check_eq_done_iff] at hdone
      obtain ⟨piece, hpiece, _, -, hrest⟩ := hdone
      obtain ⟨pieces, hpieces, hbytes⟩ := ih hrest
      refine ⟨piece :: pieces, ?_, by simp [hbytes]⟩
      rw [List.mapM_cons, hrecur child piece hpiece, hpieces]
      rfl

theorem renderPadding_eq_done {maxBytes : Int} {alignment : Option Alignment}
    {output bytes : Bytes}
    (hdone : renderPadding maxBytes alignment output = .done bytes) :
    bytes = output ++ wholePadding alignment output := by
  cases alignment with
  | none =>
      cases hdone
      simp [wholePadding]
  | some alignment =>
      simp only [renderPadding, Eval.bind_eq_done_iff] at hdone
      obtain ⟨_, -, hbytes⟩ := hdone
      exact (Eval.done.inj hbytes).symm

section

variable {request : CompiledRequest} {replacements : Replacements}
  {vars : Option Vars} {sizes : SizeSpec → Run Bytes} {recur whole : Call → Run Bytes}

theorem wholeKind_of_render
    (hrecur : ∀ call bytes, recur call = .done bytes → whole call = .done bytes)
    {index : Nat} {active : List Nat} {kind : EntryKind} {bytes : Bytes}
    (hdone : renderKind request replacements vars sizes recur index active kind =
      .done bytes) :
    wholeKind request replacements vars sizes whole index active kind = .done bytes := by
  cases kind with
  | atom field =>
      simp only [renderKind, Eval.bind_eq_done_iff] at hdone
      obtain ⟨_, -, hvalue⟩ := hdone
      exact hvalue
  | dynamic field variableName => exact hdone
  | computedSize spec => exact hdone
  | computedChecksum spec =>
      simp only [wholeKind, renderKind] at hdone ⊢
      split at hdone <;> rename_i hactive
      · rwa [if_pos hactive]
      · simp only [Eval.bind_eq_done_iff] at hdone
        obtain ⟨target, htarget, content, hcontent, hsum⟩ := hdone
        rw [if_neg hactive, htarget, Eval.done_bind, hrecur _ _ hcontent]
        exact hsum
  | mirror target =>
      simp only [wholeKind, renderKind] at hdone ⊢
      split at hdone <;> rename_i hactive
      · rwa [if_pos hactive]
      · simp only [Eval.bind_eq_done_iff] at hdone
        obtain ⟨inner, hinner, hbytes⟩ := hdone
        rw [if_neg hactive, hinner, Eval.done_bind, hrecur _ _ hbytes]
  | repetition path range variableName =>
      simp only [wholeKind, renderKind, Eval.bind_eq_done_iff] at hdone ⊢
      obtain ⟨count, hcount, target, htarget, content, hcontent, _, -, hcopies⟩ := hdone
      exact ⟨count, hcount, target, htarget, content, hrecur _ _ hcontent, hcopies⟩
  | container children =>
      simp only [wholeKind, renderKind, Eval.bind_eq_done_iff] at hdone ⊢
      obtain ⟨output, hchildren, hpadded⟩ := hdone
      obtain ⟨pieces, hpieces, houtput⟩ :=
        renderChildren_pieces (fun child => hrecur (child, active)) hchildren
      rw [List.nil_append] at houtput
      refine ⟨pieces, hpieces, ?_⟩
      rw [renderPadding_eq_done hpadded, houtput]

theorem wholeStep_of_render
    (hrecur : ∀ call bytes, recur call = .done bytes → whole call = .done bytes)
    {call : Call} {bytes : Bytes}
    (hdone : renderStep request replacements vars sizes recur call = .done bytes) :
    wholeStep request replacements vars sizes whole call = .done bytes := by
  simp only [renderStep, wholeStep, Eval.bind_eq_done_iff] at hdone ⊢
  obtain ⟨visible, hvisible, hrest⟩ := hdone
  refine ⟨visible, hvisible, ?_⟩
  cases visible with
  | false => exact hrest
  | true =>
      simp only [if_true] at hrest ⊢
      generalize (if (request.kind call.1).isRepetition then none
        else replacements.lookup call.1) = replaced at hrest ⊢
      cases replaced with
      | some value =>
          dsimp only at hrest
          rw [Eval.bind_eq_done_iff] at hrest
          obtain ⟨_, -, hvalue⟩ := hrest
          exact hvalue
      | none => exact wholeKind_of_render hrecur hrest

theorem wholeNode_of_render {fuel : Nat} :
    ∀ (call : Call) (bytes : Bytes),
      renderNode request replacements vars fuel call = .done bytes →
        wholeNode request replacements vars fuel call = .done bytes := by
  induction fuel with
  | zero =>
      intro call bytes hdone
      cases hdone
  | succ fuel ih =>
      intro call bytes hdone
      exact wholeStep_of_render ih hdone

end

theorem renderChildren_length_le {maxBytes : Nat} {overflow : ModelError}
    {contents : Nat → Run Bytes} {result : Bytes} :
    ∀ (children : List Nat) (output : Bytes), output.length ≤ maxBytes →
      renderChildren maxBytes overflow contents children output = .done result →
      result.length ≤ maxBytes
  | [], output, hfits, hrender => by
      simp only [renderChildren, Eval.done.injEq] at hrender
      exact hrender ▸ hfits
  | child :: rest, output, hfits, hrender => by
      simp only [renderChildren, Eval.bind_eq_done_iff, Eval.check_eq_done_iff]
        at hrender
      obtain ⟨bytes, -, _, hcheck, hrest⟩ := hrender
      apply renderChildren_length_le rest (output ++ bytes) _ hrest
      rw [List.length_append]
      omega

theorem renderPadding_length_le {maxBytes : Nat} {alignment : Option Alignment}
    {output result : Bytes} (hfits : output.length ≤ maxBytes)
    (hrender : renderPadding maxBytes alignment output = .done result) :
    result.length ≤ maxBytes := by
  cases alignment with
  | none =>
      simp only [renderPadding, Eval.done.injEq] at hrender
      exact hrender ▸ hfits
  | some alignment =>
      simp only [renderPadding, Eval.bind_eq_done_iff, Eval.check_eq_done_iff,
        Eval.done.injEq] at hrender
      obtain ⟨_, hcheck, rfl⟩ := hrender
      rw [List.length_append]
      omega

theorem renderNode_container_length_le {request : CompiledRequest}
    {replacements : Replacements} {vars : Option Vars} {fuel index : Nat}
    {active : List Nat} {bytes : Bytes}
    (hkind : (request.kind index).isContainer = true)
    (hrender : renderNode request replacements vars fuel (index, active) =
      .done bytes) :
    bytes.length ≤ request.maxBytes.val := by
  cases fuel with
  | zero => simp [renderNode] at hrender
  | succ fuel =>
      simp only [renderNode, renderStep, Eval.bind_eq_done_iff, Eval.liftM_eq,
        Eval.ofExcept_eq_done_iff] at hrender
      obtain ⟨visible, -, hrender⟩ := hrender
      split at hrender
      · split at hrender
        · simp only [Eval.bind_eq_done_iff, Eval.check_eq_done_iff,
            Eval.done.injEq] at hrender
          obtain ⟨_, hfits, rfl⟩ := hrender
          exact hfits
        · cases hentry : request.kind index <;>
            simp_all only [EntryKind.isContainer, reduceCtorEq, renderKind,
              Eval.bind_eq_done_iff]
          obtain ⟨output, hchildren, hpadding⟩ := hrender
          apply renderPadding_length_le _ hpadding
          exact renderChildren_length_le _ [] (Nat.zero_le _) hchildren
      · simp only [Eval.done.injEq] at hrender
        simp [← hrender]

end CompiledRequest

end MoonBoofuzz
