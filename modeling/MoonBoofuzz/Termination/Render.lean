import MoonBoofuzz.Termination.Reentry

namespace MoonBoofuzz

namespace CompiledRequest

/-! Where rendering comes to an end. -/

theorem renderChildren_settled {maxBytes : Int} {overflow : ModelError}
    {recur : Nat → Run Bytes} {children : List Nat}
    (hchildren : ∀ child ∈ children, (recur child).Settled) (output : Bytes) :
    (renderChildren maxBytes overflow recur children output).Settled := by
  induction children generalizing output with
  | nil => simp [renderChildren]
  | cons child rest ih =>
      simp only [renderChildren, Eval.bind_settled_iff, Eval.check_settled, true_and]
      refine ⟨hchildren child (by simp), fun bytes _ _ _ => ?_⟩
      exact ih (fun other hmem => hchildren other (by simp [hmem])) _

theorem renderPadding_settled (maxBytes : Int) (alignment : Option Alignment)
    (output : Bytes) : (renderPadding maxBytes alignment output).Settled := by
  cases alignment with
  | none => simp [renderPadding]
  | some alignment =>
      simp [renderPadding, Eval.bind_settled_iff, Eval.check_settled]

section

variable {request : CompiledRequest} {replacements : Replacements}
  {vars : Option Vars}

theorem renderNode_terminates_of_kind {index : Nat} {active : List Nat} (fuel : Nat)
    (hkind : (renderKind request replacements vars
      (sizeValue request replacements vars fuel)
      (renderNode request replacements vars fuel) index active
      (request.kind index)).Settled) :
    Eval.Terminates fun fuel =>
      renderNode request replacements vars fuel (index, active) := by
  refine ⟨fuel + 1, ?_⟩
  simp only [renderNode, renderStep, Eval.bind_settled_iff, Eval.liftM_eq,
    Eval.ofExcept_settled, true_and]
  intro visible _
  cases visible with
  | false => simp
  | true =>
      simp only [if_true]
      split
      · simp [Eval.bind_settled_iff, Eval.check_settled]
      · exact hkind

theorem renderNode_terminates_of_push {index : Nat} {active : List Nat}
    (hkind : (request.kind index).isMirror ∨ (request.kind index).isChecksum)
    (hcall : index ∉ active → ∀ {path : Text} {target : Nat},
      request.resolve path = .ok target → Eval.Terminates fun fuel =>
        renderNode request replacements vars fuel (target, active ++ [index])) :
    Eval.Terminates fun fuel =>
      renderNode request replacements vars fuel (index, active) := by
  by_cases hactive : index ∈ active
  · apply renderNode_terminates_of_kind 0
    cases hindex : request.kind index with
    | mirror path => simp [renderKind, hactive]
    | computedChecksum spec => simp [renderKind, hactive]
    | _ => simp [hindex, EntryKind.isMirror, EntryKind.isChecksum] at hkind
  cases hindex : request.kind index with
  | mirror path =>
      cases hresolve : request.resolve path with
      | error error =>
          apply renderNode_terminates_of_kind 0
          simp [hindex, renderKind, hactive, hresolve]
      | ok target =>
          obtain ⟨fuel, hsettled⟩ := hcall hactive hresolve
          apply renderNode_terminates_of_kind fuel
          simpa [hindex, renderKind, hactive, hresolve] using hsettled
  | computedChecksum spec =>
      cases hresolve : request.resolve spec.target with
      | error error =>
          apply renderNode_terminates_of_kind 0
          simp [hindex, renderKind, hactive, hresolve]
      | ok target =>
          obtain ⟨fuel, hsettled⟩ := hcall hactive hresolve
          apply renderNode_terminates_of_kind fuel
          simpa [hindex, renderKind, hactive, hresolve, Eval.bind_settled_iff]
            using hsettled
  | _ => simp [hindex, EntryKind.isMirror, EntryKind.isChecksum] at hkind

theorem renderNode_terminates_of_repeat {index : Nat} {active : List Nat}
    {path : Text} {range : RepeatRange} {variableName : Option Text}
    (hkind : request.kind index = .repetition path range variableName)
    (hcall : ∀ {target : Nat}, request.resolve path = .ok target →
      Eval.Terminates fun fuel =>
        renderNode request replacements vars fuel (target, active)) :
    Eval.Terminates fun fuel =>
      renderNode request replacements vars fuel (index, active) := by
  cases hresolve : request.resolve path with
  | error error =>
      apply renderNode_terminates_of_kind 0
      simp [hkind, renderKind, hresolve, Eval.bind_settled_iff, Eval.ofExcept_settled]
  | ok target =>
      obtain ⟨fuel, hsettled⟩ := hcall hresolve
      apply renderNode_terminates_of_kind fuel
      simp only [hkind, renderKind, hresolve, Eval.bind_settled_iff, Eval.liftM_eq,
        Eval.ofExcept_settled, Eval.check_settled, true_and]
      intro _ _ _ htarget
      cases htarget
      exact ⟨hsettled, fun _ _ _ _ => by simp⟩

theorem renderNode_terminates_of_children {index : Nat} {active children : List Nat}
    (hkind : request.kind index = .container children)
    (hcalls : ∀ child ∈ children, Eval.Terminates fun fuel =>
      renderNode request replacements vars fuel (child, active)) :
    Eval.Terminates fun fuel =>
      renderNode request replacements vars fuel (index, active) := by
  have hmono : Monotone fun fuel child =>
      renderNode request replacements vars fuel (child, active) :=
    fun _ _ hle child => renderNode_mono hle (child, active)
  obtain ⟨enough, hsettled⟩ := Eval.exists_common_fuel hmono children hcalls
  apply renderNode_terminates_of_kind enough
  simp only [hkind, renderKind, Eval.bind_settled_iff, renderPadding_settled,
    implies_true, and_true]
  exact renderChildren_settled (hsettled enough (le_refl _)) []

/-- Rendering follows mirrors and checksums that are not active yet, repeats to
blocks that end before them, and blocks to their children. -/
theorem renderNode_terminates (htable : Table request)
    (hreferences : checkReferences request request.entries = .ok ()) {enough : Nat}
    (hsizes : ∀ index spec, request.kind index = .computedSize spec →
      (sizeValue request replacements vars enough spec).Settled) {room : Nat} :
    ∀ {active : List Nat}, request.rest active = room → ∀ {stop index : Nat},
      Spans request index stop → stop ≤ request.entries.length →
      Eval.Terminates fun fuel =>
        renderNode request replacements vars fuel (index, active) := by
  induction room using Nat.strong_induction_on with
  | _ room ihroom =>
      intro active hroom stop
      induction stop using Nat.strong_induction_on with
      | _ stop ihstop =>
          intro index hspans hstop
          generalize hheight : stop - index = height
          induction height using Nat.strong_induction_on generalizing index with
          | _ height ihheight =>
              have hlt := hspans.lt
              have hpush : index ∉ active → ∀ {path : Text} {target : Nat},
                  request.resolve path = .ok target →
                  Eval.Terminates fun fuel =>
                    renderNode request replacements vars fuel
                      (target, active ++ [index]) := by
                intro hactive path target hresolve
                have hless : request.rest (active ++ [index]) < room := by
                  rw [← hroom]
                  exact unseen_lt (Finset.mem_range.mpr (by omega)) hactive
                    (List.subset_append_left _ _) (by simp)
                obtain ⟨stop', hle, htarget⟩ := htable.spans (htable.resolve_lt hresolve)
                exact ihroom _ hless rfl htarget hle
              cases hkind : request.kind index with
              | atom field =>
                  apply renderNode_terminates_of_kind 0
                  simp [hkind, renderKind, Eval.bind_settled_iff, Eval.check_settled]
              | dynamic field variableName =>
                  apply renderNode_terminates_of_kind 0
                  simp [hkind, renderKind, Eval.bind_settled_iff, Eval.ofExcept_settled]
              | computedSize spec =>
                  apply renderNode_terminates_of_kind enough
                  rw [hkind]
                  exact hsizes index spec hkind
              | computedChecksum spec =>
                  exact renderNode_terminates_of_push
                    (Or.inr (by simp [hkind, EntryKind.isChecksum])) hpush
              | mirror target =>
                  exact renderNode_terminates_of_push
                    (Or.inl (by simp [hkind, EntryKind.isMirror])) hpush
              | repetition path range variableName =>
                  apply renderNode_terminates_of_repeat hkind
                  intro target hresolve
                  obtain ⟨stop', hbefore, htarget⟩ :=
                    htable.repeat_spans hreferences hkind hresolve
                  exact ihstop stop' (by omega) htarget (by omega)
              | container children =>
                  apply renderNode_terminates_of_children hkind
                  intro child hmem
                  obtain ⟨hbefore, stop', hle, hchild⟩ := hspans.child hkind hmem
                  rcases Nat.lt_or_eq_of_le hle with hsmaller | rfl
                  · exact ihstop stop' hsmaller hchild (by omega)
                  · exact ihheight (stop' - child) (by omega) hchild rfl

end

/-- Without size fields every entry renders, or fails to, whatever is replaced and
whichever mirrors and checksums are active: the bound on the recursion depth is of no
consequence once it is large enough. -/
theorem renderNode_total {root : Block} {maxBytes : Int32} {request : CompiledRequest}
    (hcompile : Eval.Returns (compile root maxBytes) request)
    (hplain : ∀ index spec, request.kind index ≠ .computedSize spec)
    (replacements : Replacements) (vars : Option Vars) (index : Nat)
    (active : List Nat) :
    ∃ answer enough, answer.Settled ∧ ∀ fuel, enough ≤ fuel →
      renderNode request replacements vars fuel (index, active) = answer := by
  obtain ⟨fuel, hdone⟩ := hcompile
  have hassembled := (compile_eq_done hdone).assembled
  have hsizes : ∀ index spec, request.kind index = .computedSize spec →
      (sizeValue request replacements vars 0 spec).Settled :=
    fun other spec hkind => absurd hkind (hplain other spec)
  have hterminates : Eval.Terminates fun fuel =>
      renderNode request replacements vars fuel (index, active) := by
    by_cases hindex : index < request.entries.length
    · obtain ⟨stop, hstop, hspans⟩ := hassembled.table.spans hindex
      exact renderNode_terminates hassembled.table hassembled.references hsizes rfl
        hspans hstop
    · exact renderNode_terminates_of_children (kind_of_large request
        (Nat.not_lt.mp hindex)) (by simp)
  obtain ⟨enough, hsettled⟩ := hterminates
  refine ⟨_, enough, hsettled, fun fuel hle => ?_⟩
  exact Eval.eq_of_le_of_settled (renderNode_mono hle (index, active)) hsettled

def mirroredSpec : ChecksumSpec where
  target := Text.ofAscii "r.b"
  endian := .little
  mutations := []
  algorithm := .crc32
  mutations_length := by simp

def mirroredRoot : Block :=
  Block.new (Text.ofAscii "r")
    [.nested (Block.new (Text.ofAscii "a")
       [.mirrored (Text.ofAscii "m") (Text.ofAscii "r.b"),
        .checksummed (Text.ofAscii "c") mirroredSpec]),
     .nested (Block.new (Text.ofAscii "b")
       [.mirrored (Text.ofAscii "n") (Text.ofAscii "r.a")])]

def mirroredRequest : CompiledRequest where
  name := Text.ofAscii "r"
  entries :=
    [⟨Text.ofAscii "r", none, .container [1, 4], none, none, none⟩,
     ⟨Text.ofAscii "r.a", some 0, .container [2, 3], none, none, none⟩,
     ⟨Text.ofAscii "r.a.m", some 1, .mirror (Text.ofAscii "r.b"), none, none, none⟩,
     ⟨Text.ofAscii "r.a.c", some 1, .computedChecksum mirroredSpec, none, none, none⟩,
     ⟨Text.ofAscii "r.b", some 0, .container [5], none, none, none⟩,
     ⟨Text.ofAscii "r.b.n", some 4, .mirror (Text.ofAscii "r.a"), none, none, none⟩]
  paths :=
    [(Text.ofAscii "r", 0), (Text.ofAscii "r.a", 1), (Text.ofAscii "r.a.m", 2),
     (Text.ofAscii "r.a.c", 3), (Text.ofAscii "r.b", 4), (Text.ofAscii "r.b.n", 5)]
  maxBytes := 64
  seq := .sequence [.sequence [.sequence [], .sequence []], .sequence [.sequence []]]

theorem mirroredRoot_compiles : compile mirroredRoot 64 16 = .done mirroredRequest := rfl

theorem mirroredRequest_total :
    ∃ answer enough, answer.Settled ∧ ∀ fuel, enough ≤ fuel →
      renderNode mirroredRequest [] none fuel (1, []) = answer := by
  have hplain : ∀ index spec, mirroredRequest.kind index ≠ .computedSize spec := by
    intro index spec
    rcases index with _ | _ | _ | _ | _ | _ | index <;> exact nofun
  exact renderNode_total ⟨16, mirroredRoot_compiles⟩ hplain [] none 1 []

end CompiledRequest

end MoonBoofuzz
