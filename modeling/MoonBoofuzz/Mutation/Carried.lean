import MoonBoofuzz.Mutation.Contributions
import MoonBoofuzz.Size.Wire

namespace MoonBoofuzz

namespace CompiledRequest

/-! The field behind an entry. -/

/-- The field whose bytes are those of an entry: its own, or that of its only child. -/
inductive Carries (request : CompiledRequest) (index : Nat) : Nat → Field → Prop
  | self {field : Field} (hkind : request.kind index = .atom field) :
      Carries request index index field
  | inner {leaf : Nat} {field : Field} (hblock : request.kind index = .container [leaf])
      (hkind : request.kind leaf = .atom field) : Carries request index leaf field

section

variable {request : CompiledRequest} {replacements : Replacements} {vars : Option Vars}
  {index leaf : Nat} {field : Field} {bytes : Bytes}

theorem Carries.kind (hcarries : Carries request index leaf field) :
    request.kind leaf = .atom field := by
  cases hcarries with
  | self hkind => exact hkind
  | inner _ hkind => exact hkind

theorem CandidateReplacements.lookup_none
    (hcandidates : CandidateReplacements request replacements)
    (hcount : (request.kind index).count = 0) : replacements.lookup index = none := by
  cases hlookup : replacements.lookup index with
  | none => rfl
  | some value =>
      obtain ⟨position, hposition, -⟩ := hcandidates.lookup hlookup
      omega

theorem Carries.rendered (hcandidates : CandidateReplacements request replacements)
    (hopen : ∀ index, (request.entry index).Open)
    (hvisible : ∀ index, request.isVisible replacements vars index = .ok true)
    (hcarries : Carries request index leaf field)
    (hrender : Eval.Returns (fun fuel => renderNode request replacements vars fuel (index, []))
      bytes) : bytes = (replacements.lookup leaf).getD field.value := by
  obtain ⟨fuel, hdone⟩ := hrender
  cases hcarries with
  | self hkind => exact renderNode_atom (hvisible index) hkind hdone
  | inner hblock hkind =>
      have hlookup : replacements.lookup index = none :=
        hcandidates.lookup_none (by rw [hblock]; rfl)
      obtain ⟨pieces, hpieces, rfl⟩ :=
        renderNode_pieces (hopen index) (hvisible index) hblock hlookup hdone
      obtain ⟨piece, rest, ⟨fuel', hpiece⟩, hrest, rfl⟩ := List.forall₂_cons_left_iff.mp hpieces
      cases hrest
      rw [List.flatten_cons, List.flatten_nil, List.append_nil]
      exact renderNode_atom (hvisible leaf) hkind hpiece

theorem Carries.steady (hcarries : Carries request index leaf field) :
    Steady request replacements vars index := by
  have hatom : ∀ inner, Reaches request index inner →
      (∃ field, request.kind inner = .atom field) ∨
        ∃ children, request.kind inner = .container children := by
    have hstop : ∀ {entry : Nat} {field : Field}, request.kind entry = .atom field →
        ∀ inner, Reaches request entry inner → inner = entry := by
      intro entry field hkind inner hreaches
      rcases Relation.ReflTransGen.cases_head hreaches with hequal | ⟨next, hrefers, -⟩
      · exact hequal.symm
      · cases hrefers with
        | child hblock _ => rw [hkind] at hblock; cases hblock
        | repetition hrepeat _ => rw [hkind] at hrepeat; cases hrepeat
        | mirror hmirror _ => rw [hkind] at hmirror; cases hmirror
    intro inner hreaches
    cases hcarries with
    | self hkind =>
        rw [hstop hkind inner hreaches]
        exact Or.inl ⟨field, hkind⟩
    | inner hblock hkind =>
        rcases Relation.ReflTransGen.cases_head hreaches with hequal | ⟨next, hrefers, hrest⟩
        · rw [← hequal]
          exact Or.inr ⟨_, hblock⟩
        · have hnext : next = leaf := by
            cases hrefers with
            | child hother hmem =>
                rw [hblock] at hother
                cases hother
                exact List.mem_singleton.mp hmem
            | repetition hother _ => rw [hblock] at hother; cases hother
            | mirror hother _ => rw [hblock] at hother; cases hother
          rw [hnext] at hrest
          rw [hstop hkind inner hrest]
          exact Or.inl ⟨field, hkind⟩
  constructor
  · intro inner spec hreaches hkind _
    rcases hatom inner hreaches with ⟨_, hother⟩ | ⟨_, hother⟩
    · rw [hkind] at hother
      cases hother
    · rw [hkind] at hother
      cases hother
  · intro inner path range name map bytes hreaches hkind
    rcases hatom inner hreaches with ⟨_, hother⟩ | ⟨_, hother⟩
    · rw [hkind] at hother
      cases hother
    · rw [hkind] at hother
      cases hother

theorem Carries.default (hopen : ∀ index, (request.entry index).Open)
    (hvisible : ∀ index, request.isVisible [] vars index = .ok true)
    (hcarries : Carries request index leaf field)
    (hfits : field.value.length ≤ request.maxBytes.val) (fuel : Nat) :
    renderNode request [] vars (fuel + 2) (index, []) = .done field.value := by
  have hatom : ∀ {entry : Nat}, request.kind entry = .atom field → ∀ fuel,
      renderNode request [] vars (fuel + 1) (entry, []) = .done field.value := by
    intro entry hkind fuel
    rw [renderNode_kind [] fuel (hvisible entry) (Or.inr rfl), hkind, renderKind]
    exact Eval.check_bind_of hfits _
  cases hcarries with
  | self hkind => exact hatom hkind (fuel + 1)
  | inner hblock hkind =>
      have hlength : (field.value.length : Int) ≤ request.maxBytes.val - ([] : Bytes).length := by
        rw [List.length_nil]
        omega
      rw [renderNode_kind [] (fuel + 1) (hvisible index) (Or.inr rfl), hblock, renderKind,
        (hopen index).alignment, renderChildren, hatom hkind fuel, Eval.done_bind,
        Eval.check_bind_of hlength]
      rfl

theorem measure_single (hopen : ∀ index, (request.entry index).Open)
    (hvisible : ∀ index, request.isVisible [] vars index = .ok true)
    (hblock : request.kind index = .container [leaf]) (hkind : request.kind leaf = .atom field)
    (hfits : field.value.length ≤ request.maxBytes.val) (fuel : Nat) :
    measure request [] vars (fuel + 2) (index, []) = .done field.value.length := by
  have hmaximum := request.maxBytes.isLt
  have hlength : (field.value.length : Int) ≤ request.maxBytes.val := by omega
  have hinner : measure request [] vars (fuel + 1) (leaf, []) = .done field.value.length := by
    have hkept : measureKind request [] vars (measure request [] vars fuel) leaf []
        (.atom field) = .done field.value.length := rfl
    rw [measure, measureStep, hvisible leaf, Eval.liftM_eq, Eval.ofExcept_ok, Eval.done_bind,
      if_pos rfl, hkind, hkept, Eval.done_bind, measured]
    exact Eval.check_bind_of hlength _
  have hroom : (field.value.length : Int) ≤ wrap32 (request.maxBytes.val - 0) := by
    rw [wrap32_eq_self (by omega) (by omega)]
    omega
  have htotal : wrap32 (0 + field.value.length) = field.value.length :=
    (wrap32_eq_self (by omega) (by omega)).trans (Int.zero_add _)
  have hchildren : measureChildren request.maxBytes.val
      (fun child => measure request [] vars (fuel + 1) (child, [])) [leaf] 0 =
        .done field.value.length := by
    rw [measureChildren, hinner, Eval.done_bind, Eval.check_bind_of hroom, measureChildren,
      htotal]
  have hkept : measureKind request [] vars (measure request [] vars (fuel + 1)) index []
      (.container [leaf]) = .done field.value.length := by
    rw [measureKind, hchildren, Eval.done_bind, (hopen index).alignment, measurePadding]
  rw [measure, measureStep, hvisible index, Eval.liftM_eq, Eval.ofExcept_ok, Eval.done_bind,
    if_pos rfl, hblock, hkept, Eval.done_bind, measured]
  exact Eval.check_bind_of hlength _

theorem sizeDependencies_single (hblock : request.kind index = .container [leaf])
    (hkind : request.kind leaf = .atom field) (fuel : Nat) :
    sizeDependencies request (fuel + 2) index = .done [] := by
  have hleaf : ∀ visited, ∃ visited',
      dependencies request EntryKind.isSize (fuel + 1) leaf ⟨[], visited⟩ =
        .done ⟨[], visited'⟩ := by
    intro visited
    rw [dependencies]
    split
    · exact ⟨_, rfl⟩
    · rw [hkind]
      exact ⟨_, rfl⟩
  obtain ⟨visited, hvisited⟩ := hleaf [index]
  rw [sizeDependencies, dependencies, if_neg List.not_mem_nil, hblock]
  simp only [EntryKind.isSize, Bool.false_eq_true, if_false, List.foldlM_cons, List.foldlM_nil,
    hvisited, Eval.done_bind, Eval.pure_eq]

end

end CompiledRequest

end MoonBoofuzz
