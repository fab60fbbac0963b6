import MoonBoofuzz.Model.Layout

namespace MoonBoofuzz

namespace CompiledRequest

/-! Subtrees are intervals of the table. -/

/-- The entry `index` and its descendants occupy the indices below `stop`. -/
inductive Spans (request : CompiledRequest) (index : Nat) : Nat → Prop
  | leaf (hkind : (request.kind index).isContainer = false) :
      Spans request index (index + 1)
  | block {stop : Nat} {children : List Nat}
      (hkind : request.kind index = .container children)
      (hinner : Forest request index (index + 1) children stop) :
      Spans request index stop

section

variable {request : CompiledRequest} {parent start stop : Nat} {children : List Nat}

theorem Forest.le (hforest : Forest request parent start children stop) :
    start ≤ stop := by
  induction hforest with
  | nil _ _ => exact le_refl _
  | leaf _ _ _ ih => omega
  | block _ _ _ _ ihinner ih => omega

theorem Spans.lt {index : Nat} (hspans : Spans request index stop) :
    index < stop := by
  cases hspans with
  | leaf _ => omega
  | block _ hinner =>
      have := hinner.le
      omega

theorem Forest.child (hforest : Forest request parent start children stop)
    {child : Nat} (hmem : child ∈ children) :
    ChildOf request parent child ∧ start ≤ child ∧
      ∃ stop' ≤ stop, Spans request child stop' := by
  induction hforest with
  | nil _ _ => cases hmem
  | leaf hchild hkind hrest ih =>
      rcases List.mem_cons.mp hmem with rfl | htail
      · exact ⟨hchild, le_refl _, _, hrest.le, .leaf hkind⟩
      · obtain ⟨hother, hstart, hspans⟩ := ih htail
        exact ⟨hother, by omega, hspans⟩
  | block hchild hkind hinner hrest _ ih =>
      rcases List.mem_cons.mp hmem with rfl | htail
      · exact ⟨hchild, le_refl _, _, hrest.le, .block hkind hinner⟩
      · obtain ⟨hother, hstart, hspans⟩ := ih htail
        have := hinner.le
        exact ⟨hother, by omega, hspans⟩

/-- Every index of the interval spans an interval inside it. -/
theorem Forest.spans (hforest : Forest request parent start children stop)
    {index : Nat} (hstart : start ≤ index) (hstop : index < stop) :
    ∃ stop' ≤ stop, Spans request index stop' := by
  induction hforest with
  | nil _ _ => omega
  | @leaf _ start _ _ hchild hkind hrest ih =>
      by_cases hequal : index = start
      · subst hequal
        exact ⟨_, hrest.le, .leaf hkind⟩
      · exact ih (by omega) hstop
  | @block _ start middle _ _ _ hchild hkind hinner hrest ihinner ih =>
      by_cases hequal : index = start
      · subst hequal
        exact ⟨_, hrest.le, .block hkind hinner⟩
      · by_cases hbelow : index < middle
        · obtain ⟨stop', hle, hspans⟩ := ihinner (by omega) hbelow
          exact ⟨stop', hle.trans hrest.le, hspans⟩
        · exact ih (by omega) hstop

theorem Forest.covered (hforest : Forest request parent start children stop)
    {index : Nat} (hstart : start ≤ index) (hstop : index < stop) :
    index ∈ children ∨ ∃ child ∈ children, ∃ inner start' stop',
      request.kind child = .container inner ∧ Forest request child start' inner stop' ∧
        start' ≤ index ∧ index < stop' := by
  induction hforest with
  | nil _ _ => omega
  | @leaf _ start _ _ _ _ _ ih =>
      by_cases hequal : index = start
      · exact Or.inl (hequal ▸ List.mem_cons_self)
      · rcases ih (by omega) hstop with hmem | ⟨child, hmem, hbelow⟩
        · exact Or.inl (List.mem_cons_of_mem _ hmem)
        · exact Or.inr ⟨child, List.mem_cons_of_mem _ hmem, hbelow⟩
  | @block _ start middle _ inner _ _ hkind hinner _ _ ih =>
      by_cases hequal : index = start
      · exact Or.inl (hequal ▸ List.mem_cons_self)
      · by_cases hbelow : index < middle
        · exact Or.inr ⟨start, List.mem_cons_self, inner, _, _, hkind, hinner, by omega, hbelow⟩
        · rcases ih (by omega) hstop with hmem | ⟨child, hmem, hbelow⟩
          · exact Or.inl (List.mem_cons_of_mem _ hmem)
          · exact Or.inr ⟨child, List.mem_cons_of_mem _ hmem, hbelow⟩

/-- The path of a block followed by a dot begins the paths of its descendants. -/
theorem Forest.path (hforest : Forest request parent start children stop)
    {index : Nat} (hstart : start ≤ index) (hstop : index < stop) :
    (request.entry parent).path ++ [Text.dot] <+: (request.entry index).path := by
  have hchildPath : ∀ {parent child : Nat}, ChildOf request parent child →
      (request.entry parent).path ++ [Text.dot] <+: (request.entry child).path := by
    intro parent child hchild
    obtain ⟨name, -, hname⟩ := hchild.path
    exact ⟨name, by rw [hname]; simp⟩
  induction hforest with
  | nil _ _ => omega
  | @leaf _ start _ _ hchild _ _ ih =>
      by_cases hequal : index = start
      · subst hequal
        exact hchildPath hchild
      · exact ih (by omega) hstop
  | @block _ start middle _ _ _ hchild _ _ _ ihinner ih =>
      by_cases hequal : index = start
      · subst hequal
        exact hchildPath hchild
      · by_cases hbelow : index < middle
        · have hinner := ihinner (by omega) hbelow
          have hself : (request.entry start).path <+:
              (request.entry start).path ++ [Text.dot] := List.prefix_append _ _
          exact ((hchildPath hchild).trans hself).trans hinner
        · exact ih (by omega) hstop

theorem Spans.path {index inner : Nat} (hspans : Spans request index stop)
    (hstart : index < inner) (hstop : inner < stop) :
    (request.entry index).path ++ [Text.dot] <+: (request.entry inner).path := by
  cases hspans with
  | leaf _ => omega
  | block _ hinner => exact hinner.path (by omega) hstop

theorem Spans.child {index child : Nat} (hspans : Spans request index stop)
    (hkind : request.kind index = .container children) (hmem : child ∈ children) :
    index < child ∧ ∃ stop' ≤ stop, Spans request child stop' := by
  cases hspans with
  | leaf hleaf => simp [hkind, EntryKind.isContainer] at hleaf
  | block hblock hinner =>
      rw [hkind] at hblock
      cases hblock
      obtain ⟨-, hstart, hchild⟩ := hinner.child hmem
      exact ⟨hstart, hchild⟩

end

namespace Table

variable {request : CompiledRequest}

theorem spans (htable : Table request) {index : Nat}
    (hindex : index < request.entries.length) :
    ∃ stop ≤ request.entries.length, Spans request index stop := by
  obtain ⟨children, hkind, hforest⟩ := htable.tree
  obtain _ | index := index
  · exact ⟨_, le_refl _, .block hkind hforest⟩
  · exact hforest.spans (by omega) hindex

theorem resolve_lt (htable : Table request) {path : Text} {index : Nat}
    (hresolve : request.resolve path = .ok index) :
    index < request.entries.length :=
  ((htable.resolve path index).mp hresolve).1

theorem resolve_self (htable : Table request) {index : Nat}
    (hindex : index < request.entries.length) :
    request.resolve (request.entry index).path = .ok index :=
  (htable.resolve _ index).mpr ⟨hindex, rfl⟩

theorem lt_of_not_container {index : Nat}
    (hkind : (request.kind index).isContainer = false) :
    index < request.entries.length := by
  by_contra hlarge
  have hentry := entry_of_le (Nat.not_lt.mp hlarge)
  simp [kind, hentry, noEntry, EntryKind.isContainer] at hkind

theorem repeat_spans (htable : Table request)
    (hreferences : checkReferences request request.entries = .ok ())
    {index target : Nat} {path : Text} {range : RepeatRange}
    {variableName : Option Text}
    (hkind : request.kind index = .repetition path range variableName)
    (htarget : request.resolve path = .ok target) :
    ∃ stop ≤ index, Spans request target stop := by
  have hplain : (request.kind index).isContainer = false := by
    simp [hkind, EntryKind.isContainer]
  obtain ⟨hrepeat, -⟩ :=
    checkReferences_mem hreferences (entry_mem_of_not_container hplain)
  obtain ⟨-, ⟨current, hcurrent, hbefore⟩, houtside⟩ :=
    checkRepeat_target hrepeat hkind htarget
  rw [htable.resolve_self (lt_of_not_container hplain)] at hcurrent
  cases hcurrent
  obtain ⟨stop, -, hspans⟩ := htable.spans (htable.resolve_lt htarget)
  refine ⟨stop, ?_, hspans⟩
  by_contra hlarge
  have hinside := hspans.path hbefore (by omega)
  rw [((htable.resolve path target).mp htarget).2] at hinside
  exact houtside hinside

end Table

end CompiledRequest

end MoonBoofuzz
