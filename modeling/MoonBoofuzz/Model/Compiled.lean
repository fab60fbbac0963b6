import MoonBoofuzz.Model.Compile

namespace MoonBoofuzz

namespace CompiledRequest

/-! What a successful compilation has checked. -/

/-- The stages of `assemble`, for the request they produce. -/
structure Assembled (root : Block) (maxBytes : Int32) (fuel : Nat)
    (request : CompiledRequest) : Prop where
  name : request.name = root.name
  maxBytes : (request.maxBytes.val : Int) = maxBytes.toInt
  added : ∃ index, addNode [] none 0 ⟨[], []⟩ (.nested root) =
    .ok (index, ⟨request.entries, request.paths⟩)
  sequenced : ∃ groups,
    resolveGroups ⟨request.entries, request.paths⟩ request.entries 0 = .ok groups ∧
      buildCaseSeq request.entries groups fuel 0 = .done request.seq
  references : checkReferences request request.entries = .ok ()

theorem assemble_eq_done {root : Block} {maxBytes : Int32} {fuel : Nat}
    {request : CompiledRequest}
    (hassemble : assemble root maxBytes fuel = .done request) :
    Assembled root maxBytes fuel request := by
  unfold assemble at hassemble
  split at hassemble
  · rename_i hbytes
    simp only [Eval.bind_eq_done_iff, Eval.liftM_eq, Eval.ofExcept_eq_done_iff,
      Eval.done.injEq] at hassemble
    obtain ⟨⟨index, draft⟩, hadded, groups, hgroups, seq, hseq, _, hreferences,
      rfl⟩ := hassemble
    exact {
      name := rfl
      maxBytes := Int.toNat_of_nonneg hbytes
      added := ⟨index, hadded⟩
      sequenced := ⟨groups, hgroups, hseq⟩
      references := hreferences }
  · cases hassemble

/-- The stages of `compile`. -/
structure Compiled (root : Block) (maxBytes : Int32) (fuel : Nat)
    (request : CompiledRequest) : Prop where
  assembled : Assembled root maxBytes fuel request
  sizes : validateSizes request fuel = .done ()
  checksums : validateChecksums request fuel = .done ()
  rendered : ∃ bytes, render request fuel = .done bytes

theorem compile_eq_done {root : Block} {maxBytes : Int32} {fuel : Nat}
    {request : CompiledRequest}
    (hcompile : compile root maxBytes fuel = .done request) :
    Compiled root maxBytes fuel request := by
  simp only [compile, Eval.bind_eq_done_iff, Eval.done.injEq] at hcompile
  obtain ⟨middle, hassemble, _, hsizes, _, hchecksums, bytes, hrender, rfl⟩ :=
    hcompile
  exact {
    assembled := assemble_eq_done hassemble
    sizes := hsizes
    checksums := hchecksums
    rendered := ⟨bytes, hrender⟩ }

theorem resolveGroups_free {draft : Draft} {entries : List Entry}
    (hfree : ∀ entry ∈ entries, entry.group = none) (i : Nat) :
    resolveGroups draft entries i = .ok [] := by
  induction entries generalizing i with
  | nil => rfl
  | cons entry rest ih =>
      rw [resolveGroups, hfree entry (by simp)]
      exact ih (fun other hmem => hfree other (by simp [hmem])) (i + 1)

section

variable {request : CompiledRequest}

theorem entry_mem_of_ne {index : Nat} (hentry : request.entry index ≠ noEntry) :
    request.entry index ∈ request.entries := by
  by_cases hindex : index < request.entries.length
  · rw [entry, List.getD_eq_getElem?_getD, List.getElem?_eq_getElem hindex]
    exact List.getElem_mem hindex
  · exact absurd (entry_of_le (Nat.not_lt.mp hindex)) hentry

theorem entry_mem_of_not_container {index : Nat}
    (hkind : (request.kind index).isContainer = false) :
    request.entry index ∈ request.entries := by
  apply entry_mem_of_ne
  intro hentry
  simp [kind, hentry, noEntry, EntryKind.isContainer] at hkind

theorem checkReferences_mem {entries : List Entry}
    (hcheck : checkReferences request entries = .ok ()) {entry : Entry}
    (hmem : entry ∈ entries) :
    checkRepeat request entry = .ok () ∧ checkCondition request entry = .ok () ∧
      checkMirror request entry = .ok () := by
  induction entries with
  | nil => simp at hmem
  | cons head rest ih =>
      simp only [checkReferences, bind, Except.bind] at hcheck
      cases hrepeat : checkRepeat request head with
      | error error => simp [hrepeat] at hcheck
      | ok _ =>
          cases hcondition : checkCondition request head with
          | error error => simp [hrepeat, hcondition] at hcheck
          | ok _ =>
              cases hmirror : checkMirror request head with
              | error error => simp [hrepeat, hcondition, hmirror] at hcheck
              | ok _ =>
                  simp only [hrepeat, hcondition, hmirror] at hcheck
                  rcases List.mem_cons.mp hmem with rfl | htail
                  · exact ⟨hrepeat, hcondition, hmirror⟩
                  · exact ih hcheck htail

theorem checkRepeat_target {entry : Entry} {path : Text} {range : RepeatRange}
    {variableName : Option Text}
    (hcheck : checkRepeat request entry = .ok ())
    (hkind : entry.kind = .repetition path range variableName) {target : Nat}
    (htarget : request.resolve path = .ok target) :
    (request.kind target).isContainer = true ∧
      (∃ current, request.resolve entry.path = .ok current ∧ target < current) ∧
      ¬ path ++ [Text.dot] <+: entry.path := by
  simp only [checkRepeat, hkind, htarget, bind, Except.bind] at hcheck
  cases hcurrent : request.resolve entry.path with
  | error error => simp [hcurrent] at hcheck
  | ok current =>
      simp only [hcurrent] at hcheck
      split at hcheck
      · rename_i hconditions
        obtain ⟨hcontainer, hbefore, houtside⟩ := hconditions
        exact ⟨hcontainer, ⟨current, rfl, hbefore⟩, by simpa using houtside⟩
      · cases hcheck

theorem checkCondition_target {entry : Entry} {condition : Condition}
    (hcheck : checkCondition request entry = .ok ())
    (hcondition : entry.condition = some condition) {target : Nat}
    (htarget : request.resolve condition.path = .ok target) :
    (request.kind target).isField = true := by
  simp only [checkCondition, hcondition, htarget, bind, Except.bind] at hcheck
  cases hkind : request.kind target <;> simp_all [EntryKind.isField]

theorem sizeEdges_mem {fuel : Nat} {entries : List Entry} :
    ∀ {start : Nat} {edges : List (List Nat)},
      sizeEdges request fuel entries start = .done edges →
      ∀ {entry : Entry} {spec : SizeSpec}, entry ∈ entries →
        entry.kind = .computedSize spec →
        ∃ target, request.resolve spec.target = .ok target ∧
          (request.kind target).isContainer = true := by
  induction entries with
  | nil => simp
  | cons head rest ih =>
      intro start edges hedges entry spec hmem hkind
      simp only [sizeEdges, Eval.bind_eq_done_iff] at hedges
      obtain ⟨own, hown, others, hothers, -⟩ := hedges
      rcases List.mem_cons.mp hmem with rfl | htail
      · simp only [entrySizeEdges, hkind, Eval.bind_eq_done_iff, Eval.liftM_eq,
          Eval.ofExcept_eq_done_iff, Eval.check_eq_done_iff] at hown
        obtain ⟨target, htarget, _, hcontainer, -⟩ := hown
        exact ⟨target, htarget, hcontainer⟩
      · exact ih hothers htail hkind

theorem checksumEdges_mem {fuel : Nat} {entries : List Entry} :
    ∀ {start : Nat} {edges : List (List Nat)},
      checksumEdges request fuel entries start = .done edges →
      ∀ {entry : Entry} {spec : ChecksumSpec}, entry ∈ entries →
        entry.kind = .computedChecksum spec →
        ∃ target, request.resolve spec.target = .ok target ∧
          (request.kind target).isContainer = true := by
  induction entries with
  | nil => simp
  | cons head rest ih =>
      intro start edges hedges entry spec hmem hkind
      simp only [checksumEdges, Eval.bind_eq_done_iff] at hedges
      obtain ⟨own, hown, others, hothers, -⟩ := hedges
      rcases List.mem_cons.mp hmem with rfl | htail
      · simp only [entryChecksumEdges, hkind, Eval.bind_eq_done_iff, Eval.liftM_eq,
          Eval.ofExcept_eq_done_iff, Eval.check_eq_done_iff] at hown
        obtain ⟨target, htarget, _, hcontainer, -⟩ := hown
        exact ⟨target, htarget, hcontainer⟩
      · exact ih hothers htail hkind

end

/-- Conditions name fields. -/
def ConditionTargets (request : CompiledRequest) : Prop :=
  ∀ index condition target, (request.entry index).condition = some condition →
    request.resolve condition.path = .ok target →
      (request.kind target).isField = true

theorem Compiled.conditionTargets {root : Block} {maxBytes : Int32} {fuel : Nat}
    {request : CompiledRequest} (h : Compiled root maxBytes fuel request) :
    ConditionTargets request := by
  intro index condition target hcondition htarget
  have hmem : request.entry index ∈ request.entries := by
    apply entry_mem_of_ne
    rintro hentry
    simp [hentry, noEntry] at hcondition
  obtain ⟨-, hcheck, -⟩ := checkReferences_mem h.assembled.references hmem
  exact checkCondition_target hcheck hcondition htarget

/-- What compilation has checked of the blocks that repeats, sizes and checksums
name. -/
structure BlockTargets (request : CompiledRequest) : Prop where
  repetition : ∀ index path range variableName target,
    request.kind index = .repetition path range variableName →
      request.resolve path = .ok target → (request.kind target).isContainer = true
  size : ∀ index spec, request.kind index = .computedSize spec →
    ∃ target, request.resolve spec.target = .ok target ∧
      (request.kind target).isContainer = true
  checksum : ∀ index spec, request.kind index = .computedChecksum spec →
    ∃ target, request.resolve spec.target = .ok target ∧
      (request.kind target).isContainer = true

theorem Compiled.blockTargets {root : Block} {maxBytes : Int32} {fuel : Nat}
    {request : CompiledRequest} (h : Compiled root maxBytes fuel request) :
    BlockTargets request where
  repetition := by
    intro index path range variableName target hkind htarget
    have hplain : (request.kind index).isContainer = false := by
      simp [hkind, EntryKind.isContainer]
    have hmem := entry_mem_of_not_container hplain
    obtain ⟨hrepeat, -⟩ := checkReferences_mem h.assembled.references hmem
    exact (checkRepeat_target hrepeat hkind htarget).1
  size := by
    intro index spec hkind
    have hsizes := h.sizes
    simp only [validateSizes, Eval.bind_eq_done_iff] at hsizes
    obtain ⟨edges, hedges, -⟩ := hsizes
    have hplain : (request.kind index).isContainer = false := by
      simp [hkind, EntryKind.isContainer]
    have hmem := entry_mem_of_not_container hplain
    exact sizeEdges_mem hedges hmem hkind
  checksum := by
    intro index spec hkind
    have hchecksums := h.checksums
    simp only [validateChecksums, Eval.bind_eq_done_iff] at hchecksums
    obtain ⟨edges, hedges, -⟩ := hchecksums
    have hplain : (request.kind index).isContainer = false := by
      simp [hkind, EntryKind.isContainer]
    have hmem := entry_mem_of_not_container hplain
    exact checksumEdges_mem hedges hmem hkind

end CompiledRequest

end MoonBoofuzz
