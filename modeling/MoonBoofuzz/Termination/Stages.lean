import MoonBoofuzz.Model.Preorder
import MoonBoofuzz.Data.Worklist

namespace MoonBoofuzz

theorem buildCaseSeq_mono (entries : List Entry) (groups : List (Nat × Nat)) :
    Monotone (buildCaseSeq entries groups) := by
  apply monotone_nat_of_le_succ
  intro fuel
  induction fuel with
  | zero =>
      intro index
      exact Eval.pending_le _
  | succ fuel ih =>
      intro index
      rw [buildCaseSeq, buildCaseSeq]
      cases (entryAt entries index).kind with
      | container children =>
          exact Eval.bind_le_bind (Eval.mapM_le_mapM children fun child _ => ih child)
            fun _ => le_refl _
      | _ => exact le_refl _

namespace CompiledRequest

theorem buildCaseSeq_leaf {request : CompiledRequest} (groups : List (Nat × Nat))
    {index : Nat} (hkind : (request.kind index).isContainer = false) :
    Eval.Terminates fun fuel => buildCaseSeq request.entries groups fuel index := by
  refine ⟨1, ?_⟩
  have hentry : (entryAt request.entries index).kind = request.kind index := rfl
  simp only [buildCaseSeq, hentry]
  cases hindex : request.kind index with
  | container children => simp [hindex, EntryKind.isContainer] at hkind
  | mirror target => simp
  | _ =>
      simp only
      split <;> simp

theorem buildCaseSeq_block {request : CompiledRequest} (groups : List (Nat × Nat))
    {index : Nat} {children : List Nat}
    (hkind : request.kind index = .container children)
    (hchildren : ∀ child ∈ children, Eval.Terminates fun fuel =>
      buildCaseSeq request.entries groups fuel child) :
    Eval.Terminates fun fuel => buildCaseSeq request.entries groups fuel index := by
  obtain ⟨enough, hsettled⟩ := Eval.exists_common_fuel
    (buildCaseSeq_mono request.entries groups) children hchildren
  refine ⟨enough + 1, ?_⟩
  have hentry : (entryAt request.entries index).kind = .container children := hkind
  simp only [buildCaseSeq, hentry, Eval.bind_settled_iff]
  refine ⟨Eval.mapM_settled children (hsettled enough (le_refl _)), ?_⟩
  intro parts _
  split <;> simp

theorem Forest.buildCaseSeq_terminates {request : CompiledRequest}
    {parent start stop : Nat} {children : List Nat}
    (hforest : Forest request parent start children stop)
    (groups : List (Nat × Nat)) :
    ∀ child ∈ children, Eval.Terminates fun fuel =>
      buildCaseSeq request.entries groups fuel child := by
  induction hforest with
  | nil _ _ => simp
  | leaf _ hkind _ ih =>
      exact List.forall_mem_cons.mpr ⟨buildCaseSeq_leaf groups hkind, ih⟩
  | block _ hkind _ _ ihinner ih =>
      exact List.forall_mem_cons.mpr ⟨buildCaseSeq_block groups hkind ihinner, ih⟩

theorem Table.buildCaseSeq_terminates {request : CompiledRequest}
    (htable : Table request) (groups : List (Nat × Nat)) :
    Eval.Terminates fun fuel => buildCaseSeq request.entries groups fuel 0 := by
  obtain ⟨children, hkind, hforest⟩ := htable.tree
  exact buildCaseSeq_block groups hkind (hforest.buildCaseSeq_terminates groups)

section

variable (request : CompiledRequest) (collects : EntryKind → Bool)

theorem dependencies_mono :
    Monotone fun fuel => fun call : Nat × Trail =>
      dependencies request collects fuel call.1 call.2 := by
  apply monotone_nat_of_le_succ
  intro fuel
  induction fuel with
  | zero =>
      intro call
      exact Eval.pending_le _
  | succ fuel ih =>
      rintro ⟨index, trail⟩
      simp only [dependencies]
      split
      · exact le_refl _
      · split
        · exact le_refl _
        · cases request.kind index with
          | container children =>
              exact Eval.foldlM_le_foldlM children _
                fun trail child _ => ih (child, trail)
          | repetition path range variableName =>
              apply Eval.bind_le_bind (le_refl _)
              intro target
              exact ih (target, _)
          | _ => exact le_refl _

theorem kind_of_large {index : Nat} (hindex : request.entries.length ≤ index) :
    request.kind index = .container [] := by
  rw [kind, entry, List.getD_eq_getElem?_getD, List.getElem?_eq_none hindex]
  rfl

def rest (seen : List Nat) : Nat :=
  unseen (Finset.range request.entries.length) seen

/-- Fuel for every entry that is left to visit lets the search end. -/
theorem dependencies_settled {fuel : Nat} :
    ∀ {index : Nat} {trail : Trail}, rest request trail.visited < fuel →
      (dependencies request collects fuel index trail).Settled ∧
        ∀ trail', dependencies request collects fuel index trail = .done trail' →
          trail.visited ⊆ trail'.visited := by
  induction fuel with
  | zero =>
      intro index trail hfuel
      omega
  | succ fuel ih =>
      intro index trail hfuel
      simp only [dependencies]
      by_cases hseen : index ∈ trail.visited
      · simp [hseen]
      have hvisit : trail.visited ⊆ index :: trail.visited :=
        List.subset_cons_self _ _
      rw [if_neg hseen]
      split
      · simp
      by_cases hlarge : request.entries.length ≤ index
      · simp [kind_of_large request hlarge]
      have hless : rest request (index :: trail.visited) < fuel := by
        have := unseen_lt (Finset.mem_range.mpr (Nat.not_le.mp hlarge)) hseen hvisit
          List.mem_cons_self
        unfold rest at hfuel ⊢
        omega
      cases request.kind index with
      | container children =>
          have hstep : ∀ (trail' : Trail) (child : Nat), child ∈ children →
              index :: trail.visited ⊆ trail'.visited →
              (dependencies request collects fuel child trail').Settled ∧
                ∀ trail'', dependencies request collects fuel child trail' =
                  .done trail'' → index :: trail.visited ⊆ trail''.visited := by
            intro trail' child _ hinv
            have hfewer : rest request trail'.visited < fuel :=
              lt_of_le_of_lt (unseen_anti _ hinv) hless
            obtain ⟨hchild, hlonger⟩ := @ih child trail' hfewer
            exact ⟨hchild, fun trail'' hdone =>
              List.Subset.trans hinv (hlonger trail'' hdone)⟩
          have hstart : index :: trail.visited ⊆
              (Trail.mk trail.output (index :: trail.visited)).visited :=
            List.Subset.refl _
          obtain ⟨hsettled, hgrows⟩ := Eval.foldlM_settled
            (fun trail' : Trail => index :: trail.visited ⊆ trail'.visited) children
            hstart hstep
          exact ⟨hsettled, fun trail' hdone =>
            List.Subset.trans hvisit (hgrows trail' hdone)⟩
      | repetition path range variableName =>
          simp only [Eval.liftM_eq]
          cases request.resolve path with
          | error error => simp
          | ok target =>
              obtain ⟨hsettled, hgrows⟩ := @ih target
                { trail with visited := index :: trail.visited } hless
              exact ⟨hsettled, fun trail' hdone =>
                List.Subset.trans hvisit (hgrows trail' hdone)⟩
      | _ => simp

theorem collected_mono (target : Nat) :
    Monotone fun fuel => (dependencies request collects fuel target ⟨[], []⟩ >>=
      fun trail => Eval.done trail.output) := by
  intro first second hle
  exact Eval.bind_le_bind (dependencies_mono request collects hle (target, _))
    fun _ => le_refl _

theorem collected_settled {fuel : Nat} (hfuel : request.entries.length < fuel)
    (target : Nat) :
    (dependencies request collects fuel target ⟨[], []⟩ >>=
      fun trail => Eval.done trail.output).Settled := by
  have hrest : rest request [] < fuel :=
    lt_of_le_of_lt (unseen_le _ _) (by simpa using hfuel)
  rw [Eval.bind_settled_iff]
  exact ⟨(dependencies_settled request collects hrest).1, fun _ _ => by simp⟩

end

section

variable (request : CompiledRequest)

theorem entrySizeEdges_mono (entry : Entry) (i : Nat) :
    Monotone fun fuel => entrySizeEdges request fuel entry i := by
  intro first second hle
  simp only [entrySizeEdges]
  split
  · apply Eval.bind_le_bind (le_refl _)
    intro target
    apply Eval.bind_le_bind (le_refl _)
    intro _
    exact Eval.bind_le_bind (collected_mono request EntryKind.isSize target hle)
      fun _ => le_refl _
  · exact le_refl _

theorem entryChecksumEdges_mono (entry : Entry) (i : Nat) :
    Monotone fun fuel => entryChecksumEdges request fuel entry i := by
  intro first second hle
  simp only [entryChecksumEdges]
  split
  · apply Eval.bind_le_bind (le_refl _)
    intro target
    apply Eval.bind_le_bind (le_refl _)
    intro _
    exact Eval.bind_le_bind (collected_mono request EntryKind.isChecksum target hle)
      fun _ => le_refl _
  · exact le_refl _

theorem entrySizeEdges_settled {fuel : Nat} (hfuel : request.entries.length < fuel)
    (entry : Entry) (i : Nat) : (entrySizeEdges request fuel entry i).Settled := by
  simp only [entrySizeEdges]
  split
  · simp only [Eval.bind_settled_iff, Eval.liftM_eq, Eval.ofExcept_settled,
      Eval.check_settled, implies_true, and_true, true_and]
    intro _ _ _ _
    exact collected_settled request EntryKind.isSize hfuel _
  · simp

theorem entryChecksumEdges_settled {fuel : Nat}
    (hfuel : request.entries.length < fuel) (entry : Entry) (i : Nat) :
    (entryChecksumEdges request fuel entry i).Settled := by
  simp only [entryChecksumEdges]
  split
  · simp only [Eval.bind_settled_iff, Eval.liftM_eq, Eval.ofExcept_settled,
      Eval.check_settled, implies_true, and_true, true_and]
    intro _ _ _ _
    exact collected_settled request EntryKind.isChecksum hfuel _
  · simp

theorem sizeEdges_mono (entries : List Entry) (i : Nat) :
    Monotone fun fuel => sizeEdges request fuel entries i := by
  intro first second hle
  induction entries generalizing i with
  | nil => exact le_refl _
  | cons entry rest ih =>
      apply Eval.bind_le_bind (entrySizeEdges_mono request entry i hle)
      intro own
      exact Eval.bind_le_bind (ih (i + 1)) fun _ => le_refl _

theorem checksumEdges_mono (entries : List Entry) (i : Nat) :
    Monotone fun fuel => checksumEdges request fuel entries i := by
  intro first second hle
  induction entries generalizing i with
  | nil => exact le_refl _
  | cons entry rest ih =>
      apply Eval.bind_le_bind (entryChecksumEdges_mono request entry i hle)
      intro own
      exact Eval.bind_le_bind (ih (i + 1)) fun _ => le_refl _

theorem sizeEdges_settled {fuel : Nat} (hfuel : request.entries.length < fuel)
    (entries : List Entry) (i : Nat) : (sizeEdges request fuel entries i).Settled := by
  induction entries generalizing i with
  | nil => simp [sizeEdges]
  | cons entry rest ih =>
      simp only [sizeEdges, Eval.bind_settled_iff]
      refine ⟨entrySizeEdges_settled request hfuel entry i, fun _ _ => ?_⟩
      exact ⟨ih (i + 1), fun _ _ => by simp⟩

theorem checksumEdges_settled {fuel : Nat} (hfuel : request.entries.length < fuel)
    (entries : List Entry) (i : Nat) :
    (checksumEdges request fuel entries i).Settled := by
  induction entries generalizing i with
  | nil => simp [checksumEdges]
  | cons entry rest ih =>
      simp only [checksumEdges, Eval.bind_settled_iff]
      refine ⟨entryChecksumEdges_settled request hfuel entry i, fun _ _ => ?_⟩
      exact ⟨ih (i + 1), fun _ _ => by simp⟩

theorem validateChecksums_mono : Monotone (validateChecksums request) := by
  intro first second hle
  exact Eval.bind_le_bind (checksumEdges_mono request _ _ hle) fun _ => le_refl _

theorem validateChecksums_terminates : Eval.Terminates (validateChecksums request) := by
  refine ⟨request.entries.length + 1, ?_⟩
  simp only [validateChecksums, Eval.bind_settled_iff, Eval.liftM_eq,
    Eval.ofExcept_settled, true_and]
  exact ⟨checksumEdges_settled request (Nat.lt_succ_self _) _ _, fun _ _ _ _ => by simp⟩

end

theorem assemble_mono (root : Block) (maxBytes : Int32) :
    Monotone (assemble root maxBytes) := by
  intro first second hle
  unfold assemble
  split
  · apply Eval.bind_le_bind (le_refl _)
    intro added
    apply Eval.bind_le_bind (le_refl _)
    intro groups
    exact Eval.bind_le_bind (buildCaseSeq_mono _ _ hle 0) fun _ => le_refl _
  · exact le_refl _

theorem assemble_terminates (root : Block) (maxBytes : Int32) :
    Eval.Terminates (assemble root maxBytes) := by
  unfold assemble
  split
  · rename_i hbytes
    cases hadd : addNode [] none 0 ⟨[], []⟩ (.nested root) with
    | error error => exact ⟨0, by simp⟩
    | ok added =>
        obtain ⟨index, draft⟩ := added
        cases hgroups : resolveGroups draft draft.entries 0 with
        | error error => exact ⟨0, by simp [hgroups]⟩
        | ok groups =>
            let request : CompiledRequest :=
              ⟨root.name, draft.entries, draft.paths, 0, .sequence []⟩
            have htable : Table request := table_of_added hadd
            obtain ⟨fuel, hfuel⟩ := htable.buildCaseSeq_terminates groups
            refine ⟨fuel, ?_⟩
            simp only [Eval.liftM_eq, Eval.ofExcept_ok, Eval.done_bind, hgroups,
              Eval.bind_settled_iff, Eval.ofExcept_settled, true_and]
            exact ⟨hfuel, fun _ _ _ _ => by simp⟩
  · exact ⟨0, by simp⟩

end CompiledRequest

end MoonBoofuzz
