import MoonBoofuzz.Model.Preorder
import MoonBoofuzz.Mutation.Sequential

namespace MoonBoofuzz

namespace CompiledRequest

/-! The units of a request without grouped blocks: every candidate of every entry,
in the order of the table. -/

def GroupFree (request : CompiledRequest) : Prop :=
  ∀ entry ∈ request.entries, entry.group = none

def candidatesOf (request : CompiledRequest) (entry : Nat) : Parts :=
  (List.range (request.kind entry).count).map fun i => (entry, i)

/-- The entries from `start` on, with their candidates. -/
def choicesFrom (request : CompiledRequest) (start count : Nat) : Parts :=
  (List.range' start count).flatMap request.candidatesOf

def choices (request : CompiledRequest) : Parts :=
  request.choicesFrom 0 request.entries.length

/-- The order of the units: by entry, then by candidate. -/
def Earlier (left right : Nat × Nat) : Prop :=
  left.1 < right.1 ∨ left.1 = right.1 ∧ left.2 < right.2

def single (choice : Nat × Nat) : StreamUnit where
  parts := [⟨choice.1, choice.2, false⟩]
  child := choice.1

section

variable {request : CompiledRequest}

theorem candidatesOf_container {index : Nat} {children : List Nat}
    (hkind : request.kind index = .container children) :
    request.candidatesOf index = [] := by
  simp [candidatesOf, hkind, EntryKind.count]

theorem choicesFrom_succ (start count : Nat) :
    request.choicesFrom start (count + 1) =
      request.candidatesOf start ++ request.choicesFrom (start + 1) count := by
  simp [choicesFrom, List.range'_succ]

theorem choicesFrom_append (start first second : Nat) :
    request.choicesFrom start first ++ request.choicesFrom (start + first) second =
      request.choicesFrom start (first + second) := by
  simp [choicesFrom, ← List.flatMap_append, List.range'_append_1]

theorem collectUnits_leaf {fuel index : Nat} {seq : CaseSeq}
    (hkind : (request.kind index).isContainer = false)
    (hseq : buildCaseSeq request.entries [] fuel index = .done seq) :
    collectUnits request [] seq = (request.candidatesOf index).map single := by
  obtain _ | fuel := fuel
  · simp [buildCaseSeq] at hseq
  have hentry : (entryAt request.entries index).kind = request.kind index := rfl
  rw [buildCaseSeq, hentry] at hseq
  cases hindex : request.kind index with
  | container children => simp [hindex, EntryKind.isContainer] at hkind
  | mirror target =>
      simp only [hindex, Eval.done.injEq] at hseq
      subst hseq
      simp [collectUnits, collectAll, candidatesOf, hindex, EntryKind.count]
  | _ =>
      simp only [hindex] at hseq
      split at hseq
      · cases hseq
        simp [collectUnits, candidatesOf, single, Function.comp_def]
      · rename_i hnone
        cases hseq
        simp only [Nat.not_lt, Nat.le_zero] at hnone
        simp [collectUnits, collectAll, candidatesOf, hindex, hnone]

theorem buildCaseSeq_container {fuel index : Nat} {children : List Nat}
    {seq : CaseSeq} (hkind : request.kind index = .container children)
    (hseq : buildCaseSeq request.entries [] fuel index = .done seq) :
    ∃ fuel' parts,
      children.mapM (buildCaseSeq request.entries [] fuel') = .done parts ∧
        seq = .sequence parts := by
  obtain _ | fuel := fuel
  · simp [buildCaseSeq] at hseq
  have hentry : (entryAt request.entries index).kind = .container children := hkind
  simp only [buildCaseSeq, hentry, List.lookup_nil, Eval.bind_eq_done_iff,
    Eval.done.injEq] at hseq
  obtain ⟨parts, hparts, rfl⟩ := hseq
  exact ⟨fuel, parts, hparts, rfl⟩

theorem Forest.units {parent start stop : Nat} {children : List Nat}
    (hforest : Forest request parent start children stop) :
    ∀ {fuel : Nat} {seqs : List CaseSeq},
      children.mapM (buildCaseSeq request.entries [] fuel) = .done seqs →
      collectAll request [] seqs =
        (request.choicesFrom start (stop - start)).map single := by
  induction hforest with
  | nil parent start =>
      intro fuel seqs hseqs
      cases hseqs
      simp [collectAll, choicesFrom]
  | @leaf parent start stop rest hchild hkind hrest ih =>
      intro fuel seqs hseqs
      simp only [List.mapM_cons, Eval.bind_eq_done_iff, Eval.pure_eq,
        Eval.done.injEq] at hseqs
      obtain ⟨seq, hseq, others, hothers, rfl⟩ := hseqs
      have hle := hrest.le
      have hcount : stop - start = (stop - (start + 1)) + 1 := by omega
      rw [collectAll, collectUnits_leaf hkind hseq, ih hothers, hcount,
        choicesFrom_succ, List.map_append]
  | @block parent start middle stop inner rest hchild hkind hinner hrest ihinner ih =>
      intro fuel seqs hseqs
      simp only [List.mapM_cons, Eval.bind_eq_done_iff, Eval.pure_eq,
        Eval.done.injEq] at hseqs
      obtain ⟨seq, hseq, others, hothers, rfl⟩ := hseqs
      obtain ⟨fuel', parts, hparts, rfl⟩ := buildCaseSeq_container hkind hseq
      have hbelow := hinner.le
      have hle := hrest.le
      have hsplit : request.choicesFrom start (stop - start) =
          request.choicesFrom (start + 1) (middle - (start + 1)) ++
            request.choicesFrom middle (stop - middle) := by
        have hcount : stop - start = (stop - (start + 1)) + 1 := by omega
        have hmiddle : middle = start + 1 + (middle - (start + 1)) := by omega
        have hsum : stop - (start + 1) =
            (middle - (start + 1)) + (stop - middle) := by omega
        rw [hcount, choicesFrom_succ, candidatesOf_container hkind, List.nil_append,
          hsum, ← choicesFrom_append, ← hmiddle]
      rw [collectAll, collectUnits, ihinner hparts, ih hothers, hsplit,
        List.map_append]

/-- Without groups the units are the single candidates in table order. -/
theorem collectUnits_groupFree {root : Block} {maxBytes : Int32} {fuel : Nat}
    (hassembled : Assembled root maxBytes fuel request)
    (hfree : request.GroupFree) :
    collectUnits request [] request.seq = request.choices.map single := by
  obtain ⟨groups, hgroups, hseq⟩ := hassembled.sequenced
  rw [resolveGroups_free hfree] at hgroups
  cases hgroups
  obtain ⟨children, hkind, hforest⟩ := hassembled.table.tree
  obtain ⟨fuel', parts, hparts, hroot⟩ := buildCaseSeq_container hkind hseq
  have hlength := hassembled.table.root
  have hcount : request.entries.length = (request.entries.length - 1) + 1 := by omega
  rw [hroot, collectUnits, hforest.units hparts, choices, hcount, choicesFrom_succ,
    candidatesOf_container hkind, List.nil_append]
  rfl

theorem mem_candidatesOf {index : Nat} {choice : Nat × Nat} :
    choice ∈ request.candidatesOf index ↔
      choice.1 = index ∧ choice.2 < (request.kind index).count := by
  obtain ⟨entry, i⟩ := choice
  simp only [candidatesOf, List.mem_map, List.mem_range, Prod.mk.injEq]
  constructor
  · rintro ⟨j, hj, rfl, rfl⟩
    exact ⟨rfl, hj⟩
  · rintro ⟨rfl, hi⟩
    exact ⟨i, hi, rfl, rfl⟩

theorem lt_of_count {index i : Nat} (hcount : i < (request.kind index).count) :
    index < request.entries.length := by
  apply Table.lt_of_not_container
  cases hkind : request.kind index with
  | container children => simp [hkind, EntryKind.count] at hcount
  | _ => rfl

theorem mem_choices {choice : Nat × Nat} :
    choice ∈ request.choices ↔ choice.2 < (request.kind choice.1).count := by
  simp only [choices, choicesFrom, List.mem_flatMap, mem_candidatesOf,
    List.mem_range'_1]
  constructor
  · rintro ⟨index, -, rfl, hcount⟩
    exact hcount
  · intro hcount
    refine ⟨choice.1, ⟨Nat.zero_le _, ?_⟩, rfl, hcount⟩
    rw [Nat.zero_add]
    exact lt_of_count hcount

theorem candidatesOf_pairwise (index : Nat) :
    (request.candidatesOf index).Pairwise Earlier := by
  rw [candidatesOf, List.pairwise_map]
  exact List.pairwise_lt_range.imp fun hless => Or.inr ⟨rfl, hless⟩

theorem choices_pairwise : request.choices.Pairwise Earlier := by
  rw [choices, choicesFrom, ← List.range_eq_range', List.pairwise_flatMap]
  refine ⟨fun index _ => candidatesOf_pairwise index, ?_⟩
  refine List.pairwise_lt_range.imp fun hless left hleft right hright => ?_
  obtain ⟨hfirst, -⟩ := mem_candidatesOf.mp hleft
  obtain ⟨hsecond, -⟩ := mem_candidatesOf.mp hright
  exact Or.inl (by omega)

end

end CompiledRequest

end MoonBoofuzz
