import MoonBoofuzz.Mutation.Identity
import MoonBoofuzz.Mutation.Prefix

namespace MoonBoofuzz

namespace CompiledRequest

/-! Cases of one part.  A sequence lists them where their entry stands by itself. -/

theorem eq_of_getElem?_range {count position value : Nat}
    (hat : (List.range count)[position]? = some value) : position = value := by
  obtain ⟨_, hvalue⟩ := List.getElem?_eq_some_iff.mp hat
  rwa [List.getElem_range] at hvalue

mutual
def plains : CaseSeq → List Nat
  | .plain entry => [entry]
  | .sequence children => plainsAll children
  | .product _ _ => []

def plainsAll : List CaseSeq → List Nat
  | [] => []
  | child :: rest => plains child ++ plainsAll rest
end

section

variable {request : CompiledRequest} {groups : List (Nat × Nat)} {entry index : Nat}

theorem single_notMem_product {group : Nat} {inner : CaseSeq} {part : Nat × Nat} :
    [part] ∉ denote request (.product group inner) := by
  intro hmem
  rw [denote] at hmem
  obtain ⟨pass, -, hinner⟩ := List.mem_flatMap.mp hmem
  obtain ⟨rest, hrest, hsame⟩ := List.mem_map.mp hinner
  exact denote_ne_nil inner rest hrest (List.cons.inj hsame).2

mutual
theorem mem_plains : ∀ seq : CaseSeq, [(entry, index)] ∈ denote request seq → entry ∈ plains seq
  | .plain other, hmem => by
      obtain ⟨i, -, hsame⟩ := List.mem_map.mp hmem
      cases hsame
      exact List.mem_singleton_self _
  | .sequence children, hmem => mem_plainsAll children hmem
  | .product _ _, hmem => absurd hmem single_notMem_product

theorem mem_plainsAll : ∀ children : List CaseSeq,
    [(entry, index)] ∈ denoteAll request children → entry ∈ plainsAll children
  | [], hmem => by cases hmem
  | child :: rest, hmem => by
      rw [denoteAll] at hmem
      rcases List.mem_append.mp hmem with hfirst | hlater
      · exact List.mem_append_left _ (mem_plains child hfirst)
      · exact List.mem_append_right _ (mem_plainsAll rest hlater)
end

mutual
theorem single_count : ∀ seq : CaseSeq, [(entry, index)] ∈ denote request seq →
    index < (request.kind entry).count
  | .plain other, hmem => by
      obtain ⟨i, hi, hsame⟩ := List.mem_map.mp hmem
      cases hsame
      exact List.mem_range.mp hi
  | .sequence children, hmem => single_count_all children hmem
  | .product _ _, hmem => absurd hmem single_notMem_product

theorem single_count_all : ∀ children : List CaseSeq,
    [(entry, index)] ∈ denoteAll request children → index < (request.kind entry).count
  | [], hmem => by cases hmem
  | child :: rest, hmem => by
      rw [denoteAll] at hmem
      rcases List.mem_append.mp hmem with hfirst | hlater
      · exact single_count child hfirst
      · exact single_count_all rest hlater
end

mutual
theorem single_unique : ∀ seq : CaseSeq, (plains seq).Nodup → ∀ {first second : Nat},
    (denote request seq)[first]? = some [(entry, index)] →
    (denote request seq)[second]? = some [(entry, index)] → first = second
  | .plain other, _, first, second, hfirst, hsecond => by
      rw [denote, List.getElem?_map, Option.map_eq_some_iff] at hfirst hsecond
      obtain ⟨i, hi, hsame⟩ := hfirst
      obtain ⟨j, hj, hsame'⟩ := hsecond
      cases hsame
      cases hsame'
      exact (eq_of_getElem?_range hi).trans (eq_of_getElem?_range hj).symm
  | .sequence children, hnodup, first, second, hfirst, hsecond =>
      single_unique_all children hnodup hfirst hsecond
  | .product _ _, _, first, second, hfirst, _ =>
      absurd (List.mem_of_getElem? hfirst) single_notMem_product

theorem single_unique_all : ∀ children : List CaseSeq, (plainsAll children).Nodup →
    ∀ {first second : Nat}, (denoteAll request children)[first]? = some [(entry, index)] →
    (denoteAll request children)[second]? = some [(entry, index)] → first = second
  | [], _, first, second, hfirst, _ => by cases hfirst
  | child :: rest, hnodup, first, second, hfirst, hsecond => by
      rw [plainsAll, List.nodup_append] at hnodup
      obtain ⟨hchild, hrest, hapart⟩ := hnodup
      rw [denoteAll, List.getElem?_append] at hfirst hsecond
      split at hfirst <;> split at hsecond
      · exact single_unique child hchild hfirst hsecond
      · exact absurd rfl (hapart _ (mem_plains child (List.mem_of_getElem? hfirst)) _
          (mem_plainsAll rest (List.mem_of_getElem? hsecond)))
      · exact absurd rfl (hapart _ (mem_plains child (List.mem_of_getElem? hsecond)) _
          (mem_plainsAll rest (List.mem_of_getElem? hfirst)))
      · have hsame := single_unique_all rest hrest hfirst hsecond
        omega
end

mutual
theorem single_block : ∀ (seq : CaseSeq) {start : Nat},
    (denote request seq)[start]? = some [(entry, 0)] → index < (request.kind entry).count →
    (denote request seq)[start + index]? = some [(entry, index)]
  | .plain other, start, hstart, hindex => by
      rw [denote, List.getElem?_map, Option.map_eq_some_iff] at hstart
      obtain ⟨i, hi, hsame⟩ := hstart
      cases hsame
      obtain rfl : start = 0 := eq_of_getElem?_range hi
      rw [denote, List.getElem?_map, Nat.zero_add, List.getElem?_range hindex, Option.map_some]
  | .sequence children, start, hstart, hindex => single_block_all children hstart hindex
  | .product _ _, start, hstart, _ =>
      absurd (List.mem_of_getElem? hstart) single_notMem_product

theorem single_block_all : ∀ (children : List CaseSeq) {start : Nat},
    (denoteAll request children)[start]? = some [(entry, 0)] →
    index < (request.kind entry).count →
    (denoteAll request children)[start + index]? = some [(entry, index)]
  | [], start, hstart, _ => by cases hstart
  | child :: rest, start, hstart, hindex => by
      rw [denoteAll, List.getElem?_append] at hstart
      rw [denoteAll]
      split at hstart
      · have hblock := single_block child hstart hindex
        rwa [List.getElem?_append_left (List.getElem?_eq_some_iff.mp hblock).1]
      · rename_i hbeyond
        have hblock := single_block_all rest hstart hindex
        rw [List.getElem?_append_right (by omega)]
        rwa [show start + index - (denote request child).length =
          start - (denote request child).length + index by omega]
end

theorem plains_leaf {fuel : Nat} {seq : CaseSeq}
    (hkind : (request.kind index).isContainer = false)
    (hseq : buildCaseSeq request.entries groups fuel index = .done seq) :
    (plains seq).Sublist [index] := by
  obtain _ | fuel := fuel
  · cases hseq
  have hentry : (entryAt request.entries index).kind = request.kind index := rfl
  rw [buildCaseSeq, hentry] at hseq
  cases hindex : request.kind index with
  | container children => simp [hindex, EntryKind.isContainer] at hkind
  | mirror target =>
      simp only [hindex, Eval.done.injEq] at hseq
      subst hseq
      exact List.nil_sublist _
  | _ =>
      simp only [hindex] at hseq
      split at hseq
      · cases hseq
        exact List.Sublist.refl _
      · cases hseq
        exact List.nil_sublist _

theorem plains_container {fuel : Nat} {children : List Nat} {seq : CaseSeq}
    (hkind : request.kind index = .container children)
    (hseq : buildCaseSeq request.entries groups fuel index = .done seq) :
    ∃ fuel' seqs, children.mapM (buildCaseSeq request.entries groups fuel') = .done seqs ∧
      plains seq = plainsAll seqs := by
  obtain _ | fuel := fuel
  · cases hseq
  have hentry : (entryAt request.entries index).kind = .container children := hkind
  simp only [buildCaseSeq, hentry, Eval.bind_eq_done_iff] at hseq
  obtain ⟨seqs, hseqs, hdone⟩ := hseq
  refine ⟨fuel, seqs, hseqs, ?_⟩
  split at hdone
  · cases hdone
    rw [plains, plainsAll, plainsAll, plains, plainsAll, plains, List.append_nil,
      List.append_nil]
  · cases hdone
    rw [plains]

theorem Forest.plains {parent start stop : Nat} {children : List Nat}
    (hforest : Forest request parent start children stop) : ∀ fuel seqs,
    children.mapM (buildCaseSeq request.entries groups fuel) = .done seqs →
      (plainsAll seqs).Nodup ∧ ∀ other ∈ plainsAll seqs, start ≤ other ∧ other < stop := by
  induction hforest with
  | nil parent start =>
      intro fuel seqs hseqs
      cases hseqs
      exact ⟨List.nodup_nil, fun other hmem => by cases hmem⟩
  | @leaf parent start stop rest hchild hkind hrest ih =>
      intro fuel seqs hseqs
      obtain ⟨first, others, rfl, hfirst, hothers⟩ := mapM_cons_done hseqs
      obtain ⟨hnodup, hwithin⟩ := ih fuel others hothers
      have hsub := plains_leaf hkind hfirst
      have hle := hrest.le
      rw [plainsAll]
      refine ⟨List.nodup_append.mpr ⟨hsub.nodup (List.nodup_singleton _), hnodup, ?_⟩, ?_⟩
      · intro left hleft right hright
        have hstart := List.mem_singleton.mp (hsub.subset hleft)
        have hlower := (hwithin right hright).1
        omega
      · intro other hmem
        rcases List.mem_append.mp hmem with hhere | hlater
        · have hstart := List.mem_singleton.mp (hsub.subset hhere)
          omega
        · have hbounds := hwithin other hlater
          omega
  | @block parent start middle stop children rest hchild hkind hinner hrest ihinner ih =>
      intro fuel seqs hseqs
      obtain ⟨first, others, rfl, hfirst, hothers⟩ := mapM_cons_done hseqs
      obtain ⟨hnodup, hwithin⟩ := ih fuel others hothers
      obtain ⟨fuel', seqs, hseqs', hplains⟩ := plains_container hkind hfirst
      obtain ⟨hnodup', hwithin'⟩ := ihinner fuel' seqs hseqs'
      have hle := hinner.le
      have hle' := hrest.le
      rw [plainsAll, hplains]
      refine ⟨List.nodup_append.mpr ⟨hnodup', hnodup, ?_⟩, ?_⟩
      · intro left hleft right hright
        have hupper := (hwithin' left hleft).2
        have hlower := (hwithin right hright).1
        omega
      · intro other hmem
        rcases List.mem_append.mp hmem with hhere | hlater
        · have hbounds := hwithin' other hhere
          omega
        · have hbounds := hwithin other hlater
          omega

theorem Assembled.plains_nodup {root : Block} {maxBytes : Int32} {fuel : Nat}
    (hassembled : Assembled root maxBytes fuel request) : (plains request.seq).Nodup := by
  obtain ⟨groups, -, hseq⟩ := hassembled.sequenced
  obtain ⟨children, hkind, hforest⟩ := hassembled.table.tree
  obtain ⟨fuel', seqs, hseqs, hplains⟩ := plains_container hkind hseq
  rw [hplains]
  exact (hforest.plains fuel' seqs hseqs).1

end

/-- The case of a single part is listed as many places behind the raw prefix of its entry as its
candidate has candidates before it. -/
theorem rawPrefixBefore_single {root : Block} {maxBytes : Int32} {request : CompiledRequest}
    (hcompile : Eval.Returns (compile root maxBytes) request) {path : Text}
    {entry index position : Nat} (hresolve : request.resolve path = .ok entry)
    (hsmall : (request.candidates .sequential).length < 2 ^ 63)
    (hlisted : (request.candidates .sequential)[position]? = some [(entry, index)]) :
    ∃ before : Nat, request.rawPrefixBefore path = .ok before ∧ position = before + index := by
  obtain ⟨before, hbefore, hends, hstarts, -⟩ := rawPrefixBefore_position hcompile hresolve
    (request.candidates_drains .sequential) hsmall
  have hmem := List.mem_of_getElem? hlisted
  have hnonneg : 0 ≤ before := hends.mpr ⟨_, hmem, index, rfl⟩
  obtain ⟨before, rfl⟩ := Int.eq_ofNat_of_zero_le hnonneg
  refine ⟨before, hbefore, ?_⟩
  obtain ⟨fuel, hdone⟩ := hcompile
  have hnodup := (compile_eq_done hdone).assembled.plains_nodup
  have hcandidates : request.candidates .sequential = denote request request.seq :=
    (request.candidates_drains .sequential).unique request.sequentialCursor_drains
  have hstart := (hstarts hnonneg).at_start
  rw [hcandidates] at hlisted hstart hmem
  rw [Int.toNat_natCast] at hstart
  have hcount : index < (request.kind entry).count := single_count request.seq hmem
  exact single_unique request.seq hnodup hlisted (single_block request.seq hstart hcount)

end CompiledRequest

end MoonBoofuzz
