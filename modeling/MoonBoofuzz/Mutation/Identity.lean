import MoonBoofuzz.Data.Digits
import MoonBoofuzz.Mutation.Sweep
import MoonBoofuzz.Mutation.Unique

namespace MoonBoofuzz

namespace CompiledRequest

section

variable {request : CompiledRequest} {groups : List (Nat × Nat)}

/-! Case identities name their parts. -/

theorem plus_notMem_name {name : Text} (hname : validName name = true) :
    Text.plus ∉ name := by
  rw [validName, decide_eq_true_eq] at hname
  exact hname.2.2.2

theorem Table.owner_lt (htable : Table request) {index owner : Nat}
    (hparent : request.Parent index owner) : owner < request.entries.length := by
  obtain ⟨siblings, hkind, hmem⟩ := htable.child_of_parent hparent
  by_contra hlarge
  rw [kind, entry_of_le (Nat.not_lt.mp hlarge)] at hkind
  cases hkind
  cases hmem

theorem Table.childOf (htable : Table request) {index owner : Nat}
    (hparent : request.Parent index owner) : ChildOf request owner index := by
  obtain ⟨siblings, hkind, hmem⟩ := htable.child_of_parent hparent
  obtain ⟨stop, -, hspans⟩ := htable.spans (htable.owner_lt hparent)
  cases hspans with
  | leaf hleaf => simp [hkind, EntryKind.isContainer] at hleaf
  | block hblock hinner =>
      rw [hkind] at hblock
      cases hblock
      exact (hinner.child hmem).1

theorem Table.notMem (htable : Table request) {unit : UInt16} (hdot : unit ≠ Text.dot)
    (hnames : ∀ {name}, validName name = true → unit ∉ name) (index : Nat)
    (hindex : index < request.entries.length) : unit ∉ (request.entry index).path := by
  have hinside := htable.inside_root index hindex
  induction hinside using Relation.ReflTransGen.head_induction_on with
  | refl => exact hnames htable.rootName
  | @head index owner hparent howner ih =>
      obtain ⟨name, hname, hpath⟩ := (htable.childOf hparent).path
      rw [hpath, List.mem_append, List.mem_cons, not_or, not_or]
      exact ⟨ih (htable.owner_lt hparent), hdot, hnames hname⟩

theorem Table.plus_notMem (htable : Table request) (index : Nat)
    (hindex : index < request.entries.length) :
    Text.plus ∉ (request.entry index).path :=
  htable.notMem (by decide) plus_notMem_name index hindex

theorem partKey_inj (htable : Table request) {part part' : Nat × Nat}
    (hpart : part.1 < request.entries.length) (hpart' : part'.1 < request.entries.length)
    (hequal : request.partKey part = request.partKey part') : part = part' := by
  rw [partKey, partKey, List.append_assoc, List.append_assoc] at hequal
  have hfree : ∀ value, Text.colon ∉ Text.decimal value :=
    Text.notMem_decimal (Or.inr (by decide))
  obtain ⟨hpath, hdecimal⟩ := Text.append_separator_inj (hfree _) (hfree _) hequal
  have hresolve := htable.resolve_self hpart
  rw [hpath, htable.resolve_self hpart'] at hresolve
  exact Prod.ext (Except.ok.inj hresolve).symm (Text.decimal_inj hdecimal)

theorem caseId_inj (htable : Table request) {parts parts' : Parts} (hne : parts ≠ [])
    (hne' : parts' ≠ []) (hparts : ∀ part ∈ parts, part.1 < request.entries.length)
    (hparts' : ∀ part ∈ parts', part.1 < request.entries.length)
    (hequal : request.caseId parts = request.caseId parts') : parts = parts' := by
  have hkeys : ∀ {parts : Parts}, (∀ part ∈ parts, part.1 < request.entries.length) →
      ∀ key ∈ parts.map request.partKey, Text.plus ∉ key := by
    intro parts hparts key hkey
    obtain ⟨part, hmem, rfl⟩ := List.mem_map.mp hkey
    rw [partKey, List.mem_append, List.mem_append, not_or, not_or]
    exact ⟨⟨htable.plus_notMem _ (hparts part hmem), by decide⟩,
      Text.notMem_decimal (Or.inl (by decide)) _⟩
  have hjoined := Text.join_inj (hkeys hparts) (hkeys hparts') (by simpa using hne)
    (by simpa using hne') (List.append_cancel_left hequal)
  exact map_inj_on (fun part hmem part' hmem' =>
    partKey_inj htable (hparts part hmem) (hparts' part' hmem')) hjoined

/-! The sequential enumeration lists a case twice only where a group is nested in
itself. -/

/-- Two nested blocks around a mutated entry have the same group. -/
def NestedGroups (request : CompiledRequest) : Prop :=
  ∃ outer inner field leaf, request.Encloses outer inner ∧ request.Encloses inner leaf ∧
    (request.entry outer).group = some (request.entry field).path ∧
    (request.entry inner).group = some (request.entry field).path ∧
    0 < (request.kind field).count ∧ 0 < (request.kind leaf).count

theorem Table.parent_lt (htable : Table request) {index owner : Nat}
    (hparent : request.Parent index owner) : owner < index := by
  have hindex := (htable.childOf hparent).lt
  obtain rfl | hpositive := Nat.eq_zero_or_pos index
  · rw [Parent, htable.rootParent] at hparent
    cases hparent
  · obtain ⟨owner', _, howner, hlt, -, -⟩ := htable.owner hpositive hindex
    rwa [Option.some.inj (hparent.symm.trans howner)]

theorem Table.inside_le (htable : Table request) {inner outer : Nat}
    (hinside : Relation.ReflTransGen request.Parent inner outer) : outer ≤ inner := by
  induction hinside with
  | refl => exact le_refl _
  | tail _ hparent ih => exact (Nat.le_of_lt (htable.parent_lt hparent)).trans ih

theorem parent_rightUnique (request : CompiledRequest) :
    Relator.RightUnique request.Parent :=
  fun _ _ _ hfirst hsecond => Option.some.inj (hfirst.symm.trans hsecond)

theorem Table.sibling_eq (htable : Table request) {left right parent leaf : Nat}
    (hleft : request.Parent left parent) (hright : request.Parent right parent)
    (hinLeft : Relation.ReflTransGen request.Parent leaf left)
    (hinRight : Relation.ReflTransGen request.Parent leaf right) : left = right := by
  have hsame : ∀ {first second}, request.Parent first parent →
      request.Parent second parent →
      Relation.ReflTransGen request.Parent first second → first = second := by
    intro first second hfirst hsecond hinside
    rcases hinside.cases_head with hequal | ⟨above, habove, hrest⟩
    · exact hequal
    · obtain rfl := parent_rightUnique request hfirst habove
      have hle := htable.inside_le hrest
      have hlt := htable.parent_lt hsecond
      omega
  rcases hinLeft.total_of_right_unique (parent_rightUnique request) hinRight with hle | hle
  · exact hsame hleft hright hle
  · exact (hsame hright hleft hle).symm

theorem mapM_cons_done {step : Nat → Run CaseSeq} {child : Nat} {rest : List Nat}
    {seqs : List CaseSeq} (hdone : (child :: rest).mapM step = .done seqs) :
    ∃ first others, seqs = first :: others ∧ step child = .done first ∧
      rest.mapM step = .done others := by
  simp only [List.mapM_cons, Eval.bind_eq_done_iff, Eval.pure_eq, Eval.done.injEq] at hdone
  obtain ⟨first, hfirst, others, hothers, rfl⟩ := hdone
  exact ⟨first, others, rfl, hfirst, hothers⟩

theorem denoteAll_disjoint (htable : Table request) {fuel parent child : Nat}
    {rest : List Nat} {first : CaseSeq} {others : List CaseSeq}
    (hchild : request.Parent child parent) (hrest : ∀ other ∈ rest, request.Parent other parent)
    (hapart : child ∉ rest)
    (hchain : ∀ {parts}, parts ∈ denote request first →
      ∃ front leaf, parts = front ++ [leaf] ∧ Chain request groups child front leaf)
    (hchains : ∀ other ∈ rest, ∀ {fuel inner parts},
      buildCaseSeq request.entries groups fuel other = .done inner →
      parts ∈ denote request inner →
      ∃ front leaf, parts = front ++ [leaf] ∧ Chain request groups other front leaf)
    (hothers : rest.mapM (buildCaseSeq request.entries groups fuel) = .done others) :
    (denote request first).Disjoint (denoteAll request others) := by
  intro parts hleft hright
  obtain ⟨inner, hinner, hmem⟩ := mem_denoteAll.mp hright
  obtain ⟨other, hother, hbuild⟩ := mapM_done_mem hothers hinner
  obtain ⟨front, leaf, hparts, hchain⟩ := hchain hleft
  obtain ⟨front', leaf', hparts', hchain'⟩ := hchains other hother hbuild hmem
  obtain ⟨-, hleaf⟩ := List.append_inj' (hparts.symm.trans hparts') rfl
  obtain rfl : leaf = leaf' := List.singleton_inj.mp hleaf
  obtain rfl := htable.sibling_eq hchild (hrest other hother) hchain.encloses
    hchain'.encloses
  exact hapart hother

theorem denote_leaf_nodup {fuel index : Nat} {seq : CaseSeq}
    (hkind : (request.kind index).isContainer = false)
    (hseq : buildCaseSeq request.entries groups fuel index = .done seq) :
    (denote request seq).Nodup := by
  obtain _ | fuel := fuel
  · simp [buildCaseSeq] at hseq
  have hentry : (entryAt request.entries index).kind = request.kind index := rfl
  rw [buildCaseSeq, hentry] at hseq
  have hplain : (denote request (.plain index)).Nodup := by
    rw [denote]
    refine List.nodup_range.map fun i j hequal => ?_
    simpa using hequal
  cases hindex : request.kind index with
  | container children => simp [hindex, EntryKind.isContainer] at hkind
  | mirror target =>
      simp only [hindex, Eval.done.injEq] at hseq
      subst hseq
      exact List.nodup_nil
  | _ =>
      simp only [hindex] at hseq
      split at hseq
      · cases hseq
        exact hplain
      · cases hseq
        exact List.nodup_nil

/-- The cases of a block are all different when those of its entries are. -/
theorem denote_block_nodup (hnested : ¬ NestedGroups request)
    (hnamed : ∀ {block field}, groups.lookup block = some field →
      (request.entry block).group = some (request.entry field).path)
    {fuel index : Nat} {children : List Nat} {seq : CaseSeq}
    (hkind : request.kind index = .container children)
    (hparents : ∀ child ∈ children, request.Parent child index)
    (hchains : ∀ child ∈ children, ∀ {fuel inner rest},
      buildCaseSeq request.entries groups fuel child = .done inner →
      rest ∈ denote request inner →
      ∃ front leaf, rest = front ++ [leaf] ∧ Chain request groups child front leaf)
    (hchildren : ∀ fuel seqs, children.mapM (buildCaseSeq request.entries groups fuel) =
      .done seqs → (denoteAll request seqs).Nodup)
    (hseq : buildCaseSeq request.entries groups fuel index = .done seq) :
    (denote request seq).Nodup := by
  obtain ⟨fuel', seqs, hseqs, hcases⟩ := denote_container hkind hseq
  have hplain := hchildren fuel' seqs hseqs
  rcases hcases with ⟨-, hdenote⟩ | ⟨group, hgroup, hdenote⟩
  · rwa [hdenote]
  · rw [hdenote]
    refine hplain.append ?_ ?_
    · rw [List.nodup_flatMap]
      refine ⟨fun pass _ => hplain.map List.cons_injective, ?_⟩
      refine List.nodup_range.imp fun hne parts hleft hright => ?_
      obtain ⟨rest, -, rfl⟩ := List.mem_map.mp hleft
      obtain ⟨rest', -, hequal⟩ := List.mem_map.mp hright
      exact hne (by simpa using (List.cons.inj hequal).1.symm)
    · -- A plain case that starts with a candidate of the group has it from a block
      -- further in.
      intro parts hleft hright
      obtain ⟨pass, hpass, hproduct⟩ := List.mem_flatMap.mp hright
      obtain ⟨rest, hrest, rfl⟩ := List.mem_map.mp hproduct
      obtain ⟨inner, hinner, hmem⟩ := mem_denoteAll.mp hleft
      obtain ⟨child, hchild, hbuild⟩ := mapM_done_mem hseqs hinner
      obtain ⟨front, leaf, hparts, hchain⟩ := hchains child hchild hbuild hmem
      obtain ⟨inner', hinner', hmem'⟩ := mem_denoteAll.mp hrest
      obtain ⟨child', hchild', hbuild'⟩ := mapM_done_mem hseqs hinner'
      obtain ⟨front', leaf', rfl, -⟩ := hchains child' hchild' hbuild' hmem'
      have hfront : (group, pass) ∈ front := by
        cases front with
        | nil => simp at hparts
        | cons part front =>
            rw [List.cons_append, List.cons.injEq] at hparts
            exact hparts.1 ▸ List.mem_cons_self ..
      obtain ⟨block, hblock, hinside, hfound⟩ := hchain.block hfront
      exact hnested ⟨index, block, group, leaf.1, .tail' hblock (hparents child hchild),
        hinside, hnamed hgroup, hnamed hfound,
        Nat.zero_lt_of_lt (List.mem_range.mp hpass),
        Nat.zero_lt_of_lt (hchain.count leaf (by simp))⟩

theorem Forest.nodup (htable : Table request) (hnested : ¬ NestedGroups request)
    (hnamed : ∀ {block field}, groups.lookup block = some field →
      (request.entry block).group = some (request.entry field).path)
    {parent start stop : Nat} {children : List Nat}
    (hforest : Forest request parent start children stop) :
    ∀ fuel seqs, children.mapM (buildCaseSeq request.entries groups fuel) = .done seqs →
      (denoteAll request seqs).Nodup := by
  induction hforest with
  | nil _ _ =>
      intro fuel seqs hseqs
      cases hseqs
      exact List.nodup_nil
  | @leaf parent start stop rest hchild hkind hrest ih =>
      intro fuel seqs hseqs
      obtain ⟨first, others, rfl, hfirst, hothers⟩ := mapM_cons_done hseqs
      rw [denoteAll]
      refine (denote_leaf_nodup hkind hfirst).append (ih fuel others hothers) ?_
      refine denoteAll_disjoint htable hchild.link hrest.parents ?_ ?_ hrest.chains hothers
      · intro hmem
        have hle := (hrest.child hmem).2.1
        omega
      · intro parts hparts
        obtain ⟨i, hi, rfl⟩ := denote_leaf hkind hfirst hparts
        exact ⟨[], _, rfl, .leaf hi⟩
  | @block parent start middle stop children rest hchild hkind hinner hrest ihinner ih =>
      intro fuel seqs hseqs
      obtain ⟨first, others, rfl, hfirst, hothers⟩ := mapM_cons_done hseqs
      rw [denoteAll]
      refine (denote_block_nodup hnested hnamed hkind hinner.parents hinner.chains ihinner
        hfirst).append (ih fuel others hothers) ?_
      refine denoteAll_disjoint htable hchild.link hrest.parents ?_
        (chain_block hkind hinner.parents hinner.chains hfirst) hrest.chains hothers
      intro hmem
      have hle := (hrest.child hmem).2.1
      have hmiddle := hinner.le
      omega

theorem denote_sublist_denoteAll {seqs : List CaseSeq} {seq : CaseSeq} (hmem : seq ∈ seqs) :
    (denote request seq).Sublist (denoteAll request seqs) := by
  induction seqs with
  | nil => cases hmem
  | cons first rest ih =>
      rw [denoteAll]
      rcases List.mem_cons.mp hmem with rfl | hlater
      · exact List.sublist_append_left _ _
      · exact (ih hlater).trans (List.sublist_append_right _ _)

/-- The cases of an entry are listed, with their repetitions, by every block around it. -/
theorem denote_sublist (htable : Table request) {inner outer : Nat}
    (hinside : Relation.ReflTransGen request.Parent inner outer) {fuel : Nat} {seq : CaseSeq}
    (hseq : buildCaseSeq request.entries groups fuel outer = .done seq) :
    ∃ fuel' seq', buildCaseSeq request.entries groups fuel' inner = .done seq' ∧
      (denote request seq').Sublist (denote request seq) := by
  induction hinside generalizing fuel seq with
  | refl => exact ⟨fuel, seq, hseq, List.Sublist.refl _⟩
  | tail _ hparent ih =>
      obtain ⟨siblings, hkind, hmem⟩ := htable.child_of_parent hparent
      obtain ⟨fuel', seqs, hseqs, hcases⟩ := denote_container hkind hseq
      obtain ⟨child, hchild, hbuild⟩ := mapM_done_of_mem hseqs hmem
      obtain ⟨fuel'', seq', hseq', hsublist⟩ := ih hbuild
      refine ⟨fuel'', seq', hseq', hsublist.trans ?_⟩
      have hall := @denote_sublist_denoteAll request _ _ hchild
      rcases hcases with ⟨-, hdenote⟩ | ⟨group, -, hdenote⟩
      · rwa [hdenote]
      · rw [hdenote]
        exact hall.trans (List.sublist_append_left _ _)

/-- The sequential enumeration of a compiled request lists no case twice exactly when no
group is nested in itself. -/
theorem Assembled.nodup_iff {root : Block} {maxBytes : Int32} {fuel : Nat}
    (hassembled : Assembled root maxBytes fuel request) :
    (denote request request.seq).Nodup ↔ ¬ NestedGroups request := by
  obtain ⟨groups, hgroups, hseq⟩ := hassembled.sequenced
  have htable := hassembled.table
  constructor
  · rintro hnodup ⟨outer, inner, field, leaf, hinner, hleaf, houterGroup, hinnerGroup, hfield,
      hcount⟩
    have hbelow := lt_of_count hfield
    have houter := hassembled.lookup_group hgroups hbelow houterGroup
    obtain ⟨child, hchild, hparent⟩ := Relation.TransGen.tail'_iff.mp hinner
    obtain ⟨siblings, hkind, hmem⟩ := htable.child_of_parent hparent
    obtain ⟨fuel', seq, hbuild, hsublist⟩ :=
      denote_sublist htable (htable.inside_root outer (htable.owner_lt hparent)) hseq
    obtain ⟨fuel'', seqs, hseqs, hcases⟩ := denote_container hkind hbuild
    obtain ⟨childSeq, hchildSeq, hchildBuild⟩ := mapM_done_of_mem hseqs hmem
    -- The inner block contributes its group candidate, or the outer one contributes it.
    have hgrouped : Chain request groups inner [(field, 0)] (leaf, 0) :=
      (Chain.leaf hcount).grouped hleaf
        (hassembled.lookup_group hgroups hbelow hinnerGroup) hfield
    have hsingle : Chain request groups inner [] (leaf, 0) :=
      (Chain.leaf hcount).outward hleaf.to_reflTransGen
    have hfirst : [(field, 0), (leaf, 0)] ∈ denoteAll request seqs :=
      mem_denoteAll.mpr ⟨childSeq, hchildSeq, (hgrouped.outward hchild).listed htable hchildBuild⟩
    have hrest : [(leaf, 0)] ∈ denoteAll request seqs :=
      mem_denoteAll.mpr ⟨childSeq, hchildSeq, (hsingle.outward hchild).listed htable hchildBuild⟩
    rcases hcases with ⟨hnone, -⟩ | ⟨group, hgroup, hdenote⟩
    · rw [houter] at hnone
      cases hnone
    · obtain rfl : field = group := Option.some.inj (houter.symm.trans hgroup)
      have hblock := hnodup.sublist hsublist
      rw [hdenote] at hblock
      refine List.disjoint_of_nodup_append hblock hfirst ?_
      exact List.mem_flatMap.mpr ⟨0, List.mem_range.mpr hfield,
        List.mem_map.mpr ⟨_, hrest, rfl⟩⟩
  · intro hnested
    obtain ⟨children, hkind, hforest⟩ := htable.tree
    exact denote_block_nodup hnested (hassembled.group hgroups) hkind hforest.parents
      hforest.chains (hforest.nodup htable hnested (hassembled.group hgroups)) hseq

end

end CompiledRequest

namespace CaseStream

open CompiledRequest

theorem Emits.ordinal {stream after : CaseStream} {answer : Answer}
    (hemits : Emits stream answer after) {case : MutationCase}
    (hcase : answer = .done (some case)) :
    (stream.ordinal : Int) ≤ case.ordinal ∧ case.ordinal < after.ordinal := by
  induction hemits with
  | overflow _ => cases hcase
  | exhausted _ _ => cases hcase
  | failed _ _ _ => cases hcase
  | oversized _ _ _ _ ih =>
      have hlater := ih hcase
      simp only at hlater
      omega
  | built _ _ hbuild =>
      cases hcase
      obtain ⟨fuel, hdone⟩ := hbuild
      have hordinal := buildCase_ordinal hdone
      simp only
      omega

theorem Answers.ordinal {stream after : CaseStream} {case : MutationCase}
    (hanswers : Answers stream (.done (some case)) after) :
    (stream.ordinal : Int) ≤ case.ordinal ∧ case.ordinal < after.ordinal := by
  have hrunning : stream.state = .running := by
    by_contra hidle
    obtain ⟨hnone, -⟩ := (answers_idle hidle).mp hanswers
    cases hnone
  obtain ⟨left, cursor, -, hproceeds⟩ := (answers_running hrunning).mp hanswers
  cases hproceeds with
  | emits _ _ hemits => exact hemits.ordinal rfl

theorem Delivers.increasing {stream after : CaseStream} {cases : List MutationCase}
    (hdelivers : Delivers stream cases after) :
    (∀ case ∈ cases, (stream.ordinal : Int) ≤ case.ordinal) ∧
      cases.Pairwise fun first second => first.ordinal < second.ordinal := by
  induction hdelivers with
  | nil _ => simp
  | cons hanswer _ ih =>
      obtain ⟨hle, hlt⟩ := hanswer.ordinal
      obtain ⟨hlater, hpairwise⟩ := ih
      refine ⟨List.forall_mem_cons.mpr ⟨hle, fun case hmem => ?_⟩,
        List.pairwise_cons.mpr ⟨fun case hmem => ?_, hpairwise⟩⟩
      · have := hlater case hmem
        omega
      · have := hlater case hmem
        omega

theorem Delivers.calls {stream after : CaseStream} {cases : List MutationCase}
    (hdelivers : Delivers stream cases after) :
    Calls stream (cases.map fun case => .done (some case)) after := by
  induction hdelivers with
  | nil stream => exact .nil stream
  | cons hanswer _ ih => exact .cons hanswer ih

theorem buildCase_id {request : CompiledRequest} {vars : Option Vars} {ordinal : Nat}
    {parts : Parts} {case : MutationCase}
    (hbuild : Eval.Returns (request.buildCase vars ordinal parts) case) :
    case.id = request.caseId parts := by
  obtain ⟨fuel, hdone⟩ := hbuild
  simp only [buildCase, Eval.bind_eq_done_iff, Eval.done.injEq] at hdone
  obtain ⟨_, -, payload, -, rfl⟩ := hdone
  rfl

theorem ids_nodup {root : Block} {maxBytes : Int32} {fuel : Nat} {request : CompiledRequest}
    (hassembled : Assembled root maxBytes fuel request) (hnested : ¬ NestedGroups request)
    {vars : Option Vars} {start limit : Int32} {stream after : CaseStream}
    (hstream : request.enumerate .sequential vars start limit = .ok stream)
    {cases : List MutationCase} (hdelivers : Delivers stream cases after) :
    (cases.map (·.id)).Nodup := by
  have hdenote := (request.candidates_drains .sequential).unique
    request.sequentialCursor_drains
  have hnodup := hassembled.nodup_iff.mpr hnested
  have hnamed : ∀ case ∈ cases, ∃ (position : Nat) (parts : Parts),
      case.ordinal = position ∧ (denote request request.seq)[position]? = some parts ∧
        case.id = request.caseId parts := by
    intro case hmem
    obtain ⟨position, parts, hordinal, hparts, hbuild⟩ := (enumerate_originates hstream
      hdelivers.calls (List.mem_map.mpr ⟨case, hmem, rfl⟩)).listed
    rw [hdenote] at hparts
    exact ⟨position, parts, hordinal, hparts, buildCase_id hbuild⟩
  have hshape : ∀ {position : Nat} {parts : Parts},
      (denote request request.seq)[position]? = some parts →
      parts ≠ [] ∧ ∀ part ∈ parts, part.1 < request.entries.length := by
    intro position parts hparts
    obtain ⟨groups, front, leaf, -, rfl, hchain⟩ :=
      hassembled.chain (List.mem_of_getElem? hparts)
    exact ⟨by simp, fun part hmem => lt_of_count (hchain.count part hmem)⟩
  rw [List.nodup_iff_pairwise_ne, List.pairwise_map]
  refine hdelivers.increasing.2.imp_of_mem fun hfirst hsecond hlt hid => ?_
  obtain ⟨position, parts, hordinal, hparts, hname⟩ := hnamed _ hfirst
  obtain ⟨position', parts', hordinal', hparts', hname'⟩ := hnamed _ hsecond
  have hsame : parts = parts' := caseId_inj hassembled.table (hshape hparts).1
    (hshape hparts').1 (hshape hparts).2 (hshape hparts').2 (by rw [← hname, ← hname', hid])
  rw [← hsame, ← hparts] at hparts'
  have hposition := (List.getElem?_inj (List.getElem?_eq_some_iff.mp hparts).1 hnodup).mp
    hparts'.symm
  omega

end CaseStream

end MoonBoofuzz
