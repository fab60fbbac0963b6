import Mathlib.Logic.Relation
import MoonBoofuzz.Model.Preorder
import MoonBoofuzz.Mutation.Sequential

namespace MoonBoofuzz

namespace CompiledRequest

/-! The part lists of the sequential enumeration, read off the table: a chain of
enclosing grouped blocks above one candidate. -/

def Parent (request : CompiledRequest) (index parent : Nat) : Prop :=
  (request.entry index).parent = some parent

/-- The block `outer` contains the entry `inner`. -/
def Encloses (request : CompiledRequest) (outer inner : Nat) : Prop :=
  Relation.TransGen request.Parent inner outer

/-- `front` lists group candidates of nested blocks from `index` down to the block
around the mutated entry `leaf`. -/
inductive Chain (request : CompiledRequest) (groups : List (Nat × Nat)) :
    Nat → Parts → Nat × Nat → Prop
  | leaf {index i : Nat} (hcount : i < (request.kind index).count) :
      Chain request groups index [] (index, i)
  | child {index child : Nat} {front : Parts} {leaf : Nat × Nat}
      (hparent : request.Parent child index)
      (hchain : Chain request groups child front leaf) :
      Chain request groups index front leaf
  | group {index child group pass : Nat} {front : Parts} {leaf : Nat × Nat}
      (hparent : request.Parent child index)
      (hgroup : groups.lookup index = some group)
      (hpass : pass < (request.kind group).count)
      (hchain : Chain request groups child front leaf) :
      Chain request groups index ((group, pass) :: front) leaf

section

variable {request : CompiledRequest} {groups : List (Nat × Nat)}

theorem denote_leaf {fuel index : Nat} {seq : CaseSeq}
    (hkind : (request.kind index).isContainer = false)
    (hseq : buildCaseSeq request.entries groups fuel index = .done seq)
    {parts : Parts} (hmem : parts ∈ denote request seq) :
    ∃ i, i < (request.kind index).count ∧ parts = [(index, i)] := by
  obtain _ | fuel := fuel
  · simp [buildCaseSeq] at hseq
  have hentry : (entryAt request.entries index).kind = request.kind index := rfl
  rw [buildCaseSeq, hentry] at hseq
  cases hindex : request.kind index with
  | container children => simp [hindex, EntryKind.isContainer] at hkind
  | mirror target =>
      simp only [hindex, Eval.done.injEq] at hseq
      subst hseq
      simp [denote, denoteAll] at hmem
  | _ =>
      simp only [hindex] at hseq
      split at hseq
      · cases hseq
        simp only [denote, List.mem_map, List.mem_range] at hmem
        obtain ⟨i, hi, rfl⟩ := hmem
        exact ⟨i, by rwa [hindex] at hi, rfl⟩
      · cases hseq
        simp [denote, denoteAll] at hmem

theorem mem_denoteAll {children : List CaseSeq} {parts : Parts} :
    parts ∈ denoteAll request children ↔
      ∃ child ∈ children, parts ∈ denote request child := by
  induction children with
  | nil => simp [denoteAll]
  | cons child rest ih => simp [denoteAll, ih]

theorem mapM_done_mem {step : Nat → Run CaseSeq} {children : List Nat}
    {seqs : List CaseSeq} (hdone : children.mapM step = .done seqs) {seq : CaseSeq}
    (hmem : seq ∈ seqs) : ∃ child ∈ children, step child = .done seq := by
  induction children generalizing seqs with
  | nil =>
      cases hdone
      cases hmem
  | cons child rest ih =>
      simp only [List.mapM_cons, Eval.bind_eq_done_iff, Eval.pure_eq,
        Eval.done.injEq] at hdone
      obtain ⟨first, hfirst, others, hothers, rfl⟩ := hdone
      rcases List.mem_cons.mp hmem with rfl | htail
      · exact ⟨child, by simp, hfirst⟩
      · obtain ⟨other, hother, hseq⟩ := ih hothers htail
        exact ⟨other, by simp [hother], hseq⟩

theorem denote_container {fuel index : Nat} {children : List Nat} {seq : CaseSeq}
    (hkind : request.kind index = .container children)
    (hseq : buildCaseSeq request.entries groups fuel index = .done seq) :
    ∃ fuel' seqs, children.mapM (buildCaseSeq request.entries groups fuel') = .done seqs ∧
      ((groups.lookup index = none ∧ denote request seq = denoteAll request seqs) ∨
        ∃ group, groups.lookup index = some group ∧
          denote request seq = denoteAll request seqs ++
            (List.range (request.kind group).count).flatMap fun pass =>
              (denoteAll request seqs).map ((group, pass) :: ·)) := by
  obtain _ | fuel := fuel
  · simp [buildCaseSeq] at hseq
  have hentry : (entryAt request.entries index).kind = .container children := hkind
  simp only [buildCaseSeq, hentry, Eval.bind_eq_done_iff] at hseq
  obtain ⟨seqs, hseqs, hdone⟩ := hseq
  refine ⟨fuel, seqs, hseqs, ?_⟩
  cases hgroup : groups.lookup index with
  | none =>
      simp only [hgroup, Eval.done.injEq] at hdone
      subst hdone
      exact Or.inl ⟨rfl, by rw [denote]⟩
  | some group =>
      simp only [hgroup, Eval.done.injEq] at hdone
      subst hdone
      exact Or.inr ⟨group, rfl, by simp only [denote, denoteAll, List.append_nil]⟩

/-- A case of a block is a case of a child, after a candidate of the block's group
in the replayed part. -/
theorem denote_block {fuel index : Nat} {children : List Nat} {seq : CaseSeq}
    (hkind : request.kind index = .container children)
    (hseq : buildCaseSeq request.entries groups fuel index = .done seq)
    {parts : Parts} (hmem : parts ∈ denote request seq) :
    ∃ child ∈ children, ∃ fuel' inner rest,
      buildCaseSeq request.entries groups fuel' child = .done inner ∧
        rest ∈ denote request inner ∧
        (parts = rest ∨ ∃ group pass, groups.lookup index = some group ∧
          pass < (request.kind group).count ∧ parts = (group, pass) :: rest) := by
  obtain ⟨fuel', seqs, hseqs, hcases⟩ := denote_container hkind hseq
  -- A case of the plain sequence comes from one of the children.
  have hplain : ∀ {rest}, rest ∈ denoteAll request seqs → ∃ child ∈ children,
      ∃ inner, buildCaseSeq request.entries groups fuel' child = .done inner ∧
        rest ∈ denote request inner := by
    intro rest hrest
    obtain ⟨inner, hinner, hrest⟩ := mem_denoteAll.mp hrest
    obtain ⟨child, hchild, hbuild⟩ := mapM_done_mem hseqs hinner
    exact ⟨child, hchild, inner, hbuild, hrest⟩
  rcases hcases with ⟨-, hdenote⟩ | ⟨group, hgroup, hdenote⟩
  · rw [hdenote] at hmem
    obtain ⟨child, hchild, inner, hbuild, hrest⟩ := hplain hmem
    exact ⟨child, hchild, fuel', inner, parts, hbuild, hrest, Or.inl rfl⟩
  · simp only [hdenote, List.mem_append, List.mem_flatMap, List.mem_map,
      List.mem_range] at hmem
    rcases hmem with hmem | ⟨pass, hpass, rest, hrest, rfl⟩
    · obtain ⟨child, hchild, inner, hbuild, hrest⟩ := hplain hmem
      exact ⟨child, hchild, fuel', inner, parts, hbuild, hrest, Or.inl rfl⟩
    · obtain ⟨child, hchild, inner, hbuild, hrest⟩ := hplain hrest
      exact ⟨child, hchild, fuel', inner, rest, hbuild, hrest,
        Or.inr ⟨group, pass, hgroup, hpass, rfl⟩⟩

theorem chain_block {fuel index : Nat} {children : List Nat} {seq : CaseSeq}
    (hkind : request.kind index = .container children)
    (hparents : ∀ child ∈ children, request.Parent child index)
    (hchildren : ∀ child ∈ children, ∀ {fuel inner rest},
      buildCaseSeq request.entries groups fuel child = .done inner →
      rest ∈ denote request inner →
      ∃ front leaf, rest = front ++ [leaf] ∧ Chain request groups child front leaf)
    (hseq : buildCaseSeq request.entries groups fuel index = .done seq)
    {parts : Parts} (hmem : parts ∈ denote request seq) :
    ∃ front leaf, parts = front ++ [leaf] ∧
      Chain request groups index front leaf := by
  obtain ⟨child, hchild, fuel', inner, rest, hbuild, hrest, hparts⟩ :=
    denote_block hkind hseq hmem
  obtain ⟨front, leaf, rfl, hchain⟩ := hchildren child hchild hbuild hrest
  have hparent := hparents child hchild
  rcases hparts with rfl | ⟨group, pass, hgroup, hpass, rfl⟩
  · exact ⟨front, leaf, rfl, .child hparent hchain⟩
  · exact ⟨(group, pass) :: front, leaf, rfl, .group hparent hgroup hpass hchain⟩

theorem Forest.parents {parent start stop : Nat} {children : List Nat}
    (hforest : Forest request parent start children stop) :
    ∀ child ∈ children, request.Parent child parent :=
  fun _ hmem => (hforest.child hmem).1.link

theorem Forest.chains {parent start stop : Nat} {children : List Nat}
    (hforest : Forest request parent start children stop) :
    ∀ child ∈ children, ∀ {fuel inner rest},
      buildCaseSeq request.entries groups fuel child = .done inner →
      rest ∈ denote request inner →
      ∃ front leaf, rest = front ++ [leaf] ∧
        Chain request groups child front leaf := by
  induction hforest with
  | nil _ _ => simp
  | leaf _ hkind _ ih =>
      refine List.forall_mem_cons.mpr ⟨?_, ih⟩
      intro fuel inner rest hbuild hrest
      obtain ⟨i, hi, rfl⟩ := denote_leaf hkind hbuild hrest
      exact ⟨[], _, rfl, .leaf hi⟩
  | block _ hkind hinner _ ihinner ih =>
      refine List.forall_mem_cons.mpr ⟨?_, ih⟩
      intro fuel inner rest hbuild hrest
      exact chain_block hkind hinner.parents ihinner hbuild hrest

theorem resolveGroups_lookup {draft : Draft} {entries : List Entry} {i : Nat}
    {resolved : List (Nat × Nat)}
    (hresolve : resolveGroups draft entries i = .ok resolved) {index group : Nat}
    (hlookup : resolved.lookup index = some group) :
    ∃ offset entry target, index = i + offset ∧ entries[offset]? = some entry ∧
      entry.group = some target ∧ draft.paths.lookup target = some group := by
  induction entries generalizing i resolved with
  | nil =>
      cases hresolve
      simp at hlookup
  | cons entry rest ih =>
      have hlater : ∀ {others}, resolveGroups draft rest (i + 1) = .ok others →
          others.lookup index = some group →
          ∃ offset other target, index = i + offset ∧
            (entry :: rest)[offset]? = some other ∧ other.group = some target ∧
              draft.paths.lookup target = some group := by
        intro others hothers hfound
        obtain ⟨offset, other, target, rfl, hother, htarget⟩ := ih hothers hfound
        exact ⟨offset + 1, other, target, by omega, by simpa using hother, htarget⟩
      rw [resolveGroups] at hresolve
      cases hgroup : entry.group with
      | none =>
          simp only [hgroup] at hresolve
          exact hlater hresolve hlookup
      | some target =>
          simp only [hgroup] at hresolve
          cases hpath : draft.paths.lookup target with
          | none => simp [hpath] at hresolve
          | some found =>
              simp only [hpath] at hresolve
              split at hresolve
              · obtain ⟨others, hothers, hequal⟩ := exceptBind_eq_ok_iff.mp hresolve
                cases hequal
                rw [List.lookup_cons] at hlookup
                by_cases hindex : index = i
                · subst hindex
                  simp only [beq_self_eq_true, Option.some.injEq] at hlookup
                  subst hlookup
                  exact ⟨0, entry, target, rfl, rfl, hgroup, hpath⟩
                · simp only [beq_eq_false_iff_ne.mpr hindex] at hlookup
                  exact hlater hothers hlookup
              · cases hresolve

theorem Assembled.group {root : Block} {maxBytes : Int32} {fuel : Nat}
    (hassembled : Assembled root maxBytes fuel request)
    (hgroups : resolveGroups ⟨request.entries, request.paths⟩ request.entries 0 =
      .ok groups) {index group : Nat} (hlookup : groups.lookup index = some group) :
    (request.entry index).group = some (request.entry group).path := by
  obtain ⟨offset, entry, target, rfl, hentry, htarget, hpath⟩ :=
    resolveGroups_lookup hgroups hlookup
  have hresolve : request.resolve target = .ok group := by
    simp only [resolve, show request.paths.lookup target = some group from hpath]
  rw [Nat.zero_add, (entry_eq_of_getElem? hentry).1, htarget,
    ((hassembled.table.resolve target group).mp hresolve).2]

/-- Every case of the sequential enumeration is a chain from the root. -/
theorem Assembled.chain {root : Block} {maxBytes : Int32} {fuel : Nat}
    (hassembled : Assembled root maxBytes fuel request)
    {parts : Parts} (hmem : parts ∈ denote request request.seq) :
    ∃ groups front leaf,
      resolveGroups ⟨request.entries, request.paths⟩ request.entries 0 = .ok groups ∧
        parts = front ++ [leaf] ∧ Chain request groups 0 front leaf := by
  obtain ⟨groups, hgroups, hseq⟩ := hassembled.sequenced
  obtain ⟨children, hkind, hforest⟩ := hassembled.table.tree
  obtain ⟨front, leaf, hparts, hchain⟩ :=
    chain_block hkind hforest.parents hforest.chains hseq hmem
  exact ⟨groups, front, leaf, hgroups, hparts, hchain⟩

theorem Chain.encloses {index : Nat} {front : Parts} {leaf : Nat × Nat}
    (hchain : Chain request groups index front leaf) :
    Relation.ReflTransGen request.Parent leaf.1 index := by
  induction hchain with
  | leaf _ => exact .refl
  | child hparent _ ih => exact ih.tail hparent
  | group hparent _ _ _ ih => exact ih.tail hparent

theorem Chain.count {index : Nat} {front : Parts} {leaf : Nat × Nat}
    (hchain : Chain request groups index front leaf) :
    ∀ part ∈ front ++ [leaf], part.2 < (request.kind part.1).count := by
  induction hchain with
  | leaf hcount => simpa using hcount
  | child _ _ ih => exact ih
  | group _ _ hpass _ ih => exact List.forall_mem_cons.mpr ⟨hpass, ih⟩

theorem Chain.block {index : Nat} {front : Parts} {leaf : Nat × Nat}
    (hchain : Chain request groups index front leaf) {part : Nat × Nat}
    (hmem : part ∈ front) :
    ∃ block, Relation.ReflTransGen request.Parent block index ∧
      request.Encloses block leaf.1 ∧ groups.lookup block = some part.1 := by
  induction hchain with
  | leaf _ => cases hmem
  | child hparent _ ih =>
      obtain ⟨block, hblock, hinside, hgroup⟩ := ih hmem
      exact ⟨block, hblock.tail hparent, hinside, hgroup⟩
  | @group index child group pass front leaf hparent hgroup hpass hchain ih =>
      rcases List.mem_cons.mp hmem with rfl | hlater
      · exact ⟨index, .refl, .tail' hchain.encloses hparent, hgroup⟩
      · obtain ⟨block, hblock, hinside, hfound⟩ := ih hlater
        exact ⟨block, hblock.tail hparent, hinside, hfound⟩

/-- Two different candidates of one group come from two nested blocks. -/
theorem Chain.nested {index : Nat} {front : Parts} {leaf : Nat × Nat}
    (hchain : Chain request groups index front leaf) {left right : Nat × Nat}
    (hleft : left ∈ front) (hright : right ∈ front) (hne : left ≠ right)
    (hentry : left.1 = right.1) :
    ∃ outer inner, request.Encloses outer inner ∧ request.Encloses inner leaf.1 ∧
      groups.lookup outer = some left.1 ∧ groups.lookup inner = some left.1 := by
  induction hchain with
  | leaf _ => cases hleft
  | child _ _ ih => exact ih hleft hright
  | @group index child group pass front leaf hparent hgroup hpass hchain ih =>
      -- The outer block is this one when either candidate is its own.
      have houter : ∀ {other : Nat × Nat}, other ∈ front → other.1 = group →
          ∃ outer inner, request.Encloses outer inner ∧
            request.Encloses inner leaf.1 ∧
              groups.lookup outer = some group ∧ groups.lookup inner = some group := by
        intro other hother hsame
        obtain ⟨block, hblock, hinside, hfound⟩ := hchain.block hother
        exact ⟨index, block, .tail' hblock hparent, hinside, hgroup, hsame ▸ hfound⟩
      rcases List.mem_cons.mp hleft with rfl | hleft
      · rcases List.mem_cons.mp hright with rfl | hright
        · exact absurd rfl hne
        · exact houter hright hentry.symm
      · rcases List.mem_cons.mp hright with rfl | hright
        · rw [hentry]
          exact houter hleft hentry
        · exact ih hleft hright

end

end CompiledRequest

end MoonBoofuzz
