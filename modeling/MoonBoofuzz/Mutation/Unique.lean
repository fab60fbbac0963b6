import MoonBoofuzz.Mutation.Finite
import MoonBoofuzz.Mutation.Replay

namespace MoonBoofuzz

namespace CompiledRequest

section

variable {request : CompiledRequest} {groups : List (Nat × Nat)}

theorem Forest.owner {parent start stop : Nat} {children : List Nat}
    (hforest : Forest request parent start children stop) (hparent : parent < start)
    {siblings : List Nat} (hkind : request.kind parent = .container siblings)
    (hsubset : children ⊆ siblings) {index : Nat} (hstart : start ≤ index)
    (hstop : index < stop) :
    ∃ owner siblings, request.Parent index owner ∧ owner < index ∧
      request.kind owner = .container siblings ∧ index ∈ siblings := by
  induction hforest generalizing siblings with
  | nil _ _ => omega
  | @leaf parent start _ _ hchild hleaf hrest ih =>
      rcases Nat.eq_or_lt_of_le hstart with rfl | hlater
      · exact ⟨parent, siblings, hchild.link, hparent, hkind, hsubset (by simp)⟩
      · exact ih (by omega) hkind (fun _ hmem => hsubset (by simp [hmem])) hlater hstop
  | @block parent start middle _ _ _ hchild hblock hinner hrest ihinner ih =>
      rcases Nat.eq_or_lt_of_le hstart with rfl | hlater
      · exact ⟨parent, siblings, hchild.link, hparent, hkind, hsubset (by simp)⟩
      · rcases Nat.lt_or_ge index middle with hinside | hbeyond
        · exact ihinner (by omega) hblock (fun _ hmem => hmem) hlater hinside
        · have hmiddle := hinner.le
          exact ih (by omega) hkind (fun _ hmem => hsubset (by simp [hmem])) hbeyond hstop

theorem Table.owner (htable : Table request) {index : Nat} (hpositive : 0 < index)
    (hindex : index < request.entries.length) :
    ∃ owner siblings, request.Parent index owner ∧ owner < index ∧
      request.kind owner = .container siblings ∧ index ∈ siblings := by
  obtain ⟨children, hkind, hforest⟩ := htable.tree
  exact hforest.owner (by omega) hkind (fun _ hmem => hmem) hpositive hindex

theorem Table.child_of_parent (htable : Table request) {index owner : Nat}
    (hparent : request.Parent index owner) :
    ∃ siblings, request.kind owner = .container siblings ∧ index ∈ siblings := by
  have hindex : index < request.entries.length := by
    by_contra hlarge
    rw [Parent, entry_of_le (Nat.not_lt.mp hlarge)] at hparent
    cases hparent
  obtain rfl | hpositive := Nat.eq_zero_or_pos index
  · rw [Parent, htable.rootParent] at hparent
    cases hparent
  · obtain ⟨owner', siblings, howner, -, hkind, hmem⟩ := htable.owner hpositive hindex
    obtain rfl : owner = owner' := Option.some.inj (hparent.symm.trans howner)
    exact ⟨siblings, hkind, hmem⟩

theorem Table.inside_root (htable : Table request) (index : Nat)
    (hindex : index < request.entries.length) :
    Relation.ReflTransGen request.Parent index 0 := by
  induction index using Nat.strong_induction_on with
  | _ index ih =>
      obtain rfl | hpositive := Nat.eq_zero_or_pos index
      · exact .refl
      · obtain ⟨owner, _, hparent, hlt, -, -⟩ := htable.owner hpositive hindex
        exact .head hparent (ih owner hlt (by omega))

theorem mapM_done_of_mem {step : Nat → Run CaseSeq} {children : List Nat}
    {seqs : List CaseSeq} (hdone : children.mapM step = .done seqs) {child : Nat}
    (hmem : child ∈ children) : ∃ seq ∈ seqs, step child = .done seq := by
  induction children generalizing seqs with
  | nil => cases hmem
  | cons other rest ih =>
      simp only [List.mapM_cons, Eval.bind_eq_done_iff, Eval.pure_eq,
        Eval.done.injEq] at hdone
      obtain ⟨first, hfirst, others, hothers, rfl⟩ := hdone
      rcases List.mem_cons.mp hmem with rfl | htail
      · exact ⟨first, by simp, hfirst⟩
      · obtain ⟨seq, hseq, hstep⟩ := ih hothers htail
        exact ⟨seq, by simp [hseq], hstep⟩

/-- The cases of a block hold those of each child, plain and after each candidate of
the block's group. -/
theorem denote_child {fuel index child : Nat} {children : List Nat} {seq : CaseSeq}
    (hkind : request.kind index = .container children) (hchild : child ∈ children)
    (hseq : buildCaseSeq request.entries groups fuel index = .done seq) :
    ∃ fuel' inner, buildCaseSeq request.entries groups fuel' child = .done inner ∧
      ∀ rest ∈ denote request inner, rest ∈ denote request seq ∧
        ∀ group pass, groups.lookup index = some group →
          pass < (request.kind group).count → (group, pass) :: rest ∈ denote request seq := by
  obtain ⟨fuel', seqs, hseqs, hcases⟩ := denote_container hkind hseq
  obtain ⟨inner, hinner, hbuild⟩ := mapM_done_of_mem hseqs hchild
  refine ⟨fuel', inner, hbuild, fun rest hrest => ?_⟩
  have hplain : rest ∈ denoteAll request seqs := mem_denoteAll.mpr ⟨inner, hinner, hrest⟩
  rcases hcases with ⟨hgroup, hdenote⟩ | ⟨group, hgroup, hdenote⟩
  · rw [hdenote, hgroup]
    exact ⟨hplain, fun group pass hnone _ => nomatch hnone⟩
  · simp only [hdenote, hgroup, List.mem_append, List.mem_flatMap, List.mem_map,
      List.mem_range]
    refine ⟨Or.inl hplain, fun group' pass hsome hpass => ?_⟩
    obtain rfl := Option.some.inj hsome
    exact Or.inr ⟨pass, hpass, rest, hplain, rfl⟩

theorem Chain.listed (htable : Table request) {index : Nat} {front : Parts}
    {leaf : Nat × Nat} (hchain : Chain request groups index front leaf) {fuel : Nat}
    {seq : CaseSeq} (hseq : buildCaseSeq request.entries groups fuel index = .done seq) :
    front ++ [leaf] ∈ denote request seq := by
  induction hchain generalizing fuel seq with
  | @leaf index i hcount =>
      obtain _ | fuel := fuel
      · simp [buildCaseSeq] at hseq
      have hentry : (entryAt request.entries index).kind = request.kind index := rfl
      rw [buildCaseSeq, hentry] at hseq
      cases hindex : request.kind index with
      | container children => simp [hindex, EntryKind.count] at hcount
      | mirror target => simp [hindex, EntryKind.count] at hcount
      | _ =>
          rw [hindex] at hcount
          simp only [hindex] at hseq
          rw [if_pos (Nat.zero_lt_of_lt hcount)] at hseq
          cases hseq
          rw [denote, hindex]
          exact List.mem_map.mpr ⟨i, List.mem_range.mpr hcount, rfl⟩
  | child hparent _ ih =>
      obtain ⟨siblings, hkind, hmem⟩ := htable.child_of_parent hparent
      obtain ⟨_, _, hbuild, hlisted⟩ := denote_child hkind hmem hseq
      exact (hlisted _ (ih hbuild)).1
  | group hparent hgroup hpass _ ih =>
      obtain ⟨siblings, hkind, hmem⟩ := htable.child_of_parent hparent
      obtain ⟨_, _, hbuild, hlisted⟩ := denote_child hkind hmem hseq
      exact (hlisted _ (ih hbuild)).2 _ _ hgroup hpass

theorem Chain.outward {index outer : Nat} {front : Parts} {leaf : Nat × Nat}
    (hchain : Chain request groups index front leaf)
    (hinside : Relation.ReflTransGen request.Parent index outer) :
    Chain request groups outer front leaf := by
  induction hinside with
  | refl => exact hchain
  | tail _ hparent ih => exact .child hparent ih

theorem Chain.grouped {index outer group pass : Nat} {front : Parts} {leaf : Nat × Nat}
    (hchain : Chain request groups index front leaf)
    (hinside : request.Encloses outer index) (hgroup : groups.lookup outer = some group)
    (hpass : pass < (request.kind group).count) :
    Chain request groups outer ((group, pass) :: front) leaf := by
  obtain ⟨child, hchild, hparent⟩ := Relation.TransGen.tail'_iff.mp hinside
  exact .group hparent hgroup hpass (hchain.outward hchild)

theorem resolveGroups_finds {draft : Draft} {entries : List Entry} {i : Nat}
    {resolved : List (Nat × Nat)}
    (hresolve : resolveGroups draft entries i = .ok resolved) {offset : Nat}
    {entry : Entry} (hentry : entries[offset]? = some entry) {target : Text}
    (hgroup : entry.group = some target) :
    ∃ group, resolved.lookup (i + offset) = some group ∧
      draft.paths.lookup target = some group := by
  induction entries generalizing i resolved offset with
  | nil => simp at hentry
  | cons first rest ih =>
      rw [resolveGroups] at hresolve
      cases hfirst : first.group with
      | none =>
          simp only [hfirst] at hresolve
          cases offset with
          | zero =>
              obtain rfl : first = entry := by simpa using hentry
              rw [hfirst] at hgroup
              cases hgroup
          | succ offset =>
              have hlater := ih hresolve (by simpa using hentry)
              rwa [Nat.add_right_comm] at hlater
      | some other =>
          simp only [hfirst] at hresolve
          cases hpath : draft.paths.lookup other with
          | none => simp [hpath] at hresolve
          | some found =>
              simp only [hpath] at hresolve
              split at hresolve
              · obtain ⟨others, hothers, hequal⟩ := exceptBind_eq_ok_iff.mp hresolve
                cases hequal
                cases offset with
                | zero =>
                    obtain rfl : first = entry := by simpa using hentry
                    obtain rfl : other = target := Option.some.inj (hfirst.symm.trans hgroup)
                    exact ⟨found, by simp, hpath⟩
                | succ offset =>
                    obtain ⟨group, hlookup, hfound⟩ := ih hothers (by simpa using hentry)
                    refine ⟨group, ?_, hfound⟩
                    have hne : (i + (offset + 1) == i) = false := by
                      rw [beq_eq_false_iff_ne]
                      omega
                    rw [List.lookup_cons, hne]
                    rwa [Nat.add_right_comm] at hlookup
              · cases hresolve

theorem Assembled.lookup_group {root : Block} {maxBytes : Int32} {fuel : Nat}
    (hassembled : Assembled root maxBytes fuel request)
    (hgroups : resolveGroups ⟨request.entries, request.paths⟩ request.entries 0 =
      .ok groups) {index field : Nat} (hfield : field < request.entries.length)
    (hgroup : (request.entry index).group = some (request.entry field).path) :
    groups.lookup index = some field := by
  have hindex : index < request.entries.length := by
    by_contra hlarge
    rw [entry_of_le (Nat.not_lt.mp hlarge)] at hgroup
    cases hgroup
  have hentry : request.entries[index]? = some (request.entry index) := by
    rw [entry, List.getD_eq_getElem?_getD, List.getElem?_eq_getElem hindex]
    rfl
  obtain ⟨group, hlookup, hpath⟩ := resolveGroups_finds hgroups hentry hgroup
  have hresolve : request.resolve (request.entry field).path = .ok group := by
    simp only [resolve, show request.paths.lookup _ = some group from hpath]
  rw [hassembled.table.resolve_self hfield] at hresolve
  rw [Nat.zero_add] at hlookup
  rw [hlookup, Except.ok.inj hresolve]

/-- Inside a grouped block its group field can be mutated again: by itself, or by a
block within that has the same group. -/
def Regrouped (request : CompiledRequest) : Prop :=
  ∃ outer field, 0 < (request.kind field).count ∧
    (request.entry outer).group = some (request.entry field).path ∧
    (request.Encloses outer field ∨
      ∃ inner leaf, request.Encloses outer inner ∧ request.Encloses inner leaf ∧
        (request.entry inner).group = some (request.entry field).path ∧
        0 < (request.kind leaf).count)

theorem Chain.distinct
    (hnamed : ∀ {block field}, groups.lookup block = some field →
      (request.entry block).group = some (request.entry field).path)
    (hregrouped : ¬ Regrouped request) {index : Nat} {front : Parts} {leaf : Nat × Nat}
    (hchain : Chain request groups index front leaf) :
    ((front ++ [leaf]).map Prod.fst).Nodup := by
  induction hchain with
  | leaf _ => simp
  | child _ _ ih => exact ih
  | @group index child group pass front leaf hparent hgroup hpass hchain ih =>
      rw [List.cons_append, List.map_cons, List.nodup_cons]
      refine ⟨fun hagain => hregrouped ?_, ih⟩
      have hinside : request.Encloses index leaf.1 := .tail' hchain.encloses hparent
      refine ⟨index, group, Nat.zero_lt_of_lt hpass, hnamed hgroup, ?_⟩
      obtain ⟨part, hmem, hsame⟩ := List.mem_map.mp hagain
      rcases List.mem_append.mp hmem with hfront | hlast
      · obtain ⟨inner, hinner, hleaf, hfound⟩ := hchain.block hfront
        have hcount := hchain.count leaf (by simp)
        obtain rfl : part.1 = group := hsame
        exact Or.inr ⟨inner, leaf.1, .tail' hinner hparent, hleaf, hnamed hfound,
          Nat.zero_lt_of_lt hcount⟩
      · obtain rfl := List.mem_singleton.mp hlast
        obtain rfl : part.1 = group := hsame
        exact Or.inl hinside

/-- A request whose groups are looked up again lists a case that names one entry
twice. -/
theorem Regrouped.repeats {root : Block} {maxBytes : Int32} {fuel : Nat}
    (hassembled : Assembled root maxBytes fuel request) (hregrouped : Regrouped request) :
    ∃ parts ∈ denote request request.seq, ¬ (parts.map Prod.fst).Nodup := by
  obtain ⟨groups, hgroups, hseq⟩ := hassembled.sequenced
  have htable := hassembled.table
  obtain ⟨outer, field, hcount, houter, hagain⟩ := hregrouped
  have hfield := lt_of_count hcount
  have hlookup := hassembled.lookup_group hgroups hfield houter
  have hroot : Relation.ReflTransGen request.Parent outer 0 := by
    apply htable.inside_root
    by_contra hlarge
    rw [entry_of_le (Nat.not_lt.mp hlarge)] at houter
    cases houter
  rcases hagain with hinside | ⟨inner, leaf, hinner, hleaf, hgroup, hleafCount⟩
  · have hchain : Chain request groups outer [(field, 0)] (field, 0) :=
      (Chain.leaf hcount).grouped hinside hlookup hcount
    exact ⟨_, (hchain.outward hroot).listed htable hseq, by simp⟩
  · have hlookup' := hassembled.lookup_group hgroups hfield hgroup
    have hchain : Chain request groups inner [(field, 0)] (leaf, 0) :=
      (Chain.leaf hleafCount).grouped hleaf hlookup' hcount
    have hnested := hchain.grouped hinner hlookup hcount
    exact ⟨_, (hnested.outward hroot).listed htable hseq, by simp⟩

/-- The cases of the sequential enumeration name every entry once exactly when no group
is looked up again inside its block. -/
theorem Assembled.distinct_iff {root : Block} {maxBytes : Int32} {fuel : Nat}
    (hassembled : Assembled root maxBytes fuel request) :
    (∀ parts ∈ denote request request.seq, (parts.map Prod.fst).Nodup) ↔
      ¬ Regrouped request := by
  constructor
  · intro hdistinct hregrouped
    obtain ⟨parts, hmem, hrepeats⟩ := hregrouped.repeats hassembled
    exact hrepeats (hdistinct parts hmem)
  · intro hregrouped parts hmem
    obtain ⟨groups, front, leaf, hgroups, rfl, hchain⟩ := hassembled.chain hmem
    exact hchain.distinct (hassembled.group hgroups) hregrouped

theorem Combined.distinct {parts : Parts} (hcombined : request.Combined parts) :
    (parts.map Prod.fst).Nodup := by
  rw [List.nodup_iff_pairwise_ne, List.pairwise_map]
  refine hcombined.apart.imp fun hapart hsame => ?_
  rw [Apart, hsame] at hapart
  exact absurd (List.infix_refl _) hapart.1

theorem lookup_distinct {parts : Parts} (hdistinct : (parts.map Prod.fst).Nodup)
    {part : Nat × Nat} (hmem : part ∈ parts) :
    (request.partReplacements parts).lookup part.1 = some (request.bytesOf part) := by
  rw [lookup_partReplacements]
  cases hfind : parts.find? fun other => other.1 == part.1 with
  | none =>
      rw [List.find?_eq_none] at hfind
      exact absurd (beq_self_eq_true part.1) (hfind part hmem)
  | some other =>
      have hsame : other.1 = part.1 := by simpa using List.find?_some hfind
      have hother := List.mem_of_find?_eq_some hfind
      rw [List.inj_on_of_nodup_map hdistinct hother hmem hsame]
      rfl

/-- Where it is visible the entry of the part renders as the candidate, or as many
copies as the candidate counts. -/
structure Applied (request : CompiledRequest) (replacements : Replacements)
    (vars : Option Vars) (part : Nat × Nat) : Prop where
  resolved : request.resolve (request.named part).1 = .ok part.1
  value : request.isVisible replacements vars part.1 = .ok true →
    (request.kind part.1).isRepetition = false → ∀ active fuel,
      renderNode request replacements vars (fuel + 1) (part.1, active) =
        if (request.bytesOf part).length ≤ request.maxBytes.val
        then .done (request.bytesOf part)
        else .raised (byteLimit request part.1)
  copies : request.isVisible replacements vars part.1 = .ok true →
    ∀ path range variableName, request.kind part.1 = .repetition path range variableName →
      ∀ active fuel target content, request.resolve path = .ok target →
        renderNode request replacements vars fuel (target, active) = .done content →
        renderNode request replacements vars (fuel + 1) (part.1, active) =
          if content = [] ∨ ((range.min + range.step * part.2 : Nat) : Int) ≤
            (request.maxBytes.val : Int).tdiv content.length
          then .done (List.replicate (range.min + range.step * part.2) content).flatten
          else .raised (.limitText "repeated block exceeds byte limit")

theorem Applied.of_distinct (htable : Table request) {parts : Parts}
    (hdistinct : (parts.map Prod.fst).Nodup) (vars : Option Vars) {part : Nat × Nat}
    (hmem : part ∈ parts) (hcount : part.2 < (request.kind part.1).count) :
    Applied request (request.partReplacements parts) vars part where
  resolved := htable.resolve_self (lt_of_count hcount)
  value := by
    intro hvisible hkind active fuel
    rw [renderNode_replaced active fuel hvisible hkind (lookup_distinct hdistinct hmem),
      Eval.check]
    split <;> rfl
  copies := by
    intro hvisible path range variableName hkind active fuel target content htarget
      hcontent
    have hcandidate : decodeRepeat (request.bytesOf part) =
        (range.min + range.step * part.2 : Nat) := by
      rw [hkind] at hcount
      rw [bytesOf, hkind, decodeRepeat_candidate path range variableName hcount]
      push_cast
      rfl
    have hrepeat : repeatCount (request.partReplacements parts) vars part.1 variableName =
        .ok ((range.min + range.step * part.2 : Nat) : Int) := by
      simp only [repeatCount, lookup_distinct hdistinct hmem, hcandidate]
    rw [renderNode_repeat active hvisible hkind hrepeat htarget hcontent]
    rfl

end

def nestedField : Field := Field.simple [0x30] [[0x31]]

def groupedRoot : Block :=
  Block.new (Text.ofAscii "r")
    [.leaf (Text.ofAscii "g") nestedField,
     .nested ⟨Text.ofAscii "a", [.leaf (Text.ofAscii "x") nestedField], none, none,
       some (Text.ofAscii "r.g")⟩]

def groupedRequest : CompiledRequest where
  name := Text.ofAscii "r"
  entries :=
    [⟨Text.ofAscii "r", none, .container [1, 2], none, none, none⟩,
     ⟨Text.ofAscii "r.g", some 0, .atom nestedField, none, none, none⟩,
     ⟨Text.ofAscii "r.a", some 0, .container [3], none, none, some (Text.ofAscii "r.g")⟩,
     ⟨Text.ofAscii "r.a.x", some 2, .atom nestedField, none, none, none⟩]
  paths :=
    [(Text.ofAscii "r", 0), (Text.ofAscii "r.g", 1), (Text.ofAscii "r.a", 2),
     (Text.ofAscii "r.a.x", 3)]
  maxBytes := 64
  seq := .sequence [.plain 1, .sequence [.sequence [.plain 3],
    .product 1 (.sequence [.plain 3])]]

theorem groupedRoot_compiles : compile groupedRoot 64 8 = .done groupedRequest := rfl

theorem groupedRequest_unregrouped : ¬ Regrouped groupedRequest := by
  have honly : ∀ {index target}, (groupedRequest.entry index).group = some target →
      index = 2 := by
    intro index target hsome
    rcases index with _ | _ | _ | _ | index
    · cases hsome
    · cases hsome
    · rfl
    · cases hsome
    · cases hsome
  have hinside : ∀ {index}, groupedRequest.Encloses 2 index → index = 3 := by
    intro index hencloses
    obtain ⟨above, hparent, hrest⟩ := Relation.TransGen.head'_iff.mp hencloses
    have hroot : ¬ Relation.ReflTransGen groupedRequest.Parent 0 2 := by
      intro habove
      rcases habove.cases_head with hzero | ⟨other, hother, -⟩
      · cases hzero
      · cases hother
    rcases index with _ | _ | _ | _ | index
    · cases hparent
    · cases hparent
      exact absurd hrest hroot
    · cases hparent
      exact absurd hrest hroot
    · rfl
    · cases hparent
  rintro ⟨outer, field, -, hgroup, henclosed | ⟨inner, leaf, hinner, -, hinnerGroup, -⟩⟩
  · obtain rfl := honly hgroup
    obtain rfl := hinside henclosed
    exact absurd hgroup (by decide)
  · obtain rfl := honly hgroup
    obtain rfl := hinside hinner
    cases hinnerGroup

end CompiledRequest

namespace CaseStream

open CompiledRequest

theorem Originates.listed {request : CompiledRequest} {mode : Mode} {vars : Option Vars}
    {case : MutationCase}
    (horiginates : Originates request vars (request.initialCursor mode) case) :
    ∃ (position : Nat) (parts : Parts), case.ordinal = position ∧
      (request.candidates mode)[position]? = some parts ∧
        Eval.Returns (request.buildCase vars position parts) case := by
  obtain ⟨values, parts, last, htakes, hordinal, hbuild⟩ := horiginates
  exact ⟨values.length, parts, hordinal.symm,
    htakes.getElem?_of_drains (request.candidates_drains mode), hbuild⟩

theorem candidates_distinct {root : Block} {maxBytes : Int32} {request : CompiledRequest}
    {fuel : Nat} (hassembled : Assembled root maxBytes fuel request) {mode : Mode}
    (hregrouped : mode = .sequential → ¬ Regrouped request) {parts : Parts}
    (hmem : parts ∈ request.candidates mode) :
    parts ≠ [] ∧ (parts.map Prod.fst).Nodup ∧
      ∀ part ∈ parts, part.2 < (request.kind part.1).count := by
  cases mode with
  | sequential =>
      have hdenote := (request.candidates_drains .sequential).unique
        request.sequentialCursor_drains
      rw [hdenote] at hmem
      obtain ⟨groups, front, leaf, -, hparts, hchain⟩ := hassembled.chain hmem
      refine ⟨by simp [hparts], hassembled.distinct_iff.mpr (hregrouped rfl) parts hmem, ?_⟩
      rw [hparts]
      exact hchain.count
  | combinatorial maxDepth =>
      obtain ⟨last, final, htakes, -⟩ := request.candidates_drains (.combinatorial maxDepth)
      have hkeeps := keeps_lift request.cursorTurn_combinatorial combTurn_keeps
      have hcombined := hkeeps.takes htakes ⟨_, rfl, hassembled.sound maxDepth⟩ parts hmem
      exact ⟨hcombined.nonempty, hcombined.distinct, hcombined.count⟩

/-- Every part of an emitted case is applied, and no entry is named twice, unless a
sequential stream looks a group up again inside its own block; and there such cases are
listed. -/
theorem parts_applied {root : Block} {maxBytes : Int32} {request : CompiledRequest}
    (hcompile : Eval.Returns (compile root maxBytes) request) :
    (∀ mode, (mode = .sequential → ¬ Regrouped request) →
        ∀ (vars : Option Vars) (start limit : Int32) (stream after : CaseStream)
          (answers : List Answer) (case : MutationCase),
          request.enumerate mode vars start limit = .ok stream →
          Calls stream answers after → .done (some case) ∈ answers →
          ∃ (position : Nat) (parts : Parts), case.ordinal = position ∧
            (request.candidates mode)[position]? = some parts ∧
            Eval.Returns (request.buildCase vars position parts) case ∧
            (parts.map Prod.fst).Nodup ∧
            ∀ part ∈ parts, Applied request (request.partReplacements parts) vars part) ∧
      ((∀ parts ∈ request.candidates .sequential, (parts.map Prod.fst).Nodup) ↔
        ¬ Regrouped request) := by
  obtain ⟨fuel, hdone⟩ := hcompile
  have hassembled := (compile_eq_done hdone).assembled
  constructor
  · intro mode hregrouped vars start limit stream after answers case hstream hcalls hcase
    obtain ⟨position, parts, hordinal, hparts, hbuild⟩ :=
      (enumerate_originates hstream hcalls hcase).listed
    obtain ⟨-, hdistinct, hcount⟩ :=
      candidates_distinct hassembled hregrouped (List.mem_of_getElem? hparts)
    exact ⟨position, parts, hordinal, hparts, hbuild, hdistinct,
      fun part hmem => .of_distinct hassembled.table hdistinct vars hmem (hcount part hmem)⟩
  · rw [(request.candidates_drains .sequential).unique request.sequentialCursor_drains]
    exact hassembled.distinct_iff

def singleStream : CaseStream where
  request := pairedRequest
  limit := 1
  skip := 0
  ordinal := 0
  emitted := 0
  state := .running
  cursor := pairedRequest.sequentialCursor
  vars := none

def singleCase : MutationCase where
  id := Text.ofAscii "v1:r.a:0"
  requestName := Text.ofAscii "r"
  fieldPath := Text.ofAscii "r.a"
  mutationIndex := 0
  ordinal := 0
  payload := [0x32, 0x34]
  extra := []

def groupedStream : CaseStream where
  request := groupedRequest
  limit := 1
  skip := 2
  ordinal := 2
  emitted := 0
  state := .running
  cursor := groupedRequest.sequentialCursor
  vars := none

def groupedCase : MutationCase where
  id := Text.ofAscii "v1:r.g:0+r.a.x:0"
  requestName := Text.ofAscii "r"
  fieldPath := Text.ofAscii "r.a.x"
  mutationIndex := 0
  ordinal := 2
  payload := [0x31, 0x31]
  extra := [(Text.ofAscii "r.g", 0)]

/-- A field inside a block is mutated together with the field that the block names as its
group. -/
theorem groupedCase_applied :
    ∃ (position : Nat) (parts : Parts), groupedCase.ordinal = position ∧
      (groupedRequest.candidates .sequential)[position]? = some parts ∧
      Eval.Returns (groupedRequest.buildCase none position parts) groupedCase ∧
      (parts.map Prod.fst).Nodup ∧
      ∀ part ∈ parts,
        Applied groupedRequest (groupedRequest.partReplacements parts) none part := by
  have hanswers : Answers groupedStream (.done (some groupedCase)) (next 30 groupedStream).2 :=
    ⟨30, rfl, by simp⟩
  exact (parts_applied ⟨8, groupedRoot_compiles⟩).1 .sequential
    (fun _ => groupedRequest_unregrouped) none 2 1 groupedStream _ _ groupedCase rfl
    (.cons hanswers (.nil _)) (List.mem_singleton.mpr rfl)

/-- The eleventh case of the doubled request names its field three times, and the second
candidate it names is not applied. -/
theorem doubledCase_unapplied :
    Eval.Returns (compile doubledRoot 64) doubledRequest ∧
      doubledRequest.enumerate .sequential none 10 1 = .ok doubledStream ∧
      (∃ after, Calls doubledStream [.done (some doubledCase)] after) ∧
      (doubledRequest.candidates .sequential)[10]? = some [(3, 0), (3, 1), (3, 0)] ∧
      Eval.Returns (doubledRequest.buildCase none 10 [(3, 0), (3, 1), (3, 0)]) doubledCase ∧
      ¬ ([(3, 0), (3, 1), (3, 0)].map Prod.fst : List Nat).Nodup ∧
      ¬ Applied doubledRequest
        (doubledRequest.partReplacements [(3, 0), (3, 1), (3, 0)]) none (3, 1) := by
  have hanswers : Answers doubledStream (.done (some doubledCase))
      (next 60 doubledStream).2 := ⟨60, rfl, by simp⟩
  refine ⟨⟨8, doubledRoot_compiles⟩, rfl, ⟨_, .cons hanswers (.nil _)⟩, ?_, ⟨8, rfl⟩,
    by decide, fun happlied => ?_⟩
  · rw [(doubledRequest.candidates_drains .sequential).unique
      doubledRequest.sequentialCursor_drains]
    rfl
  · have hvalue := happlied.value rfl rfl [] 0
    revert hvalue
    decide +kernel

end CaseStream

end MoonBoofuzz
