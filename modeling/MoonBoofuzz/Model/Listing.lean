import Mathlib.Data.List.Sort
import MoonBoofuzz.Data.Digits
import MoonBoofuzz.Model.Preorder

namespace MoonBoofuzz

/-! The nodes of a tree, depth first and each before its children. -/

namespace Node

mutual
def preorder (scope : Text) : Node → List (Text × Node)
  | .nested (.mk name children condition alignment group) =>
      (childPath scope name, .nested (.mk name children condition alignment group)) ::
        preorders (childPath scope name) children
  | .leaf name field => [(childPath scope name, .leaf name field)]
  | .repeated name target min max step variableName =>
      [(childPath scope name, .repeated name target min max step variableName)]
  | .sized name spec => [(childPath scope name, .sized name spec)]
  | .checksummed name spec => [(childPath scope name, .checksummed name spec)]
  | .mirrored name target => [(childPath scope name, .mirrored name target)]
  | .dynamic name variableName field => [(childPath scope name, .dynamic name variableName field)]

def preorders (scope : Text) : List Node → List (Text × Node)
  | [] => []
  | node :: rest => preorder scope node ++ preorders scope rest
end

theorem preorder_plain {node : Node} (hplain : node.isNested = false) (scope : Text) :
    preorder scope node = [(childPath scope node.name, node)] := by
  cases node with
  | nested block => simp [isNested] at hplain
  | _ => rfl

end Node

/-- The entry was made for the node, at its path.  Only the children of a block are known
later. -/
structure Recorded (entry : Entry) (item : Text × Node) : Prop where
  path : entry.path = item.1
  name : validName item.2.name = true
  scope : ∃ scope, item.1 = childPath scope item.2.name
  condition : entry.condition = item.2.condition
  alignment : entry.alignment = item.2.alignment
  group : entry.group = item.2.group
  block : item.2.isNested = true → entry.kind.isContainer = true
  plain : item.2.isNested = false → item.2.entryKind = .ok entry.kind

theorem registerNode_recorded {node : Node} {scope : Text} {parent : Option Nat}
    {depth : Nat} {draft draft' : Draft}
    (hregister : registerNode node scope parent depth draft = .ok draft') :
    ∃ entry, draft'.entries = draft.entries ++ [entry] ∧
      Recorded entry (childPath scope node.name, node) := by
  obtain ⟨hname, -, kind, hkind, rfl⟩ := registerNode_eq_ok hregister
  refine ⟨_, rfl, rfl, hname, ⟨scope, rfl⟩, rfl, rfl, rfl, ?_, fun _ => hkind⟩
  intro hnested
  cases node with
  | nested block =>
      cases hkind
      rfl
  | _ => simp [Node.isNested] at hnested

theorem addPlain_recorded {node : Node} (hplain : node.isNested = false) {scope : Text}
    {parent : Option Nat} {depth index : Nat} {draft draft' : Draft}
    (hadd : addNode scope parent depth draft node = .ok (index, draft')) :
    ∃ added, draft'.entries = draft.entries ++ added ∧
      List.Forall₂ Recorded added (Node.preorder scope node) := by
  obtain ⟨entry, hentries, hrecorded⟩ := registerNode_recorded (addNode_plain hplain hadd).2
  rw [Node.preorder_plain hplain]
  exact ⟨[entry], hentries, .cons hrecorded .nil⟩

theorem modify_length_append {α : Type} (front : List α) (item : α) (rest : List α)
    (change : α → α) :
    (front ++ item :: rest).modify front.length change = front ++ change item :: rest := by
  induction front with
  | nil => rfl
  | cons first front ih =>
      rw [List.cons_append, List.length_cons, List.modify_succ_cons, ih]
      rfl

mutual
/-- A node appends the entries of its preorder. -/
theorem addNode_recorded {scope : Text} {parent : Option Nat} {depth index : Nat}
    {draft draft' : Draft} : ∀ {node : Node},
    addNode scope parent depth draft node = .ok (index, draft') →
      ∃ added, draft'.entries = draft.entries ++ added ∧
        List.Forall₂ Recorded added (Node.preorder scope node)
  | .nested (.mk name children condition alignment group), hadd => by
      obtain ⟨-, registered, indices, filled, hregister, hchildren, rfl⟩ :=
        addNode_nested hadd
      obtain ⟨entry, hentries, hrecorded⟩ := registerNode_recorded hregister
      obtain ⟨added, hfilled, hadded⟩ := addChildren_recorded hchildren
      refine ⟨{ entry with kind := .container indices } :: added, ?_, .cons ?_ hadded⟩
      · rw [Draft.setChildren, hfilled, hentries, List.append_assoc, List.singleton_append]
        exact modify_length_append draft.entries entry added _
      · exact {
          path := hrecorded.path
          name := hrecorded.name
          scope := hrecorded.scope
          condition := hrecorded.condition
          alignment := hrecorded.alignment
          group := hrecorded.group
          block := fun _ => rfl
          plain := fun hplain => by cases hplain }
  | .leaf _ _, hadd => addPlain_recorded rfl hadd
  | .repeated _ _ _ _ _ _, hadd => addPlain_recorded rfl hadd
  | .sized _ _, hadd => addPlain_recorded rfl hadd
  | .checksummed _ _, hadd => addPlain_recorded rfl hadd
  | .mirrored _ _, hadd => addPlain_recorded rfl hadd
  | .dynamic _ _ _, hadd => addPlain_recorded rfl hadd

theorem addChildren_recorded {scope : Text} {parent : Option Nat} {depth : Nat}
    {indices : List Nat} {draft draft' : Draft} : ∀ {nodes : List Node},
    addChildren scope parent depth draft nodes = .ok (indices, draft') →
      ∃ added, draft'.entries = draft.entries ++ added ∧
        List.Forall₂ Recorded added (Node.preorders scope nodes)
  | [], hadd => by
      cases hadd
      exact ⟨[], (List.append_nil _).symm, .nil⟩
  | node :: rest, hadd => by
      obtain ⟨index, others, middle, hnode, hrest, -⟩ := addChildren_cons hadd
      obtain ⟨first, hfirst, hown⟩ := addNode_recorded hnode
      obtain ⟨second, hsecond, hothers⟩ := addChildren_recorded hrest
      refine ⟨first ++ second, ?_, List.rel_append hown hothers⟩
      rw [hsecond, hfirst, List.append_assoc]
end

namespace CompiledRequest

/-- The entry `child` has the parent `parent`. -/
def Below (request : CompiledRequest) (parent child : Nat) : Prop :=
  child < request.entries.length ∧ (request.entry child).parent = some parent

/-- The entries of a subtree, its root with them. -/
def Descends (request : CompiledRequest) : Nat → Nat → Prop :=
  Relation.ReflTransGen (Below request)

section

variable {request : CompiledRequest} {parent start stop : Nat} {children : List Nat}

theorem ChildOf.below {child : Nat} (hchild : ChildOf request parent child) :
    Below request parent child :=
  ⟨hchild.lt, hchild.link⟩

theorem Forest.descends (hforest : Forest request parent start children stop)
    {index : Nat} (hstart : start ≤ index) (hstop : index < stop) :
    Descends request parent index := by
  induction hforest with
  | nil _ _ => omega
  | @leaf _ start _ _ hchild _ _ ih =>
      by_cases hequal : index = start
      · subst hequal
        exact .single hchild.below
      · exact ih (by omega) hstop
  | @block _ start middle _ _ _ hchild _ _ _ ihinner ih =>
      by_cases hequal : index = start
      · subst hequal
        exact .single hchild.below
      · by_cases hbelow : index < middle
        · exact .head hchild.below (ihinner (by omega) hbelow)
        · exact ih (by omega) hstop

/-- Every entry of an interval is listed among the children of its parent. -/
theorem Forest.listed (hforest : Forest request parent start children stop)
    {index : Nat} (hstart : start ≤ index) (hstop : index < stop) :
    ChildOf request parent index ∧ index ∈ children ∨
      ∃ above inner, above < index ∧ request.kind above = .container inner ∧
        ChildOf request above index ∧ index ∈ inner := by
  induction hforest with
  | nil _ _ => omega
  | @leaf parent start _ rest hchild _ _ ih =>
      by_cases hequal : index = start
      · subst hequal
        exact .inl ⟨hchild, List.mem_cons_self⟩
      · rcases ih (by omega) hstop with ⟨hother, hmem⟩ | hdeeper
        · exact .inl ⟨hother, List.mem_cons_of_mem _ hmem⟩
        · exact .inr hdeeper
  | @block parent start middle _ inner rest hchild hkind _ _ ihinner ih =>
      by_cases hequal : index = start
      · subst hequal
        exact .inl ⟨hchild, List.mem_cons_self⟩
      · by_cases hbelow : index < middle
        · rcases ihinner (by omega) hbelow with ⟨hother, hmem⟩ | hdeeper
          · exact .inr ⟨start, inner, by omega, hkind, hother, hmem⟩
          · exact .inr hdeeper
        · rcases ih (by omega) hstop with ⟨hother, hmem⟩ | hdeeper
          · exact .inl ⟨hother, List.mem_cons_of_mem _ hmem⟩
          · exact .inr hdeeper

theorem Forest.sorted (hforest : Forest request parent start children stop) :
    children.Pairwise (· < ·) := by
  induction hforest with
  | nil _ _ => exact .nil
  | leaf _ _ hrest ih =>
      refine .cons (fun child hmem => ?_) ih
      have hafter := (hrest.child hmem).2.1
      omega
  | block _ _ hinner hrest _ ih =>
      refine .cons (fun child hmem => ?_) ih
      have hle := hinner.le
      have hafter := (hrest.child hmem).2.1
      omega

end

namespace Table

variable {request : CompiledRequest}

theorem listed (htable : Table request) {index : Nat} (hpositive : 0 < index)
    (hindex : index < request.entries.length) :
    ∃ above inner, above < index ∧ request.kind above = .container inner ∧
      ChildOf request above index ∧ index ∈ inner := by
  obtain ⟨children, hkind, hforest⟩ := htable.tree
  rcases hforest.listed hpositive hindex with ⟨hchild, hmem⟩ | hdeeper
  · exact ⟨0, children, hpositive, hkind, hchild, hmem⟩
  · exact hdeeper

theorem below_listed (htable : Table request) {parent child : Nat}
    (hbelow : Below request parent child) :
    ∃ inner, parent < child ∧ request.kind parent = .container inner ∧
      ChildOf request parent child ∧ child ∈ inner := by
  have hpositive : 0 < child := by
    rcases Nat.eq_zero_or_pos child with rfl | hpositive
    · have hlink := hbelow.2
      rw [htable.rootParent] at hlink
      cases hlink
    · exact hpositive
  obtain ⟨above, inner, hlt, hkind, hchild, hmem⟩ := htable.listed hpositive hbelow.1
  have hlink := hchild.link
  rw [hbelow.2] at hlink
  obtain rfl := Option.some.inj hlink
  exact ⟨inner, hlt, hkind, hchild, hmem⟩

theorem children_eq (htable : Table request) {index : Nat} {children : List Nat}
    (hindex : index < request.entries.length) (hkind : request.kind index = .container children) :
    children = (List.range request.entries.length).filter
      fun child => (request.entry child).parent = some index := by
  obtain ⟨stop, -, hspans⟩ := htable.spans hindex
  cases hspans with
  | leaf hplain => simp [hkind, EntryKind.isContainer] at hplain
  | block hblock hforest =>
      rw [hkind] at hblock
      obtain rfl := EntryKind.container.inj hblock
      refine List.Pairwise.eq_of_mem_iff hforest.sorted (List.pairwise_lt_range.filter _) ?_
      intro child
      rw [List.mem_filter, List.mem_range, decide_eq_true_eq]
      constructor
      · intro hmem
        exact (hforest.child hmem).1.below
      · intro hbelow
        obtain ⟨inner, -, hsame, -, hmem⟩ := htable.below_listed hbelow
        rw [hkind] at hsame
        obtain rfl := EntryKind.container.inj hsame
        exact hmem

theorem descends_within (htable : Table request) {index stop : Nat}
    (hspans : Spans request index stop) {inner : Nat} (hdescends : Descends request index inner) :
    index ≤ inner ∧ inner < stop := by
  induction hdescends with
  | refl => exact ⟨le_refl _, hspans.lt⟩
  | @tail above child _ hbelow ih =>
      obtain ⟨listed, hlt, hkind, -, hmem⟩ := htable.below_listed hbelow
      refine ⟨by omega, ?_⟩
      have habove : ∃ stop' ≤ stop, Spans request above stop' := by
        cases hspans with
        | leaf _ =>
            obtain rfl : above = index := by omega
            exact ⟨_, le_refl _, .leaf ‹_›⟩
        | block hblock hforest =>
            rcases Nat.eq_or_lt_of_le ih.1 with rfl | hinside
            · exact ⟨stop, le_refl _, .block hblock hforest⟩
            · exact hforest.spans hinside ih.2
      obtain ⟨stop', hle, hinner⟩ := habove
      obtain ⟨-, last, hlast, hchild⟩ := hinner.child hkind hmem
      have hbounded := hchild.lt
      omega

/-- The descendants of an entry are an interval of the table. -/
theorem descends_iff (htable : Table request) {index stop : Nat}
    (hspans : Spans request index stop) (inner : Nat) :
    Descends request index inner ↔ index ≤ inner ∧ inner < stop := by
  constructor
  · exact htable.descends_within hspans
  · rintro ⟨hstart, hstop⟩
    rcases Nat.eq_or_lt_of_le hstart with rfl | hinside
    · exact .refl
    · cases hspans with
      | leaf _ => omega
      | block _ hforest => exact hforest.descends hinside hstop

theorem child_path (htable : Table request) {index : Nat} (hpositive : 0 < index)
    (hindex : index < request.entries.length) {item : Text × Node}
    (hrecorded : Recorded (request.entry index) item) :
    ∃ parent < index, (request.entry index).parent = some parent ∧
      (request.entry index).path = (request.entry parent).path ++ Text.dot :: item.2.name := by
  obtain ⟨parent, inner, hlt, -, hchild, -⟩ := htable.listed hpositive hindex
  refine ⟨parent, hlt, hchild.link, ?_⟩
  obtain ⟨name, hname, hpath⟩ := hchild.path
  obtain ⟨scope, hscope⟩ := hrecorded.scope
  have hown : Text.dot ∉ item.2.name := (of_decide_eq_true hrecorded.name).2.1
  have hsame : (request.entry parent).path ++ Text.dot :: name = childPath scope item.2.name := by
    rw [← hpath, hrecorded.path, hscope]
  rw [childPath] at hsame
  split at hsame
  · exact absurd (by simp [← hsame]) hown
  · have hparts := Text.append_separator_inj (of_decide_eq_true hname).2.1 hown hsame
    rw [hpath, hparts.2]

end Table

/-- The table of a request lists a tree. -/
structure Preordered (root : Block) (request : CompiledRequest) : Prop where
  entries : List.Forall₂ Recorded request.entries (Node.preorder [] (.nested root))
  distinct : (request.entries.map (·.path)).Nodup
  paths : request.paths = (request.entries.map (·.path)).zipIdx
  rootParent : (request.entry 0).parent = none
  parents : ∀ index item, 0 < index →
    (Node.preorder [] (.nested root))[index]? = some item →
      ∃ parent < index, (request.entry index).parent = some parent ∧
        (request.entry index).path = (request.entry parent).path ++ Text.dot :: item.2.name
  children : ∀ index children, index < request.entries.length →
    request.kind index = .container children →
      children = (List.range request.entries.length).filter
        fun child => (request.entry child).parent = some index
  subtrees : ∀ index < request.entries.length, ∃ stop, index < stop ∧
    stop ≤ request.entries.length ∧
      ∀ inner, Descends request index inner ↔ index ≤ inner ∧ inner < stop
  repeats : ∀ index path range variableName,
    request.kind index = .repetition path range variableName →
      ∃ target, request.resolve path = .ok target ∧
        ∀ inner, Descends request target inner → inner < index

theorem checkRepeat_resolves {request : CompiledRequest} {entry : Entry} {path : Text}
    {range : RepeatRange} {variableName : Option Text}
    (hcheck : checkRepeat request entry = .ok ())
    (hkind : entry.kind = .repetition path range variableName) :
    ∃ target, request.resolve path = .ok target := by
  simp only [checkRepeat, hkind] at hcheck
  cases htarget : request.resolve path with
  | error reason =>
      rw [htarget] at hcheck
      cases hcheck
  | ok target => exact ⟨target, rfl⟩

theorem Assembled.preordered {root : Block} {maxBytes : Int32} {fuel : Nat}
    {request : CompiledRequest} (h : Assembled root maxBytes fuel request) :
    Preordered root request := by
  have htable := h.table
  obtain ⟨position, hadd⟩ := h.added
  have hindexed : Indexed ⟨request.entries, request.paths⟩ :=
    addNode_indexed ⟨rfl, by simp⟩ hadd
  obtain ⟨added, hentries, hrecorded⟩ := addNode_recorded hadd
  obtain rfl : request.entries = added := hentries
  constructor
  case entries => exact hrecorded
  case distinct => exact hindexed.nodup
  case paths => exact hindexed.paths
  case rootParent => exact htable.rootParent
  case parents =>
    intro index item hpositive hitem
    obtain ⟨hlt, hget⟩ := List.getElem?_eq_some_iff.mp hitem
    have hindex : index < request.entries.length := hrecorded.length_eq ▸ hlt
    have hown : Recorded (request.entry index) item := by
      have hat := hrecorded.get hindex hlt
      have hentry := (entry_eq_of_getElem? (List.getElem?_eq_getElem hindex)).1
      rw [hentry, ← hget]
      exact hat
    exact htable.child_path hpositive hindex hown
  case children => exact fun index children hindex hkind => htable.children_eq hindex hkind
  case subtrees =>
    intro index hindex
    obtain ⟨stop, hle, hspans⟩ := htable.spans hindex
    exact ⟨stop, hspans.lt, hle, htable.descends_iff hspans⟩
  case repeats =>
    intro index path range variableName hkind
    have hplain : (request.kind index).isContainer = false := by
      simp [hkind, EntryKind.isContainer]
    obtain ⟨hrepeat, -⟩ := checkReferences_mem h.references (entry_mem_of_not_container hplain)
    obtain ⟨target, htarget⟩ := checkRepeat_resolves hrepeat hkind
    obtain ⟨stop, hle, hspans⟩ := htable.repeat_spans h.references hkind htarget
    refine ⟨target, htarget, fun inner hdescends => ?_⟩
    have hwithin := htable.descends_within hspans hdescends
    omega

/-- Whatever tree is accepted, its table is in preorder. -/
theorem compile_preordered {root : Block} {maxBytes : Int32} {request : CompiledRequest}
    (hcompile : Eval.Returns (compile root maxBytes) request) :
    Preordered root request := by
  obtain ⟨fuel, hdone⟩ := hcompile
  exact (compile_eq_done hdone).assembled.preordered

def echoedRoot : Block :=
  Block.new (Text.ofAscii "r")
    [.nested (Block.new (Text.ofAscii "b")
       [.leaf (Text.ofAscii "x") (Field.simple [0x41] [[0x42]])]),
     .repeated (Text.ofAscii "n") (Text.ofAscii "r.b") 1 3 2 none]

def echoedRequest : CompiledRequest where
  name := Text.ofAscii "r"
  entries :=
    [⟨Text.ofAscii "r", none, .container [1, 3], none, none, none⟩,
     ⟨Text.ofAscii "r.b", some 0, .container [2], none, none, none⟩,
     ⟨Text.ofAscii "r.b.x", some 1, .atom (Field.simple [0x41] [[0x42]]), none, none, none⟩,
     ⟨Text.ofAscii "r.n", some 0, .repetition (Text.ofAscii "r.b")
       ⟨1, 3, 2, by decide, by decide, by decide, by decide, by decide⟩ none, none, none, none⟩]
  paths :=
    [(Text.ofAscii "r", 0), (Text.ofAscii "r.b", 1), (Text.ofAscii "r.b.x", 2),
     (Text.ofAscii "r.n", 3)]
  maxBytes := 64
  seq := .sequence [.sequence [.plain 2], .plain 3]

theorem echoedRoot_compiles : compile echoedRoot 64 6 = .done echoedRequest := rfl

theorem echoedRoot_preordered : Preordered echoedRoot echoedRequest :=
  compile_preordered ⟨6, echoedRoot_compiles⟩

end CompiledRequest

end MoonBoofuzz
