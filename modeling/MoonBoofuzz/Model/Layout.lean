import MoonBoofuzz.Model.Compiled

namespace MoonBoofuzz

theorem registerNode_eq_ok {node : Node} {scope : Text} {parent : Option Nat}
    {depth : Nat} {draft draft' : Draft}
    (hregister : registerNode node scope parent depth draft = .ok draft') :
    validName node.name = true ∧
      draft.paths.lookup (childPath scope node.name) = none ∧
      ∃ kind, node.entryKind = .ok kind ∧
        draft' = {
          entries := draft.entries ++ [{
            path := childPath scope node.name
            parent := parent
            kind := kind
            condition := node.condition
            alignment := node.alignment
            group := node.group }]
          paths := draft.paths ++
            [(childPath scope node.name, draft.entries.length)] } := by
  unfold registerNode at hregister
  split at hregister
  · cases hregister
  split at hregister
  · cases hregister
  rename_i hname
  simp only at hregister
  split at hregister
  · cases hregister
  rename_i hfresh
  obtain ⟨kind, hkind, hdraft⟩ := exceptBind_eq_ok_iff.mp hregister
  cases hdraft
  exact ⟨by simpa using hname, Option.not_isSome_iff_eq_none.mp hfresh, kind, hkind,
    rfl⟩

namespace Node

def isNested : Node → Bool
  | .nested _ => true
  | _ => false

end Node

theorem addNode_plain {node : Node} (hplain : node.isNested = false) {scope : Text}
    {parent : Option Nat} {depth index : Nat} {draft draft' : Draft}
    (hadd : addNode scope parent depth draft node = .ok (index, draft')) :
    index = draft.entries.length ∧
      registerNode node scope parent depth draft = .ok draft' := by
  cases node <;> simp only [Node.isNested, Bool.true_eq_false] at hplain <;>
    · simp only [addNode, exceptBind_eq_ok_iff, Except.ok.injEq, Prod.mk.injEq]
        at hadd
      obtain ⟨registered, hregister, hindex, rfl⟩ := hadd
      exact ⟨hindex.symm, hregister⟩

theorem addNode_nested {name : Text} {children : List Node}
    {condition : Option Condition} {alignment : Option Alignment}
    {group : Option Text} {scope : Text} {parent : Option Nat} {depth index : Nat}
    {draft draft' : Draft}
    (hadd : addNode scope parent depth draft
      (.nested (.mk name children condition alignment group)) =
        .ok (index, draft')) :
    index = draft.entries.length ∧ ∃ registered indices filled,
      registerNode (.nested (.mk name children condition alignment group)) scope
        parent depth draft = .ok registered ∧
      addChildren (childPath scope name) (some draft.entries.length) (depth + 1)
        registered children = .ok (indices, filled) ∧
      draft' = filled.setChildren draft.entries.length indices := by
  simp only [addNode, exceptBind_eq_ok_iff, Except.ok.injEq, Prod.mk.injEq] at hadd
  obtain ⟨registered, hregister, ⟨indices, filled⟩, hchildren, hindex, rfl⟩ := hadd
  exact ⟨hindex.symm, registered, indices, filled, hregister, hchildren, rfl⟩

theorem addChildren_cons {node : Node} {rest : List Node} {scope : Text}
    {parent : Option Nat} {depth : Nat} {indices : List Nat} {draft draft' : Draft}
    (hadd : addChildren scope parent depth draft (node :: rest) =
      .ok (indices, draft')) :
    ∃ index others added,
      addNode scope parent depth draft node = .ok (index, added) ∧
      addChildren scope parent depth added rest = .ok (others, draft') ∧
      indices = index :: others := by
  simp only [addChildren, exceptBind_eq_ok_iff, Except.ok.injEq, Prod.mk.injEq]
    at hadd
  obtain ⟨⟨index, added⟩, hnode, ⟨others, filled⟩, hrest, rfl, rfl⟩ := hadd
  exact ⟨index, others, added, hnode, hrest, rfl⟩

structure Grows (draft draft' : Draft) : Prop where
  length : draft.entries.length ≤ draft'.entries.length
  kept : ∀ k < draft.entries.length, draft'.entries[k]? = draft.entries[k]?

theorem Grows.refl (draft : Draft) : Grows draft draft := ⟨le_refl _, fun _ _ => rfl⟩

theorem Grows.trans {first second third : Draft} (hfirst : Grows first second)
    (hsecond : Grows second third) : Grows first third where
  length := hfirst.length.trans hsecond.length
  kept := fun k hk =>
    (hsecond.kept k (Nat.lt_of_lt_of_le hk hfirst.length)).trans (hfirst.kept k hk)

theorem registerNode_grows {node : Node} {scope : Text} {parent : Option Nat}
    {depth : Nat} {draft draft' : Draft}
    (hregister : registerNode node scope parent depth draft = .ok draft') :
    Grows draft draft' ∧ draft'.entries.length = draft.entries.length + 1 := by
  obtain ⟨-, -, kind, -, rfl⟩ := registerNode_eq_ok hregister
  refine ⟨⟨by simp, ?_⟩, by simp⟩
  intro k hk
  exact List.getElem?_append_left hk

theorem addPlain_grows {node : Node} (hplain : node.isNested = false) {scope : Text}
    {parent : Option Nat} {depth index : Nat} {draft draft' : Draft}
    (hadd : addNode scope parent depth draft node = .ok (index, draft')) :
    Grows draft draft' ∧ draft.entries.length < draft'.entries.length := by
  obtain ⟨hgrows, hlength⟩ := registerNode_grows (addNode_plain hplain hadd).2
  exact ⟨hgrows, by omega⟩

theorem setChildren_grows {draft filled : Draft} (hgrows : Grows draft filled)
    (indices : List Nat) :
    Grows draft (filled.setChildren draft.entries.length indices) where
  length := by simpa [Draft.setChildren] using hgrows.length
  kept := by
    intro k hk
    rw [← hgrows.kept k hk]
    simp only [Draft.setChildren]
    rw [List.getElem?_modify_ne _ _ (by omega)]

mutual
theorem addNode_grows {scope : Text} {parent : Option Nat} {depth index : Nat}
    {draft draft' : Draft} : ∀ {node : Node},
    addNode scope parent depth draft node = .ok (index, draft') →
      Grows draft draft' ∧ draft.entries.length < draft'.entries.length
  | .nested (.mk name children condition alignment group), hadd => by
      obtain ⟨-, registered, indices, filled, hregister, hchildren, rfl⟩ :=
        addNode_nested hadd
      obtain ⟨hgrows, hlength⟩ := registerNode_grows hregister
      have hfilled := addChildren_grows hchildren
      refine ⟨setChildren_grows (hgrows.trans hfilled) indices, ?_⟩
      have := hfilled.length
      simp only [Draft.setChildren, List.length_modify]
      omega
  | .leaf _ _, hadd => addPlain_grows rfl hadd
  | .repeated _ _ _ _ _ _, hadd => addPlain_grows rfl hadd
  | .sized _ _, hadd => addPlain_grows rfl hadd
  | .checksummed _ _, hadd => addPlain_grows rfl hadd
  | .mirrored _ _, hadd => addPlain_grows rfl hadd
  | .dynamic _ _ _, hadd => addPlain_grows rfl hadd

theorem addChildren_grows {scope : Text} {parent : Option Nat} {depth : Nat}
    {indices : List Nat} {draft draft' : Draft} : ∀ {nodes : List Node},
    addChildren scope parent depth draft nodes = .ok (indices, draft') →
      Grows draft draft'
  | [], hadd => by
      cases hadd
      exact .refl draft
  | node :: rest, hadd => by
      obtain ⟨index, others, added, hnode, hrest, -⟩ := addChildren_cons hadd
      exact (addNode_grows hnode).1.trans (addChildren_grows hrest)
end

namespace CompiledRequest

/-- The entry `index` is registered under the block `parent`. -/
structure ChildOf (request : CompiledRequest) (parent index : Nat) : Prop where
  lt : index < request.entries.length
  link : (request.entry index).parent = some parent
  path : ∃ name, validName name = true ∧
    (request.entry index).path = (request.entry parent).path ++ Text.dot :: name

/-- The children of `parent` that are listed occupy the indices from `start` up to
`stop`, each followed by its own descendants. -/
inductive Forest (request : CompiledRequest) : Nat → Nat → List Nat → Nat → Prop
  | nil (parent start : Nat) : Forest request parent start [] start
  | leaf {parent start stop : Nat} {rest : List Nat}
      (hchild : ChildOf request parent start)
      (hkind : (request.kind start).isContainer = false)
      (hrest : Forest request parent (start + 1) rest stop) :
      Forest request parent start (start :: rest) stop
  | block {parent start middle stop : Nat} {children rest : List Nat}
      (hchild : ChildOf request parent start)
      (hkind : request.kind start = .container children)
      (hinner : Forest request start (start + 1) children middle)
      (hrest : Forest request parent middle rest stop) :
      Forest request parent start (start :: rest) stop

theorem entry_eq_of_getElem? {request : CompiledRequest} {index : Nat} {entry : Entry}
    (hentry : request.entries[index]? = some entry) :
    request.entry index = entry ∧ index < request.entries.length := by
  obtain ⟨hindex, -⟩ := List.getElem?_eq_some_iff.mp hentry
  exact ⟨by simp [CompiledRequest.entry, hentry], hindex⟩

/-- The request holds the entries of the draft from `start` on. -/
def Holds (request : CompiledRequest) (start : Nat) (draft : Draft) : Prop :=
  ∀ k, start ≤ k → k < draft.entries.length →
    request.entries[k]? = draft.entries[k]?

theorem Holds.of_grows {request : CompiledRequest} {start : Nat}
    {draft draft' : Draft} (hholds : Holds request start draft')
    (hgrows : Grows draft draft') : Holds request start draft := by
  intro k hstart hk
  rw [hholds k hstart (Nat.lt_of_lt_of_le hk hgrows.length), hgrows.kept k hk]

theorem childPath_of_ne {scope : Text} (hscope : scope ≠ []) (name : Text) :
    childPath scope name = scope ++ Text.dot :: name := by
  simp [childPath, hscope]

theorem childPath_ne_nil {scope name : Text} (hname : validName name = true) :
    childPath scope name ≠ [] := by
  unfold childPath
  split
  · simp only [validName, decide_eq_true_eq] at hname
    exact hname.1
  · simp

theorem registerNode_entry {request : CompiledRequest} {node : Node} {scope : Text}
    {parent : Option Nat} {depth : Nat} {draft draft' : Draft}
    (hregister : registerNode node scope parent depth draft = .ok draft')
    (hholds : Holds request draft.entries.length draft') :
    draft.entries.length < request.entries.length ∧
      (request.entry draft.entries.length).path = childPath scope node.name ∧
      (request.entry draft.entries.length).parent = parent ∧
      ∃ kind, node.entryKind = .ok kind ∧
        request.kind draft.entries.length = kind := by
  obtain ⟨-, -, kind, hkind, rfl⟩ := registerNode_eq_ok hregister
  have hentry := hholds draft.entries.length (le_refl _) (by simp)
  rw [List.getElem?_append_right (le_refl _), Nat.sub_self,
    List.getElem?_cons_zero] at hentry
  obtain ⟨hequal, hlt⟩ := entry_eq_of_getElem? hentry
  exact ⟨hlt, by rw [hequal], by rw [hequal], kind, hkind, by rw [CompiledRequest.kind, hequal]⟩

theorem entryKind_plain {node : Node} (hplain : node.isNested = false)
    {kind : EntryKind} (hkind : node.entryKind = .ok kind) :
    kind.isContainer = false := by
  cases node with
  | nested block => simp [Node.isNested] at hplain
  | repeated name target min max step variableName =>
      simp only [Node.entryKind, repeatKind] at hkind
      split at hkind
      · split at hkind
        · cases hkind
          rfl
        · cases hkind
      · cases hkind
  | _ =>
      simp only [Node.entryKind, Except.ok.injEq] at hkind
      subst hkind
      rfl

theorem setChildren_entry {request : CompiledRequest} {node : Node} {scope : Text}
    {parent : Option Nat} {depth : Nat} {draft registered filled : Draft}
    {indices : List Nat}
    (hregister : registerNode node scope parent depth draft = .ok registered)
    (hgrows : Grows registered filled)
    (hholds : Holds request draft.entries.length
      (filled.setChildren draft.entries.length indices)) :
    draft.entries.length < request.entries.length ∧
      (request.entry draft.entries.length).path = childPath scope node.name ∧
      (request.entry draft.entries.length).parent = parent ∧
      (request.entry draft.entries.length).group = node.group ∧
      request.kind draft.entries.length = .container indices ∧
      Holds request registered.entries.length filled := by
  obtain ⟨-, -, kind, -, rfl⟩ := registerNode_eq_ok hregister
  have hlength := hgrows.length
  simp only [List.length_append, List.length_singleton] at hlength
  have hkept := hgrows.kept draft.entries.length (by simp)
  rw [List.getElem?_append_right (le_refl _), Nat.sub_self,
    List.getElem?_cons_zero] at hkept
  have hentry := hholds draft.entries.length (le_refl _)
    (by simp only [Draft.setChildren, List.length_modify]; omega)
  simp only [Draft.setChildren, List.getElem?_modify, hkept, if_true] at hentry
  obtain ⟨hequal, hlt⟩ := entry_eq_of_getElem? hentry
  refine ⟨hlt, by rw [hequal], by rw [hequal], by rw [hequal],
    by rw [CompiledRequest.kind, hequal], ?_⟩
  intro k hstart hk
  simp only [List.length_append, List.length_singleton] at hstart
  rw [hholds k (by omega) (by simpa [Draft.setChildren] using hk)]
  simp only [Draft.setChildren]
  rw [List.getElem?_modify_ne _ _ (by omega)]

theorem addPlain_forest {request : CompiledRequest} {node : Node}
    (hplain : node.isNested = false) {scope : Text} {parent depth index : Nat}
    {draft draft' : Draft}
    (hadd : addNode scope (some parent) depth draft node = .ok (index, draft'))
    (hholds : Holds request draft.entries.length draft')
    (hpath : (request.entry parent).path = scope) (hscope : scope ≠ [])
    {rest : List Nat} {stop : Nat}
    (hrest : Forest request parent draft'.entries.length rest stop) :
    Forest request parent draft.entries.length (index :: rest) stop := by
  obtain ⟨rfl, hregister⟩ := addNode_plain hplain hadd
  obtain ⟨hname, -⟩ := registerNode_eq_ok hregister
  obtain ⟨hlt, hchildPath, hlink, kind, hkind, hentry⟩ :=
    registerNode_entry hregister hholds
  rw [(registerNode_grows hregister).2] at hrest
  refine .leaf ⟨hlt, hlink, node.name, hname, ?_⟩ ?_ hrest
  · rw [hchildPath, hpath, childPath_of_ne hscope]
  · rw [hentry]
    exact entryKind_plain hplain hkind

mutual
theorem addNode_forest {request : CompiledRequest} {scope : Text}
    {parent depth index : Nat} {draft draft' : Draft} : ∀ {node : Node},
    addNode scope (some parent) depth draft node = .ok (index, draft') →
    Holds request draft.entries.length draft' →
    (request.entry parent).path = scope → scope ≠ [] →
    ∀ {rest : List Nat} {stop : Nat},
      Forest request parent draft'.entries.length rest stop →
        Forest request parent draft.entries.length (index :: rest) stop
  | .nested (.mk name children condition alignment group), hadd, hholds, hpath,
      hscope, rest, stop, hrest => by
      obtain ⟨rfl, registered, indices, filled, hregister, hchildren, rfl⟩ :=
        addNode_nested hadd
      obtain ⟨hname, -⟩ := registerNode_eq_ok hregister
      obtain ⟨hlt, hchildPath, hlink, -, hkind, hbelow⟩ :=
        setChildren_entry hregister (addChildren_grows hchildren) hholds
      have hinner := addChildren_forest hchildren hbelow hchildPath
        (childPath_ne_nil hname)
      rw [(registerNode_grows hregister).2] at hinner
      simp only [Draft.setChildren, List.length_modify] at hrest
      refine .block ⟨hlt, hlink, name, hname, ?_⟩ hkind hinner hrest
      rw [hchildPath, hpath]
      exact childPath_of_ne hscope name
  | .leaf _ _, hadd, hholds, hpath, hscope, _, _, hrest =>
      addPlain_forest rfl hadd hholds hpath hscope hrest
  | .repeated _ _ _ _ _ _, hadd, hholds, hpath, hscope, _, _, hrest =>
      addPlain_forest rfl hadd hholds hpath hscope hrest
  | .sized _ _, hadd, hholds, hpath, hscope, _, _, hrest =>
      addPlain_forest rfl hadd hholds hpath hscope hrest
  | .checksummed _ _, hadd, hholds, hpath, hscope, _, _, hrest =>
      addPlain_forest rfl hadd hholds hpath hscope hrest
  | .mirrored _ _, hadd, hholds, hpath, hscope, _, _, hrest =>
      addPlain_forest rfl hadd hholds hpath hscope hrest
  | .dynamic _ _ _, hadd, hholds, hpath, hscope, _, _, hrest =>
      addPlain_forest rfl hadd hholds hpath hscope hrest

theorem addChildren_forest {request : CompiledRequest} {scope : Text}
    {parent depth : Nat} {indices : List Nat} {draft draft' : Draft} :
    ∀ {nodes : List Node},
    addChildren scope (some parent) depth draft nodes = .ok (indices, draft') →
    Holds request draft.entries.length draft' →
    (request.entry parent).path = scope → scope ≠ [] →
      Forest request parent draft.entries.length indices draft'.entries.length
  | [], hadd, _, _, _ => by
      cases hadd
      exact .nil parent _
  | node :: rest, hadd, hholds, hpath, hscope => by
      obtain ⟨index, others, added, hnode, hrest, rfl⟩ := addChildren_cons hadd
      have hgrows := addChildren_grows hrest
      have hlength := (addNode_grows hnode).2
      have hafter : Holds request added.entries.length draft' :=
        fun k hstart hk => hholds k (by omega) hk
      exact addNode_forest hnode (hholds.of_grows hgrows) hpath hscope
        (addChildren_forest hrest hafter hpath hscope)
end

/-- The path map of a draft lists the entries' distinct paths. -/
structure Indexed (draft : Draft) : Prop where
  paths : draft.paths = (draft.entries.map (·.path)).zipIdx
  nodup : (draft.entries.map (·.path)).Nodup

theorem lookup_eq_some_of_nodup {pairs : List (Text × Nat)}
    (hnodup : (pairs.map (·.1)).Nodup) {path : Text} {index : Nat} :
    pairs.lookup path = some index ↔ (path, index) ∈ pairs := by
  induction pairs with
  | nil => simp
  | cons pair rest ih =>
      obtain ⟨first, value⟩ := pair
      rw [List.map_cons, List.nodup_cons] at hnodup
      rw [List.lookup_cons, List.mem_cons, Prod.mk.injEq]
      by_cases hequal : path = first
      · subst hequal
        have hfresh : (path, index) ∉ rest := fun hmem =>
          hnodup.1 (List.mem_map.mpr ⟨_, hmem, rfl⟩)
        simp [hfresh, eq_comm]
      · simp [beq_eq_false_iff_ne.mpr hequal, hequal, ih hnodup.2]

theorem Indexed.lookup {draft : Draft} (hindexed : Indexed draft) {path : Text}
    {index : Nat} :
    draft.paths.lookup path = some index ↔
      ∃ entry, draft.entries[index]? = some entry ∧ entry.path = path := by
  have hkeys : (draft.paths.map (·.1)).Nodup := by
    rw [hindexed.paths, List.zipIdx_map_fst]
    exact hindexed.nodup
  rw [lookup_eq_some_of_nodup hkeys, hindexed.paths, List.mk_mem_zipIdx_iff_getElem?,
    List.getElem?_map, Option.map_eq_some_iff]

theorem Indexed.register {node : Node} {scope : Text} {parent : Option Nat}
    {depth : Nat} {draft draft' : Draft} (hindexed : Indexed draft)
    (hregister : registerNode node scope parent depth draft = .ok draft') :
    Indexed draft' := by
  obtain ⟨-, hfresh, kind, -, rfl⟩ := registerNode_eq_ok hregister
  constructor
  · simp [hindexed.paths, List.zipIdx_append]
  · rw [List.map_append, List.nodup_append]
    refine ⟨hindexed.nodup, by simp, ?_⟩
    intro path hmem other hother
    obtain ⟨entry, hentry, rfl⟩ := List.mem_map.mp hmem
    obtain ⟨i, hi⟩ := List.getElem?_of_mem hentry
    have hsome := hindexed.lookup.mpr ⟨entry, hi, rfl⟩
    simp only [List.map_cons, List.map_nil, List.mem_singleton] at hother
    rintro hequal
    rw [hequal, hother, hfresh] at hsome
    cases hsome

theorem Indexed.setChildren {draft : Draft} (hindexed : Indexed draft) (index : Nat)
    (indices : List Nat) : Indexed (draft.setChildren index indices) := by
  have hpaths : (draft.setChildren index indices).entries.map (·.path) =
      draft.entries.map (·.path) := by
    apply List.ext_getElem?
    intro k
    simp only [Draft.setChildren, List.getElem?_map, List.getElem?_modify]
    cases draft.entries[k]? with
    | none => rfl
    | some entry =>
        by_cases hk : index = k <;> simp [hk]
  exact ⟨hpaths ▸ hindexed.paths, hpaths ▸ hindexed.nodup⟩

theorem addPlain_indexed {node : Node} (hplain : node.isNested = false)
    {scope : Text} {parent : Option Nat} {depth index : Nat} {draft draft' : Draft}
    (hindexed : Indexed draft)
    (hadd : addNode scope parent depth draft node = .ok (index, draft')) :
    Indexed draft' :=
  hindexed.register (addNode_plain hplain hadd).2

mutual
theorem addNode_indexed {scope : Text} {parent : Option Nat} {depth index : Nat}
    {draft draft' : Draft} (hindexed : Indexed draft) : ∀ {node : Node},
    addNode scope parent depth draft node = .ok (index, draft') → Indexed draft'
  | .nested (.mk name children condition alignment group), hadd => by
      obtain ⟨-, registered, indices, filled, hregister, hchildren, rfl⟩ :=
        addNode_nested hadd
      have hfilled := addChildren_indexed (hindexed.register hregister) hchildren
      exact hfilled.setChildren _ indices
  | .leaf _ _, hadd => addPlain_indexed rfl hindexed hadd
  | .repeated _ _ _ _ _ _, hadd => addPlain_indexed rfl hindexed hadd
  | .sized _ _, hadd => addPlain_indexed rfl hindexed hadd
  | .checksummed _ _, hadd => addPlain_indexed rfl hindexed hadd
  | .mirrored _ _, hadd => addPlain_indexed rfl hindexed hadd
  | .dynamic _ _ _, hadd => addPlain_indexed rfl hindexed hadd

theorem addChildren_indexed {scope : Text} {parent : Option Nat} {depth : Nat}
    {indices : List Nat} {draft draft' : Draft} (hindexed : Indexed draft) :
    ∀ {nodes : List Node},
    addChildren scope parent depth draft nodes = .ok (indices, draft') →
      Indexed draft'
  | [], hadd => by
      cases hadd
      exact hindexed
  | node :: rest, hadd => by
      obtain ⟨index, others, added, hnode, hrest, -⟩ := addChildren_cons hadd
      exact addChildren_indexed (addNode_indexed hindexed hnode) hrest
end

theorem resolve_eq_ok_iff {request : CompiledRequest}
    (hindexed : Indexed ⟨request.entries, request.paths⟩) (path : Text)
    (index : Nat) :
    request.resolve path = .ok index ↔
      index < request.entries.length ∧ (request.entry index).path = path := by
  have hlookup : request.paths.lookup path = some index ↔
      ∃ entry, request.entries[index]? = some entry ∧ entry.path = path :=
    hindexed.lookup
  have hresolve : request.resolve path = .ok index ↔
      request.paths.lookup path = some index := by
    unfold resolve
    cases request.paths.lookup path <;> simp
  rw [hresolve, hlookup]
  constructor
  · rintro ⟨entry, hentry, rfl⟩
    obtain ⟨hequal, hlt⟩ := entry_eq_of_getElem? hentry
    exact ⟨hlt, by rw [hequal]⟩
  · rintro ⟨hlt, rfl⟩
    refine ⟨request.entries[index], List.getElem?_eq_getElem hlt, ?_⟩
    simp [entry, List.getElem?_eq_getElem hlt]

/-- The entries of a request: one tree in preorder, rooted at the first entry, with
paths that name them. -/
structure Table (request : CompiledRequest) : Prop where
  root : 0 < request.entries.length
  rootName : validName (request.entry 0).path = true
  rootParent : (request.entry 0).parent = none
  tree : ∃ children, request.kind 0 = .container children ∧
    Forest request 0 1 children request.entries.length
  resolve : ∀ path index, request.resolve path = .ok index ↔
    index < request.entries.length ∧ (request.entry index).path = path

theorem table_of_added {root : Block} {request : CompiledRequest} {index : Nat}
    (hadd : addNode [] none 0 ⟨[], []⟩ (.nested root) =
      .ok (index, ⟨request.entries, request.paths⟩)) :
    Table request := by
  obtain ⟨name, children, condition, alignment, group⟩ := root
  have hindexed : Indexed ⟨request.entries, request.paths⟩ :=
    addNode_indexed ⟨rfl, by simp⟩ hadd
  obtain ⟨rfl, registered, indices, filled, hregister, hchildren, hdraft⟩ :=
    addNode_nested hadd
  have hdraft' : (⟨request.entries, request.paths⟩ : Draft) =
      filled.setChildren 0 indices := hdraft
  have hholds : Holds request 0 (filled.setChildren 0 indices) := by
    rw [← hdraft']
    exact fun _ _ _ => rfl
  obtain ⟨hname, -⟩ := registerNode_eq_ok hregister
  obtain ⟨hlt, hpath, hparent, -, hkind, hbelow⟩ :=
    setChildren_entry hregister (addChildren_grows hchildren) hholds
  have hforest := addChildren_forest hchildren hbelow hpath (childPath_ne_nil hname)
  rw [(registerNode_grows hregister).2] at hforest
  have hlength : filled.entries.length = request.entries.length := by
    have hequal := congrArg (fun draft => draft.entries.length) hdraft'
    simpa [Draft.setChildren] using hequal.symm
  rw [hlength] at hforest
  have hrootPath : (request.entry 0).path = name := hpath
  exact {
    root := hlt
    rootName := hrootPath ▸ hname
    rootParent := hparent
    tree := ⟨indices, hkind, hforest⟩
    resolve := fun path position => resolve_eq_ok_iff hindexed path position }

theorem Assembled.table {root : Block} {maxBytes : Int32} {fuel : Nat}
    {request : CompiledRequest} (h : Assembled root maxBytes fuel request) :
    Table request := by
  obtain ⟨index, hadd⟩ := h.added
  exact table_of_added hadd

end CompiledRequest

end MoonBoofuzz
