import MoonBoofuzz.Model.Flat
import MoonBoofuzz.Model.Layout

namespace MoonBoofuzz

/-! Bare trees: fields, and blocks without condition, alignment and group. -/

mutual
def Node.bare : Node → Bool
  | .leaf _ _ => true
  | .nested (.mk _ children condition alignment group) =>
      condition.isNone && alignment.isNone && group.isNone && Node.bareAll children
  | _ => false

def Node.bareAll : List Node → Bool
  | [] => true
  | node :: rest => node.bare && Node.bareAll rest
end

mutual
def Node.leaves (scope : Text) : Node → List (Text × Field)
  | .leaf name field => [(childPath scope name, field)]
  | .nested (.mk name children _ _ _) => Node.leavesAll (childPath scope name) children
  | _ => []

def Node.leavesAll (scope : Text) : List Node → List (Text × Field)
  | [] => []
  | node :: rest => node.leaves scope ++ Node.leavesAll scope rest
end

mutual
def Node.free : Node → Bool
  | .nested (.mk _ children condition alignment group) =>
      condition.isNone && alignment.isNone && group.isNone && Node.freeAll children
  | _ => true

def Node.freeAll : List Node → Bool
  | [] => true
  | node :: rest => node.free && Node.freeAll rest
end

mutual
theorem Node.free_of_bare : ∀ {node : Node}, node.bare = true → node.free = true
  | .leaf _ _, _ => rfl
  | .nested (.mk _ _ _ _ _), hbare => by
      simp only [Node.bare, Bool.and_eq_true] at hbare
      simp only [Node.free, Bool.and_eq_true]
      exact ⟨hbare.1, Node.freeAll_of_bareAll hbare.2⟩

theorem Node.freeAll_of_bareAll :
    ∀ {nodes : List Node}, Node.bareAll nodes = true → Node.freeAll nodes = true
  | [], _ => rfl
  | _ :: _, hbare => by
      simp only [Node.bareAll, Bool.and_eq_true] at hbare
      simp only [Node.freeAll, Bool.and_eq_true]
      exact ⟨Node.free_of_bare hbare.1, Node.freeAll_of_bareAll hbare.2⟩
end

structure Entry.Open (entry : Entry) : Prop where
  condition : entry.condition = none
  alignment : entry.alignment = none
  group : entry.group = none

def Draft.Open (draft : Draft) : Prop := ∀ entry ∈ draft.entries, entry.Open

theorem Node.free_settings {node : Node} (hfree : node.free = true) :
    node.condition = none ∧ node.alignment = none ∧ node.group = none := by
  cases node with
  | nested block =>
      obtain ⟨name, children, condition, alignment, group⟩ := block
      simp only [Node.free, Bool.and_eq_true, Option.isNone_iff_eq_none] at hfree
      obtain ⟨⟨⟨rfl, rfl⟩, rfl⟩, -⟩ := hfree
      exact ⟨rfl, rfl, rfl⟩
  | _ => exact ⟨rfl, rfl, rfl⟩

theorem Draft.Open.register {node : Node} (hfree : node.free = true) {scope : Text}
    {parent : Option Nat} {depth : Nat} {draft draft' : Draft} (hopen : draft.Open)
    (hregister : registerNode node scope parent depth draft = .ok draft') :
    draft'.Open := by
  obtain ⟨-, -, kind, -, rfl⟩ := registerNode_eq_ok hregister
  intro entry hmem
  rcases List.mem_append.mp hmem with hold | hnew
  · exact hopen entry hold
  · obtain rfl := List.mem_singleton.mp hnew
    obtain ⟨hcondition, halignment, hgroup⟩ := Node.free_settings hfree
    exact ⟨hcondition, halignment, hgroup⟩

theorem Draft.Open.setChildren {draft : Draft} (hopen : draft.Open) (index : Nat)
    (children : List Nat) : (draft.setChildren index children).Open := by
  intro entry hmem
  rw [Draft.setChildren, List.mem_iff_getElem?] at hmem
  obtain ⟨k, hk⟩ := hmem
  rw [List.getElem?_modify] at hk
  obtain ⟨old, hold, rfl⟩ := Option.map_eq_some_iff.mp hk
  obtain ⟨hcondition, halignment, hgroup⟩ := hopen old (List.mem_of_getElem? hold)
  split
  · exact ⟨hcondition, halignment, hgroup⟩
  · exact ⟨hcondition, halignment, hgroup⟩

theorem addPlain_open {node : Node} (hplain : node.isNested = false) {scope : Text}
    {parent : Option Nat} {depth index : Nat} {draft draft' : Draft} (hopen : draft.Open)
    (hfree : node.free = true)
    (hadd : addNode scope parent depth draft node = .ok (index, draft')) : draft'.Open :=
  hopen.register hfree (addNode_plain hplain hadd).2

mutual
theorem addNode_open {scope : Text} {parent : Option Nat} {depth index : Nat}
    {draft draft' : Draft} (hopen : draft.Open) : ∀ {node : Node}, node.free = true →
    addNode scope parent depth draft node = .ok (index, draft') → draft'.Open
  | .nested (.mk name children condition alignment group), hfree, hadd => by
      obtain ⟨-, registered, indices, filled, hregister, hchildren, rfl⟩ :=
        addNode_nested hadd
      have hregistered := hopen.register hfree hregister
      simp only [Node.free, Bool.and_eq_true] at hfree
      exact (addChildren_open hregistered hfree.2 hchildren).setChildren _ indices
  | .leaf _ _, hfree, hadd => addPlain_open rfl hopen hfree hadd
  | .repeated _ _ _ _ _ _, hfree, hadd => addPlain_open rfl hopen hfree hadd
  | .sized _ _, hfree, hadd => addPlain_open rfl hopen hfree hadd
  | .checksummed _ _, hfree, hadd => addPlain_open rfl hopen hfree hadd
  | .mirrored _ _, hfree, hadd => addPlain_open rfl hopen hfree hadd
  | .dynamic _ _ _, hfree, hadd => addPlain_open rfl hopen hfree hadd

theorem addChildren_open {scope : Text} {parent : Option Nat} {depth : Nat}
    {indices : List Nat} {draft draft' : Draft} (hopen : draft.Open) :
    ∀ {nodes : List Node}, Node.freeAll nodes = true →
    addChildren scope parent depth draft nodes = .ok (indices, draft') → draft'.Open
  | [], _, hadd => by
      cases hadd
      exact hopen
  | node :: rest, hfree, hadd => by
      obtain ⟨index, others, added, hnode, hrest, -⟩ := addChildren_cons hadd
      simp only [Node.freeAll, Bool.and_eq_true] at hfree
      exact addChildren_open (addNode_open hopen hfree.1 hnode) hfree.2 hrest
end

namespace CompiledRequest

/-- The nodes are listed from `start` up to `stop`, their own entries at the indices. -/
inductive Stored (request : CompiledRequest) :
    Text → List Node → Nat → List Nat → Nat → Prop
  | nil (scope : Text) (start : Nat) : Stored request scope [] start [] start
  | leaf {scope name : Text} {field : Field} {nodes : List Node} {start stop : Nat}
      {rest : List Nat} (hindex : start < request.entries.length)
      (hpath : (request.entry start).path = childPath scope name)
      (hkind : request.kind start = .atom field)
      (hrest : Stored request scope nodes (start + 1) rest stop) :
      Stored request scope (.leaf name field :: nodes) start (start :: rest) stop
  | block {scope name : Text} {children nodes : List Node} {start middle stop : Nat}
      {indices rest : List Nat} (hkind : request.kind start = .container indices)
      (hinner : Stored request (childPath scope name) children (start + 1) indices middle)
      (hrest : Stored request scope nodes middle rest stop) :
      Stored request scope (.nested (.mk name children none none none) :: nodes) start
        (start :: rest) stop

mutual
theorem addNode_stored {request : CompiledRequest} {scope : Text} {parent : Option Nat}
    {depth index : Nat} {draft draft' : Draft} : ∀ {node : Node}, node.bare = true →
    addNode scope parent depth draft node = .ok (index, draft') →
    Holds request draft.entries.length draft' →
    ∀ {nodes : List Node} {rest : List Nat} {stop : Nat},
      Stored request scope nodes draft'.entries.length rest stop →
        Stored request scope (node :: nodes) draft.entries.length (index :: rest) stop
  | .nested (.mk name children condition alignment group), hbare, hadd, hholds, nodes, rest,
      stop, hrest => by
      obtain ⟨rfl, registered, indices, filled, hregister, hchildren, rfl⟩ :=
        addNode_nested hadd
      obtain ⟨-, -, -, -, hkind, hbelow⟩ :=
        setChildren_entry hregister (addChildren_grows hchildren) hholds
      simp only [Node.bare, Bool.and_eq_true, Option.isNone_iff_eq_none] at hbare
      obtain ⟨⟨⟨rfl, rfl⟩, rfl⟩, hbareChildren⟩ := hbare
      have hinner := addChildren_stored hbareChildren hchildren hbelow
      rw [(registerNode_grows hregister).2] at hinner
      simp only [Draft.setChildren, List.length_modify] at hrest
      exact .block hkind hinner hrest
  | .leaf name field, _, hadd, hholds, nodes, rest, stop, hrest => by
      obtain ⟨rfl, hregister⟩ := addNode_plain rfl hadd
      obtain ⟨hlt, hpath, -, kind, hkind, hentry⟩ := registerNode_entry hregister hholds
      rw [(registerNode_grows hregister).2] at hrest
      cases hkind
      exact .leaf hlt hpath hentry hrest

theorem addChildren_stored {request : CompiledRequest} {scope : Text}
    {parent : Option Nat} {depth : Nat} {indices : List Nat} {draft draft' : Draft} :
    ∀ {nodes : List Node}, Node.bareAll nodes = true →
    addChildren scope parent depth draft nodes = .ok (indices, draft') →
    Holds request draft.entries.length draft' →
      Stored request scope nodes draft.entries.length indices draft'.entries.length
  | [], _, hadd, _ => by
      cases hadd
      exact .nil scope _
  | node :: rest, hbare, hadd, hholds => by
      obtain ⟨index, others, added, hnode, hrest, rfl⟩ := addChildren_cons hadd
      simp only [Node.bareAll, Bool.and_eq_true] at hbare
      have hlength := (addNode_grows hnode).2
      have hafter : Holds request added.entries.length draft' :=
        fun k hstart hk => hholds k (by omega) hk
      exact addNode_stored hbare.1 hnode (hholds.of_grows (addChildren_grows hrest))
        (addChildren_stored hbare.2 hrest hafter)
end

theorem Stored.listed {request : CompiledRequest} {scope : Text} {nodes : List Node}
    {start stop : Nat} {indices : List Nat}
    (hstored : Stored request scope nodes start indices stop) {index : Nat}
    (hstart : start ≤ index) (hstop : index < stop) :
    (∃ children, request.kind index = .container children) ∨
      ∃ field, request.kind index = .atom field ∧
        ((request.entry index).path, field) ∈ Node.leavesAll scope nodes := by
  induction hstored with
  | nil scope start => omega
  | @leaf _ _ field _ start _ _ _ hpath hkind _ ih =>
      simp only [Node.leavesAll, List.mem_append]
      rcases Nat.eq_or_lt_of_le hstart with rfl | hlater
      · refine Or.inr ⟨field, hkind, Or.inl ?_⟩
        rw [Node.leaves, hpath]
        exact List.mem_singleton.mpr rfl
      · exact (ih hlater hstop).imp_right fun ⟨other, hother, hmem⟩ =>
          ⟨other, hother, Or.inr hmem⟩
  | @block _ _ _ _ start middle _ indices _ hkind _ _ ihInner ihRest =>
      simp only [Node.leavesAll, List.mem_append]
      rcases Nat.eq_or_lt_of_le hstart with rfl | hlater
      · exact Or.inl ⟨indices, hkind⟩
      · rcases Nat.lt_or_ge index middle with hinner | houter
        · exact (ihInner hlater hinner).imp_right fun ⟨field, hfield, hmem⟩ =>
            ⟨field, hfield, Or.inl hmem⟩
        · exact (ihRest houter hstop).imp_right fun ⟨field, hfield, hmem⟩ =>
            ⟨field, hfield, Or.inr hmem⟩

theorem Assembled.open {root : Block} {maxBytes : Int32} {fuel : Nat}
    {request : CompiledRequest} (hassembled : Assembled root maxBytes fuel request)
    (hfree : (Node.nested root).free = true) : ∀ entry ∈ request.entries, entry.Open := by
  obtain ⟨index, hadd⟩ := hassembled.added
  exact @addNode_open [] none 0 index ⟨[], []⟩ ⟨request.entries, request.paths⟩
    (fun _ hmem => by cases hmem) _ hfree hadd

theorem entry_open {request : CompiledRequest}
    (hopen : ∀ entry ∈ request.entries, entry.Open) (index : Nat) :
    (request.entry index).Open := by
  by_cases hentry : request.entry index = noEntry
  · rw [hentry]
    exact ⟨rfl, rfl, rfl⟩
  · exact hopen _ (entry_mem_of_ne hentry)

structure BareTable (request : CompiledRequest) (name : Text) (children : List Node) :
    Prop where
  table : Table request
  open' : ∀ entry ∈ request.entries, entry.Open
  stored : ∃ indices, request.kind 0 = .container indices ∧
    Stored request name children 1 indices request.entries.length

theorem Assembled.bareTable {root : Block} {maxBytes : Int32} {fuel : Nat}
    {request : CompiledRequest} (hassembled : Assembled root maxBytes fuel request)
    (hbare : (Node.nested root).bare = true) :
    BareTable request root.name root.children where
  table := hassembled.table
  open' := hassembled.open (Node.free_of_bare hbare)
  stored := by
    obtain ⟨index, hadd⟩ := hassembled.added
    have hholds : Holds request 0 ⟨request.entries, request.paths⟩ := fun _ _ _ => rfl
    have hwhole := addNode_stored hbare hadd hholds
      (.nil [] (Draft.mk request.entries request.paths).entries.length)
    cases hwhole with
    | block hkind hinner hrest =>
        cases hrest
        exact ⟨_, hkind, hinner⟩

/-- The bytes if they fit the limit, a limit error otherwise. -/
inductive Outcome (limit : Nat) (bytes : Bytes) : Run Bytes → Prop
  | fits (hfits : bytes.length ≤ limit) : Outcome limit bytes (.done bytes)
  | exceeds (message : Text) (hlong : limit < bytes.length) :
      Outcome limit bytes (.raised (.limit message))

theorem Outcome.of_check {limit : Nat} {bytes : Bytes} (message : Text) :
    Outcome limit bytes (do
      Eval.check (bytes.length ≤ limit) (.limit message)
      .done bytes) := by
  unfold Eval.check
  split <;> rename_i hfits
  · exact .fits hfits
  · exact .exceeds message (Nat.not_le.mp hfits)

theorem Outcome.cons {limit : Nat} {message : Text} {recur : Nat → Run Bytes} {child : Nat}
    {others : List Nat} {piece rest output : Bytes} (hchild : Outcome limit piece (recur child))
    (hrest : ∀ output : Bytes, output.length ≤ limit → Outcome limit (output ++ rest)
      (renderChildren limit (.limit message) recur others output)) :
    Outcome limit (output ++ (piece ++ rest))
      (renderChildren limit (.limit message) recur (child :: others) output) := by
  rw [renderChildren]
  generalize recur child = answer at hchild
  cases hchild with
  | exceeds message' hlong =>
      apply Outcome.exceeds
      simp only [List.length_append]
      omega
  | fits hfits =>
      rw [Eval.done_bind, Eval.check]
      split <;> rename_i hroom
      · rw [Eval.done_bind, ← List.append_assoc]
        apply hrest
        rw [List.length_append]
        omega
      · apply Outcome.exceeds
        simp only [List.length_append]
        omega

section

variable {request : CompiledRequest} {replacements : Replacements} {vars : Option Vars}
  {value : Text × Field → Bytes}

/-- The replacements put `value` in the place of the leaves, and replace nothing else. -/
structure Places (request : CompiledRequest) (replacements : Replacements)
    (value : Text × Field → Bytes) : Prop where
  leaf : ∀ index field, index < request.entries.length → request.kind index = .atom field →
    (replacements.lookup index).getD field.value = value ((request.entry index).path, field)
  block : ∀ index children, request.kind index = .container children →
    replacements.lookup index = none

theorem Places.atom (hplaces : Places request replacements value) {index : Nat} {field : Field}
    (hindex : index < request.entries.length) (hkind : request.kind index = .atom field)
    (hvisible : request.isVisible replacements vars index = .ok true) (fuel : Nat)
    (active : List Nat) :
    Outcome request.maxBytes.val (value ((request.entry index).path, field))
      (renderNode request replacements vars (fuel + 1) (index, active)) := by
  have hvalue := hplaces.leaf index field hindex hkind
  cases hlookup : replacements.lookup index with
  | some bytes =>
      rw [hlookup, Option.getD_some] at hvalue
      rw [← hvalue, renderNode_replaced active fuel hvisible (by rw [hkind]; rfl) hlookup]
      exact .of_check _
  | none =>
      rw [hlookup, Option.getD_none] at hvalue
      rw [← hvalue, renderNode_kind active fuel hvisible (Or.inr hlookup), hkind]
      exact .of_check _

theorem Places.container (hplaces : Places request replacements value)
    (hopen : ∀ index, (request.entry index).alignment = none) {index : Nat}
    {children : List Nat} (hkind : request.kind index = .container children)
    (hvisible : request.isVisible replacements vars index = .ok true) {fuel : Nat}
    {active : List Nat} {bytes : Bytes}
    (hchildren : Outcome request.maxBytes.val bytes
      (renderChildren request.maxBytes.val (byteLimit request index)
        (fun child => renderNode request replacements vars fuel (child, active)) children [])) :
    Outcome request.maxBytes.val bytes
      (renderNode request replacements vars (fuel + 1) (index, active)) := by
  rw [renderNode_kind active fuel hvisible (Or.inr (hplaces.block index children hkind)), hkind,
    renderKind, hopen index]
  generalize renderChildren _ _ _ children [] = answer at hchildren
  cases hchildren with
  | fits hfits => exact .fits hfits
  | exceeds message hlong => exact .exceeds message hlong

/-- Bare nodes render as the values of their leaves, one after another. -/
theorem Stored.renders (hplaces : Places request replacements value)
    (hopen : ∀ index, (request.entry index).alignment = none)
    (hvisible : ∀ index, request.isVisible replacements vars index = .ok true)
    {scope : Text} {nodes : List Node} {start stop : Nat} {indices : List Nat}
    (hstored : Stored request scope nodes start indices stop) :
    ∃ enough, ∀ fuel, enough ≤ fuel → ∀ (active : List Nat) (message : Text) (output : Bytes),
      output.length ≤ request.maxBytes.val →
      Outcome request.maxBytes.val (output ++ (Node.leavesAll scope nodes).flatMap value)
        (renderChildren request.maxBytes.val (.limit message)
          (fun child => renderNode request replacements vars fuel (child, active)) indices
          output) := by
  induction hstored with
  | nil scope start =>
      refine ⟨0, fun fuel _ active message output houtput => ?_⟩
      simp only [renderChildren, Node.leavesAll, List.flatMap_nil, List.append_nil]
      exact .fits houtput
  | @leaf _ _ _ _ start _ _ hindex hpath hkind _ ih =>
      obtain ⟨enough, hrest⟩ := ih
      refine ⟨enough + 1, fun fuel hfuel active message output houtput => ?_⟩
      obtain ⟨fuel, rfl⟩ := Nat.exists_eq_add_of_le' (Nat.le_of_add_left_le hfuel)
      have hatom := hplaces.atom hindex hkind (hvisible start) fuel active
      rw [hpath] at hatom
      rw [Node.leavesAll, List.flatMap_append, Node.leaves, List.flatMap_singleton]
      exact hatom.cons (hrest _ (by omega) active message)
  | @block _ _ _ _ start _ _ _ _ hkind _ _ ihInner ihRest =>
      obtain ⟨first, hinner⟩ := ihInner
      obtain ⟨second, hrest⟩ := ihRest
      refine ⟨first + second + 1, fun fuel hfuel active message output houtput => ?_⟩
      obtain ⟨fuel, rfl⟩ := Nat.exists_eq_add_of_le' (Nat.le_of_add_left_le hfuel)
      have hblock := hplaces.container hopen hkind (hvisible start)
        (hinner fuel (by omega) active _ [] (Nat.zero_le _))
      rw [List.nil_append] at hblock
      rw [Node.leavesAll, List.flatMap_append, Node.leaves]
      exact hblock.cons (hrest _ (by omega) active message)

theorem BareTable.renders {name : Text} {children : List Node}
    (hbare : BareTable request name children) (hplaces : Places request replacements value) :
    ∃ enough, ∀ fuel, enough ≤ fuel → ∀ active,
      Outcome request.maxBytes.val ((Node.leavesAll name children).flatMap value)
        (renderNode request replacements vars fuel (0, active)) := by
  have hopen := entry_open hbare.open'
  have hvisible : ∀ index, request.isVisible replacements vars index = .ok true :=
    isVisible_unconditional (fun entry hmem => (hbare.open' entry hmem).condition)
      replacements vars
  obtain ⟨indices, hroot, hstored⟩ := hbare.stored
  obtain ⟨enough, hchildren⟩ :=
    hstored.renders hplaces (fun index => (hopen index).alignment) hvisible
  refine ⟨enough + 1, fun fuel hfuel active => ?_⟩
  obtain ⟨fuel, rfl⟩ := Nat.exists_eq_add_of_le' (Nat.le_of_add_left_le hfuel)
  exact hplaces.container (fun index => (hopen index).alignment) hroot (hvisible 0)
    (hchildren fuel (by omega) active _ [] (Nat.zero_le _))

end

end CompiledRequest

end MoonBoofuzz
