import MoonBoofuzz.Data.Mapped
import MoonBoofuzz.Model.Bare
import MoonBoofuzz.Model.Preorder

namespace MoonBoofuzz

namespace CompiledRequest

/-! Where the nodes of a tree stand in the table. -/

/-- The node has been added under the scope, its own entry at the index. -/
def Placed (request : CompiledRequest) (scope : Text) (node : Node) (index : Nat) : Prop :=
  ∃ parent depth draft draft', addNode scope parent depth draft node = .ok (index, draft') ∧
    Holds request draft.entries.length draft'

theorem addChildren_placed {request : CompiledRequest} {scope : Text} {parent : Option Nat}
    {depth : Nat} {nodes : List Node} {indices : List Nat} {draft draft' : Draft}
    (hadd : addChildren scope parent depth draft nodes = .ok (indices, draft'))
    (hholds : Holds request draft.entries.length draft') :
    List.Forall₂ (Placed request scope) nodes indices := by
  induction nodes generalizing draft indices with
  | nil =>
      cases hadd
      exact .nil
  | cons node rest ih =>
      obtain ⟨index, others, added, hnode, hrest, rfl⟩ := addChildren_cons hadd
      have hlength := (addNode_grows hnode).2
      have hafter : Holds request added.entries.length draft' :=
        fun k hstart hk => hholds k (by omega) hk
      exact .cons ⟨parent, depth, draft, added, hnode,
        hholds.of_grows (addChildren_grows hrest)⟩ (ih hrest hafter)

section

variable {request : CompiledRequest} {scope : Text} {node : Node} {index : Nat}

theorem Placed.entry (hplaced : Placed request scope node index) :
    index < request.entries.length ∧
      (request.entry index).path = childPath scope node.name := by
  obtain ⟨parent, depth, draft, draft', hadd, hholds⟩ := hplaced
  cases node with
  | nested block =>
      obtain ⟨name, children, condition, alignment, group⟩ := block
      obtain ⟨rfl, registered, indices, filled, hregister, hchildren, rfl⟩ :=
        addNode_nested hadd
      obtain ⟨hlt, hpath, -⟩ :=
        setChildren_entry hregister (addChildren_grows hchildren) hholds
      exact ⟨hlt, hpath⟩
  | _ =>
      obtain ⟨rfl, hregister⟩ := addNode_plain rfl hadd
      obtain ⟨hlt, hpath, -⟩ := registerNode_entry hregister hholds
      exact ⟨hlt, hpath⟩

theorem Placed.valid (hplaced : Placed request scope node index) :
    validName node.name = true := by
  obtain ⟨parent, depth, draft, draft', hadd, -⟩ := hplaced
  cases node with
  | nested block =>
      obtain ⟨name, children, condition, alignment, group⟩ := block
      obtain ⟨-, registered, indices, filled, hregister, -, -⟩ := addNode_nested hadd
      exact (registerNode_eq_ok hregister).1
  | _ => exact (registerNode_eq_ok (addNode_plain rfl hadd).2).1

theorem Placed.kind (hplain : node.isNested = false)
    (hplaced : Placed request scope node index) :
    node.entryKind = .ok (request.kind index) := by
  obtain ⟨parent, depth, draft, draft', hadd, hholds⟩ := hplaced
  obtain ⟨rfl, hregister⟩ := addNode_plain hplain hadd
  obtain ⟨-, -, -, kind, hkind, hentry⟩ := registerNode_entry hregister hholds
  rw [hkind, hentry]

theorem Placed.leaf {name : Text} {field : Field}
    (hplaced : Placed request scope (.leaf name field) index) :
    request.kind index = .atom field :=
  (Except.ok.inj (hplaced.kind rfl)).symm

theorem Placed.sized {name : Text} {spec : SizeSpec}
    (hplaced : Placed request scope (.sized name spec) index) :
    request.kind index = .computedSize spec :=
  (Except.ok.inj (hplaced.kind rfl)).symm

theorem Placed.block {name : Text} {children : List Node} {condition : Option Condition}
    {alignment : Option Alignment} {group : Option Text}
    (hplaced : Placed request scope
      (.nested (.mk name children condition alignment group)) index) :
    ∃ indices, request.kind index = .container indices ∧
      List.Forall₂ (Placed request (childPath scope name)) children indices := by
  obtain ⟨parent, depth, draft, draft', hadd, hholds⟩ := hplaced
  obtain ⟨rfl, registered, indices, filled, hregister, hchildren, rfl⟩ := addNode_nested hadd
  obtain ⟨-, -, -, -, hkind, hbelow⟩ :=
    setChildren_entry hregister (addChildren_grows hchildren) hholds
  exact ⟨indices, hkind, addChildren_placed hchildren hbelow⟩

theorem Placed.resolve (htable : Table request) (hplaced : Placed request scope node index) :
    request.resolve (childPath scope node.name) = .ok index := by
  obtain ⟨hlt, hpath⟩ := hplaced.entry
  rw [← hpath]
  exact htable.resolve_self hlt

end

theorem Assembled.placed {root : Block} {maxBytes : Int32} {fuel : Nat}
    {request : CompiledRequest} (hassembled : Assembled root maxBytes fuel request) :
    Placed request [] (.nested root) 0 := by
  obtain ⟨index, hadd⟩ := hassembled.added
  have hindex : index = 0 := by
    obtain ⟨name, children, condition, alignment, group⟩ := root
    exact (addNode_nested hadd).1
  rw [hindex] at hadd
  exact ⟨none, 0, ⟨[], []⟩, ⟨request.entries, request.paths⟩, hadd, fun _ _ _ => rfl⟩

end CompiledRequest

end MoonBoofuzz
