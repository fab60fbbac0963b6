import MoonBoofuzz.Model.Listing

namespace MoonBoofuzz

/-! Trees that are added without an error. -/

namespace Node

mutual
def height : Node → Nat
  | .nested (.mk _ children _ _ _) => heights children + 1
  | .leaf _ _ => 0
  | .repeated _ _ _ _ _ _ => 0
  | .sized _ _ => 0
  | .checksummed _ _ => 0
  | .mirrored _ _ => 0
  | .dynamic _ _ _ => 0

def heights : List Node → Nat
  | [] => 0
  | node :: rest => max (height node) (heights rest)
end

/-- The name and the kind of the node pass the checks. -/
def Sound (node : Node) : Prop :=
  validName node.name = true ∧ ∃ kind, node.entryKind = .ok kind

end Node

def Draft.keys (draft : Draft) : List Text := draft.paths.map Prod.fst

namespace CompiledRequest

theorem lookup_none_of_notMem {pairs : List (Text × Nat)} {path : Text}
    (hpath : path ∉ pairs.map Prod.fst) : pairs.lookup path = none := by
  rw [List.lookup_eq_none_iff]
  intro pair hpair
  rw [bne_iff_ne]
  rintro rfl
  exact hpath (List.mem_map_of_mem hpair)

theorem registerNode_accepts {node : Node} {scope : Text} {parent : Option Nat} {depth : Nat}
    {draft : Draft} (hdepth : depth ≤ 256) (hsound : node.Sound)
    (hpath : childPath scope node.name ∉ draft.keys) :
    ∃ draft', registerNode node scope parent depth draft = .ok draft' ∧
      draft'.keys = draft.keys ++ [childPath scope node.name] := by
  obtain ⟨hname, kind, hkind⟩ := hsound
  have hlookup := lookup_none_of_notMem hpath
  rw [registerNode, if_neg (not_not.mpr hdepth), if_neg (not_not.mpr hname)]
  simp only [hlookup, Option.isSome_none, Bool.false_eq_true, if_false, hkind]
  refine ⟨_, rfl, ?_⟩
  simp only [Draft.keys, List.map_append, List.map_cons, List.map_nil]

def pathsOf (items : List (Text × Node)) : List Text := items.map Prod.fst

theorem addPlain_accepts {node : Node} (hplain : node.isNested = false) {scope : Text}
    {parent : Option Nat} {depth : Nat} {draft : Draft} (hdepth : depth ≤ 256)
    (hsound : ∀ item ∈ Node.preorder scope node, item.2.Sound)
    (hpaths : (draft.keys ++ pathsOf (Node.preorder scope node)).Nodup) :
    ∃ index draft', addNode scope parent depth draft node = .ok (index, draft') ∧
      draft'.keys = draft.keys ++ pathsOf (Node.preorder scope node) := by
  rw [Node.preorder_plain hplain] at hsound hpaths ⊢
  have hfresh : childPath scope node.name ∉ draft.keys := fun hmem =>
    (List.nodup_append.mp hpaths).2.2 _ hmem _ (List.mem_singleton.mpr rfl) rfl
  obtain ⟨draft', hregister, hkeys⟩ :=
    registerNode_accepts hdepth (hsound _ (List.mem_singleton.mpr rfl)) hfresh
  refine ⟨draft.entries.length, draft', ?_, hkeys⟩
  cases node with
  | nested block => cases hplain
  | _ =>
      rw [addNode, hregister]
      rfl

mutual
theorem addNode_accepts {scope : Text} {parent : Option Nat} {depth : Nat} {draft : Draft} :
    ∀ {node : Node}, depth + node.height ≤ 256 →
      (∀ item ∈ Node.preorder scope node, item.2.Sound) →
      (draft.keys ++ pathsOf (Node.preorder scope node)).Nodup →
      ∃ index draft', addNode scope parent depth draft node = .ok (index, draft') ∧
        draft'.keys = draft.keys ++ pathsOf (Node.preorder scope node)
  | .nested (.mk name children condition alignment group), hdepth, hsound, hpaths => by
      rw [Node.height] at hdepth
      rw [Node.preorder] at hsound hpaths ⊢
      obtain ⟨hown, hbelow⟩ := List.forall_mem_cons.mp hsound
      have hfresh : childPath scope name ∉ draft.keys := fun hmem =>
        (List.nodup_append.mp hpaths).2.2 _ hmem _ List.mem_cons_self rfl
      obtain ⟨registered, hregister, hkeys⟩ :=
        @registerNode_accepts (.nested (.mk name children condition alignment group)) scope
          parent depth draft (by omega) hown hfresh
      have hrest : (registered.keys ++
          pathsOf (Node.preorders (childPath scope name) children)).Nodup := by
        rw [hkeys, List.append_assoc]
        exact hpaths
      obtain ⟨indices, filled, hchildren, hfilled⟩ := addChildren_accepts
        (show depth + 1 + Node.heights children ≤ 256 by omega) hbelow hrest
      refine ⟨draft.entries.length, filled.setChildren draft.entries.length indices, ?_, ?_⟩
      · rw [addNode, hregister]
        change (addChildren (childPath scope name) (some draft.entries.length) (depth + 1)
          registered children >>= fun result =>
            .ok (draft.entries.length, result.2.setChildren draft.entries.length result.1)) = _
        rw [hchildren]
        rfl
      · change filled.keys = _
        rw [hfilled, hkeys, List.append_assoc]
        rfl
  | .leaf _ _, hdepth, hsound, hpaths => addPlain_accepts rfl hdepth hsound hpaths
  | .repeated _ _ _ _ _ _, hdepth, hsound, hpaths => addPlain_accepts rfl hdepth hsound hpaths
  | .sized _ _, hdepth, hsound, hpaths => addPlain_accepts rfl hdepth hsound hpaths
  | .checksummed _ _, hdepth, hsound, hpaths => addPlain_accepts rfl hdepth hsound hpaths
  | .mirrored _ _, hdepth, hsound, hpaths => addPlain_accepts rfl hdepth hsound hpaths
  | .dynamic _ _ _, hdepth, hsound, hpaths => addPlain_accepts rfl hdepth hsound hpaths

theorem addChildren_accepts {scope : Text} {parent : Option Nat} {depth : Nat}
    {draft : Draft} : ∀ {nodes : List Node}, depth + Node.heights nodes ≤ 256 →
      (∀ item ∈ Node.preorders scope nodes, item.2.Sound) →
      (draft.keys ++ pathsOf (Node.preorders scope nodes)).Nodup →
      ∃ indices draft', addChildren scope parent depth draft nodes = .ok (indices, draft') ∧
        draft'.keys = draft.keys ++ pathsOf (Node.preorders scope nodes)
  | [], _, _, _ => ⟨[], draft, rfl, (List.append_nil _).symm⟩
  | node :: rest, hdepth, hsound, hpaths => by
      rw [Node.heights] at hdepth
      rw [Node.preorders] at hsound hpaths ⊢
      rw [pathsOf, List.map_append, ← List.append_assoc] at hpaths
      obtain ⟨hown, hothers⟩ := List.forall_mem_append.mp hsound
      obtain ⟨index, added, hnode, hkeys⟩ := @addNode_accepts scope parent depth draft node
        (by omega) hown (List.nodup_append.mp hpaths).1
      obtain ⟨indices, draft', hrest, hdraft'⟩ := addChildren_accepts
        (show depth + Node.heights rest ≤ 256 by omega) hothers (by rw [hkeys]; exact hpaths)
      refine ⟨index :: indices, draft', ?_, ?_⟩
      · rw [addChildren, hnode]
        change (addChildren scope parent depth added rest >>= fun result =>
          .ok (index :: result.1, result.2)) = _
        rw [hrest]
        rfl
      · rw [hdraft', hkeys, List.append_assoc]
        exact congrArg (draft.keys ++ ·) List.map_append.symm
end

end CompiledRequest

end MoonBoofuzz
