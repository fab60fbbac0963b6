import MoonBoofuzz.Data.Decimal
import MoonBoofuzz.Http.Bounds
import MoonBoofuzz.Http.Rendered
import MoonBoofuzz.Termination.Accepts

namespace MoonBoofuzz

open CompiledRequest

namespace HttpMessage

/-! A message that is converted with selections is converted without them. -/

/-- The names of the slots and of their request can be registered. -/
structure Named (slots : List HttpSlot) (requestName : Text) : Prop where
  request : validName requestName = true
  valid : ∀ slot ∈ slots, validName slot.name = true
  nodup : (slots.map HttpSlot.name).Nodup

theorem Laid.names {context : FieldContext} {message : HttpMessage} {choice : Choice}
    {request : CompiledRequest} (hlaid : Laid context message choice request) :
    Named message.slots choice.requestName := by
  obtain ⟨indices, -, hforest, hhosted⟩ := hlaid.hosted
  constructor
  · exact hlaid.named
  · intro slot hslot
    obtain ⟨index, -, node, hrealizes, hplaced⟩ := forall₂_of_mem_left hhosted hslot
    rw [← hrealizes.name]
    exact hplaced.valid
  · refine nodup_map_of_forall₂ hhosted ?_ (hforest.sorted.imp Nat.ne_of_lt)
    intro slot slot' index index' hhosts hhosts' hname
    have hresolve := hhosts.resolve hlaid.toDrafted
    rw [hname, hhosts'.resolve hlaid.toDrafted] at hresolve
    exact (Except.ok.inj hresolve).symm

section

variable {context : FieldContext} {choice : Choice} {slots : List HttpSlot} {nodes : List Node}

def PathOf (requestName : Text) (slot : HttpSlot) (path : Text) : Prop :=
  path = childPath requestName slot.name ∨
    slot.name = Text.ofAscii "body" ∧
      path = childPath (childPath requestName (Text.ofAscii "body")) (Text.ofAscii "body")

theorem validName_body : validName (Text.ofAscii "body") = true := by decide

theorem Realizes.listed {slot : HttpSlot} {node : Node}
    (hrealizes : Realizes context choice slot node) (hvalid : validName slot.name = true)
    {requestName : Text} {item : Text × Node} (hitem : item ∈ Node.preorder requestName node) :
    PathOf requestName slot item.1 ∧ item.2.Sound ∧ item.2.still = true := by
  cases hrealizes with
  | structural _ =>
      obtain rfl := List.mem_singleton.mp hitem
      exact ⟨Or.inl rfl, ⟨hvalid, _, rfl⟩, rfl⟩
  | plain _ _ _ =>
      obtain rfl := List.mem_singleton.mp hitem
      exact ⟨Or.inl rfl, ⟨hvalid, _, rfl⟩, rfl⟩
  | length _ =>
      obtain rfl := List.mem_singleton.mp hitem
      exact ⟨Or.inl rfl, ⟨hvalid, _, rfl⟩, rfl⟩
  | framed _ _ =>
      rcases List.mem_cons.mp hitem with rfl | hinner
      · exact ⟨Or.inl rfl, ⟨hvalid, _, rfl⟩, rfl⟩
      · obtain rfl := List.mem_singleton.mp hinner
        exact ⟨Or.inr ⟨rfl, rfl⟩, ⟨validName_body, _, rfl⟩, rfl⟩

theorem childPath_inj {scope name name' : Text} (hscope : scope ≠ [])
    (hequal : childPath scope name = childPath scope name') : name = name' := by
  rw [childPath_of_ne hscope, childPath_of_ne hscope] at hequal
  exact (List.cons.inj (List.append_cancel_left hequal)).2

theorem dot_notMem {name : Text} (hvalid : validName name = true) : Text.dot ∉ name := by
  rw [validName, decide_eq_true_eq] at hvalid
  exact hvalid.2.1

theorem validName_ne_nil {name : Text} (hvalid : validName name = true) : name ≠ [] := by
  rw [validName, decide_eq_true_eq] at hvalid
  exact hvalid.1

theorem childPath_ne_inner {requestName name : Text} (hrequest : requestName ≠ [])
    (hvalid : validName name = true) :
    childPath requestName name ≠
      childPath (childPath requestName (Text.ofAscii "body")) (Text.ofAscii "body") := by
  intro hequal
  have hblock : childPath requestName (Text.ofAscii "body") ≠ [] :=
    childPath_ne_nil validName_body
  rw [childPath_of_ne hblock, childPath_of_ne hrequest, childPath_of_ne hrequest,
    List.append_assoc, List.append_cancel_left_eq, List.cons_append, List.cons.injEq] at hequal
  refine dot_notMem hvalid ?_
  rw [hequal.2]
  exact List.mem_append_right _ List.mem_cons_self

/-- Slots of different names have no path in common. -/
theorem PathOf.slot {requestName path : Text} {slot slot' : HttpSlot}
    (hrequest : requestName ≠ []) (hvalid : validName slot.name = true)
    (hvalid' : validName slot'.name = true) (hpath : PathOf requestName slot path)
    (hpath' : PathOf requestName slot' path) : slot.name = slot'.name := by
  rcases hpath with rfl | ⟨hbody, rfl⟩
  · rcases hpath' with hequal | ⟨-, hequal⟩
    · exact childPath_inj hrequest hequal
    · exact absurd hequal (childPath_ne_inner hrequest hvalid)
  · rcases hpath' with hequal | ⟨hbody', -⟩
    · exact absurd hequal.symm (childPath_ne_inner hrequest hvalid')
    · rw [hbody, hbody']

theorem preorders_listed {requestName : Text}
    (hrealized : List.Forall₂ (Realizes context choice) slots nodes)
    (hvalid : ∀ slot ∈ slots, validName slot.name = true) {item : Text × Node}
    (hitem : item ∈ Node.preorders requestName nodes) :
    ∃ slot ∈ slots, PathOf requestName slot item.1 ∧ item.2.Sound ∧ item.2.still = true := by
  induction hrealized with
  | nil => cases hitem
  | @cons slot node _ _ hhead _ ih =>
      obtain ⟨hslot, hothers⟩ := List.forall_mem_cons.mp hvalid
      rw [Node.preorders] at hitem
      rcases List.mem_append.mp hitem with hhere | hlater
      · exact ⟨slot, List.mem_cons_self, hhead.listed hslot hhere⟩
      · obtain ⟨other, hmem, hother⟩ := ih hothers hlater
        exact ⟨other, List.mem_cons_of_mem _ hmem, hother⟩

theorem Realizes.paths {slot : HttpSlot} {node : Node}
    (hrealizes : Realizes context choice slot node) {requestName : Text}
    (hrequest : requestName ≠ []) : (pathsOf (Node.preorder requestName node)).Nodup := by
  cases hrealizes with
  | structural _ => exact List.nodup_singleton _
  | plain _ _ _ => exact List.nodup_singleton _
  | length _ => exact List.nodup_singleton _
  | framed _ _ =>
      refine List.nodup_cons.mpr ⟨fun hmem => ?_, List.nodup_singleton _⟩
      exact childPath_ne_inner hrequest validName_body (List.mem_singleton.mp hmem)

theorem preorders_nodup {requestName : Text} (hrequest : requestName ≠ [])
    (hrealized : List.Forall₂ (Realizes context choice) slots nodes)
    (hvalid : ∀ slot ∈ slots, validName slot.name = true)
    (hnodup : (slots.map HttpSlot.name).Nodup) :
    (pathsOf (Node.preorders requestName nodes)).Nodup := by
  induction hrealized with
  | nil => exact .nil
  | @cons slot node _ _ hhead htail ih =>
      obtain ⟨hslot, hothers⟩ := List.forall_mem_cons.mp hvalid
      obtain ⟨hfresh, hrest⟩ := List.nodup_cons.mp hnodup
      rw [Node.preorders, pathsOf, List.map_append, List.nodup_append]
      refine ⟨hhead.paths hrequest, ih hothers hrest, ?_⟩
      rintro path hpath _ hpath' rfl
      obtain ⟨item, hitem, rfl⟩ := List.mem_map.mp hpath
      obtain ⟨item', hitem', hsame⟩ := List.mem_map.mp hpath'
      obtain ⟨other, hmem, hother, -⟩ := preorders_listed htail hothers hitem'
      rw [hsame] at hother
      have hname := PathOf.slot hrequest hslot (hothers other hmem)
        (hhead.listed hslot hitem).1 hother
      exact hfresh (hname ▸ List.mem_map_of_mem hmem)

theorem heights_realizes (hrealized : List.Forall₂ (Realizes context choice) slots nodes) :
    Node.heights nodes ≤ 1 := by
  induction hrealized with
  | nil => exact Nat.zero_le _
  | cons hhead _ ih =>
      have hheight : ∀ {slot : HttpSlot} {node : Node}, Realizes context choice slot node →
          node.height ≤ 1 := by
        intro slot node hrealizes
        cases hrealizes with
        | framed _ _ => exact Nat.le_refl _
        | _ => exact Nat.zero_le _
      exact Nat.max_le.mpr ⟨hheight hhead, ih⟩

theorem acceptable_realizes {requestName : Text} (hnamed : Named slots requestName)
    (hrealized : List.Forall₂ (Realizes context choice) slots nodes) :
    Acceptable (Block.new requestName nodes) := by
  have hrequest := validName_ne_nil hnamed.request
  have hroot : childPath [] requestName = requestName := rfl
  constructor
  · simp [Block.new, Node.free, freeAll_realizes hrealized]
  · have hheights := heights_realizes hrealized
    rw [Block.new, Node.height]
    omega
  · intro item hitem
    rw [Block.new, Node.preorder, hroot] at hitem
    rcases List.mem_cons.mp hitem with rfl | hbelow
    · exact ⟨⟨hnamed.request, _, rfl⟩, rfl⟩
    · obtain ⟨-, -, -, hitem⟩ := preorders_listed hrealized hnamed.valid hbelow
      exact hitem
  · rw [Block.new, Node.preorder, hroot, pathsOf, List.map_cons, List.nodup_cons]
    refine ⟨fun hmem => ?_, preorders_nodup hrequest hrealized hnamed.valid hnamed.nodup⟩
    obtain ⟨item, hitem, hequal⟩ := List.mem_map.mp hmem
    obtain ⟨slot, -, hpath, -⟩ := preorders_listed hrealized hnamed.valid hitem
    refine dot_notMem hnamed.request ?_
    rw [hequal] at hpath
    dsimp only at hpath
    rcases hpath with hpath | ⟨-, hpath⟩
    · rw [hpath, childPath_of_ne hrequest]
      exact List.mem_append_right _ List.mem_cons_self
    · rw [hpath, childPath_of_ne (childPath_ne_nil validName_body)]
      exact List.mem_append_right _ List.mem_cons_self

end

end HttpMessage

end MoonBoofuzz
