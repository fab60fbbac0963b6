import MoonBoofuzz.Data.Digits
import MoonBoofuzz.Model.Compiled
import MoonBoofuzz.Model.Still

namespace MoonBoofuzz

/-! Flat requests: a list of byte fields, each mutated on its own. -/

inductive Primitive where
  | static (value : Bytes)
  | choice (value : Bytes) (alternatives : List Bytes)
  deriving Repr, DecidableEq

namespace Primitive

def defaultValue : Primitive → Bytes
  | .static value | .choice value _ => value

/-- Explicit alternatives in the caller's order, duplicates kept. -/
def mutations : Primitive → List Bytes
  | .static _ => []
  | .choice _ values => values

end Primitive

structure Request where
  fields : List Primitive
  deriving Repr, DecidableEq

namespace Request

def render (request : Request) : Bytes :=
  request.fields.flatMap Primitive.defaultValue

def mutations (request : Request) : List Bytes :=
  request.fields.zipIdx.flatMap fun (field, fieldIndex) =>
    field.mutations.map fun alternative =>
      request.fields.zipIdx.flatMap fun (other, index) =>
        if index = fieldIndex then alternative else other.defaultValue

end Request

namespace CompiledRequest

/-- The stable name of a flat field. -/
def fieldName (index : Nat) : Text :=
  Text.ofAscii "field" ++ Text.decimal index

def flatField (field : Primitive) : Field :=
  Field.simple field.defaultValue field.mutations

def flatNode (item : Primitive × Nat) : Node :=
  .leaf (fieldName item.2) (flatField item.1)

def fromRequest (name : Text) (request : Request) (maxBytes : Int32) (fuel : Nat) :
    Run CompiledRequest :=
  compile (Block.new name (request.fields.zipIdx.map flatNode)) maxBytes fuel

def fieldPath (name : Text) (index : Nat) : Text :=
  childPath name (fieldName index)

def flatEntry (name : Text) (item : Primitive × Nat) : Entry where
  path := fieldPath name item.2
  parent := some 0
  kind := .atom (flatField item.1)
  condition := none
  alignment := none
  group := none

def flatRoot (name : Text) (children : List Nat) : Entry where
  path := name
  parent := none
  kind := .container children
  condition := none
  alignment := none
  group := none

def flatSeq (item : Primitive × Nat) : CaseSeq :=
  if 0 < item.1.mutations.length then .plain (item.2 + 1) else .sequence []

def flat (name : Text) (request : Request) (maxBytes : Fin 2147483648) :
    CompiledRequest where
  name := name
  entries := flatRoot name (List.range' 1 request.fields.length) ::
    request.fields.zipIdx.map (flatEntry name)
  paths := (name, 0) ::
    request.fields.zipIdx.map fun item => (fieldPath name item.2, item.2 + 1)
  maxBytes := maxBytes
  seq := .sequence (request.fields.zipIdx.map flatSeq)

theorem validName_fieldName (index : Nat) : validName (fieldName index) = true := by
  have hfree : ∀ unit : UInt16, unit.toNat < 48 → unit ∉ Text.ofAscii "field" →
      unit ∉ fieldName index := by
    intro unit hunit hmem
    rw [fieldName, List.mem_append, not_or]
    exact ⟨hmem, Text.notMem_decimal (Or.inl hunit) index⟩
  rw [validName, decide_eq_true_eq]
  refine ⟨by simp [fieldName, Text.ofAscii], hfree _ ?_ ?_, hfree _ ?_ ?_, hfree _ ?_ ?_⟩ <;>
    decide

theorem fieldPath_inj {name : Text} (hname : name ≠ []) {first second : Nat}
    (hequal : fieldPath name first = fieldPath name second) : first = second := by
  simp only [fieldPath, childPath, if_neg hname, List.append_cancel_left_eq,
    List.cons.injEq, true_and, fieldName] at hequal
  exact Text.decimal_inj hequal

theorem fieldPath_ne {name : Text} (hname : name ≠ []) (index : Nat) :
    fieldPath name index ≠ name := by
  intro hequal
  have hlength := congrArg List.length hequal
  simp only [fieldPath, childPath, if_neg hname, List.length_append,
    List.length_cons] at hlength
  omega

theorem addChildren_flat {name : Text} (hname : name ≠ []) (fields : List Primitive)
    (start : Nat) {draft : Draft} (hlength : draft.entries.length = start + 1)
    (hfresh : ∀ index, start ≤ index →
      draft.paths.lookup (fieldPath name index) = none) :
    addChildren name (some 0) 1 draft ((fields.zipIdx start).map flatNode) =
      .ok (List.range' (start + 1) fields.length,
        ⟨draft.entries ++ (fields.zipIdx start).map (flatEntry name),
          draft.paths ++ (fields.zipIdx start).map fun item =>
            (fieldPath name item.2, item.2 + 1)⟩) := by
  induction fields generalizing start draft with
  | nil => simp [addChildren]
  | cons field rest ih =>
      have hregister : registerNode (.leaf (fieldName start) (flatField field)) name
          (some 0) 1 draft = .ok
            ⟨draft.entries ++ [flatEntry name (field, start)],
              draft.paths ++ [(fieldPath name start, start + 1)]⟩ := by
        have hnone : draft.paths.lookup (childPath name (fieldName start)) = none :=
          hfresh start (le_refl _)
        simp [registerNode, Node.name, validName_fieldName, hnone, Node.entryKind, hlength,
          Node.condition, Node.alignment, Node.group, flatEntry, fieldPath]
        rfl
      have hgrown : (draft.entries ++ [flatEntry name (field, start)]).length =
          start + 1 + 1 := by simp [hlength]
      have hlater : ∀ index, start + 1 ≤ index →
          (draft.paths ++ [(fieldPath name start, start + 1)]).lookup
            (fieldPath name index) = none := by
        intro index hindex
        have hne : (fieldPath name index == fieldPath name start) = false := by
          rw [beq_eq_false_iff_ne]
          intro hequal
          have := fieldPath_inj hname hequal
          omega
        rw [List.lookup_append, hfresh index (by omega)]
        simp [List.lookup_cons, hne]
      have hrest := @ih (start + 1) ⟨draft.entries ++ [flatEntry name (field, start)],
        draft.paths ++ [(fieldPath name start, start + 1)]⟩ hgrown hlater
      rw [List.zipIdx_cons, List.map_cons, flatNode, addChildren, addNode, hregister]
      simp only [bind, Except.bind, hrest, hlength, List.append_assoc, List.singleton_append,
        List.map_cons, List.length_cons, List.range'_succ]

theorem addNode_flat {name : Text} (hname : validName name = true) (request : Request)
    (maxBytes : Fin 2147483648) :
    addNode [] none 0 ⟨[], []⟩
        (.nested (Block.new name (request.fields.zipIdx.map flatNode))) =
      .ok (0, ⟨(flat name request maxBytes).entries, (flat name request maxBytes).paths⟩) := by
  have hne : name ≠ [] := by
    rw [validName, decide_eq_true_eq] at hname
    exact hname.1
  have hregister : registerNode
      (.nested (Block.new name (request.fields.zipIdx.map flatNode))) [] none 0 ⟨[], []⟩ =
        .ok ⟨[flatRoot name []], [(name, 0)]⟩ := by
    simp [registerNode, Node.name, Block.name, Block.new, hname, childPath, Node.entryKind,
      Node.condition, Node.alignment, Node.group, Block.condition, Block.alignment,
      Block.group, flatRoot]
    rfl
  have hfresh : ∀ index, 0 ≤ index →
      [(name, 0)].lookup (fieldPath name index) = none := by
    intro index _
    simp [List.lookup_cons, beq_eq_false_iff_ne.mpr (fieldPath_ne hne index)]
  have hchildren := @addChildren_flat name hne request.fields 0
    ⟨[flatRoot name []], [(name, 0)]⟩ rfl hfresh
  rw [Block.new] at hregister ⊢
  rw [addNode, hregister]
  simp only [bind, Except.bind, childPath, if_true, List.length_nil, Nat.zero_add,
    hchildren]
  rfl

def Plain (entry : Entry) : Prop :=
  (∃ children, entry.kind = .container children) ∨ ∃ field, entry.kind = .atom field

theorem Plain.still {entry : Entry} (hplain : Plain entry) (hcondition : entry.condition = none) :
    entry.Still := by
  rcases hplain with ⟨children, hkind⟩ | ⟨field, hkind⟩
  · exact ⟨hcondition, by rw [hkind]; rfl, by rw [hkind]; rfl, by rw [hkind]; rfl⟩
  · exact ⟨hcondition, by rw [hkind]; rfl, by rw [hkind]; rfl, by rw [hkind]; rfl⟩

theorem Plain.not_size {entry : Entry} (hplain : Plain entry) (spec : SizeSpec) :
    entry.kind ≠ .computedSize spec := by
  rcases hplain with ⟨children, hkind⟩ | ⟨field, hkind⟩
  · rw [hkind]
    exact nofun
  · rw [hkind]
    exact nofun

section

variable {name : Text} {request : Request} {maxBytes : Fin 2147483648}

theorem flat_entry_cases {entry : Entry} (hmem : entry ∈ (flat name request maxBytes).entries) :
    entry.condition = none ∧ entry.group = none ∧ Plain entry := by
  rcases List.mem_cons.mp hmem with rfl | hmem
  · exact ⟨rfl, rfl, Or.inl ⟨_, rfl⟩⟩
  · obtain ⟨item, -, rfl⟩ := List.mem_map.mp hmem
    exact ⟨rfl, rfl, Or.inr ⟨_, rfl⟩⟩

theorem flat_entry_succ {item : Primitive × Nat} (hmem : item ∈ request.fields.zipIdx) :
    (flat name request maxBytes).entry (item.2 + 1) = flatEntry name item := by
  obtain ⟨field, index⟩ := item
  rw [List.mem_zipIdx_iff_getElem?] at hmem
  simp [entry, flat, List.getD_eq_getElem?_getD, hmem]

end

theorem mapM_done {step : α → Run β} {value : α → β} {items : List α}
    (hdone : ∀ item ∈ items, step item = .done (value item)) :
    items.mapM step = .done (items.map value) := by
  induction items with
  | nil => rfl
  | cons item rest ih =>
      rw [List.mapM_cons, hdone item (by simp), ih fun other hmem => hdone other (by simp [hmem])]
      rfl

/-- Children that render within the limit are put one after another. -/
theorem renderChildren_done {limit : Int} {overflow : ModelError} {recur : Nat → Run Bytes}
    {value : Nat → Bytes} {children : List Nat}
    (hdone : ∀ child ∈ children, recur child = .done (value child)) (output : Bytes)
    (hfits : ((output ++ children.flatMap value).length : Int) ≤ limit) :
    renderChildren limit overflow recur children output =
      .done (output ++ children.flatMap value) := by
  induction children generalizing output with
  | nil => simp [renderChildren]
  | cons child rest ih =>
      rw [List.flatMap_cons, ← List.append_assoc] at hfits ⊢
      have hchild : ((value child).length : Int) ≤ limit - output.length := by
        simp only [List.length_append] at hfits
        omega
      rw [renderChildren, hdone child (by simp), Eval.done_bind, Eval.check_bind_of hchild]
      exact ih (fun other hmem => hdone other (by simp [hmem])) _ hfits

theorem isVisible_unconditional {request : CompiledRequest}
    (hfree : ∀ entry ∈ request.entries, entry.condition = none)
    (replacements : Replacements) (vars : Option Vars) (index : Nat) :
    request.isVisible replacements vars index = .ok true := by
  have hnone : ∀ index, (request.entry index).condition = none := by
    intro index
    by_contra hsome
    exact hsome (hfree _ (entry_mem_of_ne fun hentry => hsome (by rw [hentry]; rfl)))
  have halong : ∀ chain, request.visibleAlong replacements vars chain = .ok true := by
    intro chain
    induction chain with
    | nil => rfl
    | cons first rest ih => rw [visibleAlong, hnone first, ih]
  exact halong _

def flatValue (replacements : Replacements) (item : Primitive × Nat) : Bytes :=
  (replacements.lookup (item.2 + 1)).getD item.1.defaultValue

section

variable {name : Text} {request : Request} {maxBytes : Fin 2147483648}

theorem flat_visible (replacements : Replacements) (vars : Option Vars) (index : Nat) :
    (flat name request maxBytes).isVisible replacements vars index = .ok true :=
  isVisible_unconditional (fun _ hmem => (flat_entry_cases hmem).1) replacements vars index

theorem flat_indices (request : Request) :
    request.fields.zipIdx.map (fun item => item.2 + 1) =
      List.range' 1 request.fields.length := by
  have hsnd : request.fields.zipIdx.map Prod.snd = List.range' 0 request.fields.length :=
    List.zipIdx_map_snd 0 request.fields
  have hshift : (List.range' 0 request.fields.length).map (1 + ·) =
      List.range' 1 request.fields.length := List.map_add_range' 0 request.fields.length 1
  rw [← hshift, ← hsnd, List.map_map]
  apply List.map_congr_left
  intro item _
  exact Nat.add_comm _ _

theorem flat_renderField {item : Primitive × Nat} (hmem : item ∈ request.fields.zipIdx)
    (replacements : Replacements) (vars : Option Vars) (active : List Nat) (fuel : Nat)
    (hfits : (flatValue replacements item).length ≤ maxBytes.val) :
    renderNode (flat name request maxBytes) replacements vars (fuel + 1)
        (item.2 + 1, active) = .done (flatValue replacements item) := by
  have hkind : (flat name request maxBytes).kind (item.2 + 1) = .atom (flatField item.1) := by
    rw [kind, flat_entry_succ hmem]
    rfl
  have hvisible : (flat name request maxBytes).isVisible replacements vars (item.2 + 1) =
      .ok true := flat_visible replacements vars (item.2 + 1)
  have hnotRepeat : ((flat name request maxBytes).kind (item.2 + 1)).isRepetition = false := by
    rw [hkind]
    rfl
  unfold flatValue at hfits ⊢
  cases hlookup : replacements.lookup (item.2 + 1) with
  | none =>
      rw [hlookup, Option.getD_none] at hfits
      rw [renderNode_kind active fuel hvisible (Or.inr hlookup), hkind, renderKind]
      exact Eval.check_bind_of hfits _
  | some value =>
      rw [hlookup, Option.getD_some] at hfits
      rw [renderNode_replaced active fuel hvisible hnotRepeat hlookup]
      exact Eval.check_bind_of hfits _

theorem flat_renderNode (replacements : Replacements) (hroot : replacements.lookup 0 = none)
    (vars : Option Vars) (fuel : Nat)
    (hfits : (request.fields.zipIdx.flatMap (flatValue replacements)).length ≤ maxBytes.val) :
    renderNode (flat name request maxBytes) replacements vars (fuel + 2) (0, []) =
      .done (request.fields.zipIdx.flatMap (flatValue replacements)) := by
  have hkind : (flat name request maxBytes).kind 0 =
      .container (List.range' 1 request.fields.length) := rfl
  let value : Nat → Bytes := fun child =>
    (replacements.lookup child).getD
      ((request.fields[child - 1]?.map Primitive.defaultValue).getD [])
  have hvalue : ∀ item ∈ request.fields.zipIdx,
      value (item.2 + 1) = flatValue replacements item := by
    intro item hmem
    rw [List.mem_zipIdx_iff_getElem?] at hmem
    simp only [value, flatValue, Nat.add_sub_cancel, hmem, Option.map_some, Option.getD_some]
  have hall : (List.range' 1 request.fields.length).flatMap value =
      request.fields.zipIdx.flatMap (flatValue replacements) := by
    rw [← flat_indices, List.flatMap_map]
    exact List.flatMap_congr hvalue
  have hchildren : ∀ child ∈ List.range' 1 request.fields.length,
      renderNode (flat name request maxBytes) replacements vars (fuel + 1) (child, []) =
        .done (value child) := by
    intro child hmem
    rw [← flat_indices] at hmem
    obtain ⟨item, hitem, rfl⟩ := List.mem_map.mp hmem
    rw [hvalue item hitem]
    apply flat_renderField hitem
    refine le_trans ?_ hfits
    rw [List.flatMap_def]
    exact (List.sublist_flatten_of_mem (List.mem_map.mpr ⟨item, hitem, rfl⟩)).length_le
  have hlimit : (([] ++ (List.range' 1 request.fields.length).flatMap value).length : Int) ≤
      maxBytes.val := by
    rw [List.nil_append, hall]
    exact_mod_cast hfits
  rw [renderNode_kind [] (fuel + 1) (flat_visible replacements vars 0) (Or.inr hroot), hkind,
    renderKind]
  have houter : renderChildren (flat name request maxBytes).maxBytes.val
      (byteLimit (flat name request maxBytes) 0)
      (fun child => renderNode (flat name request maxBytes) replacements vars (fuel + 1)
        (child, [])) (List.range' 1 request.fields.length) [] = .done _ :=
    renderChildren_done hchildren [] hlimit
  rw [houter, List.nil_append, hall]
  rfl

theorem flat_buildCaseSeq (fuel : Nat) :
    buildCaseSeq (flat name request maxBytes).entries [] (fuel + 2) 0 =
      .done (flat name request maxBytes).seq := by
  have hroot : (entryAt (flat name request maxBytes).entries 0).kind =
      .container (List.range' 1 request.fields.length) := rfl
  have hchildren : (List.range' 1 request.fields.length).mapM
      (buildCaseSeq (flat name request maxBytes).entries [] (fuel + 1)) =
        .done (request.fields.zipIdx.map flatSeq) := by
    rw [← flat_indices, List.mapM_map]
    apply mapM_done
    intro item hmem
    have hentry : entryAt (flat name request maxBytes).entries (item.2 + 1) =
        flatEntry name item := flat_entry_succ hmem
    change buildCaseSeq _ _ (fuel + 1) (item.2 + 1) = _
    rw [buildCaseSeq, hentry]
    have hcount : (EntryKind.atom (flatField item.1)).count = item.1.mutations.length := by
      simp [EntryKind.count, flatField, Field.simple]
    simp only [flatEntry, hcount, flatSeq]
    split <;> rfl
  rw [buildCaseSeq, hroot]
  simp only [hchildren, Eval.done_bind, List.lookup_nil]
  rfl

theorem flatMap_flatValue_nil (request : Request) :
    request.fields.zipIdx.flatMap (flatValue []) = request.render := by
  have hvalue : ∀ item : Primitive × Nat, flatValue [] item = item.1.defaultValue :=
    fun _ => rfl
  rw [Request.render, funext hvalue, List.flatMap_def, List.flatMap_def]
  congr 1
  have hfst : request.fields.zipIdx.map Prod.fst = request.fields := List.zipIdx_map_fst 0 _
  conv_rhs => rw [← hfst, List.map_map]
  rfl

end

theorem fromRequest_returns {name : Text} (hname : validName name = true) {request : Request}
    {maxBytes : Int32} (hfits : (request.render.length : Int) ≤ maxBytes.toInt) :
    ∃ limit : Fin 2147483648, (limit.val : Int) = maxBytes.toInt ∧
      Eval.Returns (fromRequest name request maxBytes) (flat name request limit) ∧
      Eval.Returns (flat name request limit).render request.render := by
  have hbytes : 0 ≤ maxBytes.toInt := by omega
  have hupper := maxBytes.toInt_lt
  let limit : Fin 2147483648 := ⟨maxBytes.toInt.toNat, by omega⟩
  have hlimit : (limit.val : Int) = maxBytes.toInt := Int.toNat_of_nonneg hbytes
  have hplain : ∀ entry ∈ (flat name request limit).entries, Plain entry :=
    fun _ hmem => (flat_entry_cases hmem).2.2
  have hstill : ∀ entry ∈ (flat name request limit).entries, entry.Still :=
    fun entry hmem => (hplain entry hmem).still (flat_entry_cases hmem).1
  have hassemble : assemble (Block.new name (request.fields.zipIdx.map flatNode)) maxBytes 2 =
      .done (flat name request limit) := by
    have hgroups : resolveGroups ⟨(flat name request limit).entries,
        (flat name request limit).paths⟩ (flat name request limit).entries 0 = .ok [] :=
      resolveGroups_free (fun _ hmem => (flat_entry_cases hmem).2.1) 0
    have hreferences : checkReferences (flat name request limit)
        (flat name request limit).entries = .ok () := checkReferences_still hstill
    rw [assemble, dif_pos hbytes, addNode_flat hname request limit]
    simp only [Eval.liftM_eq, Eval.ofExcept_ok, Eval.done_bind, hgroups,
      flat_buildCaseSeq 0]
    change (Eval.ofExcept (checkReferences (flat name request limit)
      (flat name request limit).entries) >>= fun _ => .done (flat name request limit)) = _
    rw [hreferences]
    rfl
  have hrender : (flat name request limit).render 2 = .done request.render := by
    have hnode := @flat_renderNode name request limit [] rfl none 0
      (by rw [flatMap_flatValue_nil]; omega)
    rw [flatMap_flatValue_nil] at hnode
    exact hnode
  have hsizes : validateSizes (flat name request limit) 2 = .done () :=
    validateSizes_measured fun entry hmem spec hkind =>
      absurd hkind ((hplain entry hmem).not_size spec)
  have hchecksums : validateChecksums (flat name request limit) 2 = .done () :=
    validateChecksums_still 2 hstill
  refine ⟨limit, hlimit, ⟨2, ?_⟩, ⟨2, hrender⟩⟩
  rw [fromRequest, compile, hassemble, Eval.done_bind, hsizes, Eval.done_bind, hchecksums,
    Eval.done_bind, hrender, Eval.done_bind]

end CompiledRequest

end MoonBoofuzz
