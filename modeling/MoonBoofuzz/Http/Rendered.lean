import MoonBoofuzz.Http.Documents
import MoonBoofuzz.Mutation.Carried

namespace MoonBoofuzz

open CompiledRequest

namespace HttpMessage

section

variable {context : FieldContext} {choice : Choice} {request : CompiledRequest}
  {slot : HttpSlot} {id value : Text} {node : Node} {index : Nat}

theorem Realizes.name (hrealizes : Realizes context choice slot node) :
    node.name = slot.name := by
  cases hrealizes <;> rfl

theorem Realizes.free (hrealizes : Realizes context choice slot node) : node.free = true := by
  cases hrealizes <;> rfl

theorem freeAll_realizes {slots : List HttpSlot} {nodes : List Node}
    (hrealized : List.Forall₂ (Realizes context choice) slots nodes) :
    Node.freeAll nodes = true := by
  induction hrealized with
  | nil => rfl
  | cons hhead _ ih =>
      rw [Node.freeAll, hhead.free, ih]
      rfl

/-! The slots in the table. -/

def Hosts (context : FieldContext) (choice : Choice) (request : CompiledRequest)
    (slot : HttpSlot) (index : Nat) : Prop :=
  ∃ node, Realizes context choice slot node ∧ Placed request choice.requestName node index

theorem Hosts.structural {label content : Text}
    (hhosts : Hosts context choice request (.structural label content) index) :
    ∃ field, Carries request index index field ∧ field.Fixed content.encodeUtf8 := by
  obtain ⟨node, hrealizes, hplaced⟩ := hhosts
  cases hrealizes with
  | structural hfixed => exact ⟨_, .self hplaced.leaf, hfixed⟩

theorem Hosts.measured (hlength : choice.length = some id)
    (hhosts : Hosts context choice request (.segment id value) index) :
    request.kind index = .computedSize (lengthSpec choice.requestName) := by
  obtain ⟨node, hrealizes, hplaced⟩ := hhosts
  cases hrealizes with
  | plain hplain => exact absurd hlength hplain
  | framed => exact absurd hlength (length_ne (by decide))
  | length => exact hplaced.sized

theorem Hosts.segment (hlength : choice.length ≠ some id)
    (hhosts : Hosts context choice request (.segment id value) index) :
    ∃ leaf field, Carries request index leaf field ∧ Fills context choice id value field := by
  obtain ⟨node, hrealizes, hplaced⟩ := hhosts
  cases hrealizes with
  | plain _ _ hfills => exact ⟨index, _, .self hplaced.leaf, hfills⟩
  | framed _ hfills =>
      obtain ⟨indices, hblock, hinner⟩ := hplaced.block
      obtain ⟨leaf, rest, hleaf, hrest, rfl⟩ := List.forall₂_cons_left_iff.mp hinner
      cases hrest
      exact ⟨leaf, _, .inner hblock hleaf.leaf, hfills⟩
  | length hother => exact absurd hother hlength

theorem Hosts.only (hhosts : Hosts context choice request slot index) {children : List Nat}
    (hblock : request.kind index = .container children) :
    ∃ leaf field, request.kind leaf = .atom field ∧ children = [leaf] := by
  cases slot with
  | structural name content =>
      obtain ⟨field, hcarries, -⟩ := hhosts.structural
      rw [hcarries.kind] at hblock
      cases hblock
  | segment id value =>
      by_cases hlength : choice.length = some id
      · rw [hhosts.measured hlength] at hblock
        cases hblock
      · obtain ⟨leaf, field, hcarries, -⟩ := hhosts.segment hlength
        cases hcarries with
        | self hkind =>
            rw [hkind] at hblock
            cases hblock
        | inner hother hkind =>
            rw [hother] at hblock
            cases hblock
            exact ⟨leaf, field, hkind, rfl⟩

end

/-- What the assembled table keeps of the slots. -/
structure Drafted (context : FieldContext) (message : HttpMessage) (choice : Choice)
    (request : CompiledRequest) : Prop where
  table : Table request
  name : request.name = choice.requestName
  named : validName choice.requestName = true
  maxBytes : request.maxBytes.val = 1048576
  open' : ∀ index, (request.entry index).Open
  visible : ∀ replacements vars index, request.isVisible replacements vars index = .ok true
  hosted : ∃ indices, request.kind 0 = .container indices ∧
    Forest request 0 1 indices request.entries.length ∧
    List.Forall₂ (Hosts context choice request) message.slots indices

structure Laid (context : FieldContext) (message : HttpMessage) (choice : Choice)
    (request : CompiledRequest) : Prop extends Drafted context message choice request where
  targets : BlockTargets request

section

variable {context : FieldContext} {message : HttpMessage} {choice : Choice}
  {nodes : List Node} {request : CompiledRequest}

theorem drafted_of_assembled {fuel : Nat}
    (hassembled : Assembled (Block.new choice.requestName nodes) 1048576 fuel request)
    (hrealized : List.Forall₂ (Realizes context choice) message.slots nodes) :
    Drafted context message choice request := by
  have hfree : (Node.nested (Block.new choice.requestName nodes)).free = true := by
    simp [Block.new, Node.free, freeAll_realizes hrealized]
  have hopen := hassembled.open hfree
  obtain ⟨indices, hkind, hplaced⟩ := hassembled.placed.block
  obtain ⟨children, hroot, hforest⟩ := hassembled.table.tree
  rw [hkind] at hroot
  cases hroot
  have hmaxBytes := hassembled.maxBytes
  have hname := hassembled.table.rootName
  rw [hassembled.placed.entry.2] at hname
  exact {
    table := hassembled.table
    name := hassembled.name
    named := hname
    maxBytes := by
      have hvalue : (1048576 : Int32).toInt = 1048576 := by decide
      omega
    open' := entry_open hopen
    visible := isVisible_unconditional fun entry hmem => (hopen entry hmem).condition
    hosted := by
      refine ⟨indices, hkind, hforest, ?_⟩
      refine (forall₂_compose hrealized hplaced).imp ?_
      rintro slot index ⟨node, hrealizes, hnode⟩
      exact ⟨node, hrealizes, hnode⟩ }

theorem Converted.laid (hconverted : Converted context message choice nodes request) :
    Laid context message choice request := by
  obtain ⟨fuel, hdone⟩ := hconverted.compiled
  have hcompiled := compile_eq_done hdone
  exact {
    toDrafted := drafted_of_assembled hcompiled.assembled hconverted.realized
    targets := hcompiled.blockTargets }

end

def Choice.Untouched (choice : Choice) : HttpSlot → Prop
  | .structural _ _ => True
  | .segment id _ => choice.chosen.lookup id = none ∧ choice.length ≠ some id

section

variable {context : FieldContext} {message : HttpMessage} {choice : Choice}
  {request : CompiledRequest} {replacements : Replacements} {slot : HttpSlot}
  {index : Nat} {bytes : Bytes}

theorem Laid.rendered (hlaid : Laid context message choice request)
    (hcandidates : CandidateReplacements request replacements) {leaf : Nat} {field : Field}
    (hcarries : Carries request index leaf field)
    (hrenders : request.Renders replacements index bytes) :
    bytes = (replacements.lookup leaf).getD field.value :=
  hcarries.rendered hcandidates hlaid.open' (hlaid.visible replacements none) hrenders

theorem Hosts.resolve (hdrafted : Drafted context message choice request)
    (hhosts : Hosts context choice request slot index) :
    request.resolve (childPath request.name slot.name) = .ok index := by
  obtain ⟨node, hrealizes, hplaced⟩ := hhosts
  rw [hdrafted.name, ← hrealizes.name]
  exact hplaced.resolve hdrafted.table

theorem Hosts.target (hdrafted : Drafted context message choice request) {body : Text}
    (hhosts : Hosts context choice request (.segment (Text.ofAscii "body") body) index) :
    request.resolve (lengthSpec choice.requestName).target = .ok index := by
  have hnonempty : choice.requestName ≠ [] := by
    have hname := hdrafted.named
    rw [validName, decide_eq_true_eq] at hname
    exact hname.1
  have hresolve := hhosts.resolve hdrafted
  rw [hdrafted.name, childPath, if_neg hnonempty] at hresolve
  exact hresolve

theorem Laid.fixed (hlaid : Laid context message choice request)
    (hcandidates : CandidateReplacements request replacements) {leaf : Nat} {field : Field}
    {value : Bytes} (hcarries : Carries request index leaf field) (hfixed : field.Fixed value)
    (hrenders : request.Renders replacements index bytes) : bytes = value := by
  have hlookup : replacements.lookup leaf = none :=
    hcandidates.lookup_none (by rw [hcarries.kind]; exact hfixed.count)
  rw [hlaid.rendered hcandidates hcarries hrenders, hlookup]
  exact hfixed.value

theorem Laid.untouched (hlaid : Laid context message choice request)
    (hcandidates : CandidateReplacements request replacements)
    (hhosts : Hosts context choice request slot index) (huntouched : choice.Untouched slot)
    (hrenders : request.Renders replacements index bytes) :
    bytes = slot.content.encodeUtf8 := by
  cases slot with
  | structural name content =>
      obtain ⟨field, hcarries, hfixed⟩ := hhosts.structural
      exact hlaid.fixed hcandidates hcarries hfixed hrenders
  | segment id value =>
      obtain ⟨hnone, hlength⟩ := huntouched
      obtain ⟨leaf, field, hcarries, hfills⟩ := hhosts.segment hlength
      exact hlaid.fixed hcandidates hcarries (hfills.frozen hnone) hrenders

theorem Laid.length (hlaid : Laid context message choice request)
    (hcandidates : CandidateReplacements request replacements) {id value body : Text}
    (hlength : choice.length = some id) {target : Nat} {content : Bytes}
    (hhosts : Hosts context choice request (.segment id value) index)
    (hbody : Hosts context choice request (.segment (Text.ofAscii "body") body) target)
    (hcontent : request.Renders replacements index content)
    (hbytes : request.Renders replacements target bytes) :
    content = Bytes.decimal bytes.length := by
  have hkind := hhosts.measured hlength
  have hlookup : replacements.lookup index = none :=
    hcandidates.lookup_none (by rw [hkind]; rfl)
  have htarget := hbody.target hlaid.toDrafted
  obtain ⟨leaf, field, hcarries, -⟩ := hbody.segment (length_ne (by decide))
  obtain ⟨fuel, hdone⟩ := hcontent
  rw [renderNode_size_eq hcandidates hlaid.targets (hlaid.visible _ _ _) hkind hlookup htarget
    hcarries.steady hdone hbytes]
  have hstated : statedSize (lengthSpec choice.requestName) bytes.length = bytes.length := by
    simp [statedSize, lengthSpec]
  rw [hstated]
  rfl

/-- The payload is what the slots contribute, one after another. -/
theorem Laid.pieces (hlaid : Laid context message choice request)
    (hcandidates : CandidateReplacements request replacements) {parts : List (Text × Nat)}
    (hreplacements : request.caseReplacements parts = .ok replacements) {payload : Bytes}
    (hrenders : request.Renders replacements 0 payload) :
    ∃ pieces, List.Forall₂ (fun slot : HttpSlot =>
        request.Contributes parts (childPath request.name slot.name)) message.slots pieces ∧
      payload = pieces.flatten := by
  obtain ⟨indices, hkind, -, hhosted⟩ := hlaid.hosted
  obtain ⟨fuel, hdone⟩ := hrenders
  obtain ⟨pieces, hpieces, hpayload⟩ := renderNode_pieces (hlaid.open' 0)
    (hlaid.visible replacements none 0) hkind
    (hcandidates.lookup_none (by rw [hkind]; rfl)) hdone
  refine ⟨pieces, ?_, hpayload⟩
  refine (forall₂_compose hhosted hpieces).imp ?_
  rintro slot piece ⟨index, hhosts, hpiece⟩
  exact ⟨index, replacements, hhosts.resolve hlaid.toDrafted, hreplacements, hpiece⟩

theorem Hosts.mutated (hhosts : Hosts context choice request slot index) {leaf i : Nat}
    (hleaf : leaf = index ∨ request.kind index = .container [leaf])
    (hcount : i < (request.kind leaf).count) :
    ∃ id value field selection, slot = .segment id value ∧
      Carries request index leaf field ∧ choice.chosen.lookup id = some selection ∧
      Fills context choice id value field := by
  have hmoving : ∀ {field : Field} {bytes : Bytes}, Carries request index leaf field →
      ¬ field.Fixed bytes := by
    intro field bytes hcarries hfixed
    rw [hcarries.kind] at hcount
    have hzero : field.count = 0 := hfixed.count
    have hpositive : i < field.count := hcount
    omega
  have hsame : ∀ {leaf' : Nat} {field : Field}, Carries request index leaf' field →
      leaf' = leaf := by
    intro leaf' field hcarries
    cases hcarries with
    | self hkind =>
        rcases hleaf with hleaf | hblock
        · exact hleaf.symm
        · rw [hkind] at hblock
          cases hblock
    | inner hblock hkind =>
        rcases hleaf with hleaf | hother
        · rw [hleaf, hblock] at hcount
          cases hcount
        · rw [hblock] at hother
          cases hother
          rfl
  cases slot with
  | structural name content =>
      obtain ⟨field, hcarries, hfixed⟩ := hhosts.structural
      exact absurd hfixed (hmoving (hsame hcarries ▸ hcarries))
  | segment id value =>
      by_cases hlength : choice.length = some id
      · have hkind := hhosts.measured hlength
        rcases hleaf with hleaf | hblock
        · rw [hleaf, hkind] at hcount
          cases hcount
        · rw [hkind] at hblock
          cases hblock
      · obtain ⟨leaf', field, hcarries, hfills⟩ := hhosts.segment hlength
        obtain rfl := hsame hcarries
        cases hlookup : choice.chosen.lookup id with
        | none => exact absurd (hfills.frozen hlookup) (hmoving hcarries)
        | some selection => exact ⟨id, value, field, selection, rfl, hcarries, hlookup, hfills⟩

/-- Apart from the root, an entry is that of a slot or the field within its block. -/
theorem Drafted.covered (hdrafted : Drafted context message choice request) {leaf : Nat}
    (hpositive : 1 ≤ leaf) (hlt : leaf < request.entries.length) :
    ∃ slot ∈ message.slots, ∃ index, Hosts context choice request slot index ∧
      (leaf = index ∨
        request.kind index = .container [leaf] ∧ ∃ field, request.kind leaf = .atom field) := by
  obtain ⟨indices, hkind, hforest, hhosted⟩ := hdrafted.hosted
  rcases hforest.covered hpositive hlt with
    hmem | ⟨child, hmem, inner, start, stop, hblock, hinner, hstart, hstop⟩
  · obtain ⟨slot, hslot, hhosts⟩ := forall₂_of_mem_right hhosted hmem
    exact ⟨slot, hslot, leaf, hhosts, Or.inl rfl⟩
  · obtain ⟨slot, hslot, hhosts⟩ := forall₂_of_mem_right hhosted hmem
    refine ⟨slot, hslot, child, hhosts, Or.inr ?_⟩
    obtain ⟨leaf', field, hkind', rfl⟩ := hhosts.only hblock
    rcases hinner.covered hstart hstop with hleaf | ⟨deeper, hdeeper, _, _, _, hother, -⟩
    · obtain rfl := List.mem_singleton.mp hleaf
      exact ⟨hblock, field, hkind'⟩
    · rw [List.mem_singleton.mp hdeeper, hkind'] at hother
      cases hother

/-- An entry with candidates is the field of a segment that is selected. -/
theorem Laid.mutated (hlaid : Laid context message choice request) {leaf i : Nat}
    (hcount : i < (request.kind leaf).count) :
    ∃ id value index field selection, .segment id value ∈ message.slots ∧
      Hosts context choice request (.segment id value) index ∧
      Carries request index leaf field ∧ choice.chosen.lookup id = some selection ∧
      Fills context choice id value field := by
  obtain ⟨indices, hkind, -, -⟩ := hlaid.hosted
  have hpositive : 1 ≤ leaf := by
    rw [Nat.one_le_iff_ne_zero]
    rintro rfl
    rw [hkind] at hcount
    cases hcount
  obtain ⟨slot, hslot, index, hhosts, hleaf⟩ :=
    hlaid.covered hpositive (lt_of_count hcount)
  obtain ⟨id, value, field, selection, rfl, hcarries, hlookup, hfills⟩ :=
    hhosts.mutated (hleaf.imp_right fun hblock => hblock.1) hcount
  exact ⟨id, value, index, field, selection, hslot, hhosts, hcarries, hlookup, hfills⟩

theorem Drafted.sized (hdrafted : Drafted context message choice request) {spec : SizeSpec}
    (hkind : request.kind index = .computedSize spec) :
    spec = lengthSpec choice.requestName ∧ choice.auto.isSome := by
  obtain ⟨indices, hroot, -, -⟩ := hdrafted.hosted
  have hpositive : 1 ≤ index := by
    rw [Nat.one_le_iff_ne_zero]
    rintro rfl
    rw [hkind] at hroot
    cases hroot
  have hlt : index < request.entries.length :=
    Table.lt_of_not_container (by rw [hkind]; rfl)
  obtain ⟨slot, -, host, hhosts, rfl | ⟨-, field, hatom⟩⟩ := hdrafted.covered hpositive hlt
  · cases slot with
    | structural name content =>
        obtain ⟨field, hcarries, -⟩ := hhosts.structural
        rw [hcarries.kind] at hkind
        cases hkind
    | segment id value =>
        by_cases hlength : choice.length = some id
        · rw [hhosts.measured hlength] at hkind
          cases hkind
          refine ⟨rfl, ?_⟩
          obtain ⟨i, hauto, -⟩ := Option.map_eq_some_iff.mp hlength
          rw [hauto]
          rfl
        · obtain ⟨leaf, field, hcarries, -⟩ := hhosts.segment hlength
          cases hcarries with
          | self hatom =>
              rw [hatom] at hkind
              cases hkind
          | inner hblock _ =>
              rw [hblock] at hkind
              cases hkind
  · rw [hatom] at hkind
    cases hkind

end

end HttpMessage

end MoonBoofuzz
