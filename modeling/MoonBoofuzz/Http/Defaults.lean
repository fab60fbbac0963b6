import MoonBoofuzz.Http.Chosen
import MoonBoofuzz.Http.Counted
import MoonBoofuzz.Http.Unselected

namespace MoonBoofuzz

open CompiledRequest

theorem CompiledRequest.renderChildren_join {limit : Int} {overflow : ModelError}
    {recur : Nat → Run Bytes} {children : List Nat} {pieces : List Bytes}
    (hpieces : List.Forall₂ (fun child piece => recur child = .done piece) children pieces)
    (output : Bytes) (hfits : ((output ++ pieces.flatten).length : Int) ≤ limit) :
    renderChildren limit overflow recur children output = .done (output ++ pieces.flatten) := by
  induction hpieces generalizing output with
  | nil => rw [renderChildren, List.flatten_nil, List.append_nil]
  | @cons child piece _ pieces hhead _ ih =>
      rw [List.flatten_cons, ← List.append_assoc] at hfits ⊢
      have hpiece : (piece.length : Int) ≤ limit - output.length := by
        simp only [List.length_append] at hfits
        omega
      rw [renderChildren, hhead, Eval.done_bind, Eval.check_bind_of hpiece]
      exact ih _ hfits

namespace HttpMessage

section

variable {context : FieldContext} {message : HttpMessage} {choice : Choice}
  {request : CompiledRequest} {slot : HttpSlot} {index : Nat}

def room (choice : Choice) (slot : HttpSlot) : Nat :=
  3 * slot.content.length + (if choice.length = some slot.name then 7 else 0)

theorem room_unmeasured {slots : List HttpSlot}
    (hnone : ∀ slot ∈ slots, choice.length ≠ some slot.name) :
    (slots.map (room choice)).sum = 3 * weight slots := by
  induction slots with
  | nil => rfl
  | cons slot rest ih =>
      obtain ⟨hslot, hothers⟩ := List.forall_mem_cons.mp hnone
      rw [List.map_cons, List.sum_cons, ih hothers, room, if_neg hslot, weight_cons]
      omega

theorem room_le {slots : List HttpSlot} (hnodup : (slots.map HttpSlot.name).Nodup) :
    (slots.map (room choice)).sum ≤ 3 * weight slots + 7 := by
  induction slots with
  | nil => exact Nat.zero_le _
  | cons slot rest ih =>
      obtain ⟨hfresh, hrest⟩ := List.nodup_cons.mp hnodup
      rw [List.map_cons, List.sum_cons, room, weight_cons]
      by_cases hlength : choice.length = some slot.name
      · have hnone : ∀ other ∈ rest, choice.length ≠ some other.name := by
          intro other hother hequal
          rw [hlength] at hequal
          exact hfresh (Option.some.inj hequal ▸ List.mem_map_of_mem hother)
        rw [if_pos hlength, room_unmeasured hnone]
        omega
      · have hothers := ih hrest
        rw [if_neg hlength]
        omega

theorem length_le_weight {slots : List HttpSlot} (hslot : slot ∈ slots) :
    slot.content.length ≤ weight slots :=
  List.single_le_sum (fun _ _ => Nat.zero_le _) _
    (List.mem_map.mpr ⟨slot, hslot, rfl⟩)

/-- The message and its slots fit into a request, and nothing is selected. -/
structure Plain (message : HttpMessage) (choice : Choice) : Prop where
  chosen : choice.chosen = []
  held : message.Held httpgenLimit
  nodup : (message.slots.map HttpSlot.name).Nodup
  body : choice.auto.isSome → message.terminator.isSome

theorem plain_choiceOf {message : HttpMessage} {source requestName : Text}
    (hparse : parse source = .ok message)
    (hnodup : (message.slots.map HttpSlot.name).Nodup) :
    Plain message (message.choiceOf [] requestName) where
  chosen := rfl
  held := parse_held hparse
  nodup := hnodup
  body := by
    intro hauto
    obtain ⟨i, hi⟩ := Option.isSome_iff_exists.mp hauto
    exact (autoLength_iff.mp hi).2.1

theorem Plain.fits (hplain : Plain message choice)
    (hdrafted : Drafted context message choice request) {content : Text}
    (hcontent : content.length ≤ weight message.slots) :
    content.encodeUtf8.length ≤ request.maxBytes.val := by
  have hlength := Text.length_encodeUtf8_le content
  have hweight := hplain.held.slots
  rw [hdrafted.maxBytes]
  simp only [httpgenLimit] at hweight
  omega

theorem Plain.fixed (hplain : Plain message choice) {id value : Text} {field : Field}
    (hfills : Fills context choice id value field) : field.Fixed value.encodeUtf8 := by
  apply hfills.frozen
  rw [hplain.chosen]
  rfl

theorem Hosts.framed (hauto : choice.auto.isSome) {body : Text}
    (hhosts : Hosts context choice request (.segment (Text.ofAscii "body") body) index) :
    ∃ leaf field, request.kind index = .container [leaf] ∧ request.kind leaf = .atom field ∧
      Fills context choice (Text.ofAscii "body") body field := by
  obtain ⟨node, hrealizes, hplaced⟩ := hhosts
  cases hrealizes with
  | plain _ hbody _ => exact absurd ⟨hauto, rfl⟩ hbody
  | framed _ hfills =>
      obtain ⟨indices, hblock, hinner⟩ := hplaced.block
      obtain ⟨leaf, rest, hleaf, hrest, rfl⟩ := List.forall₂_cons_left_iff.mp hinner
      cases hrest
      exact ⟨leaf, _, hblock, hleaf.leaf, hfills⟩
  | length hlength => exact absurd hlength (length_ne (by decide))

/-- The length of the body is computed from its block. -/
theorem Plain.measured (hplain : Plain message choice)
    (hdrafted : Drafted context message choice request) (hauto : choice.auto.isSome) :
    ∃ content ≤ 1048576, ∀ fuel,
      sizeValue request [] none (fuel + 2) (lengthSpec choice.requestName) =
        .done (Bytes.decimal content) ∧
      Measured request (fuel + 2) (lengthSpec choice.requestName) := by
  obtain ⟨indices, -, -, hhosted⟩ := hdrafted.hosted
  have hslot := body_slot (hplain.body hauto)
  obtain ⟨target, -, hhosts⟩ := forall₂_of_mem_left hhosted hslot
  obtain ⟨leaf, field, hblock, hkind, hfills⟩ := hhosts.framed hauto
  have hvalue := (hplain.fixed hfills).value
  have hfits := hplain.fits hdrafted (length_le_weight hslot)
  rw [HttpSlot.content, ← hvalue] at hfits
  refine ⟨field.value.length, by rw [← hdrafted.maxBytes]; exact hfits, fun fuel => ?_⟩
  have hmeasure := measure_single hdrafted.open' (hdrafted.visible [] none) hblock hkind hfits
    fuel
  have htarget := hhosts.target hdrafted
  have hsize : sizeValue request [] none (fuel + 2) (lengthSpec choice.requestName) =
      .done (Bytes.decimal field.value.length) := by
    rw [sizeValue, sizeValueWith, htarget, Eval.liftM_eq, Eval.ofExcept_ok, Eval.done_bind,
      hmeasure, Eval.done_bind, encodeSize_eq]
    have hstated : statedSize (lengthSpec choice.requestName) field.value.length =
        field.value.length := by simp [statedSize, lengthSpec]
    have hwidth : (lengthSpec choice.requestName).length = 4 := rfl
    have hmaximum := hdrafted.maxBytes
    rw [hstated, hwidth, if_neg (by omega), if_neg (by omega)]
    rfl
  exact ⟨hsize, {
    target := ⟨target, htarget, by rw [hblock]; rfl, sizeDependencies_single hblock hkind fuel⟩
    value := ⟨_, hsize⟩ }⟩

theorem Plain.carried (hplain : Plain message choice)
    (hdrafted : Drafted context message choice request) {leaf : Nat} {field : Field}
    (hcarries : Carries request index leaf field) (hfixed : field.Fixed slot.content.encodeUtf8)
    (hslot : slot ∈ message.slots) :
    ∃ bytes, (∀ fuel, renderNode request [] none (fuel + 3) (index, []) = .done bytes) ∧
      bytes.length ≤ room choice slot := by
  have hfits := hplain.fits hdrafted (length_le_weight hslot)
  rw [← hfixed.value] at hfits
  refine ⟨field.value, fun fuel => hcarries.default hdrafted.open' (hdrafted.visible [] none)
    hfits (fuel + 1), ?_⟩
  have hlength := Text.length_encodeUtf8_le slot.content
  rw [hfixed.value, room]
  omega

theorem Plain.renders (hplain : Plain message choice)
    (hdrafted : Drafted context message choice request)
    (hhosts : Hosts context choice request slot index) (hslot : slot ∈ message.slots) :
    ∃ bytes, (∀ fuel, renderNode request [] none (fuel + 3) (index, []) = .done bytes) ∧
      bytes.length ≤ room choice slot := by
  cases slot with
  | structural name content =>
      obtain ⟨field, hcarries, hfixed⟩ := hhosts.structural
      exact hplain.carried hdrafted hcarries hfixed hslot
  | segment id value =>
      by_cases hlength : choice.length = some id
      · have hauto : choice.auto.isSome := by
          obtain ⟨i, hi, -⟩ := Option.map_eq_some_iff.mp hlength
          rw [hi]
          rfl
        obtain ⟨content, hcontent, hmeasured⟩ := hplain.measured hdrafted hauto
        refine ⟨Bytes.decimal content, fun fuel => ?_, ?_⟩
        · rw [renderNode_size (hdrafted.visible [] none index) (hhosts.measured hlength) rfl []]
          exact (hmeasured fuel).1
        · have hdigits : (Bytes.decimal content).length ≤ 7 := by
            rw [Bytes.decimal, List.length_map]
            exact Nat.length_toDigits_le_iff (by decide) (by decide) |>.mpr (by omega)
          have hname : choice.length = some (HttpSlot.segment id value).name := hlength
          rw [room, if_pos hname]
          omega
      · obtain ⟨leaf, field, hcarries, hfills⟩ := hhosts.segment hlength
        exact hplain.carried hdrafted hcarries (hplain.fixed hfills) hslot

theorem Plain.pieces (hplain : Plain message choice)
    (hdrafted : Drafted context message choice request) {slots : List HttpSlot}
    {indices : List Nat} (hhosted : List.Forall₂ (Hosts context choice request) slots indices)
    (hslots : slots ⊆ message.slots) :
    ∃ pieces, (∀ fuel, List.Forall₂ (fun child piece =>
        renderNode request [] none (fuel + 3) (child, []) = .done piece) indices pieces) ∧
      pieces.flatten.length ≤ (slots.map (room choice)).sum := by
  induction hhosted with
  | nil => exact ⟨[], fun _ => .nil, Nat.zero_le _⟩
  | cons hhead _ ih =>
      obtain ⟨hslot, hothers⟩ := List.cons_subset.mp hslots
      obtain ⟨piece, hpiece, hroom⟩ := hplain.renders hdrafted hhead hslot
      obtain ⟨pieces, hpieces, hrooms⟩ := ih hothers
      refine ⟨piece :: pieces, fun fuel => .cons (hpiece fuel) (hpieces fuel), ?_⟩
      rw [List.flatten_cons, List.length_append, List.map_cons, List.sum_cons]
      omega

theorem Plain.draws (hplain : Plain message choice)
    (hdrafted : Drafted context message choice request) :
    ∃ payload, ∀ fuel, request.render (fuel + 4) = .done payload := by
  obtain ⟨indices, hkind, -, hhosted⟩ := hdrafted.hosted
  obtain ⟨pieces, hpieces, hrooms⟩ := hplain.pieces hdrafted hhosted fun _ hslot => hslot
  have hroom := @room_le choice message.slots hplain.nodup
  have hweight := hplain.held.slots
  have hmaximum := hdrafted.maxBytes
  simp only [httpgenLimit] at hweight
  refine ⟨pieces.flatten, fun fuel => ?_⟩
  have hfits : ((([] : Bytes) ++ pieces.flatten).length : Int) ≤ request.maxBytes.val := by
    rw [List.nil_append]
    omega
  rw [render, renderNode_kind [] (fuel + 3) (hdrafted.visible [] none 0) (Or.inr rfl), hkind,
    renderKind, (hdrafted.open' 0).alignment, renderChildren_join (hpieces fuel) [] hfits,
    Eval.done_bind, List.nil_append]
  rfl

theorem Plain.compiles (hplain : Plain message choice) {nodes : List Node}
    (hnamed : Named message.slots choice.requestName)
    (hrealized : List.Forall₂ (Realizes context choice) message.slots nodes) :
    ∃ request, Eval.Returns (compile (Block.new choice.requestName nodes) 1048576) request := by
  have hacceptable := acceptable_realizes hnamed hrealized
  obtain ⟨request, fuel, hassemble⟩ :=
    assemble_accepts (show 0 ≤ (1048576 : Int32).toInt by decide) hacceptable
  have hassembled := assemble_eq_done hassemble
  have hdrafted := drafted_of_assembled hassembled hrealized
  have hmeasured : ∀ entry ∈ request.entries, ∀ spec, entry.kind = .computedSize spec →
      Measured request (fuel + 4) spec := by
    intro entry hmem spec hkind
    obtain ⟨index, hindex, rfl⟩ := List.mem_iff_getElem.mp hmem
    have hentry := (entry_eq_of_getElem? (List.getElem?_eq_getElem hindex)).1
    have hsized : request.kind index = .computedSize spec := by
      rw [CompiledRequest.kind, hentry, hkind]
    obtain ⟨rfl, hauto⟩ := hdrafted.sized hsized
    obtain ⟨content, -, hmeasured⟩ := hplain.measured hdrafted hauto
    exact (hmeasured (fuel + 2)).2
  obtain ⟨payload, hrender⟩ := hplain.draws hdrafted
  have hlater : assemble (Block.new choice.requestName nodes) 1048576 (fuel + 4) =
      .done request :=
    Eval.done_of_le (assemble_mono _ _) (Nat.le_add_right fuel 4) hassemble
  refine ⟨request, fuel + 4, ?_⟩
  rw [compile, hlater, Eval.done_bind, validateSizes_measured hmeasured, Eval.done_bind,
    validateChecksums_still (fuel + 4) (hassembled.still hacceptable), Eval.done_bind,
    hrender fuel, Eval.done_bind]

end

/-- Without selections there is nothing to enumerate. -/
theorem Converted.candidates_plain {context : FieldContext} {message : HttpMessage}
    {choice : Choice} {nodes : List Node} {request : CompiledRequest}
    (hconverted : Converted context message choice nodes request) (hnone : choice.chosen = []) :
    request.candidates .sequential = [] := by
  have hcount : ∀ index, (request.kind index).count ≤ 0 := by
    intro index
    by_contra hpositive
    obtain ⟨_, _, _, _, selection, -, -, -, hlookup, -⟩ :=
      hconverted.laid.mutated (Nat.not_le.mp hpositive)
    rw [hnone] at hlookup
    cases hlookup
  have hlength := choicesFrom_length hcount 0 request.entries.length
  rw [hconverted.candidates, List.map_eq_nil_iff, ← List.length_eq_zero_iff]
  exact Nat.le_zero.mp hlength

theorem Converted.uncounted {context : FieldContext} {message : HttpMessage}
    {choice : Choice} {nodes : List Node} {request : CompiledRequest}
    (hconverted : Converted context message choice nodes request) (hnone : choice.chosen = []) :
    request.rawMutationCount = 0 := by
  have hcandidates := hconverted.candidates_plain hnone
  have hraw := Enumerates.rawMutationCount (request.candidates_drains .sequential)
    (by rw [hcandidates]; decide)
  rwa [hcandidates] at hraw

theorem generate_none {request : CompiledRequest} (hcount : request.rawMutationCount = 0)
    (fuel : Nat) :
    (singleDefinition request).generate collectPreview 0 3 .sequential fuel [] =
      (.done ⟨0, .exhausted⟩, []) := by
  have hskips : ProtocolDefinition.skipsPath .sequential
      (SessionPath.mk [request] [none] : SessionPath Unit).target 0 = true := by
    have htarget : (SessionPath.mk [request] [none] : SessionPath Unit).target = request := rfl
    rw [htarget, ProtocolDefinition.skipsPath, hcount]
    rfl
  rw [ProtocolDefinition.generate, if_pos (by decide)]
  change ProtocolDefinition.generatePaths collectPreview .sequential _ fuel
    [⟨[request], [none]⟩] 0 0 0 [] = _
  rw [ProtocolDefinition.generatePaths, if_pos hskips]
  rfl

theorem nodes_unselected (context : DefinitionContext) {choice : Choice}
    (hnone : choice.chosen = []) (slots : List HttpSlot) :
    ∃ children nodes, slots.mapM (slotNode choice) = .ok children ∧
      ∀ fuel, children.mapM (context.parseNode fuel 256) = .done nodes := by
  induction slots with
  | nil => exact ⟨[], [], rfl, fun _ => rfl⟩
  | cons slot rest ih =>
      obtain ⟨children, nodes, hchildren, hnodes⟩ := ih
      obtain ⟨json, node, hjson, hnode⟩ := slotNode_unselected context hnone slot
      refine ⟨json :: children, node :: nodes, ?_, fun fuel => ?_⟩
      · rw [List.mapM_cons, hjson, hchildren]
        rfl
      · rw [List.mapM_cons, hnode fuel 254, hnodes fuel]
        rfl

theorem toDefinition_plain {converter : Converter} {source : Text} {message : HttpMessage}
    {options : ConvertOptions} (hparse : parse source = .ok message)
    (hnamed : Named message.slots (requestNameOf options)) (hadmits : Admits options)
    (hkept : ∀ json, message.emit [] options = .ok json →
      converter.json.parse (converter.json.stringify json) = .ok json) :
    ∃ plain, Eval.Returns (toDefinition converter message [] options) plain := by
  obtain ⟨⟨policy, hpolicy⟩, hport, hlimit⟩ := hadmits
  obtain ⟨children, nodes, hchildren, hnodes⟩ :=
    @nodes_unselected converter.toDefinitionContext
      (message.choiceOf [] (requestNameOf options)) rfl message.slots
  have hemitted : message.emit [] options =
      .ok (document (requestNameOf options) children (execution options policy)) :=
    emit_eq_ok_iff.mpr ⟨[], children, policy, rfl, by rw [children_eq]; exact hchildren,
      hpolicy, hport, hlimit, rfl⟩
  have hrealized : ∀ fuel, List.Forall₂ (Realizes (converter.fields fuel)
      (message.choiceOf [] (requestNameOf options))) message.slots nodes := by
    intro fuel
    refine (forall₂_compose (exceptMapM_eq_ok_iff.mp hchildren)
      (Eval.mapM_eq_done_iff.mp (hnodes fuel))).imp ?_
    rintro slot node ⟨json, hjson, hnode⟩
    exact parseNode_realizes hjson hnode
  obtain ⟨request, enough, hcompile⟩ :=
    (plain_choiceOf hparse hnamed.nodup).compiles hnamed (hrealized 0)
  have hcompiled : compile (Block.new (requestNameOf options) nodes) 1048576 enough =
      .done request := hcompile
  have hconverted : Converted (converter.fields enough) message
      (message.choiceOf [] (requestNameOf options)) nodes request :=
    ⟨hrealized enough, enough, hcompile⟩
  have htotal : totalCount (singleDefinition request) ≤ 2147483647 := by
    rw [hconverted.total hparse, hconverted.candidates_plain rfl]
    decide
  have hread : reparse converter (converter.json.stringify
      (document (requestNameOf options) children (execution options policy))) enough =
        .done (singleDefinition request) := by
    rw [reparse, Eval.mapError_eq_done_iff, ProtocolDefinition.parse,
      hkept _ hemitted, Eval.ofExcept_ok]
    change ProtocolDefinition.ofJson _ _ enough = _
    rw [ofJson_document, hnodes enough, Eval.done_bind, Read.modelled,
      Eval.mapError_eq_done_iff.mpr hcompiled]
    rfl
  refine ⟨{
    definition := document (requestNameOf options) children (execution options policy)
    definitionText := converter.json.stringify
      (document (requestNameOf options) children (execution options policy))
    caseCount := wrap32 (totalCount (singleDefinition request))
    previews := [] }, enough, ?_⟩
  rw [toDefinition, hemitted, Eval.ofExcept_ok, Eval.done_bind]
  dsimp only
  rw [hread, Eval.done_bind, Eval.check_bind_of htotal, generate_none (hconverted.uncounted rfl)]
  rfl

/-- A message that is accepted with selections is accepted without them. -/
theorem toDefinition_unselected {converter : Converter} {source : Text} {message : HttpMessage}
    {selections : List FieldSelection} {options : ConvertOptions} {fuel : Nat}
    {result : ConvertResult} (hparse : parse source = .ok message)
    (hkept : ∀ selected ∈ [selections, []], ∀ json, message.emit selected options = .ok json →
      converter.json.parse (converter.json.stringify json) = .ok json)
    (hconvert : toDefinition converter message selections options fuel = .done result) :
    ∃ plain, Eval.Returns (toDefinition converter message [] options) plain := by
  obtain ⟨_, _, _, haccepted⟩ :=
    toDefinition_accepted (hkept selections List.mem_cons_self) hconvert
  obtain ⟨json, hemit, -⟩ := Eval.bind_eq_done_iff.mp hconvert
  obtain ⟨_, _, policy, -, -, hpolicy, hport, hlimit, -⟩ :=
    emit_eq_ok_iff.mp (Eval.ofExcept_eq_done_iff.mp hemit)
  exact toDefinition_plain hparse haccepted.converted.laid.names
    ⟨⟨policy, hpolicy⟩, hport, hlimit⟩ (hkept [] (List.mem_cons_of_mem _ List.mem_cons_self))

end HttpMessage

end MoonBoofuzz
