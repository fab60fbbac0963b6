import MoonBoofuzz.Http.Selected

namespace MoonBoofuzz

open DefinitionContext

namespace SessionGraph

theorem paths_single {κ : Type} (request : CompiledRequest) {graph : SessionGraph κ}
    (hadd : ProtocolDefinition.addAll [request] = .ok graph) (fuel : Nat) :
    graph.paths none 10000 fuel = .done [⟨[request], [none]⟩] := by
  cases hadd
  rfl

end SessionGraph

namespace HttpMessage

section

variable {context : DefinitionContext} {fuel : Nat}

theorem ofJson_document (requestName : Text) (children : List Json) (execution : Json) :
    ProtocolDefinition.ofJson context (document requestName children execution) fuel = (do
      let nodes ← children.mapM (context.parseNode fuel 256)
      let request ← Read.modelled
        (CompiledRequest.compile (Block.new requestName nodes) 1048576 fuel)
      (.done ⟨[request], [⟨[request], [none]⟩]⟩ : Read (ProtocolDefinition Unit))) := by
  generalize hdescription : Json.record [("name", .string requestName),
    ("children", .array children)] = description
  generalize hdocument : document requestName children execution = value
  rw [document, hdescription] at hdocument
  have hkeys : keys value
      ["schema_version", "requests", "edges", "targets", "max_bytes", "max_paths",
        "execution"] = .done () := by
    rw [← hdocument]
    exact keys_record (by simp)
  have hversion : context.requiredAs value (Json.toInt context.json.toIntReader)
      "schema_version" = .done 1 :=
    requiredAs_field (by simp [← hdocument]) (Json.toInt_ofInt _ 1)
  have hrequests : context.requiredAs value (Json.toList some) "requests" =
      .done [description] :=
    requiredAs_field (by simp (disch := decide) [← hdocument]; rfl) rfl
  have hmaxBytes : context.number value "max_bytes" 1048576 = .done 1048576 :=
    number_missing _ (by simp (disch := decide) [← hdocument])
  have hmaxPaths : context.number value "max_paths" 10000 = .done 10000 :=
    number_missing _ (by simp (disch := decide) [← hdocument])
  have htargets : context.optionalAs value (Json.toList Json.toText) "targets" = .done none :=
    optionalAs_missing (by simp (disch := decide) [← hdocument])
  have hedges : value.field (Text.ofAscii "edges") = none := by
    simp (disch := decide) [← hdocument]
  have hroot : context.parseBlock (context.parseNode fuel 256) description true = (do
      let nodes ← children.mapM (context.parseNode fuel 256)
      .done (Block.new requestName nodes)) :=
    parseBlock_plain
      (by
        rw [← hdescription]
        exact keys_record (by simp))
      (by simp [← hdescription]) (by simp (disch := decide) [← hdescription])
      (by simp (disch := decide) [← hdescription]) (by simp (disch := decide) [← hdescription])
      (by simp (disch := decide) [← hdescription])
  rw [ProtocolDefinition.ofJson, hkeys, Eval.done_bind, hversion, Eval.done_bind, if_pos rfl,
    hrequests, Eval.done_bind, List.mapM_cons, List.mapM_nil, ProtocolDefinition.parseRequest,
    hroot]
  simp only [bind_assoc, Eval.done_bind, Eval.pure_eq, hmaxBytes]
  congr
  funext nodes
  congr
  funext request
  have hadd : ∃ graph : SessionGraph Unit, ProtocolDefinition.addAll [request] = .ok graph :=
    ⟨_, rfl⟩
  obtain ⟨graph, hgraph⟩ := hadd
  simp only [hgraph, Read.modelled, Eval.ofExcept_ok, Eval.mapError, Eval.done_bind,
    ProtocolDefinition.connectEdges, hedges, hmaxPaths, htargets,
    SessionGraph.paths_single request hgraph]

end

/-! What stands for the slots in the tree that is read. -/

/-- The field of a segment: its value as it is, or the field that its selection builds. -/
structure Fills (context : FieldContext) (choice : Choice) (id value : Text) (field : Field) :
    Prop where
  frozen : choice.chosen.lookup id = none → field.Fixed value.encodeUtf8
  selected : ∀ selection, choice.chosen.lookup id = some selection →
    ∃ call checked, selection.call id value = .ok call ∧
      call.build context true [] = .done checked ∧ field = checked.value.toField

inductive Realizes (context : FieldContext) (choice : Choice) : HttpSlot → Node → Prop
  | structural {name content : Text} {field : Field}
      (hfixed : field.Fixed content.encodeUtf8) :
      Realizes context choice (.structural name content) (.leaf name field)
  | plain {id value : Text} {field : Field} (hlength : choice.length ≠ some id)
      (hbody : ¬ (choice.auto.isSome ∧ id = Text.ofAscii "body"))
      (hfills : Fills context choice id value field) :
      Realizes context choice (.segment id value) (.leaf id field)
  | framed {value : Text} {field : Field} (hauto : choice.auto.isSome)
      (hfills : Fills context choice (Text.ofAscii "body") value field) :
      Realizes context choice (.segment (Text.ofAscii "body") value)
        (.nested (Block.new (Text.ofAscii "body") [.leaf (Text.ofAscii "body") field]))
  | length {id value : Text} (hlength : choice.length = some id) :
      Realizes context choice (.segment id value) (.sized id (lengthSpec choice.requestName))

section

variable {context : DefinitionContext} {choice : Choice} {fuel budget : Nat} {id value : Text}
  {json : Json} {node : Node}

theorem parseNode_fills (hemitted : fieldNode id value (choice.chosen.lookup id) = .ok json)
    (hparsed : context.parseNode fuel (budget + 1) json = .done node) :
    ∃ field, node = .leaf id field ∧ Fills (context.fields fuel) choice id value field := by
  cases hlookup : choice.chosen.lookup id with
  | none =>
      rw [hlookup] at hemitted
      cases hemitted
      obtain ⟨field, hfield, hfixed⟩ := parseNode_frozen context id value
      rw [hfield] at hparsed
      cases hparsed
      refine ⟨field, rfl, fun _ => hfixed, fun selection hselection => ?_⟩
      rw [hlookup] at hselection
      cases hselection
  | some selection =>
      rw [hlookup] at hemitted
      obtain ⟨call, checked, hcall, hchecked, rfl⟩ := parseNode_selected hemitted hparsed
      refine ⟨_, rfl, fun hnone => ?_, fun other hother => ?_⟩
      · rw [hlookup] at hnone
        cases hnone
      · rw [hlookup] at hother
        cases hother
        exact ⟨call, checked, hcall, hchecked, rfl⟩

theorem parseNode_realizes {slot : HttpSlot} (hemitted : slotNode choice slot = .ok json)
    (hparsed : context.parseNode fuel (budget + 2) json = .done node) :
    Realizes (context.fields fuel) choice slot node := by
  cases slot with
  | structural name content =>
      cases hemitted
      obtain ⟨field, hfield, hfixed⟩ := parseNode_static context name content
      rw [hfield] at hparsed
      cases hparsed
      exact .structural hfixed
  | segment id value =>
      rw [slotNode] at hemitted
      split at hemitted
      · rename_i hlength
        cases hemitted
        rw [parseNode_length] at hparsed
        cases hparsed
        exact .length hlength
      · rename_i hlength
        obtain ⟨field, hfield, hjson⟩ := exceptBind_eq_ok_iff.mp hemitted
        split at hjson
        · rename_i hbody
          obtain ⟨hauto, rfl⟩ := hbody
          cases hjson
          rw [parseNode_bodyBlock] at hparsed
          obtain ⟨inner, hinner, hnode⟩ := Eval.bind_eq_done_iff.mp hparsed
          cases hnode
          obtain ⟨content, rfl, hfills⟩ := parseNode_fills hfield hinner
          exact .framed hauto hfills
        · rename_i hbody
          cases hjson
          obtain ⟨content, rfl, hfills⟩ := parseNode_fills hfield hparsed
          exact .plain hlength hbody hfills

theorem slotNode_unselected (context : DefinitionContext) (hnone : choice.chosen = [])
    (slot : HttpSlot) :
    ∃ json node, slotNode choice slot = .ok json ∧
      ∀ fuel budget, context.parseNode fuel (budget + 2) json = .done node := by
  cases slot with
  | structural name content =>
      obtain ⟨field, hfield, -⟩ := parseNode_static context name content
      exact ⟨_, _, rfl, fun fuel budget => hfield fuel (budget + 1)⟩
  | segment id value =>
      have hfrozen : fieldNode id value (choice.chosen.lookup id) = .ok (frozenNode id value) := by
        rw [hnone]
        rfl
      obtain ⟨field, hfield, -⟩ := parseNode_frozen context id value
      rw [slotNode, hfrozen]
      split
      · exact ⟨_, _, rfl, fun fuel budget =>
          parseNode_length context fuel (budget + 1) choice.requestName id⟩
      · by_cases hbody : choice.auto.isSome ∧ id = Text.ofAscii "body"
        · refine ⟨_, .nested (Block.new (Text.ofAscii "body") [.leaf id field]), rfl, ?_⟩
          intro fuel budget
          rw [if_pos hbody, parseNode_bodyBlock, hfield]
          rfl
        · refine ⟨_, .leaf id field, rfl, ?_⟩
          intro fuel budget
          rw [if_neg hbody]
          exact hfield fuel (budget + 1)

end

/-- The tree stands for the slots, and the request is what it compiles to. -/
structure Converted (context : FieldContext) (message : HttpMessage) (choice : Choice)
    (nodes : List Node) (request : CompiledRequest) : Prop where
  realized : List.Forall₂ (Realizes context choice) message.slots nodes
  compiled : Eval.Returns
    (CompiledRequest.compile (Block.new choice.requestName nodes) 1048576) request

def singleDefinition (request : CompiledRequest) : ProtocolDefinition Unit where
  requests := [request]
  paths := [⟨[request], [none]⟩]

/-- The settings that no document is refused for. -/
structure Admits (options : ConvertOptions) : Prop where
  policy : ∃ policy, readPolicy options = .ok policy
  port : 1 ≤ options.port.toInt ∧ options.port.toInt ≤ 65535
  limit : 0 ≤ options.caseLimit.toInt

theorem emit_eq_ok_iff {message : HttpMessage} {selections : List FieldSelection}
    {options : ConvertOptions} {json : Json} :
    message.emit selections options = .ok json ↔
      ∃ chosen children policy, selections.foldlM message.choose [] = .ok chosen ∧
        message.children chosen (requestNameOf options) = .ok children ∧
        readPolicy options = .ok policy ∧
        (1 ≤ options.port.toInt ∧ options.port.toInt ≤ 65535) ∧
        0 ≤ options.caseLimit.toInt ∧
        json = document (requestNameOf options) children (execution options policy) := by
  constructor
  · intro hemit
    obtain ⟨chosen, hchosen, hemit⟩ := exceptBind_eq_ok_iff.mp hemit
    obtain ⟨children, hchildren, hemit⟩ := exceptBind_eq_ok_iff.mp hemit
    split at hemit
    · rename_i hport
      split at hemit
      · rename_i hlimit
        obtain ⟨policy, hpolicy, hjson⟩ := exceptBind_eq_ok_iff.mp hemit
        cases hjson
        exact ⟨chosen, children, policy, hchosen, hchildren, hpolicy, hport, hlimit, rfl⟩
      · cases hemit
    · cases hemit
  · rintro ⟨chosen, children, policy, hchosen, hchildren, hpolicy, hport, hlimit, rfl⟩
    rw [emit, exceptBind_eq_ok_iff]
    refine ⟨chosen, hchosen, exceptBind_eq_ok_iff.mpr ⟨children, hchildren, ?_⟩⟩
    rw [if_pos hport, if_pos hlimit, hpolicy]
    rfl

theorem readPolicy_wellFormed {options : ConvertOptions} {policy : Json}
    (hpolicy : readPolicy options = .ok policy) : policy.WellFormed := by
  unfold readPolicy at hpolicy
  split at hpolicy
  · cases hpolicy
    exact Json.wellFormed_record ["kind", "delimiter_hex"] rfl (by decide +kernel)
      ⟨.string _, .string _⟩
  split at hpolicy
  · cases hpolicy
    exact Json.wellFormed_record ["kind"] rfl (by decide +kernel) (.string _)
  split at hpolicy
  · split at hpolicy
    · cases hpolicy
      exact Json.wellFormed_record ["kind", "length"] rfl (by decide +kernel)
        ⟨.string _, Json.wellFormed_ofInt _⟩
    · cases hpolicy
  · cases hpolicy

theorem execution_wellFormed (options : ConvertOptions) {policy : Json}
    (hpolicy : policy.WellFormed) : (execution options policy).WellFormed := by
  have hpolicies : (Json.object [(requestNameOf options, policy)]).WellFormed :=
    .object (List.nodup_singleton _) (List.forall_mem_singleton.mpr hpolicy)
  have hendpoint : ∀ host, (Json.record [("host", .string host), ("port", .ofInt options.port),
      ("receive_timeout_ms", .ofInt 500)]).WellFormed := fun host =>
    Json.wellFormed_record ["host", "port", "receive_timeout_ms"] rfl (by decide +kernel)
      ⟨.string _, Json.wellFormed_ofInt _, Json.wellFormed_ofInt _⟩
  unfold execution
  by_cases hlimit : 0 < options.caseLimit.toInt
  · rw [if_pos hlimit]
    exact Json.wellFormed_record
      ["transport", "endpoint", "policies", "combinatorial", "case_limit"] rfl (by decide +kernel)
      ⟨.string _, hendpoint _, hpolicies, .bool _, Json.wellFormed_ofInt _⟩
  · rw [if_neg hlimit]
    exact Json.wellFormed_record ["transport", "endpoint", "policies", "combinatorial"] rfl
      (by decide +kernel) ⟨.string _, hendpoint _, hpolicies, .bool _⟩

theorem emit_wellFormed {message : HttpMessage} {selections : List FieldSelection}
    {options : ConvertOptions} {json : Json} (hemit : message.emit selections options = .ok json) :
    json.WellFormed := by
  obtain ⟨chosen, children, policy, -, hchildren, hpolicy, -, -, rfl⟩ := emit_eq_ok_iff.mp hemit
  rw [children_eq, exceptMapM_eq_ok_iff] at hchildren
  have hnodes : ∀ node ∈ children, node.WellFormed := by
    intro node hnode
    obtain ⟨slot, -, hslot⟩ := forall₂_of_mem_right hchildren hnode
    exact slotNode_wellFormed hslot
  have hrequest : (Json.record [("name", .string (requestNameOf options)),
      ("children", .array children)]).WellFormed :=
    Json.wellFormed_record ["name", "children"] rfl (by decide +kernel)
      ⟨.string _, .array hnodes⟩
  exact Json.wellFormed_record ["schema_version", "requests", "execution"] rfl (by decide +kernel)
    ⟨Json.wellFormed_ofInt 1, .array (List.forall_mem_singleton.mpr hrequest),
      execution_wellFormed options (readPolicy_wellFormed hpolicy)⟩

/-- The JSON functions that the code uses read every document back that is written. -/
theorem emit_kept {message : HttpMessage} {selections : List FieldSelection}
    {options : ConvertOptions} {json : Json} (hemit : message.emit selections options = .ok json) :
    JsonLibrary.standard.parse (JsonLibrary.standard.stringify json) = .ok json :=
  JsonLibrary.standard_parse (emit_wellFormed hemit)

theorem parse_converted {context : DefinitionContext} {message : HttpMessage}
    {chosen : Chosen} {requestName : Text} {children : List Json} {execution : Json}
    {fuel : Nat} {definition : ProtocolDefinition Unit}
    (hchildren : message.children chosen requestName = .ok children)
    (hparse : ProtocolDefinition.ofJson context (document requestName children execution)
      fuel = .done definition) :
    ∃ nodes request, definition = singleDefinition request ∧
      Converted (context.fields fuel) message (message.choiceOf chosen requestName) nodes
        request := by
  rw [ofJson_document] at hparse
  obtain ⟨nodes, hnodes, hparse⟩ := Eval.bind_eq_done_iff.mp hparse
  obtain ⟨request, hrequest, hdefinition⟩ := Eval.bind_eq_done_iff.mp hparse
  cases hdefinition
  rw [Read.modelled, Eval.mapError_eq_done_iff] at hrequest
  rw [children_eq, exceptMapM_eq_ok_iff] at hchildren
  rw [Eval.mapM_eq_done_iff] at hnodes
  refine ⟨nodes, request, rfl, ?_, fuel, hrequest⟩
  refine (forall₂_compose hchildren hnodes).imp ?_
  rintro slot node ⟨json, hjson, hnode⟩
  exact parseNode_realizes hjson hnode

/-- What is known of an accepted conversion, when the library reads the text of the
document back. -/
structure Accepted (converter : Converter) (message : HttpMessage)
    (selections : List FieldSelection) (options : ConvertOptions) (fuel : Nat)
    (result : ConvertResult) (chosen : Chosen) (nodes : List Node)
    (request : CompiledRequest) : Prop where
  selected : selections.foldlM message.choose [] = .ok chosen
  converted : Converted (converter.fields fuel) message
    (message.choiceOf chosen (requestNameOf options)) nodes request
  parsed : ProtocolDefinition.parse converter.toDefinitionContext result.definitionText fuel =
    .done (singleDefinition request)
  total : totalCount (singleDefinition request) ≤ 2147483647
  caseCount : result.caseCount = wrap32 (totalCount (singleDefinition request))

theorem toDefinition_accepted {converter : Converter} {message : HttpMessage}
    {selections : List FieldSelection} {options : ConvertOptions} {fuel : Nat}
    {result : ConvertResult}
    (hkept : ∀ json, message.emit selections options = .ok json →
      converter.json.parse (converter.json.stringify json) = .ok json)
    (hconvert : toDefinition converter message selections options fuel = .done result) :
    ∃ chosen nodes request,
      Accepted converter message selections options fuel result chosen nodes request := by
  rw [toDefinition] at hconvert
  obtain ⟨json, hemit, hconvert⟩ := Eval.bind_eq_done_iff.mp hconvert
  obtain ⟨definition, hreparse, hconvert⟩ := Eval.bind_eq_done_iff.mp hconvert
  obtain ⟨_, htotal, hconvert⟩ := Eval.bind_eq_done_iff.mp hconvert
  obtain ⟨_, -, hresult⟩ := Eval.bind_eq_done_iff.mp hconvert
  cases hresult
  rw [Eval.ofExcept_eq_done_iff] at hemit
  rw [reparse, Eval.mapError_eq_done_iff] at hreparse
  rw [Eval.check_eq_done_iff] at htotal
  obtain ⟨chosen, children, policy, hchosen, hchildren, -, -, -, rfl⟩ := emit_eq_ok_iff.mp hemit
  have hread := hreparse
  rw [ProtocolDefinition.parse, hkept _ hemit, Eval.ofExcept_ok] at hread
  obtain ⟨nodes, request, rfl, hconverted⟩ := parse_converted hchildren hread
  exact ⟨chosen, nodes, request, {
    selected := hchosen
    converted := hconverted
    parsed := hreparse
    total := htotal
    caseCount := rfl }⟩

end HttpMessage

end MoonBoofuzz
