import MoonBoofuzz.Http.Slots

namespace MoonBoofuzz

namespace Json

@[simp] theorem field_record_head (name : String) (value : Json) (rest : List (String × Json)) :
    (record ((name, value) :: rest)).field (Text.ofAscii name) = some value := by
  rw [record, field, List.map_cons, List.lookup_cons, beq_self_eq_true]

@[simp] theorem field_record_tail {name key : String}
    (hne : Text.ofAscii name ≠ Text.ofAscii key) (value : Json)
    (rest : List (String × Json)) :
    (record ((key, value) :: rest)).field (Text.ofAscii name) =
      (record rest).field (Text.ofAscii name) := by
  rw [record, field, List.map_cons, List.lookup_cons, beq_false_of_ne hne]
  rfl

@[simp] theorem field_record_nil (name : Text) : (record []).field name = none := rfl

@[simp] theorem toText_string (value : Text) : toText (.string value) = some value := rfl

@[simp] theorem toBool_bool (value : Bool) : toBool (.bool value) = some value := rfl

theorem wellFormed_record {fields : List (String × Json)} (names : List String)
    (hnames : fields.map Prod.fst = names) (hnodup : (names.map Text.ofAscii).Nodup)
    (hfields : fields.Forall fun field => field.2.WellFormed) : (record fields).WellFormed := by
  have hkeys : (fields.map fun field => (Text.ofAscii field.1, field.2)).map Prod.fst =
      names.map Text.ofAscii := by
    rw [← hnames, List.map_map, List.map_map]
    rfl
  refine .object (hkeys ▸ hnodup) fun entry hentry => ?_
  obtain ⟨field, hfield, rfl⟩ := List.mem_map.mp hentry
  exact List.forall_iff_forall_mem.mp hfields field hfield

theorem wellFormed_ofInt (value : Int32) : (ofInt value).WellFormed :=
  .number (isNumber_integer value.toInt)

end Json

namespace DefinitionContext

theorem keys_record {fields : List (String × Json)} {names : List String}
    (hnames : fields.map Prod.fst ⊆ names) : keys (.record fields) names = .done () := by
  have hkeys : Json.requireKeys (.record fields) (names.map Text.ofAscii) = .ok () := by
    apply Json.requireKeys_object
    intro key hkey
    rw [List.map_map] at hkey
    obtain ⟨field, hfield, rfl⟩ := List.mem_map.mp hkey
    exact List.mem_map_of_mem (hnames (List.mem_map_of_mem hfield))
  rw [keys, hkeys]
  rfl

section

variable {context : DefinitionContext} {value : Json} {name : String}

theorem requiredAs_field {α : Type} {read : Json → Option α} {item : Json} {result : α}
    (hfield : value.field (Text.ofAscii name) = some item) (hread : read item = some result) :
    context.requiredAs value read name = .done result := by
  rw [requiredAs, required, hfield, Eval.done_bind, hread]
  rfl

theorem optionalAs_field {α : Type} {read : Json → Option α} {item : Json} {result : α}
    (hfield : value.field (Text.ofAscii name) = some item) (hread : read item = some result) :
    context.optionalAs value read name = .done (some result) := by
  rw [optionalAs, hfield]
  change some <$> context.decoded item (read item) = _
  rw [hread]
  rfl

theorem optionalAs_missing {α : Type} {read : Json → Option α}
    (hfield : value.field (Text.ofAscii name) = none) :
    context.optionalAs value read name = .done none := by
  rw [optionalAs, hfield]

theorem text_field {content : Text} (default : Text)
    (hfield : value.field (Text.ofAscii name) = some (.string content)) :
    context.text value name default = .done content := by
  rw [text, optionalAs_field hfield (Json.toText_string content)]
  rfl

theorem text_missing (default : Text) (hfield : value.field (Text.ofAscii name) = none) :
    context.text value name default = .done default := by
  rw [text, optionalAs_missing hfield]
  rfl

theorem boolean_field {flag : Bool} (default : Bool)
    (hfield : value.field (Text.ofAscii name) = some (.bool flag)) :
    context.boolean value name default = .done flag := by
  rw [boolean, optionalAs_field hfield (Json.toBool_bool flag)]
  rfl

theorem boolean_missing (default : Bool) (hfield : value.field (Text.ofAscii name) = none) :
    context.boolean value name default = .done default := by
  rw [boolean, optionalAs_missing hfield]
  rfl

theorem number_field {number : Int32} (default : Int32)
    (hfield : value.field (Text.ofAscii name) = some (.ofInt number)) :
    context.number value name default = .done number := by
  rw [DefinitionContext.number, optionalAs_field hfield (Json.toInt_ofInt _ number)]
  rfl

theorem number_missing (default : Int32) (hfield : value.field (Text.ofAscii name) = none) :
    context.number value name default = .done default := by
  rw [number, optionalAs_missing hfield]
  rfl

theorem hex_field {content : Bytes} (default : String)
    (hfield : value.field (Text.ofAscii name) = some (.string content.hexEncode)) :
    context.hex value name default = .done content := by
  rw [hex, text_field _ hfield, Eval.done_bind, Bytes.hexDecode_hexEncode]
  rfl

theorem hexes_missing (hfield : value.field (Text.ofAscii name) = none) :
    context.hexes value name = .done [] := by
  rw [hexes, texts, optionalAs_missing hfield]
  rfl

end

section

variable {context : DefinitionContext} {value : Json} {fuel budget : Nat}

def derivedKinds : List Text :=
  ["block", "repeat", "size", "crc32", "mirror"].map Text.ofAscii

theorem parseNode_named {kind name : Text}
    (hkind : value.field (Text.ofAscii "type") = some (.string kind))
    (hname : value.field (Text.ofAscii "name") = some (.string name)) :
    context.parseNode fuel (budget + 1) value =
      if kind = Text.ofAscii "block" then
        Node.nested <$> context.parseBlock (context.parseNode fuel budget) value false
      else if kind = Text.ofAscii "repeat" then context.repeatNode value name
      else if kind = Text.ofAscii "size" then context.sizeNode value name
      else if kind = Text.ofAscii "crc32" then context.checksumNode value name
      else if kind = Text.ofAscii "mirror" then context.mirrorNode value name
      else context.fieldNode value kind name fuel := by
  rw [parseNode, requiredAs_field hkind (Json.toText_string kind), Eval.done_bind,
    requiredAs_field hname (Json.toText_string name), Eval.done_bind]

theorem parseBlock_plain {read : Json → Read Node} {root : Bool} {name : Text}
    {items : List Json}
    (hkeys : keys value
      (if root then ["name", "children", "condition", "alignment", "group"]
      else ["type", "name", "children", "condition", "alignment", "group"]) = .done ())
    (hname : value.field (Text.ofAscii "name") = some (.string name))
    (hchildren : value.field (Text.ofAscii "children") = some (.array items))
    (hcondition : value.field (Text.ofAscii "condition") = none)
    (halignment : value.field (Text.ofAscii "alignment") = none)
    (hgroup : value.field (Text.ofAscii "group") = none) :
    context.parseBlock read value root = (do
      let nodes ← items.mapM read
      .done (Block.new name nodes)) := by
  have hitems : Json.toList some (.array items) = some items := by
    have hsame : ∀ item : Json, some (id item) = some item := fun _ => rfl
    have hmapped := traverse_map hsame items
    rwa [List.map_id] at hmapped
  rw [parseBlock, hkeys, Eval.done_bind, requiredAs_field hname (Json.toText_string name),
    Eval.done_bind, requiredAs_field hchildren hitems, Eval.done_bind]
  simp only [withCondition, hcondition, withAlignment, halignment, withGroup, hgroup,
    Eval.done_bind]

structure FieldShape (value : Json) (kind name : Text) : Prop where
  typed : value.field (Text.ofAscii "type") = some (.string kind)
  named : value.field (Text.ofAscii "name") = some (.string name)
  unbound : value.field (Text.ofAscii "variable") = none
  plain : kind ∉ derivedKinds

theorem FieldShape.parseNode {kind name : Text} (hshape : FieldShape value kind name)
    {node : Node} :
    context.parseNode fuel (budget + 1) value = .done node ↔
      ∃ recipe checked, context.fieldRecipe value kind = .done recipe ∧
        recipe.call.build (context.fields fuel) recipe.fuzzable recipe.fuzzValues =
          .done checked ∧
        node = .leaf name checked.value.toField := by
  have hplain := hshape.plain
  simp only [derivedKinds, List.map_cons, List.map_nil, List.mem_cons, List.not_mem_nil,
    or_false, not_or] at hplain
  obtain ⟨hblock, hrepeat, hsize, hchecksum, hmirror⟩ := hplain
  rw [parseNode_named hshape.typed hshape.named, if_neg hblock, if_neg hrepeat, if_neg hsize,
    if_neg hchecksum, if_neg hmirror]
  simp only [fieldNode, hshape.unbound, Read.modelled, FieldRecipe.build, map_eq_pure_bind,
    Eval.pure_eq, Eval.bind_eq_done_iff, Eval.mapError_eq_done_iff, Eval.done.injEq]
  constructor
  · rintro ⟨recipe, hrecipe, _, ⟨checked, hchecked, rfl⟩, rfl⟩
    exact ⟨recipe, checked, hrecipe, hchecked, rfl⟩
  · rintro ⟨recipe, checked, hrecipe, hchecked, rfl⟩
    exact ⟨recipe, hrecipe, _, ⟨checked, hchecked, rfl⟩, rfl⟩

end

end DefinitionContext

/-- The field has this value and no candidates. -/
structure Field.Fixed (field : Field) (value : Bytes) : Prop where
  value : field.value = value
  count : field.count = 0

theorem CheckedField.simple_fixed (value : Bytes) :
    (simple value []).value.toField.Fixed value := ⟨rfl, rfl⟩

theorem CheckedField.text_fixed (library : StringLibrary) (value : Text) :
    (text library value false).value.toField.Fixed value.encodeUtf8 := by
  have hbase : ∀ candidates, (textBase value.encodeUtf8 candidates false >>=
      fun base => base.withFuzzValues [] false).value.toField.Fixed value.encodeUtf8 := by
    intro candidates
    exact ⟨rfl, rfl⟩
  exact hbase _

namespace HttpMessage

open DefinitionContext

theorem parseNode_static (context : DefinitionContext) (name content : Text) :
    ∃ field, (∀ fuel budget, context.parseNode fuel (budget + 1) (staticNode name content) =
        .done (.leaf name field)) ∧ field.Fixed content.encodeUtf8 := by
  have hhex : context.hex (staticNode name content) "value_hex" "" =
      .done content.encodeUtf8 :=
    hex_field "" (by simp (disch := decide) [staticNode, Json.hex])
  have hkeys : keys (staticNode name content) ["type", "name", "value_hex", "variable"] =
      .done () := keys_record (by simp)
  have hrecipe : context.fieldRecipe (staticNode name content) (Text.ofAscii "static") =
      .done { call := .simple content.encodeUtf8 [] } := by
    rw [fieldRecipe, if_pos rfl, staticRecipe, hkeys, Eval.done_bind, hhex, Eval.done_bind]
  have hshape : FieldShape (staticNode name content) (Text.ofAscii "static") name := {
    typed := by simp [staticNode, Json.ascii]
    named := by simp (disch := decide) [staticNode]
    unbound := by simp (disch := decide) [staticNode]
    plain := by decide }
  exact ⟨_, fun _ _ => hshape.parseNode.mpr ⟨_, _, hrecipe, rfl, rfl⟩,
    CheckedField.simple_fixed content.encodeUtf8⟩

theorem parseNode_frozen (context : DefinitionContext) (name value : Text) :
    ∃ field, (∀ fuel budget, context.parseNode fuel (budget + 1) (frozenNode name value) =
        .done (.leaf name field)) ∧ field.Fixed value.encodeUtf8 := by
  have hkeys : keys (frozenNode name value)
      ["type", "name", "value", "fuzzable", "fuzz_values", "variable"] = .done () :=
    keys_record (by simp)
  have hvalue : context.text (frozenNode name value) "value" (Text.ofAscii "") =
      .done value := text_field _ (by simp (disch := decide) [frozenNode])
  have hfuzzable : context.boolean (frozenNode name value) "fuzzable" true = .done false :=
    boolean_field _ (by simp (disch := decide) [frozenNode])
  have hnone : context.hexes (frozenNode name value) "fuzz_values" = .done [] :=
    hexes_missing (by simp (disch := decide) [frozenNode])
  have hrecipe : context.fieldRecipe (frozenNode name value) (Text.ofAscii "text") =
      .done ⟨.text value, false, []⟩ := by
    rw [fieldRecipe, if_neg (by decide), if_neg (by decide), if_neg (by decide),
      if_neg (by decide), if_neg (by decide), if_pos rfl, textRecipe, hkeys, Eval.done_bind,
      hvalue, Eval.done_bind, hfuzzable, Eval.done_bind, hnone, Eval.done_bind]
  have hshape : FieldShape (frozenNode name value) (Text.ofAscii "text") name := {
    typed := by simp [frozenNode, Json.ascii]
    named := by simp (disch := decide) [frozenNode]
    unbound := by simp (disch := decide) [frozenNode]
    plain := by decide }
  exact ⟨_, fun _ _ => hshape.parseNode.mpr ⟨_, _, hrecipe, rfl, rfl⟩,
    CheckedField.text_fixed context.library value⟩

theorem exclusive_ascii : ¬(true = true ∧ false = true) := by decide

def lengthSpec (requestName : Text) : SizeSpec where
  target := requestName ++ Text.ofAscii ".body"
  length := 4
  endian := .little
  offset := 0
  inclusive := false
  ascii := true
  mutations := []
  length_mem := by decide
  ascii_exclusive := exclusive_ascii
  mutations_length := by simp

theorem parseNode_length (context : DefinitionContext) (fuel budget : Nat)
    (requestName name : Text) :
    context.parseNode fuel (budget + 1) (lengthNode requestName name) =
      .done (.sized name (lengthSpec requestName)) := by
  have hkeys : keys (lengthNode requestName name)
      ["type", "name", "target", "length", "endian", "offset", "inclusive", "ascii",
        "mutations", "fuzzable"] = .done () := keys_record (by simp)
  have htarget : context.requiredAs (lengthNode requestName name) Json.toText "target" =
      .done (requestName ++ Text.ofAscii ".body") :=
    requiredAs_field (by simp (disch := decide) [lengthNode]) (Json.toText_string _)
  have hlength : context.number (lengthNode requestName name) "length" 4 = .done 4 :=
    number_field _ (by simp (disch := decide) [lengthNode])
  have hendian : context.endian (lengthNode requestName name) = .done .little := by
    rw [endian, text_missing _ (by simp (disch := decide) [lengthNode]), Eval.done_bind,
      if_pos rfl]
  have hoffset : context.number (lengthNode requestName name) "offset" 0 = .done 0 :=
    number_missing _ (by simp (disch := decide) [lengthNode])
  have hinclusive : context.boolean (lengthNode requestName name) "inclusive" false =
      .done false := boolean_missing _ (by simp (disch := decide) [lengthNode])
  have hascii : context.boolean (lengthNode requestName name) "ascii" false = .done true :=
    boolean_field _ (by simp (disch := decide) [lengthNode])
  have hmutations : context.unsignedValues (lengthNode requestName name) = .done [] := by
    rw [unsignedValues, texts, optionalAs_missing (by simp (disch := decide) [lengthNode])]
    rfl
  have hfuzzable : context.boolean (lengthNode requestName name) "fuzzable" true =
      .done false := boolean_field _ (by simp (disch := decide) [lengthNode])
  have htype : (lengthNode requestName name).field (Text.ofAscii "type") =
      some (.string (Text.ofAscii "size")) := by simp [lengthNode, Json.ascii]
  have hname : (lengthNode requestName name).field (Text.ofAscii "name") =
      some (.string name) := by simp (disch := decide) [lengthNode]
  rw [parseNode_named htype hname,
    if_neg (by decide), if_neg (by decide), if_pos rfl, sizeNode, hkeys, Eval.done_bind, htarget,
    Eval.done_bind, hlength, Eval.done_bind, hendian, Eval.done_bind, hoffset, Eval.done_bind,
    hinclusive, Eval.done_bind, hascii, Eval.done_bind, hmutations, Eval.done_bind, hfuzzable,
    Eval.done_bind]
  rfl

theorem parseNode_bodyBlock (context : DefinitionContext) (fuel budget : Nat) (field : Json) :
    context.parseNode fuel (budget + 2) (bodyBlock field) = (do
      let node ← context.parseNode fuel (budget + 1) field
      .done (.nested (Block.new (Text.ofAscii "body") [node]))) := by
  have hkeys : keys (bodyBlock field)
      ["type", "name", "children", "condition", "alignment", "group"] = .done () :=
    keys_record (by simp)
  have htype : (bodyBlock field).field (Text.ofAscii "type") =
      some (.string (Text.ofAscii "block")) := by simp [bodyBlock, Json.ascii]
  have hname : (bodyBlock field).field (Text.ofAscii "name") =
      some (.string (Text.ofAscii "body")) := by simp (disch := decide) [bodyBlock, Json.ascii]
  have hchildren : (bodyBlock field).field (Text.ofAscii "children") = some (.array [field]) := by
    simp (disch := decide) [bodyBlock]
  rw [parseNode_named htype hname, if_pos rfl, parseBlock_plain hkeys hname hchildren
      (by simp (disch := decide) [bodyBlock]) (by simp (disch := decide) [bodyBlock])
      (by simp (disch := decide) [bodyBlock])]
  rw [List.mapM_cons, List.mapM_nil]
  cases context.parseNode fuel (budget + 1) field <;> rfl

theorem staticNode_wellFormed (name content : Text) : (staticNode name content).WellFormed :=
  Json.wellFormed_record ["type", "name", "value_hex"] rfl (by decide +kernel)
    ⟨.string _, .string _, .string _⟩

theorem textNode_wellFormed (name value : Text) (fuzzable : Bool) :
    (Json.record [("type", .ascii "text"), ("name", .string name), ("value", .string value),
      ("fuzzable", .bool fuzzable)]).WellFormed :=
  Json.wellFormed_record ["type", "name", "value", "fuzzable"] rfl (by decide +kernel)
    ⟨.string _, .string _, .string _, .bool _⟩

theorem candidatesNode_wellFormed (name value : Text) (candidates : List Text) :
    (candidatesNode name value candidates).WellFormed := by
  have hcandidates : (Json.array (candidates.map Json.hex)).WellFormed := by
    refine .array fun item hitem => ?_
    obtain ⟨candidate, -, rfl⟩ := List.mem_map.mp hitem
    exact .string _
  exact Json.wellFormed_record ["type", "name", "value_hex", "values_hex", "fuzzable"] rfl
    (by decide +kernel) ⟨.string _, .string _, .string _, hcandidates, .bool _⟩

theorem integerNode_wellFormed {name value : Text} {selection : FieldSelection} {json : Json}
    (hnode : integerNode name value selection = .ok json) : json.WellFormed := by
  unfold integerNode at hnode
  split at hnode
  · split at hnode
    · cases hnode
      exact Json.wellFormed_record ["type", "name", "value", "width", "endian", "fuzzable"] rfl
        (by decide +kernel)
        ⟨.string _, .string _, .string _, Json.wellFormed_ofInt _, .string _, .bool _⟩
    · cases hnode
  · cases hnode

theorem bytesNode_wellFormed {name value : Text} {selection : FieldSelection} {json : Json}
    (hnode : bytesNode name value selection = .ok json) : json.WellFormed := by
  unfold bytesNode at hnode
  split at hnode
  · cases hnode
    exact Json.wellFormed_record ["type", "name", "value_hex", "max_len", "fuzzable"] rfl
      (by decide +kernel)
      ⟨.string _, .string _, .string _, Json.wellFormed_ofInt _, .bool _⟩
  · cases hnode

theorem randomNode_wellFormed {name value : Text} {selection : FieldSelection} {json : Json}
    (hnode : randomNode name value selection = .ok json) : json.WellFormed := by
  unfold randomNode at hnode
  split at hnode
  · split at hnode
    · cases hnode
      exact Json.wellFormed_record
        ["type", "name", "value_hex", "min_length", "max_length", "max_mutations", "fuzzable"] rfl
        (by decide +kernel)
        ⟨.string _, .string _, .string _, Json.wellFormed_ofInt _, Json.wellFormed_ofInt _,
          Json.wellFormed_ofInt _, .bool _⟩
    · cases hnode
  · cases hnode

theorem fieldNode_wellFormed {name value : Text} {selection : Option FieldSelection} {json : Json}
    (hnode : fieldNode name value selection = .ok json) : json.WellFormed := by
  cases selection with
  | none =>
      cases hnode
      exact textNode_wellFormed name value false
  | some selection =>
      rw [fieldNode] at hnode
      split at hnode
      · cases hnode
        exact textNode_wellFormed name value true
      · exact integerNode_wellFormed hnode
      · exact bytesNode_wellFormed hnode
      · exact randomNode_wellFormed hnode
      · cases hnode
        rw [candidatesOrAuto]
        split
        · exact candidatesNode_wellFormed name value _
        · split
          · exact candidatesNode_wellFormed name value _
          · exact textNode_wellFormed name value true

theorem slotNode_wellFormed {choice : Choice} {slot : HttpSlot} {json : Json}
    (hnode : slotNode choice slot = .ok json) : json.WellFormed := by
  cases slot with
  | structural name content =>
      cases hnode
      exact staticNode_wellFormed name content
  | segment id value =>
      rw [slotNode] at hnode
      split at hnode
      · cases hnode
        exact Json.wellFormed_record ["type", "name", "target", "length", "ascii", "fuzzable"] rfl
          (by decide +kernel)
          ⟨.string _, .string _, .string _, Json.wellFormed_ofInt _, .bool _, .bool _⟩
      · obtain ⟨field, hfield, hnode⟩ := exceptBind_eq_ok_iff.mp hnode
        cases hnode
        have hwell := fieldNode_wellFormed hfield
        split
        · exact Json.wellFormed_record ["type", "name", "children"] rfl (by decide +kernel)
            ⟨.string _, .string _, .array (List.forall_mem_singleton.mpr hwell)⟩
        · exact hwell

end HttpMessage

end MoonBoofuzz
