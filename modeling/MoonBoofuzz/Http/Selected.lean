import MoonBoofuzz.Data.Mapped
import MoonBoofuzz.Fields.Lengths
import MoonBoofuzz.Http.Nodes

namespace MoonBoofuzz

namespace FieldSelection

def call (selection : FieldSelection) (id value : Text) : Except DefinitionError FieldCall :=
  match selection.primitive with
  | .text => .ok (.text value)
  | .integer => do
      let default ← decimalU64 (HttpMessage.decimalOrZero value)
      .ok (.integer default selection.width.toInt
        (if selection.endian = Text.ofAscii "little" then .little else .big))
  | .bytes => .ok (.binary value.encodeUtf8 none (some selection.maxLen.toInt) [0x00])
  | .randomData =>
      .ok (.randomData {
        defaultValue := value.encodeUtf8
        minLength := 0
        maxLength := selection.maxLen
        maxMutations := selection.maxMutations
        step := some 0 })
  | .candidates =>
      if selection.candidates ≠ [] then
        .ok (.simple value.encodeUtf8 (selection.candidates.map Text.encodeUtf8))
      else if id = Text.ofAscii "method" then
        .ok (.simple value.encodeUtf8
          ((HttpMessage.builtinMethods.filter fun candidate => candidate ≠ value).map
            Text.encodeUtf8))
      else .ok (.text value)

end FieldSelection

namespace DefinitionContext

theorem hexes_field {context : DefinitionContext} {value : Json} {name : String}
    {contents : List Bytes}
    (hfield : value.field (Text.ofAscii name) =
      some (.array (contents.map fun content => .string content.hexEncode))) :
    context.hexes value name = .done contents := by
  have hdigits : Json.toList Json.toText
      (.array (contents.map fun content => .string content.hexEncode)) =
        some (contents.map Bytes.hexEncode) := by
    have hmapped := traverse_map Json.toText_string (contents.map Bytes.hexEncode)
    rwa [List.map_map] at hmapped
  have htexts : context.texts value name = .done (contents.map Bytes.hexEncode) := by
    rw [texts, optionalAs_field hfield hdigits]
    rfl
  rw [hexes, htexts, Eval.done_bind, Eval.mapM_eq_done_iff, List.forall₂_map_left_iff,
    List.forall₂_same]
  intro content _
  rw [Bytes.hexDecode_hexEncode]
  rfl

end DefinitionContext

namespace HttpMessage

open DefinitionContext

theorem shape_autoText (name value : Text) :
    FieldShape (autoTextNode name value) (Text.ofAscii "text") name where
  typed := by simp [autoTextNode, Json.ascii]
  named := by simp (disch := decide) [autoTextNode]
  unbound := by simp (disch := decide) [autoTextNode]
  plain := by decide

theorem shape_candidates (name value : Text) (candidates : List Text) :
    FieldShape (candidatesNode name value candidates) (Text.ofAscii "simple") name where
  typed := by simp [candidatesNode, Json.ascii]
  named := by simp (disch := decide) [candidatesNode]
  unbound := by simp (disch := decide) [candidatesNode]
  plain := by decide

section

variable {name value : Text} {selection : FieldSelection} {node : Json}

theorem shape_integer (hnode : integerNode name value selection = .ok node) :
    FieldShape node (Text.ofAscii "integer") name := by
  rw [integerNode] at hnode
  split at hnode
  · split at hnode
    · cases hnode
      exact {
        typed := by simp [Json.ascii]
        named := by simp (disch := decide)
        unbound := by simp (disch := decide)
        plain := by decide }
    · cases hnode
  · cases hnode

theorem shape_bytes (hnode : bytesNode name value selection = .ok node) :
    FieldShape node (Text.ofAscii "bytes") name := by
  rw [bytesNode] at hnode
  split at hnode
  · cases hnode
    exact {
      typed := by simp [Json.ascii]
      named := by simp (disch := decide)
      unbound := by simp (disch := decide)
      plain := by decide }
  · cases hnode

theorem shape_random (hnode : randomNode name value selection = .ok node) :
    FieldShape node (Text.ofAscii "random") name := by
  rw [randomNode] at hnode
  split at hnode
  · split at hnode
    · cases hnode
      exact {
        typed := by simp [Json.ascii]
        named := by simp (disch := decide)
        unbound := by simp (disch := decide)
        plain := by decide }
    · cases hnode
  · cases hnode

end

variable (context : DefinitionContext) (name value : Text)

theorem fieldRecipe_autoText : context.fieldRecipe (autoTextNode name value)
    (Text.ofAscii "text") = .done ⟨.text value, true, []⟩ := by
  have hkeys : keys (autoTextNode name value)
      ["type", "name", "value", "fuzzable", "fuzz_values", "variable"] = .done () :=
    keys_record (by simp)
  have hvalue : context.text (autoTextNode name value) "value" (Text.ofAscii "") =
      .done value := text_field _ (by simp (disch := decide) [autoTextNode])
  have hfuzzable : context.boolean (autoTextNode name value) "fuzzable" true = .done true :=
    boolean_field _ (by simp (disch := decide) [autoTextNode])
  have hnone : context.hexes (autoTextNode name value) "fuzz_values" = .done [] :=
    hexes_missing (by simp (disch := decide) [autoTextNode])
  rw [fieldRecipe, if_neg (by decide), if_neg (by decide), if_neg (by decide),
    if_neg (by decide), if_neg (by decide), if_pos rfl, textRecipe, hkeys, Eval.done_bind,
    hvalue, Eval.done_bind, hfuzzable, Eval.done_bind, hnone, Eval.done_bind]

theorem fieldRecipe_candidates (candidates : List Text) :
    context.fieldRecipe (candidatesNode name value candidates) (Text.ofAscii "simple") =
      .done ⟨.simple value.encodeUtf8 (candidates.map Text.encodeUtf8), true, []⟩ := by
  have hkeys : keys (candidatesNode name value candidates)
      ["type", "name", "value_hex", "values_hex", "fuzzable", "fuzz_values", "variable"] =
        .done () := keys_record (by simp)
  have hvalue : context.hex (candidatesNode name value candidates) "value_hex" "" =
      .done value.encodeUtf8 :=
    hex_field "" (by simp (disch := decide) [candidatesNode, Json.hex])
  have hvalues : context.hexes (candidatesNode name value candidates) "values_hex" =
      .done (candidates.map Text.encodeUtf8) := by
    apply hexes_field
    rw [List.map_map]
    simp (disch := decide) only [candidatesNode, Json.field_record_tail,
      Json.field_record_head]
    rfl
  have hfuzzable : context.boolean (candidatesNode name value candidates) "fuzzable" true =
      .done true := boolean_field _ (by simp (disch := decide) [candidatesNode])
  have hnone : context.hexes (candidatesNode name value candidates) "fuzz_values" =
      .done [] := hexes_missing (by simp (disch := decide) [candidatesNode])
  rw [fieldRecipe, if_neg (by decide), if_pos rfl, simpleRecipe, hkeys, Eval.done_bind, hvalue,
    Eval.done_bind, hvalues, Eval.done_bind, hfuzzable, Eval.done_bind, hnone, Eval.done_bind]

theorem fieldRecipe_integer {selection : FieldSelection} {node : Json}
    (hnode : integerNode name value selection = .ok node) :
    context.fieldRecipe node (Text.ofAscii "integer") = (do
      let default ← Read.defined (decimalU64 (decimalOrZero value))
      .done ⟨.integer default selection.width.toInt
        (if selection.endian = Text.ofAscii "little" then .little else .big), true, []⟩) := by
  rw [integerNode] at hnode
  split at hnode
  · split at hnode
    · rename_i hendian
      cases hnode
      generalize hrecord : Json.record _ = node
      have hkeys : keys node
          ["type", "name", "value", "width", "endian", "fuzzable", "fuzz_values",
            "variable"] = .done () := by
        rw [← hrecord]
        exact keys_record (by simp)
      have hdigits : context.text node "value" (Text.ofAscii "0") =
          .done (decimalOrZero value) :=
        text_field _ (by simp (disch := decide) [← hrecord])
      have hwidth : context.number node "width" 8 = .done selection.width :=
        number_field _ (by simp (disch := decide) [← hrecord])
      have horder : context.endian node = .done
          (if selection.endian = Text.ofAscii "little" then .little else .big) := by
        rw [endian, text_field _ (by simp (disch := decide) [← hrecord]; rfl), Eval.done_bind]
        split
        · rfl
        · rename_i hbig
          rw [if_pos (hendian.resolve_left hbig)]
      have hfuzzable : context.boolean node "fuzzable" true = .done true :=
        boolean_field _ (by simp (disch := decide) [← hrecord])
      have hnone : context.hexes node "fuzz_values" = .done [] :=
        hexes_missing (by simp (disch := decide) [← hrecord])
      rw [fieldRecipe, if_neg (by decide), if_neg (by decide), if_neg (by decide), if_pos rfl,
        integerRecipe, hkeys, Eval.done_bind, hdigits, Eval.done_bind]
      simp only [hwidth, horder, hfuzzable, hnone, Eval.done_bind]
    · cases hnode
  · cases hnode

theorem fieldRecipe_bytes {selection : FieldSelection} {node : Json}
    (hnode : bytesNode name value selection = .ok node) :
    context.fieldRecipe node (Text.ofAscii "bytes") = .done
      ⟨.binary value.encodeUtf8 none (some selection.maxLen.toInt) [0x00], true, []⟩ := by
  rw [bytesNode] at hnode
  split at hnode
  · cases hnode
    generalize hrecord : Json.record _ = node
    have hkeys : keys node
        ["type", "name", "value_hex", "size", "max_len", "padding_hex", "fuzzable",
          "fuzz_values", "variable"] = .done () := by
      rw [← hrecord]
      exact keys_record (by simp)
    have hvalue : context.hex node "value_hex" "" = .done value.encodeUtf8 :=
      hex_field "" (by simp (disch := decide) [← hrecord, Json.hex])
    have hpadding : context.hex node "padding_hex" "00" = .done [0x00] := by
      rw [DefinitionContext.hex, text_missing _ (by simp (disch := decide) [← hrecord]),
        Eval.done_bind]
      rfl
    have hfuzzable : context.boolean node "fuzzable" true = .done true :=
      boolean_field _ (by simp (disch := decide) [← hrecord])
    have hnone : context.hexes node "fuzz_values" = .done [] :=
      hexes_missing (by simp (disch := decide) [← hrecord])
    have hsize : context.optionalAs node (Json.toInt context.json.toIntReader) "size" =
        .done none := optionalAs_missing (by simp (disch := decide) [← hrecord])
    have hmaxLen : context.optionalAs node (Json.toInt context.json.toIntReader) "max_len" =
        .done (some selection.maxLen) :=
      optionalAs_field (by simp (disch := decide) [← hrecord]) (Json.toInt_ofInt _ _)
    rw [fieldRecipe, if_neg (by decide), if_neg (by decide), if_neg (by decide),
      if_neg (by decide), if_pos rfl, bytesRecipe, hkeys, Eval.done_bind, hvalue,
      Eval.done_bind, hpadding, Eval.done_bind, hfuzzable, Eval.done_bind, hnone,
      Eval.done_bind, hsize, Eval.done_bind, hmaxLen, Eval.done_bind]
    rfl
  · cases hnode

theorem fieldRecipe_random {selection : FieldSelection} {node : Json}
    (hnode : randomNode name value selection = .ok node) :
    context.fieldRecipe node (Text.ofAscii "random") = .done
      ⟨.randomData {
        defaultValue := value.encodeUtf8
        minLength := 0
        maxLength := selection.maxLen
        maxMutations := selection.maxMutations
        step := some 0 }, true, []⟩ := by
  rw [randomNode] at hnode
  split at hnode
  · split at hnode
    · cases hnode
      generalize hrecord : Json.record _ = node
      have hkeys : keys node
          ["type", "name", "value_hex", "min_length", "max_length", "max_mutations", "step",
            "fuzzable", "fuzz_values", "variable"] = .done () := by
        rw [← hrecord]
        exact keys_record (by simp)
      have hstep : context.optionalAs node (Json.toInt context.json.toIntReader) "step" =
          .done none := optionalAs_missing (by simp (disch := decide) [← hrecord])
      have hvalue : context.hex node "value_hex" "" = .done value.encodeUtf8 :=
        hex_field "" (by simp (disch := decide) [← hrecord, Json.hex])
      have hminLength : context.number node "min_length" 0 = .done 0 :=
        number_field _ (by simp (disch := decide) [← hrecord])
      have hmaxLength : context.number node "max_length" 1 = .done selection.maxLen :=
        number_field _ (by simp (disch := decide) [← hrecord])
      have hmaxMutations : context.number node "max_mutations" 25 =
          .done selection.maxMutations :=
        number_field _ (by simp (disch := decide) [← hrecord])
      have hfuzzable : context.boolean node "fuzzable" true = .done true :=
        boolean_field _ (by simp (disch := decide) [← hrecord])
      have hnone : context.hexes node "fuzz_values" = .done [] :=
        hexes_missing (by simp (disch := decide) [← hrecord])
      rw [fieldRecipe, if_neg (by decide), if_neg (by decide), if_neg (by decide),
        if_neg (by decide), if_neg (by decide), if_neg (by decide), if_neg (by decide),
        if_pos rfl, randomRecipe, hkeys, Eval.done_bind, hstep, Eval.done_bind, hvalue,
        Eval.done_bind, hminLength, Eval.done_bind, hmaxLength, Eval.done_bind, hmaxMutations,
        Eval.done_bind, hfuzzable, Eval.done_bind, hnone, Eval.done_bind]
      rfl
    · cases hnode
  · cases hnode

section

variable {context : DefinitionContext} {fuel budget : Nat} {id value : Text} {json : Json}
  {node : Node}

def BuiltBy (context : DefinitionContext) (fuel : Nat) (id : Text) (node : Node)
    (call : FieldCall) : Prop :=
  ∃ checked, call.build (context.fields fuel) true [] = .done checked ∧
    node = .leaf id checked.value.toField

theorem parseNode_built {kind : Text} {call : FieldCall}
    (hparsed : context.parseNode fuel (budget + 1) json = .done node)
    (hshape : FieldShape json kind id)
    (hrecipe : context.fieldRecipe json kind = .done ⟨call, true, []⟩) :
    BuiltBy context fuel id node call := by
  obtain ⟨recipe, checked, hread, hchecked, hnode⟩ := hshape.parseNode.mp hparsed
  rw [hrecipe] at hread
  cases hread
  exact ⟨checked, hchecked, hnode⟩

theorem parseNode_autoText
    (hparsed : context.parseNode fuel (budget + 1) (autoTextNode id value) = .done node) :
    BuiltBy context fuel id node (.text value) :=
  parseNode_built hparsed (shape_autoText id value) (fieldRecipe_autoText context id value)

theorem parseNode_candidates {candidates : List Text}
    (hparsed : context.parseNode fuel (budget + 1) (candidatesNode id value candidates) =
      .done node) :
    BuiltBy context fuel id node
      (.simple value.encodeUtf8 (candidates.map Text.encodeUtf8)) :=
  parseNode_built hparsed (shape_candidates id value candidates)
    (fieldRecipe_candidates context id value candidates)

theorem parseNode_selected {selection : FieldSelection}
    (hemitted : fieldNode id value (some selection) = .ok json)
    (hparsed : context.parseNode fuel (budget + 1) json = .done node) :
    ∃ call checked, selection.call id value = .ok call ∧
      call.build (context.fields fuel) true [] = .done checked ∧
      node = .leaf id checked.value.toField := by
  rw [fieldNode] at hemitted
  rw [FieldSelection.call]
  cases hprimitive : selection.primitive with
  | text =>
      rw [hprimitive] at hemitted
      cases hemitted
      exact ⟨_, (parseNode_autoText hparsed).imp fun _ hbuilt => ⟨rfl, hbuilt⟩⟩
  | integer =>
      rw [hprimitive] at hemitted
      obtain ⟨recipe, checked, hrecipe, hchecked, hnode⟩ :=
        (shape_integer hemitted).parseNode.mp hparsed
      rw [fieldRecipe_integer context id value hemitted] at hrecipe
      obtain ⟨default, hdefault, hdone⟩ := Eval.bind_eq_done_iff.mp hrecipe
      cases hdone
      rw [Read.defined, Eval.mapError_eq_done_iff, Eval.ofExcept_eq_done_iff] at hdefault
      dsimp only
      rw [hdefault]
      exact ⟨_, checked, rfl, hchecked, hnode⟩
  | bytes =>
      rw [hprimitive] at hemitted
      have hbuilt := parseNode_built hparsed (shape_bytes hemitted)
        (fieldRecipe_bytes context id value hemitted)
      exact ⟨_, hbuilt.imp fun _ hbuilt => ⟨rfl, hbuilt⟩⟩
  | randomData =>
      rw [hprimitive] at hemitted
      have hbuilt := parseNode_built hparsed (shape_random hemitted)
        (fieldRecipe_random context id value hemitted)
      exact ⟨_, hbuilt.imp fun _ hbuilt => ⟨rfl, hbuilt⟩⟩
  | candidates =>
      rw [hprimitive] at hemitted
      dsimp only at hemitted ⊢
      rw [candidatesOrAuto] at hemitted
      split at hemitted
      · rename_i hsome
        cases hemitted
        rw [if_pos hsome]
        exact ⟨_, (parseNode_candidates hparsed).imp fun _ hbuilt => ⟨rfl, hbuilt⟩⟩
      · rename_i hnone
        rw [if_neg hnone]
        split at hemitted
        · rename_i hmethod
          cases hemitted
          rw [if_pos hmethod]
          exact ⟨_, (parseNode_candidates hparsed).imp fun _ hbuilt => ⟨rfl, hbuilt⟩⟩
        · rename_i hother
          cases hemitted
          rw [if_neg hother]
          exact ⟨_, (parseNode_autoText hparsed).imp fun _ hbuilt => ⟨rfl, hbuilt⟩⟩

end

end HttpMessage

namespace CheckedField

theorem lt_toField_count {field : CheckedField} {i : Nat} :
    i < field.toField.count ↔ (i : Int) < field.count := Int.lt_toNat

theorem simple_candidate {value : Bytes} {values : List Bytes} {i : Nat}
    (hi : i < (simple value values).value.toField.count) :
    ∃ bytes, (simple value values).value.candidate i = some bytes := by
  have hvalue : (simple value values).value.count = wrap32 (values ++ []).length := by
    rw [simple, ofSaved, counted, if_pos rfl, Flagged.bind_value, Flagged.pure_value]
    dsimp only [Flagged.ofExact]
  rw [lt_toField_count, hvalue] at hi
  have hlength := wrap32_le (Int.natCast_nonneg (values ++ []).length)
  have hbelow : i < (values ++ []).length := by omega
  have hat : at? (values ++ []) (i : Int) = some (values ++ [])[i] := by
    rw [at?_natCast, List.getElem?_eq_getElem hbelow]
  exact ⟨_, hat⟩

theorem Honest.candidate {field : Flagged CheckedField} (hhonest : Honest field) {i : Nat}
    (hi : i < field.value.toField.count)
    (hlength : field.value.toField.candidateLength i ≤ 1048576) :
    ∃ bytes, field.value.candidate i = some bytes := by
  obtain ⟨-, n, hn, hcandidate⟩ := hhonest.2 i (lt_toField_count.mp hi)
  have hfits : n ≤ 1048576 := by
    have hheld : field.value.toField.candidateLength i = n := by
      simp only [toField, hn, Option.getD_some]
    rwa [hheld] at hlength
  obtain ⟨bytes, hbytes, -⟩ := hcandidate (by omega)
  exact ⟨bytes, hbytes⟩

end CheckedField

theorem FieldSelection.call_candidate {selection : FieldSelection} {id value : Text}
    {call : FieldCall} {context : FieldContext} {checked : Flagged CheckedField} {i : Nat}
    (hcall : selection.call id value = .ok call)
    (hchecked : call.build context true [] = .done checked)
    (hi : i < checked.value.toField.count)
    (hlength : checked.value.toField.candidateLength i ≤ 1048576) :
    ∃ bytes, checked.value.candidate i = some bytes := by
  have htext : FieldCall.text value = call →
      ∃ bytes, checked.value.candidate i = some bytes := by
    rintro rfl
    cases hchecked
    exact (CheckedField.honest_text context.library value (by decide)).candidate hi hlength
  have hsimple : ∀ values, FieldCall.simple value.encodeUtf8 values = call →
      ∃ bytes, checked.value.candidate i = some bytes := by
    rintro values rfl
    cases hchecked
    exact CheckedField.simple_candidate hi
  rw [FieldSelection.call] at hcall
  cases hprimitive : selection.primitive with
  | text =>
      rw [hprimitive] at hcall
      exact htext (Except.ok.inj hcall)
  | integer =>
      rw [hprimitive] at hcall
      obtain ⟨default, -, hcall⟩ := exceptBind_eq_ok_iff.mp hcall
      cases hcall
      rw [FieldCall.build, Eval.liftM_eq, Eval.ofExcept_eq_done_iff] at hchecked
      exact (CheckedField.honest_integer hchecked (by decide)).candidate hi hlength
  | bytes =>
      rw [hprimitive] at hcall
      cases hcall
      rw [FieldCall.build, Eval.liftM_eq, Eval.ofExcept_eq_done_iff] at hchecked
      exact (CheckedField.honest_binary hchecked (Nat.zero_le _)).candidate hi hlength
  | randomData =>
      rw [hprimitive] at hcall
      cases hcall
      have hhonest : CheckedField.Honest checked := by
        rw [CheckedField.honest_randomData_iff hchecked (by decide)]
        refine ⟨fun hfull => absurd hfull.1 Int.zero_ne_one, fun _ _ => ?_⟩
        have hupper := selection.maxMutations.toInt_lt
        simpa using hupper
      exact hhonest.candidate hi hlength
  | candidates =>
      rw [hprimitive] at hcall
      dsimp only at hcall
      split at hcall
      · exact hsimple _ (Except.ok.inj hcall)
      · split at hcall
        · exact hsimple _ (Except.ok.inj hcall)
        · exact htext (Except.ok.inj hcall)

end MoonBoofuzz
