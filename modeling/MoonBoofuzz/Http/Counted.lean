import MoonBoofuzz.Definition.Coverage
import MoonBoofuzz.Http.Bounds
import MoonBoofuzz.Http.Rendered

namespace MoonBoofuzz

open CompiledRequest

namespace HttpMessage

/-! How many slots a message has. -/

theorem eolSlots_length (message : HttpMessage) (i : Nat) (present : Bool) :
    (message.eolSlots i present).length ≤ 1 := by
  cases present <;> simp [eolSlots]

theorem headerSlots_length (message : HttpMessage) (items : List (HttpHeader × Nat)) :
    (items.flatMap message.headerSlots).length ≤ 3 * items.length := by
  induction items with
  | nil => exact Nat.le_refl _
  | cons item rest ih =>
      have heol := message.eolSlots_length (item.2 + 1)
        (message.terminator.isSome || item.2 + 1 < message.headers.length || message.finalEol)
      rw [List.flatMap_cons, List.length_append, headerSlots, List.length_append]
      simp only [List.length_cons, List.length_nil]
      omega

theorem slots_length (message : HttpMessage) :
    message.slots.length ≤ 3 * message.headers.length + 8 := by
  have heol := message.eolSlots_length 0
    (message.headers ≠ [] || message.terminator.isSome || message.finalEol)
  have hheaders := message.headerSlots_length message.headers.zipIdx
  have hbody : message.bodySlots.length ≤ 2 := by
    rw [bodySlots]
    split
    · exact Nat.zero_le _
    · exact Nat.le_refl _
  rw [List.length_zipIdx] at hheaders
  simp only [slots, List.length_append, List.length_cons, List.length_nil]
  omega

section

variable {context : FieldContext} {message : HttpMessage} {choice : Choice}
  {request : CompiledRequest}

theorem Hosts.stop {parent start stop : Nat} {children : List Nat}
    (hforest : Forest request parent start children stop)
    (hhosted : ∀ index ∈ children, ∃ slot, Hosts context choice request slot index) :
    stop ≤ start + 2 * children.length := by
  induction hforest with
  | nil _ _ => omega
  | leaf _ _ _ ih =>
      have hrest := ih fun index hmem => hhosted index (List.mem_cons_of_mem _ hmem)
      rw [List.length_cons]
      omega
  | @block _ start middle _ _ _ _ hkind hinner _ _ ih =>
      obtain ⟨slot, hhosts⟩ := hhosted start List.mem_cons_self
      obtain ⟨leaf, field, hleaf, rfl⟩ := hhosts.only hkind
      have hmiddle : middle = start + 2 := by
        cases hinner with
        | leaf _ _ hnone =>
            cases hnone
            rfl
        | block _ hother _ _ =>
            rw [hleaf] at hother
            cases hother
      have hrest := ih fun index hmem => hhosted index (List.mem_cons_of_mem _ hmem)
      rw [List.length_cons]
      omega

theorem Laid.entries (hlaid : Laid context message choice request) :
    request.entries.length ≤ 2 * message.slots.length + 1 := by
  obtain ⟨indices, -, hforest, hhosted⟩ := hlaid.hosted
  have hstop := Hosts.stop hforest fun index hmem => by
    obtain ⟨slot, -, hhosts⟩ := forall₂_of_mem_right hhosted hmem
    exact ⟨slot, hhosts⟩
  rw [← hhosted.length_eq] at hstop
  omega

theorem Laid.count_lt (hlaid : Laid context message choice request) (index : Nat) :
    (request.kind index).count < 2147483648 := by
  by_cases hcount : 0 < (request.kind index).count
  · obtain ⟨id, value, _, field, selection, -, -, hcarries, hlookup, hfills⟩ :=
      hlaid.mutated hcount
    obtain ⟨call, checked, -, hchecked, rfl⟩ := hfills.selected selection hlookup
    have hbuilt := FieldCall.build_count_lt hchecked
    rw [hcarries.kind]
    simp only [EntryKind.count, CheckedField.toField]
    omega
  · omega

theorem choicesFrom_length {bound : Nat} (hcount : ∀ index, (request.kind index).count ≤ bound)
    (start count : Nat) : (request.choicesFrom start count).length ≤ count * bound := by
  induction count generalizing start with
  | zero => exact Nat.zero_le _
  | succ count ih =>
      have hrest := ih (start + 1)
      have hhere := hcount start
      rw [choicesFrom_succ, List.length_append, candidatesOf, List.length_map, List.length_range,
        Nat.succ_mul]
      omega

end

theorem Converted.candidates {context : FieldContext} {message : HttpMessage}
    {choice : Choice} {nodes : List Node} {request : CompiledRequest}
    (hconverted : Converted context message choice nodes request) :
    request.candidates .sequential = request.choices.map fun choice => [choice] := by
  have hlaid := hconverted.laid
  obtain ⟨fuel, hdone⟩ := hconverted.compiled
  apply candidates_groupFree (compile_eq_done hdone).assembled
  intro entry hmem
  obtain ⟨index, hindex, rfl⟩ := List.mem_iff_getElem.mp hmem
  have hopen := hlaid.open' index
  rw [(entry_eq_of_getElem? (List.getElem?_eq_getElem hindex)).1] at hopen
  exact hopen.group

theorem Converted.total {context : FieldContext} {source : Text} {message : HttpMessage}
    {choice : Choice} {nodes : List Node} {request : CompiledRequest}
    (hparse : parse source = .ok message)
    (hconverted : Converted context message choice nodes request) :
    totalCount (singleDefinition request) = (request.candidates .sequential).length := by
  have hlaid := hconverted.laid
  have hheaders := (parse_held hparse).headers
  have hslots := message.slots_length
  have hentries := hlaid.entries
  have hchoices := choicesFrom_length (fun index => Nat.le_of_lt (hlaid.count_lt index)) 0
    request.entries.length
  have hlength : (request.candidates .sequential).length = request.choices.length := by
    rw [hconverted.candidates, List.length_map]
  have hsmall : (request.candidates .sequential).length < 9223372036854775808 := by
    rw [hlength, choices]
    simp only [httpgenLimit] at hheaders
    omega
  have hraw := Enumerates.rawMutationCount (request.candidates_drains .sequential) hsmall
  have hfold : totalCount (singleDefinition request) = wrap64 (0 + request.rawMutationCount) :=
    rfl
  rw [hfold, hraw, Int.zero_add]
  exact wrap64_eq_self (by omega) (by omega)

theorem Converted.count {context : FieldContext} {source : Text} {message : HttpMessage}
    {choice : Choice} {nodes : List Node} {request : CompiledRequest}
    (hparse : parse source = .ok message)
    (hconverted : Converted context message choice nodes request)
    (htotal : totalCount (singleDefinition request) ≤ 2147483647) :
    wrap32 (totalCount (singleDefinition request)) =
      (request.candidates .sequential).length := by
  rw [hconverted.total hparse] at htotal ⊢
  exact wrap32_eq_self (by omega) (by omega)

end HttpMessage

end MoonBoofuzz
