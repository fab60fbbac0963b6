import MoonBoofuzz.Definition.Identity
import MoonBoofuzz.Http.Defaults

namespace MoonBoofuzz

open CompiledRequest ProtocolDefinition

namespace HttpMessage

/-- The case puts one candidate of an entry in the place of its value. -/
structure Emitted (request : CompiledRequest) (leaf i : Nat) (parts : List (Text × Nat))
    (payload : Bytes) : Prop where
  named : parts = [request.named (leaf, i)]
  count : i < (request.kind leaf).count
  fits : ∀ field, request.kind leaf = .atom field →
    field.candidateLength i ≤ request.maxBytes.val
  replacements : request.caseReplacements parts = .ok (request.partReplacements [(leaf, i)])
  renders : request.Renders (request.partReplacements [(leaf, i)]) 0 payload

theorem Converted.emitted {context : FieldContext} {message : HttpMessage} {choice : Choice}
    {nodes : List Node} {request : CompiledRequest} {σ : Type}
    {emit : σ → GeneratedCase → Except GenerateError Bool × σ} {start limit : Int32}
    {fuel : Nat} {state : σ} {item : GeneratedCase}
    (hconverted : Converted context message choice nodes request)
    (hitem : item ∈ ((singleDefinition request).generate (logging emit) start limit
      .sequential fuel (state, [])).2.2) :
    ∃ leaf i, Emitted request leaf i item.case.parts item.case.payload := by
  obtain ⟨path, hpath, case, hhands, position, parts, hparts, hbuild⟩ :=
    generate_originates hitem
  obtain rfl : path = ⟨[request], [none]⟩ := List.mem_singleton.mp hpath
  have htarget : (SessionPath.mk [request] [none] : SessionPath Unit).target = request := rfl
  rw [htarget] at hparts hbuild
  rw [hconverted.candidates] at hparts
  obtain ⟨⟨leaf, i⟩, hchoice, rfl⟩ := List.mem_map.mp hparts
  obtain ⟨entry, -, hof⟩ := List.mem_flatMap.mp hchoice
  obtain ⟨index, hindex, hsame⟩ := List.mem_map.mp hof
  cases hsame
  have hcount : i < (request.kind leaf).count := List.mem_range.mp hindex
  obtain ⟨hnamed, hfits, hrenders⟩ := single_case hbuild
  obtain ⟨hcaseParts, hpayload⟩ := hhands.case
  have hinside : ∀ part ∈ [(leaf, i)], part.1 < request.entries.length := by
    intro part hmem
    rw [List.mem_singleton.mp hmem]
    exact lt_of_count hcount
  rw [hcaseParts, hpayload, hnamed]
  exact ⟨leaf, i, {
    named := rfl
    count := hcount
    fits := hfits
    replacements := caseReplacements_named hconverted.laid.table hinside
    renders := hrenders }⟩

section

variable {context : FieldContext} {message : HttpMessage} {choice : Choice}
  {request : CompiledRequest} {leaf i : Nat} {parts : List (Text × Nat)} {payload : Bytes}

theorem Emitted.candidates (hemitted : Emitted request leaf i parts payload) :
    CandidateReplacements request (request.partReplacements [(leaf, i)]) := by
  intro pair hmem
  rw [List.mem_singleton.mp hmem]
  exact ⟨i, hemitted.count, rfl⟩

/-- Every slot contributes something. -/
theorem Laid.contributed (hlaid : Laid context message choice request)
    {replacements : Replacements} (hcandidates : CandidateReplacements request replacements)
    (hreplacements : request.caseReplacements parts = .ok replacements)
    (hrenders : request.Renders replacements 0 payload) {slot : HttpSlot}
    (hslot : slot ∈ message.slots) :
    ∃ index bytes, Hosts context choice request slot index ∧
      request.Renders replacements index bytes ∧
      request.Contributes parts (childPath request.name slot.name) bytes := by
  obtain ⟨pieces, hpieces, -⟩ := hlaid.pieces hcandidates hreplacements hrenders
  obtain ⟨bytes, -, hcontributes⟩ := forall₂_of_mem_left hpieces hslot
  obtain ⟨indices, -, -, hhosted⟩ := hlaid.hosted
  obtain ⟨index, -, hhosts⟩ := forall₂_of_mem_left hhosted hslot
  refine ⟨index, bytes, hhosts, ?_, hcontributes⟩
  obtain ⟨index', replacements', hresolve, hsame, hbytes⟩ := hcontributes
  rw [hhosts.resolve hlaid.toDrafted] at hresolve
  rw [hreplacements] at hsame
  cases hresolve
  cases hsame
  exact hbytes

theorem Laid.keeps (hlaid : Laid context message choice request)
    {replacements : Replacements} (hcandidates : CandidateReplacements request replacements)
    (hreplacements : request.caseReplacements parts = .ok replacements)
    (hrenders : request.Renders replacements 0 payload) {slot : HttpSlot}
    (hslot : slot ∈ message.slots) (huntouched : choice.Untouched slot) :
    request.Contributes parts (childPath request.name slot.name) slot.content.encodeUtf8 := by
  obtain ⟨index, bytes, hhosts, hbytes, hcontributes⟩ :=
    hlaid.contributed hcandidates hreplacements hrenders hslot
  rwa [hlaid.untouched hcandidates hhosts huntouched hbytes] at hcontributes

/-- The automatic length states the bytes of the body. -/
theorem Laid.measures (hlaid : Laid context message choice request)
    {replacements : Replacements} (hcandidates : CandidateReplacements request replacements)
    (hreplacements : request.caseReplacements parts = .ok replacements)
    (hrenders : request.Renders replacements 0 payload) {id value body : Text}
    (hlength : choice.length = some id) (hheader : .segment id value ∈ message.slots)
    (hbody : .segment (Text.ofAscii "body") body ∈ message.slots) :
    ∃ bytes, request.Contributes parts
        (childPath request.name (Text.ofAscii "body")) bytes ∧
      request.Contributes parts (childPath request.name id) (Bytes.decimal bytes.length) := by
  obtain ⟨index, content, hhosts, hcontent, hstates⟩ :=
    hlaid.contributed hcandidates hreplacements hrenders hheader
  obtain ⟨target, bytes, htarget, hbytes, hcontributes⟩ :=
    hlaid.contributed hcandidates hreplacements hrenders hbody
  refine ⟨bytes, hcontributes, ?_⟩
  rwa [hlaid.length hcandidates hlength hhosts htarget hcontent hbytes] at hstates

theorem Laid.mutates (hlaid : Laid context message choice request)
    (hemitted : Emitted request leaf i parts payload) :
    ∃ id value selection call checked candidate, .segment id value ∈ message.slots ∧
      choice.chosen.lookup id = some selection ∧ selection.call id value = .ok call ∧
      call.build context true [] = .done checked ∧
      checked.value.candidate i = some candidate ∧
      request.kind leaf = .atom checked.value.toField ∧
      request.Contributes parts (childPath request.name id) candidate := by
  obtain ⟨id, value, index, field, selection, hslot, hhosts, hcarries, hlookup, hfills⟩ :=
    hlaid.mutated hemitted.count
  obtain ⟨call, checked, hcall, hchecked, rfl⟩ := hfills.selected selection hlookup
  have hcount := hemitted.count
  have hfits := hemitted.fits _ hcarries.kind
  rw [hcarries.kind] at hcount
  rw [hlaid.maxBytes] at hfits
  obtain ⟨candidate, hcandidate⟩ := FieldSelection.call_candidate hcall hchecked hcount hfits
  refine ⟨id, value, selection, call, checked, candidate, hslot, hlookup, hcall, hchecked,
    hcandidate, hcarries.kind, ?_⟩
  obtain ⟨index', bytes, hhosts', hbytes, hcontributes⟩ :=
    hlaid.contributed hemitted.candidates hemitted.replacements hemitted.renders hslot
  have hsame := hhosts.resolve hlaid.toDrafted
  rw [hhosts'.resolve hlaid.toDrafted] at hsame
  cases hsame
  have hvalue : bytes = candidate := by
    rw [hlaid.rendered hemitted.candidates hcarries hbytes]
    have hlookup : (request.partReplacements [(leaf, i)]).lookup leaf =
        some ((request.kind leaf).candidate i) := by
      simp [partReplacements, Replacements.lookup]
    rw [hlookup, Option.getD_some, hcarries.kind]
    change (checked.value.candidate i).getD [] = candidate
    rw [hcandidate, Option.getD_some]
  rwa [hvalue] at hcontributes

end

/-- The header is the only content length of a message with a body, and not selected. -/
structure FollowsBody (message : HttpMessage) (selections : List FieldSelection) (i : Nat) :
    Prop where
  declares : message.DeclaresLength i
  terminated : message.terminator.isSome
  unselected : ∀ selection ∈ selections, selection.id ≠ Text.indexed "hdr_" i

/-- A structural text, or a segment that is not selected and does not follow the body. -/
def Frozen (message : HttpMessage) (selections : List FieldSelection) : HttpSlot → Prop
  | .structural _ _ => True
  | .segment id _ => (∀ selection ∈ selections, selection.id ≠ id) ∧
      ∀ i, message.FollowsBody selections i → id ≠ Text.indexed "hdr_" i

section

variable {message : HttpMessage} {selections : List FieldSelection} {chosen : Chosen}
  {requestName : Text}

theorem FollowsBody.length (hchosen : selections.foldlM message.choose [] = .ok chosen)
    {i : Nat} (hfollows : message.FollowsBody selections i) :
    (message.choiceOf chosen requestName).length = some (Text.indexed "hdr_" i) :=
  length_choiceOf.mpr ⟨i, rfl, hfollows.declares, hfollows.terminated,
    (lookup_none_iff hchosen).mpr hfollows.unselected⟩

theorem Frozen.untouched (hchosen : selections.foldlM message.choose [] = .ok chosen)
    {slot : HttpSlot} (hfrozen : message.Frozen selections slot) :
    (message.choiceOf chosen requestName).Untouched slot := by
  cases slot with
  | structural name content => exact True.intro
  | segment id value =>
      obtain ⟨hunselected, hfollows⟩ := hfrozen
      refine ⟨(lookup_none_iff hchosen).mpr hunselected, fun hlength => ?_⟩
      obtain ⟨i, rfl, hdeclares, hterminated, hnone⟩ := length_choiceOf.mp hlength
      exact hfollows i ⟨hdeclares, hterminated, (lookup_none_iff hchosen).mp hnone⟩ rfl

theorem Frozen.nil {slot : HttpSlot} (hfrozen : message.Frozen selections slot) :
    message.Frozen [] slot := by
  cases slot with
  | structural name content => exact True.intro
  | segment id value =>
      obtain ⟨hunselected, hfollows⟩ := hfrozen
      refine ⟨fun selection hmem => (List.not_mem_nil hmem).elim, ?_⟩
      rintro i ⟨hdeclares, hterminated, -⟩ rfl
      exact hfollows i ⟨hdeclares, hterminated, hunselected⟩ rfl

end

/-- A run of `generate` hands out the case, whatever its callback answers. -/
def EmitsCase (request : CompiledRequest) (case : MutationCase) : Prop :=
  ∃ (σ : Type) (emit : σ → GeneratedCase → Except GenerateError Bool × σ)
    (start limit : Int32) (fuel : Nat) (state : σ),
    ∃ item ∈ ((singleDefinition request).generate (logging emit) start limit .sequential fuel
      (state, [])).2.2, item.case = case

/-- The bytes that a slot contributes to a case. -/
def SlotSends (request : CompiledRequest) (parts : List (Text × Nat)) (slot : HttpSlot)
    (bytes : Bytes) : Prop :=
  request.Contributes parts (childPath request.name slot.name) bytes

/-- One case beside the default rendering of the same message without selections. -/
structure MutatesSelected (context : FieldContext) (message : HttpMessage)
    (selections : List FieldSelection) (request plain : CompiledRequest)
    (case : MutationCase) : Prop where
  slots : ∃ pieces, List.Forall₂ (SlotSends request case.parts) message.slots pieces ∧
    case.payload = pieces.flatten
  default : ∃ pieces, List.Forall₂ (SlotSends plain []) message.slots pieces ∧
    Eval.Returns plain.render pieces.flatten
  frozen : ∀ slot ∈ message.slots, message.Frozen selections slot →
    SlotSends request case.parts slot slot.content.encodeUtf8 ∧
      SlotSends plain [] slot slot.content.encodeUtf8
  mutated : ∃ selection ∈ selections, ∃ value leaf i call field candidate,
    .segment selection.id value ∈ message.slots ∧ case.parts = [request.named (leaf, i)] ∧
      selection.kept.call selection.id value = .ok call ∧
      call.build context true [] = .done field ∧
      request.kind leaf = .atom field.value.toField ∧
      field.value.candidate i = some candidate ∧
      SlotSends request case.parts (.segment selection.id value) candidate
  length : ∀ i, message.FollowsBody selections i → ∃ value bytes,
    .segment (Text.indexed "hdr_" i) value ∈ message.slots ∧
      SlotSends request case.parts (.segment (Text.ofAscii "body") message.body) bytes ∧
      SlotSends request case.parts (.segment (Text.indexed "hdr_" i) value)
        (Bytes.decimal bytes.length)

theorem candidates_none (request : CompiledRequest) : CandidateReplacements request [] :=
  fun _ hmem => (List.not_mem_nil hmem).elim

theorem replacements_none (request : CompiledRequest) : request.caseReplacements [] = .ok [] :=
  rfl

section

variable {context context' : FieldContext} {message : HttpMessage}
  {selections : List FieldSelection} {chosen : Chosen} {requestName requestName' : Text}
  {nodes nodes' : List Node} {request plain : CompiledRequest}

theorem Converted.default {choice : Choice}
    (hconverted : Converted context message choice nodes request) :
    ∃ pieces, List.Forall₂ (SlotSends request []) message.slots pieces ∧
      Eval.Returns request.render pieces.flatten := by
  obtain ⟨fuel, hdone⟩ := hconverted.compiled
  obtain ⟨payload, hrender⟩ := (compile_eq_done hdone).rendered
  obtain ⟨pieces, hpieces, rfl⟩ :=
    hconverted.laid.pieces (candidates_none request) (replacements_none request)
      ⟨fuel, hrender⟩
  exact ⟨pieces, hpieces, fuel, hrender⟩

theorem Converted.keeps {choice : Choice}
    (hconverted : Converted context message choice nodes request) {slot : HttpSlot}
    (hslot : slot ∈ message.slots) (huntouched : choice.Untouched slot) :
    SlotSends request [] slot slot.content.encodeUtf8 := by
  obtain ⟨pieces, -, hrender⟩ := hconverted.default
  exact hconverted.laid.keeps (candidates_none request) (replacements_none request) hrender
    hslot huntouched

theorem Converted.mutatesSelected
    (hchosen : selections.foldlM message.choose [] = .ok chosen)
    (hconverted : Converted context message (message.choiceOf chosen requestName) nodes request)
    (hplain : Converted context' message (message.choiceOf [] requestName') nodes' plain)
    {case : MutationCase} (hemits : EmitsCase request case) :
    MutatesSelected context message selections request plain case := by
  obtain ⟨σ, emit, start, limit, fuel, state, item, hitem, rfl⟩ := hemits
  obtain ⟨leaf, i, hemitted⟩ := hconverted.emitted hitem
  have hlaid := hconverted.laid
  constructor
  · exact hlaid.pieces hemitted.candidates hemitted.replacements hemitted.renders
  · exact hplain.default
  · intro slot hslot hfrozen
    exact ⟨hlaid.keeps hemitted.candidates hemitted.replacements hemitted.renders hslot
      (hfrozen.untouched hchosen), hplain.keeps hslot (hfrozen.nil.untouched rfl)⟩
  · obtain ⟨id, value, kept, call, field, candidate, hslot, hlookup, hcall, hfield, hcandidate,
      hkind, hsends⟩ := hlaid.mutates hemitted
    obtain ⟨selection, hselection, rfl, rfl⟩ := lookup_some hchosen hlookup
    exact ⟨selection, hselection, value, leaf, i, call, field, candidate, hslot,
      hemitted.named, hcall, hfield, hkind, hcandidate, hsends⟩
  · intro i hfollows
    obtain ⟨value, hheader⟩ := hfollows.declares.slot
    obtain ⟨bytes, hbody, hlength⟩ := hlaid.measures hemitted.candidates
      hemitted.replacements hemitted.renders (hfollows.length hchosen) hheader
      (body_slot hfollows.terminated)
    exact ⟨value, bytes, hheader, hbody, hlength⟩

end

end HttpMessage

/-- The text of the result is read as the definition of this request. -/
def ConvertResult.Defines (converter : HttpMessage.Converter) (result : ConvertResult) (fuel : Nat)
    (request : CompiledRequest) : Prop :=
  ProtocolDefinition.parse converter.toDefinitionContext result.definitionText fuel =
    .done (HttpMessage.singleDefinition request)

namespace HttpMessage

/-- Every case of a converted message mutates one selected segment; what is not selected stays
as it is without selections, and the automatic length follows the body. -/
theorem toDefinition_mutates_selected {converter : Converter} {source : Text}
    {message : HttpMessage} {selections : List FieldSelection} {options : ConvertOptions}
    {fuel : Nat} {result : ConvertResult} (hparse : parse source = .ok message)
    (hkept : ∀ selected ∈ [selections, []], ∀ json, message.emit selected options = .ok json →
      converter.json.parse (converter.json.stringify json) = .ok json)
    (hconvert : toDefinition converter message selections options fuel = .done result) :
    ∃ request, result.Defines converter fuel request ∧
      result.caseCount = (request.candidates .sequential).length ∧
      (∃ plain, Eval.Returns (toDefinition converter message [] options) plain) ∧
      ∀ (plainFuel : Nat) (plainResult : ConvertResult),
        toDefinition converter message [] options plainFuel = .done plainResult →
          ∃ plain, plainResult.Defines converter plainFuel plain ∧
            ∀ case, EmitsCase request case →
              MutatesSelected (converter.fields fuel) message selections request plain case := by
  obtain ⟨chosen, nodes, request, haccepted⟩ :=
    toDefinition_accepted (hkept selections List.mem_cons_self) hconvert
  refine ⟨request, haccepted.parsed, ?_, toDefinition_unselected hparse hkept hconvert, ?_⟩
  · rw [haccepted.caseCount]
    exact haccepted.converted.count hparse haccepted.total
  · intro plainFuel plainResult hplain
    obtain ⟨chosen', nodes', plain, haccepted'⟩ :=
      toDefinition_accepted (hkept [] (List.mem_cons_of_mem _ List.mem_cons_self)) hplain
    have hnone : chosen' = [] := chosen_eq haccepted'.selected
    have hconverted := haccepted'.converted
    rw [hnone] at hconverted
    exact ⟨plain, haccepted'.parsed, fun case hemits =>
      haccepted.converted.mutatesSelected haccepted.selected hconverted hemits⟩

/-- A message with a body after its own `Content-Length`. -/
def lengthSource : Text := Text.ofAscii "P / H\nContent-Length: 1\n\nx"

def lengthMessage : HttpMessage where
  verb := Text.ofAscii "P"
  uri := Text.ofAscii "/"
  version := Text.ofAscii "H"
  headers := [⟨Text.ofAscii "Content-Length", Text.ofAscii " ", Text.ofAscii "1"⟩]
  body := Text.ofAscii "x"
  hasBody := true
  finalEol := false
  eol := Text.ofAscii "\n"
  terminator := some (Text.ofAscii "\n\n")

def bodySelection : FieldSelection where
  id := Text.ofAscii "body"
  primitive := .candidates
  width := 8
  endian := []
  maxLen := 0
  maxMutations := 0
  candidates := [Text.ofAscii "ab"]

def localOptions : ConvertOptions where
  requestName := Text.ofAscii "r"
  host := []
  port := 80
  policyKind := Text.ofAscii "none"
  fixedLength := 0
  caseLimit := 0

def lengthConverter : Converter where
  json := .standard
  toDouble := fun _ => none
  library := plainContext.library
  arithmetic := plainContext.arithmetic
  debug := fun _ => []

def lengthPreview : Bytes := (Text.ofAscii "P / H\nContent-Length: 2\n\nab").encodeUtf8

def previewed (answer : Eval HttpGenError ConvertResult) (payloads : List Bytes) : Bool :=
  match answer with
  | .done result => decide (result.previews = payloads)
  | _ => false

theorem lengthSource_parses : parse lengthSource = .ok lengthMessage := by decide +kernel

theorem lengthMessage_previewed : previewed (toDefinition lengthConverter lengthMessage
    [bodySelection] localOptions 24) [lengthPreview] = true := by
  decide +kernel

/-- Its one case sends the candidate after the length of the candidate. -/
theorem lengthMessage_mutates_selected : ∃ result,
    toDefinition lengthConverter lengthMessage [bodySelection] localOptions 24 = .done result ∧
      result.previews = [lengthPreview] ∧
      ∃ request, result.Defines lengthConverter 24 request ∧
        result.caseCount = (request.candidates .sequential).length ∧
        (∃ plain, Eval.Returns (toDefinition lengthConverter lengthMessage [] localOptions)
          plain) ∧
        ∀ (plainFuel : Nat) (plainResult : ConvertResult),
          toDefinition lengthConverter lengthMessage [] localOptions plainFuel =
              .done plainResult →
            ∃ plain, plainResult.Defines lengthConverter plainFuel plain ∧
              ∀ case, EmitsCase request case →
                MutatesSelected (lengthConverter.fields 24) lengthMessage [bodySelection]
                  request plain case := by
  have hpreviewed := lengthMessage_previewed
  cases hconvert : toDefinition lengthConverter lengthMessage [bodySelection] localOptions 24 with
  | done result =>
    rw [hconvert] at hpreviewed
    exact ⟨result, rfl, of_decide_eq_true hpreviewed,
      toDefinition_mutates_selected lengthSource_parses (fun _ _ _ hemit => emit_kept hemit)
        hconvert⟩
  | raised error =>
    rw [hconvert] at hpreviewed
    cases hpreviewed
  | pending =>
    rw [hconvert] at hpreviewed
    cases hpreviewed

end HttpMessage

end MoonBoofuzz
