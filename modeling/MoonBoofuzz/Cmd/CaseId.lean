import MoonBoofuzz.Data.Characters
import MoonBoofuzz.Definition.Identity
import MoonBoofuzz.Model.Listing

namespace MoonBoofuzz

open Text

namespace Cmd

/-- `text[start:]`; the program stops at an offset beyond the end or between the halves of
a surrogate pair. -/
def sliceFrom (text : Text) (start : Nat) : Option Text :=
  if text.length < start ∨ (text.drop start).head?.any isTrailing then none
  else some (text.drop start)

/-- The loop over the characters of an identity: `cut` is the number of characters before the
last slash. -/
def lastSlash (cut : Int) (index : Nat) : Text → Int
  | [] => cut
  | [unit] => if unit = slash then index else cut
  | first :: second :: rest =>
      if isLeading first && isTrailing second then lastSlash cut (index + 1) rest
      else lastSlash (if first = slash then index else cut) (index + 1) (second :: rest)

def innerCaseId (id : Text) : Option Text :=
  if id.hasPrefix (ofAscii "v1:") then some id
  else
    let cut := lastSlash (-1) 0 id
    if 0 ≤ cut then sliceFrom id (cut + 1).toNat else some id

theorem lastSlash_cons_whole {unit : UInt16} (hwhole : IsWhole unit) (cut : Int) (index : Nat)
    (rest : Text) :
    lastSlash cut index (unit :: rest) =
      lastSlash (if unit = slash then (index : Int) else cut) (index + 1) rest := by
  cases rest with
  | nil => rfl
  | cons second rest => rw [lastSlash, hwhole.1, Bool.false_and, if_neg Bool.false_ne_true]

theorem lastSlash_free {text : Text} (hfree : slash ∉ text) (cut : Int) (index : Nat) :
    lastSlash cut index text = cut := by
  induction text using charLength.induct generalizing cut index with
  | case1 => rfl
  | case2 unit =>
      have hunit : unit ≠ slash := fun hslash => hfree (by simp [hslash])
      rw [lastSlash, if_neg hunit]
  | case3 first second rest hpair ih =>
      rw [lastSlash, if_pos hpair]
      exact ih (fun hmem => hfree (by simp [hmem])) cut (index + 1)
  | case4 first second rest hpair ih =>
      have hfirst : first ≠ slash := fun hslash => hfree (by simp [hslash])
      rw [lastSlash, if_neg hpair, if_neg hfirst]
      exact ih (fun hmem => hfree (List.mem_cons_of_mem _ hmem)) cut (index + 1)

/-- The last slash is found by the number of characters before it. -/
theorem lastSlash_append {front rest : Text} (hfront : slash ∉ front) (hrest : slash ∉ rest)
    (cut : Int) (index : Nat) :
    lastSlash cut index (front ++ slash :: rest) = index + charLength front := by
  have hwhole : IsWhole slash := by decide
  induction front using charLength.induct generalizing cut index with
  | case1 =>
      rw [List.nil_append, lastSlash_cons_whole hwhole, if_pos rfl, lastSlash_free hrest,
        charLength]
      omega
  | case2 unit =>
      rw [List.singleton_append, lastSlash, hwhole.2, Bool.and_false,
        if_neg Bool.false_ne_true, lastSlash_cons_whole hwhole, if_pos rfl,
        lastSlash_free hrest, charLength]
      omega
  | case3 first second front hpair ih =>
      rw [List.cons_append, List.cons_append, lastSlash, if_pos hpair,
        ih (fun hmem => hfront (by simp [hmem])), charLength, if_pos hpair]
      omega
  | case4 first second front hpair ih =>
      rw [List.cons_append, List.cons_append, lastSlash, if_neg hpair, ← List.cons_append,
        ih (fun hmem => hfront (List.mem_cons_of_mem _ hmem)), charLength, if_neg hpair]
      omega

theorem innerCaseId_inner {id : Text} (hid : ofAscii "v1:" <+: id) : innerCaseId id = some id := by
  rw [innerCaseId, hasPrefix, if_pos (decide_eq_true hid)]

/-- Behind a JSON text without slashes the inner identity is found exactly if that text has
no surrogate pairs. -/
theorem innerCaseId_qualified {front inner : Text} (hfront : slash ∉ front)
    (hplain : ¬ofAscii "v1:" <+: front ++ slash :: inner) (hinner : slash ∉ inner)
    (hhead : inner.head?.any isTrailing = false) :
    innerCaseId (front ++ slash :: inner) = some inner ↔ hasPair front = false := by
  have hcut : lastSlash (-1) 0 (front ++ slash :: inner) = charLength front := by
    rw [lastSlash_append hfront hinner]
    simp
  have hle := charLength_le front
  rw [innerCaseId, hasPrefix, if_neg (by simpa using hplain)]
  simp only [hcut]
  rw [if_pos (by omega), ← charLength_eq_length_iff]
  have hstart : ((charLength front : Int) + 1).toNat = charLength front + 1 := by omega
  rw [hstart, sliceFrom]
  constructor
  · intro hslice
    split at hslice
    · cases hslice
    · have hlength := congrArg List.length (Option.some.inj hslice)
      rw [List.length_drop, List.length_append, List.length_cons] at hlength
      omega
  · intro hequal
    have hdrop : (front ++ slash :: inner).drop (charLength front + 1) = inner := by
      rw [hequal, ← List.drop_drop, List.drop_left]
      rfl
    rw [hdrop, hhead, if_neg]
    rw [List.length_append, List.length_cons]
    simp
    omega

section

open CompiledRequest ProtocolDefinition

variable {request : CompiledRequest}

theorem slash_notMem_name {name : Text} (hname : validName name = true) : slash ∉ name :=
  (of_decide_eq_true hname).2.2.1

theorem slash_notMem_path (htable : Table request) (index : Nat) :
    slash ∉ (request.entry index).path := by
  by_cases hindex : index < request.entries.length
  · exact htable.notMem (by decide) slash_notMem_name index hindex
  · rw [entry_of_le (Nat.not_lt.mp hindex)]
    exact List.not_mem_nil

theorem mem_join {separator : Text} {items : List Text} {unit : UInt16}
    (hmem : unit ∈ join separator items) : unit ∈ separator ∨ ∃ item ∈ items, unit ∈ item := by
  induction items using join.induct with
  | case1 => cases hmem
  | case2 item => exact .inr ⟨item, List.mem_singleton_self item, hmem⟩
  | case3 item rest hrest ih =>
      rw [join, List.mem_append, List.mem_append] at hmem
      · rcases hmem with (hitem | hseparator) | hlater
        · exact .inr ⟨item, List.mem_cons_self, hitem⟩
        · exact .inl hseparator
        · rcases ih hlater with hseparator | ⟨other, hother, hunit⟩
          · exact .inl hseparator
          · exact .inr ⟨other, List.mem_cons_of_mem _ hother, hunit⟩
      · exact hrest

theorem slash_notMem_id (htable : Table request) (parts : Parts) :
    slash ∉ request.caseId parts := by
  rw [CompiledRequest.caseId, List.mem_append, not_or]
  refine ⟨by decide, fun hmem => ?_⟩
  rcases mem_join hmem with hplus | ⟨key, hkey, hslash⟩
  · exact absurd hplus (by decide)
  · obtain ⟨part, -, rfl⟩ := List.mem_map.mp hkey
    rw [partKey, List.mem_append, List.mem_append] at hslash
    rcases hslash with (hpath | hcolon) | hdecimal
    · exact slash_notMem_path htable part.1 hpath
    · exact absurd hcolon (by decide)
    · exact notMem_decimal (Or.inl (by decide)) part.2 hdecimal

theorem compiled_validName {root : Block} {maxBytes : Int32} {fuel : Nat}
    (hcompiled : Compiled root maxBytes fuel request) : validName request.name = true := by
  obtain ⟨index, hadd⟩ := hcompiled.assembled.added
  obtain ⟨name, children, condition, alignment, group⟩ := root
  obtain ⟨-, registered, -, -, hregister, -⟩ := addNode_nested hadd
  rw [hcompiled.assembled.name]
  exact (registerNode_eq_ok hregister).1

/-- Both printed forms lead to the inner identity. -/
def Resolves (item : GeneratedCase) : Prop :=
  innerCaseId item.caseId = some item.case.id ∧ innerCaseId item.case.id = some item.case.id

section

variable {κ σ : Type}

/-- Whatever is emitted resolves exactly if no name on its path has a surrogate pair. -/
theorem generate_resolves_iff {description : Description} {definition : ProtocolDefinition κ}
    (hparse : Eval.Returns (assemble description) definition)
    (emit : σ → GeneratedCase → Except GenerateError Bool × σ) (start limit : Int32)
    (mode : Mode) (fuel : Nat) (state : σ) (item : GeneratedCase)
    (hitem : item ∈
      (definition.generate (logging emit) start limit mode fuel (state, [])).2.2) :
    ∃ path ∈ definition.paths, item.path = path.names ∧
      (Resolves item ↔ ∀ request ∈ path.requests, hasPair request.name = false) := by
  have hparsed := assemble_parsed hparse
  obtain ⟨path, hpath, case, hhands, values, parts, -, -, -, hbuild⟩ := generate_hands hitem
  obtain ⟨hsame, ordinal, hcase⟩ := hhands.item
  obtain ⟨hne, hrequests⟩ := hparsed.requests path hpath
  have hnames : ∀ name ∈ path.names, slash ∉ name := by
    intro name hname
    obtain ⟨request, hrequest, rfl⟩ := List.mem_map.mp hname
    obtain ⟨root, maxBytes, fuel, hdone⟩ := hparsed.compiled _ (hrequests _ hrequest)
    exact slash_notMem_name (compiled_validName (compile_eq_done hdone))
  obtain ⟨root, maxBytes, compileFuel, hdone⟩ :=
    hparsed.compiled _ (hrequests _ (target_mem hne))
  have hid : item.case.id = path.target.caseId parts := by
    have hbuilt := CaseStream.buildCase_id hbuild
    rw [hcase]
    exact hbuilt
  have hinner : slash ∉ item.case.id := by
    rw [hid]
    exact slash_notMem_id (compile_eq_done hdone).assembled.table parts
  have hversion : ofAscii "v1:" <+: item.case.id := by
    rw [hid]
    exact List.prefix_append _ _
  have hhead : item.case.id.head?.any isTrailing = false := by
    rw [hid]
    rfl
  have hqualified : item.caseId = Json.stringify path.names ++ slash :: item.case.id := by
    rw [hhands.caseId, SessionPath.caseId, List.append_assoc, List.singleton_append, hcase]
  have hplain : ¬ofAscii "v1:" <+: Json.stringify path.names ++ slash :: item.case.id := by
    intro hprefix
    exact absurd (List.cons_prefix_cons.mp hprefix).1 (by decide)
  refine ⟨path, hpath, hsame, ?_⟩
  rw [Resolves, hqualified, innerCaseId_qualified (Json.slash_notMem_stringify hnames) hplain
    hinner hhead, Json.hasPair_stringify, List.any_eq_false]
  constructor
  · rintro ⟨hpairs, -⟩ request hrequest
    exact Bool.eq_false_of_not_eq_true (hpairs _ (List.mem_map.mpr ⟨request, hrequest, rfl⟩))
  · intro hpairs
    refine ⟨fun name hname => ?_, innerCaseId_inner hversion⟩
    obtain ⟨request, hrequest, rfl⟩ := List.mem_map.mp hname
    rw [hpairs request hrequest]
    exact Bool.false_ne_true

end

/-- The first case of a request whose names are ASCII. -/
def groupedItem : GeneratedCase where
  caseId := Json.stringify [ofAscii "r"] ++ ofAscii "/v1:r.g:0"
  path := [ofAscii "r"]
  prefixes := []
  case := {
    id := ofAscii "v1:r.g:0"
    requestName := ofAscii "r"
    fieldPath := ofAscii "r.g"
    mutationIndex := 0
    ordinal := 0
    payload := [0x31, 0x30]
    extra := [] }

theorem groupedItem_resolves : Resolves groupedItem := by
  have hassembles : Eval.Returns (assemble groupedDescription) groupedDefinition := ⟨8, rfl⟩
  have hitem : groupedItem ∈ (groupedDefinition.generate
      (logging fun state _ => (.ok true, state)) 0 1 .sequential 60 ((), [])).2.2 := by
    decide +kernel
  obtain ⟨path, hpath, -, hresolves⟩ :=
    generate_resolves_iff hassembles _ 0 1 .sequential 60 () groupedItem hitem
  obtain rfl := List.mem_singleton.mp hpath
  exact hresolves.mpr (by decide)

def astralName : Text := [0xd83d, 0xde00]

def astralDescription : Description where
  roots := [Block.new astralName [.leaf (ofAscii "f") nestedField]]
  maxBytes := 64
  edges := []
  targets := none
  maxPaths := 10000

def astralRequest : CompiledRequest where
  name := astralName
  entries :=
    [⟨astralName, none, .container [1], none, none, none⟩,
     ⟨astralName ++ ofAscii ".f", some 0, .atom nestedField, none, none, none⟩]
  paths := [(astralName, 0), (astralName ++ ofAscii ".f", 1)]
  maxBytes := 64
  seq := .sequence [.plain 1]

def astralDefinition : ProtocolDefinition Unit where
  requests := [astralRequest]
  paths := [⟨[astralRequest], [none]⟩]

def astralId : Text := ofAscii "v1:" ++ astralName ++ ofAscii ".f:0"

/-- The inner identity keeps the slash in front of it. -/
theorem astral_unresolved :
    Eval.Returns (assemble astralDescription) astralDefinition ∧
      ∃ item ∈ (astralDefinition.generate collect 0 2147483647 .sequential 60 []).2,
        item.case.id = astralId ∧ innerCaseId item.caseId = some (ofAscii "/" ++ astralId) ∧
          ¬Resolves item := by
  refine ⟨⟨8, rfl⟩, {
    caseId := Json.stringify [astralName] ++ ofAscii "/" ++ astralId
    path := [astralName]
    prefixes := []
    case := {
      id := astralId
      requestName := astralName
      fieldPath := astralName ++ ofAscii ".f"
      mutationIndex := 0
      ordinal := 0
      payload := [0x31]
      extra := [] } }, by decide +kernel, rfl, by decide, fun hresolves => ?_⟩
  exact absurd hresolves.1 (by decide)

end

end Cmd

end MoonBoofuzz
