import Mathlib.Data.List.Find
import MoonBoofuzz.Model.Bare
import MoonBoofuzz.Mutation.Unique

namespace MoonBoofuzz

/-- The bytes of a leaf in a case: the candidate that the case lists for it, or its
default value. -/
def selected (parts : List (Text × Nat)) (leaf : Text × Field) : Bytes :=
  match parts.lookup leaf.1 with
  | some i => leaf.2.candidate i
  | none => leaf.2.value

namespace CompiledRequest

section

variable {request : CompiledRequest}

theorem lookup_named (parts : Parts) (path : Text) :
    (parts.map request.named).lookup path =
      (parts.find? fun part => (request.entry part.1).path == path).map (·.2) := by
  induction parts with
  | nil => rfl
  | cons part rest ih =>
      simp only [List.map_cons, named, List.lookup_cons, List.find?_cons]
      by_cases hpath : (request.entry part.1).path = path
      · simp [hpath]
      · have hpath' : path ≠ (request.entry part.1).path := fun h => hpath h.symm
        simp only [beq_eq_false_iff_ne.mpr hpath, beq_eq_false_iff_ne.mpr hpath']
        exact ih

theorem places_selected (htable : Table request) {parts : Parts}
    (hcount : ∀ part ∈ parts, part.2 < (request.kind part.1).count) :
    Places request (request.partReplacements parts) (selected (parts.map request.named)) where
  leaf := by
    intro index field hindex hkind
    have hsame : parts.find? (fun part => (request.entry part.1).path ==
        (request.entry index).path) = parts.find? fun part => part.1 == index := by
      apply List.find?_congr
      intro part hmem
      rw [Bool.eq_iff_iff, beq_iff_eq, beq_iff_eq]
      constructor
      · intro hpath
        have hresolve := htable.resolve_self (lt_of_count (hcount part hmem))
        rw [hpath, htable.resolve_self hindex] at hresolve
        exact (Except.ok.inj hresolve).symm
      · intro hentry
        rw [hentry]
    rw [selected, lookup_named, hsame, lookup_partReplacements]
    cases hfind : parts.find? fun part => part.1 == index with
    | none => rfl
    | some part =>
        have hentry : part.1 = index := by simpa using List.find?_some hfind
        rw [Option.map_some, Option.map_some, Option.getD_some, bytesOf, hentry, hkind]
        rfl
  block := by
    intro index children hkind
    rw [lookup_partReplacements, Option.map_eq_none_iff, List.find?_eq_none]
    intro part hmem hentry
    have hpositive := hcount part hmem
    rw [beq_iff_eq.mp hentry, hkind] at hpositive
    cases hpositive

theorem named_distinct (htable : Table request) {parts : Parts}
    (hcount : ∀ part ∈ parts, part.2 < (request.kind part.1).count)
    (hdistinct : (parts.map Prod.fst).Nodup) :
    ((parts.map request.named).map Prod.fst).Nodup := by
  have hpaths : (parts.map request.named).map Prod.fst =
      (parts.map Prod.fst).map fun index => (request.entry index).path := by
    simp [named]
  rw [hpaths]
  apply hdistinct.map_on
  intro left hleft right hright hequal
  obtain ⟨part, hpart, rfl⟩ := List.mem_map.mp hleft
  obtain ⟨other, hother, rfl⟩ := List.mem_map.mp hright
  have hresolve := htable.resolve_self (lt_of_count (hcount part hpart))
  rw [hequal, htable.resolve_self (lt_of_count (hcount other hother))] at hresolve
  exact (Except.ok.inj hresolve).symm

theorem case_parts {front : Parts} {leaf : Nat × Nat}
    (hdistinct : ((front ++ [leaf]).map Prod.fst).Nodup) {vars : Option Vars} {ordinal : Nat}
    {case : MutationCase}
    (hbuild : Eval.Returns (request.buildCase vars ordinal (front ++ [leaf])) case) :
    case.parts = (front ++ [leaf]).map request.named := by
  obtain ⟨fuel, hdone⟩ := hbuild
  simp only [buildCase, List.getLastD_concat, Eval.bind_eq_done_iff,
    Eval.done.injEq] at hdone
  obtain ⟨_, -, payload, -, rfl⟩ := hdone
  have hapart : leaf ∉ front := by
    intro hmem
    rw [List.map_append, List.nodup_append] at hdistinct
    exact hdistinct.2.2 leaf.1 (List.mem_map_of_mem hmem) leaf.1 (by simp) rfl
  have hfront : (front ++ [leaf]).filter (fun part => part ≠ leaf) = front := by
    rw [List.filter_append, List.filter_eq_self.mpr, List.filter_eq_nil_iff.mpr,
      List.append_nil]
    · simp
    · intro part hmem
      have hne : part ≠ leaf := fun hequal => hapart (hequal ▸ hmem)
      simpa using hne
  simp only [MutationCase.parts, extraParts, hfront, List.map_append]
  rfl

/-! The cases of a bare tree. -/

section

variable {name : Text} {children : List Node} {vars : Option Vars} {parts : Parts}
  {position : Nat}

theorem BareTable.payload (hbare : BareTable request name children)
    (hcount : ∀ part ∈ parts, part.2 < (request.kind part.1).count) {case : MutationCase}
    (hbuild : Eval.Returns (request.buildCase vars position parts) case) :
    case.payload = (Node.leavesAll name children).flatMap
        (selected (parts.map request.named)) ∧
      case.payload.length ≤ request.maxBytes.val := by
  obtain ⟨enough, hrenders⟩ :=
    @BareTable.renders _ _ vars _ _ _ hbare (places_selected hbare.table hcount)
  obtain ⟨fuel, hdone⟩ := hbuild
  simp only [buildCase, Eval.bind_eq_done_iff, Eval.done.injEq] at hdone
  obtain ⟨_, -, payload, hpayload, rfl⟩ := hdone
  have houtcome := hrenders (max fuel enough) (le_max_right _ _) []
  rw [renderNode_done_of_le (le_max_left fuel enough) hpayload] at houtcome
  cases houtcome with
  | fits hfits => exact ⟨rfl, hfits⟩

theorem BareTable.leaf (hbare : BareTable request name children) {part : Nat × Nat}
    (hcount : part.2 < (request.kind part.1).count) :
    ∃ field, request.kind part.1 = .atom field ∧ part.2 < field.count ∧
      ((request.entry part.1).path, field) ∈ Node.leavesAll name children := by
  obtain ⟨indices, hroot, hstored⟩ := hbare.stored
  have hpositive : 1 ≤ part.1 := by
    rw [Nat.one_le_iff_ne_zero]
    intro hzero
    rw [hzero, hroot] at hcount
    cases hcount
  rcases hstored.listed hpositive (lt_of_count hcount) with
    ⟨inner, hkind⟩ | ⟨field, hkind, hmem⟩
  · rw [hkind] at hcount
    cases hcount
  · rw [hkind] at hcount
    exact ⟨field, hkind, hcount, hmem⟩

theorem BareTable.piece_le (hbare : BareTable request name children)
    (hdistinct : (parts.map Prod.fst).Nodup)
    (hcount : ∀ part ∈ parts, part.2 < (request.kind part.1).count) {part : Nat × Nat}
    (hmem : part ∈ parts) {field : Field} (hkind : request.kind part.1 = .atom field)
    (hleaf : ((request.entry part.1).path, field) ∈ Node.leavesAll name children) :
    (field.candidate part.2).length ≤ ((Node.leavesAll name children).flatMap
      (selected (parts.map request.named))).length := by
  have hplaced := (places_selected hbare.table hcount).leaf part.1 field
    (lt_of_count (hcount part hmem)) hkind
  rw [lookup_distinct hdistinct hmem, Option.getD_some, bytesOf, hkind] at hplaced
  rw [List.flatMap_def]
  apply List.Sublist.length_le
  apply List.sublist_flatten_of_mem
  exact List.mem_map.mpr ⟨_, hleaf, hplaced.symm⟩

/-- With exact lengths a case is refused exactly when the whole payload is too long. -/
theorem BareTable.outcome (hbare : BareTable request name children) (hne : parts ≠ [])
    (hdistinct : (parts.map Prod.fst).Nodup)
    (hcount : ∀ part ∈ parts, part.2 < (request.kind part.1).count)
    (hexact : ∀ leaf ∈ Node.leavesAll name children, ∀ i < leaf.2.count,
      leaf.2.candidateLength i = (leaf.2.candidate i).length) :
    if ((Node.leavesAll name children).flatMap
        (selected (parts.map request.named))).length ≤ request.maxBytes.val
    then ∃ case, Eval.Returns (request.buildCase vars position parts) case
    else ∃ message, Eval.Raises (request.buildCase vars position parts)
      (.limit message) := by
  obtain ⟨front, leaf, rfl⟩ := List.eq_nil_or_concat' parts |>.resolve_left hne
  have hmem : leaf ∈ front ++ [leaf] := by simp
  obtain ⟨field, hkind, hindex, hleaf⟩ := hbare.leaf (hcount leaf hmem)
  have hpiece := hbare.piece_le hdistinct hcount hmem hkind hleaf
  have hlength : field.candidateLength leaf.2 = (field.candidate leaf.2).length :=
    hexact _ hleaf _ hindex
  obtain ⟨enough, hrenders⟩ :=
    @BareTable.renders _ _ vars _ _ _ hbare (places_selected hbare.table hcount)
  have houtcome := hrenders enough (le_refl _) []
  -- The check of the last part only refuses what the rendering refuses as well.
  by_cases hfits : field.candidateLength leaf.2 ≤ request.maxBytes.val
  · have hbuild : request.buildCase vars position (front ++ [leaf]) enough = (do
        let payload ← renderNode request
          (request.partReplacements (front ++ [leaf])) vars enough (0, [])
        .done {
          id := request.caseId (front ++ [leaf])
          requestName := request.name
          fieldPath := (request.entry leaf.1).path
          mutationIndex := leaf.2
          ordinal := position
          payload := payload
          extra := request.extraParts leaf (front ++ [leaf]) }) := by
      rw [buildCase, List.getLastD_concat, checkLeaf, hkind, Eval.check_bind_of hfits]
    generalize renderNode request (request.partReplacements (front ++ [leaf])) vars enough
      (0, []) = answer at houtcome hbuild
    cases houtcome with
    | fits hshort =>
        rw [if_pos hshort]
        exact ⟨_, enough, hbuild⟩
    | exceeds message hlong =>
        rw [if_neg (Nat.not_le.mpr hlong)]
        exact ⟨message, enough, hbuild⟩
  · have hlong : request.maxBytes.val < (field.candidate leaf.2).length := by
      rw [hlength] at hfits
      omega
    have hraised : request.buildCase vars position (front ++ [leaf]) 0 = .raised
        (.limitText "field mutation exceeds request byte limit before allocation") := by
      rw [buildCase, List.getLastD_concat, checkLeaf, hkind]
      simp only [Eval.check, if_neg hfits, Eval.raised_bind]
    rw [if_neg (by omega)]
    exact ⟨_, 0, hraised⟩

end

theorem BareTable.not_regrouped {name : Text} {children : List Node}
    (hbare : BareTable request name children) : ¬ Regrouped request := by
  rintro ⟨outer, field, -, hgroup, -⟩
  have hentry : request.entry outer ≠ noEntry := by
    intro hentry
    rw [hentry] at hgroup
    cases hgroup
  rw [(hbare.open' _ (entry_mem_of_ne hentry)).group] at hgroup
  cases hgroup

end

end CompiledRequest

namespace CaseStream

open CompiledRequest

theorem Refused.listed {request : CompiledRequest} {mode : Mode} {vars : Option Vars}
    {position : Nat} (hrefused : Refused request vars (request.initialCursor mode) position) :
    ∃ parts message, (request.candidates mode)[position]? = some parts ∧
      Eval.Raises (request.buildCase vars position parts) (.limit message) := by
  obtain ⟨values, parts, last, message, htakes, rfl, hraises⟩ := hrefused
  exact ⟨parts, message, htakes.getElem?_of_drains (request.candidates_drains mode), hraises⟩

section

variable {root : Block} {maxBytes : Int32} {fuel : Nat} {request : CompiledRequest}
  {mode : Mode} {vars : Option Vars} {start limit : Int32} {stream after : CaseStream}
  {answers : List Answer}
  (hassembled : Assembled root maxBytes fuel request)
  (htable : BareTable request root.name root.children)
  (hstream : request.enumerate mode vars start limit = .ok stream)
  (hcalls : Calls stream answers after)

include hassembled htable in
theorem bare_listed {position : Nat} {parts : Parts}
    (hparts : (request.candidates mode)[position]? = some parts) :
    parts ≠ [] ∧ (parts.map Prod.fst).Nodup ∧
      ∀ part ∈ parts, part.2 < (request.kind part.1).count :=
  candidates_distinct hassembled (fun _ => htable.not_regrouped) (List.mem_of_getElem? hparts)

include hassembled htable hstream hcalls in
theorem bare_emitted {case : MutationCase} (hcase : .done (some case) ∈ answers) :
    case.payload = (Node.leavesAll root.name root.children).flatMap (selected case.parts) ∧
      (case.parts.map Prod.fst).Nodup ∧
      ∀ part ∈ case.parts, ∃ field, part.2 < field.count ∧
        (part.1, field) ∈ Node.leavesAll root.name root.children := by
  obtain ⟨position, parts, hordinal, hparts, hbuild⟩ :=
    (enumerate_originates hstream hcalls hcase).listed
  obtain ⟨hne, hdistinct, hcount⟩ := bare_listed hassembled htable hparts
  obtain ⟨front, leaf, rfl⟩ := List.eq_nil_or_concat' parts |>.resolve_left hne
  rw [case_parts hdistinct hbuild]
  refine ⟨(htable.payload hcount hbuild).1, named_distinct htable.table hcount hdistinct, ?_⟩
  intro named hmem
  obtain ⟨part, hpart, rfl⟩ := List.mem_map.mp hmem
  obtain ⟨field, -, hindex, hleaf⟩ := htable.leaf (hcount part hpart)
  exact ⟨field, hindex, hleaf⟩

include hstream hcalls in
theorem passed_listed {position : Nat} (hfrom : start.toInt ≤ position)
    (hto : position < after.position) :
    ∃ parts, (request.candidates mode)[position]? = some parts ∧
      ((∃ case : MutationCase, .done (some case) ∈ answers ∧ case.ordinal = position ∧
          Eval.Returns (request.buildCase vars position parts) case) ∨
        (¬ ∃ case : MutationCase, .done (some case) ∈ answers ∧ case.ordinal = position) ∧
          ∃ message, Eval.Raises (request.buildCase vars position parts) (.limit message)) := by
  have hemitted : ∀ case : MutationCase, .done (some case) ∈ answers →
      case.ordinal = position → ∃ parts, (request.candidates mode)[position]? = some parts ∧
        Eval.Returns (request.buildCase vars position parts) case := by
    intro case hcase hordinal
    obtain ⟨position', parts, hordinal', hparts, hbuild⟩ :=
      (enumerate_originates hstream hcalls hcase).listed
    obtain rfl : position' = position := by omega
    exact ⟨parts, hparts, hbuild⟩
  by_cases hcase : ∃ case : MutationCase, .done (some case) ∈ answers ∧ case.ordinal = position
  · obtain ⟨case, hcase, hordinal⟩ := hcase
    obtain ⟨parts, hparts, hbuild⟩ := hemitted case hcase hordinal
    exact ⟨parts, hparts, Or.inl ⟨case, hcase, hordinal, hbuild⟩⟩
  · have hstart : stream.ordinal ≤ position := by
      obtain ⟨-, rfl⟩ := enumerate_eq_ok hstream
      simp only
      omega
    rcases hcalls.passed (enumerate_progress hstream) hstart hto with hdone | hrefused
    · exact absurd hdone hcase
    · obtain ⟨parts, message, hparts, hraises⟩ := hrefused.listed
      exact ⟨parts, hparts, Or.inr ⟨hcase, message, hraises⟩⟩

include hassembled htable hstream hcalls in
theorem bare_passed (hexact : ∀ leaf ∈ Node.leavesAll root.name root.children,
      ∀ i < leaf.2.count, leaf.2.candidateLength i = (leaf.2.candidate i).length)
    {position : Nat} (hfrom : start.toInt ≤ position) (hto : position < after.position) :
    ∃ parts, (request.candidates mode)[position]? = some parts ∧
      ((∃ case : MutationCase, .done (some case) ∈ answers ∧ case.ordinal = position) ↔
        ((Node.leavesAll root.name root.children).flatMap
          (selected (parts.map request.named))).length ≤ request.maxBytes.val) ∧
      ((∃ message, Eval.Raises (request.buildCase vars position parts) (.limit message)) ↔
        request.maxBytes.val < ((Node.leavesAll root.name root.children).flatMap
          (selected (parts.map request.named))).length) := by
  obtain ⟨parts, hparts, hpassed⟩ := passed_listed hstream hcalls hfrom hto
  obtain ⟨hne, hdistinct, hcount⟩ := bare_listed hassembled htable hparts
  have houtcome := @BareTable.outcome _ _ _ vars _ position htable hne hdistinct hcount hexact
  have hapart : ∀ {case message},
      Eval.Returns (request.buildCase vars position parts) case →
        ¬ Eval.Raises (request.buildCase vars position parts) (.limit message) :=
    fun hreturns => hreturns.not_raises (buildCase_mono _ _ _ _)
  refine ⟨parts, hparts, ?_⟩
  rcases hpassed with ⟨case, hcase, hordinal, hbuild⟩ | ⟨hnone, message, hraises⟩
  · have hfits : ((Node.leavesAll root.name root.children).flatMap
        (selected (parts.map request.named))).length ≤ request.maxBytes.val := by
      by_contra hlong
      rw [if_neg hlong] at houtcome
      obtain ⟨message, hraises⟩ := houtcome
      exact hapart hbuild hraises
    refine ⟨iff_of_true ⟨case, hcase, hordinal⟩ hfits, iff_of_false ?_ (Nat.not_lt.mpr hfits)⟩
    rintro ⟨message, hraises⟩
    exact hapart hbuild hraises
  · have hlong : ¬ ((Node.leavesAll root.name root.children).flatMap
        (selected (parts.map request.named))).length ≤ request.maxBytes.val := by
      intro hfits
      rw [if_pos hfits] at houtcome
      obtain ⟨case, hbuild⟩ := houtcome
      exact hapart hbuild hraises
    exact ⟨iff_of_false hnone hlong, iff_of_true ⟨message, hraises⟩ (Nat.not_le.mp hlong)⟩

end

/-- In a tree of fields and plain blocks a case has the candidates of its parts in the
place of their fields and the default values everywhere else; and where the candidates
have the lengths they announce, a position is passed over exactly when that message is
too long. -/
theorem bare_cases {root : Block} {maxBytes : Int32} {request : CompiledRequest}
    (hcompile : Eval.Returns (compile root maxBytes) request)
    (hbare : (Node.nested root).bare = true) {mode : Mode} {vars : Option Vars}
    {start limit : Int32} {stream after : CaseStream} {answers : List Answer}
    (hstream : request.enumerate mode vars start limit = .ok stream)
    (hcalls : Calls stream answers after) :
    (∀ case, .done (some case) ∈ answers →
      case.payload = ((Node.nested root).leaves []).flatMap (selected case.parts) ∧
        (case.parts.map Prod.fst).Nodup ∧
        ∀ part ∈ case.parts, ∃ field, part.2 < field.count ∧
          (part.1, field) ∈ (Node.nested root).leaves []) ∧
      ((∀ leaf ∈ (Node.nested root).leaves [], ∀ i < leaf.2.count,
          leaf.2.candidateLength i = (leaf.2.candidate i).length) →
        ∀ position : Nat, start.toInt ≤ position → position < after.position →
          ∃ parts, (request.candidates mode)[position]? = some parts ∧
            ((∃ case : MutationCase, .done (some case) ∈ answers ∧
                case.ordinal = position) ↔
              (((Node.nested root).leaves []).flatMap
                (selected (parts.map request.named))).length ≤ request.maxBytes.val) ∧
            ((∃ message, Eval.Raises (request.buildCase vars position parts)
                (.limit message)) ↔
              request.maxBytes.val < (((Node.nested root).leaves []).flatMap
                (selected (parts.map request.named))).length)) := by
  obtain ⟨fuel, hdone⟩ := hcompile
  have hassembled := (compile_eq_done hdone).assembled
  have htable := hassembled.bareTable hbare
  have hleaves : (Node.nested root).leaves [] = Node.leavesAll root.name root.children := by
    cases root
    rfl
  rw [hleaves]
  exact ⟨fun case hcase => bare_emitted hassembled htable hstream hcalls hcase,
    fun hexact position hfrom hto =>
      bare_passed hassembled htable hstream hcalls hexact hfrom hto⟩

def wrappedField : Field := Field.simple [0x42] [[0x43, 0x43], [0x44, 0x44, 0x44, 0x44]]

def wrappedRoot : Block :=
  Block.new (Text.ofAscii "r")
    [.leaf (Text.ofAscii "h") (Field.simple [0x41] []),
     .nested (Block.new (Text.ofAscii "b") [.leaf (Text.ofAscii "x") wrappedField])]

def wrappedRequest : CompiledRequest where
  name := Text.ofAscii "r"
  entries :=
    [⟨Text.ofAscii "r", none, .container [1, 2], none, none, none⟩,
     ⟨Text.ofAscii "r.h", some 0, .atom (Field.simple [0x41] []), none, none, none⟩,
     ⟨Text.ofAscii "r.b", some 0, .container [3], none, none, none⟩,
     ⟨Text.ofAscii "r.b.x", some 2, .atom wrappedField, none, none, none⟩]
  paths := [(Text.ofAscii "r", 0), (Text.ofAscii "r.h", 1), (Text.ofAscii "r.b", 2),
    (Text.ofAscii "r.b.x", 3)]
  maxBytes := 4
  seq := .sequence [.sequence [], .sequence [.plain 3]]

theorem wrappedRoot_compiles : compile wrappedRoot 4 5 = .done wrappedRequest := rfl

def wrappedStream : CaseStream where
  request := wrappedRequest
  limit := 10
  skip := 0
  ordinal := 0
  emitted := 0
  state := .running
  cursor := wrappedRequest.sequentialCursor
  vars := none

def wrappedCase : MutationCase where
  id := Text.ofAscii "v1:r.b.x:0"
  requestName := Text.ofAscii "r"
  fieldPath := Text.ofAscii "r.b.x"
  mutationIndex := 0
  ordinal := 0
  payload := [0x41, 0x43, 0x43]
  extra := []

/-- The first candidate is sent behind the other field, the second is passed over. -/
theorem wrappedRequest_cases :
    wrappedCase.payload =
        ((Node.nested wrappedRoot).leaves []).flatMap (selected wrappedCase.parts) ∧
      ∃ parts, (wrappedRequest.candidates .sequential)[1]? = some parts ∧
        ((∃ message, Eval.Raises (wrappedRequest.buildCase none 1 parts) (.limit message)) ↔
          4 < (((Node.nested wrappedRoot).leaves []).flatMap
            (selected (parts.map wrappedRequest.named))).length) := by
  have hfirst : Answers wrappedStream (.done (some wrappedCase)) (next 30 wrappedStream).2 :=
    ⟨30, rfl, by simp⟩
  have hsecond : Answers (next 30 wrappedStream).2 (.done none)
      (next 30 (next 30 wrappedStream).2).2 := ⟨30, rfl, by simp⟩
  have hstream : wrappedRequest.enumerate .sequential none 0 10 = .ok wrappedStream := rfl
  obtain ⟨hcases, hpositions⟩ := bare_cases ⟨5, wrappedRoot_compiles⟩ rfl hstream
    (.cons hfirst (.cons hsecond (.nil _)))
  obtain ⟨parts, hparts, -, hlong⟩ := hpositions (by decide) 1 (by decide) (by decide)
  exact ⟨(hcases wrappedCase (by simp)).1, parts, hparts, hlong⟩

end CaseStream

end MoonBoofuzz
