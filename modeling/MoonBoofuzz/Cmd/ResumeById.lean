import MoonBoofuzz.Cmd.CaseId
import MoonBoofuzz.Cmd.Csv
import MoonBoofuzz.Definition.PositionOfId

namespace MoonBoofuzz

open Text

namespace Cmd

open CompiledRequest ProtocolDefinition
open CaseStream (Originates)

variable {κ σ : Type}

/-! Where `generate --id` starts. -/

/-- What ends the command: an error of the definition, one of its own, or a slice between the
halves of a surrogate pair. -/
inductive ResumeError where
  | generate (error : GenerateError)
  | cli (error : CliError)
  | stopped

def notItself (id : Text) (offset : Int32) (found : Text) : ResumeError :=
  .cli (.invalidArguments (ofAscii "case id " ++ id ++
    ofAscii " does not resolve to itself at position " ++ integer offset.toInt ++
    ofAscii " (found " ++ found ++
    ofAscii "); the definition differs from the one that produced the id"))

/-- The start offset that `--id` stands for, once the case there has been compared. -/
def resumeById (definition : ProtocolDefinition κ) (id : Text) (fuel : Nat) :
    Eval ResumeError Int32 :=
  match innerCaseId id with
  | none => .raised .stopped
  | some inner =>
      match definition.positionOfId inner with
      | .error error => .raised (.generate error)
      | .ok offset =>
          match definition.caseIdAt offset fuel with
          | .pending => .pending
          | .raised error => .raised (.generate error)
          | .done none => .raised (notItself id offset (ofAscii "end of stream"))
          | .done (some found) =>
              match innerCaseId found with
              | none => .raised .stopped
              | some actual =>
                  if actual = inner then .done offset
                  else .raised (notItself id offset actual)

theorem resumeById_returns_iff {definition : ProtocolDefinition κ} {id : Text} {offset : Int32} :
    Eval.Returns (resumeById definition id) offset ↔
      ∃ inner found, innerCaseId id = some inner ∧ definition.positionOfId inner = .ok offset ∧
        Eval.Returns (definition.caseIdAt offset) (some found) ∧
        innerCaseId found = some inner := by
  constructor
  · rintro ⟨fuel, hdone⟩
    unfold resumeById at hdone
    split at hdone
    · cases hdone
    · rename_i inner hinner
      split at hdone
      · cases hdone
      · rename_i offset' hposition
        split at hdone
        · cases hdone
        · cases hdone
        · cases hdone
        · rename_i found hfound
          split at hdone
          · cases hdone
          · rename_i actual hactual
            split at hdone
            · rename_i hsame
              cases hdone
              exact ⟨inner, found, hinner, hposition, ⟨fuel, hfound⟩, hsame ▸ hactual⟩
            · cases hdone
  · rintro ⟨inner, found, hinner, hposition, ⟨fuel, hfound⟩, hsame⟩
    exact ⟨fuel, by simp only [resumeById, hinner, hposition, hfound, hsame, if_true]⟩

theorem idAt_firstCase {paths : List (SessionPath κ)} {skip : Int32} {answer : Option Text}
    (hat : IdAt paths skip answer) :
    ∀ {base : Nat} {id : Text}, answer = some id →
      base + candidatesIn (paths.map (·.target)) < 2147483647 →
      (∀ path ∈ paths, ∃ bytes, Eval.Returns path.prefixes bytes) →
      ∃ item, FirstCase paths skip base item ∧ item.caseId = id := by
  induction hat with
  | ended skip =>
      intro base id hanswer
      cases hanswer
  | @skipped path rest skip answer hskips hrest ih =>
      intro base id hanswer hsmall hprefixes
      rw [List.map_cons, candidatesIn, ← Nat.add_assoc] at hsmall
      obtain ⟨item, hfirst, hid⟩ := ih hanswer hsmall (List.forall_mem_cons.mp hprefixes).2
      refine ⟨item, .skipped hskips ?_, hid⟩
      rwa [wrap64_rawMutationCount (by omega)]
  | @opened path rest skip answer hstays hopens =>
      intro base id hanswer hsmall hprefixes
      obtain ⟨case, rfl, rfl⟩ := Option.map_eq_some_iff.mp hanswer
      rw [List.map_cons, candidatesIn] at hsmall
      obtain ⟨position, parts, hordinal, hcandidate, -⟩ := hopens.originates.listed
      have hlt := (List.getElem?_eq_some_iff.mp hcandidate).1
      obtain ⟨bytes, fuel, hbytes⟩ := (List.forall_mem_cons.mp hprefixes).1
      have hitem := generatedCase_of_done hbytes hordinal
        (show base + position ≤ 2147483647 by omega)
      exact ⟨_, .opened hstays hopens ⟨fuel, hitem⟩, rfl⟩

theorem idAt_unique {paths : List (SessionPath κ)} {skip : Int32} {answer other : Option Text}
    (hfirst : IdAt paths skip answer) (hsecond : IdAt paths skip other) : answer = other := by
  induction hfirst with
  | ended skip =>
      cases hsecond
      rfl
  | skipped hskips _ ih => exact ih ((idAt_skipped hskips).mp hsecond)
  | opened hstays hopens =>
      obtain ⟨found, hfound, rfl⟩ := (idAt_stays hstays).mp hsecond
      rw [hopens.unique hfound]

theorem caseIdAt_nonneg {definition : ProtocolDefinition κ} {start : Int32} {answer : Option Text}
    (hreturns : Eval.Returns (definition.caseIdAt start) answer) :
    0 ≤ start.toInt ∧ IdAt definition.paths start answer := by
  obtain ⟨fuel, hdone⟩ := hreturns
  rw [caseIdAt] at hdone
  split at hdone
  · rename_i hstart
    exact ⟨hstart, caseIdAtPaths_returns_iff.mp ⟨fuel, hdone⟩⟩
  · cases hdone

theorem parsed_prefixes {definition : ProtocolDefinition κ} (hparsed : Parsed definition) :
    ∀ path ∈ definition.paths, ∃ bytes, Eval.Returns path.prefixes bytes := by
  intro path hmem
  exact SessionPath.prefixes_returns fun request hrequest =>
    hparsed.compiled request ((hparsed.requests path hmem).2 request hrequest)

/-- Whatever identity is accepted, generation starts with a case of that identity. -/
theorem resumeById_starts_there {description : Description} {definition : ProtocolDefinition κ}
    (hparse : Eval.Returns (assemble description) definition)
    (hsmall : candidatesIn (definition.paths.map (·.target)) < 2147483647)
    (id : Text) (offset : Int32) (hresume : Eval.Returns (resumeById definition id) offset) :
    ∃ item inner, definition.EmitsFirst offset item ∧ innerCaseId id = some inner ∧
      innerCaseId item.caseId = some inner := by
  obtain ⟨inner, found, hinner, -, hfound, hsame⟩ := resumeById_returns_iff.mp hresume
  obtain ⟨hstart, hat⟩ := caseIdAt_nonneg hfound
  have hzero : 0 + candidatesIn (definition.paths.map (·.target)) < 2147483647 := by omega
  obtain ⟨item, hfirst, rfl⟩ :=
    idAt_firstCase hat rfl hzero (parsed_prefixes (assemble_parsed hparse))
  exact ⟨item, inner, (emitsFirst_iff hstart).mpr hfirst, hinner, hsame⟩

theorem resumeById_starts_grouped :
    ∃ item inner, groupedDefinition.EmitsFirst 1 item ∧
      innerCaseId (ofAscii "v1:r.a.x:0") = some inner ∧ innerCaseId item.caseId = some inner := by
  have hassembles : Eval.Returns (assemble groupedDescription) groupedDefinition := ⟨8, rfl⟩
  have hposition : groupedDefinition.positionOfId (ofAscii "v1:r.a.x:0") = .ok 1 := by
    decide +kernel
  have hfound : Eval.Returns (groupedDefinition.caseIdAt 1)
      (some (Json.stringify [ofAscii "r"] ++ ofAscii "/v1:r.a.x:0")) := ⟨60, by decide +kernel⟩
  exact resumeById_starts_there hassembles groupedRequest_candidates _ 1
    (resumeById_returns_iff.mpr ⟨_, _, rfl, hposition, hfound, by decide⟩)

theorem innerCaseId_printed {definition : ProtocolDefinition κ} (hparsed : Parsed definition)
    {path : SessionPath κ} (hpath : path ∈ definition.paths) (parts : Parts) :
    innerCaseId (Json.stringify path.names ++ slash :: path.target.caseId parts) =
        some (path.target.caseId parts) ↔
      ∀ request ∈ path.requests, hasPair request.name = false := by
  obtain ⟨hne, hrequests⟩ := hparsed.requests path hpath
  have hnames : ∀ name ∈ path.names, slash ∉ name := by
    intro name hname
    obtain ⟨request, hrequest, rfl⟩ := List.mem_map.mp hname
    obtain ⟨root, maxBytes, fuel, hdone⟩ := hparsed.compiled _ (hrequests _ hrequest)
    exact slash_notMem_name (compiled_validName (compile_eq_done hdone))
  obtain ⟨root, maxBytes, fuel, hdone⟩ := hparsed.compiled _ (hrequests _ (target_mem hne))
  have htable := (compile_eq_done hdone).assembled.table
  have hplain : ¬ofAscii "v1:" <+: Json.stringify path.names ++ slash :: path.target.caseId parts :=
    fun hprefix => absurd (List.cons_prefix_cons.mp hprefix).1 (by decide)
  rw [innerCaseId_qualified (Json.slash_notMem_stringify hnames) hplain
    (slash_notMem_id htable parts) rfl, Json.hasPair_stringify, List.any_eq_false]
  constructor
  · intro hpairs request hrequest
    exact Bool.eq_false_of_not_eq_true (hpairs _ (List.mem_map.mpr ⟨request, hrequest, rfl⟩))
  · intro hpairs name hname
    obtain ⟨request, hrequest, rfl⟩ := List.mem_map.mp hname
    rw [hpairs request hrequest]
    exact Bool.false_ne_true

theorem caseIdAt_of_idAt {definition : ProtocolDefinition κ} {start : Int32} {answer : Option Text}
    (hstart : 0 ≤ start.toInt) (hat : IdAt definition.paths start answer) :
    Eval.Returns (definition.caseIdAt start) answer := by
  obtain ⟨fuel, hdone⟩ := caseIdAtPaths_returns_iff.mpr hat
  refine ⟨fuel, ?_⟩
  rw [caseIdAt, if_pos hstart]
  exact hdone

/-- Where the paths end in the requests in the order of their declaration, a printed case of one
part is taken up at its own ordinal, by the short and by the long form of its identity, exactly
when no name on its path has a surrogate pair. -/
theorem resumeById_returns_to_case {description : Description} {definition : ProtocolDefinition κ}
    (hparse : Eval.Returns (assemble description) definition)
    (hsmall : candidatesIn definition.requests < 2147483647)
    (horder : definition.paths.map (·.target) = definition.requests)
    (emit : σ → GeneratedCase → Except GenerateError Bool × σ) (start limit : Int32)
    (fuel : Nat) (state : σ) {item : GeneratedCase}
    (hitem : item ∈ (definition.generate (logging emit) start limit .sequential fuel
      (state, [])).2.2)
    (hsingle : plus ∉ item.case.id) :
    ∃ path ∈ definition.paths, item.path = path.names ∧
      ∃ offset : Int32, offset.toInt = item.case.ordinal ∧
        (Eval.Returns (resumeById definition item.case.id) offset ∧
            Eval.Returns (resumeById definition item.caseId) offset ↔
          ∀ request ∈ path.requests, hasPair request.name = false) := by
  have hparsed := assemble_parsed hparse
  obtain ⟨front, path, back, position, parts, hsplit, hsits⟩ :=
    (generate_places (candidatesIn_paths_lt hparse hsmall) hitem).sits (by
      have hle := candidatesIn_paths_lt hparse hsmall
      omega)
  have hmem : path ∈ definition.paths := by rw [hsplit]; simp
  obtain ⟨entry, index, before, hnames, rfl⟩ := hsits.naming hparsed hsmall hmem hsingle
  have hrequests : definition.requests =
      front.map (·.target) ++ path.target :: back.map (·.target) := by
    rw [← horder, hsplit, List.map_append, List.map_cons]
  obtain ⟨offset, hposition, hoffset⟩ :=
    hnames.position hparsed (assemble_counts hparse).1 hsmall hrequests
  obtain ⟨case, hbuild⟩ := hsits.built
  have hroom := length_le_candidatesIn hnames.declared
  have hfound := (@found_at κ front back path _ offset _ _ (by omega) hsits.candidate hbuild
    hoffset).1
  have hid : case.id = path.target.caseId parts := CaseStream.buildCase_id hbuild
  have hprinted : item.caseId = Json.stringify path.names ++ slash :: path.target.caseId parts := by
    rw [hsits.caseId, SessionPath.caseId, List.append_assoc, List.singleton_append, hsits.id]
  have hsame : path.caseId case = item.caseId := by
    rw [hprinted, SessionPath.caseId, List.append_assoc, List.singleton_append, hid]
  rw [← hsplit, hsame] at hfound
  have hreturns := caseIdAt_of_idAt (show 0 ≤ offset.toInt by omega) hfound
  have hshort : innerCaseId item.case.id = some item.case.id := by
    refine innerCaseId_inner ?_
    rw [hsits.id]
    exact List.prefix_append _ _
  have hordinal := hsits.ordinal
  refine ⟨path, hmem, hsits.names, offset, by omega, ?_⟩
  rw [← innerCaseId_printed hparsed hmem parts, ← hprinted, ← hsits.id]
  constructor
  · rintro ⟨hresume, -⟩
    obtain ⟨inner, found, hinner, -, hother, hsame⟩ := resumeById_returns_iff.mp hresume
    obtain rfl : item.case.id = inner := Option.some.inj (hshort.symm.trans hinner)
    rw [← Option.some.inj (idAt_unique (caseIdAt_nonneg hother).2 hfound), hsame]
  · intro hlong
    exact ⟨resumeById_returns_iff.mpr ⟨_, _, hshort, hposition, hreturns, hlong⟩,
      resumeById_returns_iff.mpr ⟨_, _, hlong, hposition, hreturns, hlong⟩⟩

theorem resumeById_returns_to_inner :
    ∃ offset : Int32, offset.toInt = 1 ∧
      Eval.Returns (resumeById groupedDefinition (ofAscii "v1:r.a.x:0")) offset ∧
      Eval.Returns (resumeById groupedDefinition
        (Json.stringify [ofAscii "r"] ++ ofAscii "/v1:r.a.x:0")) offset := by
  have hassembles : Eval.Returns (assemble groupedDescription) groupedDefinition := ⟨8, rfl⟩
  have hitem : innerItem ∈ (groupedDefinition.generate
      (logging fun state _ => (.ok true, state)) 1 1 .sequential 60 ((), [])).2.2 := by
    decide +kernel
  obtain ⟨path, hpath, -, offset, hoffset, hreturns⟩ := resumeById_returns_to_case hassembles
    groupedRequest_candidates rfl _ 1 1 60 () hitem (by decide)
  obtain rfl := List.mem_singleton.mp hpath
  exact ⟨offset, hoffset, hreturns.mpr (by decide)⟩

end Cmd

end MoonBoofuzz
