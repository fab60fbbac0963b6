import MoonBoofuzz.Data.Mapped
import MoonBoofuzz.Definition.Assemble
import MoonBoofuzz.Mutation.Identity
import MoonBoofuzz.Mutation.Unique

namespace MoonBoofuzz

namespace ProtocolDefinition

open CaseStream (Answers Calls Delivers)
open CompiledRequest (groupedRequest groupedRoot nestedField)

variable {κ σ : Type}

/-! The identities that one run of `generate` hands out. -/

/-- A callback that also keeps a list of the cases it is given. -/
def logging (emit : σ → GeneratedCase → Except GenerateError Bool × σ)
    (state : σ × List GeneratedCase) (case : GeneratedCase) :
    Except GenerateError Bool × (σ × List GeneratedCase) :=
  ((emit state.1 case).1, ((emit state.1 case).2, state.2 ++ [case]))

section

variable {emit : σ → GeneratedCase → Except GenerateError Bool × σ} {limit fuel : Nat}

def Hands (path : SessionPath κ) (item : GeneratedCase) (case : MutationCase) : Prop :=
  ∃ base fuel, generatedCase path base case fuel = .done item

theorem Hands.caseId {path : SessionPath κ} {item : GeneratedCase} {case : MutationCase}
    (hhands : Hands path item case) : item.caseId = path.caseId case := by
  obtain ⟨base, fuel, hdone⟩ := hhands
  exact generatedCase_caseId hdone

/-- Only the ordinal of the case changes. -/
theorem Hands.item {path : SessionPath κ} {item : GeneratedCase} {case : MutationCase}
    (hhands : Hands path item case) :
    item.path = path.names ∧ ∃ ordinal, item.case = { case with ordinal := ordinal } := by
  obtain ⟨base, fuel, hdone⟩ := hhands
  unfold generatedCase at hdone
  split at hdone
  · cases hdone
  · cases hdone
  · split at hdone
    · cases hdone
    · rename_i hglobal
      cases hdone
      rw [globalCase] at hglobal
      split at hglobal
      · cases hglobal
        exact ⟨rfl, _, rfl⟩
      · cases hglobal

theorem Hands.case {path : SessionPath κ} {item : GeneratedCase} {case : MutationCase}
    (hhands : Hands path item case) :
    item.case.parts = case.parts ∧ item.case.payload = case.payload := by
  obtain ⟨-, ordinal, hcase⟩ := hhands.item
  rw [hcase]
  exact ⟨rfl, rfl⟩

theorem Hands.prefixes {path : SessionPath κ} {item : GeneratedCase} {case : MutationCase}
    (hhands : Hands path item case) : Eval.Returns path.prefixes item.prefixes := by
  obtain ⟨base, fuel, hdone⟩ := hhands
  unfold generatedCase at hdone
  split at hdone
  · cases hdone
  · cases hdone
  · rename_i prefixes hprefixes
    split at hdone
    · cases hdone
    · cases hdone
      exact ⟨fuel, hprefixes⟩

/-- What one path contributes: the items of cases its stream delivers. -/
structure Contributes (path : SessionPath κ) (stream : CaseStream)
    (items : List GeneratedCase) : Prop where
  delivered : ∃ cases after, Delivers stream cases after ∧
    List.Forall₂ (Hands path) items cases

theorem emitCases_delivered {path : SessionPath κ} {base : Int} (loops : Nat)
    {stream : CaseStream} {generated : Nat} {state state' : σ} {log log' : List GeneratedCase}
    {outcome : Eval GenerateError PathEnd}
    (hemit : emitCases (logging emit) path base limit fuel loops stream generated
      (state, log) = (outcome, (state', log'))) :
    ∃ items, log' = log ++ items ∧ ∃ cases after, Delivers stream cases after ∧
      List.Forall₂ (fun item case => Eval.Returns (generatedCase path base case) item)
        items cases := by
  induction loops generalizing stream generated state log with
  | zero =>
      cases hemit
      exact ⟨[], by simp, [], stream, .nil stream, .nil⟩
  | succ loops ih =>
      rw [emitCases] at hemit
      split at hemit
      · cases hemit
        exact ⟨[], by simp, [], stream, .nil stream, .nil⟩
      · split at hemit
        · cases hemit
          exact ⟨[], by simp, [], stream, .nil stream, .nil⟩
        · cases hemit
          exact ⟨[], by simp, [], stream, .nil stream, .nil⟩
        · cases hemit
          exact ⟨[], by simp, [], stream, .nil stream, .nil⟩
        · rename_i case after hnext
          have hanswer : Answers stream (.done (some case)) after := ⟨fuel, hnext, by simp⟩
          split at hemit
          · cases hemit
            exact ⟨[], by simp, [], stream, .nil stream, .nil⟩
          · cases hemit
            exact ⟨[], by simp, [], stream, .nil stream, .nil⟩
          · rename_i item hitem
            have hdone : Eval.Returns (generatedCase path base case) item := ⟨fuel, hitem⟩
            have hone : Delivers stream [case] after := .cons hanswer (.nil after)
            simp only [logging] at hemit
            split at hemit
            · rename_i error next hraised
              have hlog : log ++ [item] = next.2 := congrArg (·.2.2) hraised
              cases hemit
              exact ⟨[item], hlog.symm, [case], after, hone, .cons hdone .nil⟩
            · rename_i next hkeep
              obtain ⟨state'', log''⟩ := next
              obtain rfl : log ++ [item] = log'' := congrArg (·.2.2) hkeep
              obtain ⟨items, hlog, cases, last, hdelivers, hitems⟩ := ih hemit
              exact ⟨item :: items, by simp [hlog], case :: cases, last,
                .cons hanswer hdelivers, .cons hdone hitems⟩
            · rename_i next hstop
              have hlog : log ++ [item] = next.2 := congrArg (·.2.2) hstop
              cases hemit
              exact ⟨[item], hlog.symm, [case], after, hone, .cons hdone .nil⟩

theorem emitCases_contributes {path : SessionPath κ} {base : Int} (loops : Nat)
    {stream : CaseStream} {generated : Nat} {state state' : σ} {log log' : List GeneratedCase}
    {outcome : Eval GenerateError PathEnd}
    (hemit : emitCases (logging emit) path base limit fuel loops stream generated
      (state, log) = (outcome, (state', log'))) :
    ∃ items, log' = log ++ items ∧ Contributes path stream items := by
  obtain ⟨items, hlog, cases, after, hdelivers, hitems⟩ := emitCases_delivered loops hemit
  refine ⟨items, hlog, cases, after, hdelivers, hitems.imp fun item case hdone => ?_⟩
  obtain ⟨fuel, hdone⟩ := hdone
  exact ⟨base, fuel, hdone⟩

/-- The paths that a run visits, each with the cases it delivered. -/
def Visits (mode : CompiledRequest.Mode) (paths : List (SessionPath κ))
    (segments : List (SessionPath κ × List MutationCase)) : Prop :=
  (segments.map Prod.fst).Sublist paths ∧
    ∀ segment ∈ segments, ∃ skip stream after,
      segment.1.target.enumerate mode none skip 2147483647 = .ok stream ∧
        Delivers stream segment.2 after

inductive Handed : List GeneratedCase → List (SessionPath κ × List MutationCase) → Prop
  | nil : Handed [] []
  | cons {path : SessionPath κ} {items others : List GeneratedCase}
      {cases : List MutationCase} {segments : List (SessionPath κ × List MutationCase)}
      (hitems : List.Forall₂ (Hands path) items cases) (hrest : Handed others segments) :
      Handed (items ++ others) ((path, cases) :: segments)

theorem generatePaths_visits {mode : CompiledRequest.Mode} (paths : List (SessionPath κ))
    {skip : Int32} {generated : Nat} {base : Int} {state state' : σ} {log log' : List GeneratedCase}
    {outcome : Eval GenerateError GenerationResult}
    (hgenerate : generatePaths (logging emit) mode limit fuel paths skip generated base
      (state, log) = (outcome, (state', log'))) :
    ∃ items segments, log' = log ++ items ∧ Visits mode paths segments ∧ Handed items segments := by
  induction paths generalizing skip generated base state log with
  | nil =>
      cases hgenerate
      exact ⟨[], [], by simp, ⟨List.Sublist.refl _, by simp⟩, .nil⟩
  | cons path rest ih =>
      rw [generatePaths] at hgenerate
      split at hgenerate
      · obtain ⟨items, segments, hlog, hvisits, hhanded⟩ := ih hgenerate
        exact ⟨items, segments, hlog, ⟨hvisits.1.cons path, hvisits.2⟩, hhanded⟩
      · split at hgenerate
        · cases hgenerate
          exact ⟨[], [], by simp, ⟨List.nil_sublist _, by simp⟩, .nil⟩
        · rename_i stream hstream
          cases hemit : emitCases (logging emit) path base limit fuel fuel stream generated
              (state, log) with
          | mk outcome'' next =>
              obtain ⟨state'', log''⟩ := next
              obtain ⟨items, rfl, cases, last, hdelivers, hitems⟩ :=
                emitCases_contributes fuel hemit
              have hvisited : ∃ skip stream after,
                  path.target.enumerate mode none skip 2147483647 = .ok stream ∧
                    Delivers stream cases after := ⟨skip, stream, last, hstream, hdelivers⟩
              rw [hemit] at hgenerate
              have hends : log' = log ++ items → ∃ items segments, log' = log ++ items ∧
                  Visits mode (path :: rest) segments ∧ Handed items segments := by
                intro hlog
                refine ⟨items ++ [], [(path, cases)], by simp [hlog],
                  ⟨(List.nil_sublist rest).cons_cons path,
                    List.forall_mem_singleton.mpr hvisited⟩, .cons hitems .nil⟩
              cases outcome'' with
              | pending =>
                  cases hgenerate
                  exact hends rfl
              | raised error =>
                  cases hgenerate
                  exact hends rfl
              | done ending =>
                  cases ending with
                  | returned result =>
                      cases hgenerate
                      exact hends rfl
                  | exhausted generated' after =>
                      obtain ⟨others, segments, hlog, hlater, hhanded⟩ := ih hgenerate
                      exact ⟨items ++ others, (path, cases) :: segments, by simp [hlog],
                        ⟨hlater.1.cons_cons path, List.forall_mem_cons.mpr
                          ⟨hvisited, hlater.2⟩⟩, .cons hitems hhanded⟩

theorem Handed.caseIds {items : List GeneratedCase}
    {segments : List (SessionPath κ × List MutationCase)} (hhanded : Handed items segments) :
    items.map (·.caseId) = segments.flatMap fun segment =>
      segment.2.map segment.1.caseId := by
  induction hhanded with
  | nil => rfl
  | @cons path items others cases segments hitems _ ih =>
      have hids : items.map (·.caseId) = cases.map path.caseId := by
        rw [← List.forall₂_eq_eq_eq, List.forall₂_map_left_iff, List.forall₂_map_right_iff]
        exact hitems.imp fun _ _ hhands => hhands.caseId
      rw [List.map_append, hids, ih, List.flatMap_cons]

theorem Handed.mem {items : List GeneratedCase}
    {segments : List (SessionPath κ × List MutationCase)} (hhanded : Handed items segments)
    {item : GeneratedCase} (hmem : item ∈ items) :
    ∃ segment ∈ segments, ∃ case ∈ segment.2, Hands segment.1 item case := by
  induction hhanded with
  | nil => cases hmem
  | @cons path _ _ cases segments hitems _ ih =>
      rcases List.mem_append.mp hmem with hhere | hlater
      · obtain ⟨case, hcase, hhands⟩ := forall₂_of_mem_left hitems hhere
        exact ⟨(path, cases), List.mem_cons_self, case, hcase, hhands⟩
      · obtain ⟨segment, hsegment, hcase⟩ := ih hlater
        exact ⟨segment, List.mem_cons_of_mem _ hsegment, hcase⟩

/-- Whatever a run hands out, a stream of a path's target has built it. -/
theorem generate_hands {definition : ProtocolDefinition κ} {mode : CompiledRequest.Mode}
    {start limit : Int32} {state : σ} {item : GeneratedCase}
    (hmem : item ∈ (definition.generate (logging emit) start limit mode fuel (state, [])).2.2) :
    ∃ path ∈ definition.paths, ∃ case, Hands path item case ∧
      CaseStream.Originates path.target none (path.target.initialCursor mode) case := by
  unfold generate at hmem
  split at hmem
  · cases hgenerate : generatePaths (logging emit) mode limit.toInt.toNat fuel
        definition.paths start 0 0 (state, []) with
    | mk outcome last =>
        obtain ⟨state', log'⟩ := last
        obtain ⟨items, segments, hlog, hvisits, hhanded⟩ :=
          generatePaths_visits definition.paths hgenerate
        rw [hgenerate] at hmem
        rw [List.nil_append] at hlog
        obtain ⟨segment, hsegment, case, hcase, hhands⟩ := hhanded.mem (hlog ▸ hmem)
        obtain ⟨skip, stream, after, hstream, hdelivers⟩ := hvisits.2 segment hsegment
        exact ⟨segment.1, hvisits.1.subset (List.mem_map.mpr ⟨segment, hsegment, rfl⟩), case,
          hhands, CaseStream.enumerate_originates hstream hdelivers.calls
            (List.mem_map.mpr ⟨case, hcase, rfl⟩)⟩
  · cases hmem

section

variable {τ : Type} {emit' : τ → GeneratedCase → Except GenerateError Bool × τ} {view : σ → τ}

theorem emitCases_view (hemit : ∀ state item, emit' (view state) item =
      ((emit state item).1, view (emit state item).2)) {path : SessionPath κ} {base : Int} :
    ∀ {loops : Nat} {stream : CaseStream} {generated : Nat} {state : σ},
      emitCases emit' path base limit fuel loops stream generated (view state) =
        ((emitCases emit path base limit fuel loops stream generated state).1,
          view (emitCases emit path base limit fuel loops stream generated state).2) := by
  intro loops
  induction loops with
  | zero => exact rfl
  | succ loops ih =>
      intro stream generated state
      rw [emitCases, emitCases]
      split
      · rfl
      · cases hnext : stream.next fuel with
        | mk answer after =>
            cases answer with
            | pending => rfl
            | raised error => rfl
            | done found =>
                cases found with
                | none => rfl
                | some case =>
                    dsimp only
                    cases generatedCase path base case fuel with
                    | pending => rfl
                    | raised error => rfl
                    | done item =>
                        dsimp only
                        rw [hemit]
                        cases emit state item with
                        | mk answer later =>
                            cases answer with
                            | error error => rfl
                            | ok goes =>
                                cases goes with
                                | false => rfl
                                | true => exact ih

theorem generatePaths_view (hemit : ∀ state item, emit' (view state) item =
      ((emit state item).1, view (emit state item).2)) {mode : CompiledRequest.Mode}
    {paths : List (SessionPath κ)} :
    ∀ {skip : Int32} {generated : Nat} {base : Int} {state : σ},
      generatePaths emit' mode limit fuel paths skip generated base (view state) =
        ((generatePaths emit mode limit fuel paths skip generated base state).1,
          view (generatePaths emit mode limit fuel paths skip generated base state).2) := by
  induction paths with
  | nil => exact rfl
  | cons path rest ih =>
      intro skip generated base state
      rw [generatePaths, generatePaths]
      split
      · exact ih
      · cases path.target.enumerate mode none skip 2147483647 with
        | error error => rfl
        | ok stream =>
            dsimp only
            rw [emitCases_view hemit]
            cases emitCases emit path base limit fuel fuel stream generated state with
            | mk outcome later =>
                cases outcome with
                | pending => rfl
                | raised error => rfl
                | done ending =>
                    cases ending with
                    | returned result => rfl
                    | exhausted generated after => exact ih

end

theorem Generates.hands {definition : ProtocolDefinition κ} {mode : CompiledRequest.Mode}
    {start : Int32} {cases : List GeneratedCase}
    (hgenerates : definition.Generates mode start cases) {item : GeneratedCase}
    (hmem : item ∈ cases) :
    ∃ path ∈ definition.paths, ∃ case, Hands path item case ∧
      CaseStream.Originates path.target none (path.target.initialCursor mode) case := by
  obtain ⟨enough, hcases⟩ := hgenerates
  have hemit : ∀ (state : Unit × List GeneratedCase) (item : GeneratedCase),
      collect state.2 item = ((logging (fun _ _ => (.ok true, ())) state item).1,
        (logging (fun _ _ => (.ok true, ())) state item).2.2) := fun _ _ => rfl
  have hlogged : item ∈ (definition.generate (logging fun _ _ => (.ok true, ())) start 2147483647
      mode enough ((), [])).2.2 := by
    rw [← hcases enough (le_refl _)] at hmem
    unfold generate at hmem ⊢
    split at hmem
    · rename_i hstart
      have hview : ([] : List GeneratedCase) = (((), []) : Unit × List GeneratedCase).2 := rfl
      rw [if_pos hstart]
      rwa [hview, generatePaths_view hemit] at hmem
    · cases hmem
  exact generate_hands hlogged

theorem generate_originates {definition : ProtocolDefinition κ} {start limit : Int32}
    {state : σ} {item : GeneratedCase}
    (hmem : item ∈ (definition.generate (logging emit) start limit .sequential fuel
      (state, [])).2.2) :
    ∃ path ∈ definition.paths, ∃ case, Hands path item case ∧
      ∃ position parts, parts ∈ path.target.candidates .sequential ∧
        Eval.Returns (path.target.buildCase none position parts) case := by
  obtain ⟨path, hpath, case, hhands, horiginates⟩ := generate_hands hmem
  obtain ⟨position, parts, -, hparts, hbuild⟩ := horiginates.listed
  exact ⟨path, hpath, case, hhands, position, parts, List.mem_of_getElem? hparts, hbuild⟩

theorem target_mem {path : SessionPath κ} (hne : path.requests ≠ []) :
    path.target ∈ path.requests := by
  rw [SessionPath.target, List.getLastD_eq_getLast?, List.getLast?_eq_some_getLast hne]
  exact List.getLast_mem hne

theorem Parsed.path_eq {definition : ProtocolDefinition κ} (hparsed : Parsed definition)
    {path path' : SessionPath κ} (hpath : path ∈ definition.paths)
    (hpath' : path' ∈ definition.paths) (hnames : path.names = path'.names) : path = path' :=
  List.inj_on_of_nodup_map hparsed.distinct hpath hpath' hnames

theorem Visits.nodup {definition : ProtocolDefinition κ} (hparsed : Parsed definition)
    (hnested : ∀ request ∈ definition.requests, ¬ request.NestedGroups)
    {segments : List (SessionPath κ × List MutationCase)}
    (hvisits : Visits .sequential definition.paths segments) :
    (segments.flatMap fun segment => segment.2.map segment.1.caseId).Nodup := by
  rw [List.nodup_flatMap]
  constructor
  · intro segment hmem
    have hpath := hvisits.1.subset (List.mem_map.mpr ⟨segment, hmem, rfl⟩)
    obtain ⟨hne, hrequests⟩ := hparsed.requests _ hpath
    have htarget := hrequests _ (target_mem hne)
    obtain ⟨root, maxBytes, fuel, hdone⟩ := hparsed.compiled _ htarget
    obtain ⟨skip, stream, after, hstream, hdelivers⟩ := hvisits.2 segment hmem
    have hids := CaseStream.ids_nodup (CompiledRequest.compile_eq_done hdone).assembled
      (hnested _ htarget) hstream hdelivers
    have hqualified : segment.2.map segment.1.caseId = (segment.2.map (·.id)).map fun id =>
        Json.stringify segment.1.names ++ [Text.slash] ++ id := by
      rw [List.map_map]
      rfl
    rw [hqualified]
    exact hids.map fun first second hequal => List.append_cancel_left hequal
  · have hnames : (segments.map fun segment => segment.1.names).Nodup := by
      have hsublist := hvisits.1.map SessionPath.names
      rw [List.map_map] at hsublist
      exact hparsed.distinct.sublist hsublist
    rw [List.nodup_iff_pairwise_ne, List.pairwise_map] at hnames
    refine hnames.imp fun hne id hleft hright => hne ?_
    obtain ⟨case, -, rfl⟩ := List.mem_map.mp hleft
    obtain ⟨case', -, hequal⟩ := List.mem_map.mp hright
    rw [SessionPath.caseId, SessionPath.caseId, List.append_assoc, List.append_assoc] at hequal
    exact (Json.stringify_append_inj hequal).1.symm

/-- A sequential run of `generate` hands out every identity once, unless a request has a
group nested in itself. -/
theorem generate_ids_nodup {description : Description} {definition : ProtocolDefinition κ}
    (hparse : Eval.Returns (assemble description) definition)
    (hnested : ∀ request ∈ definition.requests, ¬ request.NestedGroups)
    (emit : σ → GeneratedCase → Except GenerateError Bool × σ) (start limit : Int32)
    (fuel : Nat) (state : σ) :
    ((definition.generate (logging emit) start limit .sequential fuel (state, [])).2.2.map
      (·.caseId)).Nodup := by
  unfold generate
  split
  · cases hgenerate : generatePaths (logging emit) .sequential limit.toInt.toNat fuel
        definition.paths start 0 0 (state, []) with
    | mk outcome last =>
        obtain ⟨state', log'⟩ := last
        obtain ⟨items, segments, hlog, hvisits, hhanded⟩ :=
          generatePaths_visits definition.paths hgenerate
        rw [List.nil_append] at hlog
        rw [hlog, hhanded.caseIds]
        exact hvisits.nodup (assemble_parsed hparse) hnested
  · exact List.nodup_nil

end

def nestedRoot : Block :=
  Block.new (Text.ofAscii "r")
    [.leaf (Text.ofAscii "g") nestedField,
     .nested ⟨Text.ofAscii "a",
      [.nested ⟨Text.ofAscii "b",
        [.leaf (Text.ofAscii "x") nestedField],
        none, none, some (Text.ofAscii "r.g")⟩],
      none, none, some (Text.ofAscii "r.g")⟩]

def nestedDescription : Description where
  roots := [nestedRoot]
  maxBytes := 64
  edges := []
  targets := none
  maxPaths := 10000

def nestedRequest : CompiledRequest where
  name := Text.ofAscii "r"
  entries :=
    [⟨Text.ofAscii "r", none, .container [1, 2], none, none, none⟩,
     ⟨Text.ofAscii "r.g", some 0, .atom nestedField, none, none, none⟩,
     ⟨Text.ofAscii "r.a", some 0, .container [3], none, none, some (Text.ofAscii "r.g")⟩,
     ⟨Text.ofAscii "r.a.b", some 2, .container [4], none, none, some (Text.ofAscii "r.g")⟩,
     ⟨Text.ofAscii "r.a.b.x", some 3, .atom nestedField, none, none, none⟩]
  paths :=
    [(Text.ofAscii "r", 0), (Text.ofAscii "r.g", 1), (Text.ofAscii "r.a", 2),
     (Text.ofAscii "r.a.b", 3), (Text.ofAscii "r.a.b.x", 4)]
  maxBytes := 64
  seq := .sequence [.plain 1,
    .sequence [.sequence [.sequence [.sequence [.plain 4], .product 1 (.sequence [.plain 4])]],
      .product 1 (.sequence [.sequence [.sequence [.plain 4],
        .product 1 (.sequence [.plain 4])]])]]

def nestedDefinition : ProtocolDefinition Unit where
  requests := [nestedRequest]
  paths := [⟨[nestedRequest], [none]⟩]

theorem nestedDescription_assembles :
    assemble nestedDescription 8 = .done nestedDefinition := rfl

def nestedIds : List Text :=
  ["v1:r.g:0", "v1:r.a.b.x:0", "v1:r.g:0+r.a.b.x:0", "v1:r.g:0+r.a.b.x:0",
    "v1:r.g:0+r.g:0+r.a.b.x:0"].map fun id =>
      Json.stringify [Text.ofAscii "r"] ++ Text.ofAscii "/" ++ Text.ofAscii id

/-- The group candidate is combined with the field of the inner block twice, once for
each block, under one identity. -/
theorem nestedDefinition_repeats :
    Eval.Returns (assemble nestedDescription) nestedDefinition ∧
      (nestedDefinition.generate collect 0 2147483647 .sequential 60 []).2.map (·.caseId) =
        nestedIds ∧
      ¬ ((nestedDefinition.generate collect 0 2147483647 .sequential 60 []).2.map
        (·.caseId)).Nodup := by
  have hids : (nestedDefinition.generate collect 0 2147483647 .sequential 60 []).2.map
      (·.caseId) = nestedIds := by decide +kernel
  refine ⟨⟨8, nestedDescription_assembles⟩, hids, ?_⟩
  rw [hids]
  decide +kernel

def groupedDescription : Description where
  roots := [groupedRoot]
  maxBytes := 64
  edges := []
  targets := none
  maxPaths := 10000

def groupedDefinition : ProtocolDefinition Unit where
  requests := [groupedRequest]
  paths := [⟨[groupedRequest], [none]⟩]

theorem groupedRequest_unnested : ¬ groupedRequest.NestedGroups := by
  rintro ⟨outer, inner, field, leaf, hinner, -, houter, hgroup, -, -⟩
  have honly : ∀ {index target}, (groupedRequest.entry index).group = some target →
      index = 2 := by
    intro index target hsome
    rcases index with _ | _ | _ | _ | index
    · cases hsome
    · cases hsome
    · rfl
    · cases hsome
    · cases hsome
  rw [honly houter, honly hgroup] at hinner
  obtain ⟨parent, hparent, hrest⟩ := Relation.TransGen.head'_iff.mp hinner
  cases hparent
  rcases hrest.cases_head with hzero | ⟨above, habove, -⟩
  · cases hzero
  · cases habove

theorem groupedDefinition_distinct :
    ((groupedDefinition.generate (logging fun state _ => (.ok true, state)) 0 2147483647
      .sequential 60 ((), [])).2.2.map (·.caseId)).Nodup := by
  have hassembles : Eval.Returns (assemble groupedDescription) groupedDefinition := ⟨8, rfl⟩
  exact generate_ids_nodup hassembles
    (List.forall_mem_singleton.mpr groupedRequest_unnested) _ 0 2147483647 60 ()

end ProtocolDefinition

end MoonBoofuzz
