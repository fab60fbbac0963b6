import MoonBoofuzz.Definition.CaseIdAt
import MoonBoofuzz.Definition.Identity

namespace MoonBoofuzz

noncomputable def CompiledRequest.candidatesIn : List CompiledRequest → Nat
  | [] => 0
  | request :: rest => (request.candidates .sequential).length + candidatesIn rest

namespace CompiledRequest

theorem candidatesIn_append (front back : List CompiledRequest) :
    candidatesIn (front ++ back) = candidatesIn front + candidatesIn back := by
  induction front with
  | nil => rw [List.nil_append, candidatesIn, Nat.zero_add]
  | cons request rest ih => rw [List.cons_append, candidatesIn, candidatesIn, ih, Nat.add_assoc]

theorem length_le_candidatesIn {requests : List CompiledRequest} {request : CompiledRequest}
    (hmem : request ∈ requests) :
    (request.candidates .sequential).length ≤ candidatesIn requests := by
  obtain ⟨front, back, rfl⟩ := List.append_of_mem hmem
  rw [candidatesIn_append, candidatesIn]
  omega

theorem rawMutationCount_candidates {request : CompiledRequest}
    (hsmall : (request.candidates .sequential).length < 9223372036854775808) :
    request.rawMutationCount = (request.candidates .sequential).length :=
  Enumerates.rawMutationCount (request.candidates_drains .sequential) hsmall

end CompiledRequest

namespace ProtocolDefinition

open CaseStream (Answers Delivers Originates)
open CompiledRequest (candidatesIn)

variable {κ σ : Type}

/-- The case was built from a candidate of a path, and is numbered behind all candidates of the
paths before it. -/
def Placed (base : Nat) (paths : List (SessionPath κ)) (item : GeneratedCase) : Prop :=
  ∃ front path back case, paths = front ++ path :: back ∧
    Originates path.target none (path.target.initialCursor .sequential) case ∧
    Eval.Returns (generatedCase path (base + candidatesIn (front.map (·.target)) : Nat) case) item

theorem Placed.head {base : Nat} {path : SessionPath κ} {rest : List (SessionPath κ)}
    {case : MutationCase} {item : GeneratedCase}
    (horiginates : Originates path.target none (path.target.initialCursor .sequential) case)
    (hitem : Eval.Returns (generatedCase path base case) item) :
    Placed base (path :: rest) item :=
  ⟨[], path, rest, case, rfl, horiginates, hitem⟩

theorem Placed.tail {base : Nat} {path : SessionPath κ} {rest : List (SessionPath κ)}
    {item : GeneratedCase}
    (hplaced : Placed (base + (path.target.candidates .sequential).length) rest item) :
    Placed base (path :: rest) item := by
  obtain ⟨front, other, back, case, rfl, horiginates, hitem⟩ := hplaced
  refine ⟨path :: front, other, back, case, rfl, horiginates, ?_⟩
  rwa [List.map_cons, candidatesIn, ← Nat.add_assoc]

theorem wrap64_rawMutationCount {base : Nat} {path : SessionPath κ}
    (hsmall : base + (path.target.candidates .sequential).length < 9223372036854775808) :
    wrap64 ((base : Int) + path.target.rawMutationCount) =
      (base + (path.target.candidates .sequential).length : Nat) := by
  rw [CompiledRequest.rawMutationCount_candidates (by omega), wrap64_eq_self] <;> omega

/-! The candidates of all paths of an accepted definition. -/

theorem assemble_counts {description : Description} {definition : ProtocolDefinition κ}
    (hassemble : Eval.Returns (assemble description) definition) :
    (definition.requests.map (·.name)).Nodup ∧ definition.paths.length ≤ 2147483647 := by
  obtain ⟨fuel, hdone⟩ := hassemble
  simp only [assemble, Eval.bind_eq_done_iff, Eval.liftM_eq, Eval.ofExcept_eq_done_iff,
    Eval.done.injEq] at hdone
  obtain ⟨requests, -, added, hadded, graph, hgraph, paths, hpaths, rfl⟩ := hdone
  have hholds := (SessionGraph.Holds.addAll hadded).connectAll hgraph
  refine ⟨hholds.distinct, ?_⟩
  have hmono := @SessionGraph.paths_mono κ graph description.targets description.maxPaths
  have hmax : 0 ≤ description.maxPaths.toInt := by
    simp only [SessionGraph.paths, Eval.bind_eq_done_iff, Eval.check_eq_done_iff] at hpaths
    obtain ⟨_, hmax, -⟩ := hpaths
    exact hmax
  have hreturns : Eval.Returns (graph.paths description.targets description.maxPaths) paths :=
    ⟨fuel, hpaths⟩
  have hformed := hholds.built.wellFormed
  cases htargets : graph.resolveTargets description.targets with
  | error error =>
      obtain ⟨text, hraises⟩ := SessionGraph.paths_raises_invalid hmax htargets
      exact absurd hraises (hreturns.not_raises hmono)
  | ok targets =>
      by_cases hexceeds : SessionGraph.ExceedsLimits graph targets description.maxPaths.toInt.toNat
      · obtain ⟨text, hraises⟩ := SessionGraph.paths_raises_limit hformed hmax htargets hexceeds
        exact absurd hraises (hreturns.not_raises hmono)
      · obtain ⟨routes, hexpansion, hroutes⟩ :=
          SessionGraph.paths_returns_expansion hformed hmax htargets hexceeds
        obtain rfl := hreturns.unique hmono hroutes
        have hupper := description.maxPaths.toInt_lt
        rw [List.length_map]
        by_contra hmany
        exact hexceeds (Or.inl ⟨routes, hexpansion.nodup,
          fun route hmem => (hexpansion.complete route).mp hmem, by omega⟩)

theorem candidatesIn_targets_le {requests : List CompiledRequest} {paths : List (SessionPath κ)}
    (htargets : ∀ path ∈ paths, path.target ∈ requests) :
    candidatesIn (paths.map (·.target)) ≤ paths.length * candidatesIn requests := by
  induction paths with
  | nil => exact Nat.zero_le _
  | cons path rest ih =>
      obtain ⟨hpath, hrest⟩ := List.forall_mem_cons.mp htargets
      have hle := CompiledRequest.length_le_candidatesIn hpath
      rw [List.map_cons, candidatesIn, List.length_cons, Nat.succ_mul, Nat.add_comm]
      exact Nat.add_le_add (ih hrest) hle

theorem candidatesIn_paths_lt {description : Description} {definition : ProtocolDefinition κ}
    (hassemble : Eval.Returns (assemble description) definition)
    (hsmall : candidatesIn definition.requests < 2147483647) :
    candidatesIn (definition.paths.map (·.target)) < 9223372036854775808 := by
  have hparsed := assemble_parsed hassemble
  have hle := candidatesIn_targets_le fun path (hpath : path ∈ definition.paths) =>
    (hparsed.requests path hpath).2 _ (target_mem (hparsed.requests path hpath).1)
  have hmany := Nat.mul_le_mul (assemble_counts hassemble).2 (Nat.le_of_lt hsmall)
  omega

section

variable {emit : σ → GeneratedCase → Except GenerateError Bool × σ} {limit fuel : Nat}

theorem generatePaths_places (paths : List (SessionPath κ)) {skip : Int32} {generated base : Nat}
    {state state' : σ} {log log' : List GeneratedCase}
    {outcome : Eval GenerateError GenerationResult}
    (hsmall : base + candidatesIn (paths.map (·.target)) < 9223372036854775808)
    (hgenerate : generatePaths (logging emit) .sequential limit fuel paths skip generated base
      (state, log) = (outcome, (state', log'))) :
    ∃ items, log' = log ++ items ∧ ∀ item ∈ items, Placed base paths item := by
  induction paths generalizing skip generated base state log with
  | nil =>
      cases hgenerate
      exact ⟨[], by simp, by simp⟩
  | cons path rest ih =>
      rw [List.map_cons, candidatesIn, ← Nat.add_assoc] at hsmall
      have hbase := @wrap64_rawMutationCount κ base path (by omega)
      rw [generatePaths] at hgenerate
      split at hgenerate
      · rw [hbase] at hgenerate
        obtain ⟨items, hlog, hplaced⟩ := ih hsmall hgenerate
        exact ⟨items, hlog, fun item hmem => (hplaced item hmem).tail⟩
      · split at hgenerate
        · cases hgenerate
          exact ⟨[], by simp, by simp⟩
        · rename_i stream hstream
          cases hemit : emitCases (logging emit) path base limit fuel fuel stream generated
              (state, log) with
          | mk ending next =>
              obtain ⟨between, kept⟩ := next
              obtain ⟨items, rfl, cases, last, hdelivers, hitems⟩ :=
                emitCases_delivered fuel hemit
              have hplaced : ∀ item ∈ items, Placed base (path :: rest) item := by
                intro item hmem
                obtain ⟨case, hcase, hdone⟩ := forall₂_of_mem_left hitems hmem
                exact .head (CaseStream.enumerate_originates hstream hdelivers.calls
                  (List.mem_map.mpr ⟨case, hcase, rfl⟩)) hdone
              rw [hemit] at hgenerate
              cases ending with
              | pending =>
                  cases hgenerate
                  exact ⟨items, rfl, hplaced⟩
              | raised error =>
                  cases hgenerate
                  exact ⟨items, rfl, hplaced⟩
              | done ending =>
                  cases ending with
                  | returned result =>
                      cases hgenerate
                      exact ⟨items, rfl, hplaced⟩
                  | exhausted generated' after =>
                      simp only [baseAfter, hbase] at hgenerate
                      obtain ⟨others, hlog, hlater⟩ := ih hsmall hgenerate
                      refine ⟨items ++ others, by simp [hlog], fun item hmem => ?_⟩
                      rcases List.mem_append.mp hmem with hhere | hthere
                      · exact hplaced item hhere
                      · exact (hlater item hthere).tail

theorem generate_places {definition : ProtocolDefinition κ} {start limit : Int32} {state : σ}
    {item : GeneratedCase}
    (hsmall : candidatesIn (definition.paths.map (·.target)) < 9223372036854775808)
    (hmem : item ∈ (definition.generate (logging emit) start limit .sequential fuel
      (state, [])).2.2) : Placed 0 definition.paths item := by
  unfold generate at hmem
  split at hmem
  · cases hgenerate : generatePaths (logging emit) .sequential limit.toInt.toNat fuel
        definition.paths start 0 0 (state, []) with
    | mk outcome last =>
        obtain ⟨state', log'⟩ := last
        have hzero : 0 + candidatesIn (definition.paths.map (·.target)) <
            9223372036854775808 := by omega
        obtain ⟨items, hlog, hplaced⟩ := generatePaths_places definition.paths hzero hgenerate
        rw [hgenerate] at hmem
        rw [List.nil_append] at hlog
        exact hplaced item (hlog ▸ hmem)
  · cases hmem

end

/-- The candidate at a position of a path is emitted as this case. -/
structure Sits (base : Nat) (front : List (SessionPath κ)) (path : SessionPath κ)
    (position : Nat) (parts : Parts) (item : GeneratedCase) : Prop where
  candidate : (path.target.candidates .sequential)[position]? = some parts
  names : item.path = path.names
  caseId : item.caseId = path.caseId item.case
  request : item.case.requestName = path.target.name
  id : item.case.id = path.target.caseId parts
  ordinal : item.case.ordinal = (base + candidatesIn (front.map (·.target)) + position : Nat)
  built : ∃ case, Eval.Returns (path.target.buildCase none position parts) case

theorem globalCase_of_ok {base position : Nat} {case case' : MutationCase}
    (hposition : case.ordinal = position) (hsmall : base + position < 9223372036854775808)
    (hglobal : globalCase case base = .ok case') :
    case' = case.shift base ∧ base + position ≤ 2147483647 := by
  have hsum : wrap64 ((base : Int) + position) = (base + position : Nat) := by
    rw [wrap64_eq_self] <;> omega
  simp only [globalCase, hposition, hsum] at hglobal
  split at hglobal
  · rename_i hle
    have hsame : wrap32 ((base + position : Nat) : Int) = (base : Int) + position := by
      rw [wrap32_eq_self] <;> omega
    rw [hsame] at hglobal
    cases hglobal
    refine ⟨?_, by omega⟩
    rw [MutationCase.shift, hposition]
  · cases hglobal

theorem buildCase_requestName {request : CompiledRequest} {vars : Option Vars} {ordinal : Nat}
    {parts : Parts} {case : MutationCase}
    (hbuild : Eval.Returns (request.buildCase vars ordinal parts) case) :
    case.requestName = request.name := by
  obtain ⟨fuel, hdone⟩ := hbuild
  simp only [CompiledRequest.buildCase, Eval.bind_eq_done_iff, Eval.done.injEq] at hdone
  obtain ⟨_, -, payload, -, rfl⟩ := hdone
  rfl

theorem Placed.sits {base : Nat} {paths : List (SessionPath κ)} {item : GeneratedCase}
    (hplaced : Placed base paths item)
    (hsmall : base + candidatesIn (paths.map (·.target)) < 9223372036854775808) :
    ∃ front path back position parts, paths = front ++ path :: back ∧
      Sits base front path position parts item := by
  obtain ⟨front, path, back, case, rfl, horiginates, fuel, hdone⟩ := hplaced
  obtain ⟨position, parts, hordinal, hcandidate, hbuild⟩ := horiginates.listed
  have hlt := (List.getElem?_eq_some_iff.mp hcandidate).1
  rw [List.map_append, List.map_cons, CompiledRequest.candidatesIn_append, candidatesIn] at hsmall
  have hid := generatedCase_caseId hdone
  unfold generatedCase at hdone
  split at hdone
  · cases hdone
  · cases hdone
  · split at hdone
    · cases hdone
    · rename_i case' hglobal
      cases hdone
      obtain ⟨rfl, -⟩ := globalCase_of_ok hordinal (by omega) hglobal
      have hrequest : case.requestName = path.target.name := buildCase_requestName hbuild
      have hparts : case.id = path.target.caseId parts := CaseStream.buildCase_id hbuild
      refine ⟨front, path, back, position, parts, rfl, hcandidate, rfl, hid, hrequest, hparts,
        ?_, case, hbuild⟩
      simp only [MutationCase.shift, hordinal]
      omega

theorem Opens.originates {path : SessionPath κ} {skip : Int32} {case : MutationCase}
    (hopens : Opens path skip (some case)) :
    Originates path.target none (path.target.initialCursor .sequential) case := by
  obtain ⟨stream, after, hstream, hanswers⟩ := hopens
  have hone : Delivers stream [case] after := .cons hanswers (.nil after)
  exact CaseStream.enumerate_originates hstream hone.calls (List.mem_singleton_self _)

theorem FirstCase.placed {paths : List (SessionPath κ)} {skip : Int32} {start : Int}
    {item : GeneratedCase} (hfirst : FirstCase paths skip start item) :
    ∀ {base : Nat}, start = base →
      base + candidatesIn (paths.map (·.target)) < 9223372036854775808 →
      Placed base paths item := by
  induction hfirst with
  | @skipped path rest skip start item hskips hrest ih =>
      intro base hstart hsmall
      rw [List.map_cons, candidatesIn, ← Nat.add_assoc] at hsmall
      refine (ih ?_ hsmall).tail
      rw [hstart, wrap64_rawMutationCount (by omega)]
  | @opened path rest skip start case item hstays hopens hitem =>
      intro base hstart hsmall
      rw [hstart] at hitem
      exact .head hopens.originates hitem
  | @dry path rest skip start item hstays hopens hrest ih =>
      intro base hstart hsmall
      rw [List.map_cons, candidatesIn, ← Nat.add_assoc] at hsmall
      refine (ih ?_ hsmall).tail
      rw [hstart, wrap64_rawMutationCount (by omega)]

theorem opens_at {path : SessionPath κ} {skip : Int32} {position : Nat}
    {parts : Parts} {case : MutationCase} (hskip : skip.toInt = position)
    (hroom : (path.target.candidates .sequential).length < 2147483647)
    (hcandidate : (path.target.candidates .sequential)[position]? = some parts)
    (hbuild : Eval.Returns (path.target.buildCase none position parts) case) :
    Opens path skip (some case) := by
  obtain ⟨stream, hstream⟩ := CaseStream.enumerate_of_nonneg path.target .sequential none
    (show 0 ≤ skip.toInt by omega) (show 0 ≤ (2147483647 : Int32).toInt by decide)
  obtain ⟨middle, hdelivers, -⟩ := CaseStream.enumerate_sweeps
    (path.target.candidates_drains .sequential) hroom hstream
  have hslots : (path.target.slotsFrom none 0 (path.target.candidates .sequential)).drop
      skip.toInt.toNat = .keep case :: path.target.slotsFrom none (position + 1)
        ((path.target.candidates .sequential).drop (position + 1)) := by
    have hlt := (List.getElem?_eq_some_iff.mp hcandidate).1
    have hstart : skip.toInt.toNat = position := by omega
    rw [CompiledRequest.drop_slotsFrom, hstart, Nat.zero_add, List.drop_eq_getElem_cons hlt,
      (List.getElem?_eq_some_iff.mp hcandidate).2, CompiledRequest.slotsFrom,
      CompiledRequest.slotAt_eq_keep.mpr hbuild]
  rw [hslots, Slot.kept] at hdelivers
  cases hdelivers with
  | cons hanswer hrest => exact ⟨stream, _, hstream, hanswer⟩

theorem skips_front {back : List (SessionPath κ)} {position : Nat} :
    ∀ {front : List (SessionPath κ)} {skip : Int32},
      skip.toInt = (candidatesIn (front.map (·.target)) + position : Nat) →
      ∃ left : Int32, left.toInt = position ∧
        (∀ {answer}, IdAt back left answer → IdAt (front ++ back) skip answer) ∧
        ∀ {base : Nat} {item},
          base + candidatesIn (front.map (·.target)) < 9223372036854775808 →
          FirstCase back left (base + candidatesIn (front.map (·.target)) : Nat) item →
          FirstCase (front ++ back) skip base item := by
  intro front
  induction front with
  | nil =>
      intro skip hskip
      rw [List.map_nil, candidatesIn, Nat.zero_add] at hskip
      exact ⟨skip, hskip, fun hat => hat, fun _ hfirst => hfirst⟩
  | cons other front ih =>
      intro skip hskip
      rw [List.map_cons, candidatesIn] at hskip
      have hupper := skip.toInt_lt
      have hcount := CompiledRequest.rawMutationCount_candidates
        (show (other.target.candidates .sequential).length < 9223372036854775808 by omega)
      have hskips : skipsPath .sequential other.target skip = true := by
        rw [skipsPath, hcount, decide_eq_true_eq]
        omega
      have hleft : (skip - Int32.ofInt other.target.rawMutationCount).toInt =
          (candidatesIn (front.map (·.target)) + position : Nat) := by
        rw [hcount, toInt_sub_ofInt (by omega) (by omega)]
        omega
      obtain ⟨left, hposition, hids, hcases⟩ := ih hleft
      refine ⟨left, hposition, fun hat => .skipped hskips (hids hat), fun hsmall hfirst => ?_⟩
      rw [List.map_cons, candidatesIn, ← Nat.add_assoc] at hsmall hfirst
      refine .skipped hskips ?_
      rw [wrap64_rawMutationCount (by omega)]
      exact hcases hsmall hfirst

theorem found_at {front back : List (SessionPath κ)} {path : SessionPath κ} {position : Nat}
    {skip : Int32} {parts : Parts} {case : MutationCase}
    (hroom : (path.target.candidates .sequential).length < 2147483647)
    (hcandidate : (path.target.candidates .sequential)[position]? = some parts)
    (hbuild : Eval.Returns (path.target.buildCase none position parts) case)
    (hskip : skip.toInt = (candidatesIn (front.map (·.target)) + position : Nat)) :
    IdAt (front ++ path :: back) skip (some (path.caseId case)) ∧
      ∀ {item},
        Eval.Returns (generatedCase path (candidatesIn (front.map (·.target)) : Nat) case) item →
        FirstCase (front ++ path :: back) skip 0 item := by
  obtain ⟨left, hposition, hids, hcases⟩ := skips_front hskip
  have hlt := (List.getElem?_eq_some_iff.mp hcandidate).1
  have hopens := opens_at hposition hroom hcandidate hbuild
  have hstays : skipsPath .sequential path.target left = false := by
    rw [skipsPath, CompiledRequest.rawMutationCount_candidates (by omega), decide_eq_false_iff_not]
    omega
  have hupper := skip.toInt_lt
  constructor
  · exact hids (.opened hstays hopens)
  · intro item hitem
    refine @hcases 0 item (by omega) (.opened hstays hopens ?_)
    rwa [Nat.zero_add]

end ProtocolDefinition

end MoonBoofuzz
