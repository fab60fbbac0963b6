import MoonBoofuzz.Data.Digits
import MoonBoofuzz.Definition.Generate
import MoonBoofuzz.Session.Paths

namespace MoonBoofuzz

/-! Definitions.  The request trees and settings that `parse` reads from a definition
text are taken as they come; what it makes of them is modelled. -/

structure Description where
  roots : List Block
  maxBytes : Int32
  edges : List (Text × Text)
  targets : Option (List Text)
  maxPaths : Int32

namespace ProtocolDefinition

variable {κ : Type}

def addAll (requests : List CompiledRequest) : Except ModelError (SessionGraph κ) :=
  requests.foldlM SessionGraph.add .new

def connectAll (graph : SessionGraph κ) (edges : List (Text × Text)) (fuel : Nat) :
    Run (SessionGraph κ) :=
  edges.foldlM (fun graph edge => graph.connect edge.1 edge.2 none fuel) graph

/-- The rest of `parse`, once the text has been read. -/
def assemble (description : Description) (fuel : Nat) : Run (ProtocolDefinition κ) := do
  let requests ← description.roots.mapM fun root =>
    CompiledRequest.compile root description.maxBytes fuel
  let added ← addAll requests
  let graph ← connectAll added description.edges fuel
  let paths ← graph.paths description.targets description.maxPaths fuel
  .done ⟨requests, paths⟩

end ProtocolDefinition

namespace SessionGraph

variable {κ : Type}

/-- A graph as the calls build it, with its requests in the order of their calls. -/
structure Holds (graph : SessionGraph κ) (requests : List CompiledRequest) : Prop where
  built : Built graph
  same : graph.requests = requests
  names : graph.names.map Prod.fst = requests.map (·.name)
  distinct : (requests.map (·.name)).Nodup

theorem Holds.new : Holds (.new : SessionGraph κ) [] :=
  ⟨.new, rfl, rfl, List.nodup_nil⟩

theorem Holds.add {graph graph' : SessionGraph κ} {requests : List CompiledRequest}
    {request : CompiledRequest} (hholds : Holds graph requests)
    (hadd : graph.add request = .ok graph') : Holds graph' (requests ++ [request]) := by
  have hbuilt := hholds.built.add hadd
  unfold SessionGraph.add at hadd
  split at hadd
  · cases hadd
  · rename_i hfresh
    cases hadd
    refine ⟨hbuilt, by simp [hholds.same], by simp [hholds.names], ?_⟩
    have hnew : request.name ∉ requests.map (·.name) := by
      rw [← hholds.names]
      intro hmem
      obtain ⟨pair, hpair, hname⟩ := List.mem_map.mp hmem
      have hnone := List.lookup_eq_none_iff.mp (Option.not_isSome_iff_eq_none.mp hfresh)
        pair hpair
      simp [hname] at hnone
    rw [List.map_append, List.nodup_append]
    refine ⟨hholds.distinct, List.nodup_singleton _, ?_⟩
    rintro name hname other hother rfl
    obtain rfl : name = request.name := List.mem_singleton.mp hother
    exact hnew hname

theorem Holds.connect {graph graph' : SessionGraph κ} {requests : List CompiledRequest}
    {source target : Text} {callback : Option κ} {fuel : Nat} (hholds : Holds graph requests)
    (hconnect : graph.connect source target callback fuel = .done graph') :
    Holds graph' requests := by
  have hbuilt := hholds.built.connect ⟨fuel, hconnect⟩
  simp only [SessionGraph.connect, Eval.bind_eq_done_iff, Eval.liftM_eq,
    Eval.ofExcept_eq_done_iff, Eval.check_eq_done_iff, Eval.done.injEq] at hconnect
  obtain ⟨origin, -, goal, -, _, -, _, -, rfl⟩ := hconnect
  exact ⟨hbuilt, hholds.same, hholds.names, hholds.distinct⟩

theorem Holds.addAll {requests : List CompiledRequest} {graph : SessionGraph κ}
    (hadd : ProtocolDefinition.addAll requests = .ok graph) : Holds graph requests := by
  have hfold : ∀ (rest past : List CompiledRequest) (before : SessionGraph κ),
      Holds before past → rest.foldlM SessionGraph.add before = .ok graph →
      Holds graph (past ++ rest) := by
    intro rest
    induction rest with
    | nil =>
        intro past before hbefore hdone
        cases hdone
        simpa using hbefore
    | cons request rest ih =>
        intro past before hbefore hdone
        rw [List.foldlM_cons] at hdone
        obtain ⟨next, hnext, hrest⟩ := exceptBind_eq_ok_iff.mp hdone
        have hlater := ih _ next (hbefore.add hnext) hrest
        rwa [List.append_assoc] at hlater
  exact hfold requests [] .new .new hadd

theorem Holds.connectAll {requests : List CompiledRequest} {edges : List (Text × Text)}
    {graph graph' : SessionGraph κ} {fuel : Nat} (hholds : Holds graph requests)
    (hconnect : ProtocolDefinition.connectAll graph edges fuel = .done graph') :
    Holds graph' requests := by
  unfold ProtocolDefinition.connectAll at hconnect
  induction edges generalizing graph with
  | nil =>
      cases hconnect
      exact hholds
  | cons edge rest ih =>
      simp only [List.foldlM_cons, Eval.bind_eq_done_iff] at hconnect
      obtain ⟨next, hnext, hrest⟩ := hconnect
      exact ih (hholds.connect hnext) hrest

theorem paths_returned {graph : SessionGraph κ} (hformed : WellFormed graph)
    {names : Option (List Text)} {maxPaths : Int32} {paths : List (SessionPath κ)}
    (hpaths : Eval.Returns (graph.paths names maxPaths) paths) :
    ∃ targets routes, Expansion graph targets routes ∧ paths = routes.map graph.routePath := by
  have hmono := @paths_mono κ graph names maxPaths
  have hmax : 0 ≤ maxPaths.toInt := by
    obtain ⟨fuel, hdone⟩ := hpaths
    simp only [SessionGraph.paths, Eval.bind_eq_done_iff, Eval.check_eq_done_iff] at hdone
    obtain ⟨_, hmax, -⟩ := hdone
    exact hmax
  cases htargets : graph.resolveTargets names with
  | error error =>
      obtain ⟨text, hraises⟩ := paths_raises_invalid hmax htargets
      exact absurd hraises (hpaths.not_raises hmono)
  | ok targets =>
      by_cases hexceeds : ExceedsLimits graph targets maxPaths.toInt.toNat
      · obtain ⟨text, hraises⟩ := paths_raises_limit hformed hmax htargets hexceeds
        exact absurd hraises (hpaths.not_raises hmono)
      · obtain ⟨routes, hexpansion, hreturns⟩ :=
          paths_returns_expansion hformed hmax htargets hexceeds
        exact ⟨targets, routes, hexpansion, hpaths.unique hmono hreturns⟩

theorem Route.lt {graph : SessionGraph κ} (hformed : WellFormed graph)
    {targets : Option (List Nat)} {index : Nat} {route : List Nat}
    (hroute : Route graph targets index route) (hindex : index < graph.requests.length) :
    ∀ other ∈ route, other < graph.requests.length := by
  induction hroute with
  | stop _ => simpa using hindex
  | step hedge _ ih =>
      refine List.forall_mem_cons.mpr ⟨hindex, ih (hformed.target_lt _ _ hedge)⟩

theorem FullRoute.lt {graph : SessionGraph κ} (hformed : WellFormed graph)
    {targets : Option (List Nat)} {route : List Nat} (hroute : FullRoute graph targets route) :
    route ≠ [] ∧ ∀ index ∈ route, index < graph.requests.length := by
  obtain ⟨root, hroot, -, hwalk⟩ := hroute
  obtain ⟨rest, hrest⟩ := hwalk.ne_nil
  exact ⟨by simp [hrest], hwalk.lt hformed hroot⟩

theorem request_mem {graph : SessionGraph κ} {index : Nat}
    (hindex : index < graph.requests.length) : graph.request index ∈ graph.requests := by
  rw [request, List.getD_eq_getElem?_getD, List.getElem?_eq_getElem hindex]
  exact List.getElem_mem hindex

theorem Holds.request_inj {graph : SessionGraph κ} {requests : List CompiledRequest}
    (hholds : Holds graph requests) {first second : Nat}
    (hfirst : first < graph.requests.length) (hsecond : second < graph.requests.length)
    (hname : (graph.request first).name = (graph.request second).name) : first = second := by
  have hdistinct := hholds.distinct
  rw [← hholds.same] at hdistinct
  rw [request, request, List.getD_eq_getElem?_getD, List.getD_eq_getElem?_getD,
    List.getElem?_eq_getElem hfirst, List.getElem?_eq_getElem hsecond, Option.getD_some,
    Option.getD_some] at hname
  have hindex := List.nodup_iff_injective_get.mp hdistinct
    (show (graph.requests.map (·.name)).get ⟨first, by simpa using hfirst⟩ =
      (graph.requests.map (·.name)).get ⟨second, by simpa using hsecond⟩ by
        simpa using hname)
  exact congrArg Fin.val hindex

end SessionGraph

namespace ProtocolDefinition

variable {κ : Type}

/-- What is known of the definitions that `parse` accepts. -/
structure Parsed (definition : ProtocolDefinition κ) : Prop where
  compiled : ∀ request ∈ definition.requests, ∃ root maxBytes,
    Eval.Returns (CompiledRequest.compile root maxBytes) request
  requests : ∀ path ∈ definition.paths, path.requests ≠ [] ∧
    ∀ request ∈ path.requests, request ∈ definition.requests
  distinct : (definition.paths.map SessionPath.names).Nodup

theorem mapM_compiled {roots : List Block} {maxBytes : Int32} {fuel : Nat}
    {requests : List CompiledRequest}
    (hdone : (roots.mapM fun root => CompiledRequest.compile root maxBytes fuel) =
      .done requests) :
    ∀ request ∈ requests, ∃ root maxBytes,
      Eval.Returns (CompiledRequest.compile root maxBytes) request := by
  induction roots generalizing requests with
  | nil =>
      cases hdone
      simp
  | cons root rest ih =>
      simp only [List.mapM_cons, Eval.bind_eq_done_iff, Eval.pure_eq,
        Eval.done.injEq] at hdone
      obtain ⟨first, hfirst, others, hothers, rfl⟩ := hdone
      exact List.forall_mem_cons.mpr ⟨⟨root, maxBytes, fuel, hfirst⟩, ih hothers⟩

theorem assemble_parsed {description : Description} {definition : ProtocolDefinition κ}
    (hassemble : Eval.Returns (assemble description) definition) : Parsed definition := by
  obtain ⟨fuel, hdone⟩ := hassemble
  simp only [assemble, Eval.bind_eq_done_iff, Eval.liftM_eq, Eval.ofExcept_eq_done_iff,
    Eval.done.injEq] at hdone
  obtain ⟨requests, hrequests, added, hadded, graph, hgraph, paths, hpaths, rfl⟩ := hdone
  have hholds := (SessionGraph.Holds.addAll hadded).connectAll hgraph
  have hformed := hholds.built.wellFormed
  obtain ⟨targets, routes, hexpansion, rfl⟩ :=
    SessionGraph.paths_returned hformed ⟨fuel, hpaths⟩
  have hroutes : ∀ route ∈ routes, route ≠ [] ∧
      ∀ index ∈ route, index < graph.requests.length :=
    fun route hmem => ((hexpansion.complete route).mp hmem).lt hformed
  refine ⟨mapM_compiled hrequests, ?_, ?_⟩
  · intro path hmem
    obtain ⟨route, hroute, rfl⟩ := List.mem_map.mp hmem
    refine ⟨by simpa [SessionGraph.routePath] using (hroutes route hroute).1, ?_⟩
    intro request hrequest
    obtain ⟨index, hindex, rfl⟩ := List.mem_map.mp hrequest
    rw [← hholds.same]
    exact SessionGraph.request_mem ((hroutes route hroute).2 index hindex)
  · rw [List.map_map]
    refine hexpansion.nodup.map_on ?_
    intro route hroute other hother hnames
    have hequal : route.map (fun index => (graph.request index).name) =
        other.map fun index => (graph.request index).name := by
      simpa [SessionPath.names, SessionGraph.routePath, Function.comp_def] using hnames
    refine map_inj_on ?_ hequal
    intro index hindex index' hindex'
    exact hholds.request_inj ((hroutes route hroute).2 index hindex)
      ((hroutes other hother).2 index' hindex')

end ProtocolDefinition

end MoonBoofuzz
