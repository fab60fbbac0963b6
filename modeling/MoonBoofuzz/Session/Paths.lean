import MoonBoofuzz.Session.Routes

namespace MoonBoofuzz

namespace SessionGraph

variable {κ : Type}

section Search

variable {graph : SessionGraph κ}

theorem mem_predecessors {source target : Nat} :
    source ∈ graph.predecessors target ↔ target ∈ graph.successors source := by
  simp only [predecessors, List.mem_filter, List.mem_range, List.contains_iff_mem]
  refine ⟨fun h => h.2, fun h => ⟨?_, h⟩⟩
  by_contra hlarge
  rw [successors, List.getD_eq_getElem?_getD, List.getElem?_eq_none (by omega)] at h
  simp at h

theorem found_iff_route {indices : List Nat}
    {index : Nat} :
    Worklist.Found graph.predecessors indices.reverse index ↔
      ∃ route, Route graph (some indices) index route := by
  constructor
  · rintro ⟨target, hmem, hpath⟩
    induction hpath with
    | refl => exact ⟨_, .stop (by simpa [selects] using hmem)⟩
    | tail _ hstep ih =>
        obtain ⟨route, hroute⟩ := ih
        exact ⟨_, .step (mem_predecessors.mp hstep) hroute⟩
  · rintro ⟨route, hroute⟩
    induction hroute with
    | stop hselected =>
        exact .of_mem (by simpa [selects] using hselected)
    | step hedge _ ih =>
        obtain ⟨target, hmem, hpath⟩ := ih
        exact ⟨target, hmem, hpath.tail (mem_predecessors.mpr hedge)⟩

theorem reachableSet_enters {targets : Option (List Nat)} {fuel : Nat}
    {reachable : List Nat}
    (hreachable : graph.reachableSet targets fuel = .done reachable) :
    Enters graph targets reachable.contains := by
  intro index hindex
  cases targets with
  | none =>
      simp only [reachableSet, Eval.done.injEq] at hreachable
      subst hreachable
      simp only [List.contains_iff_mem, List.mem_range, hindex, true_iff]
      exact ⟨_, .stop rfl⟩
  | some indices =>
      have hclosed : Worklist.Closed graph.predecessors [] indices.reverse := by
        intro item hmem
        cases hmem
      rw [List.contains_iff_mem, Worklist.mem_explore hclosed hreachable,
        List.nil_append]
      exact found_iff_route

theorem resolve_lt (hformed : WellFormed graph) {name : Text} {index : Nat}
    (hresolve : graph.resolve name = .ok index) : index < graph.requests.length := by
  unfold resolve at hresolve
  split at hresolve
  · rename_i found hfound
    cases hresolve
    exact hformed.name_lt name index hfound
  · cases hresolve

theorem resolveAll_eq_ok {names : List Text} :
    ∀ {indices : List Nat}, graph.resolveAll names = .ok indices →
      (∀ name ∈ names, graph.names.lookup name ≠ none) ∧
        ∀ index ∈ indices, ∃ name, graph.resolve name = .ok index := by
  induction names with
  | nil =>
      intro indices hresolve
      cases hresolve
      simp
  | cons name rest ih =>
      intro indices hresolve
      simp only [resolveAll, bind, Except.bind] at hresolve
      cases hname : graph.resolve name with
      | error error => simp [hname] at hresolve
      | ok index =>
          cases hrest : graph.resolveAll rest with
          | error error => simp [hname, hrest] at hresolve
          | ok others =>
              simp only [hname, hrest, Except.ok.injEq] at hresolve
              subst hresolve
              obtain ⟨hknown, hothers⟩ := ih hrest
              have hlookup : graph.names.lookup name ≠ none := by
                intro hnone
                simp [resolve, hnone] at hname
              constructor
              · exact List.forall_mem_cons.mpr ⟨hlookup, hknown⟩
              · intro other hmem
                rcases List.mem_cons.mp hmem with rfl | h
                · exact ⟨name, hname⟩
                · exact hothers other h

theorem resolveAll_eq_error {names : List Text} {error : ModelError}
    (hresolve : graph.resolveAll names = .error error) :
    ∃ name ∈ names, graph.names.lookup name = none ∧ error = unknownRequest name := by
  induction names with
  | nil => cases hresolve
  | cons name rest ih =>
      simp only [resolveAll, bind, Except.bind] at hresolve
      cases hname : graph.resolve name with
      | error failure =>
          simp only [hname, Except.error.injEq] at hresolve
          subst hresolve
          unfold resolve at hname
          split at hname
          · cases hname
          · rename_i hnone
            cases hname
            exact ⟨name, by simp, hnone, rfl⟩
      | ok index =>
          cases hrest : graph.resolveAll rest with
          | error failure =>
              simp only [hname, hrest, Except.error.injEq] at hresolve
              subst hresolve
              obtain ⟨other, hmem, hnone, herror⟩ := ih hrest
              exact ⟨other, by simp [hmem], hnone, herror⟩
          | ok others => simp [hname, hrest] at hresolve

theorem reachableSet_mono (targets : Option (List Nat)) :
    Monotone (graph.reachableSet targets) := by
  cases targets with
  | none => exact fun _ _ _ => le_refl _
  | some indices => exact Worklist.explore_mono _ _

theorem reachableSet_returns (hformed : WellFormed graph)
    {names : Option (List Text)} {targets : Option (List Nat)}
    (htargets : graph.resolveTargets names = .ok targets) :
    ∃ reachable, Eval.Returns (graph.reachableSet targets) reachable := by
  cases targets with
  | none => exact ⟨_, 0, rfl⟩
  | some indices =>
      have hbounds : ∀ index ∈ indices.reverse,
          index ∈ Finset.range graph.requests.length := by
        cases names with
        | none => simp [resolveTargets] at htargets
        | some names =>
            simp only [resolveTargets, bind, Except.bind] at htargets
            cases hall : graph.resolveAll names with
            | error error => simp [hall] at htargets
            | ok found =>
                simp only [hall, Except.ok.injEq, Option.some.injEq] at htargets
                subst htargets
                intro index hmem
                obtain ⟨name, hname⟩ := (resolveAll_eq_ok hall).2 index
                  (by simpa using hmem)
                exact Finset.mem_range.mpr (resolve_lt hformed hname)
      have hnext : ∀ item ∈ Finset.range graph.requests.length,
          ∀ source ∈ graph.predecessors item,
            source ∈ Finset.range graph.requests.length := by
        intro item _ source hsource
        simp only [predecessors, List.mem_filter, List.mem_range,
          hformed.edges_length] at hsource
        exact Finset.mem_range.mpr hsource.1
      have hterminates : Eval.Terminates (graph.reachableSet (some indices)) :=
        Worklist.explore_terminates hnext rfl hbounds
      obtain ⟨fuel, hsettled⟩ := hterminates
      cases hexplore : graph.reachableSet (some indices) fuel with
      | done reachable => exact ⟨reachable, fuel, hexplore⟩
      | pending => exact absurd hexplore hsettled
      | raised error => exact absurd hexplore Worklist.explore_ne_raised

theorem paths_mono (names : Option (List Text)) (maxPaths : Int32) :
    Monotone (graph.paths names maxPaths) := by
  intro first second hle
  apply Eval.bind_le_bind (le_refl _)
  intro _
  apply Eval.bind_le_bind (le_refl _)
  intro targets
  exact Eval.bind_le_bind (reachableSet_mono targets hle) fun _ => le_refl _

theorem paths_of_known (hformed : WellFormed graph) {names : Option (List Text)}
    {targets : Option (List Nat)} {maxPaths : Int32} (hmax : 0 ≤ maxPaths.toInt)
    (htargets : graph.resolveTargets names = .ok targets) :
    ∃ reachable, Enters graph targets reachable ∧ ∃ fuel,
      graph.paths names maxPaths fuel =
        Eval.ofExcept (graph.walkRoots targets reachable maxPaths.toInt.toNat) := by
  obtain ⟨reachable, fuel, hreachable⟩ := reachableSet_returns hformed htargets
  refine ⟨reachable.contains, reachableSet_enters hreachable, fuel, ?_⟩
  simp [paths, Eval.check, hmax, htargets, hreachable]

theorem paths_of_unknown {names : Option (List Text)} {maxPaths : Int32}
    {error : ModelError} (hmax : 0 ≤ maxPaths.toInt)
    (hunknown : graph.resolveTargets names = .error error) (fuel : Nat) :
    graph.paths names maxPaths fuel = .raised error := by
  simp [paths, Eval.check, hmax, hunknown]

theorem resolveTargets_eq_error_iff {names : Option (List Text)} :
    (∃ error, graph.resolveTargets names = .error error) ↔
      ∃ selected, names = some selected ∧
        ∃ name ∈ selected, graph.names.lookup name = none := by
  cases names with
  | none => simp [resolveTargets]
  | some selected =>
      cases hall : graph.resolveAll selected with
      | ok indices =>
          have hknown := (resolveAll_eq_ok hall).1
          simp only [resolveTargets, hall, bind, Except.bind]
          constructor
          · rintro ⟨error, herror⟩
            cases herror
          · rintro ⟨other, hother, name, hmem, hnone⟩
            cases hother
            exact absurd hnone (hknown name hmem)
      | error error =>
          obtain ⟨name, hmem, hnone, -⟩ := resolveAll_eq_error hall
          simp only [resolveTargets, hall, bind, Except.bind]
          exact ⟨fun _ => ⟨selected, rfl, name, hmem, hnone⟩, fun _ => ⟨error, rfl⟩⟩

theorem resolveTargets_error_invalid {names : Option (List Text)}
    {error : ModelError} (hunknown : graph.resolveTargets names = .error error) :
    ∃ text, error = .invalid text := by
  cases names with
  | none => cases hunknown
  | some selected =>
      cases hall : graph.resolveAll selected with
      | ok indices => simp [resolveTargets, hall, bind, Except.bind] at hunknown
      | error failure =>
          obtain ⟨name, -, -, rfl⟩ := resolveAll_eq_error hall
          simp only [resolveTargets, hall, bind, Except.bind, Except.error.injEq]
            at hunknown
          exact ⟨_, hunknown.symm⟩

end Search

/-- More routes than the path limit, or a route of more than 256 requests. -/
def ExceedsLimits (graph : SessionGraph κ) (targets : Option (List Nat))
    (maxPaths : Nat) : Prop :=
  (∃ routes : List (List Nat), routes.Nodup ∧
      (∀ route ∈ routes, FullRoute graph targets route) ∧ maxPaths < routes.length) ∨
    ∃ route, FullRoute graph targets route ∧ 256 < route.length

/-- All routes, each once, in depth-first order: roots in insertion order and
children in connection order. -/
structure Expansion (graph : SessionGraph κ) (targets : Option (List Nat))
    (routes : List (List Nat)) : Prop where
  complete : ∀ route, route ∈ routes ↔ FullRoute graph targets route
  nodup : routes.Nodup
  ordered : routes.Pairwise (Before graph (List.range graph.requests.length))

section

variable {graph : SessionGraph κ} {targets : Option (List Nat)}
  {reachable : Nat → Bool}

theorem emittedRoutes_nodup (hformed : WellFormed graph) :
    (graph.emittedRoutes targets reachable).Nodup := by
  refine emittedRoutes_pairwise.imp ?_
  rintro route other hbefore rfl
  exact hbefore.irrefl hformed List.nodup_range

theorem deep_root_iff (hformed : WellFormed graph)
    (henters : Enters graph targets reachable) :
    (∃ index ∈ List.range graph.requests.length,
        graph.isRoot reachable index = true ∧ Deep graph reachable 256 index) ↔
      ∃ route, FullRoute graph targets route ∧ 256 < route.length := by
  simp only [List.mem_range, isRoot, Bool.and_eq_true, Bool.not_eq_true']
  constructor
  · rintro ⟨root, hroot, ⟨hincoming, hreachable⟩, hdeep⟩
    obtain ⟨route, hroute, hlength⟩ :=
      (deep_iff hformed henters hroot hreachable).mp hdeep
    exact ⟨route, ⟨root, hroot, hincoming, hroute⟩, hlength⟩
  · rintro ⟨route, ⟨root, hroot, hincoming, hroute⟩, hlength⟩
    have hreachable := (henters root hroot).mpr ⟨route, hroute⟩
    exact ⟨root, hroot, ⟨hincoming, hreachable⟩,
      (deep_iff hformed henters hroot hreachable).mpr ⟨route, hroute, hlength⟩⟩

theorem exceedsLimits_iff (hformed : WellFormed graph)
    (henters : Enters graph targets reachable) (maxPaths : Nat) :
    ExceedsLimits graph targets maxPaths ↔
      (∃ index ∈ List.range graph.requests.length,
        graph.isRoot reachable index = true ∧ Deep graph reachable 256 index) ∨
        maxPaths < (graph.emittedRoutes targets reachable).length := by
  rw [deep_root_iff hformed henters]
  constructor
  · rintro (⟨routes, hnodup, hroutes, hlength⟩ | hlong)
    · by_cases hlong : ∃ route, FullRoute graph targets route ∧ 256 < route.length
      · exact Or.inl hlong
      · refine Or.inr (Nat.lt_of_lt_of_le hlength ?_)
        refine (hnodup.subperm ?_).length_le
        intro route hmem
        have hroute := hroutes route hmem
        refine (mem_emittedRoutes hformed henters).mpr ⟨hroute, ?_⟩
        by_contra hlarge
        exact hlong ⟨route, hroute, by omega⟩
    · exact Or.inl hlong
  · rintro (hlong | hmany)
    · exact Or.inr hlong
    · exact Or.inl ⟨_, emittedRoutes_nodup hformed,
        fun route hmem => ((mem_emittedRoutes hformed henters).mp hmem).1, hmany⟩

theorem emittedRoutes_expansion (hformed : WellFormed graph)
    (henters : Enters graph targets reachable)
    (hshort : ∀ route, FullRoute graph targets route → route.length ≤ 256) :
    Expansion graph targets (graph.emittedRoutes targets reachable) where
  complete := by
    intro route
    rw [mem_emittedRoutes hformed henters]
    exact ⟨fun h => h.1, fun h => ⟨h, hshort route h⟩⟩
  nodup := emittedRoutes_nodup hformed
  ordered := emittedRoutes_pairwise

end

theorem paths_raises_invalid {graph : SessionGraph κ} {names : Option (List Text)}
    {maxPaths : Int32} (hmax : 0 ≤ maxPaths.toInt) {error : ModelError}
    (hunknown : graph.resolveTargets names = .error error) :
    ∃ text, Eval.Raises (graph.paths names maxPaths) (.invalid text) := by
  obtain ⟨text, rfl⟩ := resolveTargets_error_invalid hunknown
  exact ⟨text, 0, paths_of_unknown hmax hunknown 0⟩

theorem paths_raises_limit {graph : SessionGraph κ} (hformed : WellFormed graph)
    {names : Option (List Text)} {maxPaths : Int32} (hmax : 0 ≤ maxPaths.toInt)
    {targets : Option (List Nat)}
    (htargets : graph.resolveTargets names = .ok targets)
    (hexceeds : ExceedsLimits graph targets maxPaths.toInt.toNat) :
    ∃ text, Eval.Raises (graph.paths names maxPaths) (.limit text) := by
  obtain ⟨reachable, henters, fuel, hpaths⟩ := paths_of_known hformed hmax htargets
  have hbounded := walkRoots_bounded graph targets reachable maxPaths.toInt.toNat
  obtain ⟨text, hwalk⟩ := hbounded.limited (by
    simpa using (exceedsLimits_iff hformed henters _).mp hexceeds)
  exact ⟨text, fuel, by rw [hpaths, hwalk]; rfl⟩

theorem paths_returns_expansion {graph : SessionGraph κ} (hformed : WellFormed graph)
    {names : Option (List Text)} {maxPaths : Int32} (hmax : 0 ≤ maxPaths.toInt)
    {targets : Option (List Nat)}
    (htargets : graph.resolveTargets names = .ok targets)
    (hwithin : ¬ ExceedsLimits graph targets maxPaths.toInt.toNat) :
    ∃ routes, Expansion graph targets routes ∧
      Eval.Returns (graph.paths names maxPaths) (routes.map graph.routePath) := by
  obtain ⟨reachable, henters, fuel, hpaths⟩ := paths_of_known hformed hmax htargets
  have hbounded := walkRoots_bounded graph targets reachable maxPaths.toInt.toNat
  have hnot := mt (exceedsLimits_iff hformed henters _).mpr hwithin
  rw [not_or, Nat.not_lt] at hnot
  have hwalk := hbounded.complete hnot.1 (by simpa using hnot.2)
  have hshort : ∀ route, FullRoute graph targets route → route.length ≤ 256 := by
    intro route hroute
    by_contra hlong
    exact hwithin (Or.inr ⟨route, hroute, by omega⟩)
  exact ⟨_, emittedRoutes_expansion hformed henters hshort, fuel,
    by rw [hpaths, hwalk]; rfl⟩

/-- Session path expansion is exact: unknown targets raise `Invalid`, exceeded
limits raise `Limit`, and otherwise the result is the list of all routes in
depth-first order, with transitions lined up with their requests. -/
theorem paths_exact {graph : SessionGraph κ} (hbuilt : Built graph)
    (names : Option (List Text)) (maxPaths : Int32) (hmax : 0 ≤ maxPaths.toInt) :
    ((∃ text, Eval.Raises (graph.paths names maxPaths) (.invalid text)) ↔
      ∃ selected, names = some selected ∧
        ∃ name ∈ selected, graph.names.lookup name = none) ∧
    ((∃ text, Eval.Raises (graph.paths names maxPaths) (.limit text)) ↔
      ∃ targets, graph.resolveTargets names = .ok targets ∧
        ExceedsLimits graph targets maxPaths.toInt.toNat) ∧
    ∀ targets, graph.resolveTargets names = .ok targets →
      ¬ ExceedsLimits graph targets maxPaths.toInt.toNat →
        ∃ routes, Expansion graph targets routes ∧
          Eval.Returns (graph.paths names maxPaths) (routes.map graph.routePath) ∧
          ∀ route ∈ routes, (graph.routePath route).transitions.length =
            (graph.routePath route).requests.length := by
  have hformed := hbuilt.wellFormed
  have hmono : Monotone (graph.paths names maxPaths) := paths_mono names maxPaths
  refine ⟨⟨?_, ?_⟩, ⟨?_, ?_⟩, ?_⟩
  · rintro ⟨text, hinvalid⟩
    rw [← resolveTargets_eq_error_iff]
    cases htargets : graph.resolveTargets names with
    | error error => exact ⟨error, rfl⟩
    | ok targets =>
        by_cases hexceeds : ExceedsLimits graph targets maxPaths.toInt.toNat
        · obtain ⟨other, hlimit⟩ :=
            paths_raises_limit hformed hmax htargets hexceeds
          cases hlimit.unique hmono hinvalid
        · obtain ⟨routes, -, hreturns⟩ :=
            paths_returns_expansion hformed hmax htargets hexceeds
          exact absurd hinvalid (hreturns.not_raises hmono)
  · rw [← resolveTargets_eq_error_iff]
    rintro ⟨error, hunknown⟩
    exact paths_raises_invalid hmax hunknown
  · rintro ⟨text, hlimit⟩
    cases htargets : graph.resolveTargets names with
    | error error =>
        obtain ⟨other, hinvalid⟩ := paths_raises_invalid hmax htargets
        cases hinvalid.unique hmono hlimit
    | ok targets =>
        refine ⟨targets, rfl, ?_⟩
        by_contra hwithin
        obtain ⟨routes, -, hreturns⟩ :=
          paths_returns_expansion hformed hmax htargets hwithin
        exact hreturns.not_raises hmono hlimit
  · rintro ⟨targets, htargets, hexceeds⟩
    exact paths_raises_limit hformed hmax htargets hexceeds
  · intro targets htargets hwithin
    obtain ⟨routes, hexpansion, hreturns⟩ :=
      paths_returns_expansion hformed hmax htargets hwithin
    exact ⟨routes, hexpansion, hreturns, fun route hmem =>
      routePath_lengths ((hexpansion.complete route).mp hmem)⟩

def plainRequest (name : Text) : CompiledRequest where
  name := name
  entries := []
  paths := []
  maxBytes := 0
  seq := .sequence []

def diamondGraph : SessionGraph Nat where
  requests := [plainRequest [97], plainRequest [98], plainRequest [99]]
  edges := [[1, 2], [2], []]
  names := [([97], 0), ([98], 1), ([99], 2)]
  edgeCallbacks := [((1, 2), 7)]

theorem diamondGraph_built : Built diamondGraph := by
  have hone := @Built.add Nat _ _ (plainRequest [97]) .new rfl
  have htwo := @Built.add Nat _ _ (plainRequest [98]) hone rfl
  have hthree := @Built.add Nat _ _ (plainRequest [99]) htwo rfl
  have hleft := @Built.connect Nat _ _ [97] [98] none hthree ⟨4, rfl⟩
  have hright := @Built.connect Nat _ _ [97] [99] none hleft ⟨4, rfl⟩
  exact @Built.connect Nat _ _ [98] [99] (some 7) hright ⟨4, rfl⟩

theorem diamondGraph_routes {route : List Nat} :
    FullRoute diamondGraph (some [2]) route ↔ route = [0, 1, 2] ∨ route = [0, 2] := by
  have hlast : ∀ {route}, Route diamondGraph (some [2]) 2 route ↔ route = [2] := by
    intro route
    constructor
    · rintro (_ | ⟨hedge, -⟩)
      · rfl
      · cases hedge
    · rintro rfl
      exact .stop (by decide)
  have hmiddle : ∀ {route}, Route diamondGraph (some [2]) 1 route ↔ route = [1, 2] := by
    intro route
    constructor
    · rintro (hselected | ⟨hedge, hrest⟩)
      · exact absurd hselected (by decide)
      · obtain rfl := List.mem_singleton.mp hedge
        rw [hlast.mp hrest]
    · rintro rfl
      exact .step (by decide) (hlast.mpr rfl)
  constructor
  · rintro ⟨root, hroot, hincoming, hroute⟩
    have hfirst : root = 0 := by
      rcases root with _ | _ | _ | root
      · rfl
      · exact absurd hincoming (by decide)
      · exact absurd hincoming (by decide)
      · exact absurd hroot (Nat.not_lt.mpr (Nat.le_add_left 3 root))
    subst hfirst
    rcases hroute with hselected | ⟨hedge, hrest⟩
    · exact absurd hselected (by decide)
    · rcases List.mem_cons.mp hedge with rfl | hright
      · exact .inl (by rw [hmiddle.mp hrest])
      · obtain rfl := List.mem_singleton.mp hright
        exact .inr (by rw [hlast.mp hrest])
  · rintro (rfl | rfl)
    · exact ⟨0, by decide, by decide, .step (by decide) (hmiddle.mpr rfl)⟩
    · exact ⟨0, by decide, by decide, .step (by decide) (hlast.mpr rfl)⟩

/-- Both routes fit a limit of two paths, and already one of them exceeds a limit of none. -/
theorem diamondGraph_exact :
    (∃ routes : List (List Nat),
      (∀ route, route ∈ routes ↔ route = [0, 1, 2] ∨ route = [0, 2]) ∧ routes.Nodup ∧
      Eval.Returns (diamondGraph.paths (some [[99]]) 2) (routes.map diamondGraph.routePath)) ∧
      ∃ text, Eval.Raises (diamondGraph.paths (some [[99]]) 0) (.limit text) := by
  constructor
  · have hwithin : ¬ ExceedsLimits diamondGraph (some [2]) 2 := by
      rintro (⟨routes, hnodup, hroutes, hlength⟩ | ⟨route, hroute, hlong⟩)
      · have hsubset : routes ⊆ [[0, 1, 2], [0, 2]] := by
          intro route hmem
          rcases diamondGraph_routes.mp (hroutes route hmem) with rfl | rfl
          · exact List.mem_cons_self
          · exact List.mem_cons_of_mem _ List.mem_cons_self
        exact Nat.not_lt.mpr (hnodup.subperm hsubset).length_le hlength
      · rcases diamondGraph_routes.mp hroute with rfl | rfl
        · exact absurd hlong (by decide)
        · exact absurd hlong (by decide)
    obtain ⟨-, -, hreturns⟩ := paths_exact diamondGraph_built (some [[99]]) 2 (by decide)
    obtain ⟨routes, hexpansion, hpaths, -⟩ := hreturns (some [2]) rfl hwithin
    exact ⟨routes, fun route => (hexpansion.complete route).trans diamondGraph_routes,
      hexpansion.nodup, hpaths⟩
  · obtain ⟨-, hlimit, -⟩ := paths_exact diamondGraph_built (some [[99]]) 0 (by decide)
    refine hlimit.mpr ⟨some [2], rfl, .inl ⟨[[0, 2]], by decide, ?_, by decide⟩⟩
    exact List.forall_mem_singleton.mpr (diamondGraph_routes.mpr (.inr rfl))

end SessionGraph

end MoonBoofuzz
