import MoonBoofuzz.Session.Graph

namespace MoonBoofuzz

namespace SessionGraph

variable {κ : Type}

/-! Routes: sequences of requests along edges, from a request without incoming
edges to a selected one. -/

inductive Route (graph : SessionGraph κ) (targets : Option (List Nat)) :
    Nat → List Nat → Prop
  | stop {index : Nat} (hselected : selects targets index = true) :
      Route graph targets index [index]
  | step {index child : Nat} {rest : List Nat}
      (hedge : child ∈ graph.successors index)
      (hrest : Route graph targets child rest) :
      Route graph targets index (index :: rest)

def FullRoute (graph : SessionGraph κ) (targets : Option (List Nat))
    (route : List Nat) : Prop :=
  ∃ root < graph.requests.length, graph.hasIncoming root = false ∧
    Route graph targets root route

/-- Depth-first order: a route comes before its extensions, and at the first
difference the sibling that was added or connected first comes first. -/
inductive Before (graph : SessionGraph κ) : List Nat → List Nat → List Nat → Prop
  | shorter {siblings : List Nat} {head : Nat} {route : List Nat} :
      Before graph siblings [] (head :: route)
  | sibling {siblings : List Nat} {first second : Nat} {left right : List Nat}
      (horder : [first, second].Sublist siblings) :
      Before graph siblings (first :: left) (second :: right)
  | deeper {siblings : List Nat} {head : Nat} {left right : List Nat}
      (hbelow : Before graph (graph.successors head) left right) :
      Before graph siblings (head :: left) (head :: right)

def hops (graph : SessionGraph κ) : List Nat → List (Option κ)
  | [] => []
  | [_] => []
  | first :: second :: rest =>
      graph.edgeCallback first second :: hops graph (second :: rest)

/-- The session path of a route: its requests, and no callback for the root
followed by the callback of each edge. -/
def routePath (graph : SessionGraph κ) (route : List Nat) : SessionPath κ where
  requests := route.map graph.request
  transitions := none :: graph.hops route

theorem length_hops (graph : SessionGraph κ) :
    ∀ route : List Nat, (graph.hops route).length = route.length - 1
  | [] => rfl
  | [_] => rfl
  | first :: second :: rest => by
      rw [hops, List.length_cons, length_hops graph (second :: rest)]
      simp

theorem Route.ne_nil {graph : SessionGraph κ} {targets : Option (List Nat)}
    {index : Nat} {route : List Nat} (hroute : Route graph targets index route) :
    ∃ rest, route = index :: rest := by
  cases hroute with
  | stop _ => exact ⟨[], rfl⟩
  | step _ _ => exact ⟨_, rfl⟩

theorem routePath_lengths {graph : SessionGraph κ} {targets : Option (List Nat)}
    {route : List Nat} (hroute : FullRoute graph targets route) :
    (graph.routePath route).transitions.length =
      (graph.routePath route).requests.length := by
  obtain ⟨root, -, -, hwalk⟩ := hroute
  obtain ⟨rest, rfl⟩ := hwalk.ne_nil
  simp [routePath, length_hops]

theorem Before.irrefl {graph : SessionGraph κ} (hformed : WellFormed graph)
    {siblings route : List Nat} (hsiblings : siblings.Nodup) :
    ¬ Before graph siblings route route := by
  intro hbefore
  induction route generalizing siblings with
  | nil => cases hbefore
  | cons head rest ih =>
      cases hbefore with
      | sibling horder =>
          have := hsiblings.sublist horder
          simp at this
      | deeper hbelow => exact ih (hformed.nodup head) hbelow

section Walk

variable (graph : SessionGraph κ) (targets : Option (List Nat))
  (reachable : Nat → Bool)

/-- The routes of at most `budget` requests below a request. -/
def descend : Nat → Nat → List (List Nat)
  | 0, _ => []
  | budget + 1, index =>
      (if selects targets index then [[index]] else []) ++
        (graph.successors index).flatMap fun child =>
          if reachable child then (descend budget child).map (index :: ·) else []

/-- The walk enters a path of more than `budget` requests. -/
inductive Deep : Nat → Nat → Prop
  | zero (index : Nat) : Deep 0 index
  | step {budget index child : Nat} (hedge : child ∈ graph.successors index)
      (hreachable : reachable child = true) (hdeep : Deep budget child) :
      Deep (budget + 1) index

end Walk

/-- The outcome of appending `extra` to the output under a path limit, where
`deep` says that a path is too long. -/
structure Bounded (maxPaths : Nat) (deep : Prop) (output extra : List β)
    (result : Except ModelError (List β)) : Prop where
  limited : deep ∨ maxPaths < output.length + extra.length →
    ∃ text, result = .error (.limit text)
  complete : ¬ deep → output.length + extra.length ≤ maxPaths →
    result = .ok (output ++ extra)

theorem Bounded.nil {maxPaths : Nat} {output : List β}
    (hroom : output.length ≤ maxPaths) :
    Bounded maxPaths False output [] (.ok output) where
  limited := by
    rintro (h | h)
    · exact h.elim
    · simp at h
      omega
  complete := by simp

theorem Bounded.bind {maxPaths : Nat} {deep deep' : Prop}
    {output extra extra' : List β} {result : Except ModelError (List β)}
    {next : List β → Except ModelError (List β)}
    (hfirst : Bounded maxPaths deep output extra result)
    (hnext : (output ++ extra).length ≤ maxPaths →
      Bounded maxPaths deep' (output ++ extra) extra' (next (output ++ extra))) :
    Bounded maxPaths (deep ∨ deep') output (extra ++ extra') (result >>= next) := by
  by_cases hlimited : deep ∨ maxPaths < output.length + extra.length
  · obtain ⟨text, rfl⟩ := hfirst.limited hlimited
    refine ⟨fun _ => ⟨text, rfl⟩, ?_⟩
    intro hdeep hroom
    rcases hlimited with h | h
    · exact absurd (Or.inl h) hdeep
    · simp at hroom
      omega
  · push Not at hlimited
    obtain ⟨hshallow, hroom⟩ := hlimited
    rw [hfirst.complete hshallow hroom]
    have hrest := hnext (by simpa using hroom)
    constructor
    · intro h
      apply hrest.limited
      simpa [hshallow, Nat.add_assoc] using h
    · intro hdeep hfits
      have hcomplete := hrest.complete (fun h => hdeep (Or.inr h))
        (by simpa [Nat.add_assoc] using hfits)
      rw [← List.append_assoc]
      exact hcomplete

theorem Bounded.foldlM {maxPaths : Nat} {deep : α → Prop} {extra : α → List β}
    {next : List β → α → Except ModelError (List β)} :
    ∀ (items : List α) {output : List β}, output.length ≤ maxPaths →
      (∀ item ∈ items, ∀ output : List β, output.length ≤ maxPaths →
        Bounded maxPaths (deep item) output (extra item) (next output item)) →
      Bounded maxPaths (∃ item ∈ items, deep item) output (items.flatMap extra)
        (items.foldlM next output)
  | [], output, hroom, _ => by
      simpa [pure, Except.pure] using Bounded.nil hroom
  | item :: rest, output, hroom, hitems => by
      have hfirst := hitems item (by simp) output hroom
      have htail : (output ++ extra item).length ≤ maxPaths →
          Bounded maxPaths (∃ item ∈ rest, deep item) (output ++ extra item)
            (rest.flatMap extra) (rest.foldlM next (output ++ extra item)) :=
        fun hfits => Bounded.foldlM rest hfits
          fun other hmem => hitems other (by simp [hmem])
      simpa using hfirst.bind htail

section Walk

variable {graph : SessionGraph κ} {targets : Option (List Nat)}
  {reachable : Nat → Bool}

def continuedPath (graph : SessionGraph κ) (past : List CompiledRequest)
    (transitions : List (Option κ)) (route : List Nat) : SessionPath κ where
  requests := past ++ route.map graph.request
  transitions :=
    (if transitions.isEmpty then [none] else transitions) ++ graph.hops route

theorem descend_head {budget index : Nat} {route : List Nat}
    (hmem : route ∈ descend graph targets reachable budget index) :
    ∃ rest, route = index :: rest := by
  cases budget with
  | zero => simp [descend] at hmem
  | succ budget =>
      simp only [descend, List.mem_append, List.mem_flatMap] at hmem
      rcases hmem with hstop | ⟨child, -, hbelow⟩
      · split at hstop
        · exact ⟨[], List.mem_singleton.mp hstop⟩
        · simp at hstop
      · split at hbelow
        · obtain ⟨rest, -, rfl⟩ := List.mem_map.mp hbelow
          exact ⟨rest, rfl⟩
        · simp at hbelow

theorem deep_succ_iff {budget index : Nat} :
    Deep graph reachable (budget + 1) index ↔
      ∃ child ∈ graph.successors index,
        reachable child = true ∧ Deep graph reachable budget child := by
  constructor
  · intro hdeep
    cases hdeep with
    | step hedge hreachable hbelow => exact ⟨_, hedge, hreachable, hbelow⟩
  · rintro ⟨child, hedge, hreachable, hbelow⟩
    exact .step hedge hreachable hbelow

theorem map_continuedPath (past : List CompiledRequest)
    (transitions : List (Option κ)) (budget index child : Nat) :
    ((descend graph targets reachable budget child).map (index :: ·)).map
        (graph.continuedPath past transitions) =
      (descend graph targets reachable budget child).map
        (graph.continuedPath (past ++ [graph.request index])
          ((if transitions.isEmpty then [none] else transitions) ++
            [graph.edgeCallback index child])) := by
  rw [List.map_map]
  apply List.map_congr_left
  intro route hmem
  obtain ⟨rest, rfl⟩ := descend_head hmem
  simp [continuedPath, hops]

theorem emitPath_bounded {maxPaths : Nat} {output : List (SessionPath κ)}
    (hroom : output.length ≤ maxPaths) (index : Nat) (path : SessionPath κ) :
    Bounded maxPaths False output (if selects targets index then [path] else [])
      (if selects targets index then emitPath maxPaths path output
        else .ok output) := by
  split
  · unfold emitPath
    constructor
    · rintro (h | h)
      · exact h.elim
      · simp only [List.length_singleton] at h
        rw [if_neg (by omega)]
        exact ⟨_, rfl⟩
    · intro _ hfits
      simp only [List.length_singleton] at hfits
      rw [if_pos (by omega)]
  · exact .nil hroom

theorem walk_bounded {maxPaths budget : Nat} :
    ∀ {index : Nat} {past : List CompiledRequest} {transitions : List (Option κ)}
      {output : List (SessionPath κ)}, output.length ≤ maxPaths →
      Bounded maxPaths (Deep graph reachable budget index) output
        ((descend graph targets reachable budget index).map
          (graph.continuedPath past transitions))
        (graph.walk targets reachable maxPaths budget index past transitions
          output) := by
  induction budget with
  | zero =>
      intro index past transitions output hroom
      refine ⟨fun _ => ⟨_, rfl⟩, ?_⟩
      intro hshallow
      exact absurd (.zero index) hshallow
  | succ budget ih =>
      intro index past transitions output hroom
      let onward := if transitions.isEmpty then [none] else transitions
      let enter := fun (output : List (SessionPath κ)) child =>
        if reachable child then
          graph.walk targets reachable maxPaths budget child
            (past ++ [graph.request index])
            (onward ++ [graph.edgeCallback index child]) output
        else .ok output
      let below := fun child =>
        if reachable child then
          (descend graph targets reachable budget child).map
            (graph.continuedPath (past ++ [graph.request index])
              (onward ++ [graph.edgeCallback index child]))
        else []
      have hchild : ∀ child ∈ graph.successors index,
          ∀ output : List (SessionPath κ), output.length ≤ maxPaths →
            Bounded maxPaths
              (reachable child = true ∧ Deep graph reachable budget child) output
              (below child) (enter output child) := by
        intro child _ output hroom
        by_cases hreachable : reachable child = true
        · simpa [below, enter, hreachable] using ih hroom
        · simpa [below, enter, hreachable] using Bounded.nil hroom
      have hextra : (descend graph targets reachable (budget + 1) index).map
          (graph.continuedPath past transitions) =
            (if selects targets index then
              [(⟨past ++ [graph.request index], onward⟩ : SessionPath κ)] else []) ++
            (graph.successors index).flatMap below := by
        rw [descend, List.map_append, List.map_flatMap]
        congr 1
        · split
          · simp [continuedPath, hops, onward]
          · rfl
        · congr 1
          funext child
          by_cases hreachable : reachable child = true
          · simp only [below, hreachable, if_true]
            exact map_continuedPath past transitions budget index child
          · simp [below, hreachable]
      have hdeep : Deep graph reachable (budget + 1) index =
          (False ∨ ∃ child ∈ graph.successors index,
            reachable child = true ∧ Deep graph reachable budget child) := by
        rw [false_or]
        exact propext deep_succ_iff
      have hwalk : graph.walk targets reachable maxPaths (budget + 1) index past
          transitions output =
            ((if selects targets index then
              emitPath maxPaths ⟨past ++ [graph.request index], onward⟩ output
              else .ok output) >>= fun output =>
                (graph.successors index).foldlM enter output) := by
        rw [walk]
        split <;> rfl
      rw [hextra, hdeep, hwalk]
      refine (emitPath_bounded hroom index _).bind ?_
      intro hfits
      exact Bounded.foldlM (graph.successors index) hfits hchild

def Enters (graph : SessionGraph κ) (targets : Option (List Nat))
    (reachable : Nat → Bool) : Prop :=
  ∀ index < graph.requests.length,
    (reachable index = true ↔ ∃ route, Route graph targets index route)

theorem mem_descend (hformed : WellFormed graph)
    (henters : Enters graph targets reachable) {budget : Nat} :
    ∀ {index : Nat} {route : List Nat},
      route ∈ descend graph targets reachable budget index ↔
        Route graph targets index route ∧ route.length ≤ budget := by
  induction budget with
  | zero =>
      intro index route
      simp only [descend, List.not_mem_nil, false_iff, not_and]
      intro hroute hlength
      obtain ⟨rest, rfl⟩ := hroute.ne_nil
      simp at hlength
  | succ budget ih =>
      intro index route
      simp only [descend, List.mem_append, List.mem_flatMap]
      constructor
      · rintro (hstop | ⟨child, hedge, hbelow⟩)
        · split at hstop
          · rename_i hselected
            rw [List.mem_singleton.mp hstop]
            exact ⟨.stop hselected, by simp⟩
          · simp at hstop
        · split at hbelow
          · obtain ⟨rest, hrest, rfl⟩ := List.mem_map.mp hbelow
            obtain ⟨hroute, hlength⟩ := ih.mp hrest
            exact ⟨.step hedge hroute, by simpa using hlength⟩
          · simp at hbelow
      · rintro ⟨hroute, hlength⟩
        cases hroute with
        | stop hselected => exact Or.inl (by simp [hselected])
        | @step _ child rest hedge hrest =>
            have hreachable := (henters child (hformed.target_lt _ _ hedge)).mpr
              ⟨rest, hrest⟩
            refine Or.inr ⟨child, hedge, ?_⟩
            rw [if_pos hreachable]
            exact List.mem_map.mpr ⟨rest, ih.mpr ⟨hrest, by simpa using hlength⟩, rfl⟩

theorem deep_iff (hformed : WellFormed graph)
    (henters : Enters graph targets reachable) {budget : Nat} :
    ∀ {index : Nat}, index < graph.requests.length → reachable index = true →
      (Deep graph reachable budget index ↔
        ∃ route, Route graph targets index route ∧ budget < route.length) := by
  induction budget with
  | zero =>
      intro index hindex hreachable
      refine ⟨fun _ => ?_, fun _ => .zero index⟩
      obtain ⟨route, hroute⟩ := (henters index hindex).mp hreachable
      obtain ⟨rest, rfl⟩ := hroute.ne_nil
      exact ⟨_, hroute, by simp⟩
  | succ budget ih =>
      intro index hindex hreachable
      rw [deep_succ_iff]
      constructor
      · rintro ⟨child, hedge, hchild, hdeep⟩
        have hlt := hformed.target_lt _ _ hedge
        obtain ⟨route, hroute, hlength⟩ := (ih hlt hchild).mp hdeep
        exact ⟨index :: route, .step hedge hroute, by simpa using hlength⟩
      · rintro ⟨route, hroute, hlength⟩
        cases hroute with
        | stop _ => simp at hlength
        | @step _ child rest hedge hrest =>
            have hlt := hformed.target_lt _ _ hedge
            have hchild := (henters child hlt).mpr ⟨rest, hrest⟩
            exact ⟨child, hedge, hchild,
              (ih hlt hchild).mpr ⟨rest, hrest, by simpa using hlength⟩⟩

theorem before_of_sublist {siblings : List Nat} {first second : Nat}
    {left right : List (List Nat)}
    (hleft : ∀ route ∈ left, ∃ rest, route = first :: rest)
    (hright : ∀ route ∈ right, ∃ rest, route = second :: rest)
    (horder : [first, second].Sublist siblings) :
    ∀ one ∈ left, ∀ two ∈ right, Before graph siblings one two := by
  intro one hone two htwo
  obtain ⟨rest, rfl⟩ := hleft one hone
  obtain ⟨rest', rfl⟩ := hright two htwo
  exact .sibling horder

theorem descend_pairwise {budget : Nat} :
    ∀ {index : Nat} {siblings : List Nat},
      (descend graph targets reachable budget index).Pairwise
        (Before graph siblings) := by
  induction budget with
  | zero => simp [descend]
  | succ budget ih =>
      intro index siblings
      have hheads : ∀ child : Nat, ∀ route ∈
          (if reachable child then
            descend graph targets reachable budget child else []),
          ∃ rest, route = child :: rest := by
        intro child route hmem
        split at hmem
        · exact descend_head hmem
        · simp at hmem
      have hbelow : ((graph.successors index).flatMap fun child =>
          if reachable child then descend graph targets reachable budget child
          else []).Pairwise (Before graph (graph.successors index)) := by
        rw [List.pairwise_flatMap]
        constructor
        · intro child _
          split
          · exact ih
          · exact .nil
        · rw [List.pairwise_iff_forall_sublist]
          intro first second horder
          exact before_of_sublist (hheads first) (hheads second) horder
      have hmap : ((graph.successors index).flatMap fun child =>
          if reachable child then
            (descend graph targets reachable budget child).map (index :: ·)
          else []) = ((graph.successors index).flatMap fun child =>
            if reachable child then descend graph targets reachable budget child
            else []).map (index :: ·) := by
        rw [List.map_flatMap]
        congr 1
        funext child
        split <;> rfl
      rw [descend, hmap, List.pairwise_append]
      refine ⟨by split <;> simp, ?_, ?_⟩
      · rw [List.pairwise_map]
        exact hbelow.imp .deeper
      · intro one hone two htwo
        split at hone
        · rw [List.mem_singleton.mp hone]
          obtain ⟨rest, hrest, rfl⟩ := List.mem_map.mp htwo
          obtain ⟨child, -, hroute⟩ := List.mem_flatMap.mp hrest
          obtain ⟨tail, rfl⟩ := hheads child rest hroute
          exact .deeper .shorter
        · simp at hone

def isRoot (graph : SessionGraph κ) (reachable : Nat → Bool) (index : Nat) : Bool :=
  !graph.hasIncoming index && reachable index

def emittedRoutes (graph : SessionGraph κ) (targets : Option (List Nat))
    (reachable : Nat → Bool) : List (List Nat) :=
  (List.range graph.requests.length).flatMap fun index =>
    if graph.isRoot reachable index then descend graph targets reachable 256 index
    else []

theorem walkRoots_bounded (graph : SessionGraph κ) (targets : Option (List Nat))
    (reachable : Nat → Bool) (maxPaths : Nat) :
    Bounded maxPaths
      (∃ index ∈ List.range graph.requests.length,
        graph.isRoot reachable index = true ∧ Deep graph reachable 256 index)
      [] ((graph.emittedRoutes targets reachable).map graph.routePath)
      (graph.walkRoots targets reachable maxPaths) := by
  have hmap : (graph.emittedRoutes targets reachable).map graph.routePath =
      (List.range graph.requests.length).flatMap fun index =>
        if graph.isRoot reachable index then
          (descend graph targets reachable 256 index).map
            (graph.continuedPath [] [])
        else [] := by
    rw [emittedRoutes, List.map_flatMap]
    congr 1
    funext index
    split <;> rfl
  rw [hmap]
  apply Bounded.foldlM _ (Nat.zero_le maxPaths)
  intro index _ output hroom
  by_cases hroot : graph.isRoot reachable index = true
  · have hcondition : (!graph.hasIncoming index && reachable index) = true := hroot
    simpa [hroot, hcondition] using walk_bounded hroom
  · have hcondition : (!graph.hasIncoming index && reachable index) = false := by
      simpa [isRoot] using hroot
    simpa [hroot, hcondition] using Bounded.nil hroom

theorem mem_emittedRoutes (hformed : WellFormed graph)
    (henters : Enters graph targets reachable) {route : List Nat} :
    route ∈ graph.emittedRoutes targets reachable ↔
      FullRoute graph targets route ∧ route.length ≤ 256 := by
  simp only [emittedRoutes, List.mem_flatMap, List.mem_range]
  constructor
  · rintro ⟨root, hroot, hmem⟩
    split at hmem
    · rename_i hisRoot
      simp only [isRoot, Bool.and_eq_true, Bool.not_eq_true'] at hisRoot
      obtain ⟨hroute, hlength⟩ := (mem_descend hformed henters).mp hmem
      exact ⟨⟨root, hroot, hisRoot.1, hroute⟩, hlength⟩
    · simp at hmem
  · rintro ⟨⟨root, hroot, hincoming, hroute⟩, hlength⟩
    have hreachable := (henters root hroot).mpr ⟨route, hroute⟩
    refine ⟨root, hroot, ?_⟩
    rw [if_pos (by simp [isRoot, hincoming, hreachable])]
    exact (mem_descend hformed henters).mpr ⟨hroute, hlength⟩

theorem emittedRoutes_pairwise :
    (graph.emittedRoutes targets reachable).Pairwise
      (Before graph (List.range graph.requests.length)) := by
  rw [emittedRoutes, List.pairwise_flatMap]
  constructor
  · intro index _
    split
    · exact descend_pairwise
    · exact .nil
  · rw [List.pairwise_iff_forall_sublist]
    intro first second horder
    refine before_of_sublist ?_ ?_ horder
    all_goals
      intro route hmem
      split at hmem
      · exact descend_head hmem
      · simp at hmem

end Walk

end SessionGraph

end MoonBoofuzz
