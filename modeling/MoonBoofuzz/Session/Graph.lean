import MoonBoofuzz.Data.Worklist
import MoonBoofuzz.Model.Compile

namespace MoonBoofuzz

/-! Session graphs.  Edge callbacks are carried around and never run here, so
their type is a parameter. -/

structure SessionGraph (κ : Type) where
  requests : List CompiledRequest
  edges : List (List Nat)
  names : List (Text × Nat)
  edgeCallbacks : List ((Nat × Nat) × κ)

/-- The requests of a path, and for each the callback on the edge into it. -/
structure SessionPath (κ : Type) where
  requests : List CompiledRequest
  transitions : List (Option κ)

namespace SessionGraph

variable {κ : Type}

def new : SessionGraph κ where
  requests := []
  edges := []
  names := []
  edgeCallbacks := []

def successors (graph : SessionGraph κ) (index : Nat) : List Nat :=
  graph.edges.getD index []

def add (graph : SessionGraph κ) (request : CompiledRequest) :
    Except ModelError (SessionGraph κ) :=
  if (graph.names.lookup request.name).isSome then
    .error (.invalid (Text.ofAscii "duplicate session request: " ++ request.name))
  else
    .ok { graph with
      names := graph.names ++ [(request.name, graph.requests.length)]
      requests := graph.requests ++ [request]
      edges := graph.edges ++ [[]] }

def unknownRequest (name : Text) : ModelError :=
  .invalid (Text.ofAscii "unknown session request: " ++ name)

def resolve (graph : SessionGraph κ) (name : Text) : Except ModelError Nat :=
  match graph.names.lookup name with
  | some index => .ok index
  | none => .error (unknownRequest name)

/-- The search of `connect` stops where it comes back to the source. -/
def closesCycle (source index : Nat) : Option ModelError :=
  if index = source then some (.invalidText "session graph cycle") else none

/-- `connect`; the fuel bounds the search for a cycle. -/
def connect (graph : SessionGraph κ) (source target : Text) (callback : Option κ)
    (fuel : Nat) : Run (SessionGraph κ) := do
  let source ← graph.resolve source
  let target ← graph.resolve target
  Eval.check (target ∉ graph.successors source)
    (.invalidText "duplicate session edge")
  let _ ← Worklist.explore graph.successors (closesCycle source) fuel [target] []
  .done { graph with
    edges := graph.edges.modify source (· ++ [target])
    edgeCallbacks := match callback with
      | some function => ((source, target), function) :: graph.edgeCallbacks
      | none => graph.edgeCallbacks }

def request (graph : SessionGraph κ) (index : Nat) : CompiledRequest :=
  graph.requests.getD index ⟨[], [], [], 0, .sequence []⟩

def edgeCallback (graph : SessionGraph κ) (source target : Nat) : Option κ :=
  graph.edgeCallbacks.lookup (source, target)

/-- Whether paths may end at a request; all may when none are selected. -/
def selects (targets : Option (List Nat)) (index : Nat) : Bool :=
  match targets with
  | some indices => indices.contains index
  | none => true

def emitPath (maxPaths : Nat) (path : SessionPath κ) (output : List (SessionPath κ)) :
    Except ModelError (List (SessionPath κ)) :=
  if output.length < maxPaths then .ok (output ++ [path])
  else .error (.limitText "session path count limit")

/-- `walk`; the budget is 256 less the length of the path so far. -/
def walk (graph : SessionGraph κ) (targets : Option (List Nat))
    (reachable : Nat → Bool) (maxPaths : Nat) :
    Nat → Nat → List CompiledRequest → List (Option κ) → List (SessionPath κ) →
      Except ModelError (List (SessionPath κ))
  | 0, _, _, _, _ => .error (.limitText "session path exceeds 256 requests")
  | budget + 1, index, past, transitions, output => do
      let path := past ++ [graph.request index]
      let transitions := if transitions.isEmpty then [none] else transitions
      let output ←
        if selects targets index then emitPath maxPaths ⟨path, transitions⟩ output
        else .ok output
      (graph.successors index).foldlM
        (fun output child =>
          if reachable child then
            walk graph targets reachable maxPaths budget child path
              (transitions ++ [graph.edgeCallback index child]) output
          else .ok output)
        output

def predecessors (graph : SessionGraph κ) (index : Nat) : List Nat :=
  (List.range graph.edges.length).filter fun source =>
    (graph.successors source).contains index

def hasIncoming (graph : SessionGraph κ) (index : Nat) : Bool :=
  graph.edges.any fun targets => targets.contains index

def resolveAll (graph : SessionGraph κ) : List Text → Except ModelError (List Nat)
  | [] => .ok []
  | name :: rest => do
      let index ← graph.resolve name
      let others ← resolveAll graph rest
      .ok (index :: others)

def resolveTargets (graph : SessionGraph κ) :
    Option (List Text) → Except ModelError (Option (List Nat))
  | none => .ok none
  | some names => do
      let indices ← graph.resolveAll names
      .ok (some indices)

def reachableSet (graph : SessionGraph κ) (targets : Option (List Nat)) (fuel : Nat) :
    Run (List Nat) :=
  match targets with
  | none => .done (List.range graph.requests.length)
  | some indices =>
      Worklist.explore graph.predecessors (fun _ => none) fuel indices.reverse []

/-- Roots follow insertion order. -/
def walkRoots (graph : SessionGraph κ) (targets : Option (List Nat))
    (reachable : Nat → Bool) (maxPaths : Nat) :
    Except ModelError (List (SessionPath κ)) :=
  (List.range graph.requests.length).foldlM
    (fun output index =>
      if !graph.hasIncoming index && reachable index then
        graph.walk targets reachable maxPaths 256 index [] [] output
      else .ok output)
    []

/-- `paths`; the fuel bounds the backward search from the targets. -/
def paths (graph : SessionGraph κ) (targets : Option (List Text)) (maxPaths : Int32)
    (fuel : Nat) : Run (List (SessionPath κ)) := do
  Eval.check (0 ≤ maxPaths.toInt) (.invalidText "negative path limit")
  let selected ← graph.resolveTargets targets
  let reachable ← graph.reachableSet selected fuel
  graph.walkRoots selected reachable.contains maxPaths.toInt.toNat

/-- A graph that some sequence of `add` and `connect` calls produces. -/
inductive Built : SessionGraph κ → Prop
  | new : Built new
  | add {graph graph' : SessionGraph κ} {request : CompiledRequest}
      (hbuilt : Built graph) (hadd : graph.add request = .ok graph') : Built graph'
  | connect {graph graph' : SessionGraph κ} {source target : Text}
      {callback : Option κ} (hbuilt : Built graph)
      (hconnect : Eval.Returns (graph.connect source target callback) graph') :
      Built graph'

structure WellFormed (graph : SessionGraph κ) : Prop where
  edges_length : graph.edges.length = graph.requests.length
  target_lt : ∀ source target, target ∈ graph.successors source →
    target < graph.requests.length
  nodup : ∀ source, (graph.successors source).Nodup
  name_lt : ∀ name index, graph.names.lookup name = some index →
    index < graph.requests.length

theorem successors_add {graph graph' : SessionGraph κ} {request : CompiledRequest}
    (hadd : graph.add request = .ok graph') (source : Nat) :
    graph'.successors source = graph.successors source := by
  unfold add at hadd
  split at hadd
  · cases hadd
  · cases hadd
    simp only [successors, List.getD_eq_getElem?_getD]
    rcases Nat.lt_trichotomy source graph.edges.length with hlt | rfl | hgt
    · rw [List.getElem?_append_left hlt]
    · simp
    · rw [List.getElem?_eq_none (by simp; omega), List.getElem?_eq_none (by omega)]

theorem WellFormed.add {graph graph' : SessionGraph κ} {request : CompiledRequest}
    (hformed : WellFormed graph) (hadd : graph.add request = .ok graph') :
    WellFormed graph' := by
  have hsuccessors := successors_add hadd
  unfold SessionGraph.add at hadd
  split at hadd
  · cases hadd
  · cases hadd
    refine {
      edges_length := by simp [hformed.edges_length]
      target_lt := ?_
      nodup := fun source => hsuccessors source ▸ hformed.nodup source
      name_lt := ?_ }
    · intro source target hmem
      rw [hsuccessors] at hmem
      have := hformed.target_lt source target hmem
      simp
      omega
    · intro name index hlookup
      rw [List.lookup_append] at hlookup
      simp only [List.length_append, List.length_singleton]
      cases hfirst : graph.names.lookup name with
      | some found =>
          simp only [hfirst, Option.some_or, Option.some.injEq] at hlookup
          have := hformed.name_lt name found hfirst
          omega
      | none =>
          simp only [hfirst, Option.none_or, List.lookup_cons, List.lookup_nil]
            at hlookup
          split at hlookup
          · cases hlookup
            omega
          · cases hlookup

theorem successors_modify (graph : SessionGraph κ) (source target other : Nat)
    (hsource : source < graph.edges.length) :
    (graph.edges.modify source (· ++ [target])).getD other [] =
      if other = source then graph.successors other ++ [target]
      else graph.successors other := by
  simp only [successors, List.getD_eq_getElem?_getD, List.getElem?_modify]
  by_cases hother : other = source
  · subst hother
    simp [List.getElem?_eq_getElem hsource]
  · simp [hother, Ne.symm hother]

theorem WellFormed.connect {graph graph' : SessionGraph κ} {source target : Text}
    {callback : Option κ} {fuel : Nat} (hformed : WellFormed graph)
    (hconnect : graph.connect source target callback fuel = .done graph') :
    WellFormed graph' := by
  simp only [SessionGraph.connect, Eval.bind_eq_done_iff, Eval.liftM_eq,
    Eval.ofExcept_eq_done_iff, Eval.check_eq_done_iff, Eval.done.injEq] at hconnect
  obtain ⟨origin, hfrom, goal, hto, _, hnew, _, -, rfl⟩ := hconnect
  have hbound : ∀ {name : Text} {index : Nat}, graph.resolve name = .ok index →
      index < graph.requests.length := by
    intro name index hresolve
    unfold resolve at hresolve
    split at hresolve
    · rename_i found hfound
      cases hresolve
      exact hformed.name_lt name index hfound
    · cases hresolve
  have hsource : origin < graph.edges.length := hformed.edges_length ▸ hbound hfrom
  refine {
    edges_length := by simp [hformed.edges_length]
    target_lt := ?_
    nodup := ?_
    name_lt := hformed.name_lt }
  · intro other index hmem
    rw [successors, successors_modify graph origin goal other hsource] at hmem
    split at hmem
    · rcases List.mem_append.mp hmem with h | h
      · exact hformed.target_lt other index h
      · rw [List.mem_singleton.mp h]
        exact hbound hto
    · exact hformed.target_lt other index hmem
  · intro other
    rw [successors, successors_modify graph origin goal other hsource]
    split
    · rename_i hother
      subst hother
      rw [List.nodup_append]
      refine ⟨hformed.nodup other, List.nodup_singleton _, ?_⟩
      intro x hx y hy
      rw [List.mem_singleton.mp hy]
      rintro rfl
      exact hnew hx
    · exact hformed.nodup other

theorem Built.wellFormed {graph : SessionGraph κ} (hbuilt : Built graph) :
    WellFormed graph := by
  induction hbuilt with
  | new => exact ⟨rfl, by simp [successors, SessionGraph.new],
      by simp [successors, SessionGraph.new], by simp [SessionGraph.new]⟩
  | add _ hadd ih => exact ih.add hadd
  | connect _ hconnect ih =>
      obtain ⟨fuel, hdone⟩ := hconnect
      exact ih.connect hdone

end SessionGraph

end MoonBoofuzz
