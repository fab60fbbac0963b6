import MoonBoofuzz.Data.Act
import MoonBoofuzz.Session.Paths

namespace MoonBoofuzz

section

variable {α : Type} {relation : α → α → Prop} {first second : α}

def Acyclic (relation : α → α → Prop) : Prop :=
  ∀ item, ¬ Relation.TransGen relation item item

def withPair (relation : α → α → Prop) (first second : α) (left right : α) : Prop :=
  relation left right ∨ left = first ∧ right = second

/-- A chain either does without the new pair or passes through it. -/
theorem transGen_withPair {left right : α}
    (hchain : Relation.TransGen (withPair relation first second) left right) :
    Relation.TransGen relation left right ∨
      Relation.ReflTransGen relation left first ∧
        Relation.ReflTransGen relation second right := by
  induction hchain with
  | single hstep =>
      rcases hstep with hstep | ⟨rfl, rfl⟩
      · exact Or.inl (.single hstep)
      · exact Or.inr ⟨.refl, .refl⟩
  | tail _ hstep ih =>
      rcases hstep with hstep | ⟨rfl, rfl⟩
      · rcases ih with hold | ⟨hbefore, hafter⟩
        · exact Or.inl (hold.tail hstep)
        · exact Or.inr ⟨hbefore, hafter.tail hstep⟩
      · rcases ih with hold | ⟨hbefore, -⟩
        · exact Or.inr ⟨hold.to_reflTransGen, .refl⟩
        · exact Or.inr ⟨hbefore, .refl⟩

/-- A pair closes a cycle exactly when a chain leads back. -/
theorem acyclic_withPair (hacyclic : Acyclic relation) :
    Acyclic (withPair relation first second) ↔
      ¬ Relation.ReflTransGen relation second first := by
  constructor
  · intro hwith hback
    have hpair : Relation.TransGen (withPair relation first second) first second :=
      .single (Or.inr ⟨rfl, rfl⟩)
    have hwider : relation ≤ withPair relation first second := fun _ _ => Or.inl
    exact hwith first (hpair.trans_left (Relation.ReflTransGen.mono hwider _ _ hback))
  · intro hback item hcycle
    rcases transGen_withPair hcycle with hold | ⟨hbefore, hafter⟩
    · exact hacyclic item hold
    · exact hback (hafter.trans hbefore)

end

namespace SessionGraph

variable {κ : Type}

def read : Act ModelError (SessionGraph κ) (SessionGraph κ) :=
  Act.perform fun graph => (graph, graph)

def update (change : SessionGraph κ → SessionGraph κ) :
    Act ModelError (SessionGraph κ) Unit :=
  Act.perform fun graph => ((), change graph)

def addCall (request : CompiledRequest) : Act ModelError (SessionGraph κ) Unit := do
  let graph ← read
  Act.ofEval (Eval.check ((graph.names.lookup request.name).isNone)
    (.invalid (Text.ofAscii "duplicate session request: " ++ request.name)))
  update fun graph =>
    { graph with names := graph.names ++ [(request.name, graph.requests.length)] }
  update fun graph => { graph with requests := graph.requests ++ [request] }
  update fun graph => { graph with edges := graph.edges ++ [[]] }

def connectCall (source target : Text) (callback : Option κ) (fuel : Nat) :
    Act ModelError (SessionGraph κ) Unit := do
  let graph ← read
  let source ← Act.ofEval (Eval.ofExcept (graph.resolve source))
  let target ← Act.ofEval (Eval.ofExcept (graph.resolve target))
  Act.ofEval (Eval.check (target ∉ graph.successors source)
    (.invalidText "duplicate session edge"))
  let _ ← Act.ofEval
    (Worklist.explore graph.successors (closesCycle source) fuel [target] [])
  update fun graph => { graph with edges := graph.edges.modify source (· ++ [target]) }
  match callback with
  | some function => update fun graph =>
      { graph with edgeCallbacks := ((source, target), function) :: graph.edgeCallbacks }
  | none => pure ()

/-- What a call leaves of a graph. -/
def settled (graph : SessionGraph κ) :
    Run (SessionGraph κ) → Run Unit × SessionGraph κ
  | .done after => (.done (), after)
  | .raised error => (.raised error, graph)
  | .pending => (.pending, graph)

theorem addCall_eq (graph : SessionGraph κ) (request : CompiledRequest) :
    addCall request graph = graph.settled (Eval.ofExcept (graph.add request)) := by
  unfold addCall add
  cases hlookup : graph.names.lookup request.name with
  | some index =>
      simp only [read, Act.bind_perform, hlookup, Option.isSome_some, if_true]
      rfl
  | none =>
      simp only [read, Act.bind_perform, hlookup, Option.isSome_none]
      rfl

theorem connectCall_eq (graph : SessionGraph κ) (source target : Text)
    (callback : Option κ) (fuel : Nat) :
    connectCall source target callback fuel graph =
      graph.settled (graph.connect source target callback fuel) := by
  unfold connectCall connect
  simp only [read, Act.bind_perform, Eval.liftM_eq]
  cases graph.resolve source with
  | error error => rfl
  | ok origin =>
      simp only [Eval.ofExcept_ok, Eval.done_bind, Act.bind_ofEval_done]
      cases graph.resolve target with
      | error error => rfl
      | ok goal =>
          simp only [Eval.ofExcept_ok, Eval.done_bind, Act.bind_ofEval_done]
          by_cases hnew : goal ∉ graph.successors origin
          · simp only [Eval.check, if_pos hnew, Eval.done_bind, Act.bind_ofEval_done]
            cases Worklist.explore graph.successors (closesCycle origin) fuel [goal] [] with
            | pending => rfl
            | raised error => rfl
            | done seen => cases callback <;> rfl
          · simp only [Eval.check, if_neg hnew]
            rfl

inductive Call (κ : Type) where
  | add (request : CompiledRequest)
  | connect (source target : Text) (callback : Option κ)

def Call.run (call : Call κ) (fuel : Nat) : Act ModelError (SessionGraph κ) Unit :=
  match call with
  | .add request => addCall request
  | .connect source target callback => connectCall source target callback fuel

/-- A graph that some calls, each come to its end, make of an empty one. -/
inductive Reached : SessionGraph κ → Prop
  | new : Reached new
  | call {graph after : SessionGraph κ} {call : Call κ} {fuel : Nat} {answer : Run Unit}
      (hreached : Reached graph) (hcall : call.run fuel graph = (answer, after))
      (hends : answer ≠ .pending) : Reached after

theorem settled_raised {graph after : SessionGraph κ} {answer : Run (SessionGraph κ)}
    {error : ModelError} (hsettled : graph.settled answer = (.raised error, after)) :
    answer = .raised error ∧ after = graph := by
  cases answer with
  | done other => cases hsettled
  | raised other =>
      cases hsettled
      exact ⟨rfl, rfl⟩
  | pending => cases hsettled

theorem settled_done {graph after : SessionGraph κ} {answer : Run (SessionGraph κ)}
    (hsettled : graph.settled answer = (.done (), after)) : answer = .done after := by
  cases answer with
  | done other =>
      cases hsettled
      rfl
  | raised other => cases hsettled
  | pending => cases hsettled

theorem Call.run_raised {graph after : SessionGraph κ} {call : Call κ} {fuel : Nat}
    {error : ModelError} (hcall : call.run fuel graph = (.raised error, after)) :
    after = graph := by
  cases call with
  | add request =>
      rw [Call.run, addCall_eq] at hcall
      exact (settled_raised hcall).2
  | connect source target callback =>
      rw [Call.run, connectCall_eq] at hcall
      exact (settled_raised hcall).2

theorem Reached.built {graph : SessionGraph κ} (hreached : Reached graph) :
    Built graph := by
  induction hreached with
  | new => exact .new
  | @call graph after call fuel answer _ hcall hends ih =>
      cases answer with
      | pending => exact absurd rfl hends
      | raised error => exact Call.run_raised hcall ▸ ih
      | done token =>
          cases call with
          | add request =>
              rw [Call.run, addCall_eq] at hcall
              exact .add ih (Eval.ofExcept_eq_done_iff.mp (settled_done hcall))
          | connect source target callback =>
              rw [Call.run, connectCall_eq] at hcall
              exact .connect ih ⟨fuel, settled_done hcall⟩

def edge (graph : SessionGraph κ) (source target : Nat) : Prop :=
  target ∈ graph.successors source

/-- No cycles, and the names are those of the requests. -/
structure Simple (graph : SessionGraph κ) : Prop where
  formed : WellFormed graph
  acyclic : Acyclic graph.edge
  named : ∀ name index, graph.names.lookup name = some index ↔
    graph.requests[index]?.map (·.name) = some name

theorem search_terminates {graph : SessionGraph κ} (hformed : WellFormed graph)
    (origin : Nat) {goal : Nat} (hgoal : goal < graph.requests.length) :
    Eval.Terminates fun fuel =>
      Worklist.explore graph.successors (closesCycle origin) fuel [goal] [] := by
  have hinside : ∀ item ∈ Finset.range graph.requests.length,
      ∀ target ∈ graph.successors item, target ∈ Finset.range graph.requests.length :=
    fun item _ target hmem => Finset.mem_range.mpr (hformed.target_lt item target hmem)
  apply Worklist.explore_terminates hinside rfl
  intro item hmem
  rw [List.mem_singleton.mp hmem]
  exact Finset.mem_range.mpr hgoal

theorem search_done {graph : SessionGraph κ} {origin goal fuel : Nat} {seen : List Nat}
    (hdone : Worklist.explore graph.successors (closesCycle origin) fuel [goal] [] =
      .done seen) : ¬ Relation.ReflTransGen graph.edge goal origin := by
  intro hreaches
  have hclosed : Worklist.Closed graph.successors [] [goal] := by
    intro item hmem
    cases hmem
  have hmem : origin ∈ seen := by
    rw [Worklist.mem_explore hclosed hdone]
    exact ⟨goal, List.mem_singleton.mpr rfl, hreaches⟩
  rcases Worklist.explore_done_stop hdone origin hmem with hseen | hnone
  · cases hseen
  · rw [closesCycle, if_pos rfl] at hnone
    cases hnone

theorem search_raised {graph : SessionGraph κ} {origin goal fuel : Nat}
    {error : ModelError}
    (hraised : Worklist.explore graph.successors (closesCycle origin) fuel [goal] [] =
      .raised error) : Relation.ReflTransGen graph.edge goal origin := by
  obtain ⟨item, ⟨source, hsource, hreaches⟩, hstop⟩ := Worklist.explore_raised hraised
  rw [List.nil_append, List.mem_singleton] at hsource
  unfold closesCycle at hstop
  split at hstop
  · rename_i hitem
    subst hitem hsource
    exact hreaches
  · cases hstop

theorem lookup_snoc {names : List (Text × Nat)} {name other : Text} {index : Nat}
    (hnew : names.lookup name = none) :
    (names ++ [(name, index)]).lookup other =
      if other = name then some index else names.lookup other := by
  rw [List.lookup_append]
  by_cases hsame : other = name
  · subst hsame
    simp [hnew]
  · have hfalse : (other == name) = false := beq_eq_false_iff_ne.mpr hsame
    simp [hsame, List.lookup_cons, hfalse]

theorem Simple.add {graph graph' : SessionGraph κ} {request : CompiledRequest}
    (hsimple : Simple graph) (hadd : graph.add request = .ok graph') : Simple graph' := by
  have hedge : graph'.edge = graph.edge := by
    funext source target
    rw [edge, edge, successors_add hadd]
  refine ⟨hsimple.formed.add hadd, hedge ▸ hsimple.acyclic, ?_⟩
  unfold SessionGraph.add at hadd
  split at hadd
  · cases hadd
  · rename_i hnew
    rw [Option.not_isSome_iff_eq_none] at hnew
    cases hadd
    intro name index
    rw [lookup_snoc hnew]
    split
    · rename_i hname
      subst hname
      constructor
      · intro hindex
        cases hindex
        simp
      · intro hrequest
        by_cases hold : index < graph.requests.length
        · rw [List.getElem?_append_left hold] at hrequest
          rw [(hsimple.named _ index).mpr hrequest] at hnew
          cases hnew
        · rw [List.getElem?_append_right (by omega)] at hrequest
          cases hzero : index - graph.requests.length with
          | zero => congr 1; omega
          | succ later => simp [hzero] at hrequest
    · rename_i hname
      rw [hsimple.named]
      by_cases hold : index < graph.requests.length
      · rw [List.getElem?_append_left hold]
      · rw [List.getElem?_append_right (by omega), List.getElem?_eq_none (by omega)]
        cases hzero : index - graph.requests.length with
        | zero => simp [Ne.symm hname]
        | succ later => simp

theorem Simple.connect {graph graph' : SessionGraph κ} {source target : Text}
    {callback : Option κ} {fuel : Nat} (hsimple : Simple graph)
    (hconnect : graph.connect source target callback fuel = .done graph') :
    Simple graph' := by
  have hformed := hsimple.formed.connect hconnect
  simp only [SessionGraph.connect, Eval.bind_eq_done_iff, Eval.liftM_eq,
    Eval.ofExcept_eq_done_iff, Eval.check_eq_done_iff, Eval.done.injEq] at hconnect
  obtain ⟨origin, hfrom, goal, -, _, -, seen, hsearch, rfl⟩ := hconnect
  have hsource : origin < graph.edges.length :=
    hsimple.formed.edges_length ▸ resolve_lt hsimple.formed hfrom
  refine ⟨hformed, ?_, hsimple.named⟩
  have hwith := (acyclic_withPair hsimple.acyclic).mpr (search_done hsearch)
  intro item hcycle
  refine hwith item (Relation.TransGen.mono ?_ _ _ hcycle)
  intro left right hedge
  rw [edge, successors, successors_modify graph origin goal left hsource] at hedge
  split at hedge
  · rename_i hleft
    rcases List.mem_append.mp hedge with hold | hnew
    · exact Or.inl hold
    · exact Or.inr ⟨hleft, List.mem_singleton.mp hnew⟩
  · exact Or.inl hedge

theorem Built.simple {graph : SessionGraph κ} (hbuilt : Built graph) : Simple graph := by
  induction hbuilt with
  | new =>
      have hnone : ∀ source, (SessionGraph.new : SessionGraph κ).successors source = [] := by
        simp [successors, SessionGraph.new]
      refine ⟨Built.new.wellFormed, fun item hcycle => ?_, by simp [SessionGraph.new]⟩
      obtain ⟨other, hedge, -⟩ := Relation.TransGen.head'_iff.mp hcycle
      rw [edge, hnone] at hedge
      cases hedge
  | add _ hadd ih => exact ih.add hadd
  | connect _ hconnect ih =>
      obtain ⟨fuel, hdone⟩ := hconnect
      exact ih.connect hdone

def Accepts (graph : SessionGraph κ) (source target : Text) : Prop :=
  ∃ origin goal, graph.names.lookup source = some origin ∧
    graph.names.lookup target = some goal ∧ ¬ graph.edge origin goal ∧
    Acyclic (withPair graph.edge origin goal)

theorem resolve_eq_ok {graph : SessionGraph κ} {name : Text} {index : Nat} :
    graph.resolve name = .ok index ↔ graph.names.lookup name = some index := by
  unfold resolve
  cases graph.names.lookup name <;> simp

theorem connect_done_iff {graph : SessionGraph κ} (hsimple : Simple graph)
    {source target : Text} {callback : Option κ} {fuel : Nat}
    (hends : graph.connect source target callback fuel ≠ .pending) :
    (∃ graph', graph.connect source target callback fuel = .done graph') ↔
      graph.Accepts source target := by
  constructor
  · rintro ⟨graph', hconnect⟩
    simp only [SessionGraph.connect, Eval.bind_eq_done_iff, Eval.liftM_eq,
      Eval.ofExcept_eq_done_iff, Eval.check_eq_done_iff, Eval.done.injEq] at hconnect
    obtain ⟨origin, hfrom, goal, hto, _, hnew, seen, hsearch, -⟩ := hconnect
    exact ⟨origin, goal, resolve_eq_ok.mp hfrom, resolve_eq_ok.mp hto, hnew,
      (acyclic_withPair hsimple.acyclic).mpr (search_done hsearch)⟩
  · rintro ⟨origin, goal, hfrom, hto, hnew, hacyclic⟩
    have hback := (acyclic_withPair hsimple.acyclic).mp hacyclic
    have hcheck : Eval.check (goal ∉ graph.successors origin)
        (ModelError.invalidText "duplicate session edge") = .done () := if_pos hnew
    simp only [SessionGraph.connect, resolve_eq_ok.mpr hfrom, resolve_eq_ok.mpr hto, hcheck,
      Eval.liftM_eq, Eval.ofExcept_ok, Eval.done_bind] at hends ⊢
    cases hsearch : Worklist.explore graph.successors (closesCycle origin) fuel [goal] [] with
    | done seen => exact ⟨_, rfl⟩
    | raised error => exact absurd (search_raised hsearch) hback
    | pending =>
        rw [hsearch] at hends
        exact absurd rfl hends

theorem connect_terminates {graph : SessionGraph κ} (hformed : WellFormed graph)
    (source target : Text) (callback : Option κ) :
    Eval.Terminates (graph.connect source target callback) := by
  cases hfrom : graph.resolve source with
  | error error => exact ⟨0, by simp [SessionGraph.connect, hfrom]⟩
  | ok origin =>
      cases hto : graph.resolve target with
      | error error => exact ⟨0, by simp [SessionGraph.connect, hfrom, hto]⟩
      | ok goal =>
          obtain ⟨fuel, hsettled⟩ := search_terminates hformed origin (resolve_lt hformed hto)
          refine ⟨fuel, ?_⟩
          simp only [SessionGraph.connect, hfrom, hto, Eval.liftM_eq, Eval.ofExcept_ok,
            Eval.done_bind]
          unfold Eval.check
          split
          · cases hsearch : Worklist.explore graph.successors (closesCycle origin) fuel
                [goal] [] with
            | done seen => simp
            | raised error => simp
            | pending => exact absurd hsearch hsettled
          · simp

/-- The graph stays a simple one without cycles over every sequence of calls, `connect`
accepts exactly the edges that keep it so, and a call that raises changes nothing. -/
theorem calls_keep_simple {graph : SessionGraph κ} (hreached : Reached graph) :
    Acyclic graph.edge ∧
      (∀ source, (graph.successors source).Nodup) ∧
      (∀ name index, graph.names.lookup name = some index ↔
        graph.requests[index]?.map (·.name) = some name) ∧
      graph.edges.length = graph.requests.length ∧
      (∀ source target callback, ∃ fuel answer after,
        (Call.connect source target callback).run fuel graph = (answer, after) ∧
          answer ≠ .pending) ∧
      (∀ source target callback fuel answer after,
        (Call.connect source target callback).run fuel graph = (answer, after) →
        answer ≠ .pending →
        (answer = .done () ↔ graph.Accepts source target) ∧
          (source = target → answer ≠ .done ())) ∧
      ∀ (call : Call κ) fuel error after,
        call.run fuel graph = (.raised error, after) → after = graph := by
  have hsimple := hreached.built.simple
  refine ⟨hsimple.acyclic, hsimple.formed.nodup, hsimple.named, hsimple.formed.edges_length,
    ?_, ?_, fun _ _ _ _ => Call.run_raised⟩
  · intro source target callback
    obtain ⟨fuel, hsettled⟩ := connect_terminates hsimple.formed source target callback
    refine ⟨fuel, _, _, connectCall_eq graph source target callback fuel, ?_⟩
    cases hconnect : graph.connect source target callback fuel with
    | done after => simp
    | raised error => simp
    | pending => exact absurd hconnect hsettled
  · intro source target callback fuel answer after hcall hends
    rw [Call.run, connectCall_eq] at hcall
    have hsettled : graph.connect source target callback fuel ≠ .pending := by
      intro hpending
      rw [hpending, settled] at hcall
      exact hends (congrArg Prod.fst hcall).symm
    have haccepts : answer = .done () ↔ graph.Accepts source target := by
      rw [← connect_done_iff hsimple hsettled]
      constructor
      · rintro rfl
        exact ⟨after, settled_done hcall⟩
      · rintro ⟨graph', hdone⟩
        rw [hdone, settled] at hcall
        exact (congrArg Prod.fst hcall).symm
    refine ⟨haccepts, ?_⟩
    rintro rfl hdone
    obtain ⟨origin, goal, hfrom, hto, -, hacyclic⟩ := haccepts.mp hdone
    obtain rfl : origin = goal := Option.some.inj (hfrom.symm.trans hto)
    exact hacyclic origin (.single (Or.inr ⟨rfl, rfl⟩))

def pairGraph : SessionGraph Nat where
  requests := [plainRequest (Text.ofAscii "a"), plainRequest (Text.ofAscii "b")]
  edges := [[1], []]
  names := [(Text.ofAscii "a", 0), (Text.ofAscii "b", 1)]
  edgeCallbacks := []

theorem pairGraph_reached : Reached pairGraph := by
  have hfirst : Reached ((addCall (plainRequest (Text.ofAscii "a")) new).2 :
      SessionGraph Nat) := by
    refine @Reached.call _ _ _ (.add (plainRequest (Text.ofAscii "a"))) 0 (.done ()) .new
      rfl (by simp)
  have hsecond := @Reached.call _ _ _ (.add (plainRequest (Text.ofAscii "b"))) 0 (.done ())
    hfirst rfl (by simp)
  exact @Reached.call _ _ pairGraph (.connect (Text.ofAscii "a") (Text.ofAscii "b") none) 3
    (.done ()) hsecond rfl (by simp)

/-- The edge back is refused. -/
theorem pairGraph_refuses :
    Acyclic pairGraph.edge ∧ ¬ pairGraph.Accepts (Text.ofAscii "b") (Text.ofAscii "a") := by
  obtain ⟨hacyclic, -, -, -, -, haccepts, -⟩ := calls_keep_simple pairGraph_reached
  have hraised : (Call.connect (Text.ofAscii "b") (Text.ofAscii "a") none).run 4 pairGraph =
      (.raised (.invalidText "session graph cycle"), pairGraph) := rfl
  obtain ⟨hiff, -⟩ := haccepts _ _ _ _ _ _ hraised (by simp)
  refine ⟨hacyclic, fun hback => ?_⟩
  cases hiff.mpr hback

end SessionGraph

end MoonBoofuzz
