import Mathlib.Data.List.Chain
import Mathlib.Logic.Relation
import MoonBoofuzz.Model.Compile

namespace MoonBoofuzz

namespace CompiledRequest

/-! The search for cycles among the dependencies. -/

def cycleError : ModelError := .invalidText "derived field dependency cycle"

def depthError : ModelError := .invalidText "derived dependency depth exceeds 256"

def Depends (edges : List (List Nat)) (index target : Nat) : Prop :=
  target ∈ edges.getD index []

def Cyclic (edges : List (List Nat)) : Prop :=
  ∃ index, Relation.TransGen (Depends edges) index index

inductive Finished (edges : List (List Nat)) : List Nat → Prop
  | nil : Finished edges []
  | cons {index : Nat} {finished : List Nat}
      (htargets : ∀ target, Depends edges index target → target ∈ finished)
      (hrest : Finished edges finished) : Finished edges (index :: finished)

/-- Entries that are being visited lie on the path, the latest first, and visited ones have
finished. -/
structure Coloured (edges : List (List Nat)) (states : List VisitState)
    (path finished : List Nat) : Prop where
  visiting : ∀ index, states.getD index .unvisited = .visiting → index ∈ path
  visited : ∀ index, states.getD index .unvisited = .visited → index ∈ finished
  order : Finished edges finished

/-- How a search from the targets ends that goes on from a path. -/
inductive Searched (edges : List (List Nat)) (path finished targets : List Nat) :
    Except ModelError (List VisitState) → Prop
  | ok {states : List VisitState} {finished' : List Nat}
      (hcoloured : Coloured edges states path finished') (hsubset : finished ⊆ finished')
      (htargets : targets ⊆ finished') : Searched edges path finished targets (.ok states)
  | cycle (hcyclic : Cyclic edges) : Searched edges path finished targets (.error cycleError)
  | deep {nodes : List Nat} (hchain : nodes.IsChain (Depends edges))
      (hlength : 257 < nodes.length) : Searched edges path finished targets (.error depthError)

section

variable {edges : List (List Nat)} {states : List VisitState} {path finished : List Nat}

theorem Finished.acc (hfinished : Finished edges finished) {index : Nat}
    (hmem : index ∈ finished) :
    Acc (fun target index => Depends edges index target) index := by
  induction hfinished generalizing index with
  | nil => cases hmem
  | cons htargets _ ih =>
      rcases List.mem_cons.mp hmem with rfl | hearlier
      · exact Acc.intro _ fun target hdepends => ih (htargets target hdepends)
      · exact ih hearlier

theorem not_cyclic_of_acc {index : Nat}
    (hacc : Acc (fun target index => Depends edges index target) index) :
    ¬ Relation.TransGen (Depends edges) index index := by
  intro hcycle
  have hself : ∀ {index : Nat},
      Acc (Relation.TransGen fun target index => Depends edges index target) index →
      ¬ Relation.TransGen (fun target index => Depends edges index target) index index := by
    intro index hacc
    induction hacc with
    | intro index _ ih => exact fun hcycle => ih index hcycle hcycle
  exact hself hacc.transGen (Relation.transGen_swap.mpr hcycle)

/-- A search that comes back to its own path has found a cycle. -/
theorem cyclic_of_path {index : Nat} (hmem : index ∈ path)
    (hchain : (index :: path).IsChain fun later earlier => Depends edges earlier later) :
    Cyclic edges := by
  have hreaches : ∀ {later : Nat} {path : List Nat},
      ((later :: path).IsChain fun later earlier => Depends edges earlier later) →
      ∀ earlier ∈ path, Relation.TransGen (Depends edges) earlier later := by
    intro later path hchain
    induction path generalizing later with
    | nil => exact fun _ hmem => absurd hmem List.not_mem_nil
    | cons next rest ih =>
        obtain ⟨hdepends, hrest⟩ := List.isChain_cons_cons.mp hchain
        intro earlier hmem
        rcases List.mem_cons.mp hmem with rfl | hearlier
        · exact .single hdepends
        · exact (ih hrest earlier hearlier).tail hdepends
  exact ⟨index, hreaches hchain index hmem⟩

theorem getD_set {index other : Nat} {state colour : VisitState} (hcolour : colour ≠ .unvisited)
    (hother : (states.set index state).getD other .unvisited = colour) :
    (other = index ∧ colour = state) ∨
      (other ≠ index ∧ states.getD other .unvisited = colour) := by
  simp only [List.getD_eq_getElem?_getD, List.getElem?_set] at hother ⊢
  split at hother
  · rename_i hequal
    split at hother
    · exact Or.inl ⟨hequal.symm, hother.symm⟩
    · exact absurd hother.symm hcolour
  · rename_i hne
    exact Or.inr ⟨fun hequal => hne hequal.symm, hother⟩

theorem Coloured.visit (hcoloured : Coloured edges states path finished) (index : Nat) :
    Coloured edges (states.set index .visiting) (index :: path) finished where
  visiting := by
    intro other hother
    rcases getD_set (by simp) hother with ⟨rfl, -⟩ | ⟨-, hbefore⟩
    · exact List.mem_cons_self
    · exact List.mem_cons_of_mem _ (hcoloured.visiting other hbefore)
  visited := by
    intro other hother
    rcases getD_set (by simp) hother with ⟨-, hstate⟩ | ⟨-, hbefore⟩
    · cases hstate
    · exact hcoloured.visited other hbefore
  order := hcoloured.order

theorem Coloured.finish {index : Nat}
    (hcoloured : Coloured edges states (index :: path) finished)
    (htargets : edges.getD index [] ⊆ finished) :
    Coloured edges (states.set index .visited) path (index :: finished) where
  visiting := by
    intro other hother
    rcases getD_set (by simp) hother with ⟨-, hstate⟩ | ⟨hne, hbefore⟩
    · cases hstate
    · exact (List.mem_cons.mp (hcoloured.visiting other hbefore)).resolve_left hne
  visited := by
    intro other hother
    rcases getD_set (by simp) hother with ⟨rfl, -⟩ | ⟨-, hbefore⟩
    · exact List.mem_cons_self
    · exact List.mem_cons_of_mem _ (hcoloured.visited other hbefore)
  order := .cons (fun _ hdepends => htargets hdepends) hcoloured.order

/-- The loop over the targets, when each visit is such a search. -/
theorem searched_targets {visit : List VisitState → Nat → Except ModelError (List VisitState)}
    (targets : List Nat) (hcoloured : Coloured edges states path finished)
    (hvisit : ∀ target ∈ targets, ∀ states finished, Coloured edges states path finished →
      Searched edges path finished [target] (visit states target)) :
    Searched edges path finished targets (targets.foldlM visit states) := by
  induction targets generalizing states finished with
  | nil => exact .ok hcoloured (List.Subset.refl _) (List.nil_subset _)
  | cons target rest ih =>
      rw [List.foldlM_cons]
      have hfirst := hvisit target List.mem_cons_self states finished hcoloured
      generalize visit states target = answer at hfirst
      cases hfirst with
      | @ok states' finished' hcoloured' hsubset htarget =>
          have hrest := ih hcoloured'
            (fun other hmem => hvisit other (List.mem_cons_of_mem _ hmem))
          change Searched edges path finished (target :: rest) (rest.foldlM visit states')
          generalize rest.foldlM visit states' = answer at hrest
          cases hrest with
          | ok hlast hsubset' htargets =>
              exact .ok hlast (List.Subset.trans hsubset hsubset') (List.cons_subset.mpr
                ⟨hsubset' (htarget List.mem_cons_self), htargets⟩)
          | cycle hcyclic => exact .cycle hcyclic
          | deep hchain hlength => exact .deep hchain hlength
      | cycle hcyclic => exact .cycle hcyclic
      | deep hchain hlength => exact .deep hchain hlength

theorem visitDependencies_searched {budget index : Nat}
    (hcoloured : Coloured edges states path finished)
    (hchain : (index :: path).IsChain fun later earlier => Depends edges earlier later)
    (hbudget : path.length + budget = 257) :
    Searched edges path finished [index] (visitDependencies edges budget index states) := by
  induction budget generalizing index states path finished with
  | zero =>
      have hforward : (index :: path).reverse.IsChain (Depends edges) :=
        List.isChain_reverse.mpr hchain
      refine .deep hforward ?_
      rw [List.length_reverse, List.length_cons]
      omega
  | succ budget ih =>
      rw [visitDependencies]
      cases hstate : states.getD index .unvisited with
      | visited =>
          exact .ok hcoloured (List.Subset.refl _)
            (List.cons_subset.mpr ⟨hcoloured.visited index hstate, List.nil_subset _⟩)
      | visiting => exact .cycle (cyclic_of_path (hcoloured.visiting index hstate) hchain)
      | unvisited =>
          have hloop : Searched edges (index :: path) finished (edges.getD index [])
              ((edges.getD index []).foldlM
                (fun states target => visitDependencies edges budget target states)
                (states.set index .visiting)) := by
            apply searched_targets _ (hcoloured.visit index)
            intro target htarget states' finished' hcoloured'
            apply ih hcoloured' (List.isChain_cons_cons.mpr ⟨htarget, hchain⟩)
            rw [List.length_cons]
            omega
          dsimp only
          generalize (edges.getD index []).foldlM
            (fun states target => visitDependencies edges budget target states)
            (states.set index .visiting) = answer at hloop
          cases hloop with
          | ok hcoloured' hsubset htargets =>
              exact .ok (hcoloured'.finish htargets) (List.subset_cons_of_subset _ hsubset)
                (List.cons_subset.mpr ⟨List.mem_cons_self, List.nil_subset _⟩)
          | cycle hcyclic => exact .cycle hcyclic
          | deep hnodes hlength => exact .deep hnodes hlength

end

theorem visitAll_searched (edges : List (List Nat)) (count : Nat) :
    Searched edges [] [] (List.range count) (visitAll edges count) := by
  have hfresh : ∀ index,
      (List.replicate count VisitState.unvisited).getD index .unvisited = .unvisited := by
    intro index
    rw [List.getD_eq_getElem?_getD, List.getElem?_replicate]
    split <;> rfl
  have hcoloured : Coloured edges (List.replicate count .unvisited) [] [] := {
    visiting := fun index hstate => by rw [hfresh index] at hstate; cases hstate
    visited := fun index hstate => by rw [hfresh index] at hstate; cases hstate
    order := .nil }
  apply searched_targets _ hcoloured
  intro index _ states finished hcoloured'
  exact visitDependencies_searched hcoloured' (List.isChain_singleton _) rfl

/-- The search over all entries raises for a cycle only when there is one, succeeds only when
there is none, and otherwise fails on a path of more than 256 dependencies. -/
theorem visitAll_finds_cycles (edges : List (List Nat)) :
    (visitAll edges edges.length = .error cycleError → Cyclic edges) ∧
    ((∃ states, visitAll edges edges.length = .ok states) → ¬ Cyclic edges) ∧
    (¬ Cyclic edges →
      (∀ nodes : List Nat, nodes.IsChain (Depends edges) → nodes.length ≤ 257) →
      ∃ states, visitAll edges edges.length = .ok states) ∧
    ((∃ states, visitAll edges edges.length = .ok states) ∨
      visitAll edges edges.length = .error cycleError ∨
      visitAll edges edges.length = .error depthError) := by
  have hsearched := visitAll_searched edges edges.length
  generalize visitAll edges edges.length = answer at hsearched ⊢
  cases hsearched with
  | @ok states finished hcoloured _ htargets =>
      have hacyclic : ¬ Cyclic edges := by
        rintro ⟨index, hcycle⟩
        have hindex : index < edges.length := by
          obtain ⟨target, hdepends, -⟩ := Relation.TransGen.head'_iff.mp hcycle
          by_contra hlarge
          rw [Depends, List.getD_eq_getElem?_getD,
            List.getElem?_eq_none (Nat.not_lt.mp hlarge)] at hdepends
          cases hdepends
        exact not_cyclic_of_acc
          (hcoloured.order.acc (htargets (List.mem_range.mpr hindex))) hcycle
      refine ⟨fun herror => ?_, fun _ => hacyclic, fun _ _ => ⟨states, rfl⟩,
        Or.inl ⟨states, rfl⟩⟩
      cases herror
  | cycle hcyclic =>
      refine ⟨fun _ => hcyclic, fun hok => ?_, fun hacyclic => absurd hcyclic hacyclic,
        Or.inr (Or.inl rfl)⟩
      obtain ⟨states, hstates⟩ := hok
      cases hstates
  | deep hchain hlength =>
      refine ⟨fun herror => ?_, fun hok => ?_, fun _ hshort => ?_, Or.inr (Or.inr rfl)⟩
      · exact absurd herror (by decide)
      · obtain ⟨states, hstates⟩ := hok
        cases hstates
      · have hle := hshort _ hchain
        omega

end CompiledRequest

end MoonBoofuzz
