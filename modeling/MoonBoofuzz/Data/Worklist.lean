import Mathlib.Data.Finset.Card
import Mathlib.Logic.Relation
import MoonBoofuzz.Data.Eval

namespace MoonBoofuzz

/-! The items of a finite set that a list does not hold yet. -/

section Unseen

variable {α : Type} [DecidableEq α]

def unseen (whole : Finset α) (seen : List α) : Nat :=
  (whole \ seen.toFinset).card

theorem unseen_le (whole : Finset α) (seen : List α) :
    unseen whole seen ≤ whole.card :=
  Finset.card_le_card Finset.sdiff_subset

theorem unseen_anti (whole : Finset α) {seen seen' : List α}
    (hsubset : seen ⊆ seen') : unseen whole seen' ≤ unseen whole seen := by
  apply Finset.card_le_card
  intro item hmem
  simp only [Finset.mem_sdiff, List.mem_toFinset] at hmem ⊢
  exact ⟨hmem.1, fun h => hmem.2 (hsubset h)⟩

theorem unseen_lt {whole : Finset α} {seen seen' : List α} {item : α}
    (hwhole : item ∈ whole) (hnew : item ∉ seen) (hsubset : seen ⊆ seen')
    (hmem : item ∈ seen') : unseen whole seen' < unseen whole seen := by
  apply Finset.card_lt_card
  refine ⟨?_, ?_⟩
  · intro other hother
    simp only [Finset.mem_sdiff, List.mem_toFinset] at hother ⊢
    exact ⟨hother.1, fun h => hother.2 (hsubset h)⟩
  · intro hback
    have hunseen : item ∈ whole \ seen.toFinset := by simp [hwhole, hnew]
    have := hback hunseen
    simp [hmem] at this

end Unseen

namespace Worklist

/-- Pops an item, stops the search if the item asks for it, and otherwise pushes
the successors of an item that has not been seen. -/
def explore [DecidableEq α] (next : α → List α) (stop : α → Option ε) :
    Nat → List α → List α → Eval ε (List α)
  | 0, _, _ => .pending
  | _ + 1, [], seen => .done seen
  | fuel + 1, item :: rest, seen =>
      match stop item with
      | some error => .raised error
      | none =>
          if item ∈ seen then explore next stop fuel rest seen
          else explore next stop fuel ((next item).reverse ++ rest) (item :: seen)

/-- The items a search from `start` can come to. -/
def Found (next : α → List α) (start : List α) (item : α) : Prop :=
  ∃ source ∈ start, Relation.ReflTransGen (fun x y => y ∈ next x) source item

/-- Successors of seen items have been seen or are pending. -/
def Closed (next : α → List α) (seen pending : List α) : Prop :=
  ∀ item ∈ seen, ∀ target ∈ next item, target ∈ seen ∨ target ∈ pending

section

variable {α : Type} {next : α → List α}

theorem Found.of_mem {start : List α} {item : α} (hmem : item ∈ start) :
    Found next start item := ⟨item, hmem, .refl⟩

theorem Found.mono {first second : List α} {item : α}
    (hfound : Found next first item)
    (hsources : ∀ source ∈ first, Found next second source) :
    Found next second item := by
  obtain ⟨source, hmem, hreaches⟩ := hfound
  obtain ⟨origin, horigin, hpath⟩ := hsources source hmem
  exact ⟨origin, horigin, hpath.trans hreaches⟩

theorem found_skip {item : α} {rest seen : List α} (hseen : item ∈ seen)
    (target : α) :
    Found next (seen ++ rest) target ↔ Found next (seen ++ item :: rest) target := by
  constructor
  · intro hfound
    apply hfound.mono
    intro source hmem
    rcases List.mem_append.mp hmem with h | h
    · exact .of_mem (by simp [h])
    · exact .of_mem (by simp [h])
  · intro hfound
    apply hfound.mono
    intro source hmem
    simp only [List.mem_append, List.mem_cons] at hmem
    rcases hmem with h | rfl | h
    · exact .of_mem (by simp [h])
    · exact .of_mem (by simp [hseen])
    · exact .of_mem (by simp [h])

theorem found_expand {item : α} {rest seen : List α} (target : α) :
    Found next ((item :: seen) ++ ((next item).reverse ++ rest)) target ↔
      Found next (seen ++ item :: rest) target := by
  constructor
  · intro hfound
    apply hfound.mono
    intro source hmem
    simp only [List.cons_append, List.mem_cons, List.mem_append, List.mem_reverse]
      at hmem
    rcases hmem with rfl | hseen | hnext | hrest
    · exact .of_mem (by simp)
    · exact .of_mem (by simp [hseen])
    · exact ⟨item, by simp, .single hnext⟩
    · exact .of_mem (by simp [hrest])
  · intro hfound
    apply hfound.mono
    intro source hmem
    simp only [List.mem_append, List.mem_cons] at hmem
    rcases hmem with hseen | rfl | hrest
    · exact .of_mem (by simp [hseen])
    · exact .of_mem (by simp)
    · exact .of_mem (by simp [hrest])

theorem Closed.skip {item : α} {rest seen : List α} (hseen : item ∈ seen)
    (hclosed : Closed next seen (item :: rest)) : Closed next seen rest := by
  intro source hsource target htarget
  rcases hclosed source hsource target htarget with h | h
  · exact Or.inl h
  · rcases List.mem_cons.mp h with rfl | h
    · exact Or.inl hseen
    · exact Or.inr h

theorem Closed.expand {item : α} {rest seen : List α}
    (hclosed : Closed next seen (item :: rest)) :
    Closed next (item :: seen) ((next item).reverse ++ rest) := by
  intro source hsource target htarget
  rcases List.mem_cons.mp hsource with rfl | hsource
  · exact Or.inr (by simp [htarget])
  · rcases hclosed source hsource target htarget with h | h
    · exact Or.inl (by simp [h])
    · rcases List.mem_cons.mp h with rfl | h
      · exact Or.inl (by simp)
      · exact Or.inr (by simp [h])

theorem Closed.found {seen : List α} (hclosed : Closed next seen []) {target : α}
    (hfound : Found next seen target) : target ∈ seen := by
  obtain ⟨source, hmem, hreaches⟩ := hfound
  induction hreaches with
  | refl => exact hmem
  | tail _ hstep ih =>
      rcases hclosed _ ih _ hstep with hseen | hnone
      · exact hseen
      · cases hnone

end

variable {α ε : Type} [DecidableEq α] {next : α → List α} {stop : α → Option ε}

theorem explore_le_succ (fuel : Nat) (pending seen : List α) :
    explore next stop fuel pending seen ≤
      explore next stop (fuel + 1) pending seen := by
  induction fuel generalizing pending seen with
  | zero => exact Eval.pending_le _
  | succ fuel ih =>
      cases pending with
      | nil => exact le_refl _
      | cons item rest =>
          rw [explore, explore]
          cases stop item with
          | some error => exact le_refl _
          | none =>
              by_cases hseen : item ∈ seen
              · simpa only [hseen, if_true] using ih rest seen
              · simpa only [hseen, if_false] using ih _ _

theorem explore_mono (pending seen : List α) :
    Monotone fun fuel => explore next stop fuel pending seen :=
  monotone_nat_of_le_succ fun fuel => explore_le_succ fuel pending seen

theorem explore_ne_raised {fuel : Nat} {error : ε} :
    ∀ {pending seen : List α},
      explore next (fun _ => none) fuel pending seen ≠ .raised error := by
  induction fuel with
  | zero => simp [explore]
  | succ fuel ih =>
      intro pending seen
      cases pending with
      | nil => simp [explore]
      | cons item rest =>
          rw [explore]
          split
          · rename_i h
            cases h
          · split
            · exact ih
            · exact ih

/-- A search that comes to its end has seen exactly what can be found. -/
theorem mem_explore {fuel : Nat} :
    ∀ {pending seen result : List α}, Closed next seen pending →
      explore next stop fuel pending seen = .done result →
      ∀ target, target ∈ result ↔ Found next (seen ++ pending) target := by
  induction fuel with
  | zero =>
      intro pending seen result _ hexplore
      simp [explore] at hexplore
  | succ fuel ih =>
      intro pending seen result hclosed hexplore target
      cases pending with
      | nil =>
          simp only [explore, Eval.done.injEq] at hexplore
          subst result
          rw [List.append_nil]
          exact ⟨.of_mem, hclosed.found⟩
      | cons item rest =>
          rw [explore] at hexplore
          cases hstop : stop item with
          | some error => simp [hstop] at hexplore
          | none =>
              simp only [hstop] at hexplore
              split at hexplore
              · rename_i hseen
                rw [ih (hclosed.skip hseen) hexplore target]
                exact found_skip hseen target
              · rw [ih hclosed.expand hexplore target]
                exact found_expand target

theorem explore_done_stop {fuel : Nat} :
    ∀ {pending seen result : List α},
      explore next stop fuel pending seen = .done result →
      ∀ target ∈ result, target ∈ seen ∨ stop target = none := by
  induction fuel with
  | zero =>
      intro pending seen result hexplore
      cases hexplore
  | succ fuel ih =>
      intro pending seen result hexplore target hmem
      cases pending with
      | nil =>
          simp only [explore, Eval.done.injEq] at hexplore
          exact Or.inl (hexplore ▸ hmem)
      | cons item rest =>
          rw [explore] at hexplore
          cases hstop : stop item with
          | some error => simp [hstop] at hexplore
          | none =>
              simp only [hstop] at hexplore
              split at hexplore
              · exact ih hexplore target hmem
              · rcases ih hexplore target hmem with hseen | hnone
                · rcases List.mem_cons.mp hseen with rfl | hseen
                  · exact Or.inr hstop
                  · exact Or.inl hseen
                · exact Or.inr hnone

theorem explore_raised {fuel : Nat} {error : ε} :
    ∀ {pending seen : List α}, explore next stop fuel pending seen = .raised error →
      ∃ item, Found next (seen ++ pending) item ∧ stop item = some error := by
  induction fuel with
  | zero =>
      intro pending seen hexplore
      cases hexplore
  | succ fuel ih =>
      intro pending seen hexplore
      cases pending with
      | nil => cases hexplore
      | cons item rest =>
          rw [explore] at hexplore
          cases hstop : stop item with
          | some other =>
              simp only [hstop, Eval.raised.injEq] at hexplore
              subst hexplore
              exact ⟨item, .of_mem (by simp), hstop⟩
          | none =>
              simp only [hstop] at hexplore
              split at hexplore
              · rename_i hseen
                obtain ⟨found, hfound, hraised⟩ := ih hexplore
                exact ⟨found, (found_skip hseen found).mp hfound, hraised⟩
              · obtain ⟨found, hfound, hraised⟩ := ih hexplore
                exact ⟨found, (found_expand found).mp hfound, hraised⟩

theorem explore_terminates {whole : Finset α}
    (hnext : ∀ item ∈ whole, ∀ target ∈ next item, target ∈ whole) {count : Nat} :
    ∀ {pending seen : List α}, unseen whole seen = count →
      (∀ item ∈ pending, item ∈ whole) →
      Eval.Terminates fun fuel => explore next stop fuel pending seen := by
  -- Every push makes the set of unseen items smaller, every other pop the stack.
  induction count using Nat.strong_induction_on with
  | _ count ihcount =>
      intro pending seen hcount hpending
      induction pending with
      | nil => exact ⟨1, by simp [explore]⟩
      | cons item rest ih =>
          have hitem := hpending item (by simp)
          have hrest : ∀ other ∈ rest, other ∈ whole :=
            fun other hmem => hpending other (by simp [hmem])
          cases hstop : stop item with
          | some error => exact ⟨1, by simp [explore, hstop]⟩
          | none =>
              by_cases hseen : item ∈ seen
              · obtain ⟨fuel, hfuel⟩ := ih hrest
                exact ⟨fuel + 1, by simpa [explore, hstop, hseen] using hfuel⟩
              · have hless : unseen whole (item :: seen) < count := by
                  rw [← hcount]
                  exact unseen_lt hitem hseen (List.subset_cons_self _ _)
                    List.mem_cons_self
                have hinside : ∀ other ∈ (next item).reverse ++ rest,
                    other ∈ whole := by
                  intro other hmem
                  rcases List.mem_append.mp hmem with h | h
                  · exact hnext item hitem other (by simpa using h)
                  · exact hrest other h
                obtain ⟨fuel, hfuel⟩ := ihcount _ hless rfl hinside
                exact ⟨fuel + 1, by simpa [explore, hstop, hseen] using hfuel⟩

end Worklist

end MoonBoofuzz
