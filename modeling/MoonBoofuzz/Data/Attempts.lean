import Mathlib.Data.List.Basic

namespace MoonBoofuzz

/-! Attempts one after the other, of which any may fail, and transactions made of them. -/

variable {α σ ι : Type*}

/-- What a row of attempts has done: the items done, the attempts made so far, and whether
the last one failed. -/
structure Attempted (α : Type*) where
  done : List α
  attempts : Nat
  raised : Bool

def attemptAll (fails : Nat → Bool) : Nat → List α → Attempted α
  | attempts, [] => { done := [], attempts := attempts, raised := false }
  | attempts, item :: rest =>
      if fails attempts then { done := [], attempts := attempts + 1, raised := true }
      else
        let later := attemptAll fails (attempts + 1) rest
        { later with done := item :: later.done }

variable {fails : Nat → Bool} {attempts : Nat} {items : List α}

theorem attemptAll_beginning (fails : Nat → Bool) (items : List α) : ∀ attempts : Nat,
    (attemptAll fails attempts items).done <+: items := by
  induction items with
  | nil => exact fun _ => List.prefix_refl []
  | cons item rest ih =>
      intro attempts
      rw [attemptAll]
      split
      · exact List.nil_prefix
      · exact (List.prefix_cons_inj item).mpr (ih (attempts + 1))

theorem attemptAll_done : ∀ {attempts : Nat} {items : List α},
    (attemptAll fails attempts items).raised = false →
      (attemptAll fails attempts items).done = items := by
  intro attempts items
  induction items generalizing attempts with
  | nil => exact fun _ => rfl
  | cons item rest ih =>
      rw [attemptAll]
      split
      · intro hraised
        cases hraised
      · exact fun hraised => congrArg (item :: ·) (ih hraised)

theorem attemptAll_raised : ∀ {attempts : Nat} {items : List α},
    (attemptAll fails attempts items).raised = true →
      (attemptAll fails attempts items).done.length < items.length := by
  intro attempts items
  induction items generalizing attempts with
  | nil => exact fun hraised => absurd hraised (by simp [attemptAll])
  | cons item rest ih =>
      rw [attemptAll]
      split
      · exact fun _ => Nat.zero_lt_succ _
      · exact fun hraised => Nat.succ_lt_succ (ih hraised)

def never : Nat → Bool := fun _ => false

theorem attemptAll_never (items : List α) : ∀ attempts : Nat,
    (attemptAll never attempts items).raised = false := by
  induction items with
  | nil => exact fun _ => rfl
  | cons item rest ih => exact fun attempts => ih (attempts + 1)

theorem attemptAll_cons_of_fails {item : α} (hfails : fails attempts = true) :
    attemptAll fails attempts (item :: items) =
      { done := [], attempts := attempts + 1, raised := true } := by
  rw [attemptAll, if_pos hfails]

theorem attemptAll_cons_done (item : α) (items : List α) (hsucceeds : fails attempts = false) :
    ∃ later, (attemptAll fails attempts (item :: items)).done = item :: later := by
  rw [attemptAll, if_neg (by rw [hsucceeds]; decide)]
  exact ⟨_, rfl⟩

structure Store (σ : Type*) where
  committed : σ
  working : Option σ

inductive Statement (ι : Type*) where
  | begin
  | change (item : ι)
  | commit
  | rollback

/-- Outside a transaction a change is committed at once. -/
def Store.exec (effect : σ → ι → σ) (store : Store σ) : Statement ι → Store σ
  | .begin => { store with working := some store.committed }
  | .change item =>
      match store.working with
      | some state => { store with working := some (effect state item) }
      | none => { store with committed := effect store.committed item }
  | .commit =>
      match store.working with
      | some state => { committed := state, working := none }
      | none => store
  | .rollback => { store with working := none }

structure Transacted (σ : Type*) where
  store : Store σ
  attempts : Nat
  raised : Bool

/-- Begins, makes the changes and commits; a statement that fails after the first one is
followed by a rollback. -/
def Store.transact (effect : σ → ι → σ) (fails : Nat → Bool) (attempts : Nat)
    (items : List ι) (store : Store σ) : Transacted σ :=
  let opening := attemptAll fails attempts [Statement.begin (ι := ι)]
  let opened := opening.done.foldl (Store.exec effect) store
  if opening.raised then
    { store := opened, attempts := opening.attempts, raised := true }
  else
    let body := attemptAll fails opening.attempts (items.map Statement.change ++ [.commit])
    let final := body.done.foldl (Store.exec effect) opened
    { store := if body.raised then final.exec effect .rollback else final
      attempts := body.attempts
      raised := body.raised }

variable {effect : σ → ι → σ} {store : Store σ}

theorem foldl_change (changes : List ι) : ∀ {store : Store σ} {state : σ},
    store.working = some state →
      (changes.map Statement.change).foldl (Store.exec effect) store =
        { store with working := some (changes.foldl effect state) } := by
  induction changes with
  | nil =>
      intro store state hworking
      rw [List.map_nil, List.foldl_nil, List.foldl_nil, ← hworking]
  | cons item rest ih =>
      intro store state hworking
      have hstep : store.exec effect (.change item) =
          { store with working := some (effect state item) } := by
        rw [Store.exec, hworking]
      rw [List.map_cons, List.foldl_cons, hstep, ih rfl, List.foldl_cons]

/-- A failure before the end leaves a run of changes, and no commit among them. -/
theorem attemptAll_changes_of_raised
    (hraised : (attemptAll fails attempts
      (items.map Statement.change ++ [Statement.commit])).raised = true) :
    ∃ changes : List α, (attemptAll fails attempts
      (items.map Statement.change ++ [Statement.commit])).done =
        changes.map Statement.change := by
  have hlength := attemptAll_raised hraised
  rw [List.length_append, List.length_singleton] at hlength
  have hbeginning := List.prefix_of_prefix_length_le (attemptAll_beginning _ _ _)
    (List.prefix_append (items.map Statement.change) [Statement.commit])
    (Nat.le_of_lt_succ hlength)
  obtain ⟨changes, -, hchanges⟩ := List.prefix_map_iff.mp hbeginning
  exact ⟨changes, hchanges⟩

/-- A transaction commits all its changes, or it raises and has changed nothing. -/
theorem Store.transact_cases (effect : σ → ι → σ) (fails : Nat → Bool) (attempts : Nat)
    (items : List ι)
    (hworking : store.working = none) :
    ((store.transact effect fails attempts items).raised = false ∧
      (store.transact effect fails attempts items).store =
        { committed := items.foldl effect store.committed, working := none }) ∨
    ((store.transact effect fails attempts items).raised = true ∧
      (store.transact effect fails attempts items).store = store) := by
  rw [transact]
  cases hopening : (attemptAll fails attempts [Statement.begin (ι := ι)]).raised with
  | true =>
      right
      have hdone : (attemptAll fails attempts [Statement.begin (ι := ι)]).done = [] := by
        have hlength := attemptAll_raised hopening
        exact List.length_eq_zero_iff.mp (Nat.lt_one_iff.mp hlength)
      simp only [if_true, hdone, List.foldl_nil, and_self]
  | false =>
      have hdone := attemptAll_done hopening
      have hopened : [Statement.begin (ι := ι)].foldl (Store.exec effect) store =
          { committed := store.committed, working := some store.committed } := rfl
      simp only [Bool.false_eq_true, if_false, hdone, hopened]
      cases hbody : (attemptAll fails (attemptAll fails attempts
          [Statement.begin (ι := ι)]).attempts
            (items.map Statement.change ++ [.commit])).raised with
      | false =>
          left
          rw [attemptAll_done hbody, List.foldl_append, foldl_change items rfl]
          exact ⟨rfl, rfl⟩
      | true =>
          right
          refine ⟨rfl, ?_⟩
          obtain ⟨changes, hchanges⟩ := attemptAll_changes_of_raised hbody
          rw [hchanges, foldl_change changes rfl]
          rw [if_pos rfl]
          cases store with
          | mk committed working =>
              cases hworking
              rfl

theorem Store.transact_never (effect : σ → ι → σ) (attempts : Nat) (items : List ι)
    (store : Store σ) :
    (store.transact effect never attempts items).raised = false := by
  rw [transact]
  simp only [attemptAll_never, Bool.false_eq_true, if_false]

end MoonBoofuzz
