import MoonBoofuzz.Data.Eval

namespace MoonBoofuzz

/-! Computations that act on the world outside the program.  An error or a lack of
fuel leaves the world as the actions before it made it. -/

def Act (ε ω α : Type) := ω → Eval ε α × ω

namespace Act

def bind (action : Act ε ω α) (next : α → Act ε ω β) : Act ε ω β := fun world =>
  match action world with
  | (.done value, world) => next value world
  | (.raised error, world) => (.raised error, world)
  | (.pending, world) => (.pending, world)

instance : Monad (Act ε ω) where
  pure value := fun world => (.done value, world)
  bind := bind

def ofEval (answer : Eval ε α) : Act ε ω α := fun world => (answer, world)

instance : MonadLift (Eval ε) (Act ε ω) := ⟨ofEval⟩

def perform (action : ω → α × ω) : Act ε ω α := fun world =>
  let (value, world) := action world
  (.done value, world)

def deferring (action : Act ε ω α) (cleanup : ω → ω) : Act ε ω α := fun world =>
  let (answer, world) := action world
  (answer, cleanup world)

@[simp] theorem pure_run (value : α) (world : ω) :
    (pure value : Act ε ω α) world = (.done value, world) := rfl

@[simp] theorem ofEval_run (answer : Eval ε α) (world : ω) :
    (ofEval answer : Act ε ω α) world = (answer, world) := rfl

@[simp] theorem perform_run (action : ω → α × ω) (world : ω) :
    (perform action : Act ε ω α) world = (.done (action world).1, (action world).2) := rfl

theorem bind_done {action : Act ε ω α} {next : α → Act ε ω β} {world middle : ω}
    {value : α} (haction : action world = (.done value, middle)) :
    (action >>= next) world = next value middle := by
  change bind action next world = _
  unfold bind
  rw [haction]

theorem bind_raised {action : Act ε ω α} {next : α → Act ε ω β} {world middle : ω} {error : ε}
    (haction : action world = (.raised error, middle)) :
    (action >>= next) world = (.raised error, middle) := by
  change bind action next world = _
  unfold bind
  rw [haction]

theorem bind_pending {action : Act ε ω α} {next : α → Act ε ω β} {world middle : ω}
    (haction : action world = (.pending, middle)) :
    (action >>= next) world = (.pending, middle) := by
  change bind action next world = _
  unfold bind
  rw [haction]

theorem bind_eq_done {action : Act ε ω α} {next : α → Act ε ω β} {world last : ω}
    {result : β} :
    (action >>= next) world = (.done result, last) ↔
      ∃ value middle, action world = (.done value, middle) ∧
        next value middle = (.done result, last) := by
  constructor
  · intro hdone
    change bind action next world = _ at hdone
    unfold bind at hdone
    split at hdone
    · rename_i value middle haction
      exact ⟨value, middle, haction, hdone⟩
    · cases hdone
    · cases hdone
  · rintro ⟨value, middle, haction, hnext⟩
    rw [bind_done haction, hnext]

@[simp] theorem bind_perform (action : ω → α × ω) (next : α → Act ε ω β) (world : ω) :
    ((perform action : Act ε ω α) >>= next) world =
      next (action world).1 (action world).2 := rfl

@[simp] theorem bind_ofEval_done (value : α) (next : α → Act ε ω β) (world : ω) :
    ((ofEval (.done value) : Act ε ω α) >>= next) world = next value world := rfl

@[simp] theorem bind_ofEval_raised (error : ε) (next : α → Act ε ω β) (world : ω) :
    ((ofEval (.raised error) : Act ε ω α) >>= next) world = (.raised error, world) := rfl

@[simp] theorem bind_ofEval_pending (next : α → Act ε ω β) (world : ω) :
    ((ofEval .pending : Act ε ω α) >>= next) world = (.pending, world) := rfl

theorem bind_congr {action : Act ε ω α} {next more : α → Act ε ω β} {world : ω}
    (hnext : ∀ value middle, action world = (.done value, middle) →
      more value middle = next value middle) :
    (action >>= more) world = (action >>= next) world := by
  cases haction : action world with
  | mk answer middle =>
      cases answer with
      | done value =>
          rw [bind_done haction, bind_done haction]
          exact hnext value middle haction
      | raised error => rw [bind_raised haction, bind_raised haction]
      | pending => rw [bind_pending haction, bind_pending haction]

theorem bind_settled {action : Act ε ω α} {next more : α → Act ε ω β} {world : ω}
    (hmore : ∀ value middle, (next value middle).1.Settled →
      more value middle = next value middle)
    (hsettled : ((action >>= next) world).1.Settled) :
    (action >>= more) world = (action >>= next) world := by
  cases haction : action world with
  | mk answer middle =>
      cases answer with
      | done value =>
          rw [bind_done haction] at hsettled
          rw [bind_done haction, bind_done haction]
          exact hmore value middle hsettled
      | raised error => rw [bind_raised haction, bind_raised haction]
      | pending => rw [bind_pending haction, bind_pending haction]

def Always (good : α → Prop) (action : Act ε ω α) : Prop :=
  ∀ world value world', action world = (.done value, world') → good value

variable {ε ω α β : Type} {good : α → Prop} {fine : β → Prop}

theorem always_pure {value : α} (hgood : good value) :
    Always good (pure value : Act ε ω α) := by
  intro world value' world' hdone
  cases hdone
  exact hgood

theorem always_bind {action : Act ε ω α} {next : α → Act ε ω β}
    (hnext : ∀ value, Always fine (next value)) : Always fine (action >>= next) := by
  intro world value world' hdone
  change bind action next world = _ at hdone
  unfold bind at hdone
  split at hdone
  · exact hnext _ _ _ _ hdone
  · cases hdone
  · cases hdone

def Unchanged (observe : ω → γ) (action : Act ε ω α) : Prop :=
  ∀ world, observe (action world).2 = observe world

variable {γ : Type} {observe : ω → γ}

theorem unchanged_pure (value : α) : Unchanged observe (pure value : Act ε ω α) := fun _ => rfl

theorem unchanged_ofEval (answer : Eval ε α) : Unchanged observe (ofEval answer : Act ε ω α) :=
  fun _ => rfl

theorem unchanged_perform {action : ω → α × ω}
    (haction : ∀ world, observe (action world).2 = observe world) :
    Unchanged observe (perform action : Act ε ω α) := haction

theorem unchanged_bind {action : Act ε ω α} {next : α → Act ε ω β}
    (haction : Unchanged observe action) (hnext : ∀ value, Unchanged observe (next value)) :
    Unchanged observe (action >>= next) := by
  intro world
  have hfirst := haction world
  change observe (bind action next world).2 = observe world
  unfold bind
  split
  · rename_i value middle hdone
    rw [hdone] at hfirst
    exact (hnext value middle).trans hfirst
  · rename_i error middle hraised
    rwa [hraised] at hfirst
  · rename_i middle hpending
    rwa [hpending] at hfirst

theorem unchanged_deferring {action : Act ε ω α} {cleanup : ω → ω}
    (haction : Unchanged observe action)
    (hcleanup : ∀ world, observe (cleanup world) = observe world) :
    Unchanged observe (action.deferring cleanup) :=
  fun world => (hcleanup _).trans (haction world)

end Act

end MoonBoofuzz
