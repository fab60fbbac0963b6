import Mathlib.Tactic.TypeStar

namespace MoonBoofuzz

/-! Rules of pre- and postconditions for actions that change a state and may raise. -/

/-- Actions whose changes stay when they raise. -/
def Raising (ε ω α : Type) := ω → Except ε α × ω

namespace Raising

variable {ε ω α β : Type}

def bind (action : Raising ε ω α) (next : α → Raising ε ω β) : Raising ε ω β := fun world =>
  match action world with
  | (.ok value, world) => next value world
  | (.error error, world) => (.error error, world)

instance : Monad (Raising ε ω) where
  pure value := fun world => (.ok value, world)
  bind := bind

def raise (error : ε) : Raising ε ω α := fun world => (.error error, world)

def perform (action : ω → α × ω) : Raising ε ω α := fun world =>
  (.ok (action world).1, (action world).2)

def modify (change : ω → ω) : Raising ε ω Unit := fun world => (.ok (), change world)

def catching (action : Raising ε ω α) (handler : ε → Raising ε ω α) : Raising ε ω α :=
  fun world =>
    match action world with
    | (.ok value, world) => (.ok value, world)
    | (.error error, world) => handler error world

def Ends (after : α → ω → Prop) (raised : ε → ω → Prop) : Except ε α × ω → Prop
  | (.ok value, world) => after value world
  | (.error error, world) => raised error world

/-- From a state that fits, the action ends in one that fits what it returns or raises. -/
def Triple (before : ω → Prop) (action : Raising ε ω α) (after : α → ω → Prop)
    (raised : ε → ω → Prop) : Prop :=
  ∀ world, before world → Ends after raised (action world)

variable {before before' : ω → Prop} {after after' : α → ω → Prop} {later : β → ω → Prop}
  {raised raised' : ε → ω → Prop} {action : Raising ε ω α}

theorem Triple.pure {value : α} (hafter : ∀ world, before world → after value world) :
    Triple before (pure value : Raising ε ω α) after raised :=
  hafter

theorem Triple.raise {error : ε} (hraised : ∀ world, before world → raised error world) :
    Triple before (raise error : Raising ε ω α) after raised :=
  hraised

theorem Triple.perform {step : ω → α × ω}
    (hafter : ∀ world, before world → after (step world).1 (step world).2) :
    Triple before (perform step : Raising ε ω α) after raised :=
  hafter

theorem Triple.modify {change : ω → ω} {after : Unit → ω → Prop}
    (hafter : ∀ world, before world → after () (change world)) :
    Triple before (modify change : Raising ε ω Unit) after raised :=
  hafter

theorem Triple.bind {next : α → Raising ε ω β} (hfirst : Triple before action after raised)
    (hnext : ∀ value, Triple (after value) (next value) later raised) :
    Triple before (action >>= next) later raised := by
  intro world hbefore
  have hmiddle := hfirst world hbefore
  change Ends later raised (Raising.bind action next world)
  unfold Raising.bind
  split
  · rename_i value middle haction
    rw [haction] at hmiddle
    exact hnext value middle hmiddle
  · rename_i error middle haction
    rw [haction] at hmiddle
    exact hmiddle

theorem Triple.catching {handler : ε → Raising ε ω α}
    (hfirst : Triple before action after raised)
    (hcaught : ∀ error, Triple (raised error) (handler error) after raised') :
    Triple before (catching action handler) after raised' := by
  intro world hbefore
  have hends := hfirst world hbefore
  unfold Raising.catching
  split
  · rename_i value last haction
    rw [haction] at hends
    exact hends
  · rename_i error last haction
    rw [haction] at hends
    exact hcaught error last hends

theorem Ends.ok {answer : Except ε α × ω} {value : α} (hends : Ends after raised answer)
    (hvalue : answer.1 = .ok value) : after value answer.2 := by
  obtain ⟨_, world⟩ := answer
  subst hvalue
  exact hends

end Raising

end MoonBoofuzz
