import Mathlib.Order.Monotone.Basic
import Mathlib.Order.BoundedOrder.Basic

namespace MoonBoofuzz

theorem exceptBind_eq_ok_iff {ε α β : Type} {answer : Except ε α}
    {next : α → Except ε β} {value : β} :
    (answer >>= next) = .ok value ↔
      ∃ middle, answer = .ok middle ∧ next middle = .ok value := by
  cases answer <;> simp [bind, Except.bind]

/-! Answers of a fuel-bounded evaluator.  `pending` is the answer of a run whose
fuel ran out; more fuel may only turn it into a value or an error. -/

inductive Eval (ε α : Type) where
  | done (value : α)
  | raised (error : ε)
  | pending
  deriving Repr, DecidableEq

namespace Eval

def bind : Eval ε α → (α → Eval ε β) → Eval ε β
  | .done value, next => next value
  | .raised error, _ => .raised error
  | .pending, _ => .pending

instance : Monad (Eval ε) where
  pure := .done
  bind := bind

def ofExcept : Except ε α → Eval ε α
  | .ok value => .done value
  | .error error => .raised error

instance : MonadLift (Except ε) (Eval ε) := ⟨ofExcept⟩

def check (condition : Prop) [Decidable condition] (error : ε) : Eval ε Unit :=
  if condition then .done () else .raised error

def Settled (answer : Eval ε α) : Prop := answer ≠ .pending

instance (answer : Eval ε α) : Decidable answer.Settled :=
  match answer with
  | .done _ => isTrue (by simp [Settled])
  | .raised _ => isTrue (by simp [Settled])
  | .pending => isFalse (by simp [Settled])

@[simp] theorem pure_eq (value : α) :
    (pure value : Eval ε α) = .done value := rfl

@[simp] theorem done_bind (value : α) (next : α → Eval ε β) :
    (Eval.done value >>= next) = next value := rfl

@[simp] theorem raised_bind (error : ε) (next : α → Eval ε β) :
    (Eval.raised error >>= next) = .raised error := rfl

@[simp] theorem pending_bind (next : α → Eval ε β) :
    (Eval.pending >>= next) = .pending := rfl

@[simp] theorem liftM_eq (answer : Except ε α) :
    (liftM answer : Eval ε α) = ofExcept answer := rfl

@[simp] theorem ofExcept_ok (value : α) :
    (ofExcept (.ok value) : Eval ε α) = .done value := rfl

@[simp] theorem ofExcept_error (error : ε) :
    (ofExcept (.error error) : Eval ε α) = .raised error := rfl

@[simp] theorem done_settled (value : α) :
    (Eval.done value : Eval ε α).Settled := by simp [Settled]

@[simp] theorem raised_settled (error : ε) :
    (Eval.raised error : Eval ε α).Settled := by simp [Settled]

@[simp] theorem not_pending_settled :
    ¬ (Eval.pending : Eval ε α).Settled := by simp [Settled]

theorem ofExcept_settled (answer : Except ε α) :
    (ofExcept answer : Eval ε α).Settled := by
  cases answer <;> simp

theorem check_settled (condition : Prop) [Decidable condition] (error : ε) :
    (check condition error).Settled := by
  unfold check
  split <;> simp

@[simp] theorem check_eq_done_iff {condition : Prop} [Decidable condition]
    {error : ε} {token : Unit} :
    check condition error = .done token ↔ condition := by
  unfold check
  split <;> simp_all

theorem check_bind_of {condition : Prop} [Decidable condition] {error : ε}
    (hcondition : condition) (next : Unit → Eval ε β) :
    (check condition error >>= next) = next () := by
  simp [check, hcondition]

instance : LawfulMonad (Eval ε) :=
  LawfulMonad.mk' (Eval ε)
    (fun answer => by cases answer <;> rfl)
    (fun _ _ => rfl)
    (fun answer _ _ => by cases answer <;> rfl)

theorem bind_eq_done_iff {answer : Eval ε α} {next : α → Eval ε β} {value : β} :
    (answer >>= next) = .done value ↔
      ∃ middle, answer = .done middle ∧ next middle = .done value := by
  cases answer <;> simp

theorem bind_eq_raised_iff {answer : Eval ε α} {next : α → Eval ε β}
    {error : ε} :
    (answer >>= next) = .raised error ↔
      answer = .raised error ∨
        ∃ middle, answer = .done middle ∧ next middle = .raised error := by
  cases answer <;> simp

theorem ofExcept_eq_done_iff {answer : Except ε α} {value : α} :
    (ofExcept answer : Eval ε α) = .done value ↔ answer = .ok value := by
  cases answer <;> simp

theorem bind_settled_iff {answer : Eval ε α} {next : α → Eval ε β} :
    (answer >>= next).Settled ↔
      answer.Settled ∧ ∀ middle, answer = .done middle → (next middle).Settled := by
  cases answer <;> simp

/-! The approximation order: `pending` lies below every answer, and settled
answers are only below themselves. -/

instance : PartialOrder (Eval ε α) where
  le left right := left = .pending ∨ left = right
  le_refl answer := Or.inr rfl
  le_trans left middle right := by
    rintro (rfl | rfl) (rfl | rfl) <;> simp
  le_antisymm left right := by
    rintro (rfl | rfl) (hright | hright) <;> simp_all

instance : OrderBot (Eval ε α) where
  bot := .pending
  bot_le _ := Or.inl rfl

theorem le_iff {left right : Eval ε α} :
    left ≤ right ↔ left = .pending ∨ left = right := Iff.rfl

@[simp] theorem pending_le (answer : Eval ε α) : Eval.pending ≤ answer :=
  Or.inl rfl

theorem eq_of_le_of_settled {left right : Eval ε α} (hle : left ≤ right)
    (hsettled : left.Settled) : right = left := by
  rcases hle with hpending | hequal
  · exact absurd hpending hsettled
  · exact hequal.symm

theorem Settled.mono {left right : Eval ε α} (hsettled : left.Settled)
    (hle : left ≤ right) : right.Settled := by
  rw [eq_of_le_of_settled hle hsettled]
  exact hsettled

theorem le_of_settled_imp {left right : Eval ε α}
    (h : left.Settled → right = left) : left ≤ right := by
  by_cases hsettled : left.Settled
  · exact Or.inr (h hsettled).symm
  · exact Or.inl (not_not.mp hsettled)

theorem bind_le_bind {left right : Eval ε α} {first second : α → Eval ε β}
    (hle : left ≤ right) (hnext : ∀ value, first value ≤ second value) :
    (left >>= first) ≤ (right >>= second) := by
  rcases hle with rfl | rfl
  · exact pending_le _
  · cases left with
    | done value => exact hnext value
    | raised error => exact le_refl _
    | pending => exact le_refl _

theorem foldlM_le_foldlM {first second : β → α → Eval ε β} :
    ∀ (items : List α) (state : β),
      (∀ state item, item ∈ items → first state item ≤ second state item) →
      items.foldlM first state ≤ items.foldlM second state
  | [], _, _ => le_refl _
  | item :: rest, state, hle => by
      simp only [List.foldlM_cons]
      apply bind_le_bind (hle state item (by simp))
      intro value
      apply foldlM_le_foldlM rest value
      intro state candidate hmem
      exact hle state candidate (by simp [hmem])

theorem mapM_le_mapM {first second : α → Eval ε β} (items : List α)
    (hle : ∀ item, item ∈ items → first item ≤ second item) :
    items.mapM first ≤ items.mapM second := by
  induction items with
  | nil => exact le_refl _
  | cons item rest ih =>
      simp only [List.mapM_cons]
      apply bind_le_bind (hle item (by simp))
      intro value
      apply bind_le_bind (ih fun candidate hmem => hle candidate (by simp [hmem]))
      intro values
      exact le_refl _

theorem mapM_settled {step : α → Eval ε β} (items : List α)
    (hsettled : ∀ item ∈ items, (step item).Settled) :
    (items.mapM step).Settled := by
  induction items with
  | nil => simp
  | cons item rest ih =>
      simp only [List.mapM_cons, bind_settled_iff]
      refine ⟨hsettled item (by simp), fun _ _ => ?_⟩
      refine ⟨ih fun other hmem => hsettled other (by simp [hmem]), fun _ _ => ?_⟩
      simp

theorem foldlM_settled {step : β → α → Eval ε β} (inv : β → Prop) :
    ∀ (items : List α) {state : β}, inv state →
      (∀ state item, item ∈ items → inv state →
        (step state item).Settled ∧
          ∀ state', step state item = .done state' → inv state') →
      (items.foldlM step state).Settled ∧
        ∀ state', items.foldlM step state = .done state' → inv state'
  | [], state, hinv, _ => by simpa using hinv
  | item :: rest, state, hinv, hstep => by
      obtain ⟨hsettled, hnext⟩ := hstep state item (by simp) hinv
      have hrest : ∀ middle, step state item = .done middle →
          (rest.foldlM step middle).Settled ∧
            ∀ state', rest.foldlM step middle = .done state' → inv state' :=
        fun middle hmiddle => foldlM_settled inv rest (hnext middle hmiddle)
          fun other candidate hmem => hstep other candidate (by simp [hmem])
      simp only [List.foldlM_cons, bind_settled_iff, bind_eq_done_iff]
      refine ⟨⟨hsettled, fun middle hmiddle => (hrest middle hmiddle).1⟩, ?_⟩
      rintro state' ⟨middle, hmiddle, hdone⟩
      exact (hrest middle hmiddle).2 state' hdone

def mapError {ε' : Type} (wrap : ε → ε') : Eval ε α → Eval ε' α
  | .done value => .done value
  | .raised error => .raised (wrap error)
  | .pending => .pending

@[simp] theorem mapError_eq_done_iff {ε' : Type} {wrap : ε → ε'} {answer : Eval ε α}
    {value : α} : answer.mapError wrap = .done value ↔ answer = .done value := by
  cases answer <;> simp [mapError]

theorem settled_unique {run : Nat → Eval ε α} (hmono : Monotone run)
    {first second : Nat} (hfirst : (run first).Settled)
    (hsecond : (run second).Settled) : run first = run second := by
  rcases Nat.le_total first second with hle | hle
  · exact (eq_of_le_of_settled (hmono hle) hfirst).symm
  · exact eq_of_le_of_settled (hmono hle) hsecond

theorem done_unique {run : Nat → Eval ε α} (hmono : Monotone run)
    {first second : Nat} {left right : α} (hfirst : run first = .done left)
    (hsecond : run second = .done right) : left = right := by
  have hleft : (run first).Settled := by simp [hfirst]
  have hright : (run second).Settled := by simp [hsecond]
  have hequal := settled_unique hmono hleft hright
  rw [hfirst, hsecond] at hequal
  exact Eval.done.inj hequal

theorem done_of_le {run : Nat → Eval ε α} (hmono : Monotone run)
    {first second : Nat} (hle : first ≤ second) {value : α}
    (hfirst : run first = .done value) : run second = .done value := by
  rw [eq_of_le_of_settled (hmono hle) (by simp [hfirst]), hfirst]

theorem raised_of_le {run : Nat → Eval ε α} (hmono : Monotone run)
    {first second : Nat} (hle : first ≤ second) {error : ε}
    (hfirst : run first = .raised error) : run second = .raised error := by
  rw [eq_of_le_of_settled (hmono hle) (by simp [hfirst]), hfirst]

theorem raised_of_settled {run : Nat → Eval ε α} (hmono : Monotone run)
    {first second : Nat} {error : ε} (hfirst : run first = .raised error)
    (hsecond : (run second).Settled) : run second = .raised error := by
  rw [← hfirst]
  exact (settled_unique hmono (by simp [hfirst]) hsecond).symm

/-! Open recursion: a step function that is given the answers of the calls it
makes, closed by iterating it on ever more fuel. -/

section OpenRecursion

variable {κ : Type} {step : (κ → Eval ε α) → κ → Eval ε α}
  {run : Nat → κ → Eval ε α}

theorem monotone_of_step (hstep : Monotone step)
    (hzero : ∀ call, run 0 call = .pending)
    (hsucc : ∀ fuel call, run (fuel + 1) call = step (run fuel) call) :
    Monotone run := by
  apply monotone_nat_of_le_succ
  intro fuel
  induction fuel with
  | zero =>
      intro call
      rw [hzero]
      exact pending_le _
  | succ fuel ih =>
      intro call
      rw [hsucc, hsucc]
      exact hstep ih call

/-- A step that settles with one oracle and not with a compatible other one
makes a call on which only the first settles. -/
theorem exists_unsettled_call (hstep : Monotone step)
    {first second : κ → Eval ε α}
    (hagree : ∀ call, (first call).Settled → (second call).Settled →
      second call = first call)
    {call : κ} (hfirst : (step first call).Settled)
    (hsecond : ¬ (step second call).Settled) :
    ∃ inner, (first inner).Settled ∧ ¬ (second inner).Settled := by
  by_contra hnone
  push Not at hnone
  apply hsecond
  have hle : first ≤ second := by
    intro inner
    apply le_of_settled_imp
    intro hsettled
    exact hagree inner hsettled (hnone inner hsettled)
  exact hfirst.mono (hstep hle call)

end OpenRecursion

/-- The family answers with `value` once it has enough fuel. -/
def Returns (run : Nat → Eval ε α) (value : α) : Prop :=
  ∃ fuel, run fuel = .done value

def Raises (run : Nat → Eval ε α) (error : ε) : Prop :=
  ∃ fuel, run fuel = .raised error

/-- The family stops, with a value or with an error. -/
def Terminates (run : Nat → Eval ε α) : Prop :=
  ∃ fuel, (run fuel).Settled

theorem Returns.eventually {run : Nat → Eval ε α} (hmono : Monotone run)
    {value : α} (h : Returns run value) :
    ∃ enough, ∀ fuel, enough ≤ fuel → run fuel = .done value := by
  obtain ⟨enough, hdone⟩ := h
  exact ⟨enough, fun fuel hle => done_of_le hmono hle hdone⟩

theorem Raises.eventually {run : Nat → Eval ε α} (hmono : Monotone run)
    {error : ε} (h : Raises run error) :
    ∃ enough, ∀ fuel, enough ≤ fuel → run fuel = .raised error := by
  obtain ⟨enough, hraised⟩ := h
  exact ⟨enough, fun fuel hle => raised_of_le hmono hle hraised⟩

theorem Returns.unique {run : Nat → Eval ε α} (hmono : Monotone run)
    {left right : α} (hleft : Returns run left) (hright : Returns run right) :
    left = right := by
  obtain ⟨first, hfirst⟩ := hleft
  obtain ⟨second, hsecond⟩ := hright
  exact done_unique hmono hfirst hsecond

theorem Raises.unique {run : Nat → Eval ε α} (hmono : Monotone run)
    {left right : ε} (hleft : Raises run left) (hright : Raises run right) :
    left = right := by
  obtain ⟨first, hfirst⟩ := hleft
  obtain ⟨second, hsecond⟩ := hright
  have hsettled : (run second).Settled := by simp [hsecond]
  have hequal := raised_of_settled hmono hfirst hsettled
  rw [hsecond] at hequal
  exact (Eval.raised.inj hequal).symm

theorem Returns.not_raises {run : Nat → Eval ε α} (hmono : Monotone run)
    {value : α} {error : ε} (hreturns : Returns run value) :
    ¬ Raises run error := by
  rintro ⟨second, hsecond⟩
  obtain ⟨first, hfirst⟩ := hreturns
  have hsettled : (run first).Settled := by simp [hfirst]
  have hequal := raised_of_settled hmono hsecond hsettled
  simp [hfirst] at hequal

theorem Terminates.eventually {run : Nat → Eval ε α} (hmono : Monotone run)
    (h : Terminates run) :
    ∃ enough, ∀ fuel, enough ≤ fuel → (run fuel).Settled := by
  obtain ⟨enough, hsettled⟩ := h
  exact ⟨enough, fun fuel hle => hsettled.mono (hmono hle)⟩

/-- A sequence stops exactly when each of the parts it reaches stops. -/
theorem terminates_bind_iff {run : Nat → Eval ε α} {next : Nat → α → Eval ε β}
    (hrun : Monotone run) (hnext : Monotone next) :
    Terminates (fun fuel => run fuel >>= next fuel) ↔
      Terminates run ∧ ∀ value, Returns run value →
        Terminates fun fuel => next fuel value := by
  constructor
  · rintro ⟨fuel, hsettled⟩
    obtain ⟨hfirst, hsecond⟩ := bind_settled_iff.mp hsettled
    refine ⟨⟨fuel, hfirst⟩, ?_⟩
    rintro value ⟨other, hother⟩
    refine ⟨fuel, hsecond value ?_⟩
    rw [← hother]
    exact settled_unique hrun hfirst (by simp [hother])
  · rintro ⟨⟨first, hfirst⟩, hsecond⟩
    cases hanswer : run first with
    | pending => exact absurd hanswer hfirst
    | raised error => exact ⟨first, by simp [hanswer]⟩
    | done value =>
        obtain ⟨second, hsettled⟩ := hsecond value ⟨first, hanswer⟩
        refine ⟨first + second, ?_⟩
        have hdone := done_of_le hrun (Nat.le_add_right first second) hanswer
        simp only [hdone, done_bind]
        exact hsettled.mono (hnext (Nat.le_add_left second first) value)

theorem exists_common_fuel {run : Nat → κ → Eval ε α} (hmono : Monotone run)
    (calls : List κ) (h : ∀ call ∈ calls, Terminates fun fuel => run fuel call) :
    ∃ enough, ∀ fuel, enough ≤ fuel → ∀ call ∈ calls, (run fuel call).Settled := by
  induction calls with
  | nil => exact ⟨0, by simp⟩
  | cons call rest ih =>
      obtain ⟨first, hfirst⟩ := (h call (by simp)).eventually
        fun _ _ hle => hmono hle call
      obtain ⟨second, hsecond⟩ := ih fun other hmem => h other (by simp [hmem])
      refine ⟨first + second, fun fuel hle other hmem => ?_⟩
      rcases List.mem_cons.mp hmem with rfl | htail
      · exact hfirst fuel (by omega)
      · exact hsecond fuel (by omega) other htail

end Eval

end MoonBoofuzz
