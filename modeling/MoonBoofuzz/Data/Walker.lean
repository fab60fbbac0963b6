import Mathlib.Order.WellFounded
import MoonBoofuzz.Data.Eval

namespace MoonBoofuzz

/-! Loops over a state that emit a value now and then.  A caller asks for one
value at a time and keeps the state in between. -/

inductive Turn (σ α : Type) where
  | emit (value : α) (state : σ)
  | move (state : σ)
  | halt (state : σ)

namespace Walker

def seek (turn : σ → Turn σ α) : Nat → σ → Eval ε (Option α × σ)
  | 0, _ => .pending
  | fuel + 1, state =>
      match turn state with
      | .emit value next => .done (some value, next)
      | .move next => seek turn fuel next
      | .halt next => .done (none, next)

inductive Gives (turn : σ → Turn σ α) : σ → Option α → σ → Prop
  | emit {state next : σ} {value : α} (hturn : turn state = .emit value next) :
      Gives turn state (some value) next
  | halt {state next : σ} (hturn : turn state = .halt next) :
      Gives turn state none next
  | move {state next last : σ} {found : Option α}
      (hturn : turn state = .move next) (hrest : Gives turn next found last) :
      Gives turn state found last

/-- The passes from one state to another, with the values they emit. -/
inductive Yields (turn : σ → Turn σ α) : σ → List α → σ → Prop
  | refl (state : σ) : Yields turn state [] state
  | move {state next last : σ} {values : List α}
      (hturn : turn state = .move next)
      (hrest : Yields turn next values last) : Yields turn state values last
  | emit {state next last : σ} {value : α} {values : List α}
      (hturn : turn state = .emit value next)
      (hrest : Yields turn next values last) :
      Yields turn state (value :: values) last

inductive Takes (turn : σ → Turn σ α) : σ → List α → σ → Prop
  | nil (state : σ) : Takes turn state [] state
  | cons {state next last : σ} {value : α} {values : List α}
      (hfirst : Gives turn state (some value) next)
      (hrest : Takes turn next values last) : Takes turn state (value :: values) last

/-- Calling for values until none is left gives exactly the listed ones. -/
def Drains (turn : σ → Turn σ α) (state : σ) (values : List α) : Prop :=
  ∃ last final, Takes turn state values last ∧ Gives turn last none final

variable {σ α ε : Type} {turn : σ → Turn σ α}

theorem seek_le_succ (fuel : Nat) (state : σ) :
    (seek turn fuel state : Eval ε _) ≤ seek turn (fuel + 1) state := by
  induction fuel generalizing state with
  | zero => exact Eval.pending_le _
  | succ fuel ih =>
      rw [seek, seek]
      cases turn state with
      | emit value next => exact le_refl _
      | move next => exact ih next
      | halt next => exact le_refl _

theorem seek_mono (turn : σ → Turn σ α) (state : σ) :
    Monotone fun fuel => (seek turn fuel state : Eval ε _) :=
  monotone_nat_of_le_succ fun fuel => seek_le_succ fuel state

theorem seek_ne_raised {fuel : Nat} {state : σ} {error : ε} :
    seek turn fuel state ≠ .raised error := by
  induction fuel generalizing state with
  | zero => simp [seek]
  | succ fuel ih =>
      rw [seek]
      cases turn state with
      | emit value next => simp
      | move next => exact ih
      | halt next => simp

theorem gives_of_seek {fuel : Nat} {state last : σ} {found : Option α}
    (hseek : (seek turn fuel state : Eval ε _) = .done (found, last)) :
    Gives turn state found last := by
  induction fuel generalizing state with
  | zero => simp [seek] at hseek
  | succ fuel ih =>
      rw [seek] at hseek
      cases hturn : turn state with
      | emit value next =>
          simp only [hturn, Eval.done.injEq, Prod.mk.injEq] at hseek
          obtain ⟨rfl, rfl⟩ := hseek
          exact .emit hturn
      | move next =>
          simp only [hturn] at hseek
          exact .move hturn (ih hseek)
      | halt next =>
          simp only [hturn, Eval.done.injEq, Prod.mk.injEq] at hseek
          obtain ⟨rfl, rfl⟩ := hseek
          exact .halt hturn

theorem Gives.seek {state last : σ} {found : Option α}
    (hgives : Gives turn state found last) :
    Eval.Returns (fun fuel => (seek turn fuel state : Eval ε _)) (found, last) := by
  induction hgives with
  | emit hturn => exact ⟨1, by simp only [Walker.seek, hturn]⟩
  | halt hturn => exact ⟨1, by simp only [Walker.seek, hturn]⟩
  | move hturn _ ih =>
      obtain ⟨fuel, hfuel⟩ := ih
      exact ⟨fuel + 1, by simpa only [Walker.seek, hturn] using hfuel⟩

theorem Gives.unique {state last last' : σ} {found found' : Option α}
    (hfirst : Gives turn state found last)
    (hsecond : Gives turn state found' last') : found = found' ∧ last = last' := by
  obtain ⟨fuel, hfuel⟩ := hfirst.seek (ε := Empty)
  obtain ⟨fuel', hfuel'⟩ := hsecond.seek (ε := Empty)
  simpa using Eval.done_unique (seek_mono turn state) hfuel hfuel'

theorem Yields.trans {first middle last : σ} {values values' : List α}
    (hfirst : Yields turn first values middle)
    (hsecond : Yields turn middle values' last) :
    Yields turn first (values ++ values') last := by
  induction hfirst with
  | refl _ => exact hsecond
  | move hturn _ ih => exact .move hturn (ih hsecond)
  | emit hturn _ ih => exact .emit hturn (ih hsecond)

/-- Passes before a state come first in what repeated calls see. -/
theorem Yields.drains_append {first last : σ} {values values' : List α}
    (hyields : Yields turn first values last) (hdrains : Drains turn last values') :
    Drains turn first (values ++ values') := by
  induction hyields with
  | refl state => exact hdrains
  | emit hturn _ ih =>
      obtain ⟨state, final, htakes, hnone⟩ := ih hdrains
      exact ⟨state, final, .cons (.emit hturn) htakes, hnone⟩
  | @move state next last values hturn _ ih =>
      obtain ⟨middle, final, htakes, hnone⟩ := ih hdrains
      generalize hall : values ++ values' = all at htakes ⊢
      cases htakes with
      | nil _ => exact ⟨state, final, .nil state, .move hturn hnone⟩
      | cons hfirst hrest =>
          exact ⟨middle, final, .cons (.move hturn hfirst) hrest, hnone⟩

theorem Drains.of_move {state next : σ} {values : List α}
    (hturn : turn state = .move next) (hdrains : Drains turn next values) :
    Drains turn state values :=
  (Yields.move hturn (.refl next)).drains_append hdrains

theorem Yields.drains {first last final : σ} {values : List α}
    (hyields : Yields turn first values last) (hhalt : turn last = .halt final) :
    Drains turn first values := by
  have hnone : Drains turn last [] := ⟨last, final, .nil last, .halt hhalt⟩
  simpa using hyields.drains_append hnone

theorem Takes.snoc {first last next : σ} {values : List α} {value : α}
    (htakes : Takes turn first values last)
    (hgives : Gives turn last (some value) next) :
    Takes turn first (values ++ [value]) next := by
  induction htakes with
  | nil _ => exact .cons hgives (.nil next)
  | cons hfirst _ ih => exact .cons hfirst (ih hgives)

theorem Takes.isPrefix_of_drains {first last : σ} {values all : List α}
    (htakes : Takes turn first values last) (hdrains : Drains turn first all) :
    values <+: all := by
  obtain ⟨end', final, hall, hnone⟩ := hdrains
  induction htakes generalizing all with
  | nil state => exact List.nil_prefix
  | cons hfirst _ ih =>
      cases hall with
      | nil _ => exact absurd (hfirst.unique hnone).1 (by simp)
      | cons hother hrest =>
          obtain ⟨hvalue, rfl⟩ := hfirst.unique hother
          cases hvalue
          exact (List.prefix_cons_inj _).mpr (ih hrest)

theorem Takes.getElem?_of_drains {first last : σ} {values all : List α} {value : α}
    (htakes : Takes turn first (values ++ [value]) last) (hdrains : Drains turn first all) :
    all[values.length]? = some value := by
  obtain ⟨rest, hrest⟩ := htakes.isPrefix_of_drains hdrains
  rw [← hrest]
  simp

theorem Drains.unique {state : σ} {values values' : List α}
    (hfirst : Drains turn state values) (hsecond : Drains turn state values') :
    values = values' := by
  have hle : ∀ {left right : List α}, Drains turn state left →
      Drains turn state right → left <+: right := by
    rintro left right ⟨_, _, htakes, _⟩ hright
    exact htakes.isPrefix_of_drains hright
  exact (hle hfirst hsecond).eq_of_length
    (le_antisymm (hle hfirst hsecond).length_le (hle hsecond hfirst).length_le)

/-- What a pass emits is good, and the state it leaves keeps the invariant. -/
def Meets (inv : σ → Prop) (good : α → Prop) : Turn σ α → Prop
  | .emit value next => good value ∧ inv next
  | .move next => inv next
  | .halt next => inv next

/-- Every pass of the loop body from a state with the invariant keeps it and emits
only good values. -/
def Keeps (turn : σ → Turn σ α) (inv : σ → Prop) (good : α → Prop) : Prop :=
  ∀ state, inv state → Meets inv good (turn state)

section

variable {inv : σ → Prop} {good : α → Prop}

theorem Keeps.gives (hkeeps : Keeps turn inv good) {state last : σ}
    {found : Option α} (hgives : Gives turn state found last) (hinv : inv state) :
    (∀ value ∈ found, good value) ∧ inv last := by
  induction hgives with
  | @emit state _ _ hturn =>
      have hmeets := hkeeps state hinv
      rw [hturn] at hmeets
      exact ⟨by simpa using hmeets.1, hmeets.2⟩
  | @halt state _ hturn =>
      have hmeets := hkeeps state hinv
      rw [hturn] at hmeets
      exact ⟨by simp, hmeets⟩
  | @move state _ _ _ hturn _ ih =>
      have hmeets := hkeeps state hinv
      rw [hturn] at hmeets
      exact ih hmeets

theorem Keeps.takes (hkeeps : Keeps turn inv good) {state last : σ}
    {values : List α} (htakes : Takes turn state values last) (hinv : inv state) :
    ∀ value ∈ values, good value := by
  induction htakes with
  | nil _ => simp
  | cons hfirst _ ih =>
      obtain ⟨hgood, hnext⟩ := hkeeps.gives hfirst hinv
      exact List.forall_mem_cons.mpr ⟨hgood _ rfl, ih hnext⟩

end

/-- A pass keeps the invariant and leaves a state with a property, unless it is the
last. -/
def Falls (inv : σ → Prop) (below : σ → Prop) : Turn σ α → Prop
  | .emit _ next => inv next ∧ below next
  | .move next => inv next ∧ below next
  | .halt _ => True

/-- A loop whose passes lower a measure gives finitely many values. -/
theorem exists_drains {β : Type} [LT β] [WellFoundedLT β] {inv : σ → Prop}
    (measure : σ → β) (hfalls : ∀ state, inv state →
      Falls inv (fun next => measure next < measure state) (turn state)) :
    ∀ state, inv state → ∃ values, Drains turn state values := by
  intro state
  induction state using (InvImage.wf measure wellFounded_lt).induction with
  | _ state ih =>
      intro hinv
      have hpass := hfalls state hinv
      cases hturn : turn state with
      | halt next => exact ⟨[], state, next, .nil state, .halt hturn⟩
      | move next =>
          rw [hturn] at hpass
          obtain ⟨values, hdrains⟩ := ih next hpass.2 hpass.1
          exact ⟨values, .of_move hturn hdrains⟩
      | emit value next =>
          rw [hturn] at hpass
          obtain ⟨values, last, final, htakes, hnone⟩ := ih next hpass.2 hpass.1
          exact ⟨value :: values, last, final, .cons (.emit hturn) htakes, hnone⟩

end Walker

end MoonBoofuzz
