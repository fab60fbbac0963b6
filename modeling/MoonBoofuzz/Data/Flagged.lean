import MoonBoofuzz.Data.Machine

namespace MoonBoofuzz

/-! Signed 32-bit arithmetic that remembers whether any of its results has left the
range. -/

structure Flagged (α : Type*) where
  value : α
  overflowed : Bool

namespace Flagged

def fits (value : Int) : Bool := decide (-2147483648 ≤ value ∧ value < 2147483648)

/-- An exact result, reduced, with the flag set when the reduction changed it. -/
def ofExact (exact : Int) : Flagged Int := { value := wrap32 exact, overflowed := !fits exact }

instance : Monad Flagged where
  pure value := { value := value, overflowed := false }
  bind answer next :=
    { value := (next answer.value).value
      overflowed := answer.overflowed || (next answer.value).overflowed }

def add32 (left right : Int) : Flagged Int := ofExact (left + right)

def sub32 (left right : Int) : Flagged Int := ofExact (left - right)

def mul32 (left right : Int) : Flagged Int := ofExact (left * right)

variable {α β : Type} {value : α} {next : α → Flagged β} {answer : Flagged α}

@[simp] theorem pure_value : (pure value : Flagged α).value = value := rfl

@[simp] theorem pure_overflowed : (pure value : Flagged α).overflowed = false := rfl

@[simp] theorem bind_value : (answer >>= next).value = (next answer.value).value := rfl

@[simp] theorem bind_overflowed :
    (answer >>= next).overflowed = (answer.overflowed || (next answer.value).overflowed) := rfl

@[simp] theorem pure_bind' : ((pure value : Flagged α) >>= next) = next value := rfl

@[simp] theorem bind_pure' : (answer >>= fun value => pure value) = answer := by
  cases answer with
  | mk value overflowed =>
      change Flagged.mk value (overflowed || false) = Flagged.mk value overflowed
      rw [Bool.or_false]

theorem fits_iff {value : Int} :
    fits value = true ↔ -2147483648 ≤ value ∧ value < 2147483648 := decide_eq_true_iff

theorem ofExact_eq_pure {exact : Int} (hfits : fits exact = true) :
    ofExact exact = pure exact := by
  obtain ⟨hlower, hupper⟩ := fits_iff.mp hfits
  rw [ofExact, hfits, wrap32_eq_self hlower hupper]
  rfl

@[simp] theorem ofExact_overflowed (exact : Int) :
    (ofExact exact).overflowed = !fits exact := rfl

theorem add32_eq_pure {left right : Int} (hlower : -2147483648 ≤ left + right)
    (hupper : left + right < 2147483648) : add32 left right = pure (left + right) :=
  ofExact_eq_pure (fits_iff.mpr ⟨hlower, hupper⟩)

theorem sub32_eq_pure {left right : Int} (hlower : -2147483648 ≤ left - right)
    (hupper : left - right < 2147483648) : sub32 left right = pure (left - right) :=
  ofExact_eq_pure (fits_iff.mpr ⟨hlower, hupper⟩)

theorem mul32_eq_pure {left right : Int} (hlower : -2147483648 ≤ left * right)
    (hupper : left * right < 2147483648) : mul32 left right = pure (left * right) :=
  ofExact_eq_pure (fits_iff.mpr ⟨hlower, hupper⟩)

end Flagged

end MoonBoofuzz
