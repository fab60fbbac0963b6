import MoonBoofuzz.Data.Flagged
import MoonBoofuzz.Model.Field

namespace MoonBoofuzz

/-! A field with the operations its constructor uses left as the machine has them: an index
out of range or a division by zero has no candidate, and 32-bit counts remember whether
they have wrapped. -/

structure CheckedField where
  value : Bytes
  count : Int
  candidate : Nat → Option Bytes
  candidateLength : Nat → Flagged (Option Int)

namespace CheckedField

/-- `items[i]`, for an index computed in signed arithmetic. -/
def at? {α : Type} (items : List α) (i : Int) : Option α :=
  if 0 ≤ i then items[i.toNat]? else none

def lengthAt? (items : List Bytes) (i : Int) : Option Int :=
  (at? items i).map fun bytes => (bytes.length : Int)

def withFuzzValues (base : CheckedField) (extra : List Bytes) (fuzzable : Bool) :
    Flagged CheckedField :=
  if !fuzzable || extra.isEmpty then pure base
  else do
    let count ← Flagged.add32 base.count extra.length
    pure
      { value := base.value
        count := count
        candidate := fun i =>
          if (i : Int) < base.count then base.candidate i
          else at? extra (Flagged.sub32 i base.count).value
        candidateLength := fun i =>
          if (i : Int) < base.count then base.candidateLength i
          else do
            let position ← Flagged.sub32 i base.count
            pure (lengthAt? extra position) }

@[simp] theorem withFuzzValues_nil (base : CheckedField) (fuzzable : Bool) :
    base.withFuzzValues [] fuzzable = pure base := by
  rw [withFuzzValues, List.isEmpty_nil, Bool.or_true, if_pos rfl]

/-- A field with a known number of candidates of its own, none when it is not fuzzable. -/
def counted (value : Bytes) (total : Nat) (fuzzable : Bool) (candidate : Nat → Option Bytes)
    (candidateLength : Nat → Flagged (Option Int)) : Flagged CheckedField := do
  let count ← if fuzzable then Flagged.ofExact total else pure 0
  pure
    { value := value
      count := count
      candidate := candidate
      candidateLength := candidateLength }

def ofSaved (value : Bytes) (saved : List Bytes) (fuzzable : Bool) : Flagged CheckedField :=
  counted value saved.length fuzzable (fun i => at? saved i)
    fun i => pure (lengthAt? saved i)

def simple (value : Bytes) (values : List Bytes) (fuzzable : Bool := true)
    (fuzzValues : List Bytes := []) : Flagged CheckedField :=
  ofSaved value (values ++ fuzzValues) fuzzable

/-- Removes only the first occurrence of the default from the candidates. -/
def group (values : List Bytes) (default : Option Bytes := none) (fuzzable : Bool := true)
    (fuzzValues : List Bytes := []) : Except ModelError (Flagged CheckedField) :=
  match values with
  | [] => .error (.invalidText "empty group")
  | first :: _ =>
      let value := default.getD first
      .ok do
        let base ← simple value (values.erase value) fuzzable
        base.withFuzzValues fuzzValues fuzzable

end CheckedField

end MoonBoofuzz
