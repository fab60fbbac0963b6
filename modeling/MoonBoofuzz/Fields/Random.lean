import MoonBoofuzz.Fields.Checked
import MoonBoofuzz.Random.Draws

namespace MoonBoofuzz

structure RandomDataOptions where
  defaultValue : Bytes := []
  minLength : Int32 := 0
  maxLength : Int32 := 1
  maxMutations : Int32 := 25
  step : Option Int32 := none

namespace RandomDataOptions

def stepValue (options : RandomDataOptions) : Int := (options.step.getD 0).toInt

def askedCount (options : RandomDataOptions) : Flagged Int :=
  if options.stepValue > 0 then do
    let range ← Flagged.sub32 options.maxLength.toInt options.minLength.toInt
    Flagged.add32 (Int.tdiv range options.stepValue) 1
  else pure options.maxMutations.toInt

end RandomDataOptions

structure RandomDataState where
  generator : Mt19937
  totalBytes : Int := 0
  saved : List Bytes := []

/-- `Bytes::makei` over drawn bytes. -/
def randomBytes (generator : Mt19937) (length fuel : Nat) : Run (Bytes × Mt19937) :=
  (List.range length).foldlM (fun (drawn : Bytes × Mt19937) _ => do
    let (byte, generator) ← drawn.2.randint 0 255 fuel
    pure (drawn.1 ++ [UInt8.ofInt byte], generator)) ([], generator)

/-- The length of a candidate; a step fixes it without a draw. -/
def randomLength (options : RandomDataOptions) (fuel : Nat) (generator : Mt19937) (i : Nat) :
    Run (Int × Mt19937) :=
  if options.stepValue > 0 then
    pure (wrap32 (options.minLength.toInt + wrap32 (i * options.stepValue)), generator)
  else generator.randint options.minLength.toInt options.maxLength.toInt fuel

/-- One candidate; the budget is checked before its bytes are drawn. -/
def randomCandidate (options : RandomDataOptions) (fuel : Nat) (state : RandomDataState)
    (i : Nat) : Run RandomDataState := do
  let (length, generator) ← randomLength options fuel state.generator i
  Eval.check (state.totalBytes + length ≤ 20000000)
    (.invalidText "random data candidates exceed the byte budget")
  let (bytes, generator) ← randomBytes generator length.toNat fuel
  pure
    { generator := generator
      totalBytes := state.totalBytes + length
      saved := state.saved ++ [bytes] }

/-- A field, and whether an operation on its counts has wrapped. -/
def CheckedField.randomData (options : RandomDataOptions) (fuzzable : Bool)
    (fuzzValues : List Bytes) (fuel : Nat) : Run (Flagged CheckedField) := do
  Eval.check (options.minLength.toInt ≥ 0 ∧ options.maxLength.toInt ≥ options.minLength.toInt)
    (.invalidText "invalid random data length range")
  Eval.check (options.maxMutations.toInt ≥ 0) (.invalidText "negative max_mutations")
  Eval.check (options.stepValue ≥ 0) (.invalidText "negative random data step")
  let count := options.askedCount
  let generator ← liftM (Mt19937.fromSeed 0)
  let final ← (List.range count.value.toNat).foldlM (randomCandidate options fuel)
    { generator := generator }
  pure do
    let _ ← count
    let base ← CheckedField.ofSaved options.defaultValue final.saved fuzzable
    base.withFuzzValues fuzzValues fuzzable

variable {options : RandomDataOptions} {fuel : Nat} {state next : RandomDataState} {i : Nat}

theorem randomCandidate_done (hdone : randomCandidate options fuel state i = .done next) :
    next.saved.length = state.saved.length + 1 ∧ next.totalBytes ≤ 20000000 ∧
      (options.stepValue > 0 → next.totalBytes =
        state.totalBytes + wrap32 (options.minLength.toInt + wrap32 (i * options.stepValue))) := by
  rw [randomCandidate] at hdone
  obtain ⟨drawn, hdrawn, hrest⟩ := Eval.bind_eq_done_iff.mp hdone
  obtain ⟨_, hcheck, hbytes⟩ := Eval.bind_eq_done_iff.mp hrest
  obtain ⟨bytes, -, hstate⟩ := Eval.bind_eq_done_iff.mp hbytes
  dsimp only at hstate
  rw [Eval.pure_eq, Eval.done.injEq] at hstate
  rw [Eval.check_eq_done_iff] at hcheck
  rw [← hstate]
  refine ⟨List.length_append.trans rfl, hcheck, fun hstep => ?_⟩
  rw [randomLength, if_pos hstep, Eval.pure_eq, Eval.done.injEq] at hdrawn
  rw [← hdrawn]

theorem foldlM_randomCandidate_length : ∀ {items : List Nat} {state final : RandomDataState},
    items.foldlM (randomCandidate options fuel) state = .done final →
      final.saved.length = state.saved.length + items.length := by
  intro items
  induction items with
  | nil =>
      intro state final hdone
      rw [List.foldlM_nil, Eval.pure_eq, Eval.done.injEq] at hdone
      rw [hdone]
      rfl
  | cons i rest ih =>
      intro state final hdone
      rw [List.foldlM_cons] at hdone
      obtain ⟨middle, hmiddle, hrest⟩ := Eval.bind_eq_done_iff.mp hdone
      rw [ih hrest, (randomCandidate_done hmiddle).1, List.length_cons]
      omega

/-- Within the range, the lengths grow by at least one, so the budget bounds their number. -/
theorem foldlM_randomCandidate_budget (hmin : 0 ≤ options.minLength.toInt)
    (hstep : options.stepValue > 0) : ∀ {count : Nat} {start final : RandomDataState},
    0 ≤ start.totalBytes →
    (∀ i < count, options.minLength.toInt + i * options.stepValue < 2147483648) →
    (List.range count).foldlM (randomCandidate options fuel) start = .done final →
      0 ≤ final.totalBytes ∧ (count : Int) ≤ 20000001 := by
  intro count
  induction count with
  | zero =>
      intro start final hstart _ hdone
      rw [List.range_zero, List.foldlM_nil, Eval.pure_eq, Eval.done.injEq] at hdone
      rw [← hdone]
      exact ⟨hstart, by decide⟩
  | succ count ih =>
      intro start final hstart hrange hdone
      rw [List.range_succ, List.foldlM_append] at hdone
      obtain ⟨middle, hmiddle, hlast⟩ := Eval.bind_eq_done_iff.mp hdone
      obtain ⟨hnonneg, -⟩ := ih hstart (fun i hi => hrange i (by omega)) hmiddle
      rw [List.foldlM_cons] at hlast
      obtain ⟨next, hnext, hfinal⟩ := Eval.bind_eq_done_iff.mp hlast
      rw [List.foldlM_nil, Eval.pure_eq, Eval.done.injEq] at hfinal
      rw [← hfinal]
      obtain ⟨-, hbudget, htotal⟩ := randomCandidate_done hnext
      have hlength := hrange count (Nat.lt_succ_self count)
      have hgrown : (count : Int) ≤ count * options.stepValue := by
        calc (count : Int) = count * 1 := (Int.mul_one _).symm
          _ ≤ count * options.stepValue :=
            Int.mul_le_mul_of_nonneg_left hstep (Int.natCast_nonneg count)
      rw [wrap32_eq_self (show -2147483648 ≤ (count : Int) * options.stepValue by omega)
          (by omega), wrap32_eq_self (by omega) hlength] at htotal
      have hadded := htotal hstep
      push_cast
      omega

end MoonBoofuzz
