import MoonBoofuzz.Model.Request

namespace MoonBoofuzz

namespace CompiledRequest

/-! Measured lengths.  A call names an entry and the active chain of mirrors it
was reached through; lengths are signed 32-bit values. -/

abbrev Call := Nat × List Nat

def measureChildren (maxBytes : Int) (recur : Nat → Run Int) :
    List Nat → Int → Run Int
  | [], total => .done total
  | child :: rest, total => do
      let n ← recur child
      Eval.check (n ≤ wrap32 (maxBytes - total))
        (.limitText "measured request exceeds byte limit")
      measureChildren maxBytes recur rest (wrap32 (total + n))

def measurePadding (maxBytes : Int) (alignment : Option Alignment) (total : Int) :
    Run Int :=
  match alignment with
  | none => .done total
  | some alignment => do
      let padding := wrap32 (alignment.modulus - total.tmod alignment.modulus)
      Eval.check (padding ≤ wrap32 (maxBytes - total))
        (.limitText "aligned length exceeds byte limit")
      .done (wrap32 (total + padding))

/-- The number a size field states over a target of `total` bytes.  The sum of
the three 32-bit terms is exact in 64-bit arithmetic. -/
def statedSize (spec : SizeSpec) (total : Int) : Int :=
  total + spec.offset.toInt + (if spec.inclusive then (spec.length : Int) else 0)

def writeSize (spec : SizeSpec) (value : Nat) : Bytes :=
  if spec.ascii then Bytes.decimal value
  else encodeInteger value (spec.length * 8) spec.endian

/-- Reads a size field back: decimal text, or an integer in its byte order. -/
def readSize (spec : SizeSpec) (bytes : Bytes) : Nat :=
  if spec.ascii then Bytes.decimalValue bytes
  else decodeInteger spec.endian bytes

def encodeSize (spec : SizeSpec) (total : Int) : Run Bytes := do
  let length := statedSize spec total
  Eval.check (0 ≤ length) (.invalidText "negative computed size")
  let maximum ← integerMax (spec.length * 8)
  Eval.check (length ≤ maximum) (.invalidText "computed size encoding overflow")
  .done (writeSize spec length.toNat)

section

variable (request : CompiledRequest) (replacements : Replacements)
  (vars : Option Vars)

def sizeValueWith (recur : Call → Run Int) (spec : SizeSpec) : Run Bytes := do
  let target ← request.resolve spec.target
  let total ← recur (target, [])
  encodeSize spec total

def measureKind (recur : Call → Run Int) (index : Nat) (active : List Nat) :
    EntryKind → Run Int
  | .atom field =>
      match replacements.lookup index with
      | some value => .done value.length
      | none => .done field.value.length
  | .dynamic field variableName =>
      match replacements.lookup index with
      | some value => .done value.length
      | none => do
          let bytes ← dynamicValue vars field variableName
          .done bytes.length
  | .computedSize spec =>
      if spec.ascii then do
        let bytes ← sizeValueWith request recur spec
        .done bytes.length
      else .done spec.length
  | .computedChecksum spec => .done spec.algorithm.length
  | .mirror target =>
      if index ∈ active then .done 0
      else do
        let inner ← request.resolve target
        recur (inner, active ++ [index])
  | .repetition path _ variableName => do
      let n ← repeatCount replacements vars index variableName
      let target ← request.resolve path
      let child ← recur (target, [])
      Eval.check (child = 0 ∨ n ≤ (request.maxBytes.val : Int).tdiv child)
        (.limitText "repeated length exceeds byte limit")
      .done (wrap32 (child * n))
  | .container children => do
      -- The active chain stops here: children are measured with an empty one.
      let total ← measureChildren request.maxBytes.val
        (fun child => recur (child, [])) children 0
      measurePadding request.maxBytes.val (request.entry index).alignment total

def measured (size : Int) : Run Int := do
  Eval.check (size ≤ request.maxBytes.val)
    (.limitText "field length exceeds byte limit")
  .done size

def measureStep (recur : Call → Run Int) (call : Call) : Run Int := do
  let visible ← request.isVisible replacements vars call.1
  if visible then
    let size ← measureKind request replacements vars recur call.1 call.2
      (request.kind call.1)
    measured request size
  else .done 0

/-- `measure`, with a bound on its recursion depth. -/
def measure : Nat → Call → Run Int
  | 0, _ => .pending
  | fuel + 1, call => measureStep request replacements vars (measure fuel) call

/-- `size_value`, with the bound of the measurement it starts. -/
def sizeValue (fuel : Nat) (spec : SizeSpec) : Run Bytes :=
  sizeValueWith request (measure request replacements vars fuel) spec

end

theorem integerMax_width (spec : SizeSpec) :
    integerMax (spec.length * 8) = .ok (2 ^ (spec.length * 8) - 1) := by
  rcases spec.length_mem with hlength | hlength | hlength | hlength <;>
    simp [integerMax, hlength]

theorem writeSize_length {spec : SizeSpec} (hbinary : spec.ascii = false)
    (value : Nat) : (writeSize spec value).length = spec.length := by
  simp [writeSize, hbinary]

/-- A size field that fits its width reads back as the number it states. -/
theorem readSize_writeSize (spec : SizeSpec) {value : Nat}
    (hvalue : value < 2 ^ (spec.length * 8)) :
    readSize spec (writeSize spec value) = value := by
  cases hascii : spec.ascii with
  | true => simp [readSize, writeSize, hascii]
  | false =>
      have hbase : 256 ^ spec.length = 2 ^ (spec.length * 8) := by
        rw [show (256 : Nat) = 2 ^ 8 by rfl, ← pow_mul, Nat.mul_comm]
      simp [readSize, writeSize, hascii, decodeInteger_encodeInteger, hbase,
        Nat.mod_eq_of_lt hvalue]

theorem encodeSize_eq (spec : SizeSpec) (total : Int) :
    encodeSize spec total =
      if statedSize spec total < 0 then
        .raised (.invalidText "negative computed size")
      else if 2 ^ (spec.length * 8) - 1 < statedSize spec total then
        .raised (.invalidText "computed size encoding overflow")
      else .done (writeSize spec (statedSize spec total).toNat) := by
  have hpower : 0 < 2 ^ (spec.length * 8) := Nat.two_pow_pos _
  have hcast : (((2 ^ (spec.length * 8) - 1 : Nat)) : Int) =
      2 ^ (spec.length * 8) - 1 := by
    rw [Int.ofNat_sub hpower]
    push_cast
    rfl
  simp only [encodeSize, integerMax_width, Eval.liftM_eq, Eval.ofExcept_ok,
    Eval.done_bind, Eval.check, hcast]
  by_cases hnegative : statedSize spec total < 0
  · simp [hnegative, Int.not_le.mpr hnegative]
  · simp only [Int.not_lt.mp hnegative, hnegative, if_true, if_false,
      Eval.done_bind]
    by_cases hlarge : 2 ^ (spec.length * 8) - 1 < statedSize spec total
    · simp [hlarge, Int.not_le.mpr hlarge]
    · simp [hlarge, Int.not_lt.mp hlarge]

theorem measureChildren_le {maxBytes : Int} {first second : Nat → Run Int}
    (hle : ∀ child, first child ≤ second child) :
    ∀ (children : List Nat) (total : Int),
      measureChildren maxBytes first children total ≤
        measureChildren maxBytes second children total
  | [], _ => le_refl _
  | child :: rest, total => by
      simp only [measureChildren]
      apply Eval.bind_le_bind (hle child)
      intro n
      apply Eval.bind_le_bind (le_refl _)
      intro _
      exact measureChildren_le hle rest _

theorem sizeValueWith_le (request : CompiledRequest)
    {first second : Call → Run Int} (hle : first ≤ second) (spec : SizeSpec) :
    sizeValueWith request first spec ≤ sizeValueWith request second spec := by
  apply Eval.bind_le_bind (le_refl _)
  intro target
  exact Eval.bind_le_bind (hle _) fun _ => le_refl _

section

variable {request : CompiledRequest} {replacements : Replacements}
  {vars : Option Vars}

theorem measureKind_le {first second : Call → Run Int} (hle : first ≤ second)
    (index : Nat) (active : List Nat) (kind : EntryKind) :
    measureKind request replacements vars first index active kind ≤
      measureKind request replacements vars second index active kind := by
  cases kind with
  | atom field => exact le_refl _
  | dynamic field variableName => exact le_refl _
  | computedChecksum spec => exact le_refl _
  | computedSize spec =>
      simp only [measureKind]
      split
      · exact Eval.bind_le_bind (sizeValueWith_le request hle spec)
          fun _ => le_refl _
      · exact le_refl _
  | mirror target =>
      simp only [measureKind]
      split
      · exact le_refl _
      · exact Eval.bind_le_bind (le_refl _) fun _ => hle _
  | repetition path range variableName =>
      simp only [measureKind]
      apply Eval.bind_le_bind (le_refl _)
      intro n
      apply Eval.bind_le_bind (le_refl _)
      intro target
      exact Eval.bind_le_bind (hle _) fun _ => le_refl _
  | container children =>
      simp only [measureKind]
      exact Eval.bind_le_bind
        (measureChildren_le (fun child => hle (child, [])) children 0)
        fun _ => le_refl _

theorem measureStep_mono :
    Monotone (measureStep request replacements vars) := by
  intro first second hle call
  apply Eval.bind_le_bind (le_refl _)
  intro visible
  cases visible with
  | false => exact le_refl _
  | true => exact Eval.bind_le_bind (measureKind_le hle _ _ _) fun _ => le_refl _

theorem measure_hidden {index : Nat} (active : List Nat) (fuel : Nat)
    (hvisible : request.isVisible replacements vars index = .ok false) :
    measure request replacements vars (fuel + 1) (index, active) = .done 0 := by
  simp [measure, measureStep, hvisible]

theorem measure_visible {index : Nat} (active : List Nat) (fuel : Nat)
    (hvisible : request.isVisible replacements vars index = .ok true) :
    measure request replacements vars (fuel + 1) (index, active) =
      (measureKind request replacements vars
        (measure request replacements vars fuel) index active
        (request.kind index) >>= measured request) := by
  simp [measure, measureStep, hvisible]

theorem measured_eq_done {size : Int} (hsize : size ≤ request.maxBytes.val) :
    measured request size = .done size := by
  simp [measured, Eval.check, hsize]

theorem measured_settled (size : Int) : (measured request size).Settled := by
  simp [measured, Eval.bind_settled_iff, Eval.check_settled]

theorem measureKind_active {kind : EntryKind} (hkind : kind.isMirror = false)
    (recur : Call → Run Int) (index : Nat) (first second : List Nat) :
    measureKind request replacements vars recur index first kind =
      measureKind request replacements vars recur index second kind := by
  cases kind with
  | mirror target => simp [EntryKind.isMirror] at hkind
  | _ => rfl

theorem measure_active {index : Nat} (hkind : (request.kind index).isMirror = false)
    (fuel : Nat) (first second : List Nat) :
    measure request replacements vars fuel (index, first) =
      measure request replacements vars fuel (index, second) := by
  cases fuel with
  | zero => rfl
  | succ fuel =>
      simp only [measure, measureStep,
        measureKind_active hkind _ index first second]

theorem measure_mono : Monotone (measure request replacements vars) :=
  Eval.monotone_of_step measureStep_mono (fun _ => rfl) fun _ _ => rfl

theorem sizeValue_mono (spec : SizeSpec) :
    Monotone fun fuel => sizeValue request replacements vars fuel spec := by
  intro first second hle
  exact sizeValueWith_le request (measure_mono hle) spec

end

end CompiledRequest

end MoonBoofuzz
