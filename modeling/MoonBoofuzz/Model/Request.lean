import Mathlib.Algebra.GroupWithZero.Nat
import Mathlib.Data.List.Basic
import MoonBoofuzz.Model.Node

namespace MoonBoofuzz

inductive EntryKind where
  | atom (field : Field)
  | dynamic (field : Field) (variableName : Text)
  | container (children : List Nat)
  | repetition (target : Text) (range : RepeatRange) (variableName : Option Text)
  | computedSize (spec : SizeSpec)
  | computedChecksum (spec : ChecksumSpec)
  | mirror (target : Text)

structure Entry where
  path : Text
  parent : Option Nat
  kind : EntryKind
  condition : Option Condition
  alignment : Option Alignment
  group : Option Text

/-- The lazy case sequence tree: a block's plain child mutations, followed by
products that replay that sequence once per group candidate. -/
inductive CaseSeq where
  | plain (entry : Nat)
  | sequence (children : List CaseSeq)
  | product (group : Nat) (inner : CaseSeq)
  deriving Repr

structure CompiledRequest where
  name : Text
  entries : List Entry
  paths : List (Text × Nat)
  maxBytes : Fin 2147483648
  seq : CaseSeq

instance maxBytes_neZero : NeZero (2147483648 : Nat) := ⟨by decide⟩

/-! Repeat counts travel as four little-endian bytes. -/

/-- `decode_repeat`.  The four shifted bytes occupy disjoint bits, so their
bitwise union is their sum, read as a signed 32-bit value. -/
def decodeRepeat (bytes : Bytes) : Int :=
  wrap32 ((bytes.getD 0 0).toNat + (bytes.getD 1 0).toNat * 2 ^ 8 +
    (bytes.getD 2 0).toNat * 2 ^ 16 + (bytes.getD 3 0).toNat * 2 ^ 24)

namespace RepeatRange

def count (range : RepeatRange) : Nat := (range.max - range.min) / range.step + 1

/-- `min + step * index` in 32-bit arithmetic. -/
def value (range : RepeatRange) (index : Nat) : Int :=
  wrap32 (range.min + range.step * index)

end RepeatRange

namespace EntryKind

def count : EntryKind → Nat
  | .atom field => field.count
  | .dynamic field _ => field.count
  | .computedSize spec => spec.mutations.length
  | .computedChecksum spec => spec.mutations.length
  | .repetition _ range _ => range.count
  | .mirror _ => 0
  | .container _ => 0

def candidate (kind : EntryKind) (index : Nat) : Bytes :=
  match kind with
  | .atom field => field.candidate index
  | .dynamic field _ => field.candidate index
  | .computedSize spec => spec.mutations.getD index []
  | .computedChecksum spec => spec.mutations.getD index []
  | .repetition _ range _ =>
      encodeInteger ((range.value index) % 2 ^ 64).toNat (4 * 8) .little
  | .mirror _ => []
  | .container _ => []

def isRepetition : EntryKind → Bool
  | .repetition _ _ _ => true
  | _ => false

def isContainer : EntryKind → Bool
  | .container _ => true
  | _ => false

def isSize : EntryKind → Bool
  | .computedSize _ => true
  | _ => false

def isChecksum : EntryKind → Bool
  | .computedChecksum _ => true
  | _ => false

def isField : EntryKind → Bool
  | .atom _ | .dynamic _ _ => true
  | _ => false

def isMirror : EntryKind → Bool
  | .mirror _ => true
  | _ => false

theorem exists_mirror {kind : EntryKind} (hmirror : kind.isMirror = true) :
    ∃ target, kind = .mirror target := by
  cases kind with
  | mirror target => exact ⟨target, rfl⟩
  | _ => simp [isMirror] at hmirror

end EntryKind

theorem decodeRepeat_encodeInteger (value : Nat) :
    decodeRepeat (encodeInteger value (4 * 8) .little) = wrap32 value := by
  have hbytes : encodeInteger value (4 * 8) .little =
      [UInt8.ofNat value, UInt8.ofNat (value >>> 8),
        UInt8.ofNat (value >>> 16), UInt8.ofNat (value >>> 24)] := rfl
  rw [hbytes]
  simp only [decodeRepeat, List.getD_cons_zero, List.getD_cons_succ,
    UInt8.toNat_ofNat', Nat.shiftRight_eq_div_pow]
  unfold wrap32
  rw [← Int.emod_bmod (value : Int)]
  congr 1
  omega

namespace RepeatRange

theorem value_eq (range : RepeatRange) {index : Nat} (hindex : index < range.count) :
    range.value index = range.min + range.step * index ∧
      range.min + range.step * index ≤ range.max := by
  have hsteps : index ≤ (range.max - range.min) / range.step := by
    unfold count at hindex
    omega
  have hproduct : range.step * index ≤ range.max - range.min :=
    calc
      range.step * index ≤ range.step * ((range.max - range.min) / range.step) :=
        Nat.mul_le_mul_left _ hsteps
      _ ≤ range.max - range.min := Nat.mul_div_le _ _
  have hmin := range.min_le
  have hmax := range.max_lt
  have hbound : range.min + range.step * index ≤ range.max := by omega
  refine ⟨?_, hbound⟩
  unfold value
  apply wrap32_eq_self <;> omega

end RepeatRange

theorem decodeRepeat_candidate (target : Text) (range : RepeatRange)
    (variableName : Option Text) {index : Nat} (hindex : index < range.count) :
    decodeRepeat ((EntryKind.repetition target range variableName).candidate index) =
      range.min + range.step * index := by
  obtain ⟨hvalue, hbound⟩ := range.value_eq hindex
  have hmax := range.max_lt
  simp only [EntryKind.candidate]
  rw [decodeRepeat_encodeInteger, hvalue]
  have hsmall : ((range.min + range.step * index : Int) % 2 ^ 64).toNat =
      range.min + range.step * index := by omega
  rw [hsmall]
  push_cast
  apply wrap32_eq_self <;> omega

abbrev Replacements := List (Nat × Bytes)

abbrev Vars := List (Text × Bytes)

namespace Replacements

def lookup (replacements : Replacements) (index : Nat) : Option Bytes :=
  List.lookup index replacements

theorem lookup_append (first second : Replacements) (index : Nat) :
    (first ++ second).lookup index =
      (first.lookup index).or (second.lookup index) := by
  induction first with
  | nil => simp [lookup]
  | cons pair rest ih =>
      obtain ⟨target, value⟩ := pair
      simp only [lookup, List.cons_append, List.lookup_cons] at ih ⊢
      by_cases hequal : index = target
      · simp [hequal]
      · simp only [beq_eq_false_iff_ne.mpr hequal]
        exact ih

theorem mem_of_lookup {replacements : Replacements} {index : Nat} {value : Bytes}
    (hlookup : replacements.lookup index = some value) :
    (index, value) ∈ replacements := by
  induction replacements with
  | nil => simp [lookup] at hlookup
  | cons pair rest ih =>
      obtain ⟨target, bytes⟩ := pair
      simp only [lookup, List.lookup_cons] at hlookup ih
      by_cases hequal : index = target
      · subst target
        simp at hlookup
        simp [hlookup]
      · simp only [beq_eq_false_iff_ne.mpr hequal] at hlookup
        exact List.mem_cons_of_mem _ (ih hlookup)

end Replacements

namespace CompiledRequest

/-- What an index outside the table would stand for.  The source stops the
program there; no index the code forms lies outside. -/
def noEntry : Entry where
  path := []
  parent := none
  kind := .container []
  condition := none
  alignment := none
  group := none

def entry (request : CompiledRequest) (index : Nat) : Entry :=
  request.entries.getD index noEntry

theorem entry_of_le {request : CompiledRequest} {index : Nat}
    (hlarge : request.entries.length ≤ index) : request.entry index = noEntry := by
  rw [entry, List.getD_eq_getElem?_getD, List.getElem?_eq_none hlarge]
  rfl

def kind (request : CompiledRequest) (index : Nat) : EntryKind :=
  (request.entry index).kind

def resolve (request : CompiledRequest) (path : Text) : Except ModelError Nat :=
  match request.paths.lookup path with
  | some index => .ok index
  | none => .error (.invalid (Text.ofAscii "unknown path: " ++ path))

/-- The entry and its enclosing blocks, innermost first.  Parents have smaller
indices, so `index + 1` links reach the root. -/
def ancestry (request : CompiledRequest) (index : Nat) : List Nat :=
  climb (index + 1) (some index)
where
  climb : Nat → Option Nat → List Nat
    | 0, _ => []
    | _ + 1, none => []
    | links + 1, some i => i :: climb links (request.entry i).parent

def missingVariable (name : Text) : ModelError :=
  .invalid (Text.ofAscii "missing session variable: " ++ name)

/-- The unreplaced value of a dynamic field: its session variable inside a case,
its own value outside. -/
def dynamicValue (vars : Option Vars) (field : Field) (variableName : Text) :
    Except ModelError Bytes :=
  match vars with
  | some map =>
      match map.lookup variableName with
      | some bytes => .ok bytes
      | none => .error (missingVariable variableName)
  | none => .ok field.value

def conditionValue (request : CompiledRequest) (replacements : Replacements)
    (vars : Option Vars) (target : Nat) : Except ModelError Bytes :=
  match replacements.lookup target with
  | some value => .ok value
  | none =>
      match request.kind target with
      | .atom field => .ok field.value
      | .dynamic field variableName => dynamicValue vars field variableName
      | _ => .error (.invalidText "condition target must be a field")

def visibleAlong (request : CompiledRequest) (replacements : Replacements)
    (vars : Option Vars) : List Nat → Except ModelError Bool
  | [] => .ok true
  | i :: rest =>
      match (request.entry i).condition with
      | none => visibleAlong request replacements vars rest
      | some condition => do
          let target ← request.resolve condition.path
          let value ← request.conditionValue replacements vars target
          if condition.holds value then
            visibleAlong request replacements vars rest
          else .ok false

/-- An entry is visible when the conditions of all its enclosing blocks hold. -/
def isVisible (request : CompiledRequest) (replacements : Replacements)
    (vars : Option Vars) (index : Nat) : Except ModelError Bool :=
  request.visibleAlong replacements vars (request.ancestry index)

/-- The number of copies a repetition renders: its replacement, its session
variable, or zero. -/
def repeatCount (replacements : Replacements) (vars : Option Vars) (index : Nat)
    (variableName : Option Text) : Except ModelError Int :=
  match replacements.lookup index with
  | some value => .ok (decodeRepeat value)
  | none =>
      match variableName, vars with
      | some name, some map =>
          match map.lookup name with
          | some bytes =>
              if 4 ≤ bytes.length then .ok (decodeRepeat bytes)
              else .error (.invalidText "repeat variable needs 4 bytes")
          | none => .error (missingVariable name)
      | _, _ => .ok 0

end CompiledRequest

end MoonBoofuzz
