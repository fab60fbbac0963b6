import MoonBoofuzz.Model.Compiled

namespace MoonBoofuzz

namespace CompiledRequest

/-! Replacements that agree wherever they are looked up. -/

/-- Entries that neither conditions nor measurements look up. -/
structure Unread (request : CompiledRequest) (hidden : Nat → Prop) : Prop where
  condition : ∀ index condition target,
    (request.entry index).condition = some condition →
      request.resolve condition.path = .ok target → ¬ hidden target
  checksum : ∀ index, hidden index → (request.kind index).isChecksum = true

/-- The replacement lists agree off the hidden entries. -/
def AgreeOff (hidden : Nat → Prop) (first second : Replacements) : Prop :=
  ∀ index, ¬ hidden index → second.lookup index = first.lookup index

section

variable {request : CompiledRequest} {hidden : Nat → Prop}
  {first second : Replacements}

theorem Unread.read_of_kind (hunread : Unread request hidden) {index : Nat}
    (hkind : (request.kind index).isChecksum = false) : ¬ hidden index := by
  intro hhidden
  have hchecksum := hunread.checksum index hhidden
  simp [hkind] at hchecksum

theorem conditionValue_congr (vars : Option Vars) {target : Nat}
    (hlookup : second.lookup target = first.lookup target) :
    request.conditionValue second vars target =
      request.conditionValue first vars target := by
  simp only [conditionValue, hlookup]

theorem visibleAlong_congr (hunread : Unread request hidden)
    (hagree : AgreeOff hidden first second) (vars : Option Vars) :
    ∀ chain : List Nat, request.visibleAlong second vars chain =
      request.visibleAlong first vars chain
  | [] => rfl
  | index :: rest => by
      have ih := visibleAlong_congr hunread hagree vars rest
      cases hcondition : (request.entry index).condition with
      | none => simp only [visibleAlong, hcondition, ih]
      | some condition =>
          cases htarget : request.resolve condition.path with
          | error error => simp [visibleAlong, hcondition, htarget, bind, Except.bind]
          | ok target =>
              have hlookup := hagree target
                (hunread.condition index condition target hcondition htarget)
              simp only [visibleAlong, hcondition, htarget, ih, bind, Except.bind,
                conditionValue_congr vars hlookup]

theorem isVisible_congr (hunread : Unread request hidden)
    (hagree : AgreeOff hidden first second) (vars : Option Vars) (index : Nat) :
    request.isVisible second vars index = request.isVisible first vars index :=
  visibleAlong_congr hunread hagree vars _

theorem repeatCount_congr {index : Nat}
    (hlookup : second.lookup index = first.lookup index) (vars : Option Vars)
    (variableName : Option Text) :
    repeatCount second vars index variableName =
      repeatCount first vars index variableName := by
  simp only [repeatCount, hlookup]

theorem measureKind_congr (hunread : Unread request hidden)
    (hagree : AgreeOff hidden first second) (vars : Option Vars)
    (recur : Call → Run Int) (index : Nat) (active : List Nat) :
    measureKind request second vars recur index active (request.kind index) =
      measureKind request first vars recur index active (request.kind index) := by
  cases hkind : request.kind index with
  | computedChecksum spec => rfl
  | computedSize spec => rfl
  | mirror target => rfl
  | container children => rfl
  | atom field =>
      have hread : ¬ hidden index :=
        hunread.read_of_kind (by simp [hkind, EntryKind.isChecksum])
      simp only [measureKind, hagree index hread]
  | dynamic field variableName =>
      have hread : ¬ hidden index :=
        hunread.read_of_kind (by simp [hkind, EntryKind.isChecksum])
      simp only [measureKind, hagree index hread]
  | repetition path range variableName =>
      have hread : ¬ hidden index :=
        hunread.read_of_kind (by simp [hkind, EntryKind.isChecksum])
      simp only [measureKind, repeatCount_congr (hagree index hread)]

theorem measure_congr (hunread : Unread request hidden)
    (hagree : AgreeOff hidden first second) (vars : Option Vars) (fuel : Nat) :
    measure request second vars fuel = measure request first vars fuel := by
  induction fuel with
  | zero => rfl
  | succ fuel ih =>
      funext call
      simp only [measure, measureStep, ih, isVisible_congr hunread hagree,
        measureKind_congr hunread hagree]

theorem sizeValue_congr (hunread : Unread request hidden)
    (hagree : AgreeOff hidden first second) (vars : Option Vars) (fuel : Nat) :
    sizeValue request second vars fuel = sizeValue request first vars fuel := by
  funext spec
  simp only [sizeValue, measure_congr hunread hagree]

/-- A rendering only depends on what its replacements are looked up for. -/
theorem renderNode_congr (hagree : ∀ index, second.lookup index = first.lookup index)
    (vars : Option Vars) (fuel : Nat) :
    renderNode request second vars fuel = renderNode request first vars fuel := by
  have hunread : Unread request fun _ => False :=
    { condition := by simp, checksum := by simp }
  have hoff : AgreeOff (fun _ => False) first second := fun index _ => hagree index
  induction fuel with
  | zero => rfl
  | succ fuel ih =>
      funext call
      have hkind : renderKind request second vars = renderKind request first vars := by
        funext sizes recur index active kind
        cases kind with
        | repetition path range variableName =>
            simp only [renderKind, repeatCount_congr (hagree index)]
        | _ => rfl
      simp only [renderNode, renderStep, ih, isVisible_congr hunread hoff, hagree,
        sizeValue_congr hunread hoff, hkind]

end

end CompiledRequest

end MoonBoofuzz
