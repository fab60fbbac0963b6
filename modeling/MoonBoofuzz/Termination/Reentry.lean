import MoonBoofuzz.Termination.Stages

namespace MoonBoofuzz

namespace CompiledRequest

/-! Measurements that come back to an entry they are still measuring.  The active
chain only stops such a measurement at a mirror, and only while nothing but mirrors
lies between. -/

section

variable (request : CompiledRequest)

/-- The default `measure` that gives up when it comes back to an entry of `under`,
the entries other than mirrors whose measurement is under way. -/
def measureOnce : Nat → List Nat → Call → Run Int
  | 0, _, _ => .pending
  | budget + 1, under, call =>
      if (request.kind call.1).isMirror then
        measureStep request [] none (measureOnce budget under) call
      else if call.1 ∈ under then .pending
      else measureStep request [] none (measureOnce budget (call.1 :: under)) call

/-- No chain of calls without a return is longer: it passes each entry once, with at
most all the mirrors in a row between two others. -/
def callDepth : Nat :=
  (request.entries.length + 1) * (request.entries.length + 2)

def sizesWith (sizes : SizeSpec → Run Bytes) : List Entry → Run Unit
  | [] => .done ()
  | entry :: rest => do
      match entry.kind with
      | .computedSize spec => do
          let _ ← sizes spec
          sizesWith sizes rest
      | _ => sizesWith sizes rest

/-- Measuring the size fields in turn, up to the first error, never comes back to a
block, repeat or size that is still being measured. -/
def MeasuresOnce : Prop :=
  (sizesWith
    (sizeValueWith request (measureOnce request request.callDepth []))
    request.entries).Settled

instance : Decidable request.MeasuresOnce :=
  inferInstanceAs (Decidable (Eval.Settled _))

end

section

variable {request : CompiledRequest}

theorem measureOnce_le (budget : Nat) (under : List Nat) :
    measureOnce request budget under ≤ measure request [] none budget := by
  induction budget generalizing under with
  | zero =>
      intro call
      exact Eval.pending_le _
  | succ budget ih =>
      intro call
      simp only [measureOnce, measure]
      split
      · exact measureStep_mono (ih under) call
      · split
        · exact Eval.pending_le _
        · exact measureStep_mono (ih (call.1 :: under)) call

theorem measureOnce_agrees {budget fuel : Nat} {under : List Nat} {call : Call}
    (hfirst : (measure request [] none fuel call).Settled)
    (hsecond : (measureOnce request budget under call).Settled) :
    measureOnce request budget under call = measure request [] none fuel call := by
  have hequal := Eval.eq_of_le_of_settled (measureOnce_le budget under call) hsecond
  rw [← hequal] at hsecond ⊢
  exact Eval.settled_unique (fun _ _ hle => measure_mono hle call) hsecond hfirst

theorem measureStep_large {index : Nat} (hlarge : request.entries.length ≤ index)
    (active : List Nat) (recur : Call → Run Int) :
    (measureStep request [] none recur (index, active)).Settled := by
  have hentry := entry_of_le hlarge
  simp only [measureStep, kind_of_large request hlarge, Eval.bind_settled_iff,
    Eval.liftM_eq, Eval.ofExcept_settled, true_and]
  intro visible _
  split
  · simp [measureKind, measureChildren, measurePadding, hentry, noEntry,
      measured_settled]
  · simp

theorem measureStep_mirror {index : Nat} {target : Text}
    (hkind : request.kind index = .mirror target) (active : List Nat)
    (recur : Call → Run Int) :
    (measureStep request [] none recur (index, active)).Settled ∨
      ∃ inner, index ∉ active ∧
        ∀ other : Call → Run Int,
          (measureStep request [] none other (index, active)).Settled ↔
            (other (inner, active ++ [index])).Settled := by
  simp only [measureStep, hkind, measureKind, Eval.bind_settled_iff, Eval.liftM_eq,
    Eval.ofExcept_settled, true_and]
  cases hvisible : request.isVisible [] none index with
  | error error => simp
  | ok visible =>
      cases visible with
      | false => simp
      | true =>
          by_cases hactive : index ∈ active
          · simp [hactive, measured_settled]
          cases hresolve : request.resolve target with
          | error error => simp [hactive]
          | ok inner =>
              refine Or.inr ⟨inner, hactive, fun other => ?_⟩
              simp [hactive, Eval.bind_settled_iff, measured_settled]

theorem measureOnce_new {budget index : Nat} {under active : List Nat}
    (hmirror : (request.kind index).isMirror = false) (hunder : index ∉ under) :
    measureOnce request (budget + 1) under (index, active) =
      measureStep request [] none (measureOnce request budget (index :: under))
        (index, active) := by
  simp [measureOnce, hmirror, hunder]

theorem rest_le (request : CompiledRequest) (seen : List Nat) :
    request.rest seen ≤ request.entries.length := by
  have hle := unseen_le (Finset.range request.entries.length) seen
  rwa [Finset.card_range] at hle

theorem budget_push {count outer pushed chain inner budget : Nat}
    (hpush : pushed < outer) (hinner : inner ≤ count)
    (hbudget : outer * (count + 2) + chain < budget + 1) :
    pushed * (count + 2) + inner < budget := by
  have hproduct : (pushed + 1) * (count + 2) ≤ outer * (count + 2) :=
    Nat.mul_le_mul_right _ hpush
  rw [Nat.add_one_mul] at hproduct
  omega

/-- A measurement that settles does so without coming back, or has settled an entry
that was under way around it. -/
theorem measureOnce_or_under {fuel : Nat} :
    ∀ {budget : Nat} {under : List Nat} {call : Call},
      request.rest under * (request.entries.length + 2) + request.rest call.2 <
        budget →
      (measure request [] none fuel call).Settled →
      (measureOnce request budget under call).Settled ∨
        ∃ index ∈ under, ∃ fuel' ≤ fuel,
          (measure request [] none fuel' (index, [])).Settled := by
  induction fuel using Nat.strong_induction_on with
  | _ fuel ih =>
      intro budget under call hbudget hsettled
      obtain ⟨index, active⟩ := call
      obtain _ | fuel := fuel
      · simp [measure] at hsettled
      obtain _ | budget := budget
      · omega
      cases hmirror : (request.kind index).isMirror with
      | true =>
          simp only [measureOnce, measure, hmirror, if_true] at hsettled ⊢
          obtain ⟨target, hkind⟩ := EntryKind.exists_mirror hmirror
          rcases measureStep_mirror hkind active (measureOnce request budget under)
            with hdone | ⟨inner, hactive, hcall⟩
          · exact Or.inl hdone
          rw [hcall] at hsettled ⊢
          have hindex : index < request.entries.length :=
            Table.lt_of_not_container (by simp [hkind, EntryKind.isContainer])
          have hless : request.rest (active ++ [index]) < request.rest active :=
            unseen_lt (Finset.mem_range.mpr hindex) hactive
              (List.subset_append_left _ _) (by simp)
          have hroom : request.rest under * (request.entries.length + 2) +
              request.rest (active ++ [index]) < budget := by
            dsimp only at hbudget
            omega
          rcases ih fuel (Nat.lt_succ_self _) hroom hsettled with hdone | hunder
          · exact Or.inl hdone
          · obtain ⟨other, hother, fuel', hle, houter⟩ := hunder
            exact Or.inr ⟨other, hother, fuel', by omega, houter⟩
      | false =>
          by_cases hunder : index ∈ under
          · rw [measure_active hmirror (fuel + 1) active []] at hsettled
            exact Or.inr ⟨index, hunder, fuel + 1, le_refl _, hsettled⟩
          rw [measureOnce_new hmirror hunder]
          rw [measure] at hsettled
          by_cases hlarge : request.entries.length ≤ index
          · exact Or.inl (measureStep_large hlarge active _)
          rw [or_iff_not_imp_left]
          intro hpending
          -- A call that only the unguarded run answers: the walk came back to an
          -- entry under way, either around this one or this one itself.
          obtain ⟨inner, hinner, hstuck⟩ := Eval.exists_unsettled_call measureStep_mono
            (fun _ => measureOnce_agrees) hsettled hpending
          have hless : request.rest (index :: under) < request.rest under :=
            unseen_lt (Finset.mem_range.mpr (Nat.not_le.mp hlarge)) hunder
              (List.subset_cons_self _ _) List.mem_cons_self
          have hroom := budget_push hless (request.rest_le inner.2) hbudget
          rcases ih fuel (Nat.lt_succ_self _) hroom hinner with hdone | hback
          · exact absurd hdone hstuck
          obtain ⟨other, hother, fuel', hle, houter⟩ := hback
          rcases List.mem_cons.mp hother with rfl | houtside
          · rw [measure_active hmirror fuel' [] active] at houter
            rcases ih fuel' (by omega) hbudget houter with hdone | hagain
            · rw [measureOnce_new hmirror hunder] at hdone
              exact absurd hdone hpending
            · obtain ⟨other, hother, fuel'', hle', houter'⟩ := hagain
              exact ⟨other, hother, fuel'', by omega, houter'⟩
          · exact ⟨other, houtside, fuel', by omega, houter⟩

theorem measureOnce_settled {fuel index : Nat}
    (hsettled : (measure request [] none fuel (index, [])).Settled) :
    (measureOnce request request.callDepth [] (index, [])).Settled := by
  have hbudget : request.rest [] * (request.entries.length + 2) +
      request.rest [] < request.callDepth := by
    have hrest := request.rest_le []
    have hproduct := Nat.mul_le_mul_right (request.entries.length + 2) hrest
    unfold callDepth
    rw [Nat.add_one_mul]
    omega
  rcases measureOnce_or_under hbudget hsettled with hdone | ⟨_, hmem, _⟩
  · exact hdone
  · cases hmem

theorem measureSizes_eq (fuel : Nat) (entries : List Entry) :
    measureSizes request fuel entries =
      sizesWith (sizeValue request [] none fuel) entries := by
  induction entries with
  | nil => rfl
  | cons entry rest ih =>
      cases hkind : entry.kind <;> simp [measureSizes, sizesWith, hkind, ih]

theorem sizesWith_le {first second : SizeSpec → Run Bytes} (hle : first ≤ second)
    (entries : List Entry) : sizesWith first entries ≤ sizesWith second entries := by
  induction entries with
  | nil => exact le_refl _
  | cons entry rest ih =>
      simp only [sizesWith]
      split
      · exact Eval.bind_le_bind (hle _) fun _ => ih
      · exact ih

theorem sizeValue_le_once (fuel : Nat) :
    sizeValue request [] none fuel ≤
      sizeValueWith request (measureOnce request request.callDepth []) := by
  intro spec
  apply Eval.bind_le_bind (le_refl _)
  intro target
  refine Eval.bind_le_bind (Eval.le_of_settled_imp fun hsettled => ?_)
    fun _ => le_refl _
  exact measureOnce_agrees hsettled (measureOnce_settled hsettled)

/-- The sizes can be measured exactly when no measurement comes back to itself. -/
theorem measureSizes_terminates_iff :
    Eval.Terminates (fun fuel => measureSizes request fuel request.entries) ↔
      request.MeasuresOnce := by
  simp only [measureSizes_eq]
  constructor
  · rintro ⟨fuel, hsettled⟩
    exact hsettled.mono (sizesWith_le (sizeValue_le_once fuel) _)
  · intro honce
    refine ⟨request.callDepth, honce.mono (sizesWith_le ?_ _)⟩
    intro spec
    exact sizeValueWith_le request (measureOnce_le _ _) spec

theorem measureSizes_mono (entries : List Entry) :
    Monotone fun fuel => measureSizes request fuel entries := by
  intro first second hle
  simp only [measureSizes_eq]
  exact sizesWith_le (fun spec => sizeValue_mono spec hle) entries

theorem sizesWith_done {sizes : SizeSpec → Run Bytes} {entries : List Entry}
    (hdone : sizesWith sizes entries = .done ()) {entry : Entry}
    (hmem : entry ∈ entries) {spec : SizeSpec}
    (hkind : entry.kind = .computedSize spec) : (sizes spec).Settled := by
  induction entries with
  | nil => cases hmem
  | cons head rest ih =>
      simp only [sizesWith] at hdone
      rcases List.mem_cons.mp hmem with rfl | htail
      · simp only [hkind, Eval.bind_eq_done_iff] at hdone
        obtain ⟨bytes, hbytes, -⟩ := hdone
        simp [hbytes]
      · refine ih ?_ htail
        split at hdone
        · obtain ⟨-, -, hrest⟩ := Eval.bind_eq_done_iff.mp hdone
          exact hrest
        · exact hdone

end

end CompiledRequest

end MoonBoofuzz
