import MoonBoofuzz.Model.Cycles

namespace MoonBoofuzz

/-- An entry that refers to no other, apart from what it computes. -/
structure Entry.Still (entry : Entry) : Prop where
  condition : entry.condition = none
  repetition : entry.kind.isRepetition = false
  mirror : entry.kind.isMirror = false
  checksum : entry.kind.isChecksum = false

namespace CompiledRequest

/-! Tables without references have nothing to validate. -/

theorem checkReferences_still {request : CompiledRequest} {entries : List Entry}
    (hstill : ∀ entry ∈ entries, entry.Still) : checkReferences request entries = .ok () := by
  induction entries with
  | nil => rfl
  | cons entry rest ih =>
      obtain ⟨hentry, hothers⟩ := List.forall_mem_cons.mp hstill
      have hrepeat : checkRepeat request entry = .ok () := by
        have hkind := hentry.repetition
        rw [checkRepeat]
        split
        · rename_i hrepeat
          rw [hrepeat] at hkind
          cases hkind
        · rfl
      have hcondition : checkCondition request entry = .ok () := by
        rw [checkCondition, hentry.condition]
      have hmirror : checkMirror request entry = .ok () := by
        have hkind := hentry.mirror
        rw [checkMirror]
        split
        · rename_i hmirror
          rw [hmirror] at hkind
          cases hkind
        · rfl
      rw [checkReferences, hrepeat, hcondition, hmirror, ih hothers]
      rfl

theorem checksumEdges_still {request : CompiledRequest} (fuel : Nat) {entries : List Entry}
    (hstill : ∀ entry ∈ entries, entry.Still) (i : Nat) :
    checksumEdges request fuel entries i = .done (List.replicate entries.length []) := by
  induction entries generalizing i with
  | nil => rfl
  | cons entry rest ih =>
      obtain ⟨hentry, hothers⟩ := List.forall_mem_cons.mp hstill
      have hown : entryChecksumEdges request fuel entry i = .done [] := by
        have hkind := hentry.checksum
        rw [entryChecksumEdges]
        split
        · rename_i hchecksum
          rw [hchecksum] at hkind
          cases hkind
        · rfl
      rw [checksumEdges, hown, Eval.done_bind, ih hothers, Eval.done_bind]
      rfl

theorem visitAll_plain (count : Nat) :
    ∃ states, visitAll (List.replicate count []) count = .ok states := by
  have hnone : ∀ index target, ¬ Depends (List.replicate count []) index target := by
    intro index target hdepends
    rw [Depends, List.getD_eq_getElem?_getD, List.getElem?_replicate] at hdepends
    split at hdepends
    · cases hdepends
    · cases hdepends
  have hsearched := visitAll_searched (List.replicate count []) count
  generalize visitAll (List.replicate count []) count = answer at hsearched ⊢
  cases hsearched with
  | @ok states => exact ⟨states, rfl⟩
  | cycle hcyclic =>
      obtain ⟨index, hcycle⟩ := hcyclic
      obtain ⟨target, hdepends, -⟩ := Relation.TransGen.head'_iff.mp hcycle
      exact absurd hdepends (hnone index target)
  | @deep nodes hchain hlength =>
      cases hchain with
      | nil => exact absurd hlength (by decide)
      | singleton _ =>
          rw [List.length_singleton] at hlength
          omega
      | cons_cons hdepends _ => exact absurd hdepends (hnone _ _)

theorem validateChecksums_still {request : CompiledRequest} (fuel : Nat)
    (hstill : ∀ entry ∈ request.entries, entry.Still) :
    validateChecksums request fuel = .done () := by
  obtain ⟨states, hstates⟩ := visitAll_plain request.entries.length
  rw [validateChecksums, checksumEdges_still fuel hstill 0]
  simp only [Eval.done_bind, hstates, Eval.liftM_eq, Eval.ofExcept_ok]

structure Measured (request : CompiledRequest) (fuel : Nat) (spec : SizeSpec) : Prop where
  target : ∃ target, request.resolve spec.target = .ok target ∧
    (request.kind target).isContainer = true ∧
    sizeDependencies request fuel target = .done []
  value : ∃ bytes, sizeValue request [] none fuel spec = .done bytes

section

variable {request : CompiledRequest} {fuel : Nat}

theorem sizeEdges_measured {entries : List Entry}
    (hmeasured : ∀ entry ∈ entries, ∀ spec, entry.kind = .computedSize spec →
      Measured request fuel spec) (i : Nat) :
    sizeEdges request fuel entries i = .done (List.replicate entries.length []) := by
  induction entries generalizing i with
  | nil => rfl
  | cons entry rest ih =>
      obtain ⟨hentry, hothers⟩ := List.forall_mem_cons.mp hmeasured
      have hown : entrySizeEdges request fuel entry i = .done [] := by
        rw [entrySizeEdges]
        split
        · rename_i spec hkind
          obtain ⟨target, htarget, hcontainer, hnone⟩ := (hentry spec hkind).target
          rw [htarget, Eval.liftM_eq, Eval.ofExcept_ok, Eval.done_bind,
            Eval.check_bind_of hcontainer, hnone, Eval.done_bind]
          rfl
        · rfl
      rw [sizeEdges, hown, Eval.done_bind, ih hothers, Eval.done_bind]
      rfl

theorem measureSizes_measured {entries : List Entry}
    (hmeasured : ∀ entry ∈ entries, ∀ spec, entry.kind = .computedSize spec →
      Measured request fuel spec) : measureSizes request fuel entries = .done () := by
  induction entries with
  | nil => rfl
  | cons entry rest ih =>
      obtain ⟨hentry, hothers⟩ := List.forall_mem_cons.mp hmeasured
      rw [measureSizes]
      split
      · rename_i spec hkind
        obtain ⟨bytes, hbytes⟩ := (hentry spec hkind).value
        rw [hbytes, Eval.done_bind]
        exact ih hothers
      · exact ih hothers

theorem validateSizes_measured
    (hmeasured : ∀ entry ∈ request.entries, ∀ spec, entry.kind = .computedSize spec →
      Measured request fuel spec) : validateSizes request fuel = .done () := by
  obtain ⟨states, hstates⟩ := visitAll_plain request.entries.length
  rw [validateSizes, sizeEdges_measured hmeasured 0]
  simp only [Eval.done_bind, hstates, Eval.liftM_eq, Eval.ofExcept_ok,
    measureSizes_measured hmeasured]

end

end CompiledRequest

end MoonBoofuzz
