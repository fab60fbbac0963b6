import MoonBoofuzz.Mutation.Resume

namespace MoonBoofuzz

namespace CaseStream

/-! Where the cases of a stream come from. -/

/-- The case was built from the candidate at its position of the enumeration. -/
def Originates (request : CompiledRequest) (vars : Option Vars) (first : Cursor)
    (case : MutationCase) : Prop :=
  ∃ values parts last,
    Walker.Takes request.cursorTurn first (values ++ [parts]) last ∧
      values.length = case.ordinal ∧
      Eval.Returns (request.buildCase vars values.length parts) case

def Refused (request : CompiledRequest) (vars : Option Vars) (first : Cursor)
    (position : Nat) : Prop :=
  ∃ values parts last message,
    Walker.Takes request.cursorTurn first (values ++ [parts]) last ∧
      values.length = position ∧
      Eval.Raises (request.buildCase vars position parts) (.limit message)

section

variable {request : CompiledRequest} {vars : Option Vars} {first : Cursor}

theorem buildCase_ordinal {ordinal fuel : Nat} {parts : Parts} {case : MutationCase}
    (hbuild : request.buildCase vars ordinal parts fuel = .done case) :
    case.ordinal = ordinal := by
  simp only [CompiledRequest.buildCase, Eval.bind_eq_done_iff, Eval.done.injEq]
    at hbuild
  obtain ⟨_, -, payload, -, rfl⟩ := hbuild
  rfl

theorem Emits.originates {stream after : CaseStream} {answer : Answer}
    (hemits : Emits stream answer after)
    (hprogress : Progress request vars first stream)
    (hrunning : stream.state = .running) (hskip : stream.skip = 0)
    {case : MutationCase} (hcase : answer = .done (some case)) :
    Originates request vars first case := by
  induction hemits with
  | overflow _ => cases hcase
  | exhausted _ _ => cases hcase
  | failed _ _ _ => cases hcase
  | @oversized stream _ _ _ _ _ hordinal hgives _ _ ih =>
      exact ih (hprogress.advance hrunning hskip hgives stream.emitted) hrunning hskip
        hcase
  | built hordinal hgives hbuild =>
      cases hcase
      obtain ⟨values, htakes, hlength⟩ := hprogress.gives hrunning hskip hgives
      obtain ⟨fuel, hdone⟩ := hbuild
      have hposition := buildCase_ordinal hdone
      rw [hprogress.sameRequest, hprogress.sameVars] at hdone
      rw [← hlength] at hdone hposition
      exact ⟨values, _, _, htakes, hposition.symm, fuel, hdone⟩

theorem Answers.originates {stream after : CaseStream} {case : MutationCase}
    (hanswers : Answers stream (.done (some case)) after)
    (hprogress : Progress request vars first stream) :
    Originates request vars first case := by
  have hrunning : stream.state = .running := by
    by_contra hidle
    obtain ⟨hnone, -⟩ := (answers_idle hidle).mp hanswers
    cases hnone
  rw [answers_running hrunning, hprogress.sameRequest] at hanswers
  obtain ⟨left, cursor, hlands, hproceeds⟩ := hanswers
  cases hproceeds with
  | emits hleft _ hemits =>
      subst hleft
      exact hemits.originates (hprogress.landed hrunning hlands) hrunning rfl rfl

theorem Calls.originates {stream after : CaseStream} {answers : List Answer}
    (hcalls : Calls stream answers after)
    (hprogress : Progress request vars first stream) {case : MutationCase}
    (hcase : .done (some case) ∈ answers) : Originates request vars first case := by
  induction hcalls with
  | nil _ => cases hcase
  | cons hanswer _ ih =>
      rcases List.mem_cons.mp hcase with rfl | hlater
      · exact hanswer.originates hprogress
      · exact ih (hanswer.progress hprogress) hlater

theorem Emits.passed {stream after : CaseStream} {answer : Answer}
    (hemits : Emits stream answer after)
    (hprogress : Progress request vars first stream)
    (hrunning : stream.state = .running) (hskip : stream.skip = 0) {position : Nat}
    (hfrom : stream.ordinal ≤ position) (hto : position < after.ordinal) :
    (∃ case, answer = .done (some case) ∧ case.ordinal = position) ∨
      Refused request vars first position := by
  induction hemits with
  | overflow _ => exact absurd hto (Nat.not_lt.mpr hfrom)
  | exhausted _ _ => exact absurd hto (Nat.not_lt.mpr hfrom)
  | failed _ _ _ => exact absurd hto (Nat.not_lt.mpr hfrom)
  | @oversized stream after next parts message answer hordinal hgives hbuild _ ih =>
      rcases Nat.eq_or_lt_of_le hfrom with rfl | hlater
      · obtain ⟨values, htakes, hlength⟩ := hprogress.gives hrunning hskip hgives
        rw [hprogress.sameRequest, hprogress.sameVars] at hbuild
        exact Or.inr ⟨values, parts, next, message, htakes, hlength, hbuild⟩
      · exact ih (hprogress.advance hrunning hskip hgives stream.emitted) hrunning hskip
          hlater hto
  | @built stream next parts case hordinal hgives hbuild =>
      obtain ⟨fuel, hdone⟩ := hbuild
      have hposition := buildCase_ordinal hdone
      have hlast : position = stream.ordinal := by
        simp only at hto
        omega
      exact Or.inl ⟨case, rfl, by rw [hposition, hlast]⟩

theorem Answers.passed {stream after : CaseStream} {answer : Answer}
    (hanswers : Answers stream answer after)
    (hprogress : Progress request vars first stream) {position : Nat}
    (hfrom : stream.ordinal ≤ position) (hto : position < after.ordinal) :
    (∃ case, answer = .done (some case) ∧ case.ordinal = position) ∨
      Refused request vars first position := by
  by_cases hrunning : stream.state = .running
  · rw [answers_running hrunning, hprogress.sameRequest] at hanswers
    obtain ⟨left, cursor, hlands, hproceeds⟩ := hanswers
    cases hproceeds with
    | ended _ => exact absurd hto (Nat.not_lt.mpr hfrom)
    | limited _ _ => exact absurd hto (Nat.not_lt.mpr hfrom)
    | emits hleft _ hemits =>
        subst hleft
        exact hemits.passed (hprogress.landed hrunning hlands) hrunning rfl hfrom hto
  · obtain ⟨-, rfl⟩ := (answers_idle hrunning).mp hanswers
    exact absurd hto (Nat.not_lt.mpr hfrom)

theorem Calls.passed {stream after : CaseStream} {answers : List Answer}
    (hcalls : Calls stream answers after)
    (hprogress : Progress request vars first stream) {position : Nat}
    (hfrom : stream.ordinal ≤ position) (hto : position < after.ordinal) :
    (∃ case : MutationCase, .done (some case) ∈ answers ∧ case.ordinal = position) ∨
      Refused request vars first position := by
  induction hcalls with
  | nil _ => exact absurd hto (Nat.not_lt.mpr hfrom)
  | @cons stream middle after answer answers hanswer _ ih =>
      rcases Nat.lt_or_ge position middle.ordinal with hhere | hlater
      · rcases hanswer.passed hprogress hfrom hhere with ⟨case, rfl, hordinal⟩ | hrefused
        · exact Or.inl ⟨case, by simp, hordinal⟩
        · exact Or.inr hrefused
      · rcases ih (hanswer.progress hprogress) hlater hto with
          ⟨case, hmem, hordinal⟩ | hrefused
        · exact Or.inl ⟨case, by simp [hmem], hordinal⟩
        · exact Or.inr hrefused

end

/-- Every case a stream emits was built from the candidate at its position. -/
theorem enumerate_originates {request : CompiledRequest}
    {mode : CompiledRequest.Mode} {vars : Option Vars} {start limit : Int32}
    {stream after : CaseStream} {answers : List Answer} {case : MutationCase}
    (hstream : request.enumerate mode vars start limit = .ok stream)
    (hcalls : Calls stream answers after) (hcase : .done (some case) ∈ answers) :
    Originates request vars (request.initialCursor mode) case :=
  hcalls.originates (enumerate_progress hstream) hcase

end CaseStream

end MoonBoofuzz
