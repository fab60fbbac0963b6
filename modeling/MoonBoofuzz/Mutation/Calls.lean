import MoonBoofuzz.Mutation.Stream

namespace MoonBoofuzz

namespace CompiledRequest

theorem buildCase_mono (request : CompiledRequest) (vars : Option Vars)
    (ordinal : Nat) (parts : Parts) :
    Monotone (buildCase request vars ordinal parts) := by
  intro first second hle
  apply Eval.bind_le_bind (le_refl _)
  intro _
  exact Eval.bind_le_bind (renderNode_mono hle _) fun _ => le_refl _

end CompiledRequest

namespace CaseStream

abbrev Answer := Run (Option MutationCase)

/-! The two loops of `next`, without their fuel. -/

/-- Passing over the start offset leaves `left` skips. -/
inductive Lands (request : CompiledRequest) : Nat → Cursor → Nat → Cursor → Prop
  | zero (cursor : Cursor) : Lands request 0 cursor 0 cursor
  | ended {skip : Nat} {cursor next : Cursor}
      (hgives : Walker.Gives request.cursorTurn cursor none next) :
      Lands request (skip + 1) cursor (skip + 1) next
  | passed {skip left : Nat} {cursor next after : Cursor} {parts : Parts}
      (hgives : Walker.Gives request.cursorTurn cursor (some parts) next)
      (hrest : Lands request skip next left after) :
      Lands request (skip + 1) cursor left after

inductive Emits : CaseStream → Answer → CaseStream → Prop
  | overflow {stream : CaseStream} (hordinal : 2147483647 ≤ stream.ordinal) :
      Emits stream (.raised (.limitText "case ordinal overflow"))
        { stream with state := .stopped }
  | exhausted {stream : CaseStream} {next : Cursor}
      (hordinal : stream.ordinal < 2147483647)
      (hgives : Walker.Gives stream.request.cursorTurn stream.cursor none next) :
      Emits stream (.done none)
        { stream with cursor := next, state := .exhausted }
  | oversized {stream after : CaseStream} {next : Cursor} {parts : Parts}
      {message : Text} {answer : Answer} (hordinal : stream.ordinal < 2147483647)
      (hgives : Walker.Gives stream.request.cursorTurn stream.cursor
        (some parts) next)
      (hbuild : Eval.Raises
        (stream.request.buildCase stream.vars stream.ordinal parts) (.limit message))
      (hrest : Emits { stream with cursor := next, ordinal := stream.ordinal + 1 }
        answer after) : Emits stream answer after
  | failed {stream : CaseStream} {next : Cursor} {parts : Parts} {message : Text}
      (hordinal : stream.ordinal < 2147483647)
      (hgives : Walker.Gives stream.request.cursorTurn stream.cursor
        (some parts) next)
      (hbuild : Eval.Raises
        (stream.request.buildCase stream.vars stream.ordinal parts)
        (.invalid message)) :
      Emits stream (.raised (.invalid message))
        { stream with cursor := next, state := .stopped }
  | built {stream : CaseStream} {next : Cursor} {parts : Parts}
      {case : MutationCase} (hordinal : stream.ordinal < 2147483647)
      (hgives : Walker.Gives stream.request.cursorTurn stream.cursor
        (some parts) next)
      (hbuild : Eval.Returns
        (stream.request.buildCase stream.vars stream.ordinal parts) case) :
      Emits stream (.done (some case))
        { stream with
          cursor := next
          ordinal := stream.ordinal + 1
          emitted := stream.emitted + 1 }

theorem lands_of_skipAhead {request : CompiledRequest} {fuel : Nat} :
    ∀ {skip left : Nat} {cursor after : Cursor},
      skipAhead request fuel skip cursor = .done (left, after) →
        Lands request skip cursor left after
  | 0, left, cursor, after, hskip => by
      simp only [skipAhead, Eval.done.injEq, Prod.mk.injEq] at hskip
      obtain ⟨rfl, rfl⟩ := hskip
      exact .zero cursor
  | skip + 1, left, cursor, after, hskip => by
      simp only [skipAhead, Eval.bind_eq_done_iff] at hskip
      obtain ⟨⟨found, next⟩, hseek, hrest⟩ := hskip
      cases found with
      | none =>
          simp only [Eval.done.injEq, Prod.mk.injEq] at hrest
          obtain ⟨rfl, rfl⟩ := hrest
          exact .ended (Walker.gives_of_seek hseek)
      | some parts =>
          exact .passed (Walker.gives_of_seek hseek) (lands_of_skipAhead hrest)

theorem skipAhead_mono (request : CompiledRequest) :
    ∀ (skip : Nat) (cursor : Cursor),
      Monotone fun fuel => skipAhead request fuel skip cursor
  | 0, _ => fun _ _ _ => le_refl _
  | skip + 1, cursor => by
      intro first second hle
      apply Eval.bind_le_bind (Walker.seek_mono request.cursorTurn cursor hle)
      rintro ⟨found, next⟩
      cases found with
      | none => exact le_refl _
      | some parts => exact skipAhead_mono request skip next hle

theorem skipAhead_ne_raised {request : CompiledRequest} {fuel : Nat}
    {error : ModelError} :
    ∀ {skip : Nat} {cursor : Cursor},
      skipAhead request fuel skip cursor ≠ .raised error
  | 0, cursor => by simp [skipAhead]
  | skip + 1, cursor => by
      intro hraised
      rw [skipAhead, Eval.bind_eq_raised_iff] at hraised
      rcases hraised with hseek | ⟨⟨found, next⟩, -, hrest⟩
      · exact Walker.seek_ne_raised hseek
      · cases found with
        | none => cases hrest
        | some parts => exact skipAhead_ne_raised hrest

theorem Lands.skipAhead {request : CompiledRequest} {skip left : Nat}
    {cursor after : Cursor} (hlands : Lands request skip cursor left after) :
    Eval.Returns (fun fuel => skipAhead request fuel skip cursor) (left, after) := by
  induction hlands with
  | zero cursor => exact ⟨0, rfl⟩
  | ended hgives =>
      obtain ⟨fuel, hseek⟩ := hgives.seek (ε := ModelError)
      exact ⟨fuel, by simp [CaseStream.skipAhead, hseek]⟩
  | @passed skip _ _ next _ _ hgives _ ih =>
      obtain ⟨fuel, hseek⟩ := hgives.seek (ε := ModelError)
      obtain ⟨fuel', hrest⟩ := ih
      have hseek' := Eval.done_of_le (Walker.seek_mono _ _) (le_max_left fuel fuel')
        hseek
      have hrest' := Eval.done_of_le (skipAhead_mono request skip next)
        (le_max_right fuel fuel') hrest
      exact ⟨max fuel fuel', by simp [CaseStream.skipAhead, hseek', hrest']⟩

theorem emits_of_emitNext {fuel : Nat} :
    ∀ {loops : Nat} {stream after : CaseStream} {answer : Answer},
      emitNext fuel loops stream = (answer, after) → answer.Settled →
        Emits stream answer after := by
  intro loops
  induction loops with
  | zero =>
      intro stream after answer hemit hsettled
      cases hemit
      simp at hsettled
  | succ loops ih =>
      intro stream after answer hemit hsettled
      rw [emitNext] at hemit
      split at hemit
      · rename_i hordinal
        split at hemit
        · cases hemit
          simp at hsettled
        · rename_i hseek
          exact absurd hseek Walker.seek_ne_raised
        · rename_i hseek
          cases hemit
          exact .exhausted hordinal (Walker.gives_of_seek hseek)
        · rename_i hseek
          have hgives := Walker.gives_of_seek hseek
          split at hemit
          · cases hemit
            simp at hsettled
          · rename_i hbuild
            exact .oversized hordinal hgives ⟨fuel, hbuild⟩ (ih hemit hsettled)
          · rename_i hbuild
            cases hemit
            exact .failed hordinal hgives ⟨fuel, hbuild⟩
          · rename_i hbuild
            cases hemit
            exact .built hordinal hgives ⟨fuel, hbuild⟩
      · rename_i hordinal
        cases hemit
        exact .overflow (by omega)

theorem Emits.settled {stream after : CaseStream} {answer : Answer}
    (hemits : Emits stream answer after) : answer.Settled := by
  induction hemits with
  | oversized _ _ _ _ ih => exact ih
  | _ => simp

theorem Emits.emitNext {stream after : CaseStream} {answer : Answer}
    (hemits : Emits stream answer after) :
    ∃ enough, ∀ fuel loops, enough ≤ fuel → enough ≤ loops →
      emitNext fuel loops stream = (answer, after) := by
  induction hemits with
  | overflow hordinal =>
      refine ⟨1, fun fuel loops _ hloops => ?_⟩
      obtain ⟨loops, rfl⟩ := Nat.exists_eq_add_of_le' hloops
      simp [CaseStream.emitNext, Nat.not_lt.mpr hordinal]
  | exhausted hordinal hgives =>
      obtain ⟨first, hseek⟩ := (hgives.seek (ε := ModelError)).eventually
        (Walker.seek_mono _ _)
      refine ⟨first + 1, fun fuel loops hfuel hloops => ?_⟩
      obtain ⟨loops, rfl⟩ := Nat.exists_eq_add_of_le' (Nat.le_of_add_left_le hloops)
      simp [CaseStream.emitNext, hordinal, hseek fuel (by omega)]
  | failed hordinal hgives hbuild =>
      obtain ⟨first, hseek⟩ := (hgives.seek (ε := ModelError)).eventually
        (Walker.seek_mono _ _)
      obtain ⟨second, hcase⟩ := hbuild.eventually
        (CompiledRequest.buildCase_mono _ _ _ _)
      refine ⟨first + second + 1, fun fuel loops hfuel hloops => ?_⟩
      obtain ⟨loops, rfl⟩ := Nat.exists_eq_add_of_le' (Nat.le_of_add_left_le hloops)
      simp [CaseStream.emitNext, hordinal, hseek fuel (by omega),
        hcase fuel (by omega)]
  | built hordinal hgives hbuild =>
      obtain ⟨first, hseek⟩ := (hgives.seek (ε := ModelError)).eventually
        (Walker.seek_mono _ _)
      obtain ⟨second, hcase⟩ := hbuild.eventually
        (CompiledRequest.buildCase_mono _ _ _ _)
      refine ⟨first + second + 1, fun fuel loops hfuel hloops => ?_⟩
      obtain ⟨loops, rfl⟩ := Nat.exists_eq_add_of_le' (Nat.le_of_add_left_le hloops)
      simp [CaseStream.emitNext, hordinal, hseek fuel (by omega),
        hcase fuel (by omega)]
  | oversized hordinal hgives hbuild _ ih =>
      obtain ⟨first, hseek⟩ := (hgives.seek (ε := ModelError)).eventually
        (Walker.seek_mono _ _)
      obtain ⟨second, hcase⟩ := hbuild.eventually
        (CompiledRequest.buildCase_mono _ _ _ _)
      obtain ⟨third, hrest⟩ := ih
      refine ⟨first + second + third + 1, fun fuel loops hfuel hloops => ?_⟩
      obtain ⟨loops, rfl⟩ := Nat.exists_eq_add_of_le' (Nat.le_of_add_left_le hloops)
      simp only [CaseStream.emitNext, hordinal, hseek fuel (by omega),
        hcase fuel (by omega), if_true]
      exact hrest fuel loops (by omega) (by omega)

/-- A call of `next` gives an answer. -/
def Answers (stream : CaseStream) (answer : Answer) (after : CaseStream) : Prop :=
  ∃ fuel, next fuel stream = (answer, after) ∧ answer.Settled

/-- Consecutive calls of `next`, with their answers. -/
inductive Calls : CaseStream → List Answer → CaseStream → Prop
  | nil (stream : CaseStream) : Calls stream [] stream
  | cons {stream middle after : CaseStream} {answer : Answer}
      {answers : List Answer}
      (hanswer : Answers stream answer middle) (hrest : Calls middle answers after) :
      Calls stream (answer :: answers) after

theorem answers_idle {stream after : CaseStream} {answer : Answer}
    (hidle : stream.state ≠ .running) :
    Answers stream answer after ↔ answer = .done none ∧ after = stream := by
  constructor
  · rintro ⟨fuel, hnext, -⟩
    simp only [next, hidle, if_false, Prod.mk.injEq] at hnext
    exact ⟨hnext.1.symm, hnext.2.symm⟩
  · rintro ⟨rfl, rfl⟩
    exact ⟨0, by simp [next, hidle], by simp⟩

inductive Proceeds (stream : CaseStream) (left : Nat) (cursor : Cursor) :
    Answer → CaseStream → Prop
  | ended (hleft : 0 < left) :
      Proceeds stream left cursor (.done none)
        { stream with skip := left, cursor := cursor, state := .exhausted }
  | limited (hleft : left = 0) (hlimit : stream.limit ≤ stream.emitted) :
      Proceeds stream left cursor (.done none)
        { stream with skip := 0, cursor := cursor, state := .limited }
  | emits {answer : Answer} {after : CaseStream} (hleft : left = 0)
      (hlimit : stream.emitted < stream.limit)
      (hemits : Emits { stream with skip := 0, cursor := cursor } answer after) :
      Proceeds stream left cursor answer after

theorem Proceeds.settled {stream after : CaseStream} {left : Nat} {cursor : Cursor}
    {answer : Answer} (hproceeds : Proceeds stream left cursor answer after) :
    answer.Settled := by
  cases hproceeds with
  | ended _ => simp
  | limited _ _ => simp
  | emits _ _ hemits => exact hemits.settled

theorem Proceeds.next {stream after : CaseStream} {left : Nat} {cursor : Cursor}
    {answer : Answer} (hproceeds : Proceeds stream left cursor answer after)
    (hrunning : stream.state = .running)
    (hlands : Lands stream.request stream.skip stream.cursor left cursor) :
    ∃ enough, ∀ fuel, enough ≤ fuel → next fuel stream = (answer, after) := by
  obtain ⟨enough, hskip⟩ := hlands.skipAhead.eventually (skipAhead_mono _ _ _)
  cases hproceeds with
  | ended hleft =>
      refine ⟨enough, fun fuel hfuel => ?_⟩
      simp only [CaseStream.next, hrunning, hskip fuel hfuel, hleft, if_true]
  | limited hleft hlimit =>
      subst hleft
      refine ⟨enough, fun fuel hfuel => ?_⟩
      simp only [CaseStream.next, hrunning, hskip fuel hfuel, Nat.lt_irrefl, if_true,
        if_false, Nat.not_lt.mpr hlimit]
  | emits hleft hlimit hemits =>
      subst hleft
      obtain ⟨enough', hemit⟩ := hemits.emitNext
      refine ⟨enough + enough', fun fuel hfuel => ?_⟩
      rw [CaseStream.next, if_pos hrunning]
      simp only [hskip fuel (by omega), Nat.lt_irrefl, if_false, hlimit, if_true]
      exact hemit _ _ (by omega) (by omega)

theorem answers_running {stream after : CaseStream} {answer : Answer}
    (hrunning : stream.state = .running) :
    Answers stream answer after ↔
      ∃ left cursor, Lands stream.request stream.skip stream.cursor left cursor ∧
        Proceeds stream left cursor answer after := by
  constructor
  · rintro ⟨fuel, hnext, hsettled⟩
    rw [next, if_pos hrunning] at hnext
    split at hnext
    · cases hnext
      simp at hsettled
    · rename_i hskip
      exact absurd hskip skipAhead_ne_raised
    · rename_i left cursor hskip
      refine ⟨left, cursor, lands_of_skipAhead hskip, ?_⟩
      by_cases hleft : 0 < left
      · simp only [hleft, if_true, Prod.mk.injEq] at hnext
        obtain ⟨rfl, rfl⟩ := hnext
        exact .ended hleft
      · obtain rfl : left = 0 := by omega
        simp only [Nat.lt_irrefl, if_false] at hnext
        by_cases hlimit : stream.emitted < stream.limit
        · simp only [hlimit, if_true] at hnext
          exact .emits rfl hlimit (emits_of_emitNext hnext hsettled)
        · simp only [hlimit, if_false, Prod.mk.injEq] at hnext
          obtain ⟨rfl, rfl⟩ := hnext
          exact .limited rfl (by omega)
  · rintro ⟨left, cursor, hlands, hproceeds⟩
    obtain ⟨enough, hnext⟩ := hproceeds.next hrunning hlands
    exact ⟨enough, hnext enough (le_refl _), hproceeds.settled⟩

theorem Answers.eventually {stream after : CaseStream} {answer : Answer}
    (hanswers : Answers stream answer after) :
    ∃ enough, ∀ fuel, enough ≤ fuel → next fuel stream = (answer, after) := by
  by_cases hrunning : stream.state = .running
  · obtain ⟨left, cursor, hlands, hproceeds⟩ := (answers_running hrunning).mp hanswers
    exact hproceeds.next hrunning hlands
  · obtain ⟨rfl, rfl⟩ := (answers_idle hrunning).mp hanswers
    exact ⟨0, fun fuel _ => by simp [next, hrunning]⟩

theorem Lands.unique {request : CompiledRequest} {skip left left' : Nat}
    {cursor after after' : Cursor} (hfirst : Lands request skip cursor left after)
    (hsecond : Lands request skip cursor left' after') :
    left = left' ∧ after = after' := by
  have hequal := hfirst.skipAhead.unique (skipAhead_mono _ _ _) hsecond.skipAhead
  simpa using hequal

theorem Emits.unique {stream after after' : CaseStream} {answer answer' : Answer}
    (hfirst : Emits stream answer after) (hsecond : Emits stream answer' after') :
    answer = answer' ∧ after = after' := by
  obtain ⟨enough, hemit⟩ := hfirst.emitNext
  obtain ⟨enough', hemit'⟩ := hsecond.emitNext
  have hequal := (hemit (enough + enough') (enough + enough') (by omega)
    (by omega)).symm.trans (hemit' _ _ (by omega) (by omega))
  simpa using hequal

theorem Proceeds.unique {stream after after' : CaseStream} {left : Nat}
    {cursor : Cursor} {answer answer' : Answer}
    (hfirst : Proceeds stream left cursor answer after)
    (hsecond : Proceeds stream left cursor answer' after') :
    answer = answer' ∧ after = after' := by
  cases hfirst with
  | ended hleft =>
      cases hsecond with
      | ended _ => exact ⟨rfl, rfl⟩
      | limited hzero _ => omega
      | emits hzero _ _ => omega
  | limited hzero hlimit =>
      cases hsecond with
      | ended hleft => omega
      | limited _ _ => exact ⟨rfl, rfl⟩
      | emits _ hroom _ => omega
  | emits hzero hroom hemits =>
      cases hsecond with
      | ended hleft => omega
      | limited _ hlimit => omega
      | emits _ _ hemits' => exact hemits.unique hemits'

theorem Answers.unique {stream after after' : CaseStream} {answer answer' : Answer}
    (hfirst : Answers stream answer after) (hsecond : Answers stream answer' after') :
    answer = answer' ∧ after = after' := by
  by_cases hrunning : stream.state = .running
  · rw [answers_running hrunning] at hfirst hsecond
    obtain ⟨left, cursor, hlands, hproceeds⟩ := hfirst
    obtain ⟨left', cursor', hlands', hproceeds'⟩ := hsecond
    obtain ⟨rfl, rfl⟩ := hlands.unique hlands'
    exact hproceeds.unique hproceeds'
  · rw [answers_idle hrunning] at hfirst hsecond
    obtain ⟨rfl, rfl⟩ := hfirst
    obtain ⟨rfl, rfl⟩ := hsecond
    exact ⟨rfl, rfl⟩

/-- A stream that differs only in what has happened to it. -/
structure Continues (stream after : CaseStream) : Prop where
  request : after.request = stream.request
  vars : after.vars = stream.vars
  limit : after.limit = stream.limit
  emitted_ge : stream.emitted ≤ after.emitted
  emitted : after.emitted ≤ stream.emitted + 1

theorem Emits.continues {stream after : CaseStream} {answer : Answer}
    (hemits : Emits stream answer after) : Continues stream after := by
  induction hemits with
  | oversized _ _ _ _ ih => exact ⟨ih.request, ih.vars, ih.limit, ih.emitted_ge, ih.emitted⟩
  | built _ _ _ => exact ⟨rfl, rfl, rfl, Nat.le_succ _, le_refl _⟩
  | _ => exact ⟨rfl, rfl, rfl, le_refl _, Nat.le_succ _⟩

theorem Answers.continues {stream after : CaseStream} {answer : Answer}
    (hanswers : Answers stream answer after) : Continues stream after := by
  by_cases hrunning : stream.state = .running
  · rw [answers_running hrunning] at hanswers
    obtain ⟨left, cursor, -, hproceeds⟩ := hanswers
    cases hproceeds with
    | ended _ => exact ⟨rfl, rfl, rfl, le_refl _, Nat.le_succ _⟩
    | limited _ _ => exact ⟨rfl, rfl, rfl, le_refl _, Nat.le_succ _⟩
    | emits _ _ hemits =>
        have hcontinues := hemits.continues
        exact ⟨hcontinues.request, hcontinues.vars, hcontinues.limit,
          hcontinues.emitted_ge, hcontinues.emitted⟩
  · rw [answers_idle hrunning] at hanswers
    obtain ⟨-, rfl⟩ := hanswers
    exact ⟨rfl, rfl, rfl, le_refl _, Nat.le_succ _⟩

end CaseStream

end MoonBoofuzz
