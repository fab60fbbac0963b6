import MoonBoofuzz.Mutation.Calls

namespace MoonBoofuzz

namespace CaseStream

/-! Streams in the same place.  Two streams are in step when they agree on all
but their limits and the number of cases they have emitted. -/

structure InStep (stream other : CaseStream) : Prop where
  request : other.request = stream.request
  vars : other.vars = stream.vars
  ordinal : other.ordinal = stream.ordinal
  state : other.state = stream.state
  skip : other.skip = stream.skip
  cursor : other.cursor = stream.cursor

theorem Emits.inStep {stream after other : CaseStream} {answer : Answer}
    (hemits : Emits stream answer after) (hstep : InStep stream other) :
    ∃ other', Emits other answer other' ∧ InStep after other' := by
  induction hemits generalizing other with
  | overflow hordinal =>
      refine ⟨_, .overflow (by rw [hstep.ordinal]; exact hordinal), ?_⟩
      exact { hstep with state := rfl }
  | exhausted hordinal hgives =>
      rw [← hstep.request, ← hstep.cursor] at hgives
      refine ⟨_, .exhausted (by rw [hstep.ordinal]; exact hordinal) hgives, ?_⟩
      exact { hstep with state := rfl, cursor := rfl }
  | oversized hordinal hgives hbuild _ ih =>
      rw [← hstep.request, ← hstep.cursor] at hgives
      rw [← hstep.request, ← hstep.vars, ← hstep.ordinal] at hbuild
      obtain ⟨other', hrest, hafter⟩ := @ih
        { other with cursor := _, ordinal := other.ordinal + 1 }
        { hstep with
          cursor := rfl
          ordinal := by show other.ordinal + 1 = _; rw [hstep.ordinal] }
      exact ⟨other', .oversized (by rw [hstep.ordinal]; exact hordinal) hgives hbuild
        hrest, hafter⟩
  | failed hordinal hgives hbuild =>
      rw [← hstep.request, ← hstep.cursor] at hgives
      rw [← hstep.request, ← hstep.vars, ← hstep.ordinal] at hbuild
      refine ⟨_, .failed (by rw [hstep.ordinal]; exact hordinal) hgives hbuild, ?_⟩
      exact { hstep with state := rfl, cursor := rfl }
  | built hordinal hgives hbuild =>
      rw [← hstep.request, ← hstep.cursor] at hgives
      rw [← hstep.request, ← hstep.vars, ← hstep.ordinal] at hbuild
      refine ⟨_, .built (by rw [hstep.ordinal]; exact hordinal) hgives hbuild, ?_⟩
      exact { hstep with
        cursor := rfl
        ordinal := by show other.ordinal + 1 = _; rw [hstep.ordinal] }

/-- Two streams are aligned when, in addition, passing over their start offsets
may still be ahead of them, and lands them in the same place. -/
structure Aligned (stream other : CaseStream) : Prop where
  request : other.request = stream.request
  vars : other.vars = stream.vars
  ordinal : other.ordinal = stream.ordinal
  state : other.state = stream.state
  lands : ∀ left cursor,
    Lands stream.request stream.skip stream.cursor left cursor ↔
      Lands other.request other.skip other.cursor left cursor

theorem InStep.aligned {stream other : CaseStream} (hstep : InStep stream other) :
    Aligned stream other where
  request := hstep.request
  vars := hstep.vars
  ordinal := hstep.ordinal
  state := hstep.state
  lands := by
    intro left cursor
    rw [hstep.request, hstep.skip, hstep.cursor]

theorem Aligned.symm {stream other : CaseStream} (haligned : Aligned stream other) :
    Aligned other stream where
  request := haligned.request.symm
  vars := haligned.vars.symm
  ordinal := haligned.ordinal.symm
  state := haligned.state.symm
  lands := fun left cursor => (haligned.lands left cursor).symm

theorem Answers.aligned {stream after other : CaseStream} {answer : Answer}
    (hanswers : Answers stream answer after) (haligned : Aligned stream other)
    (hlimit : stream.emitted < stream.limit) (hroom : other.emitted < other.limit) :
    ∃ other', Answers other answer other' ∧ Aligned after other' := by
  by_cases hrunning : stream.state = .running
  · have hother : other.state = .running := haligned.state.trans hrunning
    rw [answers_running hrunning] at hanswers
    obtain ⟨left, cursor, hlands, hproceeds⟩ := hanswers
    have hlands' := (haligned.lands left cursor).mp hlands
    cases hproceeds with
    | ended hleft =>
        refine ⟨_, (answers_running hother).mpr
          ⟨left, cursor, hlands', .ended hleft⟩, InStep.aligned ?_⟩
        exact { haligned with state := rfl, skip := rfl, cursor := rfl }
    | limited _ hreached => omega
    | emits hleft _ hemits =>
        obtain ⟨other', hemits', hstep⟩ := @Emits.inStep _ _
          { other with skip := 0, cursor := cursor } _ hemits
          { haligned with skip := rfl, cursor := rfl }
        exact ⟨other', (answers_running hother).mpr
          ⟨left, cursor, hlands', .emits hleft hroom hemits'⟩, hstep.aligned⟩
  · have hother : other.state ≠ .running := haligned.state ▸ hrunning
    rw [answers_idle hrunning] at hanswers
    obtain ⟨rfl, rfl⟩ := hanswers
    exact ⟨other, (answers_idle hother).mpr ⟨rfl, rfl⟩, haligned⟩

theorem Calls.aligned {stream after other : CaseStream} {answers : List Answer}
    (hcalls : Calls stream answers after) (haligned : Aligned stream other)
    (hlimit : stream.emitted + answers.length ≤ stream.limit)
    (hroom : other.emitted + answers.length ≤ other.limit) :
    ∃ other', Calls other answers other' := by
  induction hcalls generalizing other with
  | nil _ => exact ⟨other, .nil other⟩
  | cons hanswer _ ih =>
      rw [List.length_cons] at hlimit hroom
      obtain ⟨middle, hanswer', halignedMiddle⟩ :=
        hanswer.aligned haligned (by omega) (by omega)
      have hleft := hanswer.continues
      have hright := hanswer'.continues
      obtain ⟨other', hrest⟩ := ih halignedMiddle
        (by have := hleft.emitted; rw [hleft.limit]; omega)
        (by have := hright.emitted; rw [hright.limit]; omega)
      exact ⟨other', .cons hanswer' hrest⟩

/-- Enumeration from `first` with start offset `ordinal` gives no case. -/
def Spent (request : CompiledRequest) (first : Cursor) (ordinal : Nat) : Prop :=
  ∃ left cursor, Lands request ordinal first left cursor ∧
    (0 < left ∨ left = 0 ∧ ordinal < 2147483647 ∧
      ∃ next, Walker.Gives request.cursorTurn cursor none next)

/-- The walker of a stream that is not finished has been called `ordinal` times,
less the skips still ahead. -/
structure Progress (request : CompiledRequest) (vars : Option Vars) (first : Cursor)
    (stream : CaseStream) : Prop where
  sameRequest : stream.request = request
  sameVars : stream.vars = vars
  standing : stream.state = .running ∨ stream.state = .limited →
    ∃ values, Walker.Takes request.cursorTurn first values stream.cursor ∧
      values.length + stream.skip = stream.ordinal
  spent : stream.state = .exhausted → Spent request first stream.ordinal
  full : stream.state = .limited → stream.limit ≤ stream.emitted

theorem lands_after {request : CompiledRequest} {first middle : Cursor}
    {values : List Parts}
    (htakes : Walker.Takes request.cursorTurn first values middle) (skip left : Nat)
    (after : Cursor) :
    Lands request (values.length + skip) first left after ↔
      Lands request skip middle left after := by
  induction htakes with
  | nil state => simp
  | cons hfirst hrest ih =>
      rw [← ih, List.length_cons, Nat.add_right_comm]
      constructor
      · intro hlands
        cases hlands with
        | ended hgives => exact absurd (hfirst.unique hgives).1 (by simp)
        | passed hgives hinner =>
            obtain ⟨-, rfl⟩ := hfirst.unique hgives
            exact hinner
      · exact .passed hfirst

theorem lands_zero_takes {request : CompiledRequest} {skip : Nat}
    {cursor after : Cursor} (hlands : Lands request skip cursor 0 after) :
    ∃ values, Walker.Takes request.cursorTurn cursor values after ∧
      values.length = skip := by
  generalize hleft : 0 = left at hlands
  induction hlands with
  | zero cursor => exact ⟨[], .nil cursor, rfl⟩
  | ended _ => omega
  | passed hgives _ ih =>
      obtain ⟨values, htakes, hlength⟩ := ih hleft
      exact ⟨_ :: values, .cons hgives htakes, by simp [hlength]⟩

section

variable {request : CompiledRequest} {vars : Option Vars} {first : Cursor}

theorem Progress.gives {stream : CaseStream} {next : Cursor} {parts : Parts}
    (hprogress : Progress request vars first stream)
    (hrunning : stream.state = .running) (hskip : stream.skip = 0)
    (hgives : Walker.Gives stream.request.cursorTurn stream.cursor (some parts) next) :
    ∃ values, Walker.Takes request.cursorTurn first (values ++ [parts]) next ∧
      values.length = stream.ordinal := by
  obtain ⟨values, htakes, hlength⟩ := hprogress.standing (Or.inl hrunning)
  rw [hskip, Nat.add_zero] at hlength
  rw [hprogress.sameRequest] at hgives
  exact ⟨values, htakes.snoc hgives, hlength⟩

theorem Progress.advance {stream : CaseStream} {next : Cursor} {parts : Parts}
    (hprogress : Progress request vars first stream)
    (hrunning : stream.state = .running) (hskip : stream.skip = 0)
    (hgives : Walker.Gives stream.request.cursorTurn stream.cursor (some parts) next)
    (emitted : Nat) :
    Progress request vars first
      { stream with
        cursor := next
        ordinal := stream.ordinal + 1
        emitted := emitted } := by
  refine { hprogress with
    standing := ?_
    spent := by simp [hrunning]
    full := by simp [hrunning] }
  intro _
  obtain ⟨values, htakes, hlength⟩ := hprogress.gives hrunning hskip hgives
  exact ⟨_, htakes, by simp [hskip, hlength]⟩

theorem Emits.progress {stream after : CaseStream} {answer : Answer}
    (hemits : Emits stream answer after)
    (hprogress : Progress request vars first stream)
    (hrunning : stream.state = .running) (hskip : stream.skip = 0) :
    Progress request vars first after := by
  induction hemits with
  | overflow _ =>
      exact { hprogress with standing := by simp, spent := by simp, full := by simp }
  | failed _ _ _ =>
      exact { hprogress with standing := by simp, spent := by simp, full := by simp }
  | exhausted hordinal hgives =>
      refine { hprogress with standing := by simp, spent := ?_, full := by simp }
      intro _
      obtain ⟨values, htakes, hlength⟩ := hprogress.standing (Or.inl hrunning)
      rw [hskip, Nat.add_zero] at hlength
      rw [hprogress.sameRequest] at hgives
      refine ⟨0, _, ?_, Or.inr ⟨rfl, hordinal, _, hgives⟩⟩
      show Lands request _ first 0 _
      rw [← hlength, ← Nat.add_zero values.length, lands_after htakes]
      exact .zero _
  | @oversized stream _ _ _ _ _ hordinal hgives _ _ ih =>
      exact ih (hprogress.advance hrunning hskip hgives stream.emitted) hrunning hskip
  | @built stream _ _ _ hordinal hgives _ =>
      exact hprogress.advance hrunning hskip hgives (stream.emitted + 1)

/-- Once the start offset is passed, every raw position has been taken. -/
theorem Progress.landed {stream : CaseStream} {cursor : Cursor}
    (hprogress : Progress request vars first stream)
    (hrunning : stream.state = .running)
    (hlands : Lands request stream.skip stream.cursor 0 cursor) :
    Progress request vars first { stream with skip := 0, cursor := cursor } := by
  refine { hprogress with
    standing := ?_
    spent := by simp [hrunning]
    full := by simp [hrunning] }
  intro _
  obtain ⟨values, htakes, hlength⟩ := hprogress.standing (Or.inl hrunning)
  have hfirst := (lands_after htakes stream.skip 0 cursor).mpr hlands
  rw [hlength] at hfirst
  simpa using lands_zero_takes hfirst

theorem Answers.progress {stream after : CaseStream} {answer : Answer}
    (hanswers : Answers stream answer after)
    (hprogress : Progress request vars first stream) :
    Progress request vars first after := by
  by_cases hrunning : stream.state = .running
  · rw [answers_running hrunning, hprogress.sameRequest] at hanswers
    obtain ⟨left, cursor, hlands, hproceeds⟩ := hanswers
    cases hproceeds with
    | ended hleft =>
        obtain ⟨values, htakes, hlength⟩ := hprogress.standing (Or.inl hrunning)
        have hfirst := (lands_after htakes stream.skip left cursor).mpr hlands
        rw [hlength] at hfirst
        exact { hprogress with
          standing := by simp
          spent := fun _ => ⟨left, cursor, hfirst, Or.inl hleft⟩
          full := by simp }
    | limited hleft hlimit =>
        subst hleft
        exact { hprogress with
          standing := fun _ => (hprogress.landed hrunning hlands).standing (Or.inl hrunning)
          spent := by simp
          full := fun _ => hlimit }
    | emits hleft _ hemits =>
        subst hleft
        exact hemits.progress (hprogress.landed hrunning hlands) hrunning rfl
  · rw [answers_idle hrunning] at hanswers
    obtain ⟨-, rfl⟩ := hanswers
    exact hprogress

theorem Calls.progress {stream after : CaseStream} {answers : List Answer}
    (hcalls : Calls stream answers after)
    (hprogress : Progress request vars first stream) :
    Progress request vars first after := by
  induction hcalls with
  | nil _ => exact hprogress
  | cons hanswer _ ih => exact ih (hanswer.progress hprogress)

end

theorem enumerate_eq_ok {request : CompiledRequest} {mode : CompiledRequest.Mode}
    {vars : Option Vars} {start limit : Int32} {stream : CaseStream}
    (henumerate : request.enumerate mode vars start limit = .ok stream) :
    0 ≤ start.toInt ∧ stream = {
      request := request
      limit := limit.toInt.toNat
      skip := start.toInt.toNat
      ordinal := start.toInt.toNat
      emitted := 0
      state := .running
      cursor := request.initialCursor mode
      vars := vars } := by
  have hstream : request.stream (request.initialCursor mode) vars start limit =
      .ok stream := by
    cases mode <;> exact henumerate
  unfold CompiledRequest.stream at hstream
  split at hstream
  · rename_i hnonneg
    cases hstream
    exact ⟨hnonneg.1, rfl⟩
  · cases hstream

theorem enumerate_of_nonneg (request : CompiledRequest) (mode : CompiledRequest.Mode)
    (vars : Option Vars) {start limit : Int32} (hstart : 0 ≤ start.toInt)
    (hlimit : 0 ≤ limit.toInt) :
    ∃ stream, request.enumerate mode vars start limit = .ok stream := by
  cases mode <;> exact ⟨_, if_pos ⟨hstart, hlimit⟩⟩

theorem enumerate_progress {request : CompiledRequest} {mode : CompiledRequest.Mode}
    {vars : Option Vars} {start limit : Int32} {stream : CaseStream}
    (henumerate : request.enumerate mode vars start limit = .ok stream) :
    Progress request vars (request.initialCursor mode) stream := by
  obtain ⟨-, rfl⟩ := enumerate_eq_ok henumerate
  exact {
    sameRequest := rfl
    sameVars := rfl
    standing := fun _ => ⟨[], .nil _, by simp⟩
    spent := by simp
    full := by simp }

theorem calls_idle {stream after : CaseStream} {answers : List Answer}
    (hidle : stream.state ≠ .running) :
    Calls stream answers after ↔
      after = stream ∧ ∀ answer ∈ answers, answer = .done none := by
  induction answers generalizing stream with
  | nil =>
      constructor
      · intro hcalls
        cases hcalls
        simp
      · rintro ⟨rfl, -⟩
        exact .nil _
  | cons answer answers ih =>
      constructor
      · intro hcalls
        cases hcalls with
        | cons hanswer hrest =>
            obtain ⟨rfl, rfl⟩ := (answers_idle hidle).mp hanswer
            obtain ⟨rfl, hothers⟩ := (ih hidle).mp hrest
            exact ⟨rfl, by simpa using hothers⟩
      · rintro ⟨rfl, hnone⟩
        have hfirst := hnone answer (by simp)
        exact .cons ((answers_idle hidle).mpr ⟨hfirst, rfl⟩)
          ((ih hidle).mpr ⟨rfl, fun other hmem => hnone other (by simp [hmem])⟩)

theorem calls_spent {stream : CaseStream} {answers : List Answer}
    (hrunning : stream.state = .running)
    (hspent : Spent stream.request stream.cursor stream.ordinal)
    (hskip : stream.skip = stream.ordinal) (hlimit : stream.emitted < stream.limit) :
    (∃ after, Calls stream answers after) ↔
      ∀ answer ∈ answers, answer = .done none := by
  obtain ⟨left, cursor, hlands, hend⟩ := hspent
  rw [← hskip] at hlands
  obtain ⟨finished, hanswers, hidle⟩ : ∃ finished,
      Answers stream (.done none) finished ∧ finished.state ≠ .running := by
    rcases hend with hleft | ⟨rfl, hordinal, next, hgives⟩
    · exact ⟨_, (answers_running hrunning).mpr ⟨left, cursor, hlands, .ended hleft⟩,
        by simp⟩
    · exact ⟨_, (answers_running hrunning).mpr ⟨0, cursor, hlands,
        .emits rfl hlimit (.exhausted hordinal hgives)⟩, by simp⟩
  cases answers with
  | nil => exact ⟨by simp, fun _ => ⟨stream, .nil stream⟩⟩
  | cons answer answers =>
      constructor
      · rintro ⟨after, hcalls⟩
        cases hcalls with
        | cons hanswer hrest =>
            obtain ⟨rfl, rfl⟩ := hanswer.unique hanswers
            simpa using ((calls_idle hidle).mp hrest).2
      · intro hnone
        obtain ⟨rfl, hothers⟩ := List.forall_mem_cons.mp hnone
        exact ⟨finished, .cons hanswers ((calls_idle hidle).mpr ⟨rfl, hothers⟩)⟩

/-- Resuming from `position` loses and repeats nothing: a fresh stream of the same
mode that starts at the position of `cut` answers every further sequence of calls
as `cut` does, within the limits of both. -/
theorem resume_same_answers {request : CompiledRequest} {mode : CompiledRequest.Mode}
    {vars : Option Vars} {start limit : Int32} {stream cut : CaseStream}
    (hstream : request.enumerate mode vars start limit = .ok stream)
    {before : List Answer} (hcalls : Calls stream before cut)
    (hlive : cut.state ≠ .stopped) {start' limit' : Int32} {fresh : CaseStream}
    (hposition : start'.toInt = cut.position)
    (hfresh : request.enumerate mode vars start' limit' = .ok fresh)
    {answers : List Answer} (hlimit : cut.emitted + answers.length ≤ cut.limit)
    (hlimit' : answers.length ≤ fresh.limit) :
    (∃ after, Calls cut answers after) ↔ ∃ after, Calls fresh answers after := by
  obtain ⟨-, rfl⟩ := enumerate_eq_ok hfresh
  have hordinal : start'.toInt.toNat = cut.ordinal := by
    rw [hposition]
    rfl
  have hprogress : Progress request vars (request.initialCursor mode) cut :=
    hcalls.progress (enumerate_progress hstream)
  by_cases hempty : answers = []
  · subst hempty
    exact ⟨fun _ => ⟨_, .nil _⟩, fun _ => ⟨_, .nil _⟩⟩
  have hlength : 0 < answers.length := List.length_pos_iff.mpr hempty
  cases hstate : cut.state with
  | stopped => exact absurd hstate hlive
  | limited =>
      have hfull := hprogress.full hstate
      omega
  | exhausted =>
      have hspent := hprogress.spent hstate
      rw [← hordinal] at hspent
      refine Iff.trans ?_ (calls_spent rfl hspent rfl (Nat.lt_of_lt_of_le hlength
        hlimit')).symm
      constructor
      · rintro ⟨after, hafter⟩
        exact ((calls_idle (by simp [hstate])).mp hafter).2
      · intro hnone
        exact ⟨cut, (calls_idle (by simp [hstate])).mpr ⟨rfl, hnone⟩⟩
  | running =>
      obtain ⟨values, htakes, hvalues⟩ := hprogress.standing (Or.inl hstate)
      have haligned : Aligned cut {
          request := request
          limit := limit'.toInt.toNat
          skip := start'.toInt.toNat
          ordinal := start'.toInt.toNat
          emitted := 0
          state := .running
          cursor := request.initialCursor mode
          vars := vars } := {
        request := hprogress.sameRequest.symm
        vars := hprogress.sameVars.symm
        ordinal := hordinal
        state := hstate.symm
        lands := by
          intro left cursor
          rw [hprogress.sameRequest, hordinal, ← hvalues]
          exact (lands_after htakes cut.skip left cursor).symm }
      constructor
      · rintro ⟨after, hafter⟩
        exact hafter.aligned haligned hlimit (by simpa using hlimit')
      · rintro ⟨after, hafter⟩
        exact hafter.aligned haligned.symm (by simpa using hlimit') hlimit

def gapRequest : CompiledRequest where
  name := Text.ofAscii "r"
  entries :=
    [⟨Text.ofAscii "r", none, .container [1], none, none, none⟩,
     ⟨Text.ofAscii "r.x", some 0, .atom (Field.simple [0x61] [[0x62], [0x63, 0x63,
       0x63], [0x64]]), none, none, none⟩]
  paths := [(Text.ofAscii "r", 0), (Text.ofAscii "r.x", 1)]
  maxBytes := 2
  seq := .sequence [.plain 1]

def gapStream (start : Nat) : CaseStream where
  request := gapRequest
  limit := 10
  skip := start
  ordinal := start
  emitted := 0
  state := .running
  cursor := gapRequest.sequentialCursor
  vars := none

def gapCut : CaseStream := (next 8 (gapStream 0)).2

/-- After the first case the stream and a fresh one both give the third. -/
theorem gapStream_resumes :
    (∃ after, Calls gapCut [(next 8 gapCut).1] after) ↔
      ∃ after, Calls (gapStream 1) [(next 8 gapCut).1] after := by
  have hfirst : gapRequest.enumerate .sequential none 0 10 = .ok (gapStream 0) := rfl
  have hfresh : gapRequest.enumerate .sequential none 1 10 = .ok (gapStream 1) := rfl
  have hanswers : Answers (gapStream 0) (next 8 (gapStream 0)).1 gapCut :=
    ⟨8, rfl, by decide⟩
  exact resume_same_answers hfirst (.cons hanswers (.nil gapCut)) (by decide)
    (by decide) hfresh (by decide) (by decide)

end CaseStream

end MoonBoofuzz
