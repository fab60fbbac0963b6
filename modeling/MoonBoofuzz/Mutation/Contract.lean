import MoonBoofuzz.Model.Whole
import MoonBoofuzz.Mutation.Identity

namespace MoonBoofuzz

namespace CaseStream

open CompiledRequest

/-! A stream in use: calls of `next` and `stop` in any order. -/

def stop (stream : CaseStream) : CaseStream := { stream with state := .stopped }

inductive Event where
  | answered (answer : Answer)
  | stopped

def Event.Ends : Event → Prop
  | .answered (.done (some _)) => False
  | .answered _ => True
  | .stopped => True

def Event.case? : Event → Option MutationCase
  | .answered (.done found) => found
  | _ => none

inductive Uses : CaseStream → List Event → CaseStream → Prop
  | nil (stream : CaseStream) : Uses stream [] stream
  | next {stream middle after : CaseStream} {answer : Answer} {events : List Event}
      (hanswer : Answers stream answer middle) (hrest : Uses middle events after) :
      Uses stream (.answered answer :: events) after
  | stop {stream after : CaseStream} {events : List Event}
      (hrest : Uses stream.stop events after) :
      Uses stream (.stopped :: events) after

theorem Emits.ended {stream after : CaseStream} {answer : Answer}
    (hemits : Emits stream answer after) (hends : Event.Ends (.answered answer)) :
    after.state ≠ .running := by
  induction hemits with
  | oversized _ _ _ _ ih => exact ih hends
  | built _ _ _ => exact absurd hends (by simp [Event.Ends])
  | _ => simp

theorem Answers.ended {stream after : CaseStream} {answer : Answer}
    (hanswers : Answers stream answer after) (hends : Event.Ends (.answered answer)) :
    after.state ≠ .running := by
  by_cases hrunning : stream.state = .running
  · obtain ⟨left, cursor, -, hproceeds⟩ := (answers_running hrunning).mp hanswers
    cases hproceeds with
    | ended _ => simp
    | limited _ _ => simp
    | emits _ _ hemits => exact hemits.ended hends
  · obtain ⟨-, rfl⟩ := (answers_idle hrunning).mp hanswers
    exact hrunning

def Event.Idle (event : Event) : Prop :=
  event = .stopped ∨ event = .answered (.done none)

theorem Uses.idle {stream after : CaseStream} {events : List Event}
    (huses : Uses stream events after) (hidle : stream.state ≠ .running) :
    after = { stream with state := after.state } ∧ after.state ≠ .running ∧
      ∀ event ∈ events, event.Idle := by
  induction huses with
  | nil stream => exact ⟨rfl, hidle, by simp⟩
  | next hanswer _ ih =>
      obtain ⟨rfl, rfl⟩ := (answers_idle hidle).mp hanswer
      obtain ⟨hafter, hended, hevents⟩ := ih hidle
      exact ⟨hafter, hended, List.forall_mem_cons.mpr ⟨Or.inr rfl, hevents⟩⟩
  | stop _ ih =>
      obtain ⟨hafter, hended, hevents⟩ := ih (by simp [CaseStream.stop])
      exact ⟨hafter, hended, List.forall_mem_cons.mpr ⟨Or.inl rfl, hevents⟩⟩

theorem filterMap_idle {events : List Event} (hidle : ∀ event ∈ events, event.Idle) :
    events.filterMap Event.case? = [] := by
  rw [List.filterMap_eq_nil_iff]
  intro event hmem
  rcases hidle event hmem with rfl | rfl <;> rfl

/-- The cases of a stream in use come one after another from its start. -/
theorem Uses.delivers {stream after : CaseStream} {events : List Event}
    (huses : Uses stream events after) :
    ∃ middle, Delivers stream (events.filterMap Event.case?) middle := by
  induction huses with
  | nil stream => exact ⟨stream, .nil stream⟩
  | @next stream middle after answer events hanswer hrest ih =>
      by_cases hends : Event.Ends (.answered answer)
      · have hnone : Event.case? (.answered answer) = none := by
          match answer, hends with
          | .done none, _ => rfl
          | .raised _, _ => rfl
          | .pending, _ => rfl
        have hidle := (hrest.idle (hanswer.ended hends)).2.2
        rw [List.filterMap_cons_none hnone, filterMap_idle hidle]
        exact ⟨stream, .nil stream⟩
      · obtain ⟨case, rfl⟩ : ∃ case, answer = .done (some case) := by
          match answer, hends with
          | .done (some case), _ => exact ⟨case, rfl⟩
          | .done none, hends => exact absurd trivial hends
          | .raised _, hends => exact absurd trivial hends
          | .pending, hends => exact absurd trivial hends
        obtain ⟨last, hdelivers⟩ := ih
        exact ⟨last, .cons hanswer hdelivers⟩
  | @stop stream after events hrest _ =>
      have hidle := (hrest.idle (by simp [CaseStream.stop])).2.2
      rw [List.filterMap_cons_none rfl, filterMap_idle hidle]
      exact ⟨stream, .nil stream⟩

theorem Uses.append {stream after : CaseStream} {before rest : List Event}
    (huses : Uses stream (before ++ rest) after) :
    ∃ middle, Uses stream before middle ∧ Uses middle rest after := by
  induction before generalizing stream with
  | nil => exact ⟨stream, .nil stream, huses⟩
  | cons event before ih =>
      cases huses with
      | next hanswer hrest =>
          obtain ⟨middle, hbefore, hafter⟩ := ih hrest
          exact ⟨middle, .next hanswer hbefore, hafter⟩
      | stop hrest =>
          obtain ⟨middle, hbefore, hafter⟩ := ih hrest
          exact ⟨middle, .stop hbefore, hafter⟩

theorem Uses.ended {stream after : CaseStream} {event : Event}
    (huses : Uses stream [event] after) (hends : event.Ends) : after.state ≠ .running := by
  cases huses with
  | next hanswer hrest =>
      cases hrest
      exact hanswer.ended hends
  | stop hrest =>
      cases hrest
      simp [CaseStream.stop]

theorem Emits.emitted_case {stream after : CaseStream} {answer : Answer}
    (hemits : Emits stream answer after) {case : MutationCase}
    (hcase : answer = .done (some case)) : after.emitted = stream.emitted + 1 := by
  induction hemits with
  | oversized _ _ _ _ ih => exact ih hcase
  | built _ _ _ => rfl
  | _ => cases hcase

theorem Answers.running {stream after : CaseStream} {case : MutationCase}
    (hanswers : Answers stream (.done (some case)) after) : stream.state = .running := by
  by_contra hidle
  obtain ⟨hnone, -⟩ := (answers_idle hidle).mp hanswers
  cases hnone

theorem Answers.emitted_case {stream after : CaseStream} {case : MutationCase}
    (hanswers : Answers stream (.done (some case)) after) :
    after.emitted = stream.emitted + 1 := by
  obtain ⟨left, cursor, -, hproceeds⟩ := (answers_running hanswers.running).mp hanswers
  cases hproceeds with
  | emits _ _ hemits => exact hemits.emitted_case rfl

theorem Delivers.within_limit {stream after : CaseStream} {cases : List MutationCase}
    (hdelivers : Delivers stream cases after) (hroom : stream.emitted ≤ stream.limit) :
    stream.emitted + cases.length ≤ stream.limit := by
  induction hdelivers with
  | nil _ => exact hroom
  | cons hanswer _ ih =>
      have hlt := hanswer.emitted_lt hanswer.running
      have hcount := hanswer.emitted_case
      have hlimit := hanswer.continues.limit
      have hrest := ih (by omega)
      rw [List.length_cons]
      omega

/-- The payload is the whole rendering of the parts at the ordinal of the case, and
fits the byte limit. -/
structure Rendered (request : CompiledRequest) (mode : Mode) (vars : Option Vars)
    (case : MutationCase) : Prop where
  fits : case.payload.length ≤ request.maxBytes.val
  whole : ∃ (position : Nat) (parts : Parts), case.ordinal = position ∧
    (request.candidates mode)[position]? = some parts ∧
    case.id = request.caseId parts ∧
    Eval.Returns (fun fuel => wholeNode request (request.partReplacements parts) vars fuel
      (0, [])) case.payload

theorem Originates.rendered {request : CompiledRequest} (htable : Table request)
    {mode : Mode} {vars : Option Vars} {case : MutationCase}
    (horiginates : Originates request vars (request.initialCursor mode) case) :
    Rendered request mode vars case := by
  obtain ⟨position, parts, hordinal, hlisted, hbuild⟩ := horiginates.listed
  have hid := buildCase_id hbuild
  obtain ⟨fuel, hdone⟩ := hbuild
  simp only [buildCase, Eval.bind_eq_done_iff, Eval.done.injEq] at hdone
  obtain ⟨_, -, payload, hpayload, rfl⟩ := hdone
  obtain ⟨children, hroot, -⟩ := htable.tree
  exact {
    fits := renderNode_container_length_le (by rw [hroot]; rfl) hpayload
    whole := ⟨position, parts, hordinal, hlisted, hid, fuel,
      wholeNode_of_render _ _ hpayload⟩ }

theorem limit_nonneg {request : CompiledRequest} {mode : Mode} {vars : Option Vars}
    {start limit : Int32} {stream : CaseStream}
    (hstream : request.enumerate mode vars start limit = .ok stream) : 0 ≤ limit.toInt := by
  have hchecked : request.stream (request.initialCursor mode) vars start limit =
      .ok stream := by
    cases mode <;> exact hstream
  unfold CompiledRequest.stream at hchecked
  split at hchecked
  · rename_i hnonneg
    exact hnonneg.2
  · cases hchecked

/-- Whatever is done with a stream, its payloads are whole and fit the byte limit, it
gives at most `limit` cases with increasing ordinals from `start` on, and once it has
ended it only ever answers with no case and stays where it is. -/
theorem enumerate_contract {root : Block} {maxBytes : Int32} {request : CompiledRequest}
    (hcompile : Eval.Returns (compile root maxBytes) request) {mode : Mode}
    {vars : Option Vars} {start limit : Int32} {stream after : CaseStream}
    (hstream : request.enumerate mode vars start limit = .ok stream) {events : List Event}
    (huses : Uses stream events after) :
    (∀ case ∈ events.filterMap Event.case?, Rendered request mode vars case) ∧
      ((events.filterMap Event.case?).length : Int) ≤ limit.toInt ∧
      (∀ case ∈ events.filterMap Event.case?, start.toInt ≤ case.ordinal) ∧
      (events.filterMap Event.case?).Pairwise
        (fun first second => first.ordinal < second.ordinal) ∧
      ∀ before event rest, events = before ++ event :: rest → event.Ends →
        ∃ middle, Uses stream (before ++ [event]) middle ∧ Uses middle rest after ∧
          (∀ later ∈ rest, later.Idle) ∧
          after = { middle with state := after.state } ∧
          ∀ fuel, next fuel after = (.done none, after) := by
  obtain ⟨fuel, hdone⟩ := hcompile
  have htable := (compile_eq_done hdone).assembled.table
  obtain ⟨last, hdelivers⟩ := huses.delivers
  obtain ⟨hstart, hincreasing⟩ := hdelivers.increasing
  have hcalls := hdelivers.calls
  have horigin : ∀ case ∈ events.filterMap Event.case?, Rendered request mode vars case :=
    fun case hmem => (enumerate_originates hstream hcalls
      (List.mem_map.mpr ⟨case, hmem, rfl⟩)).rendered htable
  obtain ⟨hnonneg, hfresh⟩ := enumerate_eq_ok hstream
  refine ⟨horigin, ?_, ?_, hincreasing, ?_⟩
  · have hwithin := hdelivers.within_limit (by simp [hfresh])
    have hlimit := limit_nonneg hstream
    simp only [hfresh] at hwithin
    omega
  · intro case hmem
    have hle := hstart case hmem
    simp only [hfresh] at hle
    omega
  · intro before event rest hevents hends
    rw [hevents, List.append_cons] at huses
    obtain ⟨middle, hbefore, hrest⟩ := huses.append
    obtain ⟨start, -, hevent⟩ := hbefore.append
    obtain ⟨hafter, hidle, hlater⟩ := hrest.idle (hevent.ended hends)
    exact ⟨middle, hbefore, hrest, hlater, hafter, fun fuel => by simp [next, hidle]⟩

/-- A stream with limit one is called three times and stopped between the last two. -/
theorem singleStream_contract :
    Rendered pairedRequest .sequential none singleCase ∧
      ∃ middle after, Uses singleStream
          [.answered (.done (some singleCase)), .answered (.done none)] middle ∧
        Uses middle [.stopped, .answered (.done none)] after ∧
        after = { middle with state := after.state } ∧
        ∀ fuel, next fuel after = (.done none, after) := by
  have hcase : Answers singleStream (.done (some singleCase)) (next 30 singleStream).2 :=
    ⟨30, rfl, by simp⟩
  have hlimited : Answers (next 30 singleStream).2 (.done none)
      { (next 30 singleStream).2 with state := .limited } := ⟨0, rfl, by simp⟩
  have hstopped : Answers { (next 30 singleStream).2 with state := .stopped }
      (.done none) { (next 30 singleStream).2 with state := .stopped } :=
    ⟨0, rfl, by simp⟩
  have huses := Uses.next hcase (.next hlimited (.stop (.next hstopped (.nil _))))
  have hstream : pairedRequest.enumerate .sequential none 0 1 = .ok singleStream := rfl
  obtain ⟨hrendered, -, -, -, hended⟩ :=
    enumerate_contract ⟨4, pairedRoot_compiles⟩ hstream huses
  obtain ⟨middle, hbefore, hrest, -, hafter, hnext⟩ := hended [_] _ _ rfl trivial
  exact ⟨hrendered singleCase (by simp [Event.case?]), middle, _, hbefore, hrest, hafter,
    hnext⟩

end CaseStream

end MoonBoofuzz
