import MoonBoofuzz.Definition.Coverage
import MoonBoofuzz.Runner.Run

namespace MoonBoofuzz

namespace Runner

open CaseStream

variable {ω : Type}

/-! Where a runner stands on its current path. -/

structure SameRun (runner after : Runner ω) : Prop where
  paths : after.paths = runner.paths
  settings : after.settings = runner.settings
  index : after.index = runner.index
  skip : after.skip = runner.skip
  executed : after.executed = runner.executed
  state : after.state = runner.state
  pathFailures : after.pathFailures = runner.pathFailures
  elementFailures : after.elementFailures = runner.elementFailures
  length : after.streams.length = runner.streams.length
  later : ∀ other, runner.index < other →
    after.streams.getD other none = runner.streams.getD other none

theorem SameRun.refl (runner : Runner ω) : SameRun runner runner := by
  constructor <;> simp

theorem SameRun.trans {first second third : Runner ω} (hfirst : SameRun first second)
    (hsecond : SameRun second third) : SameRun first third where
  paths := hsecond.paths.trans hfirst.paths
  settings := hsecond.settings.trans hfirst.settings
  index := hsecond.index.trans hfirst.index
  skip := hsecond.skip.trans hfirst.skip
  executed := hsecond.executed.trans hfirst.executed
  state := hsecond.state.trans hfirst.state
  pathFailures := hsecond.pathFailures.trans hfirst.pathFailures
  elementFailures := hsecond.elementFailures.trans hfirst.elementFailures
  length := hsecond.length.trans hfirst.length
  later := fun other hother =>
    (hsecond.later other (hfirst.index ▸ hother)).trans (hfirst.later other hother)

/-- The stream of the current path has not been built; the start offset is kept. -/
structure Closed (runner : Runner ω) (offset : Nat) : Prop where
  stream : runner.stream = none
  pending : runner.pending = none
  skip : runner.skip.toInt = offset

/-- The stream of the current path has been built and read up to a raw position. -/
inductive Opened (runner : Runner ω) (target : CompiledRequest) (raw : List Parts) :
    Nat → Prop
  | reading {stream : CaseStream} (hstream : runner.stream = some stream)
      (hpending : runner.pending = none)
      (hat : At target runner.settings.vars raw stream)
      (hfits : runner.settings.mode = .sequential → stream.ordinal ≤ raw.length) :
      Opened runner target raw stream.ordinal
  /-- The case at the position has been pulled and is pending. -/
  | parked {stream : CaseStream} {case : MutationCase} {offset : Nat}
      (hstream : runner.stream = some stream) (hpending : runner.pending = some case)
      (hat : At target runner.settings.vars raw stream)
      (hzero : stream.skip = 0) (hordinal : stream.ordinal = offset + 1)
      (hcase : (target.slotsFrom runner.settings.vars 0 raw)[offset]? =
        some (.keep case)) :
      Opened runner target raw offset
  | spent {stream : CaseStream} (hstream : runner.stream = some stream)
      (hpending : runner.pending = none) (hidle : stream.state ≠ .running)
      (hzero : stream.skip = 0) :
      Opened runner target raw raw.length

theorem Opened.stream_some {runner : Runner ω} {target : CompiledRequest}
    {raw : List Parts} {offset : Nat} (hopened : Opened runner target raw offset) :
    ∃ stream, runner.stream = some stream := by
  cases hopened with
  | reading hstream _ _ _ => exact ⟨_, hstream⟩
  | parked hstream _ _ _ _ _ => exact ⟨_, hstream⟩
  | spent hstream _ _ _ => exact ⟨_, hstream⟩

/-- The stream of the current path has not given as many cases as a stream may. -/
def Ample (runner : Runner ω) : Prop :=
  ∀ stream, runner.stream = some stream → stream.emitted < 2147483647

def Advanced (runner : Runner ω) (target : CompiledRequest) (raw : List Parts)
    (offset : Nat) : Prop :=
  ∃ stream, runner.stream = some stream ∧ runner.pending = none ∧
    At target runner.settings.vars raw stream ∧ stream.skip = 0 ∧
    stream.ordinal = offset

theorem Advanced.opened {runner : Runner ω} {target : CompiledRequest}
    {raw : List Parts} {offset : Nat} (hadvanced : Advanced runner target raw offset) :
    Opened runner target raw offset := by
  obtain ⟨stream, hstream, hpending, hat, hzero, rfl⟩ := hadvanced
  have hread := hat.read
  exact .reading hstream hpending hat (fun _ => by omega)

section

variable {runner after : Runner ω} {target : CompiledRequest} {raw : List Parts}

theorem setStream_sameRun (runner : Runner ω) (stream : CaseStream) (position : Int32) :
    SameRun runner { runner.setStream stream with position := position } := by
  constructor <;> try rfl
  · simp [setStream]
  · intro other hother
    have hne : runner.index ≠ other := by omega
    simp only [setStream, List.getD_eq_getElem?_getD, List.getElem?_set_ne hne]

theorem stream_setStream {stream : CaseStream}
    (hindex : runner.index < runner.streams.length) (position : Int32) :
    { runner.setStream stream with position := position }.stream = some stream := by
  simp [Runner.stream, setStream, List.getD_eq_getElem?_getD, hindex]

theorem stream_lt {stream : CaseStream} (hstream : runner.stream = some stream) :
    runner.index < runner.streams.length := by
  by_contra hlarge
  rw [Runner.stream, List.getD_eq_getElem?_getD, List.getElem?_eq_none (by omega)]
    at hstream
  cases hstream

theorem pull_stream {stream : CaseStream} {fuel : Nat} {found : Option MutationCase}
    (hstream : runner.stream = some stream) (hpending : runner.pending = none)
    (hpull : runner.pull fuel = (.done found, after)) :
    ∃ stream', Answers stream (.done found) stream' ∧
      after = { runner.setStream stream' with
        position := runner.position +
          Int32.ofInt ((stream'.ordinal : Int) - stream.ordinal) } := by
  simp only [pull, hpending, hstream] at hpull
  split at hpull
  · cases hpull
  · cases hpull
  · rename_i found' stream' hnext
    cases hpull
    exact ⟨stream', ⟨fuel, hnext, by simp⟩, rfl⟩

theorem Ample.pulled {found : Option MutationCase} {fuel : Nat} (hample : after.Ample)
    (hpull : runner.pull fuel = (.done found, after)) : runner.Ample := by
  intro stream hstream
  cases hpending : runner.pending with
  | some saved =>
      simp only [pull, hpending, Prod.mk.injEq] at hpull
      obtain ⟨-, rfl⟩ := hpull
      exact hample stream hstream
  | none =>
      obtain ⟨stream', hanswers, rfl⟩ := pull_stream hstream hpending hpull
      have hemitted := hanswers.continues.emitted_ge
      have hlater := hample stream' (stream_setStream (stream_lt hstream) _)
      omega

theorem Ample.drained {fuel : Nat} (hample : after.Ample) :
    ∀ {loops : Nat} {runner : Runner ω},
      drainPath fuel loops runner = (.done (), after) → runner.Ample := by
  intro loops
  induction loops with
  | zero =>
      intro runner hdrain
      cases hdrain
  | succ loops ih =>
      intro runner hdrain
      rw [drainPath] at hdrain
      split at hdrain
      · cases hdrain
      · cases hdrain
      · rename_i hpull
        cases hdrain
        exact hample.pulled hpull
      · rename_i hpull
        exact (ih hdrain).pulled hpull

theorem Opened.pull_some {offset base fuel : Nat} {case : MutationCase}
    (hopened : Opened runner target raw offset)
    (hposition : runner.position.toInt = wrap32 (base + offset))
    (hpull : runner.pull fuel = (.done (some case), after)) :
    ∃ count,
      Slot.ahead ((target.slotsFrom runner.settings.vars 0 raw).drop offset) =
          some (some case, count) ∧
        offset + count ≤ raw.length ∧ SameRun runner after ∧
        Advanced after target raw (offset + count) ∧
        after.position.toInt = wrap32 (base + (offset + count : Nat)) := by
  cases hopened with
  | @reading stream hstream hpending hat hfits =>
      obtain ⟨stream', hanswers, rfl⟩ := pull_stream hstream hpending hpull
      have hle : stream.ordinal ≤ raw.length := by
        by_contra hlarge
        have hbeyond := hat.answers_beyond hanswers (by omega)
        cases hbeyond.1
      obtain ⟨count, hahead, hordinal, hskip, hnext⟩ := hat.answers hanswers hle (by simp)
      have hcount := (Slot.ahead_some hahead).2.1
      rw [List.length_drop, CompiledRequest.length_slotsFrom] at hcount
      refine ⟨count, hahead, by omega, setStream_sameRun runner stream' _, ?_, ?_⟩
      · exact ⟨stream', stream_setStream (stream_lt hstream) _, hpending, hnext rfl,
          hskip, hordinal⟩
      · rw [toInt_add_ofInt hposition]
        congr 1
        omega
  | @parked stream saved offset hstream hpending hat hzero hordinal hcase =>
      have hbound := (List.getElem?_eq_some_iff.mp hcase).1
      rw [CompiledRequest.length_slotsFrom] at hbound
      simp only [pull, hpending, Prod.mk.injEq, Eval.done.injEq, Option.some.injEq]
        at hpull
      obtain ⟨rfl, rfl⟩ := hpull
      refine ⟨1, ?_, by omega, ?_, ?_, ?_⟩
      · rw [List.drop_eq_getElem_cons (by rwa [CompiledRequest.length_slotsFrom]),
          (List.getElem?_eq_some_iff.mp hcase).2, Slot.ahead]
      · constructor <;> simp
      · exact ⟨stream, hstream, rfl, hat, hzero, hordinal⟩
      · rw [toInt_add_one hposition, Nat.cast_add_one, add_assoc]
  | @spent stream hstream hpending hidle hzero =>
      obtain ⟨stream', hanswers, rfl⟩ := pull_stream hstream hpending hpull
      obtain ⟨hnone, -⟩ := (answers_idle hidle).mp hanswers
      cases hnone

theorem leftover_zero {stream : CaseStream} (hstream : runner.stream = some stream)
    (hzero : stream.skip = 0) : runner.leftover = runner.skip := by
  cases hmode : runner.settings.mode with
  | sequential => simp [leftover, hmode]
  | combinatorial maxDepth => simp [leftover, hmode, hstream, remainingSkip, hzero]

theorem leftover_skip {stream : CaseStream} (hstream : runner.stream = some stream)
    (hmode : runner.settings.mode ≠ .sequential) (hpositive : 0 < stream.skip) :
    runner.leftover = Int32.ofNat stream.skip := by
  cases hkind : runner.settings.mode with
  | sequential => exact absurd hkind hmode
  | combinatorial maxDepth =>
      simp [leftover, hkind, hstream, remainingSkip, hpositive]

theorem Opened.pull_none {offset base fuel : Nat}
    (hopened : Opened runner target raw offset) (hample : runner.Ample)
    (hposition : runner.position.toInt = wrap32 (base + offset)) (hle : offset ≤ raw.length)
    (hpull : runner.pull fuel = (.done none, after)) :
    Slot.ahead ((target.slotsFrom runner.settings.vars 0 raw).drop offset) =
        some (none, raw.length - offset) ∧
      SameRun runner after ∧ Opened after target raw raw.length ∧
      after.pending = none ∧ after.position.toInt = wrap32 (base + raw.length) ∧
      after.leftover = runner.skip := by
  cases hopened with
  | @reading stream hstream hpending hat hfits =>
      obtain ⟨stream', hanswers, rfl⟩ := pull_stream hstream hpending hpull
      obtain ⟨count, hahead, hordinal, hskip, -⟩ :=
        hat.answers hanswers hle (fun _ => hample stream hstream)
      have hcount := (Slot.ahead_none hahead).1
      rw [List.length_drop, CompiledRequest.length_slotsFrom] at hcount
      refine ⟨hcount ▸ hahead, setStream_sameRun runner stream' _, ?_, hpending, ?_,
        leftover_zero (stream_setStream (stream_lt hstream) _) hskip⟩
      · exact .spent (stream_setStream (stream_lt hstream) _) hpending hanswers.idle hskip
      · rw [toInt_add_ofInt hposition]
        congr 1
        omega
  | @parked stream saved offset hstream hpending hat hzero hordinal hcase =>
      simp only [pull, hpending, Prod.mk.injEq, Eval.done.injEq] at hpull
      cases hpull.1
  | @spent stream hstream hpending hidle hzero =>
      obtain ⟨stream', hanswers, rfl⟩ := pull_stream hstream hpending hpull
      obtain ⟨-, rfl⟩ := (answers_idle hidle).mp hanswers
      refine ⟨?_, setStream_sameRun runner stream' _, ?_, hpending, ?_,
        leftover_zero (stream_setStream (stream_lt hstream) _) hzero⟩
      · rw [List.drop_eq_nil_of_le (by rw [CompiledRequest.length_slotsFrom]),
          Nat.sub_self, Slot.ahead]
      · exact .spent (stream_setStream (stream_lt hstream) _) hpending hidle hzero
      · rw [toInt_add_ofInt hposition, sub_self, add_zero]

theorem Opened.pull_beyond {offset base fuel : Nat} {found : Option MutationCase}
    (hopened : Opened runner target raw offset)
    (hposition : runner.position.toInt = wrap32 (base + offset)) (hlt : raw.length < offset)
    (hpull : runner.pull fuel = (.done found, after)) :
    found = none ∧ SameRun runner after ∧ after.pending = none ∧
      after.position.toInt = wrap32 (base + offset) ∧
      after.leftover.toInt = (offset - raw.length : Nat) := by
  cases hopened with
  | @reading stream hstream hpending hat hfits =>
      obtain ⟨stream', hanswers, rfl⟩ := pull_stream hstream hpending hpull
      obtain ⟨hnone, hordinal, hskip⟩ := hat.answers_beyond hanswers hlt
      refine ⟨hnone, setStream_sameRun runner stream' _, hpending, ?_, ?_⟩
      · rw [toInt_add_ofInt hposition, hordinal, sub_self, add_zero]
      · have hmode : runner.settings.mode ≠ .sequential := by
          intro hsequential
          have := hfits hsequential
          omega
        have hsmall := hat.stands.small
        rw [leftover_skip (stream_setStream (stream_lt hstream) _) hmode (by omega),
          Int32.toInt_ofNat_of_lt (by omega), hskip]
  | @parked stream saved offset hstream hpending hat hzero hordinal hcase =>
      have hbound := (List.getElem?_eq_some_iff.mp hcase).1
      rw [CompiledRequest.length_slotsFrom] at hbound
      omega
  | @spent stream hstream hpending hidle hzero => omega

theorem Opened.pull_ends {offset base fuel : Nat}
    (hopened : Opened runner target raw offset) (hample : runner.Ample)
    (hskip : runner.skip = 0)
    (hposition : runner.position.toInt = wrap32 (base + offset))
    (hpull : runner.pull fuel = (.done none, after)) :
    (∃ count, Slot.ahead ((target.slotsFrom runner.settings.vars 0 raw).drop offset) =
        some (none, count)) ∧
      SameRun runner after ∧ after.pending = none ∧
      after.leftover.toInt = (offset - raw.length : Nat) ∧
      after.position.toInt =
        wrap32 ((base + raw.length : Nat) + (offset - raw.length : Nat)) := by
  by_cases hle : offset ≤ raw.length
  · obtain ⟨hahead, hsame, -, hpending, hposition', hleftover⟩ :=
      hopened.pull_none hample hposition hle hpull
    have hzero : (0 : Int32).toInt = 0 := by decide
    refine ⟨⟨_, hahead⟩, hsame, hpending, ?_, ?_⟩
    · rw [hleftover, hskip, hzero]
      omega
    · rw [hposition']
      congr 1
      omega
  · obtain ⟨-, hsame, hpending, hposition', hleftover⟩ :=
      hopened.pull_beyond hposition (by omega) hpull
    refine ⟨⟨0, ?_⟩, hsame, hpending, hleftover, ?_⟩
    · rw [List.drop_eq_nil_of_le (by rw [CompiledRequest.length_slotsFrom]; omega),
        Slot.ahead]
    · rw [hposition']
      congr 1
      omega

theorem Advanced.park {offset : Nat} {case : MutationCase}
    (hadvanced : Advanced runner target raw (offset + 1))
    (hcase : (target.slotsFrom runner.settings.vars 0 raw)[offset]? =
      some (.keep case)) (position : Int32) :
    Opened { runner with position := position, pending := some case } target raw
      offset := by
  obtain ⟨stream, hstream, hpending, hat, hzero, hordinal⟩ := hadvanced
  exact .parked hstream rfl hat hzero hordinal hcase

theorem drainElement_spec {element : Text} {base fuel : Nat} (hample : after.Ample) :
    ∀ {loops : Nat} {runner : Runner ω} {offset : Nat},
    Opened runner target raw offset → offset ≤ raw.length →
    runner.position.toInt = wrap32 (base + offset) →
    drainElement element fuel loops runner = (.done (), after) →
    ∃ offset', offset ≤ offset' ∧ offset' ≤ raw.length ∧ SameRun runner after ∧
      Opened after target raw offset' ∧
      after.position.toInt = wrap32 (base + offset') ∧
      Slot.kept ((target.slotsFrom runner.settings.vars 0 raw).drop offset') =
        (Slot.kept ((target.slotsFrom runner.settings.vars 0 raw).drop offset)).dropWhile
          fun case => case.fieldPath = element := by
  intro loops
  induction loops with
  | zero =>
      intro runner offset _ _ _ hdrain
      cases hdrain
  | succ loops ih =>
      intro runner offset hopened hle hposition hdrain
      rw [drainElement] at hdrain
      split at hdrain
      · cases hdrain
      · cases hdrain
      · rename_i middle hpull
        cases hdrain
        obtain ⟨hahead, hsame, hspent, -, hposition', -⟩ :=
          hopened.pull_none (hample.pulled hpull) hposition hle hpull
        refine ⟨raw.length, hle, le_refl _, hsame, hspent, hposition', ?_⟩
        rw [(Slot.ahead_none hahead).2.1,
          List.drop_eq_nil_of_le (by rw [CompiledRequest.length_slotsFrom])]
        rfl
      · rename_i case middle hpull
        obtain ⟨count, hahead, hcount, hsame, hadvanced, hposition'⟩ :=
          hopened.pull_some hposition hpull
        obtain ⟨hpositive, -, hkept, hat, -⟩ := Slot.ahead_some hahead
        rw [List.drop_drop] at hkept
        by_cases helement : case.fieldPath = element
        · rw [if_pos helement] at hdrain
          obtain ⟨offset', hlater, hle', hsame', hopened', hposition'', hdropped⟩ :=
            ih hadvanced.opened hcount hposition' hdrain
          rw [hsame.settings] at hdropped
          refine ⟨offset', by omega, hle', hsame.trans hsame', hopened', hposition'', ?_⟩
          rw [hdropped, hkept, List.dropWhile_cons_of_pos (by simpa using helement)]
        · rw [if_neg helement] at hdrain
          cases hdrain
          obtain ⟨steps, rfl⟩ : ∃ steps, count = steps + 1 := ⟨count - 1, by omega⟩
          rw [List.getElem?_drop, Nat.add_sub_cancel] at hat
          refine ⟨offset + steps, by omega, by omega, ?_, ?_, ?_, ?_⟩
          · exact { hsame with }
          · exact hadvanced.park (by rw [hsame.settings]; exact hat) _
          · rw [toInt_sub_one hposition']
            congr 1
            omega
          · have hbound := (List.getElem?_eq_some_iff.mp hat).1
            rw [hkept, List.dropWhile_cons_of_neg (by simpa using helement),
              List.drop_eq_getElem_cons hbound, (List.getElem?_eq_some_iff.mp hat).2,
              Slot.kept, Nat.add_assoc]

theorem drainPath_spec {base fuel : Nat} (hample : after.Ample) :
    ∀ {loops : Nat} {runner : Runner ω} {offset : Nat},
    Opened runner target raw offset → offset ≤ raw.length →
    runner.position.toInt = wrap32 (base + offset) →
    drainPath fuel loops runner = (.done (), after) →
    SameRun runner after ∧ Opened after target raw raw.length ∧
      after.position.toInt = wrap32 (base + raw.length) := by
  intro loops
  induction loops with
  | zero =>
      intro runner offset _ _ _ hdrain
      cases hdrain
  | succ loops ih =>
      intro runner offset hopened hle hposition hdrain
      rw [drainPath] at hdrain
      split at hdrain
      · cases hdrain
      · cases hdrain
      · rename_i middle hpull
        cases hdrain
        obtain ⟨-, hsame, hspent, -, hposition', -⟩ :=
          hopened.pull_none (hample.pulled hpull) hposition hle hpull
        exact ⟨hsame, hspent, hposition'⟩
      · rename_i case middle hpull
        obtain ⟨count, -, hcount, hsame, hadvanced, hposition'⟩ :=
          hopened.pull_some hposition hpull
        obtain ⟨hsame', hrest⟩ := ih hadvanced.opened hcount hposition' hdrain
        exact ⟨hsame.trans hsame', hrest⟩

end

end Runner

end MoonBoofuzz
