import MoonBoofuzz.Runner.Tracking

namespace MoonBoofuzz

/-- The case with the ordinal that is recorded for it, of 32 bits. -/
def MutationCase.recorded (case : MutationCase) : MutationCase :=
  { case with ordinal := wrap32 case.ordinal }

namespace Runner

open CaseStream ProtocolDefinition

variable {ω : Type}

/-- The cases ahead of a runner, path by path. -/
abbrev View (ω : Type) :=
  List (SessionPath (EdgeCallback ω) × List (Slot MutationCase))

/-- The first case ahead: the number of paths that are passed before it, the path it
is on, and what is ahead after it. -/
inductive Finds : View ω → Nat → SessionPath (EdgeCallback ω) → MutationCase → View ω →
    Prop
  | here {path : SessionPath (EdgeCallback ω)} {slots : List (Slot MutationCase)}
      {rest : View ω} {case : MutationCase} {count : Nat}
      (hahead : Slot.ahead slots = some (some case, count)) :
      Finds ((path, slots) :: rest) 0 path case ((path, slots.drop count) :: rest)
  | past {path path' : SessionPath (EdgeCallback ω)} {slots : List (Slot MutationCase)}
      {rest view : View ω} {case : MutationCase} {count moved : Nat}
      (hahead : Slot.ahead slots = some (none, count))
      (hrest : Finds rest moved path' case view) :
      Finds ((path, slots) :: rest) (moved + 1) path' case view

def Bare (view : View ω) : Prop :=
  ∀ segment ∈ view, ∃ count, Slot.ahead segment.2 = some (none, count)

structure SameCounts (runner after : Runner ω) : Prop where
  paths : after.paths = runner.paths
  settings : after.settings = runner.settings
  executed : after.executed = runner.executed
  pathFailures : after.pathFailures = runner.pathFailures
  elementFailures : after.elementFailures = runner.elementFailures

theorem SameCounts.trans {first second third : Runner ω}
    (hfirst : SameCounts first second) (hsecond : SameCounts second third) :
    SameCounts first third where
  paths := hsecond.paths.trans hfirst.paths
  settings := hsecond.settings.trans hfirst.settings
  executed := hsecond.executed.trans hfirst.executed
  pathFailures := hsecond.pathFailures.trans hfirst.pathFailures
  elementFailures := hsecond.elementFailures.trans hfirst.elementFailures

theorem SameRun.counts {runner after : Runner ω} (hsame : SameRun runner after) :
    SameCounts runner after :=
  ⟨hsame.paths, hsame.settings, hsame.executed, hsame.pathFailures,
    hsame.elementFailures⟩

/-- A start offset passes over a path by its count only when it lies beyond the
candidates of the path. -/
def Counted (mode : CompiledRequest.Mode) :
    Int → List (SessionPath (EdgeCallback ω) × List Parts) → Prop
  | _, [] => True
  | skip, (path, raw) :: rest =>
      (mode = .sequential → path.target.rawMutationCount ≤ skip → raw.length ≤ skip) ∧
        Counted mode (max 0 (skip - raw.length)) rest

theorem counted_cons {mode : CompiledRequest.Mode} {skip : Int}
    {path : SessionPath (EdgeCallback ω)} {raw : List Parts}
    {rest : List (SessionPath (EdgeCallback ω) × List Parts)} :
    Counted mode skip ((path, raw) :: rest) ↔
      (mode = .sequential → path.target.rawMutationCount ≤ skip → raw.length ≤ skip) ∧
        Counted mode (max 0 (skip - raw.length)) rest :=
  Iff.rfl

/-- The runner has read its current path, the first of the segments, up to an offset. -/
structure Tracks (runner : Runner ω) (base offset : Nat)
    (segments : List (SessionPath (EdgeCallback ω) × List Parts)) : Prop where
  paths : runner.paths.drop runner.index = segments.map Prod.fst
  enumerates : ∀ segment ∈ segments,
    segment.1.target.Enumerates runner.settings.mode segment.2
  position : runner.position.toInt = wrap32 (base + offset)
  length : runner.streams.length = runner.paths.length
  later : ∀ other, runner.index < other → runner.streams.getD other none = none
  standing : Closed runner offset ∧ Counted runner.settings.mode offset segments ∨
    runner.skip = 0 ∧ ∃ path raw rest, segments = (path, raw) :: rest ∧
      Opened runner path.target raw offset ∧
      Counted runner.settings.mode (offset - raw.length : Nat) rest

noncomputable def viewOf (runner : Runner ω) (base offset : Nat)
    (segments : List (SessionPath (EdgeCallback ω) × List Parts)) : View ω :=
  slotsAhead runner.settings.vars base offset segments

section

variable {runner after : Runner ω} {base offset : Nat}
  {path : SessionPath (EdgeCallback ω)} {raw : List Parts}
  {rest : List (SessionPath (EdgeCallback ω) × List Parts)}

theorem ahead_slots (base : Nat) {vars : Option Vars} {found : Option MutationCase} {count : Nat}
    (hahead : Slot.ahead ((path.target.slotsFrom vars 0 raw).drop offset) =
      some (found, count)) :
    Slot.ahead ((path.slots vars base raw).drop offset) =
      some (found.map (·.shift base), count) := by
  rw [path.drop_slots, Slot.ahead_map, hahead]
  rfl

theorem Tracks.path_lt {segments : List (SessionPath (EdgeCallback ω) × List Parts)}
    (htracks : Tracks runner base offset ((path, raw) :: segments)) :
    runner.paths[runner.index]? = some path := by
  have hpaths := htracks.paths
  rw [List.map_cons] at hpaths
  have hhead : (runner.paths.drop runner.index)[0]? = some path := by rw [hpaths]; rfl
  rwa [List.getElem?_drop] at hhead

theorem Tracks.nil_iff {segments : List (SessionPath (EdgeCallback ω) × List Parts)}
    (htracks : Tracks runner base offset segments) :
    runner.paths[runner.index]? = none ↔ segments = [] := by
  cases segments with
  | nil =>
      have hpaths := htracks.paths
      rw [List.map_nil, List.drop_eq_nil_iff] at hpaths
      simpa using hpaths
  | cons segment rest =>
      obtain ⟨path, raw⟩ := segment
      simp [htracks.path_lt]

theorem Tracks.counted (htracks : Tracks runner base offset ((path, raw) :: rest)) :
    Counted runner.settings.mode (offset - raw.length : Nat) rest := by
  rcases htracks.standing with ⟨-, hcounted⟩ | ⟨-, path', raw', rest', hsame, -, hcounted⟩
  · have hleft : max 0 ((offset : Int) - raw.length) = (offset - raw.length : Nat) := by
      omega
    exact hleft ▸ hcounted.2
  · cases hsame
    exact hcounted

theorem Tracks.turn (htracks : Tracks runner base offset ((path, raw) :: rest))
    (hstreams : after.streams.length = runner.streams.length)
    (hlater : ∀ other, runner.index < other →
      after.streams.getD other none = runner.streams.getD other none)
    (hpaths : after.paths = runner.paths) (hsettings : after.settings = runner.settings)
    (hindex : after.index = runner.index + 1) (hpending : after.pending = none)
    (hskip : after.skip.toInt = (offset - raw.length : Nat))
    (hposition : after.position.toInt =
      wrap32 ((base + raw.length : Nat) + (offset - raw.length : Nat))) :
    Tracks after (base + raw.length) (offset - raw.length) rest ∧ after.Ample := by
  have hstream : after.stream = none := by
    rw [Runner.stream, hlater _ (by omega)]
    exact htracks.later _ (by omega)
  refine ⟨{
    paths := ?_
    enumerates := ?_
    position := hposition
    length := by rw [hstreams, hpaths, htracks.length]
    later := ?_
    standing := Or.inl ⟨⟨hstream, hpending, hskip⟩, hsettings ▸ htracks.counted⟩ }, ?_⟩
  · have hdrop := htracks.paths
    rw [hpaths, hindex, ← List.drop_drop, hdrop]
    rfl
  · intro segment hmem
    rw [hsettings]
    exact htracks.enumerates segment (List.mem_cons_of_mem _ hmem)
  · intro other hother
    rw [hlater other (by omega)]
    exact htracks.later other (by omega)
  · intro stream hsome
    rw [hstream] at hsome
    cases hsome

theorem Tracks.prepare_past (htracks : Tracks runner base offset ((path, raw) :: rest))
    (hprepare : runner.prepare path = .ok (false, after)) :
    raw.length ≤ offset ∧ SameCounts runner after ∧ after.index = runner.index + 1 ∧
      after.state = runner.state ∧
      Tracks after (base + raw.length) (offset - raw.length) rest ∧ after.Ample := by
  have henumerates : path.target.Enumerates runner.settings.mode raw :=
    htracks.enumerates (path, raw) List.mem_cons_self
  rcases htracks.standing with ⟨hclosed, hcounted⟩ | ⟨-, path', raw', rest', -, hopened, -⟩
  · simp only [prepare, hclosed.stream] at hprepare
    split at hprepare
    · rename_i hskips
      simp only [Except.ok.injEq, Prod.mk.injEq, true_and] at hprepare
      subst hprepare
      have hskip := hclosed.skip
      have hposition := htracks.position
      have hupper := runner.skip.toInt_lt
      have hlength : raw.length ≤ offset := by
        cases hmode : runner.settings.mode with
        | combinatorial maxDepth => simp [hmode, skipsPath] at hskips
        | sequential =>
            simp only [hmode, skipsPath, decide_eq_true_eq] at hskips
            exact Int.ofNat_le.mp (hcounted.1 hmode (by omega))
      obtain ⟨-, hcount, hle⟩ := (skipsPath_iff henumerates (by omega)).mp hskips
      refine ⟨hlength, ⟨rfl, rfl, rfl, rfl, rfl⟩, rfl, rfl, ?_⟩
      apply htracks.turn
      · rfl
      · exact fun _ _ => rfl
      · rfl
      · rfl
      · rfl
      · exact hclosed.pending
      · rw [hcount, toInt_sub_ofInt (by omega) hle]
        omega
      · rw [hposition]
        congr 1
        omega
    · rw [exceptBind_eq_ok_iff] at hprepare
      obtain ⟨_, _, hok⟩ := hprepare
      cases hok
  · obtain ⟨stream, hstream⟩ := hopened.stream_some
    simp only [prepare, hstream] at hprepare
    cases hprepare

structure Ready (runner after : Runner ω) (path : SessionPath (EdgeCallback ω))
    (raw : List Parts) (offset : Nat) : Prop where
  counts : SameCounts runner after
  index : after.index = runner.index
  state : after.state = runner.state
  skip : after.skip = 0
  position : after.position = runner.position
  length : after.streams.length = runner.streams.length
  later : ∀ other, runner.index < other →
    after.streams.getD other none = runner.streams.getD other none
  opened : Opened after path.target raw offset
  ample : after.Ample

theorem Tracks.prepare_ready (htracks : Tracks runner base offset ((path, raw) :: rest))
    (hample : runner.Ample) (hprepare : runner.prepare path = .ok (true, after)) :
    Ready runner after path raw offset := by
  have henumerates : path.target.Enumerates runner.settings.mode raw :=
    htracks.enumerates (path, raw) List.mem_cons_self
  rcases htracks.standing with ⟨hclosed, -⟩ | ⟨hskip, path', raw', rest', hsame, hopened, -⟩
  · simp only [prepare, hclosed.stream] at hprepare
    split at hprepare
    · cases hprepare
    · rename_i hstays
      rw [exceptBind_eq_ok_iff] at hprepare
      obtain ⟨stream, hstream, hok⟩ := hprepare
      cases hok
      obtain ⟨hat, hordinal⟩ := enumerate_at henumerates hstream
      have hskip := hclosed.skip
      have hupper := runner.skip.toInt_lt
      have hsame := setStream_sameRun runner stream runner.position
      have hindex : runner.index < runner.streams.length := by
        rw [htracks.length]
        exact (List.getElem?_eq_some_iff.mp htracks.path_lt).1
      have hset := @stream_setStream _ runner stream hindex runner.position
      have hoffset : stream.ordinal = offset := by omega
      refine ⟨⟨rfl, rfl, rfl, rfl, rfl⟩, rfl, rfl, rfl, rfl, hsame.length, hsame.later, ?_, ?_⟩
      · rw [← hoffset]
        refine .reading hset hclosed.pending hat ?_
        intro hmode
        by_contra hlarge
        exact hstays ((skipsPath_iff henumerates (by omega)).mpr
          ⟨hmode, by
            have hsequential : path.target.Enumerates .sequential raw := hmode ▸ henumerates
            exact hsequential.rawMutationCount (by omega), by omega⟩)
      · intro other hother
        obtain rfl : stream = other := Option.some.inj (hset.symm.trans hother)
        rw [(enumerate_eq_ok hstream).2]
        exact Nat.succ_pos _
  · cases hsame
    obtain ⟨stream, hstream⟩ := hopened.stream_some
    simp only [prepare, hstream] at hprepare
    cases hprepare
    exact ⟨⟨rfl, rfl, rfl, rfl, rfl⟩, rfl, rfl, hskip, rfl, rfl, fun _ _ => rfl, hopened,
      hample⟩

inductive Pass (runner : Runner ω) (base offset : Nat)
    (path : SessionPath (EdgeCallback ω)) (raw : List Parts)
    (rest : List (SessionPath (EdgeCallback ω) × List Parts)) :
    Run (Option MutationCase) → Runner ω → (Runner ω → Prop) → Prop
  /-- The end or the limit is reached before the path is looked at. -/
  | limited {resumes : Runner ω → Prop}
      (hlimit : runner.reachesEnd runner.position = true ∨
        runner.settings.limit.toInt ≤ runner.executed) :
      Pass runner base offset path raw rest (.done none)
        { runner with state := .limited } resumes
  /-- The path has no case left, and the search goes on. -/
  | past {answer : Run (Option MutationCase)} {middle after : Runner ω} {count : Nat}
      {resumes : Runner ω → Prop}
      (hahead : Slot.ahead
        ((path.slots runner.settings.vars base raw).drop offset) = some (none, count))
      (hcounts : SameCounts runner middle) (hstate : middle.state = runner.state)
      (hindex : middle.index = runner.index + 1)
      (htracks : Tracks middle (base + raw.length) (offset - raw.length) rest)
      (hample : middle.Ample) (hresumes : resumes middle) :
      Pass runner base offset path raw rest answer after resumes
  /-- The next case is found, and may lie past the end. -/
  | found {case : MutationCase} {middle : Runner ω} {count : Nat}
      {resumes : Runner ω → Prop}
      (hlimit : runner.executed < runner.settings.limit.toInt)
      (hahead : Slot.ahead
        ((path.slots runner.settings.vars base raw).drop offset) = some (some case, count))
      (hcount : offset + count ≤ raw.length)
      (hcounts : SameCounts runner middle) (hstate : middle.state = runner.state)
      (hindex : middle.index = runner.index)
      (htracks : Tracks middle base (offset + count) ((path, raw) :: rest))
      (hopened : Opened middle path.target raw (offset + count))
      (hskip : middle.skip = 0) :
      Pass runner base offset path raw rest
        (if middle.reachesEnd (middle.position - 1) then .done none
          else .done (some case.recorded))
        (if middle.reachesEnd (middle.position - 1) then
          { middle with state := .limited } else middle) resumes
  | failed {answer : Run (Option MutationCase)} {after : Runner ω}
      {resumes : Runner ω → Prop} (hanswer : ∀ found, answer ≠ .done found) :
      Pass runner base offset path raw rest answer after resumes

theorem Tracks.opened {middle : Runner ω}
    (htracks : Tracks runner base offset ((path, raw) :: rest))
    (hcounts : SameCounts runner middle) (hindex : middle.index = runner.index)
    (hlength : middle.streams.length = runner.streams.length)
    (hlater : ∀ other, runner.index < other →
      middle.streams.getD other none = runner.streams.getD other none)
    (hskip : middle.skip = 0) {offset' : Nat} (hle : offset ≤ raw.length)
    (hle' : offset' ≤ raw.length)
    (hposition : middle.position.toInt = wrap32 (base + offset'))
    (hopened : Opened middle path.target raw offset') :
    Tracks middle base offset' ((path, raw) :: rest) where
  paths := by rw [hcounts.paths, hindex, htracks.paths]
  enumerates := by
    rw [hcounts.settings]
    exact htracks.enumerates
  position := hposition
  length := by rw [hlength, hcounts.paths, htracks.length]
  later := by
    intro other hother
    rw [hlater other (hindex ▸ hother)]
    exact htracks.later other (hindex ▸ hother)
  standing := by
    have hcounted := htracks.counted
    rw [Nat.sub_eq_zero_of_le hle] at hcounted
    refine Or.inr ⟨hskip, path, raw, rest, rfl, hopened, ?_⟩
    rw [Nat.sub_eq_zero_of_le hle', hcounts.settings]
    exact hcounted

theorem slot_ordinal {case : MutationCase} {count : Nat} {vars : Option Vars}
    (hahead : Slot.ahead ((path.slots vars base raw).drop offset) =
      some (some case, count)) : case.ordinal + 1 = base + (offset + count : Nat) := by
  obtain ⟨hpositive, -, -, hat, -⟩ := Slot.ahead_some hahead
  have hordinal : case.ordinal = (base + offset + (count - 1) : Nat) :=
    ((path.slots_numbered vars base raw).drop offset) _ case hat
  omega

theorem recorded_case {case : MutationCase} {count : Nat} {vars : Option Vars}
    (hahead : Slot.ahead ((path.target.slotsFrom vars 0 raw).drop offset) =
      some (some case, count))
    {position : Int32}
    (hposition : position.toInt = wrap32 (base + (offset + count : Nat))) :
    { case with ordinal := (position - 1).toInt } = (case.shift base).recorded := by
  obtain ⟨hpositive, -, -, hat, -⟩ := Slot.ahead_some hahead
  rw [List.getElem?_drop] at hat
  have hordinal : case.ordinal = (0 + (offset + (count - 1)) : Nat) :=
    CompiledRequest.slotsFrom_numbered 0 raw _ case hat
  simp only [MutationCase.shift, MutationCase.recorded, toInt_sub_one hposition, hordinal]
  congr 2
  omega

theorem Tracks.pull_pass {middle : Runner ω} {answer : Run (Option MutationCase)}
    {fuel loops : Nat} (htracks : Tracks runner base offset ((path, raw) :: rest))
    (hample : runner.Ample) (hlimit : runner.executed < runner.settings.limit.toInt)
    (hprepare : runner.prepare path = .ok (true, middle))
    (hseek : (match middle.pull fuel with
      | (.pending, after) => (.pending, after)
      | (.raised error, after) => (.raised error, after)
      | (.done none, after) => seekCase fuel loops after.nextPath
      | (.done (some case), after) =>
          if after.reachesEnd (after.position - 1) then
            (.done none, { after with state := .limited })
          else
            (.done (some { case with ordinal := (after.position - 1).toInt }), after)) =
      (answer, after)) :
    Pass runner base offset path raw rest answer after
      fun middle => seekCase fuel loops middle = (answer, after) := by
  obtain ⟨hcounts, hindex, hstate, hskip, hposition, hlength, hlater, hopened, hample'⟩ :=
    htracks.prepare_ready hample hprepare
  have hat : middle.position.toInt = wrap32 (base + offset) := by
    rw [hposition, htracks.position]
  split at hseek
  · cases hseek
    exact .failed (by simp)
  · cases hseek
    exact .failed (by simp)
  · rename_i last hpull
    obtain ⟨⟨count, hahead⟩, hsame, hpending, hleftover, hposition'⟩ :=
      hopened.pull_ends hample' hskip hat hpull
    rw [hcounts.settings] at hahead
    have hcounts' : SameCounts runner last.nextPath :=
      hcounts.trans ⟨hsame.paths, hsame.settings, hsame.executed, hsame.pathFailures,
        hsame.elementFailures⟩
    have hindex' : last.nextPath.index = runner.index + 1 := by
      rw [nextPath, hsame.index, hindex]
    have hlater' : ∀ other, runner.index < other →
        last.streams.getD other none = runner.streams.getD other none :=
      fun other hother => (hsame.later other (by omega)).trans (hlater other hother)
    obtain ⟨htracks', hample''⟩ := @Tracks.turn _ _ last.nextPath _ _ _ _ _ htracks
      (hsame.length.trans hlength) hlater' hcounts'.paths hcounts'.settings hindex' hpending
      hleftover hposition'
    exact .past (ahead_slots base hahead) hcounts' (hsame.state.trans hstate) hindex'
      htracks' hample'' hseek
  · rename_i case last hpull
    have hle : offset ≤ raw.length := by
      by_contra hlarge
      have hbeyond := hopened.pull_beyond hat (by omega) hpull
      cases hbeyond.1
    obtain ⟨count, hahead, hcount, hsame, hadvanced, hposition'⟩ :=
      hopened.pull_some hat hpull
    rw [recorded_case hahead hposition'] at hseek
    rw [hcounts.settings] at hahead
    have hcounts' := hcounts.trans hsame.counts
    have htracks' : Tracks last base (offset + count) ((path, raw) :: rest) :=
      htracks.opened hcounts' (hsame.index.trans hindex) (hsame.length.trans hlength)
        (fun other hother => (hsame.later other (by omega)).trans (hlater other hother))
        (hsame.skip.trans hskip) hle hcount hposition' hadvanced.opened
    have hpass := @Pass.found _ _ _ _ _ _ _ _ _ _
      (fun middle => seekCase fuel loops middle = (answer, after)) hlimit
      (ahead_slots base hahead) hcount hcounts' (hsame.state.trans hstate)
      (hsame.index.trans hindex) htracks' hadvanced.opened (hsame.skip.trans hskip)
    cases hend : last.reachesEnd (last.position - 1) with
    | false =>
        simp only [hend, Bool.false_eq_true, if_false, Prod.mk.injEq] at hseek hpass
        obtain ⟨rfl, rfl⟩ := hseek
        exact hpass
    | true =>
        simp only [hend, if_true, Prod.mk.injEq] at hseek hpass
        obtain ⟨rfl, rfl⟩ := hseek
        exact hpass

theorem Tracks.seekCase_pass {answer : Run (Option MutationCase)} {fuel loops : Nat}
    (htracks : Tracks runner base offset ((path, raw) :: rest)) (hample : runner.Ample)
    (hseek : seekCase fuel (loops + 1) runner = (answer, after)) :
    Pass runner base offset path raw rest answer after
      fun middle => seekCase fuel loops middle = (answer, after) := by
  rw [seekCase, htracks.path_lt] at hseek
  dsimp only at hseek
  split at hseek
  · rename_i hend
    cases hseek
    exact .limited (Or.inl hend)
  · split at hseek
    · rename_i hlimit
      cases hseek
      exact .limited (Or.inr hlimit)
    · rename_i hlimit
      split at hseek
      · cases hseek
        exact .failed (by simp)
      · rename_i middle hprepare
        obtain ⟨hle, hcounts, hindex, hstate, hnext, hample'⟩ :=
          htracks.prepare_past hprepare
        have hahead : Slot.ahead
            ((path.slots runner.settings.vars base raw).drop offset) = some (none, 0) := by
          rw [List.drop_eq_nil_of_le (by rwa [path.length_slots]), Slot.ahead]
        exact .past hahead hcounts hstate hindex hnext hample' hseek
      · rename_i middle hprepare
        exact htracks.pull_pass hample (by omega) hprepare hseek

end

structure Took (runner after : Runner ω) (moved : Nat)
    (path : SessionPath (EdgeCallback ω)) (case : MutationCase) (raw : List Parts)
    (base offset : Nat) (rest : List (SessionPath (EdgeCallback ω) × List Parts)) : Prop where
  counts : SameCounts runner after
  state : after.state = runner.state
  index : after.index = runner.index + moved
  tracks : Tracks after base offset ((path, raw) :: rest)
  opened : Opened after path.target raw offset
  within : offset ≤ raw.length
  ordinal : case.ordinal + 1 = base + offset
  skip : after.skip = 0
  limit : runner.executed < runner.settings.limit.toInt
  last : after.reachesEnd (after.position - 1) = false

theorem seekCase_found {fuel : Nat} {found : MutationCase} {after : Runner ω} :
    ∀ {loops : Nat} {runner : Runner ω} {base offset : Nat}
      {segments : List (SessionPath (EdgeCallback ω) × List Parts)},
      Tracks runner base offset segments → runner.Ample →
      seekCase fuel loops runner = (.done (some found), after) →
      ∃ moved path raw base' offset' rest case, found = case.recorded ∧
        Finds (runner.viewOf base offset segments) moved path case
            (after.viewOf base' offset' ((path, raw) :: rest)) ∧
          Took runner after moved path case raw base' offset' rest := by
  intro loops
  induction loops with
  | zero =>
      intro runner base offset segments _ _ hseek
      cases hseek
  | succ loops ih =>
      intro runner base offset segments htracks hample hseek
      cases segments with
      | nil =>
          rw [seekCase, htracks.nil_iff.mpr rfl] at hseek
          cases hseek
      | cons segment rest =>
          obtain ⟨path, raw⟩ := segment
          generalize hanswer : Eval.done (some found) = answer at hseek
          cases htracks.seekCase_pass hample hseek with
          | limited _ => cases hanswer
          | failed hnone => exact absurd hanswer.symm (hnone _)
          | past hahead hcounts hstate hindex hnext hample' hresumes =>
              rw [← hanswer] at hresumes
              obtain ⟨moved, path', raw', base', offset', rest', case, hfound, hfinds,
                htook⟩ := ih hnext hample' hresumes
              refine ⟨moved + 1, path', raw', base', offset', rest', case, hfound, ?_, ?_⟩
              · rw [viewOf, hcounts.settings] at hfinds
                exact .past hahead hfinds
              · have hlimit := htook.limit
                rw [hcounts.executed, hcounts.settings] at hlimit
                exact { htook with
                  counts := hcounts.trans htook.counts
                  state := htook.state.trans hstate
                  index := by rw [htook.index, hindex]; omega
                  limit := hlimit }
          | @found case middle count _ hlimit hahead hcount hcounts hstate hindex htracks'
              hopened hskip =>
              cases hend : middle.reachesEnd (middle.position - 1) with
              | true => simp [hend] at hanswer
              | false =>
                  simp only [hend, Bool.false_eq_true, if_false, Eval.done.injEq,
                    Option.some.injEq] at hanswer ⊢
                  subst hanswer
                  refine ⟨0, path, raw, base, offset + count, rest, case, rfl, ?_, ?_⟩
                  · have hfinds := @Finds.here ω path _ (slotsAhead runner.settings.vars
                      (base + raw.length) (offset - raw.length) rest) _ _ hahead
                    rw [viewOf, viewOf, slotsAhead, slotsAhead, hcounts.settings]
                    rw [List.drop_drop] at hfinds
                    have hzero : offset + count - raw.length = offset - raw.length := by
                      omega
                    rw [hzero]
                    exact hfinds
                  · exact ⟨hcounts, hstate, hindex, htracks', hopened, hcount,
                      slot_ordinal hahead, hskip, hlimit, hend⟩

def From (view : View ω) (least : Int) : Prop :=
  ∀ segment ∈ view, ∀ case ∈ Slot.kept segment.2, least ≤ case.ordinal

theorem from_cons {path : SessionPath (EdgeCallback ω)}
    {slots : List (Slot MutationCase)} {view : View ω} {least : Int} :
    From ((path, slots) :: view) least ↔
      (∀ case ∈ Slot.kept slots, least ≤ case.ordinal) ∧ From view least :=
  List.forall_mem_cons

theorem slotsAhead_from {vars : Option Vars}
    {segments : List (SessionPath (EdgeCallback ω) × List Parts)} {base skip : Nat} :
    From (slotsAhead vars base skip segments) (base + skip) := by
  induction segments generalizing base skip with
  | nil =>
      intro segment hmem
      cases hmem
  | cons segment rest ih =>
      obtain ⟨path, raw⟩ := segment
      rw [slotsAhead, from_cons]
      refine ⟨?_, ?_⟩
      · intro case hmem
        have hbounds := ((path.slots_numbered vars base raw).drop skip).kept_bounds hmem
        have hlower := hbounds.1
        omega
      · intro segment hmem case hcase
        have hlower := ih segment hmem case hcase
        omega

theorem reachesEnd_iff {runner : Runner ω} {position : Int32} :
    runner.reachesEnd position = true ↔
      ∃ last, runner.settings.endIndex = some last ∧ last.toInt ≤ position.toInt := by
  unfold reachesEnd
  split
  · rename_i last hlast
    simp [hlast]
  · rename_i hnone
    simp [hnone]

inductive Ends (runner after : Runner ω) (view : View ω) : Prop
  | exhausted (hstate : after.state = .exhausted) (hbare : Bare view)
  | full (hstate : after.state = .limited)
      (hlimit : runner.settings.limit.toInt ≤ runner.executed)
  | past {last : Int32} (hstate : after.state = .limited)
      (hlast : runner.settings.endIndex = some last) (hfrom : From view last.toInt)

theorem From.mono {view : View ω} {least least' : Int} (hfrom : From view least)
    (hle : least' ≤ least) : From view least' :=
  fun segment hmem case hcase => hle.trans (hfrom segment hmem case hcase)

theorem from_found {path : SessionPath (EdgeCallback ω)} {raw : List Parts}
    {vars : Option Vars} {base offset count : Nat} {case : MutationCase}
    {rest : List (SessionPath (EdgeCallback ω) × List Parts)}
    (hahead : Slot.ahead ((path.slots vars base raw).drop offset) =
      some (some case, count)) (hcount : offset + count ≤ raw.length) :
    From (slotsAhead vars base offset ((path, raw) :: rest))
      (base + offset + count - 1) := by
  obtain ⟨hpositive, -, hkept, hat, -⟩ := Slot.ahead_some hahead
  rw [slotsAhead, from_cons]
  refine ⟨?_, ?_⟩
  · rw [hkept, List.forall_mem_cons]
    refine ⟨?_, ?_⟩
    · have hordinal : case.ordinal = (base + offset + (count - 1) : Nat) :=
        ((path.slots_numbered vars base raw).drop offset) _ case hat
      omega
    · intro other hmem
      have hbounds :=
        (((path.slots_numbered vars base raw).drop offset).drop count).kept_bounds hmem
      have hlower := hbounds.1
      omega
  · intro segment hmem other hother
    have hlower := slotsAhead_from segment hmem other hother
    omega

theorem seekCase_none {fuel : Nat} {after : Runner ω} :
    ∀ {loops : Nat} {runner : Runner ω} {base offset : Nat}
      {segments : List (SessionPath (EdgeCallback ω) × List Parts)},
      Tracks runner base offset segments → runner.Ample →
      seekCase fuel loops runner = (.done none, after) →
      SameCounts runner after ∧ Ends runner after (runner.viewOf base offset segments) := by
  intro loops
  induction loops with
  | zero =>
      intro runner base offset segments _ _ hseek
      cases hseek
  | succ loops ih =>
      intro runner base offset segments htracks hample hseek
      cases segments with
      | nil =>
          rw [seekCase, htracks.nil_iff.mpr rfl] at hseek
          cases hseek
          refine ⟨⟨rfl, rfl, rfl, rfl, rfl⟩, .exhausted rfl ?_⟩
          intro segment hmem
          cases hmem
      | cons segment rest =>
          obtain ⟨path, raw⟩ := segment
          have hposition := htracks.position
          generalize hanswer : Eval.done none = answer at hseek
          cases htracks.seekCase_pass hample hseek with
          | failed hnone => exact absurd hanswer.symm (hnone _)
          | limited hlimit =>
              refine ⟨⟨rfl, rfl, rfl, rfl, rfl⟩, ?_⟩
              rcases hlimit with hend | hlimit
              · obtain ⟨last, hlast, hle⟩ := reachesEnd_iff.mp hend
                have hwrap : wrap32 ((base : Int) + offset) ≤ base + offset :=
                  wrap32_le (by omega)
                exact .past rfl hlast (slotsAhead_from.mono (by omega))
              · exact .full rfl hlimit
          | past hahead hcounts hstate hindex hnext hample' hresumes =>
              rw [← hanswer] at hresumes
              obtain ⟨hcounts', hends⟩ := ih hnext hample' hresumes
              refine ⟨hcounts.trans hcounts', ?_⟩
              have hkept := (Slot.ahead_none hahead).2.1
              rw [viewOf, hcounts.settings] at hends
              rw [viewOf, slotsAhead]
              cases hends with
              | exhausted hstate' hbare =>
                  exact .exhausted hstate'
                    (List.forall_mem_cons.mpr ⟨⟨_, hahead⟩, hbare⟩)
              | full hstate' hlimit =>
                  rw [hcounts.executed, hcounts.settings] at hlimit
                  exact .full hstate' hlimit
              | past hstate' hlast hfrom =>
                  rw [hcounts.settings] at hlast
                  refine .past hstate' hlast (from_cons.mpr ⟨?_, hfrom⟩)
                  intro case hmem
                  rw [hkept] at hmem
                  cases hmem
          | @found _ middle count _ hlimit hahead hcount hcounts hstate hindex htracks'
              hopened hskip =>
              cases hend : middle.reachesEnd (middle.position - 1) with
              | false => simp [hend] at hanswer
              | true =>
                  simp only [if_true]
                  refine ⟨⟨hcounts.paths, hcounts.settings, hcounts.executed,
                    hcounts.pathFailures, hcounts.elementFailures⟩, ?_⟩
                  obtain ⟨last, hlast, hle⟩ := reachesEnd_iff.mp hend
                  have hpositive := (Slot.ahead_some hahead).1
                  have hwrap : wrap32 ((base : Int) + (offset + count : Nat) - 1) ≤
                      base + (offset + count : Nat) - 1 := wrap32_le (by omega)
                  rw [toInt_sub_one htracks'.position] at hle
                  rw [hcounts.settings] at hlast
                  exact .past rfl hlast ((from_found hahead hcount).mono (by omega))

end Runner

end MoonBoofuzz
