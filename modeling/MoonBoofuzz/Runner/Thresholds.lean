import MoonBoofuzz.Mutation.Finite
import MoonBoofuzz.Runner.Replay
import MoonBoofuzz.Runner.Rounds

namespace MoonBoofuzz

namespace Runner

open CaseStream ProtocolDefinition

variable {ω : Type}

theorem Runs.idle {holds : Runner ω → Prop} {runner last : Runner ω} {world after : ω}
    {results : List CaseResult} (hidle : runner.state ≠ .running)
    (hruns : Runs holds runner world results last after) : results = [] ∧ last = runner := by
  cases hruns with
  | nil => exact ⟨rfl, rfl⟩
  | cons hcall _ _ =>
      obtain ⟨_, _, _, hround⟩ := next_some hcall
      exact absurd hround.running hidle

/-- Why nothing more is taken: no case is left, the limit is reached, or the cases that
are left lie past the end. -/
def Ended (settings : Settings ω) (state : Reference ω) (executed : Nat) : Prop :=
  Reference.first state.queue = none ∨ settings.limit.toInt ≤ executed ∨
    ∃ final, settings.endIndex = some final ∧
      ∀ segment ∈ state.queue, ∀ case ∈ segment.cases, final.toInt ≤ case.ordinal

theorem mem_segmentsOf {failures : List Nat} {view : View ω} {segment : Segment ω} :
    ∀ {index : Nat}, segment ∈ segmentsOf failures index view →
      ∃ shown ∈ view, segment.cases = Slot.kept shown.2 := by
  induction view with
  | nil =>
      intro index hmem
      cases hmem
  | cons shown rest ih =>
      intro index hmem
      rcases List.mem_cons.mp hmem with rfl | hmem
      · exact ⟨shown, List.mem_cons_self, rfl⟩
      · obtain ⟨other, hother, hcases⟩ := ih hmem
        exact ⟨other, List.mem_cons_of_mem _ hother, hcases⟩

theorem next_none {fuel : Nat} {runner last : Runner ω} {world after : ω}
    (hrunning : runner.state = .running)
    (hnext : runner.next fuel world = (.done none, last, after)) :
    runner.seekCase fuel fuel = (.done none, last) := by
  unfold next at hnext
  rw [if_pos hrunning] at hnext
  split at hnext
  · cases hnext
  · cases hnext
  · rename_i hseek
    cases hnext
    exact hseek
  · dsimp only at hnext
    split at hnext
    · cases hnext
    · cases hnext
    · cases hnext
    · split at hnext <;> cases hnext

theorem Follows.ends {runner last : Runner ω} {base offset fuel : Nat} {world after : ω}
    {segments : List (SessionPath (EdgeCallback ω) × List Parts)} {state : Reference ω}
    (hfollows : Follows runner base offset segments state) (hample : runner.Ample)
    (hnext : runner.next fuel world = (.done none, last, after)) :
    Ended runner.settings state runner.executed := by
  obtain ⟨-, hends⟩ :=
    seekCase_none hfollows.tracks hample (next_none hfollows.running hnext)
  rw [← hfollows.reference]
  cases hends with
  | exhausted _ hbare => exact Or.inl (hbare.first _ _)
  | full _ hlimit => exact Or.inr (Or.inl hlimit)
  | past _ hlast hfrom =>
      refine Or.inr (Or.inr ⟨_, hlast, fun segment hmem case hcase => ?_⟩)
      obtain ⟨shown, hshown, hcases⟩ := mem_segmentsOf hmem
      rw [hcases] at hcase
      exact hfrom shown hshown case hcase

structure Ran (runner last : Runner ω) (results : List CaseResult) (least : Nat)
    (state : Reference ω)
    (executed : List (SessionPath (EdgeCallback ω) × MutationCase)) (state' : Reference ω) :
    Prop where
  process : Reference.process runner.settings state
    (results.map fun result => isFailure result.outcome) = some (executed, state')
  sound : List.Forall₂ (fun result taken => Settings.Sound taken.1 taken.2.recorded result)
    results executed
  given : ∀ taken ∈ executed, Given runner.paths runner.settings taken.1 taken.2
  least : ∀ taken ∈ executed, (least : Int) ≤ taken.2.ordinal
  increasing : executed.Pairwise fun left right => left.2.ordinal < right.2.ordinal
  settings : last.settings = runner.settings
  count : last.executed = runner.executed + results.length
  ends : last.state = .running → ∀ fuel world stopped after,
    last.next fuel world = (.done none, stopped, after) →
      Ended runner.settings state' last.executed
  goesOn : (∀ path case fuel world result after,
    runner.settings.attempt path case fuel world ≠ (.done (result, true), after)) →
    last.state = .running

theorem Follows.runs {last : Runner ω} {world after : ω} {results : List CaseResult}
    {runner : Runner ω} (hruns : Runs Ample runner world results last after) :
    ∀ {base offset : Nat} {segments : List (SessionPath (EdgeCallback ω) × List Parts)}
      {state : Reference ω}, Follows runner base offset segments state → runner.Ample →
      ∃ executed state', Ran runner last results (base + offset) state executed state' := by
  induction hruns with
  | nil runner world =>
      intro base offset segments state hfollows hample
      exact ⟨[], state, rfl, .nil, by simp, by simp, .nil, rfl, rfl,
        fun _ _ _ _ _ hnext => hfollows.ends hample hnext, fun _ => hfollows.running⟩
  | @cons runner middle last world between after result results fuel hcall hample' hrest
      ih =>
      intro base offset segments state hfollows hample
      obtain ⟨path, case, state', base', offset', segments', hadvance⟩ :=
        hfollows.next hample hample' hcall
      have hlower := hadvance.lower
      have hupper := hadvance.upper
      obtain ⟨executed, last', hran⟩ : ∃ executed last',
          Ran middle last results (base' + offset') state' executed last' := by
        by_cases hrunning : middle.state = .running
        · exact ih (hadvance.follows hrunning) hample'
        · obtain ⟨rfl, rfl⟩ := hrest.idle hrunning
          refine ⟨[], state', rfl, .nil, by simp, by simp, .nil, rfl, rfl,
            fun h => absurd h hrunning, fun hnever => ?_⟩
          rw [hadvance.settings] at hnever
          exact hadvance.goesOn hnever
      refine ⟨(path, case) :: executed, last', {
        process := ?_
        sound := .cons hadvance.sound hran.sound
        given := ?_
        least := ?_
        increasing := ?_
        settings := hran.settings.trans hadvance.settings
        count := ?_
        ends := hadvance.settings ▸ hran.ends
        goesOn := ?_ }⟩
      · have hprocess := hran.process
        rw [hadvance.settings] at hprocess
        rw [List.map_cons, Reference.process, hadvance.step]
        simp only [Option.bind_eq_bind, Option.bind_some, hprocess]
      · have hgiven := hran.given
        rw [hadvance.paths, hadvance.settings] at hgiven
        exact List.forall_mem_cons.mpr ⟨hadvance.given, hgiven⟩
      · refine List.forall_mem_cons.mpr ⟨hlower, fun taken hmem => ?_⟩
        have hleast := hran.least taken hmem
        omega
      · refine .cons (fun taken hmem => ?_) hran.increasing
        have hleast := hran.least taken hmem
        exact lt_of_lt_of_le hupper hleast
      · rw [hran.count, hadvance.executed, List.length_cons]
        omega
      · rw [← hadvance.settings]
        exact hran.goesOn

/-! The process of a fresh runner. -/

noncomputable def candidatesOf (mode : CompiledRequest.Mode)
    (paths : List (SessionPath (EdgeCallback ω))) :
    List (SessionPath (EdgeCallback ω) × List Parts) :=
  paths.map fun path => (path, path.target.candidates mode)

noncomputable def processOf (settings : Settings ω)
    (paths : List (SessionPath (EdgeCallback ω))) : Reference ω where
  queue := (slotsAhead settings.vars 0 settings.start.toInt.toNat
    (candidatesOf settings.mode paths)).map fun segment =>
      ⟨segment.1, Slot.kept segment.2, 0⟩
  elements _ := 0

theorem segmentsOf_zero {failures : List Nat} {view : View ω}
    (hzero : ∀ index, failures.getD index 0 = 0) : ∀ index : Nat,
    segmentsOf failures index view =
      view.map fun segment => ⟨segment.1, Slot.kept segment.2, 0⟩ := by
  induction view with
  | nil => exact fun _ => rfl
  | cons segment rest ih =>
      intro index
      rw [segmentsOf, ih, hzero, List.map_cons]

section

variable {paths : List (SessionPath (EdgeCallback ω))} {settings : Settings ω}
  {runner : Runner ω}

theorem withDialer_eq_ok (hnew : withDialer paths settings = .ok runner) :
    runner = {
      paths := paths
      settings := settings
      streams := paths.map fun _ => none
      pathFailures := paths.map fun _ => 0
      elementFailures := []
      pending := none
      skip := settings.start
      position := settings.start
      index := 0
      executed := 0
      state := .running } := by
  unfold withDialer at hnew
  split at hnew
  · obtain ⟨_, _, hok⟩ := exceptBind_eq_ok_iff.mp hnew
    exact (Except.ok.inj hok).symm
  · cases hnew

theorem withDialer_follows (hnew : withDialer paths settings = .ok runner)
    (hstart : 0 ≤ settings.start.toInt)
    (hcounted : Counted settings.mode settings.start.toInt
      (candidatesOf settings.mode paths)) :
    Follows runner 0 settings.start.toInt.toNat (candidatesOf settings.mode paths)
      (processOf settings paths) ∧ runner.Ample := by
  have hupper := settings.start.toInt_lt
  have hnone : ∀ index,
      (paths.map fun _ => (none : Option CaseStream)).getD index none = none := by
    intro index
    rw [List.getD_eq_getElem?_getD, List.getElem?_map]
    cases paths[index]? <;> rfl
  have hnat : (settings.start.toInt.toNat : Int) = settings.start.toInt := by omega
  rw [withDialer_eq_ok hnew]
  refine ⟨⟨rfl, ?_, by simp, ?_⟩, ?_⟩
  · exact {
      paths := by
        rw [candidatesOf, List.map_map]
        exact (List.map_id paths).symm
      enumerates := by
        intro segment hmem
        obtain ⟨path, -, rfl⟩ := List.mem_map.mp hmem
        exact path.target.candidates_drains settings.mode
      position := by
        rw [hnat, wrap32_eq_self (by omega) (by omega)]
        simp
      length := by simp
      later := fun other _ => hnone other
      standing := Or.inl ⟨⟨hnone 0, rfl, hnat.symm⟩, hnat ▸ hcounted⟩ }
  · rw [Runner.reference, viewOf, segmentsOf_zero]
    · rfl
    · intro index
      rw [List.getD_eq_getElem?_getD, List.getElem?_map]
      cases paths[index]? <;> rfl
  · intro stream hstream
    have hsome : (none : Option CaseStream) = some stream := (hnone 0).symm.trans hstream
    cases hsome

theorem processOf_nonneg {segment : Segment ω}
    (hmem : segment ∈ (processOf settings paths).queue) {case : MutationCase}
    (hcase : case ∈ segment.cases) : 0 ≤ case.ordinal := by
  obtain ⟨shown, hshown, rfl⟩ := List.mem_map.mp hmem
  have hfrom := slotsAhead_from shown hshown case hcase
  omega

theorem withDialer_negative (hnew : withDialer paths settings = .ok runner)
    (hstart : settings.start.toInt < 0)
    (hcounted : Counted settings.mode settings.start.toInt
      (candidatesOf settings.mode paths)) {fuel loops : Nat} {found : Option MutationCase}
    {after : Runner ω} (hseek : seekCase fuel loops runner = (.done found, after)) :
    found = none ∧ Ended settings (processOf settings paths) 0 := by
  rw [withDialer_eq_ok hnew] at hseek
  cases loops with
  | zero => cases hseek
  | succ loops =>
      cases paths with
      | nil =>
          cases hseek
          exact ⟨rfl, Or.inl rfl⟩
      | cons path rest =>
          have hstays : skipsPath settings.mode path.target settings.start = false := by
            cases hmode : settings.mode with
            | combinatorial maxDepth => rfl
            | sequential =>
                have hhead := hcounted.1 hmode
                rw [skipsPath, decide_eq_false_iff_not]
                intro hle
                have hlength := hhead hle
                omega
          have hrefused : path.target.enumerate settings.mode settings.vars settings.start
              2147483647 = .error CompiledRequest.negativeStart := by
            have hnot : ¬ (0 ≤ settings.start.toInt ∧ 0 ≤ (2147483647 : Int32).toInt) :=
              fun hboth => absurd hboth.1 (not_le.mpr hstart)
            cases settings.mode <;> exact if_neg hnot
          simp only [seekCase, List.getElem?_cons_zero, prepare, Runner.stream,
            List.map_cons, List.getD_cons_zero, hstays, hrefused] at hseek
          split at hseek
          · rename_i hend
            cases hseek
            obtain ⟨final, hfinal, hle⟩ := reachesEnd_iff.mp hend
            refine ⟨rfl, Or.inr (Or.inr ⟨final, hfinal, fun segment hmem case hcase => ?_⟩)⟩
            have hnonneg := processOf_nonneg hmem hcase
            omega
          · split at hseek
            · rename_i hlimit
              cases hseek
              exact ⟨rfl, Or.inr (Or.inl hlimit)⟩
            · cases hseek

end

end Runner

namespace Settings

variable {ω : Type}

/-- Recovery succeeds, and no dial fails. -/
structure Steady (settings : Settings ω) : Prop where
  recovers : ∀ result world, (settings.monitor.recover result world).1 = .ok true
  connects : ∀ {path : SessionPath (EdgeCallback ω)} {case : MutationCase} {fuel : Nat}
    {world after : ω} {raw : CaseResult},
    settings.execute path case fuel world = (.done raw, after) → isDialFailure raw = false

variable {settings : Settings ω}

theorem Steady.attempt (hsteady : settings.Steady) (path : SessionPath (EdgeCallback ω))
    (case : MutationCase) (fuel : Nat) :
    settings.attempt path case fuel = settings.execute path case fuel >>= settings.finish := by
  funext world
  exact execute_dialed (fun _ _ hexecute => hsteady.connects hexecute) _

theorem Steady.goesOn (hsteady : settings.Steady) (path : SessionPath (EdgeCallback ω))
    (case : MutationCase) (fuel : Nat) (world : ω) (result : CaseResult) (after : ω) :
    settings.attempt path case fuel world ≠ (.done (result, true), after) := by
  rw [hsteady.attempt]
  intro hstops
  obtain ⟨raw, middle, -, hfinish⟩ := Act.bind_eq_done.mp hstops
  rw [finish, Act.bind_perform] at hfinish
  split at hfinish
  · rw [Act.bind_perform, Act.bind_perform, hsteady.recovers] at hfinish
    cases hfinish
  · cases hfinish

theorem steady_of_dials (hserver : settings.udpServer = false)
    (hdials : ∀ world, ∃ channel after, settings.dial world = (.ok channel, after))
    (hrecovers : ∀ result world, (settings.monitor.recover result world).1 = .ok true) :
    settings.Steady where
  recovers := hrecovers
  connects := by
    intro path case fuel world after raw hexecute
    have hfailed : raw.failedStep ≠ some (-1) := by
      cases execute_cases hexecute with
      | barred hbefore => simp [report]
      | @undialed error ready last hbefore hdial =>
          obtain ⟨channel, dialed, hok⟩ := hdials ready
          cases hok.symm.trans hdial
      | unheard hbefore hdial hwaits hheard =>
          cases hserver.symm.trans hwaits
      | ran hbefore hdial hstarted hrun =>
          exact executeSteps_rule (fun _ _ _ => True)
            (fun result _ => result.failedStep ≠ some (-1)) stepped_dialed
            (fun _ _ _ => by simp [report]) trivial hrun
    simp [isDialFailure, hfailed]

end Settings

namespace Runner

open CaseStream ProtocolDefinition

variable {ω : Type}

section

variable {paths : List (SessionPath (EdgeCallback ω))} {settings : Settings ω}
  {runner last : Runner ω} {world after : ω} {results : List CaseResult}

theorem withDialer_runs (hnew : withDialer paths settings = .ok runner)
    (hcounted : Counted settings.mode settings.start.toInt
      (candidatesOf settings.mode paths))
    (hruns : Runs Ample runner world results last after) :
    ∃ executed state, Ran runner last results settings.start.toInt.toNat
      (processOf settings paths) executed state := by
  by_cases hstart : 0 ≤ settings.start.toInt
  · obtain ⟨hfollows, hample⟩ := withDialer_follows hnew hstart hcounted
    have hran := Follows.runs hruns hfollows hample
    rwa [Nat.zero_add] at hran
  · have hrunning : runner.state = .running := by rw [withDialer_eq_ok hnew]
    have hsettings : runner.settings = settings := by rw [withDialer_eq_ok hnew]
    have hexecuted : runner.executed = 0 := by rw [withDialer_eq_ok hnew]
    cases hruns with
    | nil =>
        refine ⟨[], _, rfl, .nil, by simp, by simp, .nil, rfl, rfl, ?_, fun _ => hrunning⟩
        intro _ fuel world stopped after hnext
        rw [hsettings, hexecuted]
        exact (withDialer_negative hnew (not_le.mp hstart) hcounted
          (next_none hrunning hnext)).2
    | cons hcall _ _ =>
        obtain ⟨_, _, _, hround⟩ := next_some hcall
        have hnone := withDialer_negative hnew (not_le.mp hstart) hcounted hround.seek
        cases hnone.1

theorem map_eq_of_forall₂ {α β γ : Type} {f : α → γ} {g : β → γ} {first : List α}
    {second : List β} (hall : List.Forall₂ (fun left right => f left = g right) first second) :
    first.map f = second.map g := by
  rw [← List.forall₂_eq_eq_eq, List.forall₂_map_left_iff, List.forall₂_map_right_iff]
  exact hall

theorem recorded_eq_iff {case : MutationCase} (hordinal : 0 ≤ case.ordinal) :
    case.recorded = case ↔ case.ordinal < 2147483648 := by
  constructor
  · intro hsame
    have hwrap : wrap32 case.ordinal = case.ordinal := congrArg MutationCase.ordinal hsame
    have hupper := (case.ordinal : Int).bmod_lt (m := 2 ^ 32) (by decide)
    rw [wrap32] at hwrap
    omega
  · intro hupper
    simp only [MutationCase.recorded, wrap32_eq_self (by omega : -2147483648 ≤ case.ordinal)
      hupper]

/-- The cases that a run executes are those of the process, as far as the outcomes tell
what to skip, and a run that gives no further case has come to the end of it. -/
theorem executes_process (hnew : withDialer paths settings = .ok runner)
    (hcounted : Counted settings.mode settings.start.toInt
      (candidatesOf settings.mode paths))
    (hsteady : settings.Steady) (hruns : Runs Ample runner world results last after) :
    ∃ executed state,
      Reference.process settings (processOf settings paths)
          (results.map fun result => isFailure result.outcome) = some (executed, state) ∧
        results.map (·.case) = executed.map (·.2.recorded) ∧
        results.map (·.path) = executed.map (·.1.names) ∧
        (executed.Pairwise fun left right => left.2.ordinal < right.2.ordinal) ∧
        (∀ path case fuel, settings.attempt path case fuel =
          settings.execute path case fuel >>= settings.finish) ∧
        (results.map (·.case) = executed.map (·.2) ↔
          ∀ taken ∈ executed, taken.2.ordinal < 2147483648) ∧
        ∀ fuel world stopped after, last.next fuel world = (.done none, stopped, after) →
          Ended settings state results.length := by
  obtain ⟨executed, state, hran⟩ := withDialer_runs hnew hcounted hruns
  have hsettings : runner.settings = settings := by rw [withDialer_eq_ok hnew]
  have hexecuted : runner.executed = 0 := by rw [withDialer_eq_ok hnew]
  have hcases : results.map (·.case) = executed.map (·.2.recorded) :=
    map_eq_of_forall₂ (hran.sound.imp fun _ _ hsound => hsound.case)
  have hprocess := hran.process
  have hgoesOn := hran.goesOn
  have hends := hran.ends
  rw [hran.count, hexecuted, Nat.zero_add, hsettings] at hends
  rw [hsettings] at hprocess hgoesOn
  refine ⟨executed, state, hprocess, hcases,
    map_eq_of_forall₂ (hran.sound.imp fun _ _ hsound => hsound.path), hran.increasing,
    hsteady.attempt, ?_, hends (hgoesOn hsteady.goesOn)⟩
  rw [hcases, List.map_inj_left]
  refine forall₂_congr fun taken hmem => recorded_eq_iff ?_
  have hleast := hran.least taken hmem
  omega

end

end Runner

/-! A first path of 2147483646 candidates, and a second one of three. -/

namespace CompiledRequest

def longRoot : Block :=
  Block.new (Text.ofAscii "q")
    [.nested (Block.new (Text.ofAscii "x")
      [.leaf (Text.ofAscii "s") (Field.simple [0x30] [])]),
     .repeated (Text.ofAscii "n") (Text.ofAscii "q.x") 0 2147483645 1 none]

def longRange : RepeatRange where
  min := 0
  max := 2147483645
  step := 1
  min_le := by decide
  max_lt := by decide
  step_pos := by decide
  step_lt := by decide
  count_lt := by decide

def longRequest : CompiledRequest where
  name := Text.ofAscii "q"
  entries :=
    [⟨Text.ofAscii "q", none, .container [1, 3], none, none, none⟩,
     ⟨Text.ofAscii "q.x", some 0, .container [2], none, none, none⟩,
     ⟨Text.ofAscii "q.x.s", some 1, .atom (Field.simple [0x30] []), none, none, none⟩,
     ⟨Text.ofAscii "q.n", some 0, .repetition (Text.ofAscii "q.x") longRange none, none,
       none, none⟩]
  paths :=
    [(Text.ofAscii "q", 0), (Text.ofAscii "q.x", 1), (Text.ofAscii "q.x.s", 2),
     (Text.ofAscii "q.n", 3)]
  maxBytes := 64
  seq := .sequence [.sequence [.sequence []], .plain 3]

theorem longRoot_compiles : compile longRoot 64 6 = .done longRequest := rfl

theorem longRequest_length : (longRequest.candidates .sequential).length = 2147483646 := by
  have hraw : longRequest.candidates .sequential = denote longRequest longRequest.seq :=
    (longRequest.candidates_drains .sequential).unique longRequest.sequentialCursor_drains
  have hkind : (longRequest.kind 3).count = 2147483646 := by decide +kernel
  have hseq : ∀ request : CompiledRequest, denote request longRequest.seq =
      denote request (.plain 3) := fun request => by
    simp only [longRequest, denote, denoteAll, List.nil_append, List.append_nil]
  rw [hraw, hseq, denote, List.length_map, List.length_range, hkind]

end CompiledRequest

namespace Runner

open CompiledRequest

def acceptingSettings (start : Int32) : Settings (List Call) :=
  { Settings.linerSettings with
    limit := 2
    start := start
    monitor :=
      { Settings.linerSettings.monitor with check := fun _ _ calls => (.ok true, calls) } }

theorem acceptingSettings_steady (start : Int32) : (acceptingSettings start).Steady :=
  Settings.steady_of_dials rfl (fun _ => ⟨_, _, rfl⟩) fun _ _ => rfl

def farPaths : List (SessionPath (EdgeCallback (List Call))) :=
  [⟨[longRequest], [none]⟩, Settings.linerPath]

theorem farPaths_counted :
    Counted .sequential 2147483647 (candidatesOf .sequential farPaths) := by
  have hlength := longRequest_length
  have hcount : Settings.linerPath.target.rawMutationCount = 3 := by decide +kernel
  rw [candidatesOf, farPaths, List.map_cons, List.map_cons, List.map_nil]
  apply counted_cons.mpr
  constructor
  · intro _ _
    change ((longRequest.candidates .sequential).length : Int) ≤ 2147483647
    omega
  · apply counted_cons.mpr
    refine ⟨fun _ hle => ?_, trivial⟩
    change Settings.linerPath.target.rawMutationCount ≤
      max 0 (2147483647 - ((longRequest.candidates .sequential).length : Int)) at hle
    omega

def freshRunner (paths : List (SessionPath (EdgeCallback (List Call)))) (start : Int32) :
    Runner (List Call) where
  paths := paths
  settings := acceptingSettings start
  streams := paths.map fun _ => none
  pathFailures := paths.map fun _ => 0
  elementFailures := []
  pending := none
  skip := start
  position := start
  index := 0
  executed := 0
  state := .running

def acceptedCase (path : String) (index : Nat) (ordinal : Int) (payload : Bytes) :
    MutationCase where
  id := Text.ofAscii "v1:" ++ Text.ofAscii path ++ Text.ofAscii ":" ++ Text.decimal index
  requestName := Text.ofAscii "r"
  fieldPath := Text.ofAscii path
  mutationIndex := index
  ordinal := ordinal
  payload := payload
  extra := []

def acceptedResult (case : MutationCase) : CaseResult :=
  Settings.report Settings.linerPath case
    [⟨Text.ofAscii "r", case.payload, [0x41, 10], true⟩] .passed none

def afterFirst (runner : Runner (List Call)) : Runner (List Call) × List Call :=
  (runner.next 20 []).2

def afterSecond (runner : Runner (List Call)) : Runner (List Call) × List Call :=
  ((afterFirst runner).1.next 20 (afterFirst runner).2).2

theorem afterSecond_runs {runner : Runner (List Call)} {first second : CaseResult}
    {emitted emitted' : Nat} (hfirst : (runner.next 20 []).1 = .done (some first))
    (hsecond : ((afterFirst runner).1.next 20 (afterFirst runner).2).1 = .done (some second))
    (hemitted : (afterFirst runner).1.stream.map (·.emitted) = some emitted)
    (hemitted' : (afterSecond runner).1.stream.map (·.emitted) = some emitted')
    (hsmall : emitted < 2147483647) (hsmall' : emitted' < 2147483647) :
    Runs Ample runner [] [first, second] (afterSecond runner).1 (afterSecond runner).2 := by
  have hample : ∀ {runner : Runner (List Call)} {count : Nat},
      runner.stream.map (·.emitted) = some count → count < 2147483647 → runner.Ample := by
    intro runner count hcount hlt stream hstream
    rw [hstream] at hcount
    obtain rfl := Option.some.inj hcount
    exact hlt
  exact .cons (Prod.ext hfirst rfl) (hample hemitted hsmall)
    (.cons (Prod.ext hsecond rfl) (hample hemitted' hsmall') (.nil _ _))

def farResults : List CaseResult :=
  [acceptedResult (acceptedCase "r.a" 1 2147483647 [0x33, 0x34]),
   acceptedResult (acceptedCase "r.b" 0 (-2147483648) [0x31, 0x35])]

def farRunner : Runner (List Call) := freshRunner farPaths 2147483647

theorem farPaths_new : withDialer farPaths (acceptingSettings 2147483647) = .ok farRunner := rfl

theorem farPaths_runs : Runs Ample farRunner [] farResults (afterSecond farRunner).1
    (afterSecond farRunner).2 := by
  have hfirst : (farRunner.next 20 []).1 =
      .done (some (acceptedResult (acceptedCase "r.a" 1 2147483647 [0x33, 0x34]))) := by
    decide +kernel
  have hsecond : ((afterFirst farRunner).1.next 20 (afterFirst farRunner).2).1 =
      .done (some (acceptedResult (acceptedCase "r.b" 0 (-2147483648) [0x31, 0x35]))) := by
    decide +kernel
  have hone : (afterFirst farRunner).1.stream.map (·.emitted) = some 1 := by decide +kernel
  have htwo : (afterSecond farRunner).1.stream.map (·.emitted) = some 2 := by decide +kernel
  exact afterSecond_runs hfirst hsecond hone htwo (by decide) (by decide)

/-- The ordinal of the second case comes out negative. -/
theorem farPaths_wrap :
    withDialer farPaths (acceptingSettings 2147483647) = .ok farRunner ∧
      (acceptingSettings 2147483647).Steady ∧
      Runs Ample farRunner [] farResults (afterSecond farRunner).1
        (afterSecond farRunner).2 ∧
      ∀ executed state,
        Reference.process (acceptingSettings 2147483647)
            (processOf (acceptingSettings 2147483647) farPaths)
            (farResults.map fun result => isFailure result.outcome) =
          some (executed, state) →
        farResults.map (·.case) ≠ executed.map (·.2) := by
  refine ⟨farPaths_new, acceptingSettings_steady _, farPaths_runs, ?_⟩
  intro executed state hprocess hsame
  obtain ⟨executed', state', hran⟩ :=
    withDialer_runs farPaths_new farPaths_counted farPaths_runs
  have hexecuted : (executed', state') = (executed, state) :=
    Option.some.inj (hran.process.symm.trans hprocess)
  obtain ⟨rfl, rfl⟩ := Prod.mk.inj hexecuted
  have hmem : acceptedCase "r.b" 0 (-2147483648) [0x31, 0x35] ∈ executed'.map (·.2) := by
    rw [← hsame]
    exact List.mem_cons_of_mem _ List.mem_cons_self
  obtain ⟨taken, htaken, hcase⟩ := List.mem_map.mp hmem
  have hleast := hran.least taken htaken
  rw [hcase] at hleast
  exact absurd hleast (by decide)

/-- Settings under which every case fails, and a failure drops the rest of its element. -/
def rejectingSettings : Settings (List Call) :=
  { Settings.linerSettings with limit := 5, crashThresholdRequest := 12 }

def rejectingRunner : Runner (List Call) :=
  { freshRunner [Settings.linerPath] 0 with settings := rejectingSettings }

def rejectedResult (case : MutationCase) : CaseResult :=
  Settings.report Settings.linerPath case
    [⟨Text.ofAscii "r", case.payload, [0x41, 10], false⟩] .responseMismatch (some 0)

def rejectedResults : List CaseResult :=
  [rejectedResult (acceptedCase "r.a" 0 0 [0x32, 0x34]),
   rejectedResult (acceptedCase "r.b" 0 2 [0x31, 0x35])]

theorem rejectingRunner_new :
    withDialer [Settings.linerPath] rejectingSettings = .ok rejectingRunner := rfl

theorem linerPath_counted :
    Counted .sequential 0 (candidatesOf .sequential [Settings.linerPath]) := by
  have hcount : Settings.linerPath.target.rawMutationCount = 3 := by decide +kernel
  rw [candidatesOf, List.map_cons, List.map_nil]
  apply counted_cons.mpr
  refine ⟨fun _ hle => ?_, trivial⟩
  omega

theorem rejectingRunner_runs : Runs Ample rejectingRunner [] rejectedResults
    (afterSecond rejectingRunner).1 (afterSecond rejectingRunner).2 := by
  have hfirst : (rejectingRunner.next 20 []).1 =
      .done (some (rejectedResult (acceptedCase "r.a" 0 0 [0x32, 0x34]))) := by
    decide +kernel
  have hsecond : ((afterFirst rejectingRunner).1.next 20 (afterFirst rejectingRunner).2).1 =
      .done (some (rejectedResult (acceptedCase "r.b" 0 2 [0x31, 0x35]))) := by
    decide +kernel
  have hone : (afterFirst rejectingRunner).1.stream.map (·.emitted) = some 3 := by
    decide +kernel
  have htwo : (afterSecond rejectingRunner).1.stream.map (·.emitted) = some 3 := by
    decide +kernel
  exact afterSecond_runs hfirst hsecond hone htwo (by decide) (by decide)

/-- The second candidate of the first field is dropped with the failure of the first one. -/
theorem rejectingRunner_process :
    ∃ executed state,
      Reference.process rejectingSettings (processOf rejectingSettings [Settings.linerPath])
          [true, true] = some (executed, state) ∧
      rejectedResults.map (·.case) = executed.map (·.2.recorded) ∧
      rejectedResults.map (·.case.ordinal) = [0, 2] ∧
      (executed.Pairwise fun left right => left.2.ordinal < right.2.ordinal) := by
  obtain ⟨executed, state, hprocess, hcases, -, hincreasing, -⟩ :=
    executes_process rejectingRunner_new linerPath_counted
      (Settings.steady_of_dials rfl (fun _ => ⟨_, _, rfl⟩) fun _ _ => rfl)
      rejectingRunner_runs
  exact ⟨executed, state, hprocess, hcases, rfl, hincreasing⟩

end Runner

end MoonBoofuzz
