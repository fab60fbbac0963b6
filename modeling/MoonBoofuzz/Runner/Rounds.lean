import MoonBoofuzz.Runner.Reference
import MoonBoofuzz.Runner.Sound

namespace MoonBoofuzz

namespace Runner

open CaseStream ProtocolDefinition

variable {ω : Type}

/-! Calls of `next` that each execute a case. -/

/-- Consecutive calls with the results they give; a property holds after each. -/
inductive Runs (holds : Runner ω → Prop) : Runner ω → ω → List CaseResult → Runner ω → ω →
    Prop
  | nil (runner : Runner ω) (world : ω) : Runs holds runner world [] runner world
  | cons {runner middle last : Runner ω} {world between after : ω} {result : CaseResult}
      {results : List CaseResult} {fuel : Nat}
      (hcall : runner.next fuel world = (.done (some result), middle, between))
      (hholds : holds middle) (hrest : Runs holds middle between results last after) :
      Runs holds runner world (result :: results) last after

/-- A call that gives a result: the case that was found, what its execution came to, and
whether the run goes on. -/
structure Round (fuel : Nat) (runner : Runner ω) (world : ω) (result : CaseResult)
    (last : Runner ω) (found : MutationCase) (middle : Runner ω) (stop : Bool) : Prop where
  running : runner.state = .running
  seek : runner.seekCase fuel fuel = (.done (some found), middle)
  attempt : ∃ between, middle.settings.attempt (middle.paths.getD middle.index ⟨[], []⟩)
    found fuel world = (.done (result, stop), between)
  counted : ∃ counted, last = { counted with executed := counted.executed + 1 } ∧
    if stop then counted = { middle with state := .stopped }
    else middle.countFailure fuel result = (.done (), counted)

theorem next_some {fuel : Nat} {runner last : Runner ω} {world after : ω}
    {result : CaseResult}
    (hnext : runner.next fuel world = (.done (some result), last, after)) :
    ∃ found middle stop, Round fuel runner world result last found middle stop := by
  unfold next at hnext
  split at hnext
  · rename_i hrunning
    split at hnext
    · cases hnext
    · cases hnext
    · cases hnext
    · rename_i found middle hseek
      dsimp only at hnext
      split at hnext
      · cases hnext
      · cases hnext
      · rename_i hattempt
        cases hnext
        exact ⟨found, middle, true, hrunning, hseek, ⟨_, hattempt⟩, _, rfl, rfl⟩
      · rename_i hattempt
        split at hnext
        · cases hnext
        · cases hnext
        · rename_i hcount
          cases hnext
          exact ⟨found, middle, false, hrunning, hseek, ⟨_, hattempt⟩, _, rfl, hcount⟩
  · cases hnext

def segmentsOf (failures : List Nat) : Nat → View ω → List (Segment ω)
  | _, [] => []
  | index, (path, slots) :: rest =>
      ⟨path, Slot.kept slots, failures.getD index 0⟩ :: segmentsOf failures (index + 1) rest

def reference (runner : Runner ω) (view : View ω) : Reference ω :=
  ⟨segmentsOf runner.pathFailures runner.index view,
    fun element => (runner.elementFailures.lookup element).getD 0⟩

theorem Finds.first {view view' : View ω} {moved : Nat}
    {path : SessionPath (EdgeCallback ω)} {case : MutationCase}
    (hfinds : Finds view moved path case view') (failures : List Nat) : ∀ index : Nat,
    ∃ slots rest, view' = (path, slots) :: rest ∧
      Reference.first (segmentsOf failures index view) =
        some (case, ⟨path, Slot.kept slots, failures.getD (index + moved) 0⟩,
          segmentsOf failures (index + moved + 1) rest) := by
  induction hfinds with
  | @here path slots rest case count hahead =>
      intro index
      refine ⟨_, _, rfl, ?_⟩
      rw [segmentsOf, Reference.first]
      simp only [(Slot.ahead_some hahead).2.2.1, Nat.add_zero]
  | @past path path' slots rest view case count moved hahead _ ih =>
      intro index
      obtain ⟨slots', rest', hview, hfirst⟩ := ih (index + 1)
      refine ⟨slots', rest', hview, ?_⟩
      rw [segmentsOf, Reference.first]
      simp only [(Slot.ahead_none hahead).2.1, hfirst]
      rw [Nat.add_right_comm index 1 moved, Nat.add_assoc index moved 1]

theorem Bare.first {view : View ω} (hbare : Bare view) (failures : List Nat) :
    ∀ index : Nat, Reference.first (segmentsOf failures index view) = none := by
  induction view with
  | nil => exact fun _ => rfl
  | cons segment rest ih =>
      intro index
      obtain ⟨⟨count, hahead⟩, hrest⟩ := List.forall_mem_cons.mp hbare
      rw [segmentsOf, Reference.first]
      simp only [(Slot.ahead_none hahead).2.1, ih hrest]

/-- A runner on its way, and the process it stands for. -/
structure Follows (runner : Runner ω) (base offset : Nat)
    (segments : List (SessionPath (EdgeCallback ω) × List Parts)) (state : Reference ω) :
    Prop where
  running : runner.state = .running
  tracks : Tracks runner base offset segments
  failures : runner.pathFailures.length = runner.paths.length
  reference : runner.reference (runner.viewOf base offset segments) = state

section

variable {runner after : Runner ω} {base offset fuel : Nat}
  {path : SessionPath (EdgeCallback ω)} {raw : List Parts}
  {rest : List (SessionPath (EdgeCallback ω) × List Parts)} {result : CaseResult}

structure SamePlace (runner after : Runner ω) : Prop where
  paths : after.paths = runner.paths
  settings : after.settings = runner.settings
  streams : after.streams = runner.streams
  pending : after.pending = runner.pending
  skip : after.skip = runner.skip
  position : after.position = runner.position
  index : after.index = runner.index

theorem SamePlace.stream (hsame : SamePlace runner after) : after.stream = runner.stream := by
  rw [Runner.stream, Runner.stream, hsame.streams, hsame.index]

theorem Opened.congr {target : CompiledRequest} (hsame : SamePlace runner after)
    (hopened : Opened runner target raw offset) : Opened after target raw offset := by
  have hsettings := hsame.settings
  cases hopened with
  | reading hstream hpending hat hfits =>
      exact .reading (hsame.stream.trans hstream) (hsame.pending.trans hpending)
        (hsettings ▸ hat) (hsettings ▸ hfits)
  | parked hstream hpending hat hzero hordinal hcase =>
      exact .parked (hsame.stream.trans hstream) (hsame.pending.trans hpending)
        (hsettings ▸ hat) hzero hordinal (hsettings ▸ hcase)
  | spent hstream hpending hidle hzero =>
      exact .spent (hsame.stream.trans hstream) (hsame.pending.trans hpending) hidle hzero

theorem Tracks.congr {segments : List (SessionPath (EdgeCallback ω) × List Parts)}
    (hsame : SamePlace runner after) (htracks : Tracks runner base offset segments) :
    Tracks after base offset segments where
  paths := by rw [hsame.paths, hsame.index, htracks.paths]
  enumerates := by
    rw [hsame.settings]
    exact htracks.enumerates
  position := by rw [hsame.position, htracks.position]
  length := by rw [hsame.streams, hsame.paths, htracks.length]
  later := by
    rw [hsame.index, hsame.streams]
    exact htracks.later
  standing := by
    rw [hsame.settings]
    rcases htracks.standing with ⟨hclosed, hcounted⟩ | ⟨hskip, path, raw, rest, hsegments,
      hopened, hcounted⟩
    · exact Or.inl ⟨⟨hsame.stream.trans hclosed.stream, hsame.pending.trans hclosed.pending,
        hsame.skip ▸ hclosed.skip⟩, hcounted⟩
    · exact Or.inr ⟨hsame.skip.trans hskip, path, raw, rest, hsegments, hopened.congr hsame,
        hcounted⟩

def tally (runner : Runner ω) (element : Text) : Runner ω :=
  { runner with
    pathFailures := runner.pathFailures.modify runner.index (· + 1)
    elementFailures :=
      (element, (runner.elementFailures.lookup element).getD 0 + 1) ::
        runner.elementFailures }

theorem tally_samePlace (runner : Runner ω) (element : Text) :
    SamePlace runner (runner.tally element) := ⟨rfl, rfl, rfl, rfl, rfl, rfl, rfl⟩

structure Tallied (settings : Settings ω) (runner after : Runner ω) (base offset : Nat)
    (path : SessionPath (EdgeCallback ω)) (raw : List Parts)
    (rest : List (SessionPath (EdgeCallback ω) × List Parts)) (result : CaseResult)
    (offset' : Nat) : Prop where
  later : offset ≤ offset'
  within : offset' ≤ raw.length
  tracks : Tracks after base offset' ((path, raw) :: rest)
  counts : SameCounts (if isFailure result.outcome then runner.tally result.case.fieldPath
    else runner) after
  index : after.index = runner.index
  state : after.state = runner.state
  kept : Slot.kept ((path.target.slotsFrom settings.vars 0 raw).drop offset') =
    Reference.remaining settings (isFailure result.outcome) result.case.fieldPath
      ((runner.elementFailures.lookup result.case.fieldPath).getD 0 + 1)
      (runner.pathFailures.getD runner.index 0 + 1)
      (Slot.kept ((path.target.slotsFrom settings.vars 0 raw).drop offset))

theorem getD_tally (element : Text) (hindex : runner.index < runner.pathFailures.length) :
    (runner.tally element).pathFailures.getD runner.index 0 =
      runner.pathFailures.getD runner.index 0 + 1 := by
  simp [Runner.tally, List.getD_eq_getElem?_getD, hindex]

theorem Tracks.drainElement {threshold : Prop} [Decidable threshold] {element : Text}
    (htracks : Tracks runner base offset ((path, raw) :: rest))
    (hopened : Opened runner path.target raw offset) (hle : offset ≤ raw.length)
    (hample : after.Ample)
    (hdrain : (if threshold then Runner.drainElement element fuel fuel runner
      else (.done (), runner)) = (.done (), after)) :
    ∃ offset', offset ≤ offset' ∧ offset' ≤ raw.length ∧ SameRun runner after ∧
      Opened after path.target raw offset' ∧
      after.position.toInt = wrap32 (base + offset') ∧
      Slot.kept ((path.target.slotsFrom runner.settings.vars 0 raw).drop offset') =
        if threshold then
          (Slot.kept ((path.target.slotsFrom runner.settings.vars 0 raw).drop
            offset)).dropWhile fun case => case.fieldPath = element
        else Slot.kept ((path.target.slotsFrom runner.settings.vars 0 raw).drop offset) := by
  split at hdrain
  · rename_i hreached
    obtain ⟨offset', hlater, hle', hsame, hopened', hposition, hkept⟩ :=
      drainElement_spec hample hopened hle htracks.position hdrain
    refine ⟨offset', hlater, hle', hsame, hopened', hposition, ?_⟩
    rw [if_pos hreached, hkept]
  · rename_i hreached
    cases hdrain
    refine ⟨offset, le_refl _, hle, .refl _, hopened, htracks.position, ?_⟩
    rw [if_neg hreached]

theorem Tracks.countFailure (htracks : Tracks runner base offset ((path, raw) :: rest))
    (hopened : Opened runner path.target raw offset) (hle : offset ≤ raw.length)
    (hskip : runner.skip = 0) (hfailures : runner.pathFailures.length = runner.paths.length)
    (hample : after.Ample) (hcount : runner.countFailure fuel result = (.done (), after)) :
    ∃ offset', Tallied runner.settings runner after base offset path raw rest result
      offset' := by
  unfold Runner.countFailure at hcount
  split at hcount
  · rename_i hfailed
    have hindex : runner.index < runner.pathFailures.length := by
      rw [hfailures]
      exact (List.getElem?_eq_some_iff.mp htracks.path_lt).1
    have hsamePlace := runner.tally_samePlace result.case.fieldPath
    have htracks' := htracks.congr hsamePlace
    have hopened' := hopened.congr hsamePlace
    dsimp only at hcount
    split at hcount
    · rename_i drained hdrained
      have hample' : drained.Ample := by
        split at hcount
        · exact hample.drained hcount
        · cases hcount
          exact hample
      obtain ⟨middle, hlater, hle', hsame, hopened'', hposition, hkept⟩ :=
        htracks'.drainElement hopened' hle hample' hdrained
      have htotal : drained.pathFailures.getD drained.index 0 =
          runner.pathFailures.getD runner.index 0 + 1 := by
        rw [hsame.pathFailures, hsame.index]
        exact getD_tally _ hindex
      rw [htotal] at hcount
      split at hcount
      · rename_i hreached
        obtain ⟨hsame', hspent, hposition'⟩ :=
          drainPath_spec hample hopened'' hle' hposition hcount
        have hboth := hsame.trans hsame'
        refine ⟨raw.length, hle, le_refl _, ?_, ?_, hboth.index, hboth.state, ?_⟩
        · exact htracks'.opened hboth.counts hboth.index hboth.length hboth.later
            (hboth.skip.trans hskip) hle (le_refl _) hposition' hspent
        · rw [if_pos hfailed]
          exact hboth.counts
        · rw [Reference.remaining, if_pos hfailed, if_pos hreached,
            List.drop_eq_nil_of_le (by rw [CompiledRequest.length_slotsFrom]), Slot.kept]
      · rename_i hreached
        cases hcount
        refine ⟨middle, hlater, hle', ?_, ?_, hsame.index, hsame.state, ?_⟩
        · exact htracks'.opened hsame.counts hsame.index hsame.length hsame.later
            (hsame.skip.trans hskip) hle hle' hposition hopened''
        · rw [if_pos hfailed]
          exact hsame.counts
        · rw [Reference.remaining, if_pos hfailed, if_neg hreached]
          exact hkept
    · rename_i hstops
      exact absurd hcount (hstops _)
  · rename_i hpassed
    cases hcount
    refine ⟨offset, le_refl _, hle, htracks, ?_, rfl, rfl, ?_⟩
    · rw [if_neg hpassed]
      exact ⟨rfl, rfl, rfl, rfl, rfl⟩
    · rw [Reference.remaining, if_neg hpassed]

end

theorem segmentsOf_congr {failures failures' : List Nat} {view : View ω} :
    ∀ {index : Nat}, (∀ other, index ≤ other →
      failures.getD other 0 = failures'.getD other 0) →
    segmentsOf failures index view = segmentsOf failures' index view := by
  induction view with
  | nil => exact fun _ => rfl
  | cons segment rest ih =>
      intro index hsame
      rw [segmentsOf, segmentsOf, hsame index (le_refl _),
        ih fun other hother => hsame other (by omega)]

/-- The cases that are left, counted over the paths. -/
theorem kept_remaining {settings : Settings ω} {path : SessionPath (EdgeCallback ω)}
    {raw : List Parts} {offset offset' elementTotal pathTotal : Nat} {failed : Bool}
    {element : Text} (base : Nat)
    (hkept : Slot.kept ((path.target.slotsFrom settings.vars 0 raw).drop offset') =
      Reference.remaining settings failed element elementTotal pathTotal
        (Slot.kept ((path.target.slotsFrom settings.vars 0 raw).drop offset))) :
    Slot.kept ((path.slots settings.vars base raw).drop offset') =
      Reference.remaining settings failed element elementTotal pathTotal
        (Slot.kept ((path.slots settings.vars base raw).drop offset)) := by
  rw [path.drop_slots, path.drop_slots, Slot.kept_map, Slot.kept_map, hkept]
  unfold Reference.remaining
  split
  · split
    · rfl
    · split
      · rw [List.dropWhile_map]
        rfl
      · rfl
  · rfl

theorem Tallied.same {settings : Settings ω} {runner after : Runner ω}
    {base offset offset' : Nat} {path : SessionPath (EdgeCallback ω)} {raw : List Parts}
    {rest : List (SessionPath (EdgeCallback ω) × List Parts)} {result : CaseResult}
    (htallied : Tallied settings runner after base offset path raw rest result offset') :
    after.paths = runner.paths ∧ after.settings = runner.settings ∧
      after.executed = runner.executed ∧
      after.pathFailures.length = runner.pathFailures.length := by
  obtain ⟨hpaths, hsettings, hexecuted, hfailures, -⟩ := htallied.counts
  rw [hpaths, hsettings, hexecuted, hfailures]
  split
  · exact ⟨rfl, rfl, rfl, List.length_modify _ _ _⟩
  · exact ⟨rfl, rfl, rfl, rfl⟩

theorem Tallied.reference {runner after : Runner ω} {base offset offset' : Nat}
    {path : SessionPath (EdgeCallback ω)} {raw : List Parts}
    {rest : List (SessionPath (EdgeCallback ω) × List Parts)} {result : CaseResult}
    {case : MutationCase}
    (htallied : Tallied runner.settings runner after base offset path raw rest result offset')
    (hle : offset ≤ raw.length) (hindex : runner.index < runner.pathFailures.length)
    (hcase : result.case.fieldPath = case.fieldPath) (queue : List (Segment ω)) :
    after.reference (after.viewOf base offset' ((path, raw) :: rest)) =
      Reference.taken runner.settings
        ⟨queue, fun element => (runner.elementFailures.lookup element).getD 0⟩
        (isFailure result.outcome) case
        ⟨path, Slot.kept ((path.slots runner.settings.vars base raw).drop offset),
          runner.pathFailures.getD runner.index 0⟩
        (segmentsOf runner.pathFailures (runner.index + 1)
          (slotsAhead runner.settings.vars (base + raw.length) (offset - raw.length)
            rest)) := by
  have hcounts := htallied.counts
  have hkept := kept_remaining base htallied.kept
  rw [Runner.reference, viewOf, htallied.same.2.1, htallied.index, slotsAhead, segmentsOf,
    Reference.taken, hkept, hcase, Nat.sub_eq_zero_of_le hle,
    Nat.sub_eq_zero_of_le htallied.within]
  cases hfailed : isFailure result.outcome with
  | false =>
      rw [hfailed] at hcounts
      rw [hcounts.pathFailures, hcounts.elementFailures]
      simp [Reference.remaining]
  | true =>
      rw [hfailed, if_pos rfl] at hcounts
      have hlater : ∀ other, runner.index + 1 ≤ other →
          (runner.tally result.case.fieldPath).pathFailures.getD other 0 =
            runner.pathFailures.getD other 0 := by
        intro other hother
        have hne : runner.index ≠ other := by omega
        simp [Runner.tally, List.getD_eq_getElem?_getD, hne]
      rw [hcounts.pathFailures, hcounts.elementFailures, getD_tally _ hindex,
        segmentsOf_congr hlater]
      congr 1
      funext element
      simp only [Runner.tally, List.lookup_cons, hcase]
      by_cases hsame : element = case.fieldPath
      · simp [hsame]
      · have hother : (element == case.fieldPath) = false := beq_eq_false_iff_ne.mpr hsame
        simp [hsame, hother]

/-- The case is one of those that the target of one of the paths gives. -/
structure Given (paths : List (SessionPath (EdgeCallback ω))) (settings : Settings ω)
    (path : SessionPath (EdgeCallback ω)) (case : MutationCase) : Prop where
  mem : path ∈ paths
  kept : ∃ raw first skip, path.target.Enumerates settings.mode raw ∧
    case ∈ Slot.kept ((path.slots settings.vars first raw).drop skip)

theorem Tracks.mem {runner : Runner ω} {base offset : Nat}
    {segments : List (SessionPath (EdgeCallback ω) × List Parts)}
    {path : SessionPath (EdgeCallback ω)} {raw : List Parts}
    (htracks : Tracks runner base offset segments) (hmem : (path, raw) ∈ segments) :
    path ∈ runner.paths := by
  have hdrop : path ∈ runner.paths.drop runner.index := by
    rw [htracks.paths]
    exact List.mem_map.mpr ⟨(path, raw), hmem, rfl⟩
  exact List.mem_of_mem_drop hdrop

structure Advance (runner last : Runner ω) (result : CaseResult)
    (path : SessionPath (EdgeCallback ω)) (case : MutationCase) (state state' : Reference ω)
    (base offset base' offset' : Nat)
    (segments' : List (SessionPath (EdgeCallback ω) × List Parts)) : Prop where
  sound : Settings.Sound path case.recorded result
  given : Given runner.paths runner.settings path case
  step : Reference.step runner.settings state (isFailure result.outcome) =
    some ((path, case), state')
  lower : ((base + offset : Nat) : Int) ≤ case.ordinal
  upper : case.ordinal < (base' + offset' : Nat)
  paths : last.paths = runner.paths
  settings : last.settings = runner.settings
  executed : last.executed = runner.executed + 1
  limit : (runner.executed : Int) < runner.settings.limit.toInt
  follows : last.state = .running → Follows last base' offset' segments' state'
  goesOn : (∀ path case fuel world result after,
    runner.settings.attempt path case fuel world ≠ (.done (result, true), after)) →
    last.state = .running

theorem Finds.mem {view view' : View ω} {moved : Nat} {path : SessionPath (EdgeCallback ω)}
    {case : MutationCase} (hfinds : Finds view moved path case view') :
    ∃ slots, (path, slots) ∈ view ∧ case ∈ Slot.kept slots := by
  induction hfinds with
  | @here path slots rest case count hahead =>
      refine ⟨slots, List.mem_cons_self, ?_⟩
      rw [(Slot.ahead_some hahead).2.2.1]
      exact List.mem_cons_self
  | past _ _ ih =>
      obtain ⟨slots, hmem, hkept⟩ := ih
      exact ⟨slots, List.mem_cons_of_mem _ hmem, hkept⟩

theorem mem_slotsAhead {vars : Option Vars} {path : SessionPath (EdgeCallback ω)}
    {slots : List (Slot MutationCase)}
    {segments : List (SessionPath (EdgeCallback ω) × List Parts)} :
    ∀ {base skip : Nat}, (path, slots) ∈ slotsAhead vars base skip segments →
      ∃ raw first skip', (path, raw) ∈ segments ∧
        slots = (path.slots vars first raw).drop skip' := by
  induction segments with
  | nil =>
      intro base skip hmem
      cases hmem
  | cons segment rest ih =>
      intro base skip hmem
      obtain ⟨path', raw⟩ := segment
      rcases List.mem_cons.mp hmem with hhead | htail
      · cases hhead
        exact ⟨raw, base, skip, List.mem_cons_self, rfl⟩
      · obtain ⟨raw', first, skip', hsegment, hslots⟩ := ih htail
        exact ⟨raw', first, skip', List.mem_cons_of_mem _ hsegment, hslots⟩

theorem Took.counted {runner middle counted : Runner ω} {moved fuel base offset : Nat}
    {path : SessionPath (EdgeCallback ω)} {case : MutationCase} {raw : List Parts}
    {rest : List (SessionPath (EdgeCallback ω) × List Parts)} {result : CaseResult}
    (htook : Took runner middle moved path case raw base offset rest)
    (hrunning : runner.state = .running)
    (hfailures : runner.pathFailures.length = runner.paths.length)
    (hcase : result.case.fieldPath = case.fieldPath) (hample : counted.Ample)
    (hcounted : middle.countFailure fuel result = (.done (), counted))
    (queue : List (Segment ω)) :
    ∃ later, offset ≤ later ∧ counted.paths = runner.paths ∧
      counted.settings = runner.settings ∧ counted.executed = runner.executed ∧
      Follows { counted with executed := counted.executed + 1 } base later
        ((path, raw) :: rest)
        (Reference.taken runner.settings
          ⟨queue, fun element => (runner.elementFailures.lookup element).getD 0⟩
          (isFailure result.outcome) case
          ⟨path, Slot.kept ((path.slots runner.settings.vars base raw).drop offset),
            runner.pathFailures.getD (runner.index + moved) 0⟩
          (segmentsOf runner.pathFailures (runner.index + moved + 1)
            (slotsAhead runner.settings.vars (base + raw.length) (offset - raw.length)
              rest))) := by
  have hcounts := htook.counts
  have hindex : middle.index < middle.paths.length :=
    (List.getElem?_eq_some_iff.mp htook.tracks.path_lt).1
  have hlength : middle.pathFailures.length = middle.paths.length := by
    rw [hcounts.pathFailures, hcounts.paths, hfailures]
  obtain ⟨later, htallied⟩ := htook.tracks.countFailure htook.opened htook.within
    htook.skip hlength hample hcounted
  obtain ⟨hpaths, hsettings, hexecuted, hfailures'⟩ := htallied.same
  have hreference := htallied.reference htook.within (hlength ▸ hindex) hcase queue
  rw [hcounts.settings, hcounts.elementFailures, hcounts.pathFailures, htook.index]
    at hreference
  have hplace : SamePlace counted { counted with executed := counted.executed + 1 } :=
    ⟨rfl, rfl, rfl, rfl, rfl, rfl, rfl⟩
  exact ⟨later, htallied.later, hpaths.trans hcounts.paths,
    hsettings.trans hcounts.settings, hexecuted.trans hcounts.executed, {
      running := (htallied.state.trans htook.state).trans hrunning
      tracks := htallied.tracks.congr hplace
      failures := (hfailures'.trans hlength).trans (congrArg List.length hpaths).symm
      reference := hreference }⟩

theorem Follows.found {runner : Runner ω} {base offset : Nat} {view : View ω}
    {segments : List (SessionPath (EdgeCallback ω) × List Parts)} {state : Reference ω}
    {moved : Nat} {path : SessionPath (EdgeCallback ω)} {case : MutationCase}
    (hfollows : Follows runner base offset segments state)
    (hfinds : Finds (runner.viewOf base offset segments) moved path case view) :
    Given runner.paths runner.settings path case ∧
      ((base + offset : Nat) : Int) ≤ case.ordinal := by
  obtain ⟨slots, hmem, hcase⟩ := hfinds.mem
  rw [viewOf] at hmem
  have hlower := slotsAhead_from (path, slots) hmem case hcase
  obtain ⟨raw, first, skip, hsegment, hslots⟩ := mem_slotsAhead hmem
  rw [hslots] at hcase
  have henumerates := hfollows.tracks.enumerates (path, raw) hsegment
  refine ⟨⟨hfollows.tracks.mem hsegment, raw, first, skip, henumerates, hcase⟩, ?_⟩
  rwa [Nat.cast_add]

theorem Follows.next {runner last : Runner ω} {base offset fuel : Nat} {world after : ω}
    {segments : List (SessionPath (EdgeCallback ω) × List Parts)} {state : Reference ω}
    {result : CaseResult} (hfollows : Follows runner base offset segments state)
    (hample : runner.Ample) (hample' : last.Ample)
    (hnext : runner.next fuel world = (.done (some result), last, after)) :
    ∃ path case state' base' offset' segments',
      Advance runner last result path case state state' base offset base' offset'
        segments' := by
  obtain ⟨found, middle, stop, hround⟩ := next_some hnext
  obtain ⟨moved, path, raw, base', offset', rest, case, rfl, hfinds, htook⟩ :=
    seekCase_found hfollows.tracks hample hround.seek
  have hcounts := htook.counts
  have hsettings := hcounts.settings
  have hordinal := htook.ordinal
  obtain ⟨hgiven, hlower⟩ := hfollows.found hfinds
  obtain ⟨_, _, hview, hfirst⟩ := hfinds.first runner.pathFailures runner.index
  rw [viewOf, hsettings, slotsAhead, List.cons.injEq, Prod.mk.injEq] at hview
  obtain ⟨⟨-, rfl⟩, rfl⟩ := hview
  obtain ⟨between, hattempt⟩ := hround.attempt
  have hpath : middle.paths.getD middle.index ⟨[], []⟩ = path := by
    rw [List.getD_eq_getElem?_getD, htook.tracks.path_lt]
    rfl
  rw [hpath, hsettings] at hattempt
  have hsound : Settings.Sound path case.recorded result :=
    Settings.attempt_sound _ _ _ hattempt
  have hstep : ∀ failed, Reference.step runner.settings state failed =
      some ((path, case), _) := fun failed => by
    rw [← hfollows.reference, Reference.step, Runner.reference, hfirst]
  obtain ⟨counted, rfl, hcounted⟩ := hround.counted
  cases stop with
  | true =>
      simp only [if_true] at hcounted
      subst hcounted
      exact ⟨path, case, _, base', offset', (path, raw) :: rest, {
        sound := hsound
        given := hgiven
        step := hstep _
        lower := hlower
        upper := by omega
        paths := hcounts.paths
        settings := hsettings
        executed := congrArg (· + 1) hcounts.executed
        limit := htook.limit
        follows := fun hstate => by cases hstate
        goesOn := fun hnever => absurd hattempt (hnever _ _ _ _ _ _) }⟩
  | false =>
      simp only [Bool.false_eq_true, if_false] at hcounted
      have hcountedAmple : counted.Ample := hample'
      have hfield : result.case.fieldPath = case.fieldPath := by
        rw [hsound.case]
        rfl
      obtain ⟨later, hlater, hpaths, hsettings', hexecuted, hfollows'⟩ :=
        htook.counted hround.running hfollows.failures
          hfield hcountedAmple hcounted
          (segmentsOf runner.pathFailures runner.index (runner.viewOf base offset segments))
      exact ⟨path, case, _, base', later, (path, raw) :: rest, {
        sound := hsound
        given := hgiven
        step := hstep _
        lower := hlower
        upper := by omega
        paths := hpaths
        settings := hsettings'
        executed := congrArg (· + 1) hexecuted
        limit := htook.limit
        follows := fun _ => hfollows'
        goesOn := fun _ => hfollows'.running }⟩

end Runner

end MoonBoofuzz
