import MoonBoofuzz.Runner.Recordable
import MoonBoofuzz.Runner.Enumerated

namespace MoonBoofuzz

namespace CaseStream

open Runner

theorem emitted_of_emits {stream after : CaseStream} {answer : Answer}
    (hemits : Emits stream answer after) (hnone : answer = .done none) :
    after.emitted = stream.emitted := by
  induction hemits with
  | oversized _ _ _ _ ih => exact ih hnone
  | built _ _ _ => cases hnone
  | _ => rfl

theorem emitted_of_answers {stream after : CaseStream}
    (hanswers : Answers stream (.done none) after) : after.emitted = stream.emitted := by
  by_cases hrunning : stream.state = .running
  · obtain ⟨left, cursor, -, hproceeds⟩ := (answers_running hrunning).mp hanswers
    cases hproceeds with
    | ended _ => rfl
    | limited _ _ => rfl
    | emits _ _ hemits =>
        have hsame := emitted_of_emits hemits rfl
        exact hsame
  · obtain ⟨-, rfl⟩ := (answers_idle hrunning).mp hanswers
    rfl

/-- A stream over some candidates has given no more cases than these, and stands among them as
long as it runs. -/
structure Within (request : CompiledRequest) (vars : Option Vars) (raw : List Parts)
    (stream : CaseStream) : Prop where
  slow : Slow stream
  few : stream.emitted ≤ raw.length
  stands : stream.state = .running → At request vars raw stream

variable {request : CompiledRequest} {vars : Option Vars} {raw : List Parts}
  {stream after : CaseStream} {found : Option MutationCase}

theorem Within.answers (hwithin : Within request vars raw stream)
    (hanswers : Answers stream (.done found) after) : Within request vars raw after := by
  have hslow := slow_of_answers hanswers hwithin.slow
  cases found with
  | none =>
      have hidle := hanswers.idle
      have hemitted := emitted_of_answers hanswers
      exact ⟨hslow, hemitted ▸ hwithin.few, fun hrunning => absurd hrunning hidle⟩
  | some case =>
      have hrunning : stream.state = .running := by
        by_contra hidle
        obtain ⟨hnone, -⟩ := (answers_idle hidle).mp hanswers
        cases hnone
      have hat := hwithin.stands hrunning
      have hle : stream.ordinal ≤ raw.length := by
        by_contra hlarge
        obtain ⟨hnone, -⟩ := hat.answers_beyond hanswers (by omega)
        cases hnone
      obtain ⟨count, -, -, hskip, hnext⟩ := hat.answers hanswers hle (by simp)
      have hat' := hnext rfl
      have hread := hat'.read
      rw [hskip, Nat.sub_zero] at hread
      exact ⟨hslow, le_trans hslow hread, fun _ => hat'⟩

theorem enumerate_within {mode : CompiledRequest.Mode} {start : Int32}
    (hstream : request.enumerate mode vars start 2147483647 = .ok stream) :
    Within request vars (request.candidates mode) stream := by
  have hemitted := (enumerate_eq_ok hstream).2
  refine ⟨?_, ?_, fun _ => (enumerate_at (request.candidates_drains mode) hstream).1⟩
  · rw [Slow, hemitted]
    exact Nat.zero_le _
  · rw [hemitted]
    exact Nat.zero_le _

end CaseStream

namespace Runner

open CaseStream ProtocolDefinition

variable {ω : Type} {paths : List (SessionPath (EdgeCallback ω))} {settings : Settings ω}

theorem length_le_total {segments : List (SessionPath (EdgeCallback ω) × List Parts)}
    {path : SessionPath (EdgeCallback ω)} {raw : List Parts} (hmem : (path, raw) ∈ segments) :
    raw.length ≤ total segments := by
  induction segments with
  | nil => cases hmem
  | cons segment rest ih =>
      obtain ⟨first, candidates⟩ := segment
      rw [total_cons]
      rcases List.mem_cons.mp hmem with hhead | htail
      · cases hhead
        exact Nat.le_add_right _ _
      · exact (ih htail).trans (Nat.le_add_left _ _)

/-! The streams of a runner, whatever fails. -/

/-- A runner over the paths, with streams over their candidates. -/
structure Furnished (paths : List (SessionPath (EdgeCallback ω))) (settings : Settings ω)
    (runner : Runner ω) : Prop where
  paths_eq : runner.paths = paths
  settings_eq : runner.settings = settings
  streams : ∀ index stream, runner.streams.getD index none = some stream →
    ∃ path, paths[index]? = some path ∧
      Within path.target settings.vars (path.target.candidates settings.mode) stream

namespace Furnished

variable {runner after : Runner ω}

theorem congr (hfurnished : Furnished paths settings runner)
    (hpaths : after.paths = runner.paths) (hsettings : after.settings = runner.settings)
    (hstreams : after.streams = runner.streams) : Furnished paths settings after :=
  ⟨hpaths.trans hfurnished.paths_eq, hsettings.trans hfurnished.settings_eq,
    hstreams ▸ hfurnished.streams⟩

theorem setStream {stream : CaseStream} {path : SessionPath (EdgeCallback ω)}
    (hfurnished : Furnished paths settings runner) (hpath : paths[runner.index]? = some path)
    (hwithin : Within path.target settings.vars (path.target.candidates settings.mode) stream) :
    Furnished paths settings (runner.setStream stream) where
  paths_eq := hfurnished.paths_eq
  settings_eq := hfurnished.settings_eq
  streams := by
    intro index other hother
    rw [Runner.setStream, List.getD_eq_getElem?_getD, List.getElem?_set] at hother
    split at hother
    · rename_i hsame
      split at hother
      · cases hother
        exact ⟨path, hsame ▸ hpath, hwithin⟩
      · cases hother
    · apply hfurnished.streams index other
      rwa [List.getD_eq_getElem?_getD]

theorem prepare {path : SessionPath (EdgeCallback ω)} {ready : Bool}
    (hfurnished : Furnished paths settings runner)
    (hpath : runner.paths[runner.index]? = some path)
    (hprepare : runner.prepare path = .ok (ready, after)) : Furnished paths settings after := by
  rw [Runner.prepare] at hprepare
  split at hprepare
  · cases hprepare
    exact hfurnished
  · split at hprepare
    · cases hprepare
      exact hfurnished.congr rfl rfl rfl
    · obtain ⟨stream, hstream, hok⟩ := exceptBind_eq_ok_iff.mp hprepare
      cases hok
      rw [hfurnished.paths_eq] at hpath
      rw [hfurnished.settings_eq] at hstream
      exact (hfurnished.setStream hpath (enumerate_within hstream)).congr rfl rfl rfl

theorem pull {fuel : Nat} {found : Option MutationCase}
    (hfurnished : Furnished paths settings runner)
    (hpull : runner.pull fuel = (.done found, after)) : Furnished paths settings after := by
  cases hpending : runner.pending with
  | some saved =>
      simp only [Runner.pull, hpending, Prod.mk.injEq] at hpull
      obtain ⟨-, rfl⟩ := hpull
      exact hfurnished.congr rfl rfl rfl
  | none =>
      cases hstream : runner.stream with
      | none =>
          simp only [Runner.pull, hpending, hstream, Prod.mk.injEq] at hpull
          obtain ⟨-, rfl⟩ := hpull
          exact hfurnished
      | some stream =>
          obtain ⟨stream', hanswers, rfl⟩ := pull_stream hstream hpending hpull
          obtain ⟨path, hpath, hwithin⟩ := hfurnished.streams _ stream hstream
          exact (hfurnished.setStream hpath (hwithin.answers hanswers)).congr rfl rfl rfl

theorem seekCase {fuel : Nat} {found : Option MutationCase} :
    ∀ {loops : Nat} {runner : Runner ω}, Furnished paths settings runner →
      Runner.seekCase fuel loops runner = (.done found, after) →
      Furnished paths settings after := by
  intro loops
  induction loops with
  | zero =>
      intro runner _ hseek
      cases hseek
  | succ loops ih =>
      intro runner hfurnished hseek
      rw [Runner.seekCase] at hseek
      split at hseek
      · cases hseek
        exact hfurnished.congr rfl rfl rfl
      · rename_i path hpath
        split at hseek
        · cases hseek
          exact hfurnished.congr rfl rfl rfl
        · split at hseek
          · cases hseek
            exact hfurnished.congr rfl rfl rfl
          · split at hseek
            · cases hseek
            · rename_i hprepare
              exact ih (hfurnished.prepare hpath hprepare) hseek
            · rename_i middle hprepare
              have hmiddle := hfurnished.prepare hpath hprepare
              split at hseek
              · cases hseek
              · cases hseek
              · rename_i last hpull
                apply ih _ hseek
                exact (hmiddle.pull hpull).congr rfl rfl rfl
              · rename_i case last hpull
                have hlast := hmiddle.pull hpull
                split at hseek
                · cases hseek
                  exact hlast.congr rfl rfl rfl
                · cases hseek
                  exact hlast

theorem drainElement {element : Text} {fuel : Nat} :
    ∀ {loops : Nat} {runner : Runner ω}, Furnished paths settings runner →
      Runner.drainElement element fuel loops runner = (.done (), after) →
      Furnished paths settings after := by
  intro loops
  induction loops with
  | zero =>
      intro runner _ hdrain
      cases hdrain
  | succ loops ih =>
      intro runner hfurnished hdrain
      rw [Runner.drainElement] at hdrain
      split at hdrain
      · cases hdrain
      · cases hdrain
      · rename_i hpull
        cases hdrain
        exact hfurnished.pull hpull
      · rename_i case middle hpull
        have hmiddle := hfurnished.pull hpull
        split at hdrain
        · exact ih hmiddle hdrain
        · cases hdrain
          exact hmiddle.congr rfl rfl rfl

theorem drainPath {fuel : Nat} :
    ∀ {loops : Nat} {runner : Runner ω}, Furnished paths settings runner →
      Runner.drainPath fuel loops runner = (.done (), after) →
      Furnished paths settings after := by
  intro loops
  induction loops with
  | zero =>
      intro runner _ hdrain
      cases hdrain
  | succ loops ih =>
      intro runner hfurnished hdrain
      rw [Runner.drainPath] at hdrain
      split at hdrain
      · cases hdrain
      · cases hdrain
      · rename_i hpull
        cases hdrain
        exact hfurnished.pull hpull
      · rename_i hpull
        exact ih (hfurnished.pull hpull) hdrain

theorem countFailure {fuel : Nat} {result : CaseResult}
    (hfurnished : Furnished paths settings runner)
    (hcount : runner.countFailure fuel result = (.done (), after)) :
    Furnished paths settings after := by
  unfold Runner.countFailure at hcount
  split at hcount
  · dsimp only at hcount
    split at hcount
    · rename_i drained hdrained
      have hdrain : Furnished paths settings drained := by
        split at hdrained
        · apply drainElement _ hdrained
          exact hfurnished.congr rfl rfl rfl
        · cases hdrained
          exact hfurnished.congr rfl rfl rfl
      split at hcount
      · exact hdrain.drainPath hcount
      · cases hcount
        exact hdrain
    · rename_i hstops
      exact absurd hcount (hstops _)
  · cases hcount
    exact hfurnished

theorem next {fuel : Nat} {world left : ω} {result : CaseResult}
    (hfurnished : Furnished paths settings runner)
    (hnext : runner.next fuel world = (.done (some result), after, left)) :
    Furnished paths settings after := by
  obtain ⟨found, middle, stop, hround⟩ := next_some hnext
  have hmiddle := hfurnished.seekCase hround.seek
  obtain ⟨counted, rfl, hcounted⟩ := hround.counted
  cases stop with
  | true =>
      simp only [if_true] at hcounted
      subst hcounted
      exact hmiddle.congr rfl rfl rfl
  | false =>
      simp only [Bool.false_eq_true, if_false] at hcounted
      exact (hmiddle.countFailure hcounted).congr rfl rfl rfl

theorem ample (hfurnished : Furnished paths settings runner)
    (htotal : total (candidatesOf settings.mode paths) < 2147483647) : runner.Ample := by
  intro stream hstream
  obtain ⟨path, hpath, hwithin⟩ := hfurnished.streams _ stream hstream
  have hmem : (path, path.target.candidates settings.mode) ∈ candidatesOf settings.mode paths :=
    List.mem_map.mpr ⟨path, List.mem_of_getElem? hpath, rfl⟩
  have hle := length_le_total hmem
  have hfew := hwithin.few
  omega

end Furnished

theorem withDialer_furnished {runner : Runner ω} (hnew : withDialer paths settings = .ok runner) :
    Furnished paths settings runner := by
  rw [withDialer_eq_ok hnew]
  refine ⟨rfl, rfl, fun index stream hstream => ?_⟩
  rw [List.getD_eq_getElem?_getD, List.getElem?_map] at hstream
  cases hpath : paths[index]? <;> rw [hpath] at hstream <;> cases hstream

end Runner

namespace Reference

variable {ω : Type} {settings : Settings ω} {state state' : Reference ω}
  {path : SessionPath (EdgeCallback ω)} {case : MutationCase} {failed : Bool} {bound : Int}

/-- Every case that is to come has an ordinal below a bound. -/
def Below (state : Reference ω) (bound : Int) : Prop :=
  ∀ segment ∈ state.queue, ∀ case ∈ segment.cases, case.ordinal < bound

theorem first_mem {queue rest : List (Segment ω)} {segment : Segment ω}
    (hfirst : first queue = some (case, segment, rest)) :
    (∃ full ∈ queue, full.cases = case :: segment.cases) ∧ ∀ other ∈ rest, other ∈ queue := by
  induction queue with
  | nil => cases hfirst
  | cons head tail ih =>
      rw [first] at hfirst
      split at hfirst
      · obtain ⟨⟨full, hfull, hcases⟩, hrest⟩ := ih hfirst
        exact ⟨⟨full, List.mem_cons_of_mem _ hfull, hcases⟩,
          fun other hother => List.mem_cons_of_mem _ (hrest other hother)⟩
      · rename_i hcases
        cases hfirst
        exact ⟨⟨head, List.mem_cons_self, hcases⟩,
          fun other hother => List.mem_cons_of_mem _ hother⟩

theorem remaining_subset (element : Text) (elementTotal pathTotal : Nat)
    (cases : List MutationCase) :
    remaining settings failed element elementTotal pathTotal cases ⊆ cases := by
  unfold remaining
  split
  · split
    · exact List.nil_subset _
    · split
      · exact (List.dropWhile_sublist _).subset
      · exact List.Subset.refl _
  · exact List.Subset.refl _

theorem Below.step (hbelow : state.Below bound)
    (hstep : step settings state failed = some ((path, case), state')) :
    case.ordinal < bound ∧ state'.Below bound := by
  unfold Reference.step at hstep
  split at hstep
  · cases hstep
  · rename_i case' segment rest hfirst
    cases hstep
    obtain ⟨⟨full, hfull, hcases⟩, hrest⟩ := first_mem hfirst
    have hall := hbelow full hfull
    rw [hcases, List.forall_mem_cons] at hall
    refine ⟨hall.1, List.forall_mem_cons.mpr ⟨fun other hother => ?_, fun other hother => ?_⟩⟩
    · exact hall.2 other (remaining_subset _ _ _ _ hother)
    · exact hbelow other (hrest other hother)

end Reference

namespace Runner

open CaseStream ProtocolDefinition

variable {ω : Type} {paths : List (SessionPath (EdgeCallback ω))} {settings : Settings ω}
  {runner last : Runner ω} {world after : ω}

/-! The ordinals of the results, whatever fails. -/

theorem slotsAhead_below {vars : Option Vars}
    {segments : List (SessionPath (EdgeCallback ω) × List Parts)} {base skip : Nat} :
    ∀ segment ∈ slotsAhead vars base skip segments, ∀ case ∈ Slot.kept segment.2,
      case.ordinal < (base + total segments : Nat) := by
  induction segments generalizing base skip with
  | nil =>
      intro segment hmem
      cases hmem
  | cons segment rest ih =>
      obtain ⟨path, raw⟩ := segment
      rw [slotsAhead, total_cons, List.forall_mem_cons]
      refine ⟨fun case hcase => ?_, fun segment hmem case hcase => ?_⟩
      · have hbounds := ((path.slots_numbered vars base raw).drop skip).kept_bounds hcase
        rw [List.length_drop, path.length_slots] at hbounds
        omega
      · have hlater := ih segment hmem case hcase
        omega

theorem processOf_below (settings : Settings ω) (paths : List (SessionPath (EdgeCallback ω))) :
    (processOf settings paths).Below (total (candidatesOf settings.mode paths) : Nat) := by
  intro segment hmem case hcase
  obtain ⟨shown, hshown, rfl⟩ := List.mem_map.mp hmem
  have hbelow := slotsAhead_below shown hshown case hcase
  rwa [Nat.zero_add] at hbelow

/-- A runner on its way, with all cases below a position behind it. -/
structure Underway (paths : List (SessionPath (EdgeCallback ω))) (settings : Settings ω)
    (runner : Runner ω) (position : Nat) : Prop where
  furnished : Furnished paths settings runner
  follows : ∃ base offset segments state, Follows runner base offset segments state ∧
    base + offset = position ∧
      state.Below (total (candidatesOf settings.mode paths) : Nat)

/-- A result of a run: its case is one of those of the paths, at its own ordinal. -/
structure Ordered (paths : List (SessionPath (EdgeCallback ω))) (settings : Settings ω)
    (result : CaseResult) : Prop where
  given : ∃ path, Given paths settings path result.case ∧
    Settings.Sound path result.case result
  start : settings.start.toInt ≤ result.case.ordinal
  below : result.case.ordinal < (total (candidatesOf settings.mode paths) : Nat)
  before : ∀ final ∈ settings.endIndex, result.case.ordinal < final.toInt

structure Gave (paths : List (SessionPath (EdgeCallback ω))) (settings : Settings ω)
    (runner last : Runner ω) (position later : Nat) (result : CaseResult) : Prop where
  ordered : Ordered paths settings result
  lower : (position : Int) ≤ result.case.ordinal
  upper : result.case.ordinal < (later : Int)
  limit : (runner.executed : Int) < settings.limit.toInt
  executed : last.executed = runner.executed + 1
  underway : last.state = .running → Underway paths settings last later

theorem Underway.before {position fuel : Nat} {result : CaseResult}
    (hunderway : Underway paths settings runner position) (hample : runner.Ample)
    (hnext : runner.next fuel world = (.done (some result), last, after)) :
    ∀ final ∈ settings.endIndex, result.case.ordinal < final.toInt := by
  obtain ⟨found, middle, stop, hround⟩ := next_some hnext
  obtain ⟨base, offset, segments, state, hfollows, -, -⟩ := hunderway.follows
  obtain ⟨moved, path, raw, base', offset', rest, case, rfl, -, htook⟩ :=
    seekCase_found hfollows.tracks hample hround.seek
  obtain ⟨between, hattempt⟩ := hround.attempt
  have hsound := Settings.attempt_sound _ _ _ hattempt
  have hordinal := htook.ordinal
  have hlast : (middle.position - 1).toInt = wrap32 case.ordinal := by
    rw [toInt_sub_one htook.tracks.position]
    congr 1
    omega
  intro final hfinal
  by_contra hbeyond
  have hreaches : middle.reachesEnd (middle.position - 1) = true := by
    rw [reachesEnd_iff, htook.counts.settings, hunderway.furnished.settings_eq]
    refine ⟨final, hfinal, ?_⟩
    rw [hlast]
    rw [hsound.case] at hbeyond
    exact not_lt.mp hbeyond
  rw [htook.last] at hreaches
  cases hreaches

theorem Underway.next {position fuel : Nat} {result : CaseResult}
    (hunderway : Underway paths settings runner position)
    (hstart : settings.start.toInt ≤ position)
    (htotal : total (candidatesOf settings.mode paths) < 2147483647)
    (hnext : runner.next fuel world = (.done (some result), last, after)) :
    ∃ later, Gave paths settings runner last position later result := by
  have hample := hunderway.furnished.ample htotal
  have hfurnished := hunderway.furnished.next hnext
  have hbefore := hunderway.before hample hnext
  obtain ⟨base, offset, segments, state, hfollows, rfl, hbelow⟩ := hunderway.follows
  obtain ⟨path, case, state', base', offset', segments', hadvance⟩ :=
    hfollows.next hample (hfurnished.ample htotal) hnext
  obtain ⟨hsmall, hbelow'⟩ := hbelow.step hadvance.step
  have hlower := hadvance.lower
  have hsame : case.recorded = case := (recorded_eq_iff (by omega)).mpr (by omega)
  have hsound := hadvance.sound
  have hgiven := hadvance.given
  rw [hsame] at hsound
  rw [hunderway.furnished.paths_eq, hunderway.furnished.settings_eq] at hgiven
  obtain rfl := hsound.case
  exact ⟨base' + offset', {
    ordered := ⟨⟨path, hgiven, hsound⟩, by omega, hsmall, hbefore⟩
    lower := hlower
    upper := hadvance.upper
    limit := hunderway.furnished.settings_eq ▸ hadvance.limit
    executed := hadvance.executed
    underway := fun hstate => ⟨hfurnished, base', offset', segments', state',
      hadvance.follows hstate, rfl, hbelow'⟩ }⟩

theorem withDialer_underway (hnew : withDialer paths settings = .ok runner)
    (hstart : 0 ≤ settings.start.toInt)
    (htotal : total (candidatesOf settings.mode paths) < 2147483647) :
    Underway paths settings runner settings.start.toInt.toNat := by
  have hcounted := @counted_of_total ω _ _ settings.start.toInt
    (candidatesOf_enumerates settings.mode) htotal
  obtain ⟨hfollows, -⟩ := withDialer_follows hnew hstart hcounted
  exact ⟨withDialer_furnished hnew, 0, _, _, _, hfollows, Nat.zero_add _,
    processOf_below settings paths⟩

theorem Ordered.valid {result : CaseResult} (hordered : Ordered paths settings result)
    (hpaths : ∀ path ∈ paths, path.requests ≠ [] ∧ path.target.Compiles)
    (hstart : 0 ≤ settings.start.toInt)
    (htotal : total (candidatesOf settings.mode paths) < 2147483647) :
    (settings.record result).Valid := by
  obtain ⟨path, hgiven, hsound⟩ := hordered.given
  obtain ⟨hrequests, hcompiles⟩ := hpaths path hgiven.mem
  have hlower := hordered.start
  have hupper := hordered.below
  have hsame : result.case.recorded = result.case :=
    (recorded_eq_iff (by omega)).mpr (by omega)
  rw [← hsame] at hsound
  refine (record_valid_iff hgiven hrequests hcompiles ?_).mpr ?_
  · exact hsound
  · rw [wrap32_eq_self (by omega) (by omega)]
    omega

/-- Calls of `next` that each give a result.  What happens to the world between them is left open,
but for a condition under which each of them is made. -/
inductive Calls (opens : ω → Prop) : Runner ω → List CaseResult → Runner ω → Prop
  | nil (runner : Runner ω) : Calls opens runner [] runner
  | cons {runner middle last : Runner ω} {world between : ω} {result : CaseResult}
      {results : List CaseResult} {fuel : Nat} (hopens : opens world)
      (hcall : runner.next fuel world = (.done (some result), middle, between))
      (hrest : Calls opens middle results last) : Calls opens runner (result :: results) last

theorem Runs.calls {holds : Runner ω → Prop} {results : List CaseResult}
    (hruns : Runs holds runner world results last after) :
    Calls (fun _ => True) runner results last := by
  induction hruns with
  | nil runner world => exact .nil runner
  | cons hcall _ _ ih => exact .cons trivial hcall ih

theorem Calls.idle {opens : ω → Prop} {results : List CaseResult}
    (hcalls : Calls opens runner results last) (hidle : runner.state ≠ .running) :
    results = [] := by
  cases hcalls with
  | nil => rfl
  | cons _ hcall _ =>
      obtain ⟨_, _, _, hround⟩ := next_some hcall
      exact absurd hround.running hidle

theorem Underway.calls {opens : ω → Prop} {results : List CaseResult}
    (htotal : total (candidatesOf settings.mode paths) < 2147483647)
    (hcalls : Calls opens runner results last) :
    ∀ {position : Nat}, Underway paths settings runner position →
      settings.start.toInt ≤ position →
      (∀ result ∈ results, Ordered paths settings result ∧
        (position : Int) ≤ result.case.ordinal) ∧
      (results.Pairwise fun left right => left.case.ordinal < right.case.ordinal) ∧
      (results ≠ [] → (runner.executed + results.length : Nat) ≤ settings.limit.toInt) := by
  induction hcalls with
  | nil runner =>
      intro position _ _
      exact ⟨List.forall_mem_nil _, .nil, fun hne => absurd rfl hne⟩
  | @cons runner middle last world between result results fuel _ hcall hrest ih =>
      intro position hunderway hstart
      obtain ⟨later, hgave⟩ := hunderway.next hstart htotal hcall
      have hlower := hgave.lower
      have hupper := hgave.upper
      have hlimit := hgave.limit
      obtain ⟨hordered, hincreasing, hcount⟩ :
          (∀ other ∈ results, Ordered paths settings other ∧
              (later : Int) ≤ other.case.ordinal) ∧
            (results.Pairwise fun left right => left.case.ordinal < right.case.ordinal) ∧
            (results ≠ [] → (middle.executed + results.length : Nat) ≤ settings.limit.toInt) := by
        by_cases hrunning : middle.state = .running
        · exact ih (hgave.underway hrunning) (by omega)
        · obtain rfl := hrest.idle hrunning
          exact ⟨List.forall_mem_nil _, .nil, fun hne => absurd rfl hne⟩
      refine ⟨List.forall_mem_cons.mpr ⟨⟨hgave.ordered, hlower⟩, fun other hother => ?_⟩,
        .cons (fun other hother => ?_) hincreasing, fun _ => ?_⟩
      · have hleast := (hordered other hother).2
        exact ⟨(hordered other hother).1, by omega⟩
      · have hleast := (hordered other hother).2
        omega
      · rw [List.length_cons]
        cases results with
        | nil =>
            rw [List.length_nil]
            omega
        | cons other others =>
            have hmore := hcount (List.cons_ne_nil _ _)
            rw [hgave.executed] at hmore
            omega

theorem Calls.ordered {opens : ω → Prop} {results : List CaseResult}
    (hcalls : Calls opens runner results last) (hnew : withDialer paths settings = .ok runner)
    (hpaths : ∀ path ∈ paths, path.requests ≠ [] ∧ path.target.Compiles)
    (htotal : total (candidatesOf settings.mode paths) < 2147483647) :
    (results.Pairwise fun left right => left.case.ordinal < right.case.ordinal) ∧
      (results.length : Int) ≤ settings.limit.toInt ∧
      ∀ result ∈ results, Ordered paths settings result ∧
        (settings.record result).validate = .ok () := by
  have hlimit : 0 ≤ settings.limit.toInt := by
    unfold withDialer at hnew
    split at hnew
    · rename_i hlimits
      exact hlimits.1
    · cases hnew
  have hexecuted : runner.executed = 0 := by rw [withDialer_eq_ok hnew]
  by_cases hstart : 0 ≤ settings.start.toInt
  · obtain ⟨hordered, hincreasing, hcount⟩ :=
      (withDialer_underway hnew hstart htotal).calls htotal hcalls (by omega)
    refine ⟨hincreasing, ?_, fun result hresult => ?_⟩
    · cases results with
      | nil => exact hlimit
      | cons result rest =>
          have hmore := hcount (List.cons_ne_nil _ _)
          rwa [hexecuted, Nat.zero_add] at hmore
    · have hresult := (hordered result hresult).1
      exact ⟨hresult, CaseRecord.validate_ok.mpr (hresult.valid hpaths hstart htotal)⟩
  · cases hcalls with
    | nil => exact ⟨.nil, hlimit, List.forall_mem_nil _⟩
    | cons _ hcall _ =>
        have hcounted := @counted_of_total ω _ _ settings.start.toInt
          (candidatesOf_enumerates settings.mode) htotal
        obtain ⟨_, _, _, hround⟩ := next_some hcall
        have hnone := withDialer_negative hnew (not_le.mp hstart) hcounted hround.seek
        cases hnone.1

/-- The results of a run, whatever dials, sends, callbacks and monitors do: their ordinals rise
strictly from the start on, before the end and within the candidates; they are no more than the
limit; and each of them passes the check of its record. -/
theorem results_ordered {results : List CaseResult}
    (hnew : withDialer paths settings = .ok runner)
    (hpaths : ∀ path ∈ paths, path.requests ≠ [] ∧ path.target.Compiles)
    (htotal : total (candidatesOf settings.mode paths) < 2147483647)
    (hruns : Runs (fun _ => True) runner world results last after) :
    (results.Pairwise fun left right => left.case.ordinal < right.case.ordinal) ∧
      (results.length : Int) ≤ settings.limit.toInt ∧
      ∀ result ∈ results, Ordered paths settings result ∧
        (settings.record result).validate = .ok () :=
  hruns.calls.ordered hnew hpaths htotal

theorem results_ordered_rejected :
    ∃ results last after, Runs (fun _ => True) rejectingRunner [] results last after ∧
      results.map (·.case.ordinal) = [0, 2] ∧
      (results.Pairwise fun left right => left.case.ordinal < right.case.ordinal) ∧
      (results.length : Int) ≤ rejectingSettings.limit.toInt := by
  have hcalls : ((callAll 20 5 rejectingRunner []).map fun called =>
      called.1.map (·.case.ordinal)) = some [0, 2] := by decide +kernel
  obtain ⟨⟨results, last, after⟩, hresults, hordinals⟩ := Option.map_eq_some_iff.mp hcalls
  obtain ⟨hruns, -⟩ := callAll_runs hresults
  obtain ⟨hincreasing, hlimit, -⟩ := results_ordered rejectingRunner_new
    (List.forall_mem_singleton.mpr linerPath_compiles) pairedRequest_length hruns
  exact ⟨results, last, after, hruns, hordinals, hincreasing, hlimit⟩

end Runner

end MoonBoofuzz
