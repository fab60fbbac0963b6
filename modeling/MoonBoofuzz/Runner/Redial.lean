import MoonBoofuzz.Mutation.Combinatorial
import MoonBoofuzz.Runner.Tally

namespace MoonBoofuzz

variable {ω : Type}

/-! The dials of a case that is not connected to at once. -/

def DialError : TransportError → Prop
  | .connectFailure _ => True
  | .timeout .connect => True
  | _ => False

/-- A channel is connected already: to receive on it does not fail to connect. -/
def Channel.Established (channel : Channel ω) : Prop :=
  ∀ size timeout world error, (channel.receive size timeout world).1 = .error error →
    ¬ DialError error

namespace Settings

def undialed (path : SessionPath (EdgeCallback ω)) (case : MutationCase)
    (error : TransportError) : CaseResult :=
  report path case [] (transportOutcome error) (some (-1))

theorem isDialFailure_undialed {path : SessionPath (EdgeCallback ω)} {case : MutationCase}
    {error : TransportError} :
    isDialFailure (undialed path case error) = true ↔ DialError error := by
  cases error with
  | timeout phase =>
      cases phase <;> simp [isDialFailure, undialed, report, transportOutcome, DialError]
  | _ => simp [isDialFailure, undialed, report, transportOutcome, DialError]

def dialFrom (settings : Settings ω) (path : SessionPath (EdgeCallback ω))
    (case : MutationCase) (world : ω) : Except TransportError (Channel ω) × ω :=
  settings.dial (settings.monitor.before ⟨path.caseId case, case, path.names⟩ world).2

def clocked (settings : Settings ω) (restarts : Nat) (world : ω) : ω :=
  if restarts = 0 then (settings.clock.monotonicMs world).2 else world

/-- The world after so many restarts, each of them after a failed dial. -/
def restarted (settings : Settings ω) (path : SessionPath (EdgeCallback ω))
    (case : MutationCase) : Nat → ω → ω
  | 0, world => world
  | count + 1, world =>
      match settings.dialFrom path case (settings.restarted path case count world) with
      | (.error error, last) =>
          settings.pause settings.restartSleepMs
            (settings.monitor.recover (undialed path case error)
              (settings.clocked count last)).2
      | (.ok _, last) => last

/-- A run with a positive threshold whose target can be restarted, and a case whose
first dials fail.  The dial after them succeeds, if it is made. -/
structure Redials (settings : Settings ω) (path : SessionPath (EdgeCallback ω))
    (case : MutationCase) (threshold : Int) (failed : Nat) (world : ω) : Prop where
  limit : settings.restartThreshold = some threshold
  positive : 0 < threshold
  timeless : settings.restartTimeoutMs = none
  before : ∀ context world, (settings.monitor.before context world).1 = .ok ()
  recover : ∀ result world, (settings.monitor.recover result world).1 = .ok true
  fails : ∀ count < failed, ∃ error last,
    settings.dialFrom path case (settings.restarted path case count world) =
      (.error error, last) ∧ DialError error
  connects : failed ≤ threshold → ∃ channel last,
    settings.dialFrom path case (settings.restarted path case failed world) =
      (.ok channel, last) ∧ (settings.udpServer = true → channel.Established)

section

variable {settings : Settings ω} {path : SessionPath (EdgeCallback ω)}
  {case : MutationCase} {threshold : Int} {failed fuel : Nat} {world : ω}

theorem execute_undialed (hredials : settings.Redials path case threshold failed world)
    {start last : ω} {error : TransportError}
    (hdial : settings.dialFrom path case start = (.error error, last)) :
    settings.execute path case fuel start = (.done (undialed path case error), last) := by
  have hbefore := hredials.before ⟨path.caseId case, case, path.names⟩ start
  rw [execute, Act.bind_perform, hbefore]
  dsimp only
  rw [Act.bind_perform]
  rw [dialFrom] at hdial
  rw [hdial]
  rfl

theorem execute_connected (hredials : settings.Redials path case threshold failed world)
    (hle : failed ≤ threshold) {raw : CaseResult} {last : ω}
    (hexecute : settings.execute path case fuel (settings.restarted path case failed world) =
      (.done raw, last)) : isDialFailure raw = false := by
  obtain ⟨channel, dialed, hconnects, hserver⟩ := hredials.connects hle
  rw [dialFrom] at hconnects
  have hsteps : raw.failedStep ≠ some (-1) → isDialFailure raw = false := by
    intro hfailed
    simp [isDialFailure, hfailed]
  cases execute_cases hexecute with
  | barred hbefore =>
      apply hsteps
      simp [report]
  | undialed hbefore hdial =>
      rw [hbefore] at hconnects
      cases hdial.symm.trans hconnects
  | unheard hbefore hdial hwaits hheard =>
      rw [hbefore] at hconnects
      cases hdial.symm.trans hconnects
      have hopen := hserver hwaits _ _ _ _ (congrArg Prod.fst hheard)
      rw [← Bool.not_eq_true]
      exact fun hfailure => hopen (isDialFailure_undialed.mp hfailure)
  | ran hbefore hdial hstarted hrun =>
      apply hsteps
      exact executeSteps_rule (fun _ _ _ => True)
        (fun result _ => result.failedStep ≠ some (-1)) stepped_dialed
        (fun _ _ _ => by simp [report]) trivial hrun

theorem givesUp_iff (hredials : settings.Redials path case threshold failed world)
    (restarts : Nat) : settings.givesUp restarts = true ↔ threshold ≤ restarts := by
  have hpositive := hredials.positive
  rw [givesUp, hredials.limit]
  simp [hpositive]

theorem retryLoop_restarts (hredials : settings.Redials path case threshold failed world)
    {count loops : Nat} {started : Int} {error : TransportError} {last : ω}
    (hcount : count < threshold)
    (hdial : settings.dialFrom path case (settings.restarted path case count world) =
      (.error error, last)) :
    settings.retryLoop path case started fuel (loops + 1) (undialed path case error) count
        (settings.clocked count last) =
      (settings.execute path case fuel >>= fun retried =>
        if isDialFailure retried then
          settings.retryLoop path case started fuel loops retried (count + 1)
        else settings.finish retried) (settings.restarted path case (count + 1) world) := by
  have hgoesOn : settings.givesUp count = false := by
    rw [← Bool.not_eq_true, givesUp_iff hredials]
    omega
  have htimeless : settings.expired started = pure false := by
    rw [expired, hredials.timeless]
  have hrecover := hredials.recover (undialed path case error) (settings.clocked count last)
  rw [retryLoop, hgoesOn, htimeless]
  simp only [Bool.false_eq_true, if_false]
  rw [Act.bind_done (Act.pure_run _ _)]
  simp only [Bool.false_eq_true, if_false]
  rw [Act.bind_perform, hrecover]
  dsimp only
  rw [Act.bind_perform, restarted, hdial]

theorem retryLoop_connects (hredials : settings.Redials path case threshold failed world)
    (hle : failed ≤ threshold) {started : Int} : ∀ {left count loops : Nat}
    {error : TransportError} {last : ω}, count + left + 1 = failed → left < loops →
    settings.dialFrom path case (settings.restarted path case count world) =
      (.error error, last) →
    settings.retryLoop path case started fuel loops (undialed path case error) count
        (settings.clocked count last) =
      (settings.execute path case fuel >>= settings.finish)
        (settings.restarted path case failed world) := by
  intro left
  induction left with
  | zero =>
      intro count loops error last hcount hloops hdial
      obtain ⟨loops, rfl⟩ := Nat.exists_eq_add_of_le' hloops
      subst hcount
      rw [retryLoop_restarts hredials (by omega) hdial]
      exact execute_dialed (fun _ _ => execute_connected hredials hle) _
  | succ left ih =>
      intro count loops error last hcount hloops hdial
      obtain ⟨loops, rfl⟩ := Nat.exists_eq_add_of_le' (Nat.zero_lt_of_lt hloops)
      obtain ⟨error', last', hdial', herror⟩ := hredials.fails (count + 1) (by omega)
      rw [retryLoop_restarts hredials (by omega) hdial,
        Act.bind_done (execute_undialed hredials hdial'), isDialFailure_undialed.mpr herror]
      exact ih (by omega) (by omega) hdial'

theorem retryLoop_givesUp (hredials : settings.Redials path case threshold failed world)
    (hlt : threshold < failed) {started : Int} : ∀ {left count loops : Nat}
    {error : TransportError} {last : ω}, ((count + left : Nat) : Int) = threshold →
    left < loops →
    settings.dialFrom path case (settings.restarted path case count world) =
      (.error error, last) →
    ∃ error' last',
      settings.dialFrom path case (settings.restarted path case threshold.toNat world) =
        (.error error', last') ∧
      settings.retryLoop path case started fuel loops (undialed path case error) count
          (settings.clocked count last) = (.done (undialed path case error', true), last') := by
  have hpositive := hredials.positive
  intro left
  induction left with
  | zero =>
      intro count loops error last hcount hloops hdial
      obtain ⟨loops, rfl⟩ := Nat.exists_eq_add_of_le' hloops
      have hsame : threshold.toNat = count := by omega
      have hgivesUp := (givesUp_iff hredials count).mpr (by omega)
      refine ⟨error, last, by rw [hsame, hdial], ?_⟩
      have hcounted : count ≠ 0 := by
        rw [Nat.add_zero] at hcount
        omega
      rw [retryLoop, if_pos hgivesUp, clocked, if_neg hcounted]
      rfl
  | succ left ih =>
      intro count loops error last hcount hloops hdial
      obtain ⟨loops, rfl⟩ := Nat.exists_eq_add_of_le' (Nat.zero_lt_of_lt hloops)
      obtain ⟨error', last', hdial', herror⟩ := hredials.fails (count + 1) (by omega)
      rw [retryLoop_restarts hredials (by omega) hdial,
        Act.bind_done (execute_undialed hredials hdial'), isDialFailure_undialed.mpr herror]
      exact ih (by omega) (by omega) hdial'

theorem attempt_undialed (hredials : settings.Redials path case threshold failed world)
    (hfailed : 0 < failed) : ∃ started error last,
    settings.dialFrom path case (settings.restarted path case 0 world) =
      (.error error, last) ∧
    settings.attempt path case fuel world =
      settings.retryLoop path case started fuel fuel (undialed path case error) 0
        (settings.clocked 0 last) := by
  obtain ⟨error, last, hdial, herror⟩ := hredials.fails 0 hfailed
  have hexecute : settings.execute path case fuel world =
      (.done (undialed path case error), last) := execute_undialed hredials hdial
  refine ⟨(settings.clock.monotonicMs last).1, error, last, hdial, ?_⟩
  rw [attempt, Act.bind_done hexecute, isDialFailure_undialed.mpr herror]
  rfl

theorem attempt_connects (hredials : settings.Redials path case threshold failed world)
    (hle : failed ≤ threshold) (hfuel : failed ≤ fuel) :
    settings.attempt path case fuel world =
      (settings.execute path case fuel >>= settings.finish)
        (settings.restarted path case failed world) := by
  cases failed with
  | zero => exact execute_dialed (fun _ _ => execute_connected hredials hle) _
  | succ failed =>
      obtain ⟨started, error, last, hdial, hattempt⟩ :=
        attempt_undialed hredials (Nat.succ_pos failed)
      rw [hattempt]
      exact retryLoop_connects hredials hle (Nat.zero_add _ ▸ rfl) hfuel hdial

theorem attempt_givesUp (hredials : settings.Redials path case threshold failed world)
    (hlt : threshold < failed) (hfuel : threshold < fuel) : ∃ error last,
    settings.dialFrom path case (settings.restarted path case threshold.toNat world) =
      (.error error, last) ∧
    settings.attempt path case fuel world =
      (.done (undialed path case error, true), last) := by
  have hpositive := hredials.positive
  obtain ⟨started, error, last, hdial, hattempt⟩ :=
    @attempt_undialed _ _ _ _ _ _ fuel _ hredials (by omega)
  rw [hattempt]
  exact retryLoop_givesUp hredials hlt (by omega) (show threshold.toNat < fuel by omega) hdial

/-! The calls that are made on the way. -/

variable {tally : ω → Tally}

theorem dialFrom_tally (htallies : settings.Tallies path tally) (world : ω) :
    tally (settings.dialFrom path case world).2 =
      { tally world with dials := (tally world).dials + 1 } := by
  rw [dialFrom, htallies.dial, htallies.before]

theorem clocked_tally (htallies : settings.Tallies path tally) (restarts : Nat) (world : ω) :
    tally (settings.clocked restarts world) = tally world := by
  unfold clocked
  split
  · exact htallies.clock world
  · rfl

theorem restarted_tally (hredials : settings.Redials path case threshold failed world)
    (htallies : settings.Tallies path tally) : ∀ {count : Nat}, count ≤ failed →
    tally (settings.restarted path case count world) =
      { tally world with
        dials := (tally world).dials + count
        recovers := (tally world).recovers + count } := by
  intro count
  induction count with
  | zero => exact fun _ => rfl
  | succ count ih =>
      intro hle
      obtain ⟨error, last, hdial, -⟩ := hredials.fails count hle
      have hlast := @dialFrom_tally _ _ path case _ htallies
        (settings.restarted path case count world)
      rw [hdial, ih (by omega)] at hlast
      rw [restarted, hdial]
      dsimp only
      rw [pause_tally htallies, htallies.recover, clocked_tally htallies, hlast]
      simp only [Nat.add_assoc]

end

end Settings

namespace Runner

/-! The call of `next` for such a case. -/

/-- What looking for a case and counting its failure leave alone. -/
structure SameCourse (runner after : Runner ω) : Prop where
  settings : after.settings = runner.settings
  executed : after.executed = runner.executed
  state : after.state = runner.state

theorem SameCourse.refl (runner : Runner ω) : SameCourse runner runner := ⟨rfl, rfl, rfl⟩

theorem SameCourse.trans {first second third : Runner ω} (hfirst : SameCourse first second)
    (hsecond : SameCourse second third) : SameCourse first third where
  settings := hsecond.settings.trans hfirst.settings
  executed := hsecond.executed.trans hfirst.executed
  state := hsecond.state.trans hfirst.state

section

variable {runner : Runner ω} {fuel : Nat}

theorem pull_sameCourse (runner : Runner ω) (fuel : Nat) :
    SameCourse runner (runner.pull fuel).2 := by
  unfold pull
  split
  · exact ⟨rfl, rfl, rfl⟩
  · split
    · exact .refl runner
    · split <;> exact ⟨rfl, rfl, rfl⟩

theorem drainElement_sameCourse {element : Text} : ∀ (loops : Nat) (runner : Runner ω),
    SameCourse runner (drainElement element fuel loops runner).2 := by
  intro loops
  induction loops with
  | zero => exact .refl
  | succ loops ih =>
      intro runner
      have hpull := pull_sameCourse runner fuel
      unfold drainElement
      split <;> rename_i hanswer <;> rw [hanswer] at hpull
      · exact hpull
      · exact hpull
      · exact hpull
      · split
        · exact hpull.trans (ih _)
        · exact hpull.trans ⟨rfl, rfl, rfl⟩

theorem drainPath_sameCourse : ∀ (loops : Nat) (runner : Runner ω),
    SameCourse runner (drainPath fuel loops runner).2 := by
  intro loops
  induction loops with
  | zero => exact .refl
  | succ loops ih =>
      intro runner
      have hpull := pull_sameCourse runner fuel
      unfold drainPath
      split <;> rename_i hanswer <;> rw [hanswer] at hpull
      · exact hpull
      · exact hpull
      · exact hpull
      · exact hpull.trans (ih _)

theorem countFailure_sameCourse (runner : Runner ω) (result : CaseResult) :
    SameCourse runner (runner.countFailure fuel result).2 := by
  unfold countFailure
  split
  · have hdrained : ∀ (threshold : Prop) [Decidable threshold] (element : Text)
        (counted : Runner ω), SameCourse runner counted → SameCourse runner
          (if threshold then drainElement element fuel fuel counted
          else (.done (), counted)).2 := by
      intro threshold _ element counted hcounted
      split
      · exact hcounted.trans (drainElement_sameCourse fuel counted)
      · exact hcounted
    dsimp only
    split
    · rename_i drained hanswer
      have hcourse : SameCourse runner drained := by
        rw [show drained = _ from (congrArg Prod.snd hanswer).symm]
        exact hdrained _ _ _ ⟨rfl, rfl, rfl⟩
      split
      · exact hcourse.trans (drainPath_sameCourse fuel drained)
      · exact hcourse
    · exact hdrained _ _ _ ⟨rfl, rfl, rfl⟩
  · exact .refl runner

theorem prepare_sameCourse {path : SessionPath (EdgeCallback ω)} {ready : Bool}
    {after : Runner ω} (hprepare : runner.prepare path = .ok (ready, after)) :
    SameCourse runner after := by
  unfold prepare at hprepare
  split at hprepare
  · cases hprepare
    exact .refl runner
  · split at hprepare
    · cases hprepare
      exact ⟨rfl, rfl, rfl⟩
    · cases hstream : path.target.enumerate runner.settings.mode runner.settings.vars
          runner.skip 2147483647 with
      | error error =>
          rw [hstream] at hprepare
          cases hprepare
      | ok stream =>
          rw [hstream] at hprepare
          cases hprepare
          exact ⟨rfl, rfl, rfl⟩

theorem seekCase_sameCourse {case : MutationCase} {after : Runner ω} :
    ∀ {loops : Nat} {runner : Runner ω},
      runner.seekCase fuel loops = (.done (some case), after) →
      SameCourse runner after := by
  intro loops
  induction loops with
  | zero =>
      intro runner hseek
      cases hseek
  | succ loops ih =>
      intro runner hseek
      unfold seekCase at hseek
      split at hseek
      · cases hseek
      · split at hseek
        · cases hseek
        · split at hseek
          · cases hseek
          · split at hseek
            · cases hseek
            · rename_i hprepare
              exact (prepare_sameCourse hprepare).trans (ih hseek)
            · rename_i ready hprepare
              have hready := prepare_sameCourse hprepare
              have hpull := pull_sameCourse ready fuel
              split at hseek <;> rename_i hanswer <;> try rw [hanswer] at hpull
              · cases hseek
              · cases hseek
              · have hlater := ih hseek
                exact (hready.trans hpull).trans
                  ⟨hlater.settings, hlater.executed, hlater.state⟩
              · split at hseek
                · cases hseek
                · cases hseek
                  exact hready.trans hpull

end

/-- The dial of a case succeeds after some that failed, and the call comes to what follows
from its execution. -/
structure Reconnects (fuel : Nat) (runner middle : Runner ω)
    (path : SessionPath (EdgeCallback ω)) (case : MutationCase) (failed : Nat) (world : ω)
    (tally : ω → Tally) : Prop where
  dials : (tally (runner.next fuel world).2.2).dials = (tally world).dials + (failed + 1)
  returns : ∀ answer last ended, runner.next fuel world = (.done answer, last, ended) →
    ∃ raw result stops between finished,
      runner.settings.execute path case fuel
          (runner.settings.restarted path case failed world) = (.done raw, between) ∧
        runner.settings.finish raw between = (.done (result, stops), finished) ∧
        answer = some result ∧ last.executed = runner.executed + 1 ∧
        last.state = if stops then .stopped else .running
  completes : ∀ raw result stops between finished,
    runner.settings.execute path case fuel
        (runner.settings.restarted path case failed world) = (.done raw, between) →
      runner.settings.finish raw between = (.done (result, stops), finished) →
      stops = true ∨ (middle.countFailure fuel result).1 = .done () →
      ∃ last ended, runner.next fuel world = (.done (some result), last, ended)

/-- The call ends the run with the failure of the last dial. -/
structure GaveUp (fuel : Nat) (runner : Runner ω) (path : SessionPath (EdgeCallback ω))
    (case : MutationCase) (threshold : Nat) (world : ω) (tally : ω → Tally)
    (error : TransportError) (last : Runner ω) (ended : ω) : Prop where
  dial : runner.settings.dialFrom path case
    (runner.settings.restarted path case threshold world) = (.error error, ended)
  returns : runner.next fuel world =
    (.done (some (Settings.undialed path case error)), last, ended)
  tally : tally ended =
    { tally world with
      dials := (tally world).dials + (threshold + 1)
      recovers := (tally world).recovers + threshold }
  state : last.state = .stopped
  executed : last.executed = runner.executed + 1
  spent : ∀ fuel world, last.next fuel world = (.done none, last, world)

section

variable {runner middle : Runner ω} {path : SessionPath (EdgeCallback ω)}
  {case : MutationCase} {threshold : Int} {failed fuel : Nat} {world : ω}
  {tally : ω → Tally}

theorem next_stopped (hstopped : runner.state = .stopped) (fuel : Nat) (world : ω) :
    runner.next fuel world = (.done none, runner, world) := by
  rw [next, if_neg (by simp [hstopped])]

theorem execution_dials (htallies : runner.settings.Tallies path tally)
    (hredials : runner.settings.Redials path case threshold failed world) :
    (tally ((runner.settings.execute path case fuel >>= runner.settings.finish)
      (runner.settings.restarted path case failed world)).2).dials =
        (tally world).dials + (failed + 1) := by
  have hbefore := hredials.before ⟨path.caseId case, case, path.names⟩
    (runner.settings.restarted path case failed world)
  have hdials := @Settings.execute_dials _ _ path case fuel _ htallies _ _
    (Prod.ext hbefore rfl)
  rw [Settings.restarted_tally hredials htallies (Nat.le_refl failed)] at hdials
  change (tally (Act.bind _ _ _).2).dials = _
  unfold Act.bind
  split <;> rename_i hexecute <;> rw [hexecute] at hdials
  · rename_i raw between
    have hfinish := Settings.finish_dials htallies raw between
    dsimp only at hfinish
    rw [hfinish, hdials]
    rfl
  · exact congrArg Tally.dials hdials
  · exact congrArg Tally.dials hdials

theorem next_reconnects (hrunning : runner.state = .running)
    (hseek : runner.seekCase fuel fuel = (.done (some case), middle))
    (hpath : middle.paths.getD middle.index ⟨[], []⟩ = path)
    (htallies : runner.settings.Tallies path tally)
    (hredials : runner.settings.Redials path case threshold failed world)
    (hle : failed ≤ threshold) (hfuel : failed ≤ fuel) :
    Reconnects fuel runner middle path case failed world tally := by
  have hsame := seekCase_sameCourse hseek
  have hdials := @execution_dials _ _ _ _ _ _ fuel _ _ htallies hredials
  have hattempt := Settings.attempt_connects hredials hle hfuel
  have hcourse := fun result => @countFailure_sameCourse _ fuel middle result
  rw [← hsame.settings] at hattempt
  constructor
  · rw [← hdials, next, if_pos hrunning, hseek]
    dsimp only
    rw [hpath, hattempt, hsame.settings]
    split <;> rename_i hanswer <;> rw [hanswer]
    rename_i result ended
    split <;> rename_i hcount
    · rfl
    · rfl
    · have hsettings := (hcourse result).settings
      rw [hcount] at hsettings
      dsimp only
      rw [hsettings, hsame.settings, Settings.pause_tally htallies]
  · intro answer last ended hnext
    rw [next, if_pos hrunning, hseek] at hnext
    dsimp only at hnext
    rw [hpath, hattempt, hsame.settings] at hnext
    split at hnext <;> rename_i hanswer
    · cases hnext
    · cases hnext
    · cases hnext
      obtain ⟨raw, between, hexecute, hfinish⟩ := Act.bind_eq_done.mp hanswer
      exact ⟨raw, _, true, between, _, hexecute, hfinish, rfl,
        congrArg (· + 1) hsame.executed, rfl⟩
    · split at hnext <;> rename_i hcount
      · cases hnext
      · cases hnext
      · rename_i result finished _ counted
        cases hnext
        have hkept := hcourse result
        rw [hcount] at hkept
        obtain ⟨raw, between, hexecute, hfinish⟩ := Act.bind_eq_done.mp hanswer
        exact ⟨raw, _, false, between, _, hexecute, hfinish, rfl,
          congrArg (· + 1) (hkept.executed.trans hsame.executed),
          (hkept.state.trans hsame.state).trans hrunning⟩
  · intro raw result stops between finished hexecute hfinish hcount
    rw [next, if_pos hrunning, hseek]
    dsimp only
    rw [hpath, hattempt, Act.bind_done (hsame.settings ▸ hexecute), hsame.settings, hfinish]
    cases stops with
    | true => exact ⟨_, _, rfl⟩
    | false =>
        have hdone := hcount.resolve_left Bool.false_ne_true
        dsimp only
        split <;> rename_i hanswer <;> rw [hanswer] at hdone
        · cases hdone
        · cases hdone
        · exact ⟨_, _, rfl⟩

theorem next_gaveUp (hrunning : runner.state = .running)
    (hseek : runner.seekCase fuel fuel = (.done (some case), middle))
    (hpath : middle.paths.getD middle.index ⟨[], []⟩ = path)
    (htallies : runner.settings.Tallies path tally)
    (hredials : runner.settings.Redials path case threshold failed world)
    (hlt : threshold < failed) (hfuel : threshold < fuel) :
    ∃ error last ended, GaveUp fuel runner path case threshold.toNat world tally error last
      ended := by
  have hsame := seekCase_sameCourse hseek
  obtain ⟨error, ended, hdial, hattempt⟩ := Settings.attempt_givesUp hredials hlt hfuel
  rw [← hsame.settings] at hattempt
  have hcalls := @Settings.dialFrom_tally _ _ path case _ htallies
    (runner.settings.restarted path case threshold.toNat world)
  rw [hdial, Settings.restarted_tally hredials htallies (by omega)] at hcalls
  refine ⟨error, { middle with state := .stopped, executed := middle.executed + 1 }, ended, {
    dial := hdial
    returns := ?_
    tally := by rw [hcalls]; simp only [Nat.add_assoc]
    state := ?_
    executed := ?_
    spent := ?_ }⟩
  · rw [next, if_pos hrunning, hseek]
    dsimp only
    rw [hpath, hattempt]
  · rfl
  · exact congrArg (· + 1) hsame.executed
  · exact next_stopped rfl

/-- A target that cannot be reached is restarted as often as the threshold says, and
dialed for once more. -/
theorem next_redials (hrunning : runner.state = .running)
    (hseek : runner.seekCase fuel fuel = (.done (some case), middle))
    (hpath : middle.paths.getD middle.index ⟨[], []⟩ = path)
    (htallies : runner.settings.Tallies path tally)
    (hredials : runner.settings.Redials path case threshold failed world)
    (hfuel : failed < fuel ∨ threshold < fuel) :
    (failed ≤ threshold → Reconnects fuel runner middle path case failed world tally) ∧
      (threshold < failed → ∃ error last ended,
        GaveUp fuel runner path case threshold.toNat world tally error last ended) := by
  constructor
  · intro hle
    exact next_reconnects hrunning hseek hpath htallies hredials hle (by omega)
  · intro hlt
    exact next_gaveUp hrunning hseek hpath htallies hredials hlt (by omega)

end

/-! A target that refuses some dials, with a threshold of two restarts. -/

def quietChannel : Channel Tally where
  send _ tally := (.ok (), tally)
  receive _ _ tally := (.ok .closed, tally)
  lastSentLen _ := 0
  close tally := tally

def refusedSettings (refused : Nat) : Settings Tally where
  dial tally :=
    (if tally.dials < refused then .error (.connectFailure 111)
      else .ok quietChannel, { tally with dials := tally.dials + 1 })
  clock := ⟨fun tally => (0, tally), fun _ tally => tally⟩
  debug := ⟨fun _ => [], fun _ => []⟩
  policies := []
  receiveLimit := 64
  receiveTimeout := 1000
  limit := 1
  monitor :=
    ⟨fun _ tally => (.ok (), tally),
      fun _ tally => (.ok (), { tally with afters := tally.afters + 1 }),
      fun _ tally => (.ok (), { tally with faults := tally.faults + 1 }),
      fun _ tally => (.ok true, { tally with recovers := tally.recovers + 1 }),
      fun _ _ tally => (.ok true, tally)⟩
  mode := .sequential
  vars := none
  checkDataReceived := false
  receiveDataAfterFuzz := false
  ignoreConnectionReset := false
  ignoreConnectionAborted := false
  ignoreConnectionIssuesWhenSendingFuzzData := false
  restartThreshold := some 2
  restartTimeoutMs := none
  restartSleepMs := 0
  sleepBetweenMs := 0
  crashThresholdRequest := 1
  crashThresholdElement := 1
  start := 0
  endIndex := none
  udpServer := false

def refusedPath : SessionPath (EdgeCallback Tally) := ⟨[CompiledRequest.pairedRequest], [none]⟩

def refusedRunner (refused : Nat) : Runner Tally where
  paths := [refusedPath]
  settings := refusedSettings refused
  streams := [none]
  pathFailures := [0]
  elementFailures := []
  pending := none
  skip := 0
  position := 0
  index := 0
  executed := 0
  state := .running

def refusedCase : MutationCase where
  id := Text.ofAscii "v1:r.a:0"
  requestName := Text.ofAscii "r"
  fieldPath := Text.ofAscii "r.a"
  mutationIndex := 0
  ordinal := 0
  payload := [0x32, 0x34]
  extra := []

theorem refusedSettings_tallies (refused : Nat) :
    (refusedSettings refused).Tallies refusedPath id where
  dial _ := rfl
  recover _ _ := rfl
  after _ _ := rfl
  fault _ _ := rfl
  before _ _ := rfl
  check _ _ _ := rfl
  clock _ := rfl
  sleep _ _ := rfl
  leaves := by
    intro world last channel hdial
    rw [refusedSettings, Prod.mk.injEq] at hdial
    obtain ⟨hanswer, -⟩ := hdial
    split at hanswer
    · cases hanswer
    · cases hanswer
      exact ⟨⟨fun _ _ => rfl, fun _ _ _ => rfl⟩, fun _ => rfl⟩
  transition := by simp [refusedPath]

theorem refusedSettings_restarted {refused : Nat} : ∀ {count : Nat}, count ≤ refused →
    (refusedSettings refused).restarted refusedPath refusedCase count ⟨0, 0, 0, 0⟩ =
      ⟨count, count, 0, 0⟩ := by
  intro count
  induction count with
  | zero => exact fun _ => rfl
  | succ count ih =>
      intro hle
      have hdial : (refusedSettings refused).dialFrom refusedPath refusedCase
          ⟨count, count, 0, 0⟩ = (.error (.connectFailure 111), ⟨count + 1, count, 0, 0⟩) := by
        simp only [Settings.dialFrom, refusedSettings]
        rw [if_pos (by omega)]
      rw [Settings.restarted, ih (by omega), hdial]
      simp [refusedSettings, Settings.pause, Settings.clocked]

theorem refusedSettings_redials (refused : Nat) :
    (refusedSettings refused).Redials refusedPath refusedCase 2 refused ⟨0, 0, 0, 0⟩ where
  limit := rfl
  positive := by decide
  timeless := rfl
  before _ _ := rfl
  recover _ _ := rfl
  fails := by
    intro count hlt
    refine ⟨.connectFailure 111, ⟨count + 1, count, 0, 0⟩, ?_, trivial⟩
    rw [refusedSettings_restarted (by omega)]
    simp only [Settings.dialFrom, refusedSettings]
    rw [if_pos hlt]
  connects := by
    intro _
    refine ⟨quietChannel, ⟨refused + 1, refused, 0, 0⟩, ?_, fun hserver => by cases hserver⟩
    rw [refusedSettings_restarted (Nat.le_refl refused)]
    simp only [Settings.dialFrom, refusedSettings]
    rw [if_neg (Nat.lt_irrefl _)]

/-- Two refusals are got over, and a third one ends the run. -/
theorem refusedRunner_redials :
    Reconnects 20 (refusedRunner 2) ((refusedRunner 2).seekCase 20 20).2 refusedPath
        refusedCase 2 ⟨0, 0, 0, 0⟩ id ∧
      ∃ error last ended, GaveUp 20 (refusedRunner 3) refusedPath refusedCase 2
        ⟨0, 0, 0, 0⟩ id error last ended := by
  have htwo : ((refusedRunner 2).seekCase 20 20).1 = .done (some refusedCase) := by
    decide +kernel
  have hthree : ((refusedRunner 3).seekCase 20 20).1 = .done (some refusedCase) := by
    decide +kernel
  exact ⟨(next_redials rfl (Prod.ext htwo rfl) rfl (refusedSettings_tallies 2)
      (refusedSettings_redials 2) (by decide)).1 (by decide),
    (next_redials rfl (Prod.ext hthree rfl) rfl (refusedSettings_tallies 3)
      (refusedSettings_redials 3) (by decide)).2 (by decide)⟩

end Runner

end MoonBoofuzz
