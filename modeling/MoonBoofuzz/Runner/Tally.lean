import MoonBoofuzz.Runner.Frame
import MoonBoofuzz.Runner.Run

namespace MoonBoofuzz

/-! The calls of a runner to its dialer and to its monitor, as a world notes them. -/

variable {ω : Type}

structure Tally where
  dials : Nat
  recovers : Nat
  afters : Nat
  faults : Nat
  deriving Repr, DecidableEq

structure Settings.Tallies (settings : Settings ω) (path : SessionPath (EdgeCallback ω))
    (tally : ω → Tally) : Prop extends settings.Leaves path tally where
  dial : ∀ world, tally (settings.dial world).2 =
    { tally world with dials := (tally world).dials + 1 }
  recover : ∀ result world, tally (settings.monitor.recover result world).2 =
    { tally world with recovers := (tally world).recovers + 1 }
  after : ∀ result world, tally (settings.monitor.after result world).2 =
    { tally world with afters := (tally world).afters + 1 }
  fault : ∀ result world, tally (settings.monitor.fault result world).2 =
    { tally world with faults := (tally world).faults + 1 }
  before : ∀ context world, tally (settings.monitor.before context world).2 = tally world
  sleep : ∀ milliseconds world,
    tally (settings.clock.sleepMs milliseconds world) = tally world
  leaves : ∀ {world last : ω} {channel : Channel ω},
    settings.dial world = (.ok channel, last) → channel.Leaves tally ∧
      ∀ world, tally (channel.close world) = tally world

open Act

namespace Settings

variable {settings : Settings ω} {path : SessionPath (EdgeCallback ω)}
  {case : MutationCase} {fuel : Nat} {tally : ω → Tally}

theorem execute_dials (htallies : settings.Tallies path tally) {world ready : ω}
    (hbefore : settings.monitor.before ⟨path.caseId case, case, path.names⟩ world =
      (.ok (), ready)) :
    tally (settings.execute path case fuel world).2 =
      { tally world with dials := (tally world).dials + 1 } := by
  have hready := htallies.before ⟨path.caseId case, case, path.names⟩ world
  have hdialed := htallies.dial ready
  rw [hbefore] at hready
  rw [hready] at hdialed
  rw [execute, bind_perform, hbefore]
  dsimp only
  rw [bind_perform]
  cases hdial : settings.dial ready with
  | mk answer dialed =>
      rw [hdial] at hdialed
      cases answer with
      | error error => exact hdialed
      | ok channel =>
          refine Eq.trans ?_ hdialed
          obtain ⟨hleaves, hclose⟩ := htallies.leaves hdial
          have hkeeps := htallies.toLeaves
          refine unchanged_deferring ?_ hclose dialed
          split
          · refine unchanged_bind (unchanged_perform (hleaves.receive _ _)) fun heard => ?_
            split
            · exact unchanged_pure _
            · exact executeSteps_unchanged hkeeps hleaves (List.Subset.refl _)
          · exact executeSteps_unchanged hkeeps hleaves (List.Subset.refl _)

theorem finish_dials (htallies : settings.Tallies path tally) (result : CaseResult) :
    Unchanged (fun world => (tally world).dials) (settings.finish result) := by
  unfold finish
  refine unchanged_bind (unchanged_perform fun world => ?_) fun answer => ?_
  · rw [htallies.after]
  dsimp only
  split
  · refine unchanged_bind (unchanged_perform fun world => ?_) fun _ => ?_
    · rw [htallies.fault]
    refine unchanged_bind (unchanged_perform fun world => ?_) fun recovered => ?_
    · rw [htallies.recover]
    split
    · exact unchanged_pure _
    · exact unchanged_pure _
    · exact unchanged_pure _
  · exact unchanged_pure _

theorem pause_tally (htallies : settings.Tallies path tally) (milliseconds : Int)
    (world : ω) : tally (settings.pause milliseconds world) = tally world := by
  unfold pause
  split
  · exact htallies.sleep milliseconds world
  · rfl

end Settings

end MoonBoofuzz
