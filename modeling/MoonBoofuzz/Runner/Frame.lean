import MoonBoofuzz.Runner.Steps

namespace MoonBoofuzz

/-! What the requests of a case leave alone. -/

variable {ω β : Type}

/-- The operations of a channel that the requests use leave something alone. -/
structure Channel.Leaves (channel : Channel ω) (observe : ω → β) : Prop where
  send : ∀ bytes world, observe (channel.send bytes world).2 = observe world
  receive : ∀ size timeout world,
    observe (channel.receive size timeout world).2 = observe world

structure Settings.Leaves (settings : Settings ω) (path : SessionPath (EdgeCallback ω))
    (observe : ω → β) : Prop where
  check : ∀ name bytes world,
    observe (settings.monitor.check name bytes world).2 = observe world
  clock : ∀ world, observe (settings.clock.monotonicMs world).2 = observe world
  transition : ∀ {callback : EdgeCallback ω}, some callback ∈ path.transitions →
    ∀ context world, observe (callback context world).2 = observe world

open Act

section

variable {channel : Channel ω} {clock : Clock ω} {observe : ω → β}
  (hreceive : ∀ size timeout world,
    observe (channel.receive size timeout world).2 = observe world)

include hreceive

theorem readLoop_unchanged
    (hclock : ∀ world, observe (clock.monotonicMs world).2 = observe world)
    (policy : ReadPolicy) (deadline limit : Int) :
    ∀ (fuel : Nat) (pending : Bytes),
      Unchanged observe (readLoop channel clock policy deadline limit fuel pending) := by
  intro fuel
  induction fuel with
  | zero => exact fun _ => unchanged_ofEval _
  | succ fuel ih =>
      intro pending
      unfold readLoop
      split
      · exact unchanged_pure _
      · split
        · refine unchanged_bind (unchanged_perform hclock) fun now => ?_
          dsimp only
          split
          · refine unchanged_bind (unchanged_perform (hreceive _ _)) fun answer => ?_
            split
            · exact unchanged_pure _
            · exact unchanged_pure _
            · split
              · exact unchanged_pure _
              · exact ih _
          · exact unchanged_pure _
        · exact unchanged_pure _

theorem readResponse_unchanged
    (hclock : ∀ world, observe (clock.monotonicMs world).2 = observe world)
    (policy : ReadPolicy) (pending : Bytes) (limit timeout : Int) (fuel : Nat) :
    Unchanged observe (readResponse channel clock policy pending limit timeout fuel) := by
  unfold readResponse
  split
  · exact unchanged_pure _
  · refine unchanged_bind (unchanged_perform hclock) fun _ => ?_
    refine unchanged_bind (unchanged_perform (hreceive _ _)) fun answer => ?_
    split
    · exact unchanged_pure _
    · exact unchanged_pure _
    · exact unchanged_pure _
  · refine unchanged_bind (unchanged_perform hclock) fun now => ?_
    exact readLoop_unchanged hreceive hclock _ _ _ _ _

end

namespace Settings

variable {settings : Settings ω} {channel : Channel ω}
  {path : SessionPath (EdgeCallback ω)} {case : MutationCase} {fuel : Nat}
  {observe : ω → β}

section

variable (hkeeps : settings.Leaves path observe)

include hkeeps

theorem receiveStage_unchanged (hreceive : ∀ size timeout world,
      observe (channel.receive size timeout world).2 = observe world)
    (policy : ReadPolicy) (fuzzNode : Bool) (pending : Bytes) :
    Unchanged observe (settings.receiveStage channel policy fuzzNode pending fuel) := by
  unfold receiveStage
  split
  · split
    · refine unchanged_bind (unchanged_perform (hreceive _ _)) fun answer => ?_
      split
      · exact unchanged_pure _
      · exact unchanged_pure _
      · exact unchanged_pure _
    · exact unchanged_pure _
  · refine unchanged_bind (readResponse_unchanged hreceive hkeeps.clock _ _ _ _ _)
      fun response => ?_
    split
    · exact unchanged_pure _
    · exact unchanged_pure _
    · exact unchanged_pure _

theorem executeStep_unchanged (hleaves : channel.Leaves observe) {index : Nat}
    {request : CompiledRequest}
    {transition : Option (EdgeCallback ω)} {fuzzNode : Bool} {exchange : Exchange}
    (htransition : ∀ callback, transition = some callback →
      some callback ∈ path.transitions) :
    Unchanged observe (settings.executeStep channel path case index request transition fuzzNode
      exchange fuel) := by
  unfold executeStep
  have hbytes : ∀ parts, Unchanged observe (stepBytes request transition parts exchange fuel) := by
    intro parts
    unfold stepBytes
    cases transition with
    | none =>
        refine unchanged_bind (unchanged_pure (none, exchange.vars)) fun answer => ?_
        refine unchanged_bind (unchanged_ofEval _) fun rendered => ?_
        split
        · exact unchanged_pure _
        · exact unchanged_pure _
    | some callback =>
        refine unchanged_bind
          (unchanged_perform (hkeeps.transition (htransition callback rfl) _)) fun answer => ?_
        refine unchanged_bind (unchanged_ofEval _) fun rendered => ?_
        split
        · exact unchanged_pure _
        · exact unchanged_pure _
  refine unchanged_bind (hbytes _) fun answer => ?_
  refine unchanged_bind (unchanged_perform (hleaves.send _)) fun sent => ?_
  split
  · exact unchanged_bind (unchanged_perform fun _ => rfl) fun _ => unchanged_pure _
  · refine unchanged_bind (receiveStage_unchanged hkeeps hleaves.receive _ _ _) fun response => ?_
    dsimp only
    split
    · exact unchanged_pure _
    · refine unchanged_bind (unchanged_perform (hkeeps.check _ _)) fun accepted => ?_
      split
      · exact unchanged_pure _
      · exact unchanged_pure _
      · exact unchanged_pure _

theorem executeSteps_unchanged (hleaves : channel.Leaves observe) :
    ∀ {rest : List CompiledRequest} {index : Nat}
    {left : List (Option (EdgeCallback ω))} {exchange : Exchange},
    left ⊆ path.transitions →
    Unchanged observe (settings.executeSteps channel path case fuel index rest left exchange) := by
  intro rest
  induction rest with
  | nil => exact fun _ => unchanged_pure _
  | cons request rest ih =>
      intro index left exchange hleft
      rw [executeSteps]
      refine unchanged_bind (executeStep_unchanged hkeeps hleaves (mem_of_head hleft))
        fun answer => ?_
      split
      · exact unchanged_pure _
      · exact ih (List.Subset.trans (List.tail_subset left) hleft)

end

end Settings

end MoonBoofuzz
