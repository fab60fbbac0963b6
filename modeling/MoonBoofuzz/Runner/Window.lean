import MoonBoofuzz.Mutation.Static
import MoonBoofuzz.Runner.Thresholds

namespace MoonBoofuzz

def CaseResult.pair (result : CaseResult) : Text × Int :=
  (result.id, result.case.ordinal)

namespace Runner

open CaseStream ProtocolDefinition

variable {ω : Type}

section

variable {vars : Option Vars} {segments : List (SessionPath (EdgeCallback ω) × List Parts)}

theorem length_pairsAhead :
    ∀ {base : Nat}, (pairsAhead (slotsAhead vars base 0 segments)).length = total segments := by
  induction segments with
  | nil => exact rfl
  | cons segment rest ih =>
      intro base
      obtain ⟨path, raw⟩ := segment
      rw [slotsAhead, pairsAhead_cons, total_cons, List.length_append, List.length_map,
        List.drop_zero, path.length_slots, Nat.zero_sub, ih]

theorem pairsAhead_drop :
    ∀ {base skip : Nat}, pairsAhead (slotsAhead vars base skip segments) =
      (pairsAhead (slotsAhead vars base 0 segments)).drop skip := by
  induction segments with
  | nil => exact List.drop_nil.symm
  | cons segment rest ih =>
      intro base skip
      obtain ⟨path, raw⟩ := segment
      rw [slotsAhead, slotsAhead, pairsAhead_cons, pairsAhead_cons, List.drop_zero,
        Nat.zero_sub, ih, List.drop_append, List.length_map, path.length_slots, List.map_drop]

theorem pairsAhead_numbered :
    ∀ {base : Nat},
      Slot.Numbered Prod.snd base (pairsAhead (slotsAhead vars base 0 segments)) := by
  induction segments with
  | nil =>
      intro base i value hat
      cases hat
  | cons segment rest ih =>
      intro base i value hat
      obtain ⟨path, raw⟩ := segment
      rw [slotsAhead, pairsAhead_cons, List.drop_zero, Nat.zero_sub, List.getElem?_append] at hat
      rw [List.length_map, path.length_slots] at hat
      split at hat
      · rw [List.getElem?_map, Option.map_eq_some_iff] at hat
        obtain ⟨slot, hslot, hvalue⟩ := hat
        cases slot with
        | stuck => cases hvalue
        | pass => cases hvalue
        | keep case =>
            cases hvalue
            exact path.slots_numbered vars base raw i case hslot
      · rename_i hlarge
        rw [ih (i - raw.length) value hat]
        omega

end

theorem Finds.pairs {view view' : View ω} {moved : Nat} {path : SessionPath (EdgeCallback ω)}
    {case : MutationCase} (hfinds : Finds view moved path case view') :
    ∃ count, Slot.ahead (pairsAhead view) = some (some (path.pair case), count) ∧
      pairsAhead view' = (pairsAhead view).drop count := by
  induction hfinds with
  | @here path slots rest case count hahead =>
      have hmapped : Slot.ahead (slots.map (Slot.map path.pair)) =
          some (some (path.pair case), count) := by rw [Slot.ahead_map, hahead]; rfl
      refine ⟨count, ?_, ?_⟩
      · rw [pairsAhead_cons]
        exact Slot.ahead_append_some hmapped _
      · have hle := (Slot.ahead_some hahead).2.1
        rw [pairsAhead_cons, pairsAhead_cons, List.drop_append_of_le_length, List.map_drop]
        rwa [List.length_map]
  | @past path path' slots rest view case count moved hahead _ ih =>
      obtain ⟨count', hrest, hview⟩ := ih
      have hpassed := (Slot.passed_of_ahead hahead).map path.pair
      refine ⟨count' + slots.length, ?_, ?_⟩
      · rw [pairsAhead_cons, Slot.ahead_append hpassed, hrest, List.length_map]
        rfl
      · have hnil : (slots.map (Slot.map path.pair)).drop (count' + slots.length) = [] :=
          List.drop_eq_nil_of_le (by rw [List.length_map]; omega)
        rw [pairsAhead_cons, hview, List.drop_append, hnil, List.length_map,
          Nat.add_sub_cancel, List.nil_append]

/-- The positions before an optional end, the first of them at a position. -/
def window {α : Type} (last : Option Int32) (position : Nat) (slots : List (Slot α)) :
    List (Slot α) :=
  match last with
  | none => slots
  | some last => slots.take (last.toInt - position).toNat

section

variable {α : Type} {last : Option Int32} {position : Nat} {slots : List (Slot α)}

theorem window_drop (count : Nat) :
    (window last position slots).drop count =
      window last (position + count) (slots.drop count) := by
  cases last with
  | none => rfl
  | some last =>
      rw [window, window, List.drop_take]
      congr 1
      omega

theorem ahead_window {value : α} {count : Nat}
    (hahead : Slot.ahead slots = some (some value, count))
    (hwithin : ∀ final ∈ last, (position : Int) + count ≤ final.toInt) :
    Slot.ahead (window last position slots) = some (some value, count) := by
  cases last with
  | none => exact hahead
  | some last =>
      have hle := hwithin last rfl
      exact Slot.ahead_take hahead (by omega)

theorem passed_window {value : α} {count : Nat} {final : Int32}
    (hahead : Slot.ahead slots = some (some value, count)) (hlast : last = some final)
    (hbeyond : final.toInt < (position : Int) + count) :
    Slot.Passed (window last position slots) := by
  have hpositive := (Slot.ahead_some hahead).1
  have hle : (final.toInt - position).toNat ≤ count - 1 := by omega
  have hbefore := (Slot.passed_before hahead).take (final.toInt - position).toNat
  rw [List.take_take, min_eq_left hle] at hbefore
  rwa [hlast]

end

/-- A stream has given no more cases than positions. -/
def Slow (stream : CaseStream) : Prop := stream.emitted ≤ stream.ordinal

theorem slow_of_emits {stream after : CaseStream} {answer : Answer}
    (hemits : Emits stream answer after) (hslow : Slow stream) : Slow after := by
  induction hemits with
  | oversized _ _ _ _ ih => exact ih (Nat.le_succ_of_le hslow)
  | built _ _ _ => exact Nat.succ_le_succ hslow
  | _ => exact hslow

theorem running_of_emits {stream after : CaseStream} {answer : Answer} {case : MutationCase}
    (hemits : Emits stream answer after) (hanswer : answer = .done (some case))
    (hrunning : stream.state = .running) : after.state = .running := by
  induction hemits with
  | oversized _ _ _ _ ih => exact ih hanswer hrunning
  | built _ _ _ => exact hrunning
  | _ => cases hanswer

theorem slow_of_answers {stream after : CaseStream} {answer : Answer}
    (hanswers : Answers stream answer after) (hslow : Slow stream) : Slow after := by
  by_cases hrunning : stream.state = .running
  · obtain ⟨left, cursor, -, hproceeds⟩ := (answers_running hrunning).mp hanswers
    cases hproceeds with
    | ended _ => exact hslow
    | limited _ _ => exact hslow
    | emits _ _ hemits => exact slow_of_emits hemits hslow
  · obtain ⟨-, rfl⟩ := (answers_idle hrunning).mp hanswers
    exact hslow

theorem running_of_answers {stream after : CaseStream} {case : MutationCase}
    (hanswers : Answers stream (.done (some case)) after) : after.state = .running := by
  by_cases hrunning : stream.state = .running
  · obtain ⟨left, cursor, -, hproceeds⟩ := (answers_running hrunning).mp hanswers
    cases hproceeds with
    | emits _ _ hemits => exact running_of_emits hemits rfl hrunning
  · obtain ⟨hnone, -⟩ := (answers_idle hrunning).mp hanswers
    cases hnone

/-- No case is held back, and every stream is slow. -/
structure Level (runner : Runner ω) : Prop where
  pending : runner.pending = none
  slow : ∀ index stream, runner.streams.getD index none = some stream → Slow stream

theorem Level.congr {runner after : Runner ω} (hlevel : Level runner)
    (hpending : after.pending = runner.pending) (hstreams : after.streams = runner.streams) :
    Level after :=
  ⟨hpending.trans hlevel.pending, hstreams ▸ hlevel.slow⟩

theorem Level.setStream {runner : Runner ω} {stream : CaseStream} (hlevel : Level runner)
    (hslow : Slow stream) : Level (runner.setStream stream) where
  pending := hlevel.pending
  slow := by
    intro index other hother
    rw [Runner.setStream, List.getD_eq_getElem?_getD, List.getElem?_set] at hother
    split at hother
    · split at hother
      · cases hother
        exact hslow
      · cases hother
    · exact hlevel.slow index other (by rwa [List.getD_eq_getElem?_getD])

theorem Level.prepare {runner after : Runner ω} {path : SessionPath (EdgeCallback ω)}
    {ready : Bool} (hlevel : Level runner)
    (hprepare : runner.prepare path = .ok (ready, after)) : Level after := by
  rw [Runner.prepare] at hprepare
  split at hprepare
  · cases hprepare
    exact hlevel
  · split at hprepare
    · cases hprepare
      exact hlevel.congr rfl rfl
    · obtain ⟨stream, hstream, hok⟩ := exceptBind_eq_ok_iff.mp hprepare
      cases hok
      have hslow : Slow stream := by
        rw [Slow, (enumerate_eq_ok hstream).2]
        exact Nat.zero_le _
      exact (hlevel.setStream hslow).congr rfl rfl

theorem Level.pull {runner after : Runner ω} {fuel : Nat} {found : Option MutationCase}
    (hlevel : Level runner) (hpull : runner.pull fuel = (.done found, after)) :
    Level after ∧ (found.isSome = true →
      ∃ stream, after.stream = some stream ∧ stream.state = .running) := by
  cases hstream : runner.stream with
  | none =>
      simp only [Runner.pull, hlevel.pending, hstream, Prod.mk.injEq, Eval.done.injEq] at hpull
      obtain ⟨rfl, rfl⟩ := hpull
      exact ⟨hlevel, fun hsome => by cases hsome⟩
  | some stream =>
      obtain ⟨stream', hanswers, rfl⟩ := pull_stream hstream hlevel.pending hpull
      have hslow := slow_of_answers hanswers (hlevel.slow _ stream hstream)
      refine ⟨(hlevel.setStream hslow).congr rfl rfl, fun hsome => ?_⟩
      obtain ⟨case, rfl⟩ := Option.isSome_iff_exists.mp hsome
      exact ⟨stream', stream_setStream (stream_lt hstream) _, running_of_answers hanswers⟩

theorem Level.seekCase {fuel : Nat} {found : MutationCase} {after : Runner ω} :
    ∀ {loops : Nat} {runner : Runner ω}, Level runner →
      Runner.seekCase fuel loops runner = (.done (some found), after) →
      Level after ∧ ∃ stream, after.stream = some stream ∧ stream.state = .running := by
  intro loops
  induction loops with
  | zero =>
      intro runner _ hseek
      cases hseek
  | succ loops ih =>
      intro runner hlevel hseek
      rw [Runner.seekCase] at hseek
      split at hseek
      · cases hseek
      · split at hseek
        · cases hseek
        · split at hseek
          · cases hseek
          · split at hseek
            · cases hseek
            · rename_i hprepare
              exact ih (hlevel.prepare hprepare) hseek
            · rename_i middle hprepare
              split at hseek
              · cases hseek
              · cases hseek
              · rename_i last hpull
                have hnext : Level last.nextPath :=
                  ((hlevel.prepare hprepare).pull hpull).1.congr rfl rfl
                exact ih hnext hseek
              · rename_i case last hpull
                obtain ⟨hlast, hstream⟩ := (hlevel.prepare hprepare).pull hpull
                split at hseek
                · cases hseek
                · cases hseek
                  exact ⟨hlast, hstream rfl⟩

/-- A stream that is slow has room for more cases. -/
theorem Level.ample {runner : Runner ω} {target : CompiledRequest} {raw : List Parts}
    {offset : Nat} (hlevel : Level runner) (hopened : Opened runner target raw offset)
    (hrunning : ∃ stream, runner.stream = some stream ∧ stream.state = .running)
    (hsmall : offset < 2147483647) : runner.Ample := by
  intro stream hstream
  have hslow : stream.emitted ≤ stream.ordinal := hlevel.slow _ stream hstream
  cases hopened with
  | @reading other hother =>
      obtain rfl := Option.some.inj (hother.symm.trans hstream)
      omega
  | parked _ hpending => cases hpending.symm.trans hlevel.pending
  | spent hother _ hidle =>
      obtain ⟨present, hpresent, hgoes⟩ := hrunning
      obtain rfl := Option.some.inj (hother.symm.trans hpresent)
      exact absurd hgoes hidle

theorem window_append {α : Type} {last : Option Int32} {position : Nat}
    {first second : List (Slot α)} (hfirst : Slot.Passed first)
    (hsecond : Slot.Passed (window last (position + first.length) second)) :
    Slot.Passed (window last position (first ++ second)) := by
  cases last with
  | none => exact hfirst.append hsecond
  | some last =>
      have hsize : (last.toInt - (position + first.length : Nat)).toNat =
          (last.toInt - position).toNat - first.length := by omega
      rw [window, hsize] at hsecond
      rw [window, List.take_append]
      exact (hfirst.take _).append hsecond

theorem window_before {α : Type} {last : Option Int32} {final : Int32} {position : Nat}
    {slots : List (Slot α)} (hlast : last = some final)
    (hreached : final.toInt ≤ (position : Int)) : window last position slots = [] := by
  rw [hlast, window, Int.toNat_of_nonpos (by omega), List.take_zero]

theorem seekCase_passed {fuel : Nat} {after : Runner ω} :
    ∀ {loops : Nat} {runner : Runner ω} {base offset : Nat}
      {segments : List (SessionPath (EdgeCallback ω) × List Parts)},
      Tracks runner base offset segments → runner.Ample →
      seekCase fuel loops runner = (.done none, after) →
      runner.settings.limit.toInt ≤ runner.executed ∨
        Slot.Passed (window runner.settings.endIndex (base + offset)
          (pairsAhead (runner.viewOf base offset segments))) := by
  intro loops
  induction loops with
  | zero =>
      intro runner base offset segments _ _ hseek
      cases hseek
  | succ loops ih =>
      intro runner base offset segments htracks hample hseek
      cases segments with
      | nil =>
          refine Or.inr fun slot hmem => ?_
          cases hlast : runner.settings.endIndex with
          | none => rw [hlast] at hmem; cases hmem
          | some last =>
              rw [hlast] at hmem
              cases List.mem_of_mem_take hmem
      | cons segment rest =>
          obtain ⟨path, raw⟩ := segment
          generalize hanswer : Eval.done none = answer at hseek
          rw [viewOf, slotsAhead, pairsAhead_cons]
          cases htracks.seekCase_pass hample hseek with
          | failed hnone => exact absurd hanswer.symm (hnone _)
          | limited hlimit =>
              rcases hlimit with hend | hlimit
              · obtain ⟨last, hlast, hle⟩ := reachesEnd_iff.mp hend
                have hposition := htracks.position
                have hwrap : wrap32 ((base : Int) + offset) ≤ base + offset :=
                  wrap32_le (by omega)
                rw [window_before hlast (by omega)]
                exact Or.inr (List.forall_mem_nil _)
              · exact Or.inl hlimit
          | past hahead hcounts hstate hindex hnext hample' hresumes =>
              rw [← hanswer] at hresumes
              have hrest := ih hnext hample' hresumes
              rw [viewOf, hcounts.executed, hcounts.settings] at hrest
              refine hrest.imp_right fun hpassed => ?_
              refine window_append ((Slot.passed_of_ahead hahead).map path.pair) ?_
              have hlength : base + offset +
                  (((path.slots runner.settings.vars base raw).drop offset).map
                    (Slot.map path.pair)).length =
                  base + raw.length + (offset - raw.length) := by
                rw [List.length_map, List.length_drop, path.length_slots]
                omega
              rwa [hlength]
          | @found case middle count _ hlimit hahead hcount hcounts hstate hindex htracks'
              hopened hskip =>
              have hmapped : Slot.ahead (((path.slots runner.settings.vars base raw).drop
                  offset).map (Slot.map path.pair)) = some (some (path.pair case), count) := by
                rw [Slot.ahead_map, hahead]
                rfl
              cases hend : middle.reachesEnd (middle.position - 1) with
              | false => simp [hend] at hanswer
              | true =>
                  obtain ⟨last, hlast, hle⟩ := reachesEnd_iff.mp hend
                  have hpositive := (Slot.ahead_some hahead).1
                  have hwrap : wrap32 ((base : Int) + (offset + count : Nat) - 1) ≤
                      base + (offset + count : Nat) - 1 := wrap32_le (by omega)
                  rw [toInt_sub_one htracks'.position] at hle
                  rw [hcounts.settings] at hlast
                  exact Or.inr (passed_window (Slot.ahead_append_some hmapped _) hlast
                    (by omega))

/-- The runner goes on over the given slots, the first of them at a position. -/
structure Marches (runner : Runner ω) (position : Nat) (slots : List (Slot (Text × Int))) :
    Prop where
  running : runner.state = .running
  level : Level runner
  ample : runner.Ample
  tracks : ∃ base offset segments, Tracks runner base offset segments ∧
    base + offset = position ∧ pairsAhead (runner.viewOf base offset segments) = slots
  numbered : Slot.Numbered Prod.snd position slots
  small : slots ≠ [] → position + slots.length < 2147483647

section

variable {runner last : Runner ω} {position fuel : Nat} {slots : List (Slot (Text × Int))}
  {world after : ω} {result : CaseResult}

theorem countFailure_passed {counted : Runner ω} (hpassed : isFailure result.outcome = false)
    (hcounted : runner.countFailure fuel result = (.done (), counted)) : counted = runner := by
  rw [countFailure, if_neg (by rw [hpassed]; exact Bool.false_ne_true)] at hcounted
  cases hcounted
  rfl

structure Marched (runner last : Runner ω) (position : Nat) (slots : List (Slot (Text × Int)))
    (result : CaseResult) (count : Nat) : Prop where
  ahead : Slot.ahead slots = some (some result.pair, count)
  limit : runner.executed < runner.settings.limit.toInt
  within : ∀ final ∈ runner.settings.endIndex, (position : Int) + count ≤ final.toInt
  settings : last.settings = runner.settings
  executed : last.executed = runner.executed + 1
  marches : last.state = .running → Marches last (position + count) (slots.drop count)

theorem Marches.next (hmarches : Marches runner position slots)
    (hnext : runner.next fuel world = (.done (some result), last, after))
    (hpassed : isFailure result.outcome = false) :
    ∃ count, Marched runner last position slots result count := by
  obtain ⟨found, middle, stop, hround⟩ := next_some hnext
  obtain ⟨base, offset, segments, htracks, rfl, rfl⟩ := hmarches.tracks
  obtain ⟨moved, path, raw, base', offset', rest, case, rfl, hfinds, htook⟩ :=
    seekCase_found htracks hmarches.ample hround.seek
  obtain ⟨hlevel, hstream⟩ := hmarches.level.seekCase hround.seek
  obtain ⟨count, hahead, hview⟩ := hfinds.pairs
  obtain ⟨hpositive, hcount, -, hat, -⟩ := Slot.ahead_some hahead
  have hsettings := htook.counts.settings
  have hordinal : case.ordinal = (base + offset + (count - 1) : Nat) :=
    hmarches.numbered _ _ hat
  have hsmall := hmarches.small (List.ne_nil_of_length_pos (by omega))
  have hplace := htook.ordinal
  have hsame : base' + offset' = base + offset + count := by omega
  have hexact : middle.position.toInt = (base + offset + count : Nat) := by
    have hposition := htook.tracks.position
    rw [hposition, wrap32_eq_self (by omega) (by omega)]
    omega
  have hsound : Settings.Sound path case.recorded result := by
    obtain ⟨between, hattempt⟩ := hround.attempt
    have hpath : middle.paths.getD middle.index ⟨[], []⟩ = path := by
      rw [List.getD_eq_getElem?_getD, htook.tracks.path_lt]
      rfl
    rw [hpath] at hattempt
    exact Settings.attempt_sound _ _ _ hattempt
  have hpair : result.pair = path.pair case := by
    have hwrap : wrap32 case.ordinal = case.ordinal :=
      wrap32_eq_self (by omega) (by omega)
    rw [CaseResult.pair, hsound.id, hsound.case]
    exact Prod.ext rfl hwrap
  have hwithin : ∀ final ∈ runner.settings.endIndex,
      ((base + offset : Nat) : Int) + count ≤ final.toInt := by
    intro final hfinal
    by_contra hbeyond
    have hreaches : middle.reachesEnd (middle.position - 1) = true := by
      refine reachesEnd_iff.mpr ⟨final, hsettings ▸ hfinal, ?_⟩
      have hbefore : (middle.position - 1).toInt =
          wrap32 (((base + offset : Nat) : Int) + count - 1) :=
        toInt_sub_one (by rw [hexact, wrap32_eq_self (by omega) (by omega)]; omega)
      rw [hbefore, wrap32_eq_self (by omega) (by omega)]
      omega
    rw [htook.last] at hreaches
    cases hreaches
  obtain ⟨counted, rfl, hcounted⟩ := hround.counted
  cases stop with
  | true =>
      simp only [if_true] at hcounted
      subst hcounted
      exact ⟨count, hpair ▸ hahead, htook.limit, hwithin, hsettings,
        congrArg (· + 1) htook.counts.executed, fun hstate => by cases hstate⟩
  | false =>
      simp only [Bool.false_eq_true, if_false] at hcounted
      obtain rfl := countFailure_passed hpassed hcounted
      have hstays : SamePlace counted { counted with executed := counted.executed + 1 } :=
        ⟨rfl, rfl, rfl, rfl, rfl, rfl, rfl⟩
      refine ⟨count, hpair ▸ hahead, htook.limit, hwithin, hsettings,
        congrArg (· + 1) htook.counts.executed, fun hstate => ?_⟩
      exact {
        running := hstate
        level := hlevel.congr rfl rfl
        ample := hlevel.ample htook.opened hstream (by omega)
        tracks := ⟨base', offset', (path, raw) :: rest,
          htook.tracks.congr hstays, hsame, hview⟩
        numbered := hmarches.numbered.drop count
        small := fun _ => by
          rw [List.length_drop]
          omega }

theorem Marches.ends (hmarches : Marches runner position slots)
    (hnext : runner.next fuel world = (.done none, last, after)) :
    runner.settings.limit.toInt ≤ runner.executed ∨
      Slot.Passed (window runner.settings.endIndex position slots) := by
  obtain ⟨base, offset, segments, htracks, rfl, rfl⟩ := hmarches.tracks
  exact seekCase_passed htracks hmarches.ample (next_none hmarches.running hnext)

/-- What a run comes to in which no case fails. -/
structure Covered (runner last : Runner ω) (position : Nat) (slots : List (Slot (Text × Int)))
    (results : List CaseResult) : Prop where
  takes : ∃ rest, Slot.Takes (window runner.settings.endIndex position slots)
    (results.map CaseResult.pair) rest ∧
    (last.state = .running → ∀ fuel world stopped after,
      last.next fuel world = (.done none, stopped, after) →
        runner.settings.limit.toInt ≤ runner.executed + results.length ∨ Slot.Passed rest)
  limit : results = [] ∨ (runner.executed + results.length : Int) ≤ runner.settings.limit.toInt

theorem Marches.runs {holds : Runner ω → Prop} {results : List CaseResult}
    (hruns : Runs holds runner world results last after)
    (hpassed : ∀ result ∈ results, isFailure result.outcome = false) :
    ∀ {position : Nat} {slots : List (Slot (Text × Int))}, Marches runner position slots →
      Covered runner last position slots results := by
  induction hruns with
  | nil runner world =>
      intro position slots hmarches
      refine ⟨⟨_, .nil _, fun _ fuel world stopped after hnext => ?_⟩, Or.inl rfl⟩
      have hends := hmarches.ends hnext
      simpa using hends
  | @cons runner middle last world between after result results fuel hcall _ hrest ih =>
      intro position slots hmarches
      obtain ⟨hfirst, hlater⟩ := List.forall_mem_cons.mp hpassed
      obtain ⟨count, hmarched⟩ := hmarches.next hcall hfirst
      have hlimit := hmarched.limit
      have hahead := ahead_window hmarched.ahead hmarched.within
      by_cases hrunning : middle.state = .running
      · obtain ⟨⟨rest, htakes, hends⟩, hle⟩ := ih hlater (hmarched.marches hrunning)
        rw [hmarched.settings, ← window_drop] at htakes
        rw [hmarched.settings, hmarched.executed] at hends hle
        refine ⟨⟨rest, .cons hahead htakes, fun hstate fuel world stopped after hnext => ?_⟩,
          Or.inr ?_⟩
        · have hdone := hends hstate fuel world stopped after hnext
          rw [List.length_cons]
          refine hdone.imp_left fun hfull => ?_
          push_cast at hfull ⊢
          omega
        · rw [List.length_cons]
          rcases hle with rfl | hle
          · rw [List.length_nil]
            push_cast
            omega
          · push_cast at hle ⊢
            omega
      · obtain ⟨rfl, rfl⟩ := hrest.idle hrunning
        refine ⟨⟨_, .cons hahead (.nil _), ?_⟩, Or.inr ?_⟩
        · exact fun hstate => absurd hstate hrunning
        · rw [List.length_singleton]
          omega

end

end Runner

end MoonBoofuzz
