import MoonBoofuzz.Runner.Window

namespace MoonBoofuzz

namespace Runner

open CaseStream ProtocolDefinition

variable {ω : Type}

section

variable {vars : Option Vars} {segments : List (SessionPath (EdgeCallback ω) × List Parts)}

theorem slotsAhead_ignores
    (hignores : ∀ segment ∈ segments, segment.1.target.Ignores vars) :
    ∀ {base skip : Nat},
      slotsAhead vars base skip segments = slotsAhead none base skip segments := by
  induction segments with
  | nil => exact rfl
  | cons segment rest ih =>
      intro base skip
      obtain ⟨hfirst, hrest⟩ := List.forall_mem_cons.mp hignores
      obtain ⟨path, raw⟩ := segment
      rw [slotsAhead, slotsAhead, ih hrest, SessionPath.slots, SessionPath.slots,
        hfirst.slotsFrom]

end

theorem counted_of_total {mode : CompiledRequest.Mode}
    {segments : List (SessionPath (EdgeCallback ω) × List Parts)} :
    ∀ {skip : Int}, (∀ segment ∈ segments, segment.1.target.Enumerates mode segment.2) →
      total segments < 2147483647 → Counted mode skip segments := by
  induction segments with
  | nil => exact fun _ _ => trivial
  | cons segment rest ih =>
      intro skip henumerates htotal
      obtain ⟨hfirst, hrest⟩ := List.forall_mem_cons.mp henumerates
      obtain ⟨path, raw⟩ := segment
      rw [total_cons] at htotal
      refine ⟨fun hmode hle => ?_, ih hrest (by omega)⟩
      have hsequential : path.target.Enumerates .sequential raw := hmode ▸ hfirst
      rwa [hsequential.rawMutationCount (by omega)] at hle

noncomputable def slotsOf (mode : CompiledRequest.Mode)
    (paths : List (SessionPath (EdgeCallback ω))) : List (Slot (Text × Int)) :=
  pairsAhead (slotsAhead none 0 0 (candidatesOf mode paths))

section

variable {paths : List (SessionPath (EdgeCallback ω))} {settings : Settings ω}
  {runner : Runner ω}

theorem slotsOf_numbered (mode : CompiledRequest.Mode) (start : Nat) :
    Slot.Numbered Prod.snd start ((slotsOf mode paths).drop start) := by
  have hnumbered := (@pairsAhead_numbered ω none (candidatesOf mode paths) 0).drop start
  rwa [Nat.zero_add] at hnumbered

theorem candidatesOf_enumerates (mode : CompiledRequest.Mode) :
    ∀ segment ∈ candidatesOf mode paths, segment.1.target.Enumerates mode segment.2 := by
  intro segment hmem
  obtain ⟨path, -, rfl⟩ := List.mem_map.mp hmem
  exact path.target.candidates_drains mode

theorem withDialer_marches (hnew : withDialer paths settings = .ok runner)
    (hignores : ∀ path ∈ paths, path.target.Ignores settings.vars)
    (htotal : total (candidatesOf settings.mode paths) < 2147483647)
    (hstart : 0 ≤ settings.start.toInt) :
    Marches runner settings.start.toInt.toNat
      ((slotsOf settings.mode paths).drop settings.start.toInt.toNat) := by
  have hcounted := @counted_of_total ω _ _ settings.start.toInt
    (candidatesOf_enumerates settings.mode) htotal
  obtain ⟨hfollows, hample⟩ := withDialer_follows hnew hstart hcounted
  have hsettings : runner.settings = settings := by rw [withDialer_eq_ok hnew]
  have htargets : ∀ segment ∈ candidatesOf settings.mode paths,
      segment.1.target.Ignores settings.vars := by
    intro segment hmem
    obtain ⟨path, hpath, rfl⟩ := List.mem_map.mp hmem
    exact hignores path hpath
  exact {
    running := hfollows.running
    level := by
      rw [withDialer_eq_ok hnew]
      refine ⟨rfl, fun index stream hstream => ?_⟩
      rw [List.getD_eq_getElem?_getD, List.getElem?_map] at hstream
      cases hpath : paths[index]? <;> rw [hpath] at hstream <;> cases hstream
    ample := hample
    tracks := by
      refine ⟨0, _, _, hfollows.tracks, Nat.zero_add _, ?_⟩
      rw [viewOf, hsettings, pairsAhead_drop, slotsAhead_ignores htargets, slotsOf]
    numbered := slotsOf_numbered settings.mode _
    small := by
      intro hne
      have hpositive := List.length_pos_of_ne_nil hne
      rw [List.length_drop, slotsOf, length_pairsAhead] at hpositive ⊢
      omega }

end

/-- The results of a run in which no case fails and that comes to its end before the limit. -/
inductive Completes (paths : List (SessionPath (EdgeCallback ω))) (settings : Settings ω) :
    List CaseResult → Prop
  | run {runner last stopped : Runner ω} {world middle after : ω} {results : List CaseResult}
      {fuel : Nat} (hnew : withDialer paths settings = .ok runner)
      (hruns : Runs (fun _ => True) runner world results last middle)
      (hpassed : ∀ result ∈ results, isFailure result.outcome = false)
      (hrunning : last.state = .running)
      (hnext : last.next fuel middle = (.done none, stopped, after))
      (hlimit : (results.length : Int) < settings.limit.toInt) :
      Completes paths settings results

def callAll (fuel : Nat) : Nat → Runner ω → ω → Option (List CaseResult × Runner ω × ω)
  | 0, _, _ => none
  | loops + 1, runner, world =>
      match runner.next fuel world with
      | (.done none, _, _) => some ([], runner, world)
      | (.done (some result), last, after) =>
          (callAll fuel loops last after).map fun called => (result :: called.1, called.2)
      | _ => none

theorem callAll_runs {fuel : Nat} {last : Runner ω} {after : ω} :
    ∀ {loops : Nat} {runner : Runner ω} {world : ω} {results : List CaseResult},
      callAll fuel loops runner world = some (results, last, after) →
      Runs (fun _ => True) runner world results last after ∧
        ∃ stopped left, last.next fuel after = (.done none, stopped, left) := by
  intro loops
  induction loops with
  | zero =>
      intro runner world results hcalls
      cases hcalls
  | succ loops ih =>
      intro runner world results hcalls
      rw [callAll] at hcalls
      split at hcalls
      · rename_i stopped left hnext
        cases hcalls
        exact ⟨.nil _ _, stopped, left, hnext⟩
      · rename_i result middle between hnext
        obtain ⟨⟨more, rest⟩, hrest, hsame⟩ := Option.map_eq_some_iff.mp hcalls
        cases hsame
        obtain ⟨hruns, hends⟩ := ih hrest
        exact ⟨.cons hnext trivial hruns, hends⟩
      · cases hcalls

def pairedSettings (start : Int32) (last : Option Int32) : Settings (List Call) :=
  { acceptingSettings start with
    limit := 5
    endIndex := last
    vars := some [(Text.ofAscii "token", [0x31])] }

theorem paired_completes {start : Int32} {last : Option Int32} {results : List CaseResult}
    (hresults : (callAll 20 5 { freshRunner [Settings.linerPath] start with
      settings := pairedSettings start last } []).map (fun called => (called.1, called.2.1.state)) =
        some (results, .running))
    (hpassed : ∀ result ∈ results, isFailure result.outcome = false)
    (hlimit : results.length < 5) :
    Completes [Settings.linerPath] (pairedSettings start last) results := by
  obtain ⟨⟨found, middle, between⟩, hcalls, hsame⟩ := Option.map_eq_some_iff.mp hresults
  obtain ⟨rfl, hrunning⟩ := Prod.mk.inj hsame
  obtain ⟨hruns, stopped, left, hnext⟩ := callAll_runs hcalls
  have hfive : (pairedSettings start last).limit.toInt = 5 := rfl
  refine .run ?_ hruns hpassed hrunning hnext (by omega)
  rfl

theorem pairedRequest_length :
    total (candidatesOf .sequential [Settings.linerPath]) < 2147483647 := by
  have hraw : CompiledRequest.pairedRequest.candidates .sequential =
      CompiledRequest.denote CompiledRequest.pairedRequest CompiledRequest.pairedRequest.seq :=
    (CompiledRequest.pairedRequest.candidates_drains .sequential).unique
      CompiledRequest.pairedRequest.sequentialCursor_drains
  have hlength : (CompiledRequest.denote CompiledRequest.pairedRequest
      CompiledRequest.pairedRequest.seq).length = 3 := by decide +kernel
  rw [candidatesOf, List.map_singleton, total, List.map_singleton, List.sum_singleton]
  change (CompiledRequest.pairedRequest.candidates .sequential).length < 2147483647
  rw [hraw, hlength]
  decide

def pairedResults : List CaseResult :=
  [acceptedResult (acceptedCase "r.a" 0 0 [0x32, 0x34]),
   acceptedResult (acceptedCase "r.a" 1 1 [0x33, 0x34]),
   acceptedResult (acceptedCase "r.b" 0 2 [0x31, 0x35])]

theorem paired_runs : ∃ runner last world after,
    withDialer [Settings.linerPath] (pairedSettings 0 none) = .ok runner ∧
      Runs (fun _ => True) runner world pairedResults last after := by
  have hcompletes : Completes [Settings.linerPath] (pairedSettings 0 none) pairedResults :=
    paired_completes (by decide +kernel) (by decide) (by decide)
  cases hcompletes with
  | run hnew hruns => exact ⟨_, _, _, _, hnew, hruns⟩

theorem pairedRequest_static :
    ∀ request ∈ [CompiledRequest.pairedRequest], request.Static :=
  List.forall_mem_singleton.mpr (CompiledRequest.static_of_entries (by decide))

theorem pairedRequest_ignores (vars : Option Vars) :
    ∀ path ∈ [Settings.linerPath], path.target.Ignores vars := by
  intro path hmem
  obtain rfl := List.mem_singleton.mp hmem
  exact (pairedRequest_static _ (List.mem_singleton_self _)).ignores vars

def beforeEnd (last : Option Int32) (ordinal : Int) : Bool :=
  last.all fun final => decide (ordinal < final.toInt)

/-- The cases that are due: those before the end, as many as the limit lets through. -/
def due (settings : Settings ω) (cases : List GeneratedCase) : List (Text × Int) :=
  ((cases.map GeneratedCase.pair).filter fun pair =>
    beforeEnd settings.endIndex pair.2).take settings.limit.toInt.toNat

theorem kept_window {last : Option Int32} {position : Nat} {slots : List (Slot (Text × Int))}
    (hnumbered : Slot.Numbered Prod.snd position slots) :
    Slot.kept (window last position slots) = (Slot.kept slots).filter fun pair =>
      beforeEnd last pair.2 := by
  cases last with
  | none => simp [window, beforeEnd]
  | some last =>
      rw [window, hnumbered.kept_take]
      refine List.filter_congr fun pair hmem => ?_
      have hlower := (hnumbered.kept_bounds hmem).1
      rw [beforeEnd, Option.all_some, decide_eq_decide]
      omega

section

variable {definition : ProtocolDefinition (EdgeCallback ω)} {settings : Settings ω}
  {runner last : Runner ω} {world after : ω} {results : List CaseResult}

/-- The cases that `generate` emits before the end begin with those of a run in which no case
fails; what is left then has not been executed. -/
theorem runs_due (hnew : withDialer definition.paths settings = .ok runner)
    (hcompiles : ∀ path ∈ definition.paths, ∀ request ∈ path.requests, request.Compiles)
    (hignores : ∀ path ∈ definition.paths, path.target.Ignores settings.vars)
    (htotal : total (candidatesOf settings.mode definition.paths) < 2147483647)
    (hstart : 0 ≤ settings.start.toInt)
    (hruns : Runs (fun _ => True) runner world results last after)
    (hpassed : ∀ result ∈ results, isFailure result.outcome = false) :
    ∃ cases rest, definition.Generates settings.mode settings.start cases ∧
      ((cases.map GeneratedCase.pair).filter fun pair => beforeEnd settings.endIndex pair.2) =
        results.map CaseResult.pair ++ Slot.kept rest ∧
      results.length ≤ settings.limit.toInt.toNat ∧
      (last.state = .running → ∀ fuel world stopped after,
        last.next fuel world = (.done none, stopped, after) →
          settings.limit.toInt.toNat = results.length ∨ Slot.Passed rest) := by
  have hsegments : Segments settings.mode (candidatesOf settings.mode definition.paths) := by
    intro segment hmem
    refine ⟨candidatesOf_enumerates settings.mode segment hmem, ?_⟩
    obtain ⟨path, hpath, rfl⟩ := List.mem_map.mp hmem
    exact SessionPath.prefixes_returns (hcompiles path hpath)
  have hpaths : (candidatesOf settings.mode definition.paths).map Prod.fst = definition.paths := by
    rw [candidatesOf, List.map_map]
    exact List.map_id _
  obtain ⟨cases, hgenerates, hpairs⟩ := generates_slots hsegments hpaths htotal hstart
  have hmarches := withDialer_marches hnew hignores htotal hstart
  have hsettings : runner.settings = settings := by rw [withDialer_eq_ok hnew]
  have hexecuted : runner.executed = 0 := by rw [withDialer_eq_ok hnew]
  obtain ⟨⟨rest, htakes, hends⟩, hlimit⟩ := hmarches.runs hruns hpassed
  rw [hsettings, hexecuted] at hends hlimit
  rw [hsettings] at htakes
  have hkept := htakes.kept
  rw [kept_window hmarches.numbered, slotsOf, ← pairsAhead_drop, ← hpairs] at hkept
  have hcount : results.length ≤ settings.limit.toInt.toNat := by
    rcases hlimit with rfl | hlimit
    · exact Nat.zero_le _
    · omega
  refine ⟨cases, rest, hgenerates, hkept, hcount, fun hstate fuel world stopped after hnext => ?_⟩
  refine (hends hstate fuel world stopped after hnext).imp_left fun hfull => ?_
  omega

/-- A run in which no case fails executes cases that `generate` emits from the start offset on,
before the end and within the limit, in their order; and all of them when it has come to its
end. -/
theorem executes_generated (hnew : withDialer definition.paths settings = .ok runner)
    (hcompiles : ∀ path ∈ definition.paths, ∀ request ∈ path.requests, request.Compiles)
    (hignores : ∀ path ∈ definition.paths, path.target.Ignores settings.vars)
    (htotal : total (candidatesOf settings.mode definition.paths) < 2147483647)
    (hstart : 0 ≤ settings.start.toInt)
    (hruns : Runs (fun _ => True) runner world results last after)
    (hpassed : ∀ result ∈ results, isFailure result.outcome = false) :
    ∃ cases, definition.Generates settings.mode settings.start cases ∧
      results.map CaseResult.pair <+: due settings cases ∧
      (last.state = .running → ∀ fuel world stopped after,
        last.next fuel world = (.done none, stopped, after) →
          results.map CaseResult.pair = due settings cases) := by
  obtain ⟨cases, rest, hgenerates, hkept, hcount, hends⟩ :=
    runs_due hnew hcompiles hignores htotal hstart hruns hpassed
  have hlength : (results.map CaseResult.pair).length ≤ settings.limit.toInt.toNat := by
    rwa [List.length_map]
  refine ⟨cases, hgenerates, ?_, fun hstate fuel world stopped after hnext => ?_⟩
  · rw [due, hkept, List.take_append, List.take_of_length_le hlength]
    exact List.prefix_append _ _
  · rw [due, hkept]
    rcases hends hstate fuel world stopped after hnext with hfull | hdone
    · have hsame : settings.limit.toInt.toNat = (results.map CaseResult.pair).length := by
        rw [hfull, List.length_map]
      rw [hsame, List.take_left]
    · rw [hdone.kept, List.append_nil, List.take_of_length_le hlength]

theorem executes_generated_paired :
    ∃ cases, ProtocolDefinition.Generates
        ⟨[CompiledRequest.pairedRequest], [Settings.linerPath]⟩ .sequential 0 cases ∧
      pairedResults.map CaseResult.pair <+: due (pairedSettings 0 none) cases := by
  let definition : ProtocolDefinition (EdgeCallback (List Call)) :=
    ⟨[CompiledRequest.pairedRequest], [Settings.linerPath]⟩
  obtain ⟨runner, last, world, middle, hnew, hruns⟩ := paired_runs
  have hcompiles : ∀ path ∈ definition.paths, ∀ request ∈ path.requests,
      request.Compiles := by
    intro path hpath request hrequest
    obtain rfl := List.mem_singleton.mp hpath
    obtain rfl := List.mem_singleton.mp hrequest
    exact ⟨_, _, 4, CompiledRequest.pairedRoot_compiles⟩
  obtain ⟨cases, hgenerates, hprefix, -⟩ := executes_generated hnew hcompiles
    (pairedRequest_ignores _) pairedRequest_length (by decide) hruns (by decide)
  exact ⟨cases, hgenerates, hprefix⟩

theorem Completes.window {paths : List (SessionPath (EdgeCallback ω))}
    (hcompletes : Completes paths settings results)
    (hignores : ∀ path ∈ paths, path.target.Ignores settings.vars)
    (htotal : total (candidatesOf settings.mode paths) < 2147483647)
    (hstart : 0 ≤ settings.start.toInt) :
    ∃ slots, slots = Runner.window settings.endIndex settings.start.toInt.toNat
        ((slotsOf settings.mode paths).drop settings.start.toInt.toNat) ∧
      Slot.Clear slots ∧ Slot.kept slots = results.map CaseResult.pair := by
  cases hcompletes with
  | @run runner last stopped world middle after results fuel hnew hruns hpassed hrunning hnext
      hlimit =>
      have hmarches := withDialer_marches hnew hignores htotal hstart
      have hsettings : runner.settings = settings := by rw [withDialer_eq_ok hnew]
      have hexecuted : runner.executed = 0 := by rw [withDialer_eq_ok hnew]
      obtain ⟨⟨rest, htakes, hends⟩, -⟩ := hmarches.runs hruns hpassed
      rw [hsettings, hexecuted] at hends
      rw [hsettings] at htakes
      have hdone : Slot.Passed rest := by
        refine (hends hrunning fuel middle stopped after hnext).resolve_left ?_
        omega
      refine ⟨_, rfl, htakes.clear hdone.clear, ?_⟩
      rw [htakes.kept, hdone.kept, List.append_nil]

theorem window_split {α : Type} {slots : List (Slot α)} {start middle : Nat} {between : Int32}
    {last : Option Int32} (hbetween : between.toInt = middle) (hle : start ≤ middle)
    (hlast : ∀ final ∈ last, between.toInt ≤ final.toInt) :
    window last start (slots.drop start) =
      window (some between) start (slots.drop start) ++ window last middle (slots.drop middle) := by
  have hsize : (between.toInt - start).toNat = middle - start := by omega
  have hdrop : slots.drop middle = (slots.drop start).drop (middle - start) := by
    rw [List.drop_drop, Nat.add_sub_cancel' hle]
  rw [hdrop]
  cases last with
  | none => rw [window, window, window, hsize, List.take_append_drop]
  | some last =>
      have hbound := hlast last rfl
      have hwhole : (last.toInt - start).toNat =
          (middle - start) + (last.toInt - middle).toNat := by omega
      rw [window, window, window, hsize, hwhole, List.take_add]

end

section

variable {paths : List (SessionPath (EdgeCallback ω))} {first second whole : Settings ω}
  {firstResults secondResults wholeResults : List CaseResult}

/-- A run up to an ordinal and a run from there on execute, together and in this order, the cases
of one run over both, each of them once. -/
theorem resumes_exactly (hfirst : Completes paths first firstResults)
    (hsecond : Completes paths second secondResults)
    (hwhole : Completes paths whole wholeResults)
    (hmode : first.mode = whole.mode ∧ second.mode = whole.mode)
    (hignores : ∀ path ∈ paths, path.target.Ignores first.vars ∧
      path.target.Ignores second.vars ∧ path.target.Ignores whole.vars)
    (htotal : total (candidatesOf whole.mode paths) < 2147483647)
    (hstart : 0 ≤ whole.start.toInt) (hsame : first.start = whole.start)
    (hbetween : first.endIndex = some second.start)
    (hle : whole.start.toInt ≤ second.start.toInt)
    (hlast : second.endIndex = whole.endIndex)
    (hbound : ∀ final ∈ whole.endIndex, second.start.toInt ≤ final.toInt) :
    firstResults.map CaseResult.pair ++ secondResults.map CaseResult.pair =
        wholeResults.map CaseResult.pair ∧
      (wholeResults.map CaseResult.pair).Pairwise fun left right => left.2 < right.2 := by
  obtain ⟨slots, hslots, hclear, hkept⟩ := hfirst.window (fun path h => (hignores path h).1)
    (hmode.1 ▸ htotal) (hsame ▸ hstart)
  obtain ⟨slots', hslots', -, hkept'⟩ := hsecond.window (fun path h => (hignores path h).2.1)
    (hmode.2 ▸ htotal) (by omega)
  obtain ⟨slots'', hslots'', -, hkept''⟩ := hwhole.window (fun path h => (hignores path h).2.2)
    htotal hstart
  have hsplit := @window_split _ (slotsOf whole.mode paths) whole.start.toInt.toNat
    second.start.toInt.toNat second.start whole.endIndex (by omega) (by omega) hbound
  rw [hmode.1, hsame, hbetween] at hslots
  rw [hmode.2, hlast] at hslots'
  rw [← hslots, ← hslots', ← hslots''] at hsplit
  constructor
  · rw [← hkept, ← hkept', ← hkept'', hsplit, Slot.kept_append hclear]
  · rw [← hkept'', hslots'', kept_window (slotsOf_numbered whole.mode _)]
    exact (slotsOf_numbered whole.mode _).kept_increasing.filter _

end

theorem resumes_exactly_paired :
    (pairedResults.take 1).map CaseResult.pair ++ (pairedResults.drop 1).map CaseResult.pair =
        pairedResults.map CaseResult.pair ∧
      (pairedResults.map CaseResult.pair).Pairwise fun left right => left.2 < right.2 := by
  have hfirst : Completes [Settings.linerPath] (pairedSettings 0 (some 1))
      (pairedResults.take 1) :=
    paired_completes (by decide +kernel) (by decide) (by decide)
  have hsecond : Completes [Settings.linerPath] (pairedSettings 1 none)
      (pairedResults.drop 1) :=
    paired_completes (by decide +kernel) (by decide) (by decide)
  have hwhole : Completes [Settings.linerPath] (pairedSettings 0 none) pairedResults :=
    paired_completes (by decide +kernel) (by decide) (by decide)
  exact resumes_exactly hfirst hsecond hwhole ⟨rfl, rfl⟩
    (fun path hpath => ⟨pairedRequest_ignores _ path hpath, pairedRequest_ignores _ path hpath,
      pairedRequest_ignores _ path hpath⟩) pairedRequest_length
    (by decide) rfl rfl (by decide) rfl (fun final hfinal => by cases hfinal)

end Runner

end MoonBoofuzz
