import MoonBoofuzz.Definition.Generate
import MoonBoofuzz.Model.Compiled
import MoonBoofuzz.Mutation.Sequential
import MoonBoofuzz.Mutation.Sweep

namespace MoonBoofuzz

/-- The raw candidates that a walker of the target gives. -/
def CompiledRequest.Enumerates (request : CompiledRequest) (mode : Mode)
    (raw : List Parts) : Prop :=
  Walker.Drains request.cursorTurn (request.initialCursor mode) raw

/-- A request as `compile` makes them. -/
def CompiledRequest.Compiles (request : CompiledRequest) : Prop :=
  ∃ root maxBytes, Eval.Returns (compile root maxBytes) request

namespace CompiledRequest

theorem Compiles.renders {request : CompiledRequest} (hcompiles : request.Compiles) :
    ∃ bytes, Eval.Returns request.render bytes := by
  obtain ⟨root, maxBytes, fuel, hdone⟩ := hcompiles
  obtain ⟨bytes, hrender⟩ := (compile_eq_done hdone).rendered
  exact ⟨bytes, fuel, hrender⟩

theorem render_mono (request : CompiledRequest) : Monotone request.render :=
  fun _ _ hle => renderNode_mono hle _

theorem Enumerates.rawMutationCount {request : CompiledRequest} {raw : List Parts}
    (henumerates : request.Enumerates .sequential raw)
    (hsmall : raw.length < 9223372036854775808) :
    request.rawMutationCount = raw.length := by
  have hequal : raw = denote request request.seq :=
    henumerates.unique request.sequentialCursor_drains
  rw [hequal] at hsmall ⊢
  exact seqCount_of_small (by omega)

end CompiledRequest

def MutationCase.shift (base : Nat) (case : MutationCase) : MutationCase :=
  { case with ordinal := base + case.ordinal }

namespace SessionPath

variable {κ : Type}

theorem prefixes_mono (path : SessionPath κ) : Monotone path.prefixes := by
  intro first second hle
  exact Eval.mapM_le_mapM _ fun request _ => request.render_mono hle

theorem prefixes_returns {path : SessionPath κ}
    (hcompiles : ∀ request ∈ path.requests, request.Compiles) :
    ∃ bytes, Eval.Returns path.prefixes bytes := by
  have hall : ∀ request ∈ path.requests.dropLast, request.Compiles :=
    fun request hmem => hcompiles request (List.mem_of_mem_dropLast hmem)
  unfold prefixes
  generalize path.requests.dropLast = requests at hall
  induction requests with
  | nil => exact ⟨[], 0, rfl⟩
  | cons request rest ih =>
      obtain ⟨hfirst, hrest⟩ := List.forall_mem_cons.mp hall
      obtain ⟨bytes, hbytes⟩ := hfirst.renders
      obtain ⟨others, hothers⟩ := ih hrest
      obtain ⟨first, hfirst'⟩ := hbytes.eventually request.render_mono
      obtain ⟨second, hsecond⟩ := hothers.eventually fun _ _ hle =>
        Eval.mapM_le_mapM rest fun other _ => other.render_mono hle
      refine ⟨bytes :: others, first + second, ?_⟩
      have hhead := hfirst' (first + second) (by omega)
      have htail := hsecond (first + second) (by omega)
      simp [List.mapM_cons, hhead, htail]

theorem prefixes_getElem {path : SessionPath κ} {prefixes : List Bytes}
    (hprefixes : Eval.Returns path.prefixes prefixes) :
    prefixes.length = path.requests.dropLast.length ∧
      ∀ (index : Nat) (request : CompiledRequest), path.requests.dropLast[index]? = some request →
        ∃ bytes, prefixes[index]? = some bytes ∧ Eval.Returns request.render bytes := by
  obtain ⟨fuel, hdone⟩ := hprefixes
  unfold SessionPath.prefixes at hdone
  generalize path.requests.dropLast = requests at hdone
  induction requests generalizing prefixes with
  | nil =>
      cases hdone
      exact ⟨rfl, fun index request hrequest => by cases hrequest⟩
  | cons first rest ih =>
      simp only [List.mapM_cons, Eval.bind_eq_done_iff, Eval.pure_eq, Eval.done.injEq] at hdone
      obtain ⟨bytes, hbytes, others, hothers, rfl⟩ := hdone
      obtain ⟨hlength, hmessages⟩ := ih hothers
      refine ⟨congrArg (· + 1) hlength, fun index request hrequest => ?_⟩
      cases index with
      | zero =>
          cases hrequest
          exact ⟨bytes, rfl, fuel, hbytes⟩
      | succ index => exact hmessages index request hrequest

def pair (path : SessionPath κ) (case : MutationCase) : Text × Int :=
  (path.caseId case, case.ordinal)

/-- The case as `generate` hands it over. -/
def delivered (path : SessionPath κ) (prefixes : List Bytes) (base : Nat)
    (case : MutationCase) : GeneratedCase where
  caseId := path.caseId case
  path := path.names
  prefixes := prefixes
  case := case.shift base

/-- The raw positions of a path, the first of them numbered `base`. -/
noncomputable def slots (path : SessionPath κ) (vars : Option Vars) (base : Nat)
    (raw : List Parts) : List (Slot MutationCase) :=
  (path.target.slotsFrom vars 0 raw).map (Slot.map (·.shift base))

theorem length_slots (path : SessionPath κ) (vars : Option Vars) (base : Nat)
    (raw : List Parts) : (path.slots vars base raw).length = raw.length := by
  simp [slots, CompiledRequest.length_slotsFrom]

theorem drop_slots (path : SessionPath κ) (vars : Option Vars) (base count : Nat)
    (raw : List Parts) :
    (path.slots vars base raw).drop count =
      ((path.target.slotsFrom vars 0 raw).drop count).map
        (Slot.map (·.shift base)) := by
  rw [slots, List.map_drop]

theorem slots_numbered (path : SessionPath κ) (vars : Option Vars) (base : Nat)
    (raw : List Parts) :
    Slot.Numbered (·.ordinal) base (path.slots vars base raw) := by
  intro i value hslot
  rw [slots, List.getElem?_map, Option.map_eq_some_iff] at hslot
  obtain ⟨slot, hat, hvalue⟩ := hslot
  cases slot with
  | stuck => cases hvalue
  | pass => cases hvalue
  | keep case =>
      cases hvalue
      have hordinal : case.ordinal = (0 + i : Nat) :=
        CompiledRequest.slotsFrom_numbered 0 raw i case hat
      simp only [MutationCase.shift]
      omega

end SessionPath

def GeneratedCase.pair (case : GeneratedCase) : Text × Int :=
  (case.caseId, case.case.ordinal)

theorem SessionPath.pairs_delivered {κ : Type} (path : SessionPath κ)
    (prefixes : List Bytes) (base : Nat) (cases : List MutationCase) :
    (cases.map (path.delivered prefixes base)).map (·.pair) =
      (cases.map (·.shift base)).map path.pair := by
  rw [List.map_map, List.map_map]
  rfl

namespace ProtocolDefinition

open CaseStream

variable {κ : Type}

/-- What lies ahead on several paths with their candidates, from a start offset on.
The first candidate of all is numbered `base`. -/
noncomputable def slotsAhead (vars : Option Vars) : Nat → Nat →
    List (SessionPath κ × List Parts) → List (SessionPath κ × List (Slot MutationCase))
  | _, _, [] => []
  | base, skip, (path, raw) :: rest =>
      (path, (path.slots vars base raw).drop skip) ::
        slotsAhead vars (base + raw.length) (skip - raw.length) rest

def pairsAhead (view : List (SessionPath κ × List (Slot MutationCase))) :
    List (Slot (Text × Int)) :=
  view.flatMap fun segment => segment.2.map (Slot.map segment.1.pair)

def total (segments : List (SessionPath κ × List Parts)) : Nat :=
  (segments.map fun segment => segment.2.length).sum

theorem pairsAhead_cons (path : SessionPath κ) (slots : List (Slot MutationCase))
    (view : List (SessionPath κ × List (Slot MutationCase))) :
    pairsAhead ((path, slots) :: view) =
      slots.map (Slot.map path.pair) ++ pairsAhead view := rfl

theorem total_cons (path : SessionPath κ) (raw : List Parts)
    (rest : List (SessionPath κ × List Parts)) :
    total ((path, raw) :: rest) = raw.length + total rest := by
  simp [total]

theorem globalCase_of_le {base position : Nat} {case : MutationCase}
    (hposition : case.ordinal = position) (hordinal : base + position ≤ 2147483647) :
    globalCase case base = .ok (case.shift base) := by
  have hsum : wrap64 ((base : Int) + position) = (base + position : Nat) := by
    rw [wrap64_eq_self] <;> omega
  have hsame : wrap32 ((base + position : Nat) : Int) = (base : Int) + position := by
    rw [wrap32_eq_self] <;> omega
  have hle : ((base + position : Nat) : Int) ≤ 2147483647 := by omega
  simp only [globalCase, hposition, hsum, MutationCase.shift]
  rw [if_pos hle, hsame]

theorem generatedCase_of_done {path : SessionPath κ} {prefixes : List Bytes}
    {base position fuel : Nat} {case : MutationCase}
    (hprefixes : path.prefixes fuel = .done prefixes)
    (hposition : case.ordinal = position) (hordinal : base + position ≤ 2147483647) :
    generatedCase path base case fuel = .done (path.delivered prefixes base case) := by
  have hglobal := globalCase_of_le hposition hordinal
  unfold generatedCase
  generalize globalCase case base = answer at hglobal
  subst hglobal
  rw [hprefixes]
  rfl

theorem emitCases_delivers {path : SessionPath κ} {prefixes : List Bytes}
    (hprefixes : Eval.Returns path.prefixes prefixes) {base : Nat} (limit : Nat)
    {stream middle : CaseStream} {cases : List MutationCase}
    (hdelivers : Delivers stream cases middle)
    (hordinal : ∀ case ∈ cases, ∃ position : Nat,
      case.ordinal = position ∧ base + position ≤ 2147483647) :
    ∀ (generated : Nat) (state : List GeneratedCase),
      generated + cases.length ≤ limit →
      ∃ enough, ∀ fuel, enough ≤ fuel → ∀ loops,
        emitCases collect path base limit fuel (cases.length + loops) stream generated
            state =
          emitCases collect path base limit fuel loops middle
            (generated + cases.length)
            (state ++ cases.map (path.delivered prefixes base)) := by
  induction hdelivers with
  | nil stream =>
      intro generated state _
      exact ⟨0, fun fuel _ loops => by simp⟩
  | @cons stream next middle case cases hanswer _ ih =>
      intro generated state hlimit
      rw [List.length_cons] at hlimit
      obtain ⟨hfirst, hrest⟩ := List.forall_mem_cons.mp hordinal
      obtain ⟨first, hnext⟩ := hanswer.eventually
      obtain ⟨second, hdone⟩ := hprefixes.eventually path.prefixes_mono
      obtain ⟨third, hemit⟩ := ih hrest (generated + 1)
        (state ++ [path.delivered prefixes base case]) (by omega)
      refine ⟨first + second + third, fun fuel hfuel loops => ?_⟩
      have hroom : ¬ limit ≤ generated := by omega
      rw [List.length_cons, Nat.add_right_comm, emitCases, if_neg hroom]
      obtain ⟨position, hposition, hle⟩ := hfirst
      have hcase := generatedCase_of_done (hdone fuel (by omega)) hposition hle
      simp only [hnext fuel (by omega), hcase, collect, hemit fuel (by omega) loops]
      congr 1
      · omega
      · simp

theorem emitCases_sweeps {path : SessionPath κ} {mode : CompiledRequest.Mode}
    {prefixes : List Bytes} (hprefixes : Eval.Returns path.prefixes prefixes)
    {raw : List Parts} (henumerates : path.target.Enumerates mode raw)
    {base generated : Nat} (hbase : base + raw.length < 2147483647)
    (hgenerated : generated ≤ base) {skip : Int32} {stream : CaseStream}
    (hstream : path.target.enumerate mode none skip 2147483647 = .ok stream)
    (state : List GeneratedCase) {cases : List MutationCase}
    (hcases : Slot.kept
      ((path.target.slotsFrom none 0 raw).drop skip.toInt.toNat) = cases) :
    (Slot.Clear ((path.target.slotsFrom none 0 raw).drop skip.toInt.toNat) →
      ∃ after, after.skip = skip.toInt.toNat - raw.length ∧
        after.ordinal = after.skip + raw.length ∧
        ∃ enough, ∀ fuel, enough ≤ fuel →
          emitCases collect path base 2147483647 fuel fuel stream generated state =
            (.done (.exhausted (generated + cases.length) after),
              state ++ cases.map (path.delivered prefixes base))) ∧
    (¬ Slot.Clear ((path.target.slotsFrom none 0 raw).drop skip.toInt.toNat) →
      ∃ enough, ∀ fuel, enough ≤ fuel → ∃ answer,
        (∀ ending, answer ≠ .done ending) ∧
          emitCases collect path base 2147483647 fuel fuel stream generated state =
            (answer, state ++ cases.map (path.delivered prefixes base))) := by
  obtain ⟨middle, hdelivers, hends, hhangs⟩ :=
    enumerate_sweeps henumerates (by omega) hstream
  rw [hcases] at hdelivers
  have hlength : cases.length ≤ raw.length - skip.toInt.toNat := by
    have hle := Slot.length_kept_le
      ((path.target.slotsFrom none 0 raw).drop skip.toInt.toNat)
    rwa [hcases, List.length_drop, CompiledRequest.length_slotsFrom] at hle
  have hordinal : ∀ case ∈ cases, ∃ position : Nat,
      case.ordinal = position ∧ base + position ≤ 2147483647 := by
    intro case hmem
    have hpositive := List.length_pos_of_mem hmem
    have hnumbered : Slot.Numbered (·.ordinal) 0
        (path.target.slotsFrom none 0 raw) :=
      CompiledRequest.slotsFrom_numbered 0 raw
    rw [← hcases] at hmem
    obtain ⟨hlower, hupper⟩ := (hnumbered.drop skip.toInt.toNat).kept_bounds hmem
    rw [List.length_drop, CompiledRequest.length_slotsFrom] at hupper
    exact ⟨case.ordinal.toNat, by omega, by omega⟩
  obtain ⟨enough, hemit⟩ := emitCases_delivers hprefixes 2147483647 hdelivers hordinal
    generated state (by omega)
  have hroom : ¬ 2147483647 ≤ generated + cases.length := by omega
  refine ⟨fun hclear => ?_, fun hstuck => ?_⟩
  · obtain ⟨after, hanswers, hskip, hposition⟩ := hends hclear
    obtain ⟨enough', hnext⟩ := hanswers.eventually
    refine ⟨after, hskip, hposition, enough + enough' + cases.length + 1, ?_⟩
    intro fuel hfuel
    obtain ⟨loops, hloops⟩ : ∃ loops, fuel = cases.length + (loops + 1) :=
      ⟨fuel - cases.length - 1, by omega⟩
    have hfirst := hemit fuel (by omega) (loops + 1)
    rw [← hloops] at hfirst
    rw [hfirst, emitCases, if_neg hroom, hnext fuel (by omega)]
  · refine ⟨enough + cases.length + 1, fun fuel hfuel => ?_⟩
    obtain ⟨loops, hloops⟩ : ∃ loops, fuel = cases.length + (loops + 1) :=
      ⟨fuel - cases.length - 1, by omega⟩
    have hfirst := hemit fuel (by omega) (loops + 1)
    rw [← hloops] at hfirst
    rw [hfirst, emitCases, if_neg hroom]
    have hnone := hhangs hstuck fuel
    cases hnext : next fuel middle with
    | mk answer after =>
        rw [hnext] at hnone
        cases answer with
        | done found => exact absurd rfl (hnone found)
        | raised error => exact ⟨_, by simp, rfl⟩
        | pending => exact ⟨_, by simp, rfl⟩

/-- Paths with the candidates their walkers give, and with prefixes that render. -/
def Segments (mode : CompiledRequest.Mode)
    (segments : List (SessionPath κ × List Parts)) : Prop :=
  ∀ segment ∈ segments, segment.1.target.Enumerates mode segment.2 ∧
    ∃ bytes, Eval.Returns segment.1.prefixes bytes

theorem skipsPath_iff {mode : CompiledRequest.Mode} {target : CompiledRequest}
    {raw : List Parts} (henumerates : target.Enumerates mode raw)
    (hsmall : raw.length < 9223372036854775808) {skip : Int32} :
    skipsPath mode target skip = true ↔
      mode = .sequential ∧ target.rawMutationCount = raw.length ∧
        (raw.length : Int) ≤ skip.toInt := by
  cases mode with
  | combinatorial maxDepth => simp [skipsPath]
  | sequential =>
      have hcount := henumerates.rawMutationCount hsmall
      simp [skipsPath, hcount]

theorem after_path {mode : CompiledRequest.Mode} {target : CompiledRequest}
    {raw : List Parts} (henumerates : target.Enumerates mode raw) (base : Nat)
    (hbase : base + raw.length < 2147483647) {skip : Int32} (hskip : 0 ≤ skip.toInt)
    (hstays : skipsPath mode target skip = false) {after : CaseStream}
    (hleft : after.skip = skip.toInt.toNat - raw.length)
    (hordinal : after.ordinal = after.skip + raw.length) :
    (skipAfter mode after).toInt = (skip.toInt.toNat - raw.length : Nat) ∧
      baseAfter mode target base after = (base + raw.length : Nat) := by
  have hupper := skip.toInt_lt
  cases mode with
  | sequential =>
      have hcount := henumerates.rawMutationCount (by omega)
      have hlt : ¬ (raw.length : Int) ≤ skip.toInt := by
        simpa [skipsPath, hcount] using hstays
      refine ⟨?_, ?_⟩
      · have hzero : (0 : Int32).toInt = 0 := by decide
        rw [skipAfter, hzero]
        omega
      · rw [baseAfter, hcount, wrap64_eq_self] <;> omega
  | combinatorial maxDepth =>
      refine ⟨?_, ?_⟩
      · rw [skipAfter, remainingSkip, Int32.toInt_ofNat_of_lt (by omega), hleft]
      · rw [baseAfter, position, remainingSkip, wrap32_eq_self, wrap64_eq_self] <;> omega

/-- From a start offset on, `generate` emits what lies ahead, up to the first position
it does not get past. -/
theorem generatePaths_emits {mode : CompiledRequest.Mode}
    {segments : List (SessionPath κ × List Parts)} :
    Segments mode segments → ∀ (skip : Int32) (generated base : Nat)
      (state : List GeneratedCase), 0 ≤ skip.toInt →
      base + total segments < 2147483647 → generated ≤ base →
      ∃ cases : List GeneratedCase,
        cases.map (·.pair) =
            Slot.kept (pairsAhead (slotsAhead none base skip.toInt.toNat segments)) ∧
          ∃ enough, ∀ fuel, enough ≤ fuel →
            (generatePaths collect mode 2147483647 fuel (segments.map Prod.fst) skip
              generated base state).2 = state ++ cases := by
  induction segments with
  | nil =>
      intro _ skip generated base state _ _ _
      exact ⟨[], rfl, 0, fun fuel _ => by simp [generatePaths]⟩
  | cons segment rest ih =>
      intro hsegments skip generated base state hskip htotal hgenerated
      obtain ⟨path, raw⟩ := segment
      obtain ⟨⟨henumerates, prefixes, hprefixes⟩, hrest⟩ :=
        List.forall_mem_cons.mp hsegments
      dsimp only at henumerates hprefixes
      rw [total_cons] at htotal
      rw [slotsAhead, pairsAhead_cons, List.map_cons]
      by_cases hpast : skipsPath mode path.target skip = true
      · -- A sequential offset beyond the candidates of the path carries on.
        obtain ⟨-, hcount, hle⟩ := (skipsPath_iff henumerates (by omega)).mp hpast
        have hbase : wrap64 ((base : Int) + raw.length) = (base + raw.length : Nat) := by
          rw [wrap64_eq_self] <;> omega
        have hleft := toInt_sub_ofInt (by omega) hle
        obtain ⟨cases, hpairs, enough, hemits⟩ := ih hrest
          (skip - Int32.ofInt raw.length) generated (base + raw.length) state (by omega)
          (by omega) (by omega)
        refine ⟨cases, ?_, enough, fun fuel hfuel => ?_⟩
        · have hnil : (path.slots none base raw).drop skip.toInt.toNat = [] :=
            List.drop_eq_nil_of_le (by rw [path.length_slots]; omega)
          have hcarried : (skip - Int32.ofInt raw.length).toInt.toNat =
              skip.toInt.toNat - raw.length := by omega
          rw [hpairs, hnil, List.map_nil, List.nil_append, hcarried]
        · rw [generatePaths, if_pos hpast, hcount, hbase]
          exact hemits fuel hfuel
      · obtain ⟨stream, hstream⟩ := enumerate_of_nonneg path.target mode none hskip
          (show 0 ≤ (2147483647 : Int32).toInt by decide)
        obtain ⟨found, hfound⟩ : ∃ found, Slot.kept
            ((path.target.slotsFrom none 0 raw).drop skip.toInt.toNat) = found :=
          ⟨_, rfl⟩
        obtain ⟨hends, hstops⟩ := emitCases_sweeps hprefixes henumerates (by omega)
          hgenerated hstream state hfound
        by_cases hclear : Slot.Clear
            ((path.target.slotsFrom none 0 raw).drop skip.toInt.toNat)
        · obtain ⟨after, hleft, hordinal, first, hemit⟩ := hends hclear
          obtain ⟨hskip', hbase'⟩ := after_path henumerates base (by omega)
            hskip (Bool.not_eq_true _ ▸ hpast) hleft hordinal
          have hlength : found.length ≤ raw.length - skip.toInt.toNat := by
            have hle := Slot.length_kept_le
              ((path.target.slotsFrom none 0 raw).drop skip.toInt.toNat)
            rwa [hfound, List.length_drop, CompiledRequest.length_slotsFrom] at hle
          obtain ⟨cases, hpairs, second, hemits⟩ := ih hrest
            (skipAfter mode after) (generated + found.length) (base + raw.length)
            (state ++ found.map (path.delivered prefixes base))
            (by omega) (by omega) (by omega)
          refine ⟨found.map (path.delivered prefixes base) ++ cases, ?_,
            first + second, fun fuel hfuel => ?_⟩
          · rw [List.map_append, path.pairs_delivered, hpairs, path.drop_slots,
              Slot.kept_append (Slot.clear_map.mpr (Slot.clear_map.mpr hclear)),
              Slot.kept_map, Slot.kept_map, hfound, hskip', Int.toNat_natCast]
          · rw [generatePaths, if_neg hpast, hstream]
            simp only [hemit fuel (by omega), hbase']
            rw [hemits fuel (by omega), List.append_assoc]
        · obtain ⟨enough, hemit⟩ := hstops hclear
          refine ⟨found.map (path.delivered prefixes base), ?_, enough,
            fun fuel hfuel => ?_⟩
          · rw [path.pairs_delivered, path.drop_slots,
              Slot.kept_append_of_not_clear
                (fun h => hclear (Slot.clear_map.mp (Slot.clear_map.mp h))),
              Slot.kept_map, Slot.kept_map, hfound]
          · obtain ⟨answer, hanswer, hstate⟩ := hemit fuel hfuel
            rw [generatePaths, if_neg hpast, hstream]
            cases answer with
            | done ending => exact absurd rfl (hanswer ending)
            | raised error => simp only [hstate]
            | pending => simp only [hstate]

theorem generates_slots {definition : ProtocolDefinition κ} {mode : CompiledRequest.Mode}
    {segments : List (SessionPath κ × List Parts)} (hsegments : Segments mode segments)
    (hpaths : segments.map Prod.fst = definition.paths)
    (htotal : total segments < 2147483647) {start : Int32} (hstart : 0 ≤ start.toInt) :
    ∃ cases, definition.Generates mode start cases ∧
      cases.map (·.pair) =
        Slot.kept (pairsAhead (slotsAhead none 0 start.toInt.toNat segments)) := by
  obtain ⟨cases, hpairs, enough, hemits⟩ := generatePaths_emits hsegments
    start 0 0 [] hstart (by omega) (le_refl 0)
  refine ⟨cases, ⟨enough, fun fuel hfuel => ?_⟩, hpairs⟩
  have hlimit : (2147483647 : Int32).toInt = 2147483647 := by decide
  rw [generate, if_pos ⟨hstart, by rw [hlimit]; decide⟩, ← hpaths, hlimit]
  exact hemits fuel hfuel

end ProtocolDefinition

end MoonBoofuzz
